import RevCPU.Lib.Bytes
import RevCPU.Lib.Fallible

namespace RevCPU.Lib

variable {ε : Type}

/-- The byte of an image at an offset; reading outside of the image is the
    error `e`. Offsets are counted in 64 bits. -/
def readByte (img : List UInt8) (e : ε) (off : ℕ) : Except ε UInt8 :=
  match img[off % 2 ^ 64]? with
  | some b => .ok b
  | none => .error e

/-- `n` bytes from an offset on. -/
def readBytes (img : List UInt8) (e : ε) : ℕ → ℕ → Except ε (List UInt8)
  | _, 0 => .ok []
  | off, n + 1 => do
    let b ← readByte img e off
    let bs ← readBytes img e (off + 1) n
    .ok (b :: bs)

/-- An unsigned number of `n` bytes, in little-endian order. -/
def readLE (img : List UInt8) (e : ε) (off n : ℕ) : Except ε ℕ := do
  let bs ← readBytes img e off n
  .ok (leNat bs)

/-- The comparison of the string at an offset with a constant, which ends with
    its zero byte: bytes are read up to the first difference. -/
def compareStr (img : List UInt8) (e : ε) : ℕ → List UInt8 → Except ε Bool
  | off, [] => do
    let b ← readByte img e off
    .ok (b == 0)
  | off, c :: cs => do
    let b ← readByte img e off
    if b == c then compareStr img e (off + 1) cs else .ok false

/-- The number of bytes before the first zero byte, at most `n`. -/
def boundedLen (img : List UInt8) (e : ε) : ℕ → ℕ → Except ε ℕ
  | _, 0 => .ok 0
  | off, n + 1 => do
    let b ← readByte img e off
    if b == 0 then .ok 0
    else
      let m ← boundedLen img e (off + 1) n
      .ok (m + 1)

/-- `n` bytes from an offset on lie in the image. -/
def Inside (img : List UInt8) (off n : ℕ) : Prop := ∀ k < n, (off + k) % 2 ^ 64 < img.length

instance (img : List UInt8) (off n : ℕ) : Decidable (Inside img off n) :=
  inferInstanceAs (Decidable (∀ k < n, (off + k) % 2 ^ 64 < img.length))

/-- The byte at an offset, 0 outside of the image. -/
def byteAt (img : List UInt8) (off : ℕ) : UInt8 := img.getD (off % 2 ^ 64) 0

/-- The number of `n` bytes at an offset. -/
def numAt (img : List UInt8) (off n : ℕ) : ℕ := leNat (getBytes (byteAt img) off n)

/-- The string at an offset is the constant. -/
def strAt (img : List UInt8) : ℕ → List UInt8 → Bool
  | off, [] => byteAt img off == 0
  | off, c :: cs => byteAt img off == c && strAt img (off + 1) cs

/-- The bytes of the string at an offset lie in the image up to the first
    difference from a constant. -/
def StrInside (img : List UInt8) : ℕ → List UInt8 → Prop
  | off, [] => Inside img off 1
  | off, c :: cs => Inside img off 1 ∧ (byteAt img off = c → StrInside img (off + 1) cs)

instance instDecidableStrInside (img : List UInt8) :
    ∀ (off : ℕ) (s : List UInt8), Decidable (StrInside img off s)
  | off, [] => inferInstanceAs (Decidable (Inside img off 1))
  | off, c :: cs =>
    have := instDecidableStrInside img (off + 1) cs
    inferInstanceAs
      (Decidable (Inside img off 1 ∧ (byteAt img off = c → StrInside img (off + 1) cs)))

/-- The number of bytes before the first zero byte, at most `n`. -/
def lenAt (img : List UInt8) : ℕ → ℕ → ℕ
  | _, 0 => 0
  | off, n + 1 => if byteAt img off = 0 then 0 else lenAt img (off + 1) n + 1

/-- The bytes of the string at an offset lie in the image up to the first zero
    byte, or the first `n` of them do. -/
def LenInside (img : List UInt8) (off n : ℕ) : Prop :=
  Inside img off (min n (lenAt img off n + 1))

instance (img : List UInt8) (off n : ℕ) : Decidable (LenInside img off n) :=
  inferInstanceAs (Decidable (Inside img off (min n (lenAt img off n + 1))))

section Reads

variable {img : List UInt8} {e : ε}

theorem inside_one {off : ℕ} : Inside img off 1 ↔ off % 2 ^ 64 < img.length := by
  constructor
  · intro h
    exact h 0 (by omega)
  · intro h k hk
    obtain rfl : k = 0 := by omega
    exact h

theorem inside_succ {off n : ℕ} : Inside img off (n + 1) ↔ Inside img off 1 ∧ Inside img (off + 1) n := by
  rw [inside_one]
  constructor
  · intro h
    refine ⟨h 0 (by omega), ?_⟩
    intro k hk
    have hin := h (k + 1) (by omega)
    rwa [show off + (k + 1) = off + 1 + k by omega] at hin
  · rintro ⟨h, hrest⟩ k hk
    cases k with
    | zero => exact h
    | succ k =>
      have hin := hrest k (by omega)
      rwa [show off + 1 + k = off + (k + 1) by omega] at hin

theorem Inside.sub {off n o k : ℕ} (h : Inside img off n) (hk : o + k ≤ n) :
    Inside img (off + o) k := by
  intro j hj
  rw [Nat.add_assoc]
  exact h (o + j) (by omega)

theorem readByte_eq (off : ℕ) :
    readByte img e off = if Inside img off 1 then .ok (byteAt img off) else .error e := by
  simp only [readByte, inside_one, byteAt]
  split
  · rename_i b hb
    obtain ⟨hlt, -⟩ := List.getElem?_eq_some_iff.mp hb
    rw [if_pos hlt, List.getD_eq_getElem?_getD, hb]
    rfl
  · rename_i hnone
    rw [if_neg (by simpa using hnone)]

theorem getBytes_succ (mem : ℕ → UInt8) (off n : ℕ) :
    getBytes mem off (n + 1) = mem off :: getBytes mem (off + 1) n := by
  simp only [getBytes, List.range_succ_eq_map, List.map_cons, List.map_map, Nat.add_zero]
  congr 1
  refine List.map_congr_left ?_
  intro k _
  simp only [Function.comp_apply, Nat.succ_eq_add_one]
  congr 1
  omega

theorem readBytes_eq (off n : ℕ) :
    readBytes img e off n =
      if Inside img off n then .ok (getBytes (byteAt img) off n) else .error e := by
  induction n generalizing off with
  | zero => rw [if_pos (by intro k hk; omega)]; rfl
  | succ n ih =>
    rw [readBytes, readByte_eq, ih]
    by_cases hfirst : Inside img off 1
    · by_cases hrest : Inside img (off + 1) n
      · rw [if_pos hfirst, if_pos hrest, if_pos (inside_succ.mpr ⟨hfirst, hrest⟩), getBytes_succ]
        rfl
      · rw [if_pos hfirst, if_neg hrest, if_neg (fun h => hrest (inside_succ.mp h).2)]
        rfl
    · rw [if_neg hfirst, if_neg (fun h => hfirst (inside_succ.mp h).1)]
      rfl

/-- A number is read when its bytes are in the image. -/
theorem readLE_eq (off n : ℕ) :
    readLE img e off n = if Inside img off n then .ok (numAt img off n) else .error e := by
  rw [readLE, readBytes_eq]
  split <;> rfl

theorem compareStr_eq (off : ℕ) (s : List UInt8) :
    compareStr img e off s = if StrInside img off s then .ok (strAt img off s) else .error e := by
  induction s generalizing off with
  | nil =>
    rw [compareStr, readByte_eq]
    by_cases h : Inside img off 1
    · rw [if_pos h, if_pos (show StrInside img off [] from h)]
      rfl
    · rw [if_neg h, if_neg (show ¬StrInside img off [] from h)]
      rfl
  | cons c cs ih =>
    rw [compareStr, readByte_eq]
    by_cases h : Inside img off 1
    · rw [if_pos h]
      show (if (byteAt img off == c) = true then _ else _) = _
      by_cases hc : byteAt img off = c
      · rw [if_pos (by simpa using hc), ih]
        simp only [StrInside, h, hc, true_and, true_implies, strAt, beq_self_eq_true, Bool.true_and]
      · rw [if_neg (by simpa using hc), if_pos ⟨h, fun heq => absurd heq hc⟩]
        simp [strAt, hc]
    · rw [if_neg h, if_neg (fun hin => h hin.1)]
      rfl

theorem lenAt_le (off n : ℕ) : lenAt img off n ≤ n := by
  induction n generalizing off with
  | zero => simp [lenAt]
  | succ n ih =>
    have hle := ih (off + 1)
    rw [lenAt]
    split <;> omega

theorem boundedLen_eq (off n : ℕ) :
    boundedLen img e off n =
      if LenInside img off n then .ok (lenAt img off n) else .error e := by
  induction n generalizing off with
  | zero =>
    rw [if_pos (by intro k hk; omega)]
    rfl
  | succ n ih =>
    rw [boundedLen, readByte_eq]
    by_cases h : Inside img off 1
    · rw [if_pos h]
      show (if (byteAt img off == 0) = true then _ else _) = _
      by_cases hz : byteAt img off = 0
      · have hlen : lenAt img off (n + 1) = 0 := by rw [lenAt, if_pos hz]
        have hin : LenInside img off (n + 1) := by
          rw [LenInside, hlen, show min (n + 1) (0 + 1) = 1 by omega]
          exact h
        rw [if_pos (by simpa using hz), if_pos hin, hlen]
      · have hlen : lenAt img off (n + 1) = lenAt img (off + 1) n + 1 := by rw [lenAt, if_neg hz]
        have hin : LenInside img off (n + 1) ↔ LenInside img (off + 1) n := by
          rw [LenInside, hlen, Nat.add_min_add_right, inside_succ]
          exact and_iff_right h
        rw [if_neg (by simpa using hz), ih, hlen]
        by_cases hrest : LenInside img (off + 1) n
        · rw [if_pos hrest, if_pos (hin.mpr hrest)]
          rfl
        · rw [if_neg hrest, if_neg (fun hall => hrest (hin.mp hall))]
          rfl
    · rw [if_neg h, if_neg]
      · rfl
      · intro hin
        exact h (Inside.sub (o := 0) hin (by omega))

end Reads

end RevCPU.Lib
