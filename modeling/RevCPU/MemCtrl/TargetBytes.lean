import RevCPU.MemCtrl.Responded
import RevCPU.SignExt

namespace RevCPU

open Lib

namespace Host

theorem store_cell (h : Host) (p n i : ℕ) (v : BitVec (8 * n)) :
    (h.store p n v).cell p i = if i < n then UInt8.ofNat (v.toNat / 256 ^ i) else h.cell p i := by
  rw [store, write_cell]
  by_cases hi : i < n
  · rw [if_pos (by simpa using hi), if_pos hi, Nat.sub_zero, leBytes_getD n _ hi]
  · rw [if_neg (by simpa using hi), if_neg hi]

theorem store_read (h : Host) (p n : ℕ) (v : BitVec (8 * n)) :
    (h.store p n v).read p n = leBytes n v.toNat := by
  refine List.ext_getElem (by simp) ?_
  intro i hi hi'
  have hlt : i < n := by simpa using hi
  have hcell := store_cell h p n i v
  rw [if_pos hlt, ← leBytes_getD n _ hlt] at hcell
  simpa [read, List.getD_eq_getElem?_getD, List.getElem?_eq_getElem hi'] using hcell

theorem load_toNat (h : Host) (p n : ℕ) : (h.load p n).toNat = leNat (h.read p n) := by
  have hlt := leNat_lt (h.read p n)
  rw [read_length, pow256] at hlt
  exact (BitVec.toNat_ofNat _ _).trans (Nat.mod_eq_of_lt hlt)

/-- A store of a value that agrees with the one stored before on the low bytes
    does not change these. -/
theorem store_load_cell (h : Host) {p n k i : ℕ} {v : BitVec (8 * n)} (hk : k ≤ n)
    (hv : v.toNat % 256 ^ k = leNat (h.read p n) % 256 ^ k) (hi : i < k) :
    (h.store p n v).cell p i = h.cell p i := by
  rw [store_cell, if_pos (by omega), byte_congr hv hi, byte_leNat _ (by simp; omega),
    read_getD h p (by omega)]

theorem store_other (h : Host) {p q : ℕ} (hne : q ≠ p) (n i : ℕ) (v : BitVec (8 * n)) :
    (h.store p n v).cell q i = h.cell q i := write_other h hne 0 i _

end Host

/-- The extensions that the callers of the controller ask for: to a register
    that is wider than the value. -/
structure ExtOk (flags : RevFlag) (Size : ℕ) : Prop where
  word : (RevFlagHas flags .F_SEXT32 || RevFlagHas flags .F_ZEXT32) = true → Size < 4
  double : (RevFlagHas flags .F_SEXT64 || RevFlagHas flags .F_ZEXT64) = true → Size < 8
  box : RevFlagHas flags .F_BOXNAN = true → Size ≤ 4

instance (flags : RevFlag) (Size : ℕ) : Decidable (ExtOk flags Size) :=
  decidable_of_iff
    (((RevFlagHas flags .F_SEXT32 || RevFlagHas flags .F_ZEXT32) = true → Size < 4) ∧
      ((RevFlagHas flags .F_SEXT64 || RevFlagHas flags .F_ZEXT64) = true → Size < 8) ∧
      (RevFlagHas flags .F_BOXNAN = true → Size ≤ 4))
    ⟨fun h => ⟨h.1, h.2.1, h.2.2⟩, fun h => ⟨h.word, h.double, h.box⟩⟩

namespace RevBasicMemCtrl

/-- An extension stores a value whose low bytes are those of the target. -/
theorem ext_cell (h : Host) {p n Size : ℕ} {v : BitVec (8 * n)} (hlt : Size < n)
    (hv : v.toNat % 2 ^ (8 * Size) = (h.load p n).toNat % 2 ^ (8 * Size)) :
    (∀ i < Size, (h.store p n v).cell p i = h.cell p i) ∧
      ∀ q, q ≠ p → (h.store p n v).cell q = h.cell q := by
  refine ⟨?_, ?_⟩
  · intro i hi
    refine h.store_load_cell (k := Size) (by omega) ?_ hi
    rw [pow256, hv, Host.load_toNat]
  · intro q hq
    funext i
    exact h.store_other hq n i v

theorem boxNaN_mod (x : BitVec 32) :
    (x.setWidth 64 ||| ((~~~(0 : BitVec 64)) <<< 32)).toNat % 2 ^ 32 = x.toNat := by
  have hhigh : ((~~~(0 : BitVec 64)) <<< 32).toNat = 2 ^ 32 * (2 ^ 32 - 1) := by decide
  have hlt := x.isLt
  rw [BitVec.toNat_or, hhigh, Nat.or_mod_two_pow, Nat.mul_mod_right, Nat.or_zero,
    BitVec.toNat_setWidth]
  omega

/-- What an extension of the target keeps. -/
theorem extendTarget_spec {h h' : Host} {op : RevMemOp} {p n : ℕ}
    {ext : BitVec (8 * n) → ℕ → BitVec (8 * n)}
    (hext : ∀ v : BitVec (8 * n), op.Size < n →
      (ext v (8 * op.Size)).toNat % 2 ^ (8 * op.Size) = v.toNat % 2 ^ (8 * op.Size))
    (htgt : op.target = some p) (hresp : extendTarget h op n ext = some h') :
    (∀ i < op.Size, h'.cell p i = h.cell p i) ∧ (∀ q, q ≠ p → h'.cell q = h.cell q) ∧
      h'.completed = h.completed := by
  unfold extendTarget at hresp
  rw [htgt] at hresp
  split at hresp
  · rename_i hlt
    obtain rfl := Option.some.inj hresp
    obtain ⟨hlow, hother⟩ := ext_cell h hlt (hext (h.load p n) hlt)
    exact ⟨hlow, hother, rfl⟩
  · simp at hresp

/-- `handleFlagResp` keeps the bytes of the value and the other objects. -/
theorem handleFlagResp_spec {h h' : Host} {op : RevMemOp} {p : ℕ} (hok : ExtOk op.flags op.Size)
    (hpos : 0 < op.Size) (htgt : op.target = some p) (hresp : handleFlagResp h op = some h') :
    (∀ i < op.Size, h'.cell p i = h.cell p i) ∧ (∀ q, q ≠ p → h'.cell q = h.cell q) ∧
      h'.completed = h.completed := by
  have hsign : ∀ n (v : BitVec (8 * n)), op.Size < n →
      (SignExt v (8 * op.Size)).toNat % 2 ^ (8 * op.Size) = v.toNat % 2 ^ (8 * op.Size) :=
    fun n v hlt => SignExt_mod v (by omega) (by omega)
  have hzero : ∀ n (v : BitVec (8 * n)), op.Size < n →
      (ZeroExt v (8 * op.Size)).toNat % 2 ^ (8 * op.Size) = v.toNat % 2 ^ (8 * op.Size) := by
    intro n v hlt
    rw [ZeroExt_toNat _ (by omega), Nat.mod_mod]
  unfold handleFlagResp at hresp
  split at hresp
  · exact extendTarget_spec (hsign 4) htgt hresp
  split at hresp
  · exact extendTarget_spec (hsign 8) htgt hresp
  split at hresp
  · exact extendTarget_spec (hzero 4) htgt hresp
  split at hresp
  · exact extendTarget_spec (hzero 8) htgt hresp
  rw [htgt] at hresp
  split at hresp
  · rename_i hflag
    have hle := hok.box hflag
    obtain rfl := Option.some.inj hresp
    have hbox : ∀ i < 4, (h.boxNaN p).cell p i = h.cell p i := by
      intro i hi
      refine h.store_load_cell (n := 8) (k := 4) (by omega) ?_ hi
      have hread : h.read p 8 = h.read p 4 ++ (List.range 4).map fun i => h.cell p (4 + i) := rfl
      have hload := h.load_toNat p 4
      have hlow := leNat_lt (h.read p 4)
      rw [Host.read_length] at hlow
      rw [hread, leNat_append, Host.read_length, Nat.add_mul_mod_self_left,
        Nat.mod_eq_of_lt hlow, ← hload]
      exact boxNaN_mod (h.load p 4)
    exact ⟨fun i hi => hbox i (by omega), fun q hq => funext fun i => h.store_other hq 8 i _, rfl⟩
  · obtain rfl := Option.some.inj hresp
    exact ⟨fun _ _ => rfl, fun _ _ => rfl, rfl⟩

/-- The bytes that an AMO writes for the bytes it has read and its operand. -/
def amoNew (flags : RevFlag) (Size : ℕ) (old operand : List UInt8) : List UInt8 :=
  leBytes Size (ApplyAMO flags (BitVec.ofNat (8 * Size) (leNat old))
    (BitVec.ofNat (8 * Size) (leNat operand))).toNat

/-- `performAMO` computes these bytes and restores the target. -/
theorem amoTarget_spec (h : Host) {op : RevMemOp} (hsize : op.Size = 4 ∨ op.Size = 8) (p : ℕ) :
    (amoTarget h op p).read p op.Size = amoNew op.flags op.Size (h.read p op.Size) op.membuf ∧
      (amoHost h op p).cell = h.cell ∧ (amoHost h op p).completed = h.completed := by
  have hstore : ∀ n (v : BitVec (8 * n)), ((h.store p n v).write p 0 (h.read p n)).cell = h.cell := by
    intro n v
    funext q i
    by_cases hq : q = p
    · subst hq
      rw [Host.write_cell, Host.store_cell]
      by_cases hi : i < n
      · rw [if_pos (by simpa using hi), Nat.sub_zero, h.read_getD q hi]
      · rw [if_neg (by simpa using hi), if_neg hi]
    · rw [Host.write_other _ hq, h.store_other hq]
  rcases hsize with hsize | hsize
  · unfold amoHost amoTarget amoNew
    rw [hsize]
    exact ⟨h.store_read p 4 _, hstore 4 _, rfl⟩
  · unfold amoHost amoTarget amoNew
    rw [hsize]
    exact ⟨h.store_read p 8 _, hstore 8 _, rfl⟩

end RevBasicMemCtrl

end RevCPU
