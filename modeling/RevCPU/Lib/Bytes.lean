import Mathlib.Data.List.GetD
import Mathlib.Data.Nat.Notation
import Mathlib.Tactic.Ring

namespace RevCPU.Lib

/-- The number a little-endian byte string stands for. -/
def leNat : List UInt8 → ℕ
  | [] => 0
  | b :: bs => b.toNat + 256 * leNat bs

/-- The `n` low bytes of a number, little-endian. -/
def leBytes : ℕ → ℕ → List UInt8
  | 0, _ => []
  | n + 1, v => UInt8.ofNat v :: leBytes n (v / 256)

@[simp] theorem leBytes_length (n v : ℕ) : (leBytes n v).length = n := by
  induction n generalizing v with
  | zero => rfl
  | succ n ih => simp [leBytes, ih]

theorem leNat_leBytes (n v : ℕ) : leNat (leBytes n v) = v % 256 ^ n := by
  induction n generalizing v with
  | zero => simp [leBytes, leNat, Nat.mod_one]
  | succ n ih =>
    have hbyte : (UInt8.ofNat v).toNat = v % 256 := by simp
    rw [leBytes, leNat, ih, hbyte, pow_succ', Nat.mod_mul]

theorem leBytes_leNat (bs : List UInt8) : leBytes bs.length (leNat bs) = bs := by
  induction bs with
  | nil => rfl
  | cons b bs ih =>
    have hb : b.toNat < 256 := b.toNat_lt
    have hbyte : UInt8.ofNat (b.toNat + 256 * leNat bs) = b := by
      apply UInt8.toNat_inj.mp
      simp
    have hrest : (b.toNat + 256 * leNat bs) / 256 = leNat bs := by omega
    simp only [List.length_cons, leBytes, leNat, hbyte, hrest, ih]

/-- The `n` bytes of a memory from `off` on. -/
def getBytes (mem : ℕ → UInt8) (off n : ℕ) : List UInt8 := (List.range n).map fun i => mem (off + i)

/-- The memory with the bytes from `off` on replaced. -/
def setBytes (mem : ℕ → UInt8) (off : ℕ) (bytes : List UInt8) : ℕ → UInt8 := fun i =>
  if off ≤ i ∧ i < off + bytes.length then bytes.getD (i - off) 0 else mem i

@[simp] theorem getBytes_length (mem : ℕ → UInt8) (off n : ℕ) : (getBytes mem off n).length = n := by
  simp [getBytes]

theorem getBytes_append (m : ℕ → UInt8) (a j n : ℕ) :
    getBytes m a j ++ getBytes m (a + j) n = getBytes m a (j + n) := by
  unfold getBytes
  rw [List.range_add, List.map_append, List.map_map]
  congr 1
  refine List.map_congr_left fun i _ => ?_
  simp only [Function.comp_apply, Nat.add_assoc]

theorem getBytes_getD (mem : ℕ → UInt8) (off : ℕ) {n i : ℕ} (hi : i < n) :
    (getBytes mem off n).getD i 0 = mem (off + i) := by
  simp [getBytes, hi]

/-- A byte of a number is a byte of what is left of it modulo more bytes. -/
theorem byte_congr {v w k i : ℕ} (h : v % 256 ^ k = w % 256 ^ k) (hi : i < k) :
    UInt8.ofNat (v / 256 ^ i) = UInt8.ofNat (w / 256 ^ i) := by
  have hbyte : ∀ x : ℕ, x / 256 ^ i % 256 = x % 256 ^ k % 256 ^ (i + 1) / 256 ^ i := by
    intro x
    rw [Nat.mod_mod_of_dvd x (Nat.pow_dvd_pow 256 hi), pow_succ, Nat.mod_mul_right_div_self]
  apply UInt8.toNat_inj.mp
  have heq : v / 256 ^ i % 256 = w / 256 ^ i % 256 := by rw [hbyte v, hbyte w, h]
  simpa using heq

theorem leBytes_getD (n v : ℕ) {i : ℕ} (hi : i < n) :
    (leBytes n v).getD i 0 = UInt8.ofNat (v / 256 ^ i) := by
  induction n generalizing v i with
  | zero => omega
  | succ n ih =>
    cases i with
    | zero => simp [leBytes]
    | succ i =>
      have hrest := ih (v / 256) (i := i) (by omega)
      rw [Nat.div_div_eq_div_mul, ← pow_succ'] at hrest
      simpa [leBytes] using hrest

theorem leNat_lt (bs : List UInt8) : leNat bs < 256 ^ bs.length := by
  induction bs with
  | nil => simp [leNat]
  | cons b bs ih =>
    have hb : b.toNat < 256 := b.toNat_lt
    rw [leNat, List.length_cons, pow_succ']
    omega

theorem leNat_append (xs ys : List UInt8) :
    leNat (xs ++ ys) = leNat xs + 256 ^ xs.length * leNat ys := by
  induction xs with
  | nil => simp [leNat]
  | cons x xs ih =>
    rw [List.cons_append, leNat, leNat, ih, List.length_cons, pow_succ', Nat.mul_add, Nat.mul_assoc]
    omega

theorem pow256 (n : ℕ) : (256 : ℕ) ^ n = 2 ^ (8 * n) := by
  rw [show (256 : ℕ) = 2 ^ 8 from rfl, ← Nat.pow_mul]

/-- The bytes of the number that a byte string stands for. -/
theorem byte_leNat (bs : List UInt8) {i : ℕ} (hi : i < bs.length) :
    UInt8.ofNat (leNat bs / 256 ^ i) = bs.getD i 0 := by
  rw [← leBytes_getD bs.length (leNat bs) hi, leBytes_leNat]

/-- Flipping a bit above a number. -/
theorem xor_two_pow {v n : ℕ} (hv : v < 2 ^ n) : v ^^^ 2 ^ n = v + 2 ^ n := by
  have hdiv : (v ^^^ 2 ^ n) / 2 ^ n = 1 := by
    rw [Nat.xor_div_two_pow, Nat.div_eq_of_lt hv, Nat.div_self (Nat.two_pow_pos n), Nat.zero_xor]
  have hmod : (v ^^^ 2 ^ n) % 2 ^ n = v := by
    rw [Nat.xor_mod_two_pow, Nat.mod_self, Nat.xor_zero, Nat.mod_eq_of_lt hv]
  have hsplit := Nat.div_add_mod (v ^^^ 2 ^ n) (2 ^ n)
  rw [hdiv, hmod] at hsplit
  omega

/-- The low bytes of a number are those of its first bytes. -/
theorem leNat_map_range_mod (g : ℕ → UInt8) {k n : ℕ} (hk : k ≤ n) :
    leNat ((List.range n).map g) % 256 ^ k = leNat ((List.range k).map g) := by
  obtain ⟨m, rfl⟩ := Nat.exists_eq_add_of_le hk
  have hlt := leNat_lt ((List.range k).map g)
  rw [List.length_map, List.length_range] at hlt
  rw [List.range_add, List.map_append, leNat_append, List.length_map, List.length_range,
    Nat.add_mul_mod_self_left, Nat.mod_eq_of_lt hlt]

/-- What has been stored is read back, and bytes elsewhere are as before. -/
theorem getBytes_setBytes (mem : ℕ → UInt8) (off : ℕ) (bytes : List UInt8) :
    getBytes (setBytes mem off bytes) off bytes.length = bytes := by
  refine List.ext_getElem (by simp) ?_
  intro i hi hi'
  simp only [getBytes, List.getElem_map, List.getElem_range, setBytes]
  rw [if_pos (by omega), Nat.add_sub_cancel_left]
  simp [hi']

theorem getBytes_setBytes_of_disjoint (mem : ℕ → UInt8) {off off' n : ℕ} {bytes : List UInt8}
    (h : off' + n ≤ off ∨ off + bytes.length ≤ off') :
    getBytes (setBytes mem off bytes) off' n = getBytes mem off' n := by
  refine List.map_congr_left ?_
  intro i hi
  rw [List.mem_range] at hi
  exact if_neg (by omega)

/-- A later store over the same bytes. -/
theorem setBytes_setBytes (mem : ℕ → UInt8) (off : ℕ) {bytes bytes' : List UInt8}
    (h : bytes.length ≤ bytes'.length) :
    setBytes (setBytes mem off bytes) off bytes' = setBytes mem off bytes' := by
  funext i
  unfold setBytes
  by_cases hi : off ≤ i ∧ i < off + bytes'.length
  · rw [if_pos hi, if_pos hi]
  · rw [if_neg hi, if_neg hi, if_neg (by omega)]

/-- Two stores side by side. -/
theorem setBytes_append (mem : ℕ → UInt8) (off : ℕ) (xs ys : List UInt8) :
    setBytes mem off (xs ++ ys) = setBytes (setBytes mem off xs) (off + xs.length) ys := by
  funext i
  simp only [setBytes, List.length_append]
  by_cases hx : off ≤ i ∧ i < off + xs.length
  · rw [if_pos (by omega), if_neg (by omega), if_pos hx, List.getD_append _ _ _ _ (by omega)]
  · by_cases hy : off + xs.length ≤ i ∧ i < off + xs.length + ys.length
    · rw [if_pos (by omega), if_pos hy, List.getD_append_right _ _ _ _ (by omega)]
      congr 1
      omega
    · rw [if_neg (by omega), if_neg hy, if_neg hx]

theorem leBytes_of_leNat {bs : List UInt8} {n v : ℕ} (hlen : bs.length = n) (hv : leNat bs = v) :
    leBytes n v = bs := by
  rw [← hlen, ← hv, leBytes_leNat]

/-- Stores that do not overlap commute. -/
theorem setBytes_comm (mem : ℕ → UInt8) {a b : ℕ} {xs ys : List UInt8}
    (h : a + xs.length ≤ b ∨ b + ys.length ≤ a) :
    setBytes (setBytes mem a xs) b ys = setBytes (setBytes mem b ys) a xs := by
  funext i
  unfold setBytes
  by_cases hx : a ≤ i ∧ i < a + xs.length
  · simp only [if_pos hx]
    exact if_neg (by omega)
  · simp only [if_neg hx]

/-- Part of what has been stored is read back. -/
theorem getBytes_setBytes_part (mem : ℕ → UInt8) (off : ℕ) {i n : ℕ} {bytes : List UInt8}
    (h : i + n ≤ bytes.length) :
    getBytes (setBytes mem off bytes) (off + i) n = (bytes.drop i).take n := by
  refine List.ext_getElem (by simp; omega) ?_
  intro j hj hj'
  rw [getBytes_length] at hj
  simp only [getBytes, List.getElem_map, List.getElem_range, setBytes, List.getElem_take,
    List.getElem_drop]
  rw [if_pos (by omega), List.getD_eq_getElem?_getD, show off + i + j - off = i + j by omega,
    List.getElem?_eq_getElem (by omega), Option.getD_some]

end RevCPU.Lib
