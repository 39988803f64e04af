import RevCPU.Lib.Bytes

namespace RevCPU.Faults

open Lib

/-- `RevRand(0, max)` for a number `pick` of the generator. -/
def RevRand (max pick : ℕ) : ℕ := pick % (max + 1)

/-- A left shift of a value of `w` bits; by `w` or more it is undefined. -/
def shl {w : ℕ} (v : BitVec w) (n : ℕ) : Option (BitVec w) := if n < w then some (v <<< n) else none

/-- `~(~0 << n)` at `w` bits. -/
def lowOnes (w n : ℕ) : Option ℕ := (shl (~~~(0 : BitVec w)) n).map fun m => (~~~m).toNat

/-- `(uint32_t{1} << n) - 1`. -/
def oneShl (n : ℕ) : Option ℕ := (shl (1 : BitVec 32) n).map fun m => (m - 1).toNat

/-- `~(uint32_t{0} << n)`. -/
def zeroShl (n : ℕ) : Option ℕ := (shl (0 : BitVec 32) n).map fun m => (~~~m).toNat

/-- `|=` of a value of `n` bytes. -/
def orBytes (mem : ℕ → UInt8) (off n v : ℕ) : ℕ → UInt8 :=
  setBytes mem off (leBytes n (leNat (getBytes mem off n) ||| v))

theorem RevRand_le (max pick : ℕ) : RevRand max pick ≤ max :=
  Nat.le_of_lt_succ (Nat.mod_lt _ (Nat.succ_pos _))

theorem RevRand_of_le {max v : ℕ} (h : v ≤ max) : RevRand max v = v :=
  Nat.mod_eq_of_lt (Nat.lt_succ_of_le h)

theorem lowOnes_eq (w n : ℕ) : lowOnes w n = if n < w then some (2 ^ n - 1) else none := by
  unfold lowOnes shl
  split
  · rename_i h
    have hmask : (~~~((~~~(0 : BitVec w)) <<< n)).toNat = 2 ^ n - 1 := by
      apply Nat.eq_of_testBit_eq
      intro i
      rw [BitVec.testBit_toNat, Nat.testBit_two_pow_sub_one]
      by_cases hi : i < n
      · simp [hi, Nat.lt_trans hi h]
      · by_cases hw : i < w
        · simp [hi, hw]
        · simp [hi, hw]
    rw [Option.map_some, hmask]
  · rfl

theorem oneShl_eq (n : ℕ) : oneShl n = if n < 32 then some (2 ^ n - 1) else none := by
  unfold oneShl shl
  split
  · rename_i h
    have hpow : 2 ^ n < 2 ^ 32 := Nat.pow_lt_pow_right (by decide) h
    have hone : ((1 : BitVec 32) <<< n).toNat = 2 ^ n := by
      rw [BitVec.toNat_shiftLeft, Nat.shiftLeft_eq]
      have hval : (1 : BitVec 32).toNat = 1 := rfl
      rw [hval, Nat.one_mul, Nat.mod_eq_of_lt hpow]
    have hpos := Nat.two_pow_pos n
    have hsub : ((1 : BitVec 32) <<< n - 1).toNat = 2 ^ n - 1 := by
      rw [BitVec.toNat_sub, hone]
      have hval : (1 : BitVec 32).toNat = 1 := rfl
      rw [hval]
      omega
    rw [Option.map_some, hsub]
  · rfl

/-- The mask does not depend on the width. -/
theorem zeroShl_eq (n : ℕ) : zeroShl n = if n < 32 then some (2 ^ 32 - 1) else none := by
  unfold zeroShl shl
  split
  · have hzero : (0 : BitVec 32) <<< n = 0 := BitVec.zero_shiftLeft n
    rw [hzero]
    rfl
  · rfl

theorem lt_two_pow_of_le {v n w : ℕ} (hv : v ≤ 2 ^ n - 1) (h : n ≤ w) : v < 2 ^ w := by
  have hpow : 2 ^ n ≤ 2 ^ w := Nat.pow_le_pow_right (by decide) h
  have hpos := Nat.two_pow_pos n
  omega

theorem le_of_ones {n w : ℕ} (h : (2 ^ n - 1) / 2 ^ w = 0) : n ≤ w := by
  have hpos := Nat.two_pow_pos n
  have hlt := (Nat.div_eq_zero_iff_lt (Nat.two_pow_pos w)).mp h
  by_contra hnot
  have hpow : 2 ^ (w + 1) ≤ 2 ^ n := Nat.pow_le_pow_right (by decide) (by omega)
  have hw := Nat.two_pow_pos w
  rw [Nat.pow_succ] at hpow
  omega

/-- An `or` with a value of `w` bits keeps the bits above them. -/
theorem or_div (x n : ℕ) {v w : ℕ} (hv : v < 2 ^ w) :
    (x ||| v) % 2 ^ n / 2 ^ w = x % 2 ^ n / 2 ^ w := by
  have hlt : v % 2 ^ n < 2 ^ w := Nat.lt_of_le_of_lt (Nat.mod_le _ _) hv
  rw [Nat.or_mod_two_pow, Nat.or_div_two_pow, Nat.div_eq_of_lt hlt, Nat.or_zero]

theorem leNat_orBytes (mem : ℕ → UInt8) (off n v : ℕ) :
    leNat (getBytes (orBytes mem off n v) off n) = (leNat (getBytes mem off n) ||| v) % 2 ^ (8 * n) := by
  have hstored := getBytes_setBytes mem off (leBytes n (leNat (getBytes mem off n) ||| v))
  rw [leBytes_length] at hstored
  rw [orBytes, hstored, leNat_leBytes, pow256]

/-- An `or` into a field keeps its upper bits. -/
theorem orBytes_high (mem : ℕ → UInt8) (off n : ℕ) {v w : ℕ} (hv : v < 2 ^ w) :
    leNat (getBytes (orBytes mem off n v) off n) / 2 ^ w = leNat (getBytes mem off n) / 2 ^ w := by
  have hlt := leNat_lt (getBytes mem off n)
  rw [getBytes_length, pow256] at hlt
  rw [leNat_orBytes, or_div _ _ hv, Nat.mod_eq_of_lt hlt]

theorem orBytes_other (mem : ℕ → UInt8) {off n v off' n' : ℕ} (h : off' + n' ≤ off ∨ off + n ≤ off') :
    getBytes (orBytes mem off n v) off' n' = getBytes mem off' n' := by
  rw [orBytes, getBytes_setBytes_of_disjoint]
  rw [leBytes_length]
  exact h

theorem leNat_zeros (n : ℕ) : leNat (List.replicate n 0) = 0 := by
  induction n with
  | zero => rfl
  | succ n ih =>
    rw [List.replicate_succ, leNat, ih]
    rfl

/-- A field of zeros gets the value. -/
theorem orBytes_zero (off : ℕ) {n v : ℕ} (hv : v < 2 ^ (8 * n)) :
    leNat (getBytes (orBytes (fun _ => 0) off n v) off n) = v := by
  have hzero : getBytes (fun _ => (0 : UInt8)) off n = List.replicate n 0 := by
    rw [getBytes, List.map_const', List.length_range]
  rw [leNat_orBytes, hzero, leNat_zeros, Nat.zero_or, Nat.mod_eq_of_lt hv]

end RevCPU.Faults
