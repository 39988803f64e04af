import RevCPU.Common
import RevCPU.Lib.Bytes

namespace RevCPU

open Lib

/-- The mask of `ZeroExt` keeps the low bits. -/
theorem ZeroExt_toNat {w bits : ℕ} (val : BitVec w) (h : bits < w) :
    (ZeroExt val bits).toNat = val.toNat % 2 ^ bits := by
  have hpow : 2 ^ bits ≤ 2 ^ w := Nat.pow_le_pow_right (by decide) (Nat.le_of_lt h)
  have hpos : 0 < 2 ^ bits := Nat.two_pow_pos bits
  have hones : (~~~(0 : BitVec w)).toNat = 2 ^ w - 1 := by simp
  have hshift : ((2 ^ w - 1) * 2 ^ bits) % 2 ^ w = 2 ^ w - 2 ^ bits := by
    have hsplit : (2 ^ w - 1) * 2 ^ bits = (2 ^ w - 2 ^ bits) + 2 ^ w * (2 ^ bits - 1) := by
      rw [Nat.sub_mul, Nat.mul_sub]
      have hle : 2 ^ w ≤ 2 ^ w * 2 ^ bits := Nat.le_mul_of_pos_right _ hpos
      omega
    rw [hsplit, Nat.add_mul_mod_self_left]
    exact Nat.mod_eq_of_lt (by omega)
  have hmask : (~~~(~~~(0 : BitVec w) <<< bits)).toNat = 2 ^ bits - 1 := by
    rw [BitVec.toNat_not, BitVec.toNat_shiftLeft, hones, Nat.shiftLeft_eq, hshift]
    omega
  rw [ZeroExt, BitVec.toNat_and, hmask, Nat.and_two_pow_sub_one_eq_mod]

/-- `SignExt` is the sign extension of the low bits. -/
theorem SignExt_eq {w bits : ℕ} (val : BitVec w) (hpos : 0 < bits) (h : bits < w) :
    SignExt val bits = (val.setWidth bits).signExtend w := by
  obtain ⟨n, rfl⟩ := Nat.exists_eq_succ_of_ne_zero (by omega : bits ≠ 0)
  have hsucc : 2 ^ (n + 1) = 2 ^ n + 2 ^ n := by rw [pow_succ]; omega
  have hle : 2 ^ (n + 1) ≤ 2 ^ w := Nat.pow_le_pow_right (by decide) (Nat.le_of_lt h)
  have hpos : 0 < 2 ^ n := Nat.two_pow_pos n
  have hsign : ((1 <<< n : ℕ) : BitVec w).toNat = 2 ^ n := by
    rw [Nat.one_shiftLeft]
    exact (BitVec.toNat_ofNat _ _).trans (Nat.mod_eq_of_lt (by omega))
  apply BitVec.eq_of_toNat_eq
  simp only [SignExt, BitVec.toNat_sub, BitVec.toNat_xor, hsign, ZeroExt_toNat val h,
    BitVec.toNat_signExtend, BitVec.toNat_setWidth, BitVec.msb_eq_decide, decide_eq_true_eq,
    Nat.succ_eq_add_one, Nat.add_sub_cancel]
  have hv : val.toNat % 2 ^ (n + 1) < 2 ^ (n + 1) := Nat.mod_lt _ (Nat.two_pow_pos _)
  generalize val.toNat % 2 ^ (n + 1) = v at hv ⊢
  by_cases hlow : v < 2 ^ n
  · rw [xor_two_pow hlow, if_neg (by omega),
      show 2 ^ w - 2 ^ n + (v + 2 ^ n) = v + 2 ^ w by omega, Nat.add_mod_right]
    omega
  · have hflip : v ^^^ 2 ^ n = v - 2 ^ n := by
      have hback : (v - 2 ^ n) ^^^ 2 ^ n = v := by
        rw [xor_two_pow (by omega)]
        omega
      conv_lhs => rw [← hback]
      rw [Nat.xor_assoc, Nat.xor_self, Nat.xor_zero]
    have hmod : v % 2 ^ w = v := Nat.mod_eq_of_lt (by omega)
    rw [hflip, if_pos (by omega), Nat.mod_eq_of_lt (by omega), hmod]
    omega

/-- `SignExt` does not change the bits below the sign bit or the sign bit. -/
theorem SignExt_mod {w bits : ℕ} (val : BitVec w) (hpos : 0 < bits) (h : bits < w) :
    (SignExt val bits).toNat % 2 ^ bits = val.toNat % 2 ^ bits := by
  have hback : ((val.setWidth bits).signExtend w).setWidth bits = val.setWidth bits := by
    ext i hi
    simp only [BitVec.getElem_setWidth, BitVec.getLsbD_signExtend, BitVec.getLsbD_setWidth, hi,
      if_true, show i < w by omega, decide_true, Bool.true_and]
  have hnat := congrArg BitVec.toNat hback
  rw [SignExt_eq val hpos h]
  simpa only [BitVec.toNat_setWidth] using hnat

/-- A sign extension to 64 bits that is cut to `v` bits is a sign extension to
    `v` bits. -/
theorem SignExt_setWidth {bits v : ℕ} (imm : ℕ) (hpos : 0 < bits) (h : bits < 64) (hv : v ≤ 64) :
    (SignExt (BitVec.ofNat 64 imm) bits).setWidth v = (BitVec.ofNat bits imm).signExtend v := by
  have hlow : (BitVec.ofNat 64 imm).setWidth bits = BitVec.ofNat bits imm := by
    apply BitVec.eq_of_toNat_eq
    simp only [BitVec.toNat_setWidth, BitVec.toNat_ofNat]
    exact Nat.mod_mod_of_dvd _ (Nat.pow_dvd_pow 2 (Nat.le_of_lt h))
  rw [SignExt_eq _ hpos h, hlow]
  apply BitVec.eq_of_getLsbD_eq
  intro i hi
  have hlt : i < 64 := by omega
  simp only [BitVec.getLsbD_setWidth, BitVec.getLsbD_signExtend, hi, hlt, decide_true,
    Bool.true_and]

/-- The low bits of a sign extension are a narrower sign extension. -/
theorem setWidth_signExtend {b m v : ℕ} (hv : v ≤ m) (x : BitVec b) :
    (x.signExtend m).setWidth v = x.signExtend v := by
  apply BitVec.eq_of_getLsbD_eq
  intro i hi
  have him : i < m := by omega
  simp only [BitVec.getLsbD_setWidth, BitVec.getLsbD_signExtend, hi, him, decide_true,
    Bool.true_and]

theorem signExtend_signExtend {b m v : ℕ} (hb : b ≤ m) (hm : m ≤ v) (x : BitVec b) :
    (x.signExtend m).signExtend v = x.signExtend v := by
  apply BitVec.eq_of_toInt_eq
  rw [BitVec.toInt_signExtend_of_le hm, BitVec.toInt_signExtend_of_le hb,
    BitVec.toInt_signExtend_of_le (by omega)]

end RevCPU
