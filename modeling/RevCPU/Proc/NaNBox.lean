import RevCPU.MemCtrl.ReadBack
import RevCPU.Proc.RegFile

namespace RevCPU

open Lib

/-- `NAN` as a `float`. -/
def NAN : BitVec 32 := 0x7fc00000

/-- The 64 bits that `BoxNaN` stores for a `float`. -/
def BoxNaN (value : BitVec 32) : BitVec 64 := value.setWidth 64 ||| ((~~~(0 : BitVec 64)) <<< 32)

/-- The upper bits are all one. -/
def Boxed (i64 : BitVec 64) : Prop := i64 >>> 32 = 0xffffffff

instance (i64 : BitVec 64) : Decidable (Boxed i64) := inferInstanceAs (Decidable (_ = _))

theorem BoxNaN_toNat (b : BitVec 32) : (BoxNaN b).toNat = b.toNat + 2 ^ 32 * (2 ^ 32 - 1) := by
  have hhigh : ((~~~(0 : BitVec 64)) <<< 32).toNat = 2 ^ 32 * (2 ^ 32 - 1) := by decide
  have hlt := b.isLt
  rw [BoxNaN, BitVec.toNat_or, hhigh, BitVec.toNat_setWidth, Nat.mod_eq_of_lt (by omega),
    Nat.or_comm, ← Nat.two_pow_add_eq_or_of_lt hlt, Nat.add_comm]

theorem BoxNaN_low (b : BitVec 32) : (BoxNaN b).setWidth 32 = b := by
  apply BitVec.eq_of_toNat_eq
  have hlt := b.isLt
  rw [BitVec.toNat_setWidth, BoxNaN_toNat]
  omega

theorem BoxNaN_boxed (b : BitVec 32) : Boxed (BoxNaN b) := by
  apply BitVec.eq_of_toNat_eq
  have hlt := b.isLt
  rw [BitVec.toNat_ushiftRight, BoxNaN_toNat, Nat.shiftRight_eq_div_pow]
  have hones : (0xffffffff : BitVec 64).toNat = 2 ^ 32 - 1 := rfl
  rw [hones]
  omega

/-- The test of `GetFP`: the upper bits of a boxed value have no zero. -/
theorem boxed_iff (i64 : BitVec 64) : ~~~i64 >>> 32 = 0 ↔ Boxed i64 := by
  have hlt := i64.isLt
  unfold Boxed
  rw [← BitVec.toNat_inj, ← BitVec.toNat_inj, BitVec.toNat_ushiftRight, BitVec.toNat_ushiftRight,
    BitVec.toNat_not, Nat.shiftRight_eq_div_pow, Nat.shiftRight_eq_div_pow]
  have hones : (0xffffffff : BitVec 64).toNat = 2 ^ 32 - 1 := rfl
  have hzero : (0 : BitVec 64).toNat = 0 := rfl
  rw [hones, hzero]
  omega

/-- The bytes of a boxed value. -/
theorem leBytes_BoxNaN (b : BitVec 32) :
    leBytes 8 (BoxNaN b).toNat = leBytes 4 b.toNat ++ [255, 255, 255, 255] := by
  refine leBytes_of_leNat (by simp) ?_
  have hhigh : leNat [255, 255, 255, 255] = 2 ^ 32 - 1 := by decide
  have hlt := b.isLt
  rw [leNat_append, leNat_leBytes, hhigh, leBytes_length, BoxNaN_toNat, pow256,
    Nat.mod_eq_of_lt hlt]

namespace RevRegFile

/-- The bits of `DPF[r]`. -/
def fpBits (R : RevRegFile) (r : ℕ) : BitVec 64 := BitVec.ofNat 64 (leNat (getBytes R.FP (8 * r) 8))

/-- `SetFP<double>`. -/
def SetFPDouble (R : RevRegFile) (rd : ℕ) (value : BitVec 64) : RevRegFile :=
  { R with FP := setBytes R.FP (8 * rd) (leBytes 8 value.toNat) }

/-- `SetFP<float>`. -/
def SetFPFloat (R : RevRegFile) (rd : ℕ) (value : BitVec 32) : RevRegFile :=
  if R.HasD then R.SetFPDouble rd (BoxNaN value)
  else { R with FP := setBytes R.FP (4 * rd) (leBytes 4 value.toNat) }

/-- `GetFP<float, false>`. -/
def GetFPFloat (R : RevRegFile) (rs : ℕ) : BitVec 32 :=
  if !R.HasD then BitVec.ofNat 32 (leNat (getBytes R.FP (4 * rs) 4))
  else
    let i64 := R.fpBits rs
    if ~~~i64 >>> 32 ≠ 0 then NAN else i64.setWidth 32

theorem fpBits_toNat (R : RevRegFile) (r : ℕ) :
    (R.fpBits r).toNat = leNat (getBytes R.FP (8 * r) 8) := by
  have hlt := leNat_lt (getBytes R.FP (8 * r) 8)
  rw [getBytes_length, pow256] at hlt
  exact (BitVec.toNat_ofNat _ _).trans (Nat.mod_eq_of_lt hlt)

theorem fpBits_low (R : RevRegFile) (r : ℕ) :
    ((R.fpBits r).setWidth 32).toNat = leNat (getBytes R.FP (8 * r) 4) := by
  have hmod := leNat_map_range_mod (fun i => R.FP (8 * r + i)) (k := 4) (n := 8) (by decide)
  rw [BitVec.toNat_setWidth, fpBits_toNat]
  rw [pow256] at hmod
  exact hmod

/-- The move and store instructions take the low half of a register. -/
theorem GetFP_low {R : RevRegFile} (hD : R.HasD = true) (rs : ℕ) :
    R.GetFP 4 rs = leBytes 4 ((R.fpBits rs).setWidth 32).toNat := by
  rw [fpBits_low, leBytes_of_leNat (getBytes_length _ _ _) rfl, GetFP, if_pos (.inr hD)]

/-- `boxDPF` is `BoxNaN` of the low half. -/
theorem boxDPF_eq (R : RevRegFile) (rd : ℕ) :
    R.boxDPF rd = R.SetFPDouble rd (BoxNaN ((R.fpBits rd).setWidth 32)) := by
  have hlow : leBytes 4 ((R.fpBits rd).setWidth 32).toNat = getBytes R.FP (8 * rd) 4 := by
    rw [fpBits_low, leBytes_of_leNat (getBytes_length _ _ _) rfl]
  have hsame : setBytes R.FP (8 * rd) (getBytes R.FP (8 * rd) 4) = R.FP := by
    funext i
    unfold setBytes
    split
    · rename_i hi
      rw [getBytes_length] at hi
      rw [getBytes_getD _ _ (by omega)]
      congr 1
      omega
    · rfl
  rw [SetFPDouble, leBytes_BoxNaN, setBytes_append, hlow, hsame, getBytes_length]
  rfl

/-- A register that is not boxed reads as NaN. -/
theorem GetFPFloat_unboxed {R : RevRegFile} (hD : R.HasD = true) {rs : ℕ}
    (h : ¬Boxed (R.fpBits rs)) : R.GetFPFloat rs = NAN := by
  have hzero : ~~~R.fpBits rs >>> 32 ≠ 0 := mt (boxed_iff _).mp h
  simp only [GetFPFloat, hD, Bool.not_true, Bool.false_eq_true, if_false, if_pos hzero]

/-- The register `rd` has come to hold `b` as a single, and both ways to read it
    give `b` back. No other register has changed. -/
structure HoldsSingle (R R' : RevRegFile) (rd : ℕ) (b : BitVec 32) : Prop where
  low : (R'.fpBits rd).setWidth 32 = b
  high : Boxed (R'.fpBits rd)
  arith : R'.GetFPFloat rd = b
  move : R'.GetFP 4 rd = leBytes 4 b.toNat
  otherFP : ∀ r, r ≠ rd → R'.fpBits r = R.fpBits r
  otherX : R'.X = R.X

/-- What a boxed write of a register brings about. -/
theorem HoldsSingle.of_write {R R' : RevRegFile} {rd : ℕ} {b : BitVec 32} (hD : R'.HasD = true)
    (hFP : R'.FP = setBytes R.FP (8 * rd) (leBytes 8 (BoxNaN b).toNat)) (hX : R'.X = R.X) :
    HoldsSingle R R' rd b := by
  have hbits : R'.fpBits rd = BoxNaN b := by
    apply BitVec.eq_of_toNat_eq
    have hstored := getBytes_setBytes R.FP (8 * rd) (leBytes 8 (BoxNaN b).toNat)
    rw [leBytes_length] at hstored
    rw [fpBits_toNat, hFP, hstored, leNat_leBytes, pow256]
    exact Nat.mod_eq_of_lt (BoxNaN b).isLt
  have hlow : (R'.fpBits rd).setWidth 32 = b := by rw [hbits, BoxNaN_low]
  have hhigh : Boxed (R'.fpBits rd) := by
    rw [hbits]
    exact BoxNaN_boxed b
  refine ⟨hlow, hhigh, ?_, ?_, ?_, hX⟩
  · have hones : ¬~~~R'.fpBits rd >>> 32 ≠ 0 := not_not.mpr ((boxed_iff _).mpr hhigh)
    simp only [GetFPFloat, hD, Bool.not_true, Bool.false_eq_true, if_false, if_neg hones, hlow]
  · rw [GetFP_low hD, hlow]
  · intro r hr
    rw [fpBits, fpBits, hFP, getBytes_setBytes_of_disjoint]
    rw [leBytes_length]
    omega

theorem SetFPFloat_holds {R : RevRegFile} (hD : R.HasD = true) (rd : ℕ) (b : BitVec 32) :
    HoldsSingle R (R.SetFPFloat rd b) rd b := by
  have hset : R.SetFPFloat rd b = R.SetFPDouble rd (BoxNaN b) := if_pos hD
  rw [hset]
  exact .of_write hD rfl rfl

end RevRegFile

end RevCPU
