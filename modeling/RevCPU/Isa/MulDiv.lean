import Mathlib.Tactic.Positivity
import Mathlib.Tactic.Ring
import RevCPU.Isa.Alu

namespace RevCPU.Isa

/-- The number that a word of `w` bits stands for. -/
def numVal {w : ℕ} (signed : Bool) (x : BitVec w) : ℤ := if signed then x.toInt else x.toNat

/-- The upper half of the `2 * w` bits of a number. -/
def upperBits (w : ℕ) (p : ℤ) : BitVec w := (BitVec.ofInt (2 * w) p).extractLsb' w w

section Upper

variable {w : ℕ}

/-- The upper half is the quotient by 2^w, rounded down. -/
theorem upperBits_eq (p : ℤ) : upperBits w p = BitVec.ofInt w (p / 2 ^ w) := by
  have hpos : (0 : ℤ) < 2 ^ w := by positivity
  have hsq : (2 : ℤ) ^ (2 * w) = 2 ^ w * 2 ^ w := by rw [two_mul, pow_add]
  have hsplit : p = p % 2 ^ (2 * w) + 2 ^ w * (2 ^ w * (p / 2 ^ (2 * w))) := by
    have h := Int.emod_add_mul_ediv p (2 ^ (2 * w))
    rw [hsq] at h ⊢
    rw [← mul_assoc]
    exact h.symm
  have hquot : p / 2 ^ w % 2 ^ w = p % 2 ^ (2 * w) / 2 ^ w % 2 ^ w := by
    conv_lhs => rw [hsplit, Int.add_mul_ediv_left _ _ hpos.ne', Int.add_mul_emod_self_left]
  have hnonneg : 0 ≤ p % 2 ^ (2 * w) := Int.emod_nonneg _ (by positivity)
  apply BitVec.eq_of_toNat_eq
  rw [upperBits, BitVec.extractLsb'_toNat, BitVec.toNat_ofInt, BitVec.toNat_ofInt,
    Nat.shiftRight_eq_div_pow]
  apply Int.ofNat_inj.mp
  push_cast
  rw [hquot, Int.toNat_of_nonneg hnonneg, Int.toNat_of_nonneg (Int.emod_nonneg _ hpos.ne')]

/-- Shifting the product by `w` bits, whether or not it copies the sign, leaves
    its upper half in the low bits. -/
theorem sshiftRight_setWidth (x : BitVec (2 * w)) :
    (x.sshiftRight w).setWidth w = (x >>> w).setWidth w := by
  apply BitVec.eq_of_getLsbD_eq
  intro i hi
  have hlow : ¬2 * w ≤ i := by omega
  have hhigh : w + i < 2 * w := by omega
  simp [BitVec.getLsbD_sshiftRight, hi, hlow, hhigh]

theorem sign_bit (hw : 0 < w) (x : BitVec w) :
    x &&& ((1 : BitVec w) <<< (w - 1)) ≠ 0 ↔ x.msb = true := by
  have hbit : (1 : BitVec w) <<< (w - 1) = BitVec.twoPow w (w - 1) :=
    (BitVec.twoPow_eq w (w - 1)).symm
  have hne : BitVec.twoPow w (w - 1) ≠ 0 := by
    intro hzero
    have hnat := congrArg BitVec.toNat hzero
    rw [BitVec.toNat_twoPow_of_lt (by omega)] at hnat
    have hpow := Nat.two_pow_pos (w - 1)
    simp at hnat
  rw [hbit, BitVec.and_twoPow, BitVec.msb_eq_getLsbD_last]
  cases x.getLsbD (w - 1) with
  | true => simpa using hne
  | false => simp

/-- 1 for a signed operand that is negative. -/
def negBit (signed : Bool) (x : BitVec w) : ℤ := if signed ∧ x.msb = true then 1 else 0

theorem numVal_eq (signed : Bool) (x : BitVec w) :
    numVal signed x = x.toNat - negBit signed x * 2 ^ w := by
  unfold numVal negBit
  rw [BitVec.toInt_eq_msb_cond]
  cases signed <;> cases h : x.msb <;> simp

/-- What the corrections of `uppermul` subtract. -/
theorem correction (hw : 0 < w) (signed : Bool) (x y m : BitVec w) :
    (if signed ∧ x &&& ((1 : BitVec w) <<< (w - 1)) ≠ 0 then m - y else m) =
      m - BitVec.ofInt w (negBit signed x * y.toNat) := by
  unfold negBit
  simp only [sign_bit hw]
  split
  · simp
  · simp

/-- The shifted product, before the corrections. -/
theorem shifted_product (a b : BitVec w) :
    ((a.setWidth (2 * w) * b.setWidth (2 * w)).sshiftRight w).setWidth w =
      BitVec.ofInt w ((a.toNat * b.toNat : ℤ) / 2 ^ w) := by
  have hprod : (a.setWidth (2 * w) * b.setWidth (2 * w)).toNat = a.toNat * b.toNat := by
    rw [BitVec.toNat_mul, BitVec.toNat_setWidth_of_le (by omega),
      BitVec.toNat_setWidth_of_le (by omega)]
    apply Nat.mod_eq_of_lt
    rw [two_mul, pow_add]
    exact Nat.mul_lt_mul'' a.isLt b.isLt
  rw [sshiftRight_setWidth]
  apply BitVec.eq_of_toNat_eq
  rw [BitVec.toNat_setWidth, BitVec.toNat_ushiftRight, hprod, Nat.shiftRight_eq_div_pow,
    BitVec.toNat_ofInt]
  norm_cast

/-- The computation of `uppermul` is exact at every width. -/
theorem upperHalf_eq (hw : 0 < w) (s₁ s₂ : Bool) (a b : BitVec w) :
    upperHalf s₁ s₂ a b = upperBits w (numVal s₁ a * numVal s₂ b) := by
  have hexp : numVal s₁ a * numVal s₂ b = (a.toNat * b.toNat : ℤ) +
      2 ^ w * (-(negBit s₁ a * b.toNat) - negBit s₂ b * a.toNat +
        2 ^ w * (negBit s₁ a * negBit s₂ b)) := by
    rw [numVal_eq, numVal_eq]
    ring
  have hupper : numVal s₁ a * numVal s₂ b / 2 ^ w =
      (a.toNat * b.toNat : ℤ) / 2 ^ w + -(negBit s₁ a * b.toNat) + -(negBit s₂ b * a.toNat) +
        2 ^ w * (negBit s₁ a * negBit s₂ b) := by
    rw [hexp, Int.add_mul_ediv_left _ _ (by positivity)]
    ring
  have hzero : BitVec.ofInt w (2 ^ w * (negBit s₁ a * negBit s₂ b)) = 0#w := by
    apply BitVec.eq_of_toNat_eq
    rw [BitVec.toNat_ofInt]
    simp
  rw [upperBits_eq, hupper, BitVec.ofInt_add, hzero, BitVec.ofInt_add, BitVec.ofInt_add,
    BitVec.ofInt_neg, BitVec.ofInt_neg, BitVec.add_zero, ← BitVec.sub_eq_add_neg,
    ← BitVec.sub_eq_add_neg]
  simp only [upperHalf, shifted_product, correction hw]

end Upper

/-- The quotient and the remainder of the RISC-V M extension: truncated towards
    zero, all ones and the dividend for a zero divisor. The quotient of a signed
    overflow wraps around. -/
def isaDivRem {w : ℕ} (signed : Bool) (a b : BitVec w) : DivRem → BitVec w
  | .Div =>
    if b = 0 then BitVec.allOnes w else BitVec.ofInt w ((numVal signed a).tdiv (numVal signed b))
  | .Rem => if b = 0 then a else BitVec.ofInt w ((numVal signed a).tmod (numVal signed b))

section Division

variable {w : ℕ}

theorem ofInt_numVal (signed : Bool) (x : BitVec w) : BitVec.ofInt w (numVal signed x) = x := by
  unfold numVal
  cases signed with
  | false => simp
  | true => simp

theorem numVal_neg_one (hw : 0 < w) : numVal true (-1 : BitVec w) = -1 := by
  have hones : (-1 : BitVec w) = BitVec.allOnes w := BitVec.neg_one_eq_allOnes
  rw [numVal, if_pos rfl, hones, BitVec.toInt_allOnes, if_pos hw]

theorem neg_one_ne_zero (hw : 0 < w) : (-1 : BitVec w) ≠ 0 := by
  intro h
  have hval := numVal_neg_one hw
  rw [h] at hval
  simp [numVal] at hval

/-- A signed overflow: the dividend and 0. -/
theorem isaDivRem_overflow (hw : 0 < w) :
    isaDivRem true (BitVec.intMin w) (-1) .Div = BitVec.intMin w ∧
      isaDivRem true (BitVec.intMin w) (-1) .Rem = 0 := by
  have hne := neg_one_ne_zero hw
  constructor
  · rw [isaDivRem, if_neg hne, numVal_neg_one hw, Int.tdiv_neg, Int.tdiv_one, BitVec.ofInt_neg,
      ofInt_numVal, BitVec.neg_intMin]
  · rw [isaDivRem, if_neg hne, numVal_neg_one hw, Int.tmod_neg, Int.tmod_one]
    rfl

/-- The dividend is the quotient times the divisor plus the remainder, modulo
    2^w. -/
theorem isaDivRem_identity (signed : Bool) {a b : BitVec w} (hb : b ≠ 0) :
    isaDivRem signed a b .Div * b + isaDivRem signed a b .Rem = a := by
  have hmul : ((numVal signed a).tdiv (numVal signed b)) * numVal signed b +
      (numVal signed a).tmod (numVal signed b) = numVal signed a := Int.tdiv_mul_add_tmod _ _
  calc isaDivRem signed a b .Div * b + isaDivRem signed a b .Rem
      = BitVec.ofInt w ((numVal signed a).tdiv (numVal signed b)) *
          BitVec.ofInt w (numVal signed b) +
          BitVec.ofInt w ((numVal signed a).tmod (numVal signed b)) := by
        rw [ofInt_numVal, isaDivRem, if_neg hb, isaDivRem, if_neg hb]
    _ = a := by rw [← BitVec.ofInt_mul, ← BitVec.ofInt_add, hmul, ofInt_numVal]

/-- The divisions of the host that `divrem` makes are defined. -/
theorem hostDiv_eq (op : DivRem) (signed : Bool) {a b : BitVec w} (hb : b ≠ 0)
    (hover : ¬(signed ∧ a = BitVec.intMin w ∧ b = -1)) :
    hostDiv op signed a b = some (isaDivRem signed a b op) := by
  unfold hostDiv
  rw [if_neg hb]
  cases signed with
  | true =>
    rw [if_pos rfl, if_neg (fun h => hover ⟨rfl, h⟩)]
    cases op with
    | Div => rw [isaDivRem, if_neg hb]; rfl
    | Rem => rw [isaDivRem, if_neg hb]; rfl
  | false =>
    rw [if_neg (by decide)]
    cases op with
    | Div =>
      rw [isaDivRem, if_neg hb, numVal, numVal]
      simp only [Bool.false_eq_true, if_false]
      rw [← Int.ofNat_tdiv, BitVec.ofInt_natCast]
    | Rem =>
      rw [isaDivRem, if_neg hb, numVal, numVal]
      simp only [Bool.false_eq_true, if_false]
      rw [← Int.ofNat_tmod, BitVec.ofInt_natCast]

/-- `divrem` computes the quotient or the remainder at every width. -/
theorem divremVal_eq (hw : 0 < w) (op : DivRem) (signed : Bool) (a b : BitVec w) :
    divremVal op signed a b = some (isaDivRem signed a b op) := by
  obtain ⟨hdiv, hrem⟩ := isaDivRem_overflow hw
  by_cases hover : signed ∧ a = BitVec.intMin w ∧ b = -1
  · obtain ⟨hsigned, ha, hb⟩ := hover
    rw [hsigned, ha, hb]
    cases op with
    | Div => rw [hdiv, divremVal, if_pos ⟨rfl, rfl, rfl⟩]
    | Rem => rw [hrem, divremVal, if_pos ⟨rfl, rfl, rfl⟩]
  · by_cases hb : b = 0
    · cases op with
      | Div =>
        rw [divremVal, if_neg hover, if_neg (not_not.mpr hb), isaDivRem, if_pos hb]
        exact congrArg some BitVec.neg_one_eq_allOnes
      | Rem => rw [divremVal, if_neg hover, if_neg (not_not.mpr hb), isaDivRem, if_pos hb]
    · cases op with
      | Div => rw [divremVal, if_neg hover, if_pos hb, hostDiv_eq .Div signed hb hover]
      | Rem => rw [divremVal, if_neg hover, if_pos hb, hostDiv_eq .Rem signed hb hover]

end Division

section Registers

variable (R : RevRegFile) (Inst : RevInst)

theorem xlen_pos : 0 < xlen R := by
  unfold xlen
  split <;> decide

theorem uppermul_eq (s₁ s₂ : Bool) : uppermul R Inst s₁ s₂ =
    AdvancePC (setX R false Inst.rd
      (upperHalf s₁ s₂ (getX R (xlen R) Inst.rs1) (getX R (xlen R) Inst.rs2))) Inst := by
  unfold uppermul xlen
  cases R.IsRV32 <;> rfl

/-- A value is left of its sign extension. -/
theorem signExtend_setWidth {w v : ℕ} (hle : w ≤ v) (x : BitVec w) :
    (x.signExtend v).setWidth w = x := by
  apply BitVec.eq_of_getLsbD_eq
  intro i hi
  have hlt : i < v := by omega
  simp only [BitVec.getLsbD_setWidth, BitVec.getLsbD_signExtend, hi, hlt, decide_true,
    Bool.true_and, if_true]

/-- The bits of a value of XLEN bits that `SetX` keeps are all of them. -/
theorem setX_val (signed : Bool) (v : BitVec (xlen R)) :
    (if signed then (v.signExtend 64).toNat else v.toNat) % 2 ^ xlen R = v.toNat := by
  have hle : xlen R ≤ 64 := by
    unfold xlen
    split <;> decide
  cases signed with
  | false => simp
  | true =>
    simp only [if_true]
    rw [← BitVec.toNat_setWidth, signExtend_setWidth hle]

/-- The registers after an instruction that sets a register to a value of XLEN
    bits. -/
theorem GetX_setX (signed : Bool) (v : BitVec (xlen R)) (rd r : ℕ) :
    (setX R signed rd v).GetX r = if r = rd ∧ r ≠ 0 then v.toNat else R.GetX r := by
  rw [setX, GetX_SetX, setX_val]

/-- MULH, MULHU and MULHSU, and the fourth combination of signs: the register is
    set to the upper half of the exact product, and no other register changes. -/
theorem uppermul_exact (s₁ s₂ : Bool) (r : ℕ) :
    (uppermul R Inst s₁ s₂).GetX r =
      if r = Inst.rd ∧ r ≠ 0 then
        (upperBits (xlen R) (numVal s₁ (getX R (xlen R) Inst.rs1) *
          numVal s₂ (getX R (xlen R) Inst.rs2))).toNat
      else R.GetX r := by
  rw [uppermul_eq, GetX_AdvancePC, GetX_setX, upperHalf_eq (xlen_pos R)]

/-- The result of a division: of XLEN bits, or of 32 bits with its sign extended
    for the W forms. -/
def divResult (op : DivRem) (signed W : Bool) : ℕ :=
  if W then ((isaDivRem signed (getX R 32 Inst.rs1) (getX R 32 Inst.rs2) op).signExtend
    (xlen R)).toNat
  else (isaDivRem signed (getX R (xlen R) Inst.rs1) (getX R (xlen R) Inst.rs2) op).toNat

theorem divrem_eq (op : DivRem) (signed : Bool) : divrem R Inst op signed =
    (divremVal op signed (getX R (xlen R) Inst.rs1) (getX R (xlen R) Inst.rs2)).map fun res =>
      AdvancePC (setX R signed Inst.rd res) Inst := by
  unfold divrem xlen
  cases R.IsRV32 <;> rfl

/-- A result of 32 bits whose sign is extended. -/
theorem GetX_setX_word (v : BitVec 32) (rd r : ℕ) :
    (setX R true rd v).GetX r =
      if r = rd ∧ r ≠ 0 then (v.signExtend (xlen R)).toNat else R.GetX r := by
  have hmod : (v.signExtend 64).toNat % 2 ^ xlen R = (v.signExtend (xlen R)).toNat := by
    rw [← BitVec.toNat_setWidth]
    unfold xlen
    cases R.IsRV32 with
    | true => simp [signExtend_setWidth]
    | false => simp
  rw [setX, if_pos rfl, GetX_SetX, hmod]

/-- DIV, DIVU, REM and REMU and their W forms: no division of the host is
    undefined, the register is set to the result of the RISC-V specification and
    no other register changes. -/
theorem divrem_runs (op : DivRem) (signed W : Bool) :
    ∃ R', divrem R Inst op signed W = some R' ∧
      ∀ r, R'.GetX r = if r = Inst.rd ∧ r ≠ 0 then divResult R Inst op signed W else R.GetX r := by
  cases W with
  | true =>
    refine ⟨AdvancePC (setX R true Inst.rd
      (isaDivRem signed (getX R 32 Inst.rs1) (getX R 32 Inst.rs2) op)) Inst, ?_, ?_⟩
    · simp [divrem, divremVal_eq]
    · intro r
      rw [GetX_AdvancePC, GetX_setX_word, divResult, if_pos rfl]
  | false =>
    refine ⟨_, by rw [divrem_eq, divremVal_eq (xlen_pos R), Option.map_some], ?_⟩
    intro r
    rw [GetX_AdvancePC, GetX_setX]
    rfl

end Registers

/-- Division follows the ISA: every instruction runs and sets its register to
    the quotient or the remainder of the specification; these satisfy the
    division identity for a divisor that is not zero, and they are all ones and
    the dividend for a zero divisor, the dividend and 0 for an overflow. -/
theorem divrem_isa :
    (∀ (R : RevRegFile) (Inst : RevInst) (op : DivRem) (signed W : Bool),
      ∃ R', divrem R Inst op signed W = some R' ∧ ∀ r, R'.GetX r =
        if r = Inst.rd ∧ r ≠ 0 then divResult R Inst op signed W else R.GetX r) ∧
    (∀ (w : ℕ) (signed : Bool) (a b : BitVec w), b ≠ 0 →
      isaDivRem signed a b .Div * b + isaDivRem signed a b .Rem = a) ∧
    (∀ (w : ℕ) (signed : Bool) (a : BitVec w),
      isaDivRem signed a 0 .Div = BitVec.allOnes w ∧ isaDivRem signed a 0 .Rem = a) ∧
    (∀ w, 0 < w → isaDivRem true (BitVec.intMin w) (-1) .Div = BitVec.intMin w ∧
      isaDivRem true (BitVec.intMin w) (-1) .Rem = 0) := by
  refine ⟨divrem_runs, fun w signed a b hb => isaDivRem_identity signed hb, ?_,
    fun w hw => isaDivRem_overflow hw⟩
  intro w signed a
  constructor
  · rw [isaDivRem, if_pos rfl]
  · rw [isaDivRem, if_pos rfl]

/-- `-7 / 2` in 32 bits: the quotient is -3 and the remainder -1. -/
theorem divrem_isa_seven :
    isaDivRem true (-7 : BitVec 32) 2 .Div = -3 ∧ isaDivRem true (-7 : BitVec 32) 2 .Rem = -1 ∧
      isaDivRem true (-7 : BitVec 32) 2 .Div * 2 + isaDivRem true (-7 : BitVec 32) 2 .Rem = -7 :=
  ⟨by decide, by decide, divrem_isa.2.1 32 true (-7) 2 (by decide)⟩

end RevCPU.Isa
