import RevCPU.Isa.MulDiv
import RevCPU.Isa.Spec
import RevCPU.SignExt

namespace RevCPU.Isa

open RevCPU.Lib

section Functions

variable (R : RevRegFile) (Inst : RevInst)

/-- The immediate of `lui` and `auipc`, an `int32_t`. -/
def upperImm : BitVec 32 := BitVec.ofNat 32 (Inst.imm <<< 12)

def lui : RevRegFile := AdvancePC (setX R true Inst.rd (upperImm Inst)) Inst

/-- `auipc`, whose sum is truncated to XLEN bits by `SetX`. -/
def auipc : RevRegFile :=
  AdvancePC (R.SetX Inst.rd (((upperImm Inst).signExtend 64).toNat + R.PC)) Inst

/-- The signed comparisons of `bcond`. -/
def bcondSigned (op : BitVec (xlen R) → BitVec (xlen R) → Bool) : RevRegFile :=
  bcond R Inst fun a b => op (BitVec.ofNat (xlen R) a) (BitVec.ofNat (xlen R) b)

def blt : RevRegFile := bcondSigned R Inst BitVec.slt

def bge : RevRegFile := bcondSigned R Inst fun a b => b.sle a

def bltu : RevRegFile := bcond R Inst (· < ·)

def bgeu : RevRegFile := bcond R Inst (· ≥ ·)

def addi : RevRegFile := oper R Inst .plus .Imm

def sub : RevRegFile := oper R Inst .minus .Reg

def f_xor : RevRegFile := oper R Inst .bit_xor .Reg

def xori : RevRegFile := oper R Inst .bit_xor .Imm

def f_or : RevRegFile := oper R Inst .bit_or .Reg

def ori : RevRegFile := oper R Inst .bit_or .Imm

def f_and : RevRegFile := oper R Inst .bit_and .Reg

def andi : RevRegFile := oper R Inst .bit_and .Imm

def slt : RevRegFile := oper R Inst .less .Reg

def slti : RevRegFile := oper R Inst .less .Imm

def sltu : RevRegFile := oper R Inst .less .Reg false

def sltiu : RevRegFile := oper R Inst .less .Imm false

def slli : RevRegFile := oper R Inst .ShiftLeft .Imm false

def srli : RevRegFile := oper R Inst .ShiftRight .Imm false

def srai : RevRegFile := oper R Inst .ShiftRight .Imm

def sll : RevRegFile := oper R Inst .ShiftLeft .Reg false

def srl : RevRegFile := oper R Inst .ShiftRight .Reg false

def sra : RevRegFile := oper R Inst .ShiftRight .Reg

def addw : RevRegFile := oper R Inst .plus .Reg true true

def subw : RevRegFile := oper R Inst .minus .Reg true true

def addiw : RevRegFile := oper R Inst .plus .Imm true true

def slliw : RevRegFile := oper R Inst .ShiftLeft .Imm false true

def srliw : RevRegFile := oper R Inst .ShiftRight .Imm false true

def sraiw : RevRegFile := oper R Inst .ShiftRight .Imm true true

def sllw : RevRegFile := oper R Inst .ShiftLeft .Reg false true

def srlw : RevRegFile := oper R Inst .ShiftRight .Reg false true

def sraw : RevRegFile := oper R Inst .ShiftRight .Reg true true

end Functions

/-- The implementation functions of the integer instructions, jumps and
    branches. -/
def integer : ImplFunc → Option (RevRegFile → RevInst → RevRegFile)
  | .lui => some lui
  | .auipc => some auipc
  | .jal => some jal
  | .jalr => some jalr
  | .beq => some beq
  | .bne => some bne
  | .blt => some blt
  | .bge => some bge
  | .bltu => some bltu
  | .bgeu => some bgeu
  | .add => some add
  | .addi => some addi
  | .sub => some sub
  | .f_xor => some f_xor
  | .xori => some xori
  | .f_or => some f_or
  | .ori => some ori
  | .f_and => some f_and
  | .andi => some andi
  | .slt => some slt
  | .slti => some slti
  | .sltu => some sltu
  | .sltiu => some sltiu
  | .slli => some slli
  | .srli => some srli
  | .srai => some srai
  | .sll => some sll
  | .srl => some srl
  | .sra => some sra
  | .addw => some addw
  | .subw => some subw
  | .addiw => some addiw
  | .slliw => some slliw
  | .srliw => some srliw
  | .sraiw => some sraiw
  | .sllw => some sllw
  | .srlw => some srlw
  | .sraw => some sraw
  | _ => none

/-- The x registers and the PC of a register file. -/
def view (R : RevRegFile) : IntState (xlen R) :=
  { x := getX R (xlen R), pc := BitVec.ofNat (xlen R) R.PC }

/-- The rest of the register file is the same. -/
structure SameRest (R R' : RevRegFile) : Prop where
  IsRV32 : R'.IsRV32 = R.IsRV32
  HasD : R'.HasD = R.HasD
  FP : R'.FP = R.FP
  LSQueue : R'.LSQueue = R.LSQueue
  completed : R'.completed = R.completed

/-- From `R` to `R'` the instruction has been executed, and nothing else has
    been done. -/
structure Executed (t : IntInst) (size : ℕ) (R R' : RevRegFile) : Prop where
  pc : R'.PC = (t.exec size (view R)).pc.toNat
  x : ∀ r, R'.GetX r = ((t.exec size (view R)).x r).toNat
  rest : SameRest R R'

section View

variable (R : RevRegFile)

theorem toNat_getX (r : ℕ) : (getX R (xlen R) r).toNat = R.GetX r := by
  rw [getX, BitVec.toNat_ofNat, Nat.mod_eq_of_lt (GetX_lt R r)]

/-- `SetX` keeps XLEN bits of the value. -/
theorem SetX_congr (rd : ℕ) {a b : ℕ} (h : a % 2 ^ xlen R = b % 2 ^ xlen R) :
    R.SetX rd a = R.SetX rd b := by
  have hmod : ∀ v, leBytes R.xLen v = leBytes R.xLen (v % 2 ^ xlen R) := by
    intro v
    have hback := leBytes_leNat (leBytes R.xLen v)
    rw [leBytes_length, leNat_leBytes, pow256, xLen_eq] at hback
    exact hback.symm
  have hbytes : leBytes R.xLen a = leBytes R.xLen b := by rw [hmod a, hmod b, h]
  unfold RevRegFile.SetX
  by_cases hrd : rd ≠ 0
  · rw [if_pos hrd, if_pos hrd, hbytes]
  · rw [if_neg hrd, if_neg hrd]

theorem toNat_write (v : BitVec (xlen R)) (rd r : ℕ) :
    ((view R).write rd v r).toNat = if r = rd ∧ r ≠ 0 then v.toNat else R.GetX r := by
  unfold IntState.write
  split
  · rfl
  · exact toNat_getX R r

theorem toNat_next (size : ℕ) : ((view R).next size).toNat = (R.PC + size) % 2 ^ xlen R := by
  simp [IntState.next, view]

theorem xlen_le : xlen R ≤ 64 := by
  unfold xlen
  split <;> decide

/-- A number of 64 bits that is added in the code, and its extension to XLEN
    bits that the specification adds. -/
theorem toNat_add_signExtend {b : ℕ} (n : ℕ) (v : BitVec b) :
    (BitVec.ofNat (xlen R) n + v.signExtend (xlen R)).toNat =
      (n + (v.signExtend 64).toNat) % 2 ^ xlen R := by
  rw [← setWidth_signExtend (xlen_le R) v]
  simp

theorem immExt_eq {bits : ℕ} (imm : ℕ) (hpos : 0 < bits) (hle : bits ≤ 32) :
    immExt imm bits = ((BitVec.ofNat bits imm).signExtend 64).toNat := by
  rw [immExt, SignExt_setWidth imm hpos (by omega) (by omega), signExtend_signExtend hle (by decide)]

theorem sameRest_SetX (rd v : ℕ) : SameRest R (R.SetX rd v) := ⟨rfl, rfl, rfl, rfl, rfl⟩

/-- An instruction that writes a register and goes on. -/
theorem executed_write {t : IntInst} {i : RevInst} {rd val : ℕ} {v : BitVec (xlen R)}
    (ht : t.exec i.instSize (view R) =
      { x := (view R).write rd v, pc := (view R).next i.instSize })
    (hval : val % 2 ^ xlen R = v.toNat) :
    Executed t i.instSize R (AdvancePC (R.SetX rd val) i) := by
  refine ⟨?_, ?_, ⟨rfl, rfl, rfl, rfl, rfl⟩⟩
  · rw [ht, toNat_next]
    rfl
  · intro r
    rw [ht, toNat_write, GetX_AdvancePC, GetX_SetX, hval]

variable (i : RevInst)

theorem upperImm_eq : upperImm i = BitVec.ofNat 20 i.imm ++ 0#12 := by
  apply BitVec.eq_of_toNat_eq
  have happend : (BitVec.ofNat 20 i.imm ++ 0#12).toNat = (i.imm % 2 ^ 20) <<< 12 ||| 0 :=
    BitVec.toNat_append _ _
  refine Eq.trans ?_ happend.symm
  rw [upperImm, BitVec.toNat_ofNat, Nat.or_zero, Nat.shiftLeft_eq, Nat.shiftLeft_eq]
  omega

theorem executed_lui : Executed (.lui i.rd (BitVec.ofNat 20 i.imm)) i.instSize R (lui R i) := by
  refine executed_write R rfl ?_
  rw [if_pos rfl, ← BitVec.toNat_setWidth, setWidth_signExtend (xlen_le R), upperImm_eq]

theorem executed_auipc :
    Executed (.auipc i.rd (BitVec.ofNat 20 i.imm)) i.instSize R (auipc R i) := by
  refine executed_write R rfl ?_
  rw [view, toNat_add_signExtend, upperImm_eq, Nat.add_comm]

theorem executed_jal : Executed (.jal i.rd (BitVec.ofNat 21 i.imm)) i.instSize R (jal R i) := by
  refine ⟨?_, ?_, ⟨rfl, rfl, rfl, rfl, rfl⟩⟩
  · rw [IntInst.exec, view, toNat_add_signExtend, ← immExt_eq i.imm (by decide) (by decide)]
    rfl
  · intro r
    rw [IntInst.exec, toNat_write, jal, GetX_SetPC, GetX_SetX, toNat_next]

/-- Clearing the lowest bit. -/
theorem and_even (a k : ℕ) : a &&& (2 ^ (k + 1) - 2) = a % 2 ^ (k + 1) / 2 * 2 := by
  have hmask : 2 ^ (k + 1) - 2 = (2 ^ k - 1) <<< 1 := by
    have hpos := Nat.two_pow_pos k
    rw [Nat.shiftLeft_eq, pow_succ]
    omega
  have hhalf : a % 2 ^ (k + 1) / 2 = a / 2 % 2 ^ k := by
    rw [pow_succ', Nat.mod_mul_right_div_self]
  rw [hmask, hhalf, and_shiftLeft, Nat.and_two_pow_sub_one_eq_mod, Nat.shiftRight_eq_div_pow,
    Nat.shiftLeft_eq, Nat.pow_one]

theorem executed_jalr :
    Executed (.jalr i.rd i.rs1 (BitVec.ofNat 12 i.imm)) i.instSize R (jalr R i) := by
  refine ⟨?_, ?_, ⟨rfl, rfl, rfl, rfl, rfl⟩⟩
  · have hcode : (jalr R i).PC =
        ((R.GetX i.rs1 + immExt i.imm 12) % 2 ^ 64 &&& (2 ^ (63 + 1) - 2)) % 2 ^ xlen R := rfl
    have hspec : ((view R).x i.rs1 + (BitVec.ofNat 12 i.imm).signExtend (xlen R)).toNat =
        (R.GetX i.rs1 + immExt i.imm 12) % 2 ^ xlen R := by
      rw [immExt_eq i.imm (by decide) (by decide), ← toNat_add_signExtend]
      rfl
    obtain ⟨k, hk⟩ : ∃ k, xlen R = k + 1 := Nat.exists_eq_succ_of_ne_zero (xlen_pos R).ne'
    have hnot : (~~~(1 : BitVec (xlen R))).toNat = 2 ^ (k + 1) - 2 := by
      have hone : (1 : BitVec (xlen R)).toNat = 1 := BitVec.toNat_one (xlen_pos R)
      rw [BitVec.toNat_not, hone, hk]
      omega
    have hand : ((((view R).x i.rs1 + (BitVec.ofNat 12 i.imm).signExtend (xlen R)) &&&
        ~~~1).toNat) = (R.GetX i.rs1 + immExt i.imm 12) % 2 ^ (k + 1) / 2 * 2 := by
      rw [BitVec.toNat_and, hspec, hnot, and_even, hk, Nat.mod_mod]
    rw [hcode, and_even, IntInst.exec, hand, ← hk]
    unfold xlen
    cases R.IsRV32 with
    | true => simp only [if_true]; omega
    | false => simp only [Bool.false_eq_true, if_false]; omega
  · intro r
    rw [IntInst.exec, toNat_write, jalr, GetX_SetX, toNat_next]
    rfl

/-- A branch, whose functor gives what the condition of the specification
    gives. -/
theorem executed_bcond {op : BranchOp} {cond : ℕ → ℕ → Bool}
    (hcond : cond (R.GetX i.rs1) (R.GetX i.rs2) =
      op.eval (getX R (xlen R) i.rs1) (getX R (xlen R) i.rs2)) :
    Executed (.branch op i.rs1 i.rs2 (BitVec.ofNat 13 i.imm)) i.instSize R (bcond R i cond) := by
  have hx : ∀ r, R.GetX r = ((view R).x r).toNat := fun r => (toNat_getX R r).symm
  unfold bcond
  rw [hcond]
  by_cases htaken : op.eval ((view R).x i.rs1) ((view R).x i.rs2) = true
  · refine (if_pos htaken).symm ▸ ⟨?_, hx, ⟨rfl, rfl, rfl, rfl, rfl⟩⟩
    have hpc : ((view R).pc + (BitVec.ofNat 13 i.imm).signExtend (xlen R)).toNat =
        (R.PC + immExt i.imm 13) % 2 ^ xlen R := by
      rw [immExt_eq i.imm (by decide) (by decide), ← toNat_add_signExtend]
      rfl
    simp only [IntInst.exec]
    rw [if_pos htaken, hpc]
    rfl
  · refine (if_neg htaken).symm ▸ ⟨?_, hx, ⟨rfl, rfl, rfl, rfl, rfl⟩⟩
    simp only [IntInst.exec]
    rw [if_neg htaken, toNat_next]
    rfl

theorem beq_getX (a b : ℕ) : (getX R (xlen R) a == getX R (xlen R) b) = (R.GetX a == R.GetX b) := by
  rw [← toNat_getX R a, ← toNat_getX R b, Bool.eq_iff_iff, beq_iff_eq, beq_iff_eq, BitVec.toNat_inj]

theorem executed_beq :
    Executed (.branch .eq i.rs1 i.rs2 (BitVec.ofNat 13 i.imm)) i.instSize R (beq R i) :=
  executed_bcond R i (beq_getX R i.rs1 i.rs2).symm

theorem executed_bne :
    Executed (.branch .ne i.rs1 i.rs2 (BitVec.ofNat 13 i.imm)) i.instSize R (bne R i) :=
  executed_bcond R i (congrArg not (beq_getX R i.rs1 i.rs2)).symm

theorem executed_blt :
    Executed (.branch .lt i.rs1 i.rs2 (BitVec.ofNat 13 i.imm)) i.instSize R (blt R i) := by
  unfold blt bcondSigned
  exact executed_bcond R i rfl

theorem executed_bge :
    Executed (.branch .ge i.rs1 i.rs2 (BitVec.ofNat 13 i.imm)) i.instSize R (bge R i) := by
  unfold bge bcondSigned
  exact executed_bcond R i rfl

theorem executed_bltu :
    Executed (.branch .ltu i.rs1 i.rs2 (BitVec.ofNat 13 i.imm)) i.instSize R (bltu R i) := by
  refine executed_bcond R i ?_
  rw [BranchOp.eval, BitVec.ult, toNat_getX, toNat_getX]

theorem executed_bgeu :
    Executed (.branch .geu i.rs1 i.rs2 (BitVec.ofNat 13 i.imm)) i.instSize R (bgeu R i) := by
  refine executed_bcond R i ?_
  rw [BranchOp.eval, BitVec.ule, toNat_getX, toNat_getX]

end View

/-- The functor of an operation, and the signedness of the type that `oper` uses
    it with. -/
def AluOp.operator : AluOp → Operator
  | add => .plus
  | sub => .minus
  | sll => .ShiftLeft
  | slt | sltu => .less
  | xor => .bit_xor
  | srl | sra => .ShiftRight
  | or => .bit_or
  | and => .bit_and

def AluOp.signed : AluOp → Bool
  | sll | sltu | srl => false
  | _ => true

/-- The masks of the shift amounts. -/
theorem shamt_eq {w : ℕ} (hw : w = 32 ∨ w = 64) (b : BitVec w) :
    Operator.shamt b = b.toNat % w := by
  rcases hw with rfl | rfl
  · refine (Nat.and_two_pow_sub_one_eq_mod _ 5).trans ?_
    omega
  · refine (Nat.and_two_pow_sub_one_eq_mod _ 6).trans ?_
    omega

theorem operator_eval {w : ℕ} (hw : w = 32 ∨ w = 64) (op : AluOp) (a b : BitVec w) :
    op.operator op.signed w a b = op.eval a b := by
  have hshamt := shamt_eq hw b
  cases op with
  | sll => simp [AluOp.operator, AluOp.eval, Operator.ShiftLeft, hshamt]
  | srl => simp [AluOp.operator, AluOp.eval, AluOp.signed, Operator.ShiftRight, hshamt]
  | sra => simp [AluOp.operator, AluOp.eval, AluOp.signed, Operator.ShiftRight, hshamt]
  | slt =>
    simp only [AluOp.operator, AluOp.eval, AluOp.signed, Operator.less, if_true]
    cases a.slt b <;> rfl
  | sltu =>
    simp only [AluOp.operator, AluOp.eval, AluOp.signed, Operator.less, Bool.false_eq_true, if_false]
    cases a.ult b <;> rfl
  | _ => rfl

section Oper

variable (R : RevRegFile) (i : RevInst)

theorem xlen_cases : xlen R = 32 ∨ xlen R = 64 := by
  unfold xlen
  split
  · exact Or.inl rfl
  · exact Or.inr rfl

theorem oper_eq (OP : Operator) (KIND : OpKind) (signed : Bool) :
    oper R i OP KIND signed = AdvancePC (setX R signed i.rd
      (OP signed (xlen R) (getX R (xlen R) i.rs1) (operand R i (xlen R) KIND))) i := by
  unfold oper xlen
  cases R.IsRV32 <;> rfl

/-- `add`, as the instance of `oper` that it is in the source. -/
theorem add_eq_oper : add R i = oper R i .plus .Reg := by
  have hsum : (R.GetX i.rs1 + R.GetX i.rs2) % 2 ^ xlen R =
      (if true then ((getX R (xlen R) i.rs1 + getX R (xlen R) i.rs2).signExtend 64).toNat
        else (getX R (xlen R) i.rs1 + getX R (xlen R) i.rs2).toNat) % 2 ^ xlen R := by
    rw [setX_val, BitVec.toNat_add, toNat_getX, toNat_getX]
  rw [oper_eq]
  exact congrArg (AdvancePC · i) (SetX_congr R i.rd hsum)

theorem setWidth_getX (r : ℕ) : (getX R (xlen R) r).setWidth 32 = getX R 32 r := by
  have hle : 32 ≤ xlen R := by
    rcases xlen_cases R with h | h <;> omega
  apply BitVec.eq_of_toNat_eq
  rw [BitVec.toNat_setWidth, toNat_getX, getX, BitVec.toNat_ofNat]

/-- The second operand of the instruction, of XLEN bits. -/
def secondOperand : OpKind → BitVec (xlen R)
  | .Imm => (BitVec.ofNat 12 i.imm).signExtend (xlen R)
  | .Reg => getX R (xlen R) i.rs2

theorem operand_eq (KIND : OpKind) : operand R i (xlen R) KIND = secondOperand R i KIND ∧
    operand R i 32 KIND = (secondOperand R i KIND).setWidth 32 := by
  have hle : 32 ≤ xlen R := by
    rcases xlen_cases R with h | h <;> omega
  cases KIND with
  | Imm =>
    have himm : immSignExt i.imm 12 = (BitVec.ofNat 12 i.imm).signExtend 32 :=
      SignExt_setWidth i.imm (by decide) (by decide) (by decide)
    refine ⟨?_, ?_⟩
    · rw [operand, himm, signExtend_signExtend (by decide) hle, secondOperand]
    · rw [operand, himm, secondOperand, setWidth_signExtend hle]
      exact BitVec.signExtend_eq _
  | Reg => exact ⟨rfl, (setWidth_getX R i.rs2).symm⟩

/-- `oper` computes the operation of its functor. -/
theorem executed_oper (op : AluOp) (W : Bool) (KIND : OpKind) {t : IntInst}
    (ht : t.exec i.instSize (view R) =
      { x := (view R).write i.rd
          (IntState.alu op W (getX R (xlen R) i.rs1) (secondOperand R i KIND))
        pc := (view R).next i.instSize }) :
    Executed t i.instSize R (oper R i op.operator KIND op.signed W) := by
  obtain ⟨hwide, hword⟩ := operand_eq R i KIND
  cases W with
  | true =>
    refine executed_write R ht ?_
    rw [if_pos rfl, ← BitVec.toNat_setWidth, setWidth_signExtend (xlen_le R), hword,
      operator_eval (Or.inl rfl), ← setWidth_getX]
    rfl
  | false =>
    rw [oper_eq]
    refine executed_write R ht ?_
    rw [setX_val, hwide, operator_eval (xlen_cases R)]
    rfl

theorem executed_opReg (op : AluOp) (W : Bool) :
    Executed (.opReg op W i.rd i.rs1 i.rs2) i.instSize R
      (oper R i op.operator .Reg op.signed W) :=
  executed_oper R i op W .Reg rfl

theorem executed_opImm (op : AluOp) (W : Bool) :
    Executed (.opImm op W i.rd i.rs1 (BitVec.ofNat 12 i.imm)) i.instSize R
      (oper R i op.operator .Imm op.signed W) :=
  executed_oper R i op W .Imm rfl

end Oper

end RevCPU.Isa
