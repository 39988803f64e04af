import RevCPU.Isa.ControlFields

namespace RevCPU.Isa

/-- `OpKind`: the second operand is an immediate or a register. -/
inductive OpKind
  | Imm | Reg
  deriving DecidableEq, Repr

/-- `ImmSignExt`, an `int32_t`. -/
def immSignExt (imm bits : ℕ) : BitVec 32 := (SignExt (BitVec.ofNat 64 imm) bits).setWidth 32

/-- An operator of the instruction templates on a type of `w` bits, which is
    signed or not. Signed arithmetic wraps around. -/
abbrev Operator := (signed : Bool) → (w : ℕ) → BitVec w → BitVec w → BitVec w

namespace Operator

def plus : Operator := fun _ _ a b => a + b

def minus : Operator := fun _ _ a b => a - b

def multiplies : Operator := fun _ _ a b => a * b

def bit_xor : Operator := fun _ _ a b => a ^^^ b

def bit_or : Operator := fun _ _ a b => a ||| b

def bit_and : Operator := fun _ _ a b => a &&& b

def less : Operator := fun signed w a b =>
  BitVec.ofNat w (if signed then a.slt b else a.ult b).toNat

/-- The shift amount of `ShiftLeft` and `ShiftRight`, an `unsigned` that is
    masked. -/
def shamt {w : ℕ} (shift : BitVec w) : ℕ :=
  shift.toNat % 2 ^ 32 &&& if w = 32 then 0x1f else 0x3f

def ShiftLeft : Operator := fun _ _ val shift => val <<< shamt shift

def ShiftRight : Operator := fun signed _ val shift =>
  if signed then val.sshiftRight (shamt shift) else val >>> shamt shift

end Operator

section Functions

variable (R : RevRegFile) (Inst : RevInst)

/-- `GetX<T>` for a `T` of `w` bits. -/
def getX (w rs : ℕ) : BitVec w := BitVec.ofNat w (R.GetX rs)

/-- `SetX` of a value of `w` bits of a signed or an unsigned type. -/
def setX {w : ℕ} (signed : Bool) (rd : ℕ) (v : BitVec w) : RevRegFile :=
  R.SetX rd (if signed then (v.signExtend 64).toNat else v.toNat)

/-- The second operand of `oper`, for a type of `w` bits. -/
def operand (w : ℕ) : OpKind → BitVec w
  | .Imm => (immSignExt Inst.imm 12).signExtend w
  | .Reg => getX R w Inst.rs2

/-- `oper`; `signed` is the parameter `SIGN` and `W` is `W_MODE`. -/
def oper (OP : Operator) (KIND : OpKind) (signed : Bool := true) (W : Bool := false) :
    RevRegFile :=
  if !W && R.IsRV32 then
    AdvancePC (setX R signed Inst.rd
      (OP signed 32 (getX R 32 Inst.rs1) (operand R Inst 32 KIND))) Inst
  else if W then
    AdvancePC (setX R true Inst.rd
      (OP signed 32 (getX R 32 Inst.rs1) (operand R Inst 32 KIND))) Inst
  else
    AdvancePC (setX R signed Inst.rd
      (OP signed 64 (getX R 64 Inst.rs1) (operand R Inst 64 KIND))) Inst

/-- The upper half of a product in `uppermul`, for operands of `w` bits: the
    signed product of `2 * w` bits wraps around and is shifted, then corrected
    for each signed operand that is negative. -/
def upperHalf {w : ℕ} (rs1_is_signed rs2_is_signed : Bool) (rs1 rs2 : BitVec w) : BitVec w :=
  let mul := ((rs1.setWidth (2 * w) * rs2.setWidth (2 * w)).sshiftRight w).setWidth w
  let mul := if rs1_is_signed ∧ rs1 &&& ((1 : BitVec w) <<< (w - 1)) ≠ 0 then mul - rs2 else mul
  if rs2_is_signed ∧ rs2 &&& ((1 : BitVec w) <<< (w - 1)) ≠ 0 then mul - rs1 else mul

/-- `uppermul`. -/
def uppermul (rs1_is_signed rs2_is_signed : Bool) : RevRegFile :=
  if R.IsRV32 then
    AdvancePC (setX R false Inst.rd
      (upperHalf rs1_is_signed rs2_is_signed (getX R 32 Inst.rs1) (getX R 32 Inst.rs2))) Inst
  else
    AdvancePC (setX R false Inst.rd
      (upperHalf rs1_is_signed rs2_is_signed (getX R 64 Inst.rs1) (getX R 64 Inst.rs2))) Inst

/-- `DivRem`. -/
inductive DivRem
  | Div | Rem
  deriving DecidableEq, Repr

/-- A division of the host, which is undefined for a zero divisor and for a
    signed quotient that does not fit. -/
def hostDiv {w : ℕ} (op : DivRem) (signed : Bool) (a b : BitVec w) : Option (BitVec w) :=
  if b = 0 then none
  else if signed then
    if a = BitVec.intMin w ∧ b = -1 then none
    else some (BitVec.ofInt w (match op with
      | .Div => a.toInt.tdiv b.toInt
      | .Rem => a.toInt.tmod b.toInt))
  else some (BitVec.ofNat w (match op with
    | .Div => a.toNat / b.toNat
    | .Rem => a.toNat % b.toNat))

/-- The result of `divrem` for operands of `w` bits. -/
def divremVal {w : ℕ} (op : DivRem) (signed : Bool) (rs1 rs2 : BitVec w) : Option (BitVec w) :=
  match op with
  | .Div =>
    if signed ∧ rs1 = BitVec.intMin w ∧ rs2 = -1 then some rs1
    else if rs2 ≠ 0 then hostDiv .Div signed rs1 rs2 else some (-1)
  | .Rem =>
    if signed ∧ rs1 = BitVec.intMin w ∧ rs2 = -1 then some 0
    else if rs2 ≠ 0 then hostDiv .Rem signed rs1 rs2 else some rs1

/-- `divrem`; `none` is an undefined division of the host. -/
def divrem (op : DivRem) (signed : Bool) (W : Bool := false) : Option RevRegFile :=
  if !W && R.IsRV32 then
    (divremVal op signed (getX R 32 Inst.rs1) (getX R 32 Inst.rs2)).map fun res =>
      AdvancePC (setX R signed Inst.rd res) Inst
  else if W then
    (divremVal op signed (getX R 32 Inst.rs1) (getX R 32 Inst.rs2)).map fun res =>
      AdvancePC (setX R true Inst.rd res) Inst
  else
    (divremVal op signed (getX R 64 Inst.rs1) (getX R 64 Inst.rs2)).map fun res =>
      AdvancePC (setX R signed Inst.rd res) Inst

end Functions

end RevCPU.Isa
