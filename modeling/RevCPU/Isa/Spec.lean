import Mathlib.Algebra.Group.Nat.Defs

namespace RevCPU.Isa

/-- The operations of the RISC-V base integer instructions. -/
inductive AluOp
  | add | sub | sll | slt | sltu | xor | srl | sra | or | and
  deriving DecidableEq, Repr

namespace AluOp

/-- The result for operands of `n` bits. A shift takes its amount from the low
    bits of the second operand. -/
def eval {n : ℕ} (a b : BitVec n) : AluOp → BitVec n
  | add => a + b
  | sub => a - b
  | sll => a <<< (b.toNat % n)
  | slt => if a.slt b then 1 else 0
  | sltu => if a.ult b then 1 else 0
  | xor => a ^^^ b
  | srl => a >>> (b.toNat % n)
  | sra => a.sshiftRight (b.toNat % n)
  | or => a ||| b
  | and => a &&& b

def funct3 : AluOp → ℕ
  | add | sub => 0b000
  | sll => 0b001
  | slt => 0b010
  | sltu => 0b011
  | xor => 0b100
  | srl | sra => 0b101
  | or => 0b110
  | and => 0b111

def funct7 : AluOp → ℕ
  | sub | sra => 0b0100000
  | _ => 0b0000000

def isShift : AluOp → Bool
  | sll | srl | sra => true
  | _ => false

/-- The operations on the low 32 bits that RV64 adds. -/
def hasWord : AluOp → Bool
  | add | sub | sll | srl | sra => true
  | _ => false

end AluOp

/-- The conditions of the branches. -/
inductive BranchOp
  | eq | ne | lt | ge | ltu | geu
  deriving DecidableEq, Repr

namespace BranchOp

def eval {n : ℕ} (a b : BitVec n) : BranchOp → Bool
  | eq => a == b
  | ne => a != b
  | lt => a.slt b
  | ge => b.sle a
  | ltu => a.ult b
  | geu => b.ule a

def funct3 : BranchOp → ℕ
  | eq => 0b000
  | ne => 0b001
  | lt => 0b100
  | ge => 0b101
  | ltu => 0b110
  | geu => 0b111

end BranchOp

/-- The integer computational instructions, the jumps and the branches of RV32I
    and RV64I. `W` marks the forms on 32 bits. -/
inductive IntInst
  | lui (rd : ℕ) (imm : BitVec 20)
  | auipc (rd : ℕ) (imm : BitVec 20)
  | jal (rd : ℕ) (offset : BitVec 21)
  | jalr (rd rs1 : ℕ) (offset : BitVec 12)
  | branch (op : BranchOp) (rs1 rs2 : ℕ) (offset : BitVec 13)
  | opImm (op : AluOp) (W : Bool) (rd rs1 : ℕ) (imm : BitVec 12)
  | opReg (op : AluOp) (W : Bool) (rd rs1 rs2 : ℕ)

/-- The x registers and the PC of a hart with XLEN `n`. -/
structure IntState (n : ℕ) where
  x : ℕ → BitVec n
  pc : BitVec n

namespace IntState

variable {n : ℕ} (s : IntState n)

/-- Register 0 stays as it is. -/
def write (rd : ℕ) (v : BitVec n) : ℕ → BitVec n := fun r => if r = rd ∧ r ≠ 0 then v else s.x r

/-- The PC of the instruction after one of `size` bytes. -/
def next (size : ℕ) : BitVec n := s.pc + BitVec.ofNat n size

/-- An operation on all bits of the operands, or on the low 32 with the sign of
    the result extended. -/
def alu (op : AluOp) (W : Bool) (a b : BitVec n) : BitVec n :=
  if W then (op.eval (a.setWidth 32) (b.setWidth 32)).signExtend n else op.eval a b

end IntState

namespace IntInst

/-- What an instruction that stands in `size` bytes does. -/
def exec {n : ℕ} (size : ℕ) (s : IntState n) : IntInst → IntState n
  | lui rd imm =>
    { x := s.write rd ((imm ++ 0#12 : BitVec 32).signExtend n), pc := s.next size }
  | auipc rd imm =>
    { x := s.write rd (s.pc + (imm ++ 0#12 : BitVec 32).signExtend n), pc := s.next size }
  | jal rd offset => { x := s.write rd (s.next size), pc := s.pc + offset.signExtend n }
  | jalr rd rs1 offset =>
    { x := s.write rd (s.next size), pc := (s.x rs1 + offset.signExtend n) &&& ~~~1 }
  | branch op rs1 rs2 offset =>
    { x := s.x
      pc := if op.eval (s.x rs1) (s.x rs2) then s.pc + offset.signExtend n else s.next size }
  | opImm op W rd rs1 imm =>
    { x := s.write rd (IntState.alu op W (s.x rs1) (imm.signExtend n)), pc := s.next size }
  | opReg op W rd rs1 rs2 =>
    { x := s.write rd (IntState.alu op W (s.x rs1) (s.x rs2)), pc := s.next size }

end IntInst

/-- The fields of a 32-bit word. -/
def rdField (w : ℕ) : ℕ := w / 2 ^ 7 % 2 ^ 5

def rs1Field (w : ℕ) : ℕ := w / 2 ^ 15 % 2 ^ 5

def rs2Field (w : ℕ) : ℕ := w / 2 ^ 20 % 2 ^ 5

def funct3Field (w : ℕ) : ℕ := w / 2 ^ 12 % 2 ^ 3

/-- The immediates of the formats I, U, B and J. -/
def immI (w : ℕ) : BitVec 12 := BitVec.ofNat 12 (w / 2 ^ 20)

def immU (w : ℕ) : BitVec 20 := BitVec.ofNat 20 (w / 2 ^ 12)

def immB (w : ℕ) : BitVec 13 :=
  BitVec.ofNat 13 (w / 2 ^ 31 % 2 * 2 ^ 12 + w / 2 ^ 7 % 2 * 2 ^ 11 + w / 2 ^ 25 % 2 ^ 6 * 2 ^ 5 +
    w / 2 ^ 8 % 2 ^ 4 * 2)

def immJ (w : ℕ) : BitVec 21 :=
  BitVec.ofNat 21 (w / 2 ^ 31 % 2 * 2 ^ 20 + w / 2 ^ 12 % 2 ^ 8 * 2 ^ 12 + w / 2 ^ 20 % 2 * 2 ^ 11 +
    w / 2 ^ 21 % 2 ^ 10 * 2)

/-- The 32-bit words of an instruction, by the opcode tables of the RISC-V
    specification. The shift amount of RV64 takes the lowest bit of funct7. -/
inductive IntWord (rv64 : Bool) (w : ℕ) : IntInst → Prop
  | lui (hop : w % 2 ^ 7 = 0b0110111) : IntWord rv64 w (.lui (rdField w) (immU w))
  | auipc (hop : w % 2 ^ 7 = 0b0010111) : IntWord rv64 w (.auipc (rdField w) (immU w))
  | jal (hop : w % 2 ^ 7 = 0b1101111) : IntWord rv64 w (.jal (rdField w) (immJ w))
  | jalr (hop : w % 2 ^ 7 = 0b1100111) (hf3 : funct3Field w = 0b000) :
      IntWord rv64 w (.jalr (rdField w) (rs1Field w) (immI w))
  | branch (op : BranchOp) (hop : w % 2 ^ 7 = 0b1100011) (hf3 : funct3Field w = op.funct3) :
      IntWord rv64 w (.branch op (rs1Field w) (rs2Field w) (immB w))
  | opImm (op : AluOp) (W : Bool) (hop : w % 2 ^ 7 = if W then 0b0011011 else 0b0010011)
      (hf3 : funct3Field w = op.funct3) (hsub : op ≠ .sub)
      (hf7 : op.isShift = true →
        if rv64 ∧ W = false then w / 2 ^ 26 = op.funct7 / 2 else w / 2 ^ 25 = op.funct7)
      (hW : W = true → rv64 = true ∧ op.hasWord = true) :
      IntWord rv64 w (.opImm op W (rdField w) (rs1Field w) (immI w))
  | opReg (op : AluOp) (W : Bool) (hop : w % 2 ^ 7 = if W then 0b0111011 else 0b0110011)
      (hf3 : funct3Field w = op.funct3) (hf7 : w / 2 ^ 25 = op.funct7)
      (hW : W = true → rv64 = true ∧ op.hasWord = true) :
      IntWord rv64 w (.opReg op W (rdField w) (rs1Field w) (rs2Field w))

end RevCPU.Isa
