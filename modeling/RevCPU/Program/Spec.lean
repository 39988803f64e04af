import RevCPU.Isa.MulDiv
import RevCPU.Isa.Spec
import RevCPU.Proc.LoadModes

namespace RevCPU.Program

open RevCPU.Lib RevCPU.Isa

/-- The integer stores. -/
inductive IntStore
  | sb | sh | sw | sd
  deriving DecidableEq, Repr

namespace IntStore

def size : IntStore → ℕ
  | sb => 1
  | sh => 2
  | sw => 4
  | sd => 8

def funct3 : IntStore → ℕ
  | sb => 0b000
  | sh => 0b001
  | sw => 0b010
  | sd => 0b011

/-- The XLENs that have the store. -/
def avail (rv64 : Bool) : IntStore → Bool
  | sd => rv64
  | _ => true

theorem size_pos (t : IntStore) : 0 < t.size := by cases t <;> decide

theorem size_le (t : IntStore) : t.size ≤ 8 := by cases t <;> decide

end IntStore

def loadFunct3 : IntLoad → ℕ
  | .lb => 0b000
  | .lh => 0b001
  | .lw => 0b010
  | .ld => 0b011
  | .lbu => 0b100
  | .lhu => 0b101
  | .lwu => 0b110

/-- The operations of the M extension. -/
inductive MulDivOp
  | mul | mulh | mulhsu | mulhu | div | divu | rem | remu
  deriving DecidableEq, Repr

namespace MulDivOp

def eval {n : ℕ} (a b : BitVec n) : MulDivOp → BitVec n
  | mul => a * b
  | mulh => upperBits n (numVal true a * numVal true b)
  | mulhsu => upperBits n (numVal true a * numVal false b)
  | mulhu => upperBits n (numVal false a * numVal false b)
  | div => isaDivRem true a b .Div
  | divu => isaDivRem false a b .Div
  | rem => isaDivRem true a b .Rem
  | remu => isaDivRem false a b .Rem

def funct3 : MulDivOp → ℕ
  | mul => 0b000
  | mulh => 0b001
  | mulhsu => 0b010
  | mulhu => 0b011
  | div => 0b100
  | divu => 0b101
  | rem => 0b110
  | remu => 0b111

/-- The operations on the low 32 bits that RV64 adds. -/
def hasWord : MulDivOp → Bool
  | mulh | mulhsu | mulhu => false
  | _ => true

end MulDivOp

/-- The instructions of RV32IM and RV64IM without the fences and the system
    instructions. -/
inductive Inst
  | int (t : IntInst)
  | load (l : IntLoad) (rd rs1 : ℕ) (offset : BitVec 12)
  | store (t : IntStore) (rs1 rs2 : ℕ) (offset : BitVec 12)
  | mulDiv (op : MulDivOp) (W : Bool) (rd rs1 rs2 : ℕ)

/-- The state of a hart and its memory. -/
structure Arch (n : ℕ) where
  int : IntState n
  mem : ℕ → UInt8

namespace Arch

variable {n : ℕ} (s : Arch n)

/-- The address of a load or store. -/
def addr (rs1 : ℕ) (offset : BitVec 12) : ℕ := (s.int.x rs1 + offset.signExtend n).toNat

/-- The value that a load brings, extended to XLEN. -/
def loaded (l : IntLoad) (A : ℕ) : BitVec n :=
  let v := BitVec.ofNat (8 * l.size) (leNat (getBytes s.mem A l.size))
  if l.signed then v.signExtend n else v.setWidth n

/-- What an instruction of 4 bytes does. -/
def exec : Inst → Arch n
  | .int t => { int := t.exec 4 s.int, mem := s.mem }
  | .load l rd rs1 offset =>
    { int := { x := s.int.write rd (s.loaded l (s.addr rs1 offset)), pc := s.int.next 4 }
      mem := s.mem }
  | .store t rs1 rs2 offset =>
    { int := { x := s.int.x, pc := s.int.next 4 }
      mem := setBytes s.mem (s.addr rs1 offset) (leBytes t.size (s.int.x rs2).toNat) }
  | .mulDiv op W rd rs1 rs2 =>
    let a := s.int.x rs1
    let b := s.int.x rs2
    let v := if W then (op.eval (a.setWidth 32) (b.setWidth 32)).signExtend n else op.eval a b
    { int := { x := s.int.write rd v, pc := s.int.next 4 }, mem := s.mem }

/-- The 32-bit word at the PC. -/
def word : ℕ := leNat (getBytes s.mem s.int.pc.toNat 4)

end Arch

/-- The immediate of the format S. -/
def immS (w : ℕ) : BitVec 12 := BitVec.ofNat 12 (w / 2 ^ 25 * 2 ^ 5 + w / 2 ^ 7 % 2 ^ 5)

/-- The 32-bit words of an instruction, by the opcode tables of the RISC-V
    specification. -/
inductive InstWord (rv64 : Bool) (w : ℕ) : Inst → Prop
  | int (t : IntInst) (h : IntWord rv64 w t) : InstWord rv64 w (.int t)
  | load (l : IntLoad) (hop : w % 2 ^ 7 = 0b0000011) (hf3 : funct3Field w = loadFunct3 l)
      (hrv : l.avail (!rv64) = true) :
      InstWord rv64 w (.load l (rdField w) (rs1Field w) (immI w))
  | store (t : IntStore) (hop : w % 2 ^ 7 = 0b0100011) (hf3 : funct3Field w = t.funct3)
      (hrv : t.avail rv64 = true) :
      InstWord rv64 w (.store t (rs1Field w) (rs2Field w) (immS w))
  | mulDiv (op : MulDivOp) (W : Bool) (hop : w % 2 ^ 7 = if W then 0b0111011 else 0b0110011)
      (hf3 : funct3Field w = op.funct3) (hf7 : w / 2 ^ 25 = 0b0000001)
      (hW : W = true → rv64 = true ∧ op.hasWord = true) :
      InstWord rv64 w (.mulDiv op W (rdField w) (rs1Field w) (rs2Field w))

end RevCPU.Program
