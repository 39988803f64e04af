import RevCPU.Proc.Expand
import RevCPU.Proc.RegFile
import RevCPU.Isa.Decode

namespace RevCPU.Isa

open RevCPU.Lib

/-- The sign extension of an immediate from `bits` bits: an `int32_t`, and then
    the `uint64_t` that it is converted to. -/
def immExt (imm bits : ℕ) : ℕ :=
  (((SignExt (BitVec.ofNat 64 imm) bits).setWidth 32).signExtend 64).toNat

section Functions

variable (R : RevRegFile) (Inst : RevInst)

/-- XLEN. -/
def xlen : ℕ := if R.IsRV32 then 32 else 64

def SetPC (val : ℕ) : RevRegFile := { R with PC := val % 2 ^ xlen R }

def AdvancePC : RevRegFile := { R with PC := (R.PC + Inst.instSize) % 2 ^ xlen R }

def jal : RevRegFile :=
  let R' := R.SetX Inst.rd (R.PC + Inst.instSize)
  SetPC R' (R'.PC + immExt Inst.imm 21)

def jalr : RevRegFile :=
  let ret := R.PC + Inst.instSize
  (SetPC R ((R.GetX Inst.rs1 + immExt Inst.imm 12) % 2 ^ 64 &&& (2 ^ 64 - 2))).SetX Inst.rd ret

/-- `bcond`, for the comparison of two registers of XLEN bits. -/
def bcond (op : ℕ → ℕ → Bool) : RevRegFile :=
  if op (R.GetX Inst.rs1) (R.GetX Inst.rs2) then SetPC R (R.PC + immExt Inst.imm 13)
  else AdvancePC R Inst

def beq : RevRegFile := bcond R Inst (· == ·)

def bne : RevRegFile := bcond R Inst (· != ·)

/-- `add`, whose sum is truncated to XLEN bits by `SetX`. -/
def add : RevRegFile :=
  AdvancePC (R.SetX Inst.rd (R.GetX Inst.rs1 + R.GetX Inst.rs2)) Inst

def ebreak : RevRegFile := AdvancePC R Inst

def cj : RevRegFile := jal R { Inst with rd := 0, imm := immExt Inst.jumpTarget 12 }

/-- `cjal`, which does not extend the sign of the target. -/
def cjal : RevRegFile := jal R { Inst with imm := Inst.jumpTarget }

def cmv : RevRegFile := add R Inst

/-- `cjr`, which clears `rs2` where the expansion has `rd` zero. -/
def cjr : RevRegFile := jalr R { Inst with rs2 := 0 }

def CRFUNC_1000 : RevRegFile := if Inst.rs2 ≠ 0 then cmv R Inst else cjr R Inst

def CRFUNC_1001 : RevRegFile :=
  if Inst.rs1 = 0 ∧ Inst.rd = 0 then ebreak R Inst
  else if Inst.rs2 = 0 ∧ Inst.rd ≠ 0 then jalr R { Inst with rd := 1 }
  else add R Inst

def cbeqz : RevRegFile := beq R { Inst with rs2 := 0, imm := immExt Inst.offset 9 }

def cbnez : RevRegFile := bne R { Inst with imm := immExt Inst.offset 9 }

end Functions

/-- The implementation functions of the compressed jumps and branches. -/
def control : ImplFunc → Option (RevRegFile → RevInst → RevRegFile)
  | .cj => some cj
  | .cjal => some cjal
  | .CRFUNC_1000 => some CRFUNC_1000
  | .CRFUNC_1001 => some CRFUNC_1001
  | .cbeqz => some cbeqz
  | .cbnez => some cbnez
  | _ => none

/-- The compressed jumps and branches of the RISC-V C extension. -/
inductive CtrlForm
  | j | jal | jr | jalr | beqz | bnez
  deriving DecidableEq, Repr

/-- The jumps and branches that they expand to. -/
inductive Ctrl
  | jal (rd : ℕ) (offset : ℤ)
  | jalr (rd rs1 : ℕ) (offset : ℤ)
  | beq (rs1 rs2 : ℕ) (offset : ℤ)
  | bne (rs1 rs2 : ℕ) (offset : ℤ)

namespace CtrlForm

/-- The jump or branch that a word encodes on a machine. -/
def ofWord (f : RevFeature) (w : ℕ) : Option CtrlForm :=
  if !(f.RV_I && f.RV_C) then none
  else
    match cbits w 1 0, cbits w 15 13 with
    | 0b01, 0b001 => if f.IsRV64 then none else some jal
    | 0b01, 0b101 => some j
    | 0b01, 0b110 => some beqz
    | 0b01, 0b111 => some bnez
    | 0b10, 0b100 =>
      if cbits w 11 7 ≠ 0 ∧ cbits w 6 2 = 0 then some (if cbits w 12 12 = 0 then jr else jalr)
      else none
    | _, _ => none

/-- The offset of a jump: the bits 11, 4, 9-8, 10, 6, 7, 3-1 and 5 of it, from
    the top. -/
def jOffset (w : ℕ) : ℤ :=
  cbits w 11 11 * 16 + cbits w 10 9 * 256 + cbits w 8 8 * 1024 + cbits w 7 7 * 64 +
    cbits w 6 6 * 128 + cbits w 5 3 * 2 + cbits w 2 2 * 32 - cbits w 12 12 * 2048

/-- The offset of a branch: the bits 8, 4-3, 7-6, 2-1 and 5 of it. -/
def bOffset (w : ℕ) : ℤ :=
  cbits w 11 10 * 8 + cbits w 6 5 * 64 + cbits w 4 3 * 2 + cbits w 2 2 * 32 - cbits w 12 12 * 256

/-- The expansion by the RISC-V C extension. -/
def expand (w : ℕ) : CtrlForm → Ctrl
  | j => .jal 0 (jOffset w)
  | jal => .jal 1 (jOffset w)
  | jr => .jalr 0 (cbits w 11 7) 0
  | jalr => .jalr 1 (cbits w 11 7) 0
  | beqz => .beq (cbits w 9 7 + 8) 0 (bOffset w)
  | bnez => .bne (cbits w 9 7 + 8) 0 (bOffset w)

end CtrlForm

/-- A sum modulo 2^XLEN. -/
def wrap (R : RevRegFile) (v : ℤ) : ℕ := (v % 2 ^ xlen R).toNat

/-- The x registers after a link value is written. -/
def link (R : RevRegFile) (rd : ℕ) : ℕ → ℕ := fun r =>
  if r = rd ∧ r ≠ 0 then wrap R (R.PC + 2) else R.GetX r

/-- The PC and the x registers after a jump or branch that stands in two
    bytes. -/
def Ctrl.exec (R : RevRegFile) : Ctrl → ℕ × (ℕ → ℕ)
  | .jal rd offset => (wrap R (R.PC + offset), link R rd)
  | .jalr rd rs1 offset => (wrap R (R.GetX rs1 + offset) / 2 * 2, link R rd)
  | .beq rs1 rs2 offset =>
    (wrap R (R.PC + if R.GetX rs1 = R.GetX rs2 then offset else 2), R.GetX)
  | .bne rs1 rs2 offset =>
    (wrap R (R.PC + if R.GetX rs1 ≠ R.GetX rs2 then offset else 2), R.GetX)

/-- Decoding the word and running the function of its entry gives the PC and
    the x registers. -/
def Runs (f : RevFeature) (coProc : ℕ → Bool) (w : ℕ) (R : RevRegFile) (s : ℕ × (ℕ → ℕ)) : Prop :=
  ∃ i e g, DecodeCompressed f coProc w = some i ∧ (InstTable f)[i.entry]? = some e ∧
    e.func.bind control = some g ∧ (g R i).PC = s.1 ∧ ∀ r, (g R i).GetX r = s.2 r

/-- Where the code does what the expansion does: c.jal only with an offset that
    is not negative, and c.jr, which writes the link value to its own register,
    only when that value is there already. -/
def CtrlForm.Agrees (w : ℕ) (R : RevRegFile) (form : CtrlForm) : Prop :=
  (form = .jal → cbits w 12 12 = 0) ∧
    (form = .jr → R.GetX (cbits w 11 7) = wrap R (R.PC + 2))

end RevCPU.Isa
