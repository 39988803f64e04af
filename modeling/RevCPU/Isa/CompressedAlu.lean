import RevCPU.Isa.Integer

namespace RevCPU.Isa

section Functions

variable (R : RevRegFile) (Inst : RevInst)

/-- `caddi4spn`. With an immediate of zero it is a hint. -/
def caddi4spn : RevRegFile :=
  if Inst.imm = 0 then AdvancePC R Inst
  else addi R { Inst with imm := (Inst.imm &&& 0b11111111) * 4 }

def cli : RevRegFile := addi R { Inst with imm := immExt Inst.imm 6 }

/-- `CIFUNC`: c.addi16sp or c.lui. -/
def CIFUNC : RevRegFile :=
  if Inst.rd = 2 then addi R { Inst with imm := immExt Inst.imm 10 }
  else lui R { Inst with imm := immExt Inst.imm 17 }

def caddi : RevRegFile := addi R { Inst with imm := immExt Inst.imm 6 }

def cslli : RevRegFile := slli R Inst

def csrli : RevRegFile := srli R { Inst with rs1 := Inst.rd }

def csrai : RevRegFile := srai R Inst

def candi : RevRegFile := andi R { Inst with imm := immExt Inst.imm 6 }

def cand : RevRegFile := f_and R Inst

def cor : RevRegFile := f_or R Inst

def cxor : RevRegFile := f_xor R Inst

def csub : RevRegFile := sub R Inst

def caddiw : RevRegFile := addiw R { Inst with imm := immExt Inst.imm 6 }

def caddw : RevRegFile := addw R Inst

def csubw : RevRegFile := subw R Inst

end Functions

/-- The implementation functions of the compressed integer instructions. -/
def compressedAlu : ImplFunc → Option (RevRegFile → RevInst → RevRegFile)
  | .caddi4spn => some caddi4spn
  | .cli => some cli
  | .CIFUNC => some CIFUNC
  | .caddi => some caddi
  | .cslli => some cslli
  | .csrli => some csrli
  | .csrai => some csrai
  | .candi => some candi
  | .cand => some cand
  | .cor => some cor
  | .cxor => some cxor
  | .csub => some csub
  | .caddiw => some caddiw
  | .caddw => some caddw
  | .csubw => some csubw
  | .CRFUNC_1000 => some CRFUNC_1000
  | .CRFUNC_1001 => some CRFUNC_1001
  | _ => none

/-- The immediates of the compressed formats. -/
def imm6 (w : ℕ) : BitVec 6 := BitVec.ofNat 6 (cbits w 12 12 * 2 ^ 5 + cbits w 6 2)

def imm4spn (w : ℕ) : BitVec 10 :=
  BitVec.ofNat 10 (cbits w 10 7 * 2 ^ 6 + cbits w 12 11 * 2 ^ 4 + cbits w 5 5 * 2 ^ 3 +
    cbits w 6 6 * 2 ^ 2)

def imm16sp (w : ℕ) : BitVec 10 :=
  BitVec.ofNat 10 (cbits w 12 12 * 2 ^ 9 + cbits w 4 3 * 2 ^ 7 + cbits w 5 5 * 2 ^ 6 +
    cbits w 2 2 * 2 ^ 5 + cbits w 6 6 * 2 ^ 4)

/-- The compressed integer instructions and their expansions, by the RISC-V C
    extension. A shift amount has its highest bit set only on RV64. -/
inductive AluCWord (rv64 : Bool) (w : ℕ) : IntInst → Prop
  | addi4spn (hq : cbits w 1 0 = 0b00) (hf3 : cbits w 15 13 = 0b000) (himm : imm4spn w ≠ 0) :
      AluCWord rv64 w (.opImm .add false (cbits w 4 2 + 8) 2 ((imm4spn w).setWidth 12))
  | addi (hq : cbits w 1 0 = 0b01) (hf3 : cbits w 15 13 = 0b000) :
      AluCWord rv64 w (.opImm .add false (cbits w 11 7) (cbits w 11 7) ((imm6 w).signExtend 12))
  | addiw (hrv : rv64 = true) (hq : cbits w 1 0 = 0b01) (hf3 : cbits w 15 13 = 0b001)
      (hrd : cbits w 11 7 ≠ 0) :
      AluCWord rv64 w (.opImm .add true (cbits w 11 7) (cbits w 11 7) ((imm6 w).signExtend 12))
  | li (hq : cbits w 1 0 = 0b01) (hf3 : cbits w 15 13 = 0b010) :
      AluCWord rv64 w (.opImm .add false (cbits w 11 7) 0 ((imm6 w).signExtend 12))
  | addi16sp (hq : cbits w 1 0 = 0b01) (hf3 : cbits w 15 13 = 0b011) (hrd : cbits w 11 7 = 2)
      (himm : imm16sp w ≠ 0) :
      AluCWord rv64 w (.opImm .add false 2 2 ((imm16sp w).signExtend 12))
  | lui (hq : cbits w 1 0 = 0b01) (hf3 : cbits w 15 13 = 0b011) (hrd : cbits w 11 7 ≠ 2)
      (himm : imm6 w ≠ 0) :
      AluCWord rv64 w (.lui (cbits w 11 7) ((imm6 w).signExtend 20))
  | slli (hq : cbits w 1 0 = 0b10) (hf3 : cbits w 15 13 = 0b000)
      (hshamt : rv64 = true ∨ cbits w 12 12 = 0) :
      AluCWord rv64 w (.opImm .sll false (cbits w 11 7) (cbits w 11 7) ((imm6 w).setWidth 12))
  | srli (hq : cbits w 1 0 = 0b01) (hf3 : cbits w 15 13 = 0b100) (hf2 : cbits w 11 10 = 0b00)
      (hshamt : rv64 = true ∨ cbits w 12 12 = 0) :
      AluCWord rv64 w
        (.opImm .srl false (cbits w 9 7 + 8) (cbits w 9 7 + 8) ((imm6 w).setWidth 12))
  | srai (hq : cbits w 1 0 = 0b01) (hf3 : cbits w 15 13 = 0b100) (hf2 : cbits w 11 10 = 0b01)
      (hshamt : rv64 = true ∨ cbits w 12 12 = 0) :
      AluCWord rv64 w
        (.opImm .sra false (cbits w 9 7 + 8) (cbits w 9 7 + 8) ((imm6 w).setWidth 12))
  | andi (hq : cbits w 1 0 = 0b01) (hf3 : cbits w 15 13 = 0b100) (hf2 : cbits w 11 10 = 0b10) :
      AluCWord rv64 w
        (.opImm .and false (cbits w 9 7 + 8) (cbits w 9 7 + 8) ((imm6 w).signExtend 12))
  | mv (hq : cbits w 1 0 = 0b10) (hf4 : cbits w 15 12 = 0b1000) (hrs2 : cbits w 6 2 ≠ 0) :
      AluCWord rv64 w (.opReg .add false (cbits w 11 7) 0 (cbits w 6 2))
  | add (hq : cbits w 1 0 = 0b10) (hf4 : cbits w 15 12 = 0b1001) (hrs2 : cbits w 6 2 ≠ 0) :
      AluCWord rv64 w (.opReg .add false (cbits w 11 7) (cbits w 11 7) (cbits w 6 2))
  | arith (op : AluOp) (W : Bool) (hq : cbits w 1 0 = 0b01)
      (hf6 : cbits w 15 10 = if W then 0b100111 else 0b100011)
      (hf2 : (op, W, cbits w 6 5) ∈ [(.sub, false, 0b00), (.xor, false, 0b01), (.or, false, 0b10),
        (.and, false, 0b11), (.sub, true, 0b00), (.add, true, 0b01)])
      (hrv : W = true → rv64 = true) :
      AluCWord rv64 w (.opReg op W (cbits w 9 7 + 8) (cbits w 9 7 + 8) (cbits w 4 2 + 8))

/-- Decoding the word and running the function of its entry executes the
    instruction. -/
def RunsAluCWord (f : RevFeature) (coProc : ℕ → Bool) (w : ℕ) (R : RevRegFile) (t : IntInst) :
    Prop :=
  ∃ i e g, DecodeCompressed f coProc w = some i ∧ (InstTable f)[i.entry]? = some e ∧
    e.func.bind compressedAlu = some g ∧ Executed t 2 R (g R i)

end RevCPU.Isa
