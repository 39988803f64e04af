import RevCPU.Common

namespace RevCPU.Isa

/-- `RevInstF`: the instruction formats. -/
inductive RevInstF
  | RVTypeUNKNOWN | RVTypeR | RVTypeI | RVTypeS | RVTypeU | RVTypeB | RVTypeJ | RVTypeR4
  | RVCTypeCR | RVCTypeCI | RVCTypeCSS | RVCTypeCIW | RVCTypeCL | RVCTypeCS | RVCTypeCA
  | RVCTypeCB | RVCTypeCJ
  deriving DecidableEq, Repr

/-- `RevImmFunc`: what the twelve bits of an immediate are for. -/
inductive RevImmFunc
  | FUnk | FImm | FEnc | FVal
  deriving DecidableEq, Repr

/-- `RevInstEntry` over any type of implementation functions, with the defaults
    of `RevInstDefaults`. A null function pointer is `none`. -/
structure RevInstEntry (F : Type) where
  opcode : ℕ := 0
  funct2 : ℕ := 0
  funct3 : ℕ := 0
  funct4 : ℕ := 0
  funct6 : ℕ := 0
  funct2or7 : ℕ := 0
  rdClass : RevRegClass := .RegGPR
  rs1Class : RevRegClass := .RegGPR
  rs2Class : RevRegClass := .RegGPR
  rs3Class : RevRegClass := .RegUNKNOWN
  imm12 : ℕ := 0
  imm : RevImmFunc := .FUnk
  format : RevInstF := .RVTypeR
  func : Option F := none
  compressed : Bool := false
  fpcvtOp : ℕ := 0
  deriving DecidableEq

end RevCPU.Isa
