import RevCPU.Common

namespace RevCPU

/-- The machine model of `RevFeature`: its XLEN and the extensions that decide
    which load and store instructions exist. -/
structure RevFeature where
  IsRV64 : Bool
  RV_I : Bool := true
  RV_F : Bool := false
  RV_D : Bool := false
  RV_C : Bool := true
  HartToExecID : ℕ := 0
  deriving DecidableEq, Repr

namespace RevFeature

def IsRV32 (f : RevFeature) : Bool := !f.IsRV64

def HasD (f : RevFeature) : Bool := f.RV_D

def HasCompressed (f : RevFeature) : Bool := f.RV_C

end RevFeature

/-- `RevInstF`: the instruction formats of the loads and stores. -/
inductive RevInstF
  | RVTypeI
  | RVTypeS
  | RVCTypeCI
  | RVCTypeCSS
  | RVCTypeCL
  | RVCTypeCS
  deriving DecidableEq, Repr

/-- The implementation functions of the loads and stores. -/
inductive ImplFunc
  | lb | lh | lw | lbu | lhu | sb | sh | sw
  | lwu | ld | sd
  | flw | fsw | fld | fsd
  | clwsp | cswsp | clw | csw
  | cldsp | csdsp | cld | csd
  | cflwsp | cfswsp | cflw | cfsw
  | cfldsp | cfsdsp | cfld | cfsd
  deriving DecidableEq, Repr

/-- `RevInstEntry`, with the defaults of `RevInstDefaults`. -/
structure RevInstEntry where
  opcode : ℕ := 0
  funct2 : ℕ := 0
  funct3 : ℕ := 0
  funct4 : ℕ := 0
  funct6 : ℕ := 0
  funct2or7 : ℕ := 0
  rdClass : RevRegClass := .RegGPR
  rs1Class : RevRegClass := .RegGPR
  rs2Class : RevRegClass := .RegGPR
  imm12 : ℕ := 0
  format : RevInstF
  func : ImplFunc
  compressed : Bool := false
  fpcvtOp : ℕ := 0
  deriving DecidableEq, Repr

/-- `RevInst`: a decoded instruction. Words and fields are natural numbers, as
    in the macros of `RevInstTable.h`. -/
structure RevInst where
  opcode : ℕ := 0
  funct3 : ℕ := 0
  rd : ℕ := 2 ^ 64 - 1
  rs1 : ℕ := 2 ^ 64 - 1
  rs2 : ℕ := 2 ^ 64 - 1
  imm : ℕ := 0
  instSize : ℕ := 0
  compressed : Bool := false
  entry : ℕ := 0
  deriving DecidableEq, Repr

/-- `ImmSignExt`, an `int32_t`. -/
def RevInst.ImmSignExt (i : RevInst) (bits : ℕ) : BitVec 32 := (SignExt (BitVec.ofNat 64 i.imm) bits).setWidth 32

/-- The loads and stores of `RV32ITable`. -/
def RV32ITable : List RevInstEntry :=
  [ { opcode := 0b0000011, funct3 := 0b000, rs2Class := .RegUNKNOWN, format := .RVTypeI, func := .lb },
    { opcode := 0b0000011, funct3 := 0b001, rs2Class := .RegUNKNOWN, format := .RVTypeI, func := .lh },
    { opcode := 0b0000011, funct3 := 0b010, rs2Class := .RegUNKNOWN, format := .RVTypeI, func := .lw },
    { opcode := 0b0000011, funct3 := 0b100, rs2Class := .RegUNKNOWN, format := .RVTypeI, func := .lbu },
    { opcode := 0b0000011, funct3 := 0b101, rs2Class := .RegUNKNOWN, format := .RVTypeI, func := .lhu },
    { opcode := 0b0100011, funct3 := 0b000, rdClass := .RegIMM, format := .RVTypeS, func := .sb },
    { opcode := 0b0100011, funct3 := 0b001, rdClass := .RegIMM, format := .RVTypeS, func := .sh },
    { opcode := 0b0100011, funct3 := 0b010, rdClass := .RegIMM, format := .RVTypeS, func := .sw } ]

/-- The loads and stores of `RV32ICTable`. -/
def RV32ICTable : List RevInstEntry :=
  [ { opcode := 0b10, funct3 := 0b010, format := .RVCTypeCI, func := .clwsp, compressed := true },
    { opcode := 0b10, funct3 := 0b110, format := .RVCTypeCSS, func := .cswsp, compressed := true },
    { opcode := 0b00, funct3 := 0b010, format := .RVCTypeCL, func := .clw, compressed := true },
    { opcode := 0b00, funct3 := 0b110, format := .RVCTypeCS, func := .csw, compressed := true } ]

/-- The loads and stores of `RV64ITable`. -/
def RV64ITable : List RevInstEntry :=
  [ { opcode := 0b0000011, funct3 := 0b110, rs2Class := .RegUNKNOWN, format := .RVTypeI, func := .lwu },
    { opcode := 0b0000011, funct3 := 0b011, rs2Class := .RegUNKNOWN, format := .RVTypeI, func := .ld },
    { opcode := 0b0100011, funct3 := 0b011, rdClass := .RegIMM, format := .RVTypeS, func := .sd } ]

/-- The loads and stores of `RV64ICTable`. -/
def RV64ICTable : List RevInstEntry :=
  [ { opcode := 0b10, funct3 := 0b011, format := .RVCTypeCI, func := .cldsp, compressed := true },
    { opcode := 0b10, funct3 := 0b111, format := .RVCTypeCSS, func := .csdsp, compressed := true },
    { opcode := 0b00, funct3 := 0b011, format := .RVCTypeCL, func := .cld, compressed := true },
    { opcode := 0b00, funct3 := 0b111, format := .RVCTypeCS, func := .csd, compressed := true } ]

/-- The loads and stores of `RV32FTable`. -/
def RV32FTable : List RevInstEntry :=
  [ { opcode := 0b0000111, funct3 := 0b010, rdClass := .RegFLOAT, rs2Class := .RegUNKNOWN,
      format := .RVTypeI, func := .flw },
    { opcode := 0b0100111, funct3 := 0b010, rdClass := .RegIMM, rs2Class := .RegFLOAT,
      format := .RVTypeS, func := .fsw } ]

def RV32FCOTable : List RevInstEntry :=
  [ { opcode := 0b10, funct3 := 0b011, rdClass := .RegFLOAT, format := .RVCTypeCI,
      func := .cflwsp, compressed := true },
    { opcode := 0b10, funct3 := 0b111, rs2Class := .RegFLOAT, format := .RVCTypeCSS,
      func := .cfswsp, compressed := true },
    { opcode := 0b00, funct3 := 0b011, rdClass := .RegFLOAT, format := .RVCTypeCL,
      func := .cflw, compressed := true },
    { opcode := 0b00, funct3 := 0b111, rs2Class := .RegFLOAT, format := .RVCTypeCS,
      func := .cfsw, compressed := true } ]

/-- The loads and stores of `RV32DTable`. -/
def RV32DTable : List RevInstEntry :=
  [ { opcode := 0b0000111, funct3 := 0b011, rdClass := .RegFLOAT, format := .RVTypeI, func := .fld },
    { opcode := 0b0100111, funct3 := 0b011, rdClass := .RegIMM, rs1Class := .RegFLOAT,
      rs2Class := .RegFLOAT, format := .RVTypeS, func := .fsd } ]

def RV32DCTable : List RevInstEntry :=
  [ { opcode := 0b10, funct3 := 0b001, rdClass := .RegFLOAT, format := .RVCTypeCI,
      func := .cfldsp, compressed := true },
    { opcode := 0b10, funct3 := 0b101, rs2Class := .RegFLOAT, format := .RVCTypeCSS,
      func := .cfsdsp, compressed := true },
    { opcode := 0b00, funct3 := 0b001, rdClass := .RegFLOAT, format := .RVCTypeCL,
      func := .cfld, compressed := true },
    { opcode := 0b00, funct3 := 0b101, format := .RVCTypeCS, func := .cfsd, compressed := true } ]

/-- `EnableExt`: the entries that an extension adds to the table. -/
def EnableExt (f : RevFeature) (IT CT OT : List RevInstEntry) (Opt : Bool) : List RevInstEntry :=
  IT ++ if f.RV_C then CT ++ (if Opt then OT else []) else []

/-- `SeedInstTable`. The other extensions have no loads or stores with the
    opcodes of these. -/
def SeedInstTable (f : RevFeature) : List RevInstEntry :=
  (if f.RV_I then
    if f.IsRV64 then
      EnableExt f RV32ITable RV32ICTable [] false ++ EnableExt f RV64ITable RV64ICTable [] false
    else EnableExt f RV32ITable RV32ICTable [] true
  else []) ++
  (if f.RV_F then
    if !f.RV_D && f.IsRV32 then EnableExt f RV32FTable [] RV32FCOTable true
    else EnableExt f RV32FTable [] RV32FCOTable false
  else []) ++
  (if f.RV_D then EnableExt f RV32DTable RV32DCTable [] false else [])

def CompressCEncoding (e : RevInstEntry) : ℕ :=
  e.opcode ||| e.funct2 <<< 2 ||| e.funct3 <<< 4 ||| e.funct4 <<< 8 ||| e.funct6 <<< 12

def CompressEncoding (e : RevInstEntry) : ℕ :=
  e.opcode ||| e.funct3 <<< 8 ||| e.funct2or7 <<< 11 ||| e.imm12 <<< 18 ||| e.fpcvtOp <<< 30

/-- `EncToEntry.find`: the maps keep the first entry that is inserted. -/
def EncToEntry (f : RevFeature) (Enc : ℕ) : Option ℕ :=
  (SeedInstTable f).findIdx? fun e => !e.compressed && CompressEncoding e == Enc

def CEncToEntry (f : RevFeature) (Enc : ℕ) : Option ℕ :=
  (SeedInstTable f).findIdx? fun e => e.compressed && CompressCEncoding e == Enc

end RevCPU
