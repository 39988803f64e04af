import RevCPU.Proc.InstTable

namespace RevCPU

def DECODE_RD (x : ℕ) : ℕ := (x >>> 7) &&& 0b11111

def DECODE_RS1 (x : ℕ) : ℕ := (x >>> 15) &&& 0b11111

def DECODE_RS2 (x : ℕ) : ℕ := (x >>> 20) &&& 0b11111

def DECODE_IMM12 (x : ℕ) : ℕ := (x >>> 20) &&& 0b111111111111

def DECODE_FUNCT7 (x : ℕ) : ℕ := (x >>> 25) &&& 0b1111111

def DECODE_FUNCT2 (x : ℕ) : ℕ := (x >>> 25) &&& 0b11

def DECODE_LOWER_CRS2 (x : ℕ) : ℕ := (x >>> 2) &&& 0b11111

def CRegIdx (x : ℕ) : ℕ := x + 8

/-- The immediate of `DecodeCIInst`. Two of the masks are the decimal number
    1100. -/
def immCI (f : RevFeature) (opcode funct3 rd : ℕ) (Inst : ℕ) : ℕ :=
  let imm := DECODE_LOWER_CRS2 Inst ||| ((Inst &&& 0b1000000000000) >>> 7)
  if opcode = 0b10 ∧ funct3 = 0b001 then
    ((Inst &&& 0b1100000) >>> 2) ||| ((Inst &&& 0b1000000000000) >>> 7) ||| ((Inst &&& 0b11100) <<< 4)
  else if opcode = 0b10 ∧ funct3 = 0b010 then
    ((Inst &&& 0b1110000) >>> 2) ||| ((Inst &&& 0b1000000000000) >>> 7) ||| ((Inst &&& 1100) <<< 4)
  else if opcode = 0b10 ∧ funct3 = 0b011 then
    if f.IsRV64 then
      ((Inst &&& 0b1100000) >>> 2) ||| ((Inst &&& 0b1000000000000) >>> 7) |||
        ((Inst &&& 0b11100) <<< 4)
    else
      ((Inst &&& 0b1110000) >>> 2) ||| ((Inst &&& 0b1000000000000) >>> 7) ||| ((Inst &&& 1100) <<< 4)
  else if opcode = 0b01 ∧ funct3 = 0b011 ∧ rd = 2 then
    let imm := ((Inst &&& 0b1000000) >>> 2) ||| ((Inst &&& 0b100) <<< 3) |||
      ((Inst &&& 0b100000) <<< 1) ||| ((Inst &&& 0b11000) <<< 4) |||
      ((Inst &&& 0b1000000000000) >>> 3)
    if imm &&& 0b1000000000 ≠ 0 then imm ||| 0b11111111111111111111111000000000 else imm
  else if opcode = 0b01 ∧ funct3 = 0b011 ∧ rd ≠ 0 ∧ rd ≠ 2 then
    let imm := ((Inst &&& 0b1111100) <<< 10) ||| ((Inst &&& 0b1000000000000) <<< 5)
    let imm := if imm &&& 0b100000000000000000 ≠ 0 then
      imm ||| 0b11111111111111000000000000000000 else imm
    imm >>> 12
  else if opcode = 0b01 ∧ funct3 = 0b010 ∧ rd ≠ 0 then
    let imm := ((Inst &&& 0b1111100) >>> 2) ||| ((Inst &&& 0b1000000000000) >>> 7)
    if imm &&& 0b100000 ≠ 0 then imm ||| 0b11111111111111111111111111000000 else imm
  else if imm &&& 0b100000 ≠ 0 then imm ||| 0b11111111111111111111111111100000
  else imm

/-- The register `rs1` of `DecodeCIInst`. -/
def rs1CI (opcode funct3 rd : ℕ) : ℕ :=
  if opcode = 0b10 ∧ (funct3 = 0b001 ∨ funct3 = 0b010 ∨ funct3 = 0b011) then 2
  else if opcode = 0b01 ∧ funct3 = 0b011 ∧ rd = 2 then 2
  else if opcode = 0b01 ∧ funct3 = 0b010 ∧ rd ≠ 0 then 0
  else rd

def DecodeCIInst (f : RevFeature) (Inst : ℕ) (e : RevInstEntry) : RevInst :=
  let rd := DECODE_RD Inst
  { opcode := e.opcode, funct3 := e.funct3, rd, rs1 := rs1CI e.opcode e.funct3 rd,
    imm := immCI f e.opcode e.funct3 rd Inst, instSize := 2, compressed := true }

/-- The immediate of `DecodeCSSInst`. -/
def immCSS (f : RevFeature) (funct3 : ℕ) (Inst : ℕ) : ℕ :=
  if funct3 = 0b101 then
    ((Inst &&& 0b1110000000000) >>> 7) ||| ((Inst &&& 0b1110000000) >>> 1)
  else if funct3 = 0b110 then
    ((Inst &&& 0b1111000000000) >>> 7) ||| ((Inst &&& 0b110000000) >>> 1)
  else if funct3 = 0b111 then
    if f.IsRV64 then ((Inst &&& 0b1110000000000) >>> 7) ||| ((Inst &&& 0b1110000000) >>> 1)
    else ((Inst &&& 0b1111000000000) >>> 7) ||| ((Inst &&& 0b110000000) >>> 1)
  else (Inst &&& 0b1111110000000) >>> 7

def DecodeCSSInst (f : RevFeature) (Inst : ℕ) (e : RevInstEntry) : RevInst :=
  { opcode := e.opcode, funct3 := e.funct3,
    rs1 := if e.funct3 = 0b101 ∨ e.funct3 = 0b110 ∨ e.funct3 = 0b111 then 2 else 2 ^ 64 - 1,
    rs2 := DECODE_LOWER_CRS2 Inst,
    imm := immCSS f e.funct3 Inst, instSize := 2, compressed := true }

/-- The immediate of `DecodeCLInst`. -/
def immCL (f : RevFeature) (funct3 : ℕ) (Inst : ℕ) : ℕ :=
  let double := ((Inst &&& 0b1100000) <<< 1) ||| ((Inst &&& 0b1110000000000) >>> 7)
  let word := ((Inst &&& 0b100000) <<< 1) ||| ((Inst &&& 0b1000000) >>> 4) |||
    ((Inst &&& 0b1110000000000) >>> 7)
  if funct3 = 0b001 then double
  else if funct3 = 0b010 then word
  else if funct3 = 0b011 then if f.IsRV64 then double else word
  else if funct3 = 0b101 then double
  else if funct3 = 0b110 then word
  else if funct3 = 0b111 then if f.IsRV64 then double else word
  else 0

def DecodeCLInst (f : RevFeature) (Inst : ℕ) (e : RevInstEntry) : RevInst :=
  { opcode := e.opcode, funct3 := e.funct3, rd := CRegIdx ((Inst &&& 0b11100) >>> 2),
    rs1 := CRegIdx ((Inst &&& 0b1110000000) >>> 7), imm := immCL f e.funct3 Inst, instSize := 2,
    compressed := true }

/-- The immediate of `DecodeCSInst`. In the branch for RV32 the second
    assignment overwrites the first. -/
def immCS (f : RevFeature) (funct3 : ℕ) (Inst : ℕ) : ℕ :=
  if funct3 = 0b110 then
    ((Inst &&& 0b0100000) <<< 1) ||| ((Inst &&& 0b01110000000000) >>> 6) |||
      ((Inst &&& 0b01000000) >>> 4)
  else if f.IsRV32 then
    ((Inst &&& 0b01000000) <<< 4) ||| ((Inst &&& 0b01110000000000) >>> 7)
  else ((Inst &&& 0b01100000) <<< 1) ||| ((Inst &&& 0b01110000000000) >>> 7)

def DecodeCSInst (f : RevFeature) (Inst : ℕ) (e : RevInstEntry) : RevInst :=
  { opcode := e.opcode, funct3 := e.funct3, rs2 := CRegIdx ((Inst &&& 0b011100) >>> 2),
    rs1 := CRegIdx ((Inst &&& 0b01110000000) >>> 7), imm := immCS f e.funct3 Inst, instSize := 2,
    compressed := true }

def DecodeIInst (Inst : ℕ) (e : RevInstEntry) : RevInst :=
  { opcode := e.opcode, funct3 := e.funct3,
    rd := if e.rdClass ≠ .RegUNKNOWN then DECODE_RD Inst else 0,
    rs1 := if e.rs1Class ≠ .RegUNKNOWN then DECODE_RS1 Inst else 0,
    rs2 := 0, imm := DECODE_IMM12 Inst, instSize := 4 }

def DecodeSInst (Inst : ℕ) (e : RevInstEntry) : RevInst :=
  { opcode := e.opcode, funct3 := e.funct3, rd := 0,
    rs1 := if e.rs1Class ≠ .RegUNKNOWN then DECODE_RS1 Inst else 0,
    rs2 := if e.rs2Class ≠ .RegUNKNOWN then DECODE_RS2 Inst else 0,
    imm := DECODE_RD Inst ||| (DECODE_FUNCT7 Inst <<< 5),
    instSize := 4 }

/-- The routine that the format of an entry selects. -/
def decodeEntry (f : RevFeature) (Inst : ℕ) (e : RevInstEntry) : RevInst :=
  match e.format with
  | .RVTypeI => DecodeIInst Inst e
  | .RVTypeS => DecodeSInst Inst e
  | .RVCTypeCI => DecodeCIInst f (Inst % 2 ^ 16) e
  | .RVCTypeCSS => DecodeCSSInst f (Inst % 2 ^ 16) e
  | .RVCTypeCL => DecodeCLInst f (Inst % 2 ^ 16) e
  | .RVCTypeCS => DecodeCSInst f (Inst % 2 ^ 16) e

/-- The encoding that `DecodeCompressed` looks up. -/
def encCompressed (Inst : ℕ) : ℕ :=
  let opc := Inst &&& 0b11
  let l3 := (Inst &&& 0b1110000000000000) >>> 13
  let opSelect := (Inst &&& 0b110000000000) >>> 10
  let arith := opc = 0b01 ∧ l3 = 0b100
  let jump := opc = 0b10 ∧ l3 = 0b100
  let funct2 :=
    if arith then if opSelect = 0b11 then (Inst &&& 0b01100000) >>> 5 else opSelect else 0
  let funct3 := if (arith ∧ opSelect = 0b11) ∨ jump ∨ opc = 0b11 then 0 else l3
  let funct4 := if jump then (Inst &&& 0b1111000000000000) >>> 12 else 0
  let funct6 := if arith ∧ opSelect = 0b11 then (Inst &&& 0b1111110000000000) >>> 10 else 0
  opc ||| funct2 <<< 2 ||| funct3 <<< 4 ||| funct4 <<< 8 ||| funct6 <<< 12

/-- `DecodeCompressed` without a coprocessor; `none` is a fatal error. -/
def DecodeCompressed (f : RevFeature) (Inst : ℕ) : Option RevInst :=
  if !f.HasCompressed then none
  else
    (CEncToEntry f (encCompressed (Inst % 2 ^ 16))).bind fun Entry =>
      (SeedInstTable f)[Entry]?.map fun e => { decodeEntry f Inst e with entry := Entry }

/-- The encoding that `DecodeInst` looks up. -/
def encInst (Inst : ℕ) : ℕ :=
  let Opcode := Inst &&& 0b1111111
  let inst42 := (Opcode >>> 2) &&& 0b111
  let inst65 := (Opcode >>> 5) &&& 0b11
  let Funct3 :=
    if inst42 = 0b011 ∧ inst65 = 0b11 ∨ inst42 = 0b101 ∧ inst65 = 0b00 ∨
        inst42 = 0b101 ∧ inst65 = 0b01 then 0
    else (Inst &&& 0b111000000000000) >>> 12
  let Funct2or7 :=
    if inst65 = 0b01 then
      if inst42 = 0b011 ∨ inst42 = 0b100 ∨ inst42 = 0b110 then
        if Opcode = 0b0101111 then (DECODE_FUNCT7 Inst &&& 0b01111100) >>> 2
        else DECODE_FUNCT7 Inst
      else 0
    else if inst65 = 0b10 ∧ inst42 < 0b100 then DECODE_FUNCT2 Inst
    else if inst65 = 0b10 ∧ inst42 = 0b100 then DECODE_FUNCT7 Inst
    else if inst65 = 0b00 ∧ inst42 = 0b110 ∧ Funct3 ≠ 0 then DECODE_FUNCT7 Inst
    else if inst65 = 0b00 ∧ inst42 = 0b100 ∧ Funct3 = 0b101 then (Inst >>> 26) &&& 0b1111111
    else 0
  let fcvtOp :=
    if Opcode = 0b1010011 ∧ Funct2or7 ∈ [0b1100000, 0b1101000, 0b0100000, 0b0100001, 0b1100001,
        0b1101001] then DECODE_RS2 Inst
    else 0
  let Imm12 :=
    if inst42 = 0b100 ∧ inst65 = 0b11 ∧ Funct3 = 0 then (Inst >>> 19) &&& 0b111111111111 else 0
  (Opcode ||| Funct3 <<< 8 ||| Funct2or7 <<< 11 ||| Imm12 <<< 18 ||| fcvtOp <<< 30) % 2 ^ 32

/-- The lookup of `DecodeInst`, which tries once more with the rounding mode
    taken out of a floating-point encoding. -/
def findEntry (f : RevFeature) (Inst : ℕ) : Option ℕ :=
  let Enc := encInst Inst
  let inst65 := (Inst >>> 5) &&& 0b11
  let Funct3 := (Enc >>> 8) &&& 0b111
  match EncToEntry f Enc with
  | some Entry => some Entry
  | none =>
    if inst65 = 0b10 ∧ Funct3 ≠ 0b101 ∧ Funct3 ≠ 0b110 then EncToEntry f (Enc &&& 0xfffff8ff)
    else none

/-- `DecodeInst` without a coprocessor; `none` is a fatal error. A word is
    compressed unless its two low bits are set. -/
def DecodeInst (f : RevFeature) (Inst : ℕ) : Option RevInst :=
  if Inst &&& 0b11 ≠ 0b11 then DecodeCompressed f Inst
  else
    (findEntry f Inst).bind fun Entry =>
      (SeedInstTable f)[Entry]?.map fun e => { decodeEntry f Inst e with entry := Entry }

end RevCPU
