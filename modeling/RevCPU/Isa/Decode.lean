import RevCPU.Proc.Decode
import RevCPU.Isa.Seed

namespace RevCPU.Isa

/-- `RevInst`: a decoded instruction. `rm` is the number of the rounding mode,
    `0xff` for none. -/
structure RevInst where
  opcode : ℕ := 0
  funct2 : ℕ := 0
  funct3 : ℕ := 0
  funct4 : ℕ := 0
  funct6 : ℕ := 0
  funct2or7 : ℕ := 0
  rd : ℕ := 2 ^ 64 - 1
  rs1 : ℕ := 2 ^ 64 - 1
  rs2 : ℕ := 2 ^ 64 - 1
  rs3 : ℕ := 2 ^ 64 - 1
  imm : ℕ := 0
  rm : ℕ := 0xff
  aq : ℕ := 0
  rl : ℕ := 0
  offset : ℕ := 0
  jumpTarget : ℕ := 0
  instSize : ℕ := 0
  compressed : Bool := false
  entry : ℕ := 0
  isCoProcInst : Bool := false
  deriving DecidableEq

def DECODE_RS3 (x : ℕ) : ℕ := (x >>> 27) &&& 0b11111

def DECODE_IMM20 (x : ℕ) : ℕ := (x >>> 12) &&& 0b11111111111111111111

def DECODE_RM (x : ℕ) : ℕ := (x >>> 12) &&& 0b111

def DECODE_RL (x : ℕ) : ℕ := (x >>> 25) &&& 0b1

def DECODE_AQ (x : ℕ) : ℕ := (x >>> 26) &&& 0b1

/-- `IsFloat`: the entry has an operand in a floating-point register. -/
def IsFloat (e : RevInstEntry ImplFunc) : Bool :=
  e.rdClass == .RegFLOAT || e.rs1Class == .RegFLOAT || e.rs2Class == .RegFLOAT ||
    e.rs3Class == .RegFLOAT

/-- A register field that the decoders fill in only for a known class. -/
def field (c : RevRegClass) (x : ℕ) : ℕ := if c ≠ .RegUNKNOWN then x else 0

def DecodeRInst (Inst : ℕ) (e : RevInstEntry ImplFunc) : RevInst :=
  { opcode := e.opcode, funct3 := e.funct3, funct2or7 := e.funct2or7,
    rd := field e.rdClass (DECODE_RD Inst), rs1 := field e.rs1Class (DECODE_RS1 Inst),
    rs2 := field e.rs2Class (DECODE_RS2 Inst), rs3 := 0,
    imm := if e.imm = .FImm ∧ e.rs2Class = .RegUNKNOWN then DECODE_IMM12 Inst &&& 0b011111 else 0,
    instSize := 4,
    rl := if e.opcode = 0b0101111 then DECODE_RL Inst else 0,
    aq := if e.opcode = 0b0101111 then DECODE_AQ Inst else 0,
    rm := if IsFloat e then DECODE_RM Inst else 0xff }

def DecodeIInst (Inst : ℕ) (e : RevInstEntry ImplFunc) : RevInst :=
  { opcode := e.opcode, funct3 := e.funct3, rd := field e.rdClass (DECODE_RD Inst),
    rs1 := field e.rs1Class (DECODE_RS1 Inst), rs2 := 0, rs3 := 0, imm := DECODE_IMM12 Inst,
    instSize := 4, rm := if IsFloat e then DECODE_RM Inst else 0xff }

def DecodeSInst (Inst : ℕ) (e : RevInstEntry ImplFunc) : RevInst :=
  { opcode := e.opcode, funct3 := e.funct3, rd := 0, rs1 := field e.rs1Class (DECODE_RS1 Inst),
    rs2 := field e.rs2Class (DECODE_RS2 Inst), rs3 := 0,
    imm := DECODE_RD Inst ||| DECODE_FUNCT7 Inst <<< 5, instSize := 4,
    rm := if IsFloat e then DECODE_RM Inst else 0xff }

def DecodeUInst (Inst : ℕ) (e : RevInstEntry ImplFunc) : RevInst :=
  { opcode := e.opcode, rd := field e.rdClass (DECODE_RD Inst), rs1 := 0, rs2 := 0, rs3 := 0,
    imm := DECODE_IMM20 Inst, instSize := 4 }

def DecodeBInst (Inst : ℕ) (e : RevInstEntry ImplFunc) : RevInst :=
  { opcode := e.opcode, funct3 := e.funct3, rd := 0, rs1 := field e.rs1Class (DECODE_RS1 Inst),
    rs2 := field e.rs2Class (DECODE_RS2 Inst), rs3 := 0,
    imm := ((Inst >>> 19) &&& 0b1000000000000) ||| ((Inst <<< 4) &&& 0b100000000000) |||
      ((Inst >>> 20) &&& 0b11111100000) ||| ((Inst >>> 7) &&& 0b11110),
    instSize := 4 }

def DecodeJInst (Inst : ℕ) (e : RevInstEntry ImplFunc) : RevInst :=
  { opcode := e.opcode, funct3 := e.funct3, rd := field e.rdClass (DECODE_RD Inst), rs1 := 0,
    rs2 := 0, rs3 := 0,
    imm := ((Inst >>> 11) &&& 0b100000000000000000000) ||| (Inst &&& 0b11111111000000000000) |||
      ((Inst >>> 9) &&& 0b100000000000) ||| ((Inst >>> 20) &&& 0b11111111110),
    instSize := 4 }

def DecodeR4Inst (Inst : ℕ) (e : RevInstEntry ImplFunc) : RevInst :=
  { opcode := e.opcode, funct3 := e.funct3, funct2or7 := DECODE_FUNCT2 Inst,
    rd := field e.rdClass (DECODE_RD Inst), rs1 := field e.rs1Class (DECODE_RS1 Inst),
    rs2 := field e.rs2Class (DECODE_RS2 Inst), rs3 := field e.rs3Class (DECODE_RS3 Inst),
    instSize := 4 }

/-- `std::bitset`: the number with the bits of `x` at the listed positions. -/
def swizzle (x : ℕ) (bits : List ℕ) : ℕ :=
  (bits.zipIdx.map fun b => ((x >>> b.1) &&& 1) <<< b.2).foldl (· ||| ·) 0

def DecodeCRInst (Inst : ℕ) (e : RevInstEntry ImplFunc) : RevInst :=
  { opcode := e.opcode, funct4 := e.funct4, rd := DECODE_RD Inst,
    rs1 := if e.opcode = 0b10 ∧ e.funct4 = 0b1000 ∧ DECODE_LOWER_CRS2 Inst ≠ 0 then 0
      else DECODE_RD Inst,
    rs2 := DECODE_LOWER_CRS2 Inst, instSize := 2, compressed := true }

def DecodeCIInst (f : RevFeature) (Inst : ℕ) (e : RevInstEntry ImplFunc) : RevInst :=
  { opcode := e.opcode, funct3 := e.funct3, rd := DECODE_RD Inst,
    rs1 := rs1CI e.opcode e.funct3 (DECODE_RD Inst),
    imm := immCI f.toRevFeature e.opcode e.funct3 (DECODE_RD Inst) Inst, instSize := 2,
    compressed := true }

def DecodeCSSInst (f : RevFeature) (Inst : ℕ) (e : RevInstEntry ImplFunc) : RevInst :=
  { opcode := e.opcode, funct3 := e.funct3,
    rs1 := if e.funct3 = 0b101 ∨ e.funct3 = 0b110 ∨ e.funct3 = 0b111 then 2 else 2 ^ 64 - 1,
    rs2 := DECODE_LOWER_CRS2 Inst, imm := immCSS f.toRevFeature e.funct3 Inst, instSize := 2,
    compressed := true }

def DecodeCIWInst (Inst : ℕ) (e : RevInstEntry ImplFunc) : RevInst :=
  { opcode := e.opcode, funct3 := e.funct3, rd := CRegIdx ((Inst &&& 0b11100) >>> 2),
    rs1 := if e.opcode = 0 ∧ e.funct3 = 0 then 2 else 2 ^ 64 - 1,
    imm := swizzle ((Inst &&& 0b1111111100000) >>> 5) [1, 0, 6, 7, 2, 3, 4, 5], instSize := 2,
    compressed := true }

def DecodeCLInst (f : RevFeature) (Inst : ℕ) (e : RevInstEntry ImplFunc) : RevInst :=
  { opcode := e.opcode, funct3 := e.funct3, rd := CRegIdx ((Inst &&& 0b11100) >>> 2),
    rs1 := CRegIdx ((Inst &&& 0b1110000000) >>> 7), imm := immCL f.toRevFeature e.funct3 Inst,
    instSize := 2, compressed := true }

def DecodeCSInst (f : RevFeature) (Inst : ℕ) (e : RevInstEntry ImplFunc) : RevInst :=
  { opcode := e.opcode, funct3 := e.funct3, rs2 := CRegIdx ((Inst &&& 0b011100) >>> 2),
    rs1 := CRegIdx ((Inst &&& 0b01110000000) >>> 7), imm := immCS f.toRevFeature e.funct3 Inst,
    instSize := 2, compressed := true }

def DecodeCAInst (Inst : ℕ) (e : RevInstEntry ImplFunc) : RevInst :=
  { opcode := e.opcode, funct2 := e.funct2, funct6 := e.funct6,
    rs2 := CRegIdx ((Inst &&& 0b11100) >>> 2), rd := CRegIdx ((Inst &&& 0b1110000000) >>> 7),
    rs1 := CRegIdx ((Inst &&& 0b1110000000) >>> 7), instSize := 2, compressed := true }

/-- `DecodeCBInst`. For the branches `rd` keeps the number of the register
    before the compressed offset is added. -/
def DecodeCBInst (Inst : ℕ) (e : RevInstEntry ImplFunc) : RevInst :=
  let r := (Inst &&& 0b1110000000) >>> 7
  let offset := ((Inst &&& 0b1111100) >>> 2) ||| ((Inst &&& 0b1110000000000) >>> 5)
  { opcode := e.opcode, funct3 := e.funct3,
    rd := if e.opcode = 0b01 ∧ e.funct3 = 0b100 then CRegIdx r else r,
    rs1 := CRegIdx r,
    rs2 := if e.opcode = 0b01 ∧ (e.funct3 = 0b110 ∨ e.funct3 = 0b111) then 0 else 2 ^ 64 - 1,
    offset := (if e.opcode = 0b01 ∧ 0b110 ≤ e.funct3 then swizzle offset [1, 2, 5, 6, 0, 3, 4, 7]
      else 0) <<< 1,
    imm := ((Inst &&& 0b01111100) >>> 2) ||| ((Inst &&& 0b01000000000000) >>> 7),
    instSize := 2, compressed := true }

def DecodeCJInst (Inst : ℕ) (e : RevInstEntry ImplFunc) : RevInst :=
  { opcode := e.opcode, funct3 := e.funct3,
    jumpTarget :=
      swizzle ((Inst &&& 0b1111111111100) >>> 2) [1, 2, 3, 9, 0, 5, 4, 7, 8, 6, 10] <<< 1,
    rd := if e.opcode = 0b01 ∧ e.funct3 = 0b001 then 1 else 2 ^ 64 - 1,
    instSize := 2, compressed := true }

/-- The key of a compressed word. -/
def encCompressed (Inst : ℕ) : ℕ :=
  let opc := Inst &&& 0b11
  let l3 := (Inst &&& 0b1110000000000000) >>> 13
  let key (funct2 funct3 funct4 funct6 : ℕ) :=
    opc ||| funct2 <<< 2 ||| funct3 <<< 4 ||| funct4 <<< 8 ||| funct6 <<< 12
  if opc = 0b00 then key 0 l3 0 0
  else if opc = 0b01 then
    if l3 ≤ 0b011 then key 0 l3 0 0
    else if 0b011 < l3 ∧ l3 < 0b101 then
      let opSelect := (Inst &&& 0b110000000000) >>> 10
      if opSelect = 0b11 then
        key ((Inst &&& 0b01100000) >>> 5) 0 0 ((Inst &&& 0b1111110000000000) >>> 10)
      else key opSelect l3 0 0
    else key 0 l3 0 0
  else if opc = 0b10 then
    if l3 = 0b100 then key 0 0 ((Inst &&& 0b1111000000000000) >>> 12) 0 else key 0 l3 0 0
  else key 0 0 0 0

/-- The decoder that `DecodeCompressed` selects by the format of the entry. -/
def decodeCFormat (f : RevFeature) (Inst : ℕ) (e : RevInstEntry ImplFunc) : Option RevInst :=
  match e.format with
  | .RVCTypeCR => some (DecodeCRInst Inst e)
  | .RVCTypeCI => some (DecodeCIInst f Inst e)
  | .RVCTypeCSS => some (DecodeCSSInst f Inst e)
  | .RVCTypeCIW => some (DecodeCIWInst Inst e)
  | .RVCTypeCL => some (DecodeCLInst f Inst e)
  | .RVCTypeCS => some (DecodeCSInst f Inst e)
  | .RVCTypeCA => some (DecodeCAInst Inst e)
  | .RVCTypeCB => some (DecodeCBInst Inst e)
  | .RVCTypeCJ => some (DecodeCJInst Inst e)
  | _ => none

/-- The decoder that `DecodeInst` selects. -/
def decodeFormat (Inst : ℕ) (e : RevInstEntry ImplFunc) : Option RevInst :=
  match e.format with
  | .RVTypeR => some (DecodeRInst Inst e)
  | .RVTypeI => some (DecodeIInst Inst e)
  | .RVTypeS => some (DecodeSInst Inst e)
  | .RVTypeU => some (DecodeUInst Inst e)
  | .RVTypeB => some (DecodeBInst Inst e)
  | .RVTypeJ => some (DecodeJInst Inst e)
  | .RVTypeR4 => some (DecodeR4Inst Inst e)
  | _ => none

/-- `DecodeCompressed`, `none` where it reports a fatal error. `coProc` says of
    a word whether the coprocessor takes it. The word that is decoded in its
    place stays the original one, as in the source. -/
def DecodeCompressed (f : RevFeature) (coProc : ℕ → Bool) (Inst : ℕ) : Option RevInst :=
  let TmpInst := Inst &&& 0b1111111111111111
  if !f.HasCompressed then none
  else
    let found := CEncToEntry f (encCompressed TmpInst)
    let isCoProcInst := found.isNone && coProc Inst
    let it := if isCoProcInst then CEncToEntry f 0b01 else found
    it.bind fun Entry => (InstTable f)[Entry]?.bind fun e =>
      (decodeCFormat f TmpInst e).map fun ret => { ret with entry := Entry, isCoProcInst }

/-- `inst42` and `inst65` of `DecodeInst`. -/
def inst42 (Opcode : ℕ) : ℕ := (Opcode >>> 2) &&& 0b111

def inst65 (Opcode : ℕ) : ℕ := (Opcode >>> 5) &&& 0b11

def Opcode (Inst : ℕ) : ℕ := Inst &&& 0b1111111

/-- Stage 3 of `DecodeInst`. -/
def Funct3 (Inst : ℕ) : ℕ :=
  let op := Opcode Inst
  if inst42 op = 0b011 ∧ inst65 op = 0b11 then 0
  else if inst42 op = 0b101 ∧ inst65 op = 0b00 then 0
  else if inst42 op = 0b101 ∧ inst65 op = 0b01 then 0
  else (Inst &&& 0b111000000000000) >>> 12

/-- Stage 4 of `DecodeInst`. -/
def Funct2or7 (Inst : ℕ) : ℕ :=
  let op := Opcode Inst
  if inst65 op = 0b01 then
    if inst42 op = 0b011 ∨ inst42 op = 0b100 ∨ inst42 op = 0b110 then
      let funct7 := (Inst >>> 25) &&& 0b1111111
      if op = 0b0101111 then (funct7 &&& 0b01111100) >>> 2 else funct7
    else 0
  else if inst65 op = 0b10 ∧ inst42 op < 0b100 then DECODE_FUNCT2 Inst
  else if inst65 op = 0b10 ∧ inst42 op = 0b100 then (Inst >>> 25) &&& 0b1111111
  else if inst65 op = 0b00 ∧ inst42 op = 0b110 ∧ Funct3 Inst ≠ 0 then (Inst >>> 25) &&& 0b1111111
  else if inst65 op = 0b00 ∧ inst42 op = 0b100 ∧ Funct3 Inst = 0b101 then
    (Inst >>> 26) &&& 0b1111111
  else 0

/-- The funct7 values of the conversions. -/
def fcvtFunct7 : List ℕ :=
  [0b1100000, 0b1101000, 0b0100000, 0b0100001, 0b1100001, 0b1101001]

def fcvtOp (Inst : ℕ) : ℕ :=
  if Opcode Inst = 0b1010011 ∧ Funct2or7 Inst ∈ fcvtFunct7 then DECODE_RS2 Inst else 0

/-- Stage 5 of `DecodeInst`. The shift is by 19. -/
def Imm12 (Inst : ℕ) : ℕ :=
  if inst42 (Opcode Inst) = 0b100 ∧ inst65 (Opcode Inst) = 0b11 ∧ Funct3 Inst = 0 then
    (Inst >>> 19) &&& 0b111111111111
  else 0

/-- Stage 6 of `DecodeInst`. -/
def Enc (Inst : ℕ) : ℕ :=
  (Opcode Inst ||| Funct3 Inst <<< 8 ||| Funct2or7 Inst <<< 11 ||| Imm12 Inst <<< 18 |||
    fcvtOp Inst <<< 30) % 2 ^ 32

/-- Stage 7 of `DecodeInst`: the lookup, and the second one without `Funct3`. -/
def findEntry (f : RevFeature) (Inst : ℕ) : Option ℕ :=
  let it := EncToEntry f (Enc Inst)
  if inst65 (Opcode Inst) = 0b10 ∧ Funct3 Inst ≠ 0b101 ∧ Funct3 Inst ≠ 0b110 ∧ it = none then
    EncToEntry f (Enc Inst &&& 0xfffff8ff)
  else it

/-- `DecodeInst`. The maps hold positions of the table only, so that its branch
    for an entry outside of the table is not taken. -/
def DecodeInst (f : RevFeature) (coProc : ℕ → Bool) (Inst : ℕ) : Option RevInst :=
  if Inst &&& 0b11 ≠ 0b11 then DecodeCompressed f coProc Inst
  else
    let found := findEntry f Inst
    let isCoProcInst := found.isNone && coProc Inst
    let it := if isCoProcInst then EncToEntry f 0b0010011 else found
    let Inst := if isCoProcInst then 0 else Inst
    it.bind fun Entry => (InstTable f)[Entry]?.bind fun e =>
      (decodeFormat Inst e).map fun ret => { ret with entry := Entry, isCoProcInst }

end RevCPU.Isa
