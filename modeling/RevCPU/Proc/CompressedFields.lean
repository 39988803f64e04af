import RevCPU.Proc.Expand

namespace RevCPU.CForm

/-- The table entry of a compressed load or store. -/
def cEntry : CForm → RevInstEntry
  | lwsp => { opcode := 0b10, funct3 := 0b010, format := .RVCTypeCI, func := .clwsp, compressed := true }
  | ldsp => { opcode := 0b10, funct3 := 0b011, format := .RVCTypeCI, func := .cldsp, compressed := true }
  | flwsp => { opcode := 0b10, funct3 := 0b011, rdClass := .RegFLOAT, format := .RVCTypeCI,
               func := .cflwsp, compressed := true }
  | fldsp => { opcode := 0b10, funct3 := 0b001, rdClass := .RegFLOAT, format := .RVCTypeCI,
               func := .cfldsp, compressed := true }
  | swsp => { opcode := 0b10, funct3 := 0b110, format := .RVCTypeCSS, func := .cswsp, compressed := true }
  | sdsp => { opcode := 0b10, funct3 := 0b111, format := .RVCTypeCSS, func := .csdsp, compressed := true }
  | fswsp => { opcode := 0b10, funct3 := 0b111, rs2Class := .RegFLOAT, format := .RVCTypeCSS,
               func := .cfswsp, compressed := true }
  | fsdsp => { opcode := 0b10, funct3 := 0b101, rs2Class := .RegFLOAT, format := .RVCTypeCSS,
               func := .cfsdsp, compressed := true }
  | lw => { opcode := 0b00, funct3 := 0b010, format := .RVCTypeCL, func := .clw, compressed := true }
  | ld => { opcode := 0b00, funct3 := 0b011, format := .RVCTypeCL, func := .cld, compressed := true }
  | flw => { opcode := 0b00, funct3 := 0b011, rdClass := .RegFLOAT, format := .RVCTypeCL,
             func := .cflw, compressed := true }
  | fld => { opcode := 0b00, funct3 := 0b001, rdClass := .RegFLOAT, format := .RVCTypeCL,
             func := .cfld, compressed := true }
  | sw => { opcode := 0b00, funct3 := 0b110, format := .RVCTypeCS, func := .csw, compressed := true }
  | sd => { opcode := 0b00, funct3 := 0b111, format := .RVCTypeCS, func := .csd, compressed := true }
  | fsw => { opcode := 0b00, funct3 := 0b111, rs2Class := .RegFLOAT, format := .RVCTypeCS,
             func := .cfsw, compressed := true }
  | fsd => { opcode := 0b00, funct3 := 0b101, format := .RVCTypeCS, func := .cfsd, compressed := true }

/-- The mask that the implementation function puts on the immediate. -/
def mask : CForm → ℕ
  | lwsp | swsp | ld | sd => 0b11111111
  | lw | sw => 0b1111111
  | ldsp => 0b111111111
  | sdsp => 0b1111111111
  | _ => 2 ^ 64 - 1

/-- The number of bytes that are loaded or stored. -/
def size : CForm → ℕ
  | lwsp | flwsp | swsp | fswsp | lw | flw | sw | fsw => 4
  | _ => 8

/-- The word with the bits 12 to 7 `a` and the bits 6 to 2 `b`. -/
def word (form : CForm) (a b : ℕ) : ℕ :=
  form.cEntry.opcode + 4 * b + 128 * a + 8192 * form.cEntry.funct3

/-- The words whose offset bits the decoder keeps. -/
def Kept (rv64 : Bool) (w : ℕ) : CForm → Bool
  | sw => cbits w 12 10 == 0
  | fsw => cbits w 6 5 == 0
  | fsd => rv64 || cbits w 6 5 == 0
  | flwsp => cbits w 6 6 == 0
  | _ => true

/-- The forms of the machines with an XLEN. -/
def onXlen (rv64 : Bool) : CForm → Bool
  | ldsp | sdsp | ld | sd => rv64
  | flwsp | fswsp | flw | fsw => !rv64
  | _ => true

/-- The low 12 bits of the immediate that the implementation function uses. -/
def imm (rv64 : Bool) (form : CForm) (w : ℕ) : ℕ :=
  ((decodeEntry { IsRV64 := rv64 } w form.cEntry).imm &&& form.mask) % 2 ^ 12

/-- The immediate is the offset of the expansion, or it is at least the size of
    the access away from it. -/
def immCheck (rv64 : Bool) (form : CForm) (w : ℕ) : Bool :=
  let v := form.imm rv64 w
  Nat.blt v (2 ^ 11) &&
    (bif form.Kept rv64 w then Nat.beq v (form.offset w)
     else Nat.ble (v + form.size) (form.offset w) || Nat.ble (form.offset w + form.size) v)

theorem immCheck_word (rv64 : Bool) (form : CForm) (hx : form.onXlen rv64 = true) :
    ∀ a < 64, ∀ b < 32, form.immCheck rv64 (form.word a b) = true := by
  cases form <;> cases rv64 <;> first | exact absurd hx (by decide) | decide +kernel

end RevCPU.CForm
