import RevCPU.Proc.Decode

namespace RevCPU

/-- The compressed loads and stores of the RISC-V C extension. -/
inductive CForm
  | lwsp | ldsp | flwsp | fldsp
  | swsp | sdsp | fswsp | fsdsp
  | lw | ld | flw | fld
  | sw | sd | fsw | fsd
  deriving DecidableEq, Repr

/-- Bits `hi` down to `lo` of a compressed word. -/
def cbits (w : ℕ) (hi lo : ℕ) : ℕ := w / 2 ^ lo % 2 ^ (hi + 1 - lo)

namespace CForm

/-- The load or store that a word encodes on a machine, by the tables of the C
    extension. -/
def ofWord (f : RevFeature) (w : ℕ) : Option CForm :=
  if !(f.RV_I && f.RV_C) then none
  else
    match cbits w 1 0, cbits w 15 13 with
    | 0b00, 0b001 => if f.RV_D then some fld else none
    | 0b00, 0b010 => some lw
    | 0b00, 0b011 => if f.IsRV64 then some ld else if f.RV_F then some flw else none
    | 0b00, 0b101 => if f.RV_D then some fsd else none
    | 0b00, 0b110 => some sw
    | 0b00, 0b111 => if f.IsRV64 then some sd else if f.RV_F then some fsw else none
    | 0b10, 0b001 => if f.RV_D then some fldsp else none
    | 0b10, 0b010 => if cbits w 11 7 = 0 then none else some lwsp
    | 0b10, 0b011 =>
      if f.IsRV64 then if cbits w 11 7 = 0 then none else some ldsp
      else if f.RV_F then some flwsp else none
    | 0b10, 0b101 => if f.RV_D then some fsdsp else none
    | 0b10, 0b110 => some swsp
    | 0b10, 0b111 => if f.IsRV64 then some sdsp else if f.RV_F then some fswsp else none
    | _, _ => none

/-- The offset that a word encodes. -/
def offset (w : ℕ) : CForm → ℕ
  | lwsp | flwsp => cbits w 12 12 * 32 + cbits w 6 4 * 4 + cbits w 3 2 * 64
  | ldsp | fldsp => cbits w 12 12 * 32 + cbits w 6 5 * 8 + cbits w 4 2 * 64
  | swsp | fswsp => cbits w 12 9 * 4 + cbits w 8 7 * 64
  | sdsp | fsdsp => cbits w 12 10 * 8 + cbits w 9 7 * 64
  | lw | flw | sw | fsw => cbits w 12 10 * 8 + cbits w 6 6 * 4 + cbits w 5 5 * 64
  | ld | fld | sd | fsd => cbits w 12 10 * 8 + cbits w 6 5 * 64

/-- The base register of the expansion. -/
def base (w : ℕ) : CForm → ℕ
  | lwsp | ldsp | flwsp | fldsp | swsp | sdsp | fswsp | fsdsp => 2
  | _ => cbits w 9 7 + 8

/-- The register that the expansion loads or stores. -/
def data (w : ℕ) : CForm → ℕ
  | lwsp | ldsp | flwsp | fldsp => cbits w 11 7
  | swsp | sdsp | fswsp | fsdsp => cbits w 6 2
  | _ => cbits w 4 2 + 8

def isLoad : CForm → Bool
  | lwsp | ldsp | flwsp | fldsp | lw | ld | flw | fld => true
  | _ => false

/-- The opcode and the `funct3` of the expansion. -/
def opcode : CForm → ℕ
  | lwsp | ldsp | lw | ld => 0b0000011
  | flwsp | fldsp | flw | fld => 0b0000111
  | swsp | sdsp | sw | sd => 0b0100011
  | fswsp | fsdsp | fsw | fsd => 0b0100111

def funct3 : CForm → ℕ
  | lwsp | flwsp | lw | flw | swsp | fswsp | sw | fsw => 0b010
  | _ => 0b011

/-- The 32-bit instruction that a compressed load or store expands to by the
    RISC-V C extension. -/
def expand (w : ℕ) (form : CForm) : ℕ :=
  let imm := form.offset w
  let rs1 := form.base w
  let r := form.data w
  if form.isLoad then
    imm * 2 ^ 20 + rs1 * 2 ^ 15 + form.funct3 * 2 ^ 12 + r * 2 ^ 7 + form.opcode
  else
    imm / 32 * 2 ^ 25 + r * 2 ^ 20 + rs1 * 2 ^ 15 + form.funct3 * 2 ^ 12 + imm % 32 * 2 ^ 7 +
      form.opcode

end CForm

end RevCPU
