import RevCPU.Isa.Decode

namespace RevCPU.Isa

/-- Where an encoding has its function field. -/
inductive FunctField
  | none | funct7 | funct6 | funct5 | funct2
  deriving DecidableEq, Repr

def FunctField.read : FunctField → ℕ → ℕ
  | none, _ => 0
  | funct7, w => w / 2 ^ 25
  | funct6, w => w / 2 ^ 26
  | funct5, w => w / 2 ^ 27
  | funct2, w => w / 2 ^ 25 % 2 ^ 2

/-- The opcodes of the instructions with four registers. -/
def r4Opcodes : List ℕ := [0b1000011, 0b1000111, 0b1001011, 0b1001111]

/-- The opcodes without a funct3 field: LUI, AUIPC and JAL. -/
def wideOpcodes : List ℕ := [0b0110111, 0b0010111, 0b1101111]

/-- The funct7 values of the additions, subtractions, multiplications, divisions
    and square roots of both precisions. -/
def arithFunct7 : List ℕ :=
  [0b0000000, 0b0000100, 0b0001000, 0b0001100, 0b0101100,
    0b0000001, 0b0000101, 0b0001001, 0b0001101, 0b0101101]

section Encoding

variable (e : RevInstEntry ImplFunc)

/-- A conversion, whose rs2 field selects the instruction. -/
def converts : Bool := e.opcode == 0b1010011 && fcvtFunct7.contains e.funct2or7

/-- The RISC-V encoding has a rounding mode in the place of funct3. -/
def roundingMode : Bool :=
  r4Opcodes.contains e.opcode ||
    (e.opcode == 0b1010011 && arithFunct7.contains e.funct2or7) || converts e

def hasFunct3 : Bool := !wideOpcodes.contains e.opcode && !roundingMode e

def functField : FunctField :=
  if [0b0110011, 0b0111011, 0b1010011].contains e.opcode then .funct7
  else if e.opcode = 0b0011011 ∧ (e.funct3 = 0b001 ∨ e.funct3 = 0b101) then .funct7
  else if e.opcode = 0b0010011 ∧ (e.funct3 = 0b001 ∨ e.funct3 = 0b101) then .funct6
  else if e.opcode = 0b0101111 then .funct5
  else if r4Opcodes.contains e.opcode then .funct2
  else .none

/-- ECALL and EBREAK, which the immediate field tells apart. -/
def systemImm : Bool := e.opcode == 0b1110011 && e.funct3 == 0b000

/-- The cache-block instructions, which it tells apart too. -/
def cacheBlock : Bool := e.opcode == 0b0001111 && e.funct3 == 0b010

/-- The 32-bit word has the fixed fields of the entry, as its RISC-V encoding
    defines them. Where funct3 is a rounding mode it is free. -/
structure Encodes (w : ℕ) : Prop where
  word : w < 2 ^ 32
  opcode : w % 2 ^ 7 = e.opcode
  funct3 : hasFunct3 e = true → w / 2 ^ 12 % 2 ^ 3 = e.funct3
  funct : functField e ≠ .none → (functField e).read w = e.funct2or7
  rs2 : converts e = true → w / 2 ^ 20 % 2 ^ 5 = e.fpcvtOp
  imm12 : systemImm e = true ∨ cacheBlock e = true → w / 2 ^ 20 = e.imm12

end Encoding

/-- The words that `DecodeInst` tells right: not those of EBREAK, CBO.CLEAN and
    CBO.FLUSH, nor those of ECALL with bit 19 set, nor those with one of the two
    reserved values as their rounding mode. -/
structure Selectable (e : RevInstEntry ImplFunc) (w : ℕ) : Prop where
  ebreak : e.func ≠ some .ebreak
  ecall : e.func = some .ecall → w / 2 ^ 19 % 2 = 0
  cmo : e.func = some .cmo → e.imm12 = 0
  rm : roundingMode e = true → w / 2 ^ 12 % 2 ^ 3 ≠ 0b101 ∧ w / 2 ^ 12 % 2 ^ 3 ≠ 0b110

/-- The funct3 that `DecodeInst` takes from the field, by the opcode. -/
def codeFunct3 (op funct3 : ℕ) : ℕ := if wideOpcodes.contains op then 0 else funct3

/-- The function field that `DecodeInst` reads. -/
def codeField (op funct3 : ℕ) : FunctField :=
  if inst65 op = 0b01 then
    if inst42 op = 0b011 ∨ inst42 op = 0b100 ∨ inst42 op = 0b110 then
      if op = 0b0101111 then .funct5 else .funct7
    else .none
  else if inst65 op = 0b10 ∧ inst42 op < 0b100 then .funct2
  else if inst65 op = 0b10 ∧ inst42 op = 0b100 then .funct7
  else if inst65 op = 0b00 ∧ inst42 op = 0b110 ∧ funct3 ≠ 0 then .funct7
  else if inst65 op = 0b00 ∧ inst42 op = 0b100 ∧ funct3 = 0b101 then .funct6
  else .none

theorem Opcode_eq (w : ℕ) : Opcode w = w % 2 ^ 7 := Nat.and_two_pow_sub_one_eq_mod w 7

theorem rs2_eq (w : ℕ) : DECODE_RS2 w = w / 2 ^ 20 % 2 ^ 5 := by
  rw [DECODE_RS2, Nat.shiftRight_eq_div_pow]
  exact Nat.and_two_pow_sub_one_eq_mod _ 5

theorem funct3_field (w : ℕ) : (w &&& 0b111000000000000) >>> 12 = w / 2 ^ 12 % 2 ^ 3 := by
  rw [Nat.shiftRight_and_distrib, Nat.shiftRight_eq_div_pow]
  exact Nat.and_two_pow_sub_one_eq_mod _ 3

theorem funct7_field {w : ℕ} (hw : w < 2 ^ 32) : (w >>> 25) &&& 0b1111111 = w / 2 ^ 25 := by
  rw [Nat.shiftRight_eq_div_pow, Nat.and_two_pow_sub_one_eq_mod _ 7]
  omega

/-- The opcodes of which stage 3 says that they have no funct3. -/
theorem wide_iff (op : ℕ) (hop : op < 2 ^ 7) (hlow : op % 4 = 3) :
    wideOpcodes.contains op = true ↔ (inst42 op = 0b011 ∧ inst65 op = 0b11) ∨
      (inst42 op = 0b101 ∧ inst65 op = 0b00) ∨ (inst42 op = 0b101 ∧ inst65 op = 0b01) := by
  have hall : ∀ op < 2 ^ 7, op % 4 = 3 → (wideOpcodes.contains op = true ↔
      (inst42 op = 0b011 ∧ inst65 op = 0b11) ∨
      (inst42 op = 0b101 ∧ inst65 op = 0b00) ∨ (inst42 op = 0b101 ∧ inst65 op = 0b01)) := by
    decide +kernel
  exact hall op hop hlow

theorem Funct3_eq {w : ℕ} (hlow : w % 4 = 3) :
    Funct3 w = codeFunct3 (w % 2 ^ 7) (w / 2 ^ 12 % 2 ^ 3) := by
  have hwide := wide_iff (w % 2 ^ 7) (Nat.mod_lt _ (by decide)) (by omega)
  simp only [Funct3, codeFunct3, Opcode_eq, funct3_field]
  by_cases h : wideOpcodes.contains (w % 2 ^ 7) = true
  · rw [if_pos h]
    rcases hwide.mp h with h | h | h
    · rw [if_pos h]
    · rw [if_pos h]
      split_ifs <;> rfl
    · rw [if_pos h]
      split_ifs <;> rfl
  · have hnot := fun hcase => h (hwide.mpr hcase)
    rw [if_neg h, if_neg fun hcase => hnot (Or.inl hcase),
      if_neg fun hcase => hnot (Or.inr (Or.inl hcase)),
      if_neg fun hcase => hnot (Or.inr (Or.inr hcase))]

theorem funct5_field {w : ℕ} (hw : w < 2 ^ 32) :
    (w / 2 ^ 25 &&& 0b01111100) >>> 2 = w / 2 ^ 27 := by
  rw [Nat.shiftRight_and_distrib, Nat.shiftRight_eq_div_pow]
  refine (Nat.and_two_pow_sub_one_eq_mod _ 5).trans ?_
  omega

theorem Funct2or7_eq {w : ℕ} (hw : w < 2 ^ 32) :
    Funct2or7 w = (codeField (w % 2 ^ 7) (Funct3 w)).read w := by
  have h6 : (w >>> 26) &&& 0b1111111 = w / 2 ^ 26 := by
    rw [Nat.shiftRight_eq_div_pow, Nat.and_two_pow_sub_one_eq_mod _ 7]
    omega
  have h2 : DECODE_FUNCT2 w = w / 2 ^ 25 % 2 ^ 2 := by
    rw [DECODE_FUNCT2, Nat.shiftRight_eq_div_pow]
    exact Nat.and_two_pow_sub_one_eq_mod _ 2
  simp only [Funct2or7, codeField, Opcode_eq, funct5_field hw, funct7_field hw, h6, h2]
  split_ifs <;> rfl

/-- The formats of `DecodeInst`. -/
def wordFormats : List RevInstF :=
  [.RVTypeR, .RVTypeI, .RVTypeS, .RVTypeU, .RVTypeB, .RVTypeJ, .RVTypeR4]

/-- What the tables have in the fields that the decoder does not read. -/
structure EntryOk (e : RevInstEntry ImplFunc) : Prop where
  opcode : e.opcode % 4 = 3 ∧ e.opcode < 2 ^ 7
  format : e.format ∈ wordFormats
  funct3 : hasFunct3 e = false → e.funct3 = 0
  field : ∀ funct3 < 2 ^ 3, (hasFunct3 e = true → funct3 = e.funct3) →
    functField e ≠ .none ∧ codeField e.opcode (codeFunct3 e.opcode funct3) = functField e ∨
      codeField e.opcode (codeFunct3 e.opcode funct3) = .none ∧ e.funct2or7 = 0
  fpcvtOp : converts e = false → e.fpcvtOp = 0
  imm12 : systemImm e = false → cacheBlock e = false → e.imm12 = 0

theorem allEntries_ok : ∀ e ∈ allEntries, e.compressed = false →
    (e.opcode % 4 = 3 ∧ e.opcode < 2 ^ 7) ∧ e.format ∈ wordFormats ∧
    (hasFunct3 e = false → e.funct3 = 0) ∧
    (∀ funct3 < 2 ^ 3, (hasFunct3 e = true → funct3 = e.funct3) →
      functField e ≠ .none ∧ codeField e.opcode (codeFunct3 e.opcode funct3) = functField e ∨
        codeField e.opcode (codeFunct3 e.opcode funct3) = .none ∧ e.funct2or7 = 0) ∧
    (converts e = false → e.fpcvtOp = 0) ∧
    (systemImm e = false → cacheBlock e = false → e.imm12 = 0) := by
  decide +kernel

section Selection

variable {f : RevFeature} {coProc : ℕ → Bool} {i w : ℕ} {e : RevInstEntry ImplFunc}

theorem mem_allEntries (hi : (InstTable f)[i]? = some e) : e ∈ allEntries :=
  (InstTable_sublist f).subset (List.mem_of_getElem? hi)

theorem entryOk (hi : (InstTable f)[i]? = some e) (hc : e.compressed = false) : EntryOk e := by
  obtain ⟨hop, hformat, hf3, hfield, hfp, himm⟩ := allEntries_ok e (mem_allEntries hi) hc
  exact ⟨hop, hformat, hf3, hfield, hfp, himm⟩

/-- `DecodeInst` succeeds with the entry. -/
def Selects (f : RevFeature) (coProc : ℕ → Bool) (w i : ℕ) : Prop :=
  ∃ r, DecodeInst f coProc w = some r ∧ r.entry = i

theorem decodeFormat_isSome (h : e.format ∈ wordFormats) (w : ℕ) :
    ∃ r, decodeFormat w e = some r := by
  unfold decodeFormat
  simp only [wordFormats, List.mem_cons, List.not_mem_nil, or_false] at h
  rcases h with h | h | h | h | h | h | h <;> rw [h] <;> exact ⟨_, rfl⟩

/-- The last stage keeps the entry that was found. -/
theorem decoded_iff (hi : (InstTable f)[i]? = some e) (hformat : e.format ∈ wordFormats)
    (it : Option ℕ) (x : ℕ) (b : Bool) :
    (∃ r, (it.bind fun Entry => (InstTable f)[Entry]?.bind fun e =>
      (decodeFormat x e).map fun ret => { ret with entry := Entry, isCoProcInst := b }) = some r ∧
        r.entry = i) ↔ it = some i := by
  constructor
  · rintro ⟨r, hr, rfl⟩
    obtain ⟨Entry, rfl, hentry⟩ := Option.bind_eq_some_iff.mp hr
    obtain ⟨e', -, hformat'⟩ := Option.bind_eq_some_iff.mp hentry
    obtain ⟨ret, -, rfl⟩ := Option.map_eq_some_iff.mp hformat'
    rfl
  · rintro rfl
    obtain ⟨ret, hret⟩ := decodeFormat_isSome hformat x
    refine ⟨{ ret with entry := i, isCoProcInst := b }, ?_, rfl⟩
    rw [Option.bind_some, hi, Option.bind_some, hret, Option.map_some]

theorem selects_iff (hi : (InstTable f)[i]? = some e) (hformat : e.format ∈ wordFormats)
    (hlow : w % 4 = 3) :
    Selects f coProc w i ↔ findEntry f w = some i ∨
      findEntry f w = none ∧ coProc w = true ∧ EncToEntry f 0b0010011 = some i := by
  have hand : w &&& 0b11 = 0b11 := (Nat.and_two_pow_sub_one_eq_mod w 2).trans hlow
  unfold Selects DecodeInst
  simp only [hand, ne_eq, not_true_eq_false, if_false]
  rw [decoded_iff hi hformat]
  cases hfind : findEntry f w with
  | some j => simp
  | none => simp

/-- An entry under whose key the word is looked up is selected. -/
theorem selects_of_key (hi : (InstTable f)[i]? = some e) (hc : e.compressed = false)
    (hlow : w % 4 = 3) (hkey : CompressEncoding e = Enc w) : Selects f coProc w i := by
  rw [selects_iff hi (entryOk hi hc).format hlow]
  have hfound : EncToEntry f (Enc w) = some i := (EncToEntry_iff hi hc).mpr hkey
  refine Or.inl ?_
  unfold findEntry
  simp [hfound]

/-- With another key the entry is not selected, unless the second lookup finds
    it. -/
theorem not_selects (hi : (InstTable f)[i]? = some e) (hc : e.compressed = false)
    (hlow : w % 4 = 3) (hkey : CompressEncoding e ≠ Enc w)
    (haddi : CompressEncoding e ≠ 0b0010011)
    (hsecond : inst65 (Opcode w) = 0b10 → Funct3 w = 0b101 ∨ Funct3 w = 0b110) :
    ¬Selects f coProc w i := by
  rw [selects_iff hi (entryOk hi hc).format hlow]
  have hfind : findEntry f w = EncToEntry f (Enc w) := by
    unfold findEntry
    refine if_neg ?_
    rintro ⟨h10, h5, h6, -⟩
    rcases hsecond h10 with h | h
    · exact h5 h
    · exact h6 h
  rw [hfind]
  rintro (h | ⟨-, -, h⟩)
  · exact hkey ((EncToEntry_iff hi hc).mp h)
  · exact haddi ((EncToEntry_iff hi hc).mp h)

/-- The key of a word that encodes the entry: that of the entry, but for the
    funct3 and the immediate that the decoder takes from the word. -/
theorem Encodes.enc (h : Encodes e w) (hok : EntryOk e) :
    Enc w = CompressEncoding { e with funct3 := Funct3 w, imm12 := Imm12 w } := by
  have hlow : w % 4 = 3 := by
    have h1 := h.opcode
    have h2 := hok.opcode.1
    omega
  have hop : Opcode w = e.opcode := (Opcode_eq w).trans h.opcode
  have hf3 : Funct3 w = codeFunct3 e.opcode (w / 2 ^ 12 % 2 ^ 3) := by
    rw [Funct3_eq hlow, h.opcode]
  have hfunct : Funct2or7 w = e.funct2or7 := by
    rw [Funct2or7_eq h.word, h.opcode, hf3]
    rcases hok.field (w / 2 ^ 12 % 2 ^ 3) (Nat.mod_lt _ (by decide)) h.funct3 with
      ⟨hfield, hsame⟩ | ⟨hnone, hzero⟩
    · rw [hsame]
      exact h.funct hfield
    · rw [hnone, hzero]
      rfl
  have hfcvt : fcvtOp w = e.fpcvtOp := by
    unfold fcvtOp
    rw [hop, hfunct, rs2_eq]
    cases hconv : converts e with
    | true =>
      rw [if_pos (by simpa [converts] using hconv)]
      exact h.rs2 hconv
    | false =>
      rw [if_neg (by simpa [converts] using hconv), hok.fpcvtOp hconv]
  unfold Enc CompressEncoding
  rw [hop, hfunct, hfcvt]

theorem Encodes.low (h : Encodes e w) (hok : EntryOk e) : w % 4 = 3 := by
  have h1 := h.opcode
  have h2 := hok.opcode.1
  omega

/-- The funct3 of an entry whose encoding has no rounding mode. -/
theorem Encodes.Funct3_eq (h : Encodes e w) (hok : EntryOk e) (hrm : roundingMode e = false) :
    Funct3 w = e.funct3 := by
  rw [Isa.Funct3_eq (h.low hok), h.opcode, codeFunct3]
  cases hwide : wideOpcodes.contains e.opcode with
  | true =>
    have hnone : hasFunct3 e = false := by
      rw [hasFunct3, hwide]
      rfl
    rw [if_pos rfl, hok.funct3 hnone]
  | false =>
    have hsome : hasFunct3 e = true := by
      rw [hasFunct3, hwide, hrm]
      rfl
    rw [if_neg (by decide)]
    exact h.funct3 hsome

theorem system_opcode (op : ℕ) (hop : op < 2 ^ 7) (hlow : op % 4 = 3) :
    (inst42 op = 0b100 ∧ inst65 op = 0b11) ↔ op = 0b1110011 := by
  have hall : ∀ op < 2 ^ 7, op % 4 = 3 →
      ((inst42 op = 0b100 ∧ inst65 op = 0b11) ↔ op = 0b1110011) := by
    decide +kernel
  exact hall op hop hlow

/-- The immediate that the decoder takes from a SYSTEM word: one bit too low. -/
theorem Encodes.Imm12_system (h : Encodes e w) (hok : EntryOk e) (hrm : roundingMode e = false)
    (hsys : systemImm e = true) : Imm12 w = w / 2 ^ 19 % 2 ^ 12 := by
  simp only [systemImm, Bool.and_eq_true, beq_iff_eq] at hsys
  obtain ⟨h42, h65⟩ := (system_opcode e.opcode hok.opcode.2 hok.opcode.1).mpr hsys.1
  unfold Imm12
  rw [(Opcode_eq w).trans h.opcode, h.Funct3_eq hok hrm, if_pos ⟨h42, h65, hsys.2⟩,
    Nat.shiftRight_eq_div_pow]
  exact Nat.and_two_pow_sub_one_eq_mod _ 12

theorem Encodes.Imm12_other (h : Encodes e w) (hok : EntryOk e) (hsys : systemImm e = false)
    (hop : roundingMode e = true → e.opcode ≠ 0b1110011) : Imm12 w = 0 := by
  unfold Imm12
  refine if_neg ?_
  rw [(Opcode_eq w).trans h.opcode]
  rintro ⟨h42, h65, hf3⟩
  have hopcode := (system_opcode e.opcode hok.opcode.2 hok.opcode.1).mp ⟨h42, h65⟩
  cases hrm : roundingMode e with
  | true => exact hop hrm hopcode
  | false =>
    rw [h.Funct3_eq hok hrm] at hf3
    simp [systemImm, hopcode, hf3] at hsys

/-- Without a rounding mode the key of the word is that of the entry with the
    immediate of the word. -/
theorem Encodes.enc_fixed (h : Encodes e w) (hok : EntryOk e) (hrm : roundingMode e = false) :
    Enc w = CompressEncoding { e with imm12 := Imm12 w } := by
  rw [h.enc hok, h.Funct3_eq hok hrm]

/-- The entries with a rounding mode. The bits of funct3 stand alone in the
    key. -/
theorem rounding_entries : ∀ e ∈ allEntries, e.compressed = false → roundingMode e = true →
    (systemImm e = false ∧ cacheBlock e = false ∧ wideOpcodes.contains e.opcode = false ∧
      inst65 e.opcode = 0b10) ∧
    (e.func ≠ some .ebreak ∧ e.func ≠ some .ecall ∧ e.func ≠ some .cmo) ∧
    CompressEncoding e ≠ 0b0010011 ∧
    ∀ rm < 2 ^ 3, CompressEncoding { e with funct3 := rm } &&& 0xfffff8ff = CompressEncoding e ∧
      CompressEncoding { e with funct3 := rm } &&& 0x700 = rm <<< 8 := by
  decide +kernel

/-- No entry with a funct3 has the key of one with a rounding mode beside it. -/
theorem rounding_alone : ∀ e ∈ allEntries, roundingMode e = true → ∀ e' ∈ allEntries,
    e'.compressed = false → CompressEncoding e' &&& 0xfffff8ff = CompressEncoding e →
    CompressEncoding e' &&& 0x700 = 0 := by
  decide +kernel

/-- With another funct3 the key of such an entry is the key of none. -/
theorem rounding_key (he : e ∈ allEntries) (hc : e.compressed = false)
    (hrm : roundingMode e = true) {rm : ℕ} (hlt : rm < 2 ^ 3) (hne : rm ≠ 0) :
    EncToEntry f (CompressEncoding { e with funct3 := rm }) = none := by
  obtain ⟨-, -, -, hkeys⟩ := rounding_entries e he hc hrm
  obtain ⟨hmask, hbits⟩ := hkeys rm hlt
  rw [EncToEntry, List.findIdx?_eq_none_iff]
  intro e' he'
  have hmem : e' ∈ allEntries := (InstTable_sublist f).subset he'
  cases hc' : e'.compressed with
  | true => rfl
  | false =>
    simp only [Bool.not_false, Bool.true_and, beq_eq_false_iff_ne]
    intro heq
    have hzero := rounding_alone e he hrm e' hmem hc' (by rw [heq, hmask])
    rw [heq, hbits, Nat.shiftLeft_eq] at hzero
    omega

/-- ECALL and EBREAK. -/
theorem system_entries : ∀ e ∈ allEntries, e.compressed = false → systemImm e = true →
    roundingMode e = false ∧ inst65 e.opcode = 0b11 ∧ CompressEncoding e ≠ 0b0010011 ∧
    (e.func = some .ecall ∧ e.imm12 = 0 ∧
        CompressEncoding { e with imm12 := 1 } ≠ CompressEncoding e ∨
      e.func = some .ebreak ∧ e.imm12 = 1 ∧
        CompressEncoding { e with imm12 := 2 } ≠ CompressEncoding e ∧
        CompressEncoding { e with imm12 := 3 } ≠ CompressEncoding e) := by
  decide +kernel

/-- The cache-block entries. -/
theorem cacheBlock_entries : ∀ e ∈ allEntries, e.compressed = false → cacheBlock e = true →
    (roundingMode e = false ∧ systemImm e = false ∧ inst65 e.opcode = 0b00) ∧
    CompressEncoding e ≠ 0b0010011 ∧ e.func = some .cmo ∧
    (e.imm12 ≠ 0 → CompressEncoding { e with imm12 := 0 } ≠ CompressEncoding e) := by
  decide +kernel

theorem other_entries : ∀ e ∈ allEntries, e.compressed = false → systemImm e = false →
    cacheBlock e = false → e.func ≠ some .ebreak ∧ e.func ≠ some .ecall ∧ e.func ≠ some .cmo := by
  decide +kernel

theorem selectable_other
    (hfunc : e.func ≠ some .ebreak ∧ e.func ≠ some .ecall ∧ e.func ≠ some .cmo)
    (hrm : roundingMode e = true → w / 2 ^ 12 % 2 ^ 3 ≠ 0b101 ∧ w / 2 ^ 12 % 2 ^ 3 ≠ 0b110) :
    Selectable e w :=
  ⟨hfunc.1, fun h => absurd h hfunc.2.1, fun h => absurd h hfunc.2.2, hrm⟩

/-- A word of an entry with a rounding mode: the first lookup finds it with
    funct3 zero, the second with the other modes. -/
theorem selects_rounding (hi : (InstTable f)[i]? = some e) (hc : e.compressed = false)
    (h : Encodes e w) (hrm : roundingMode e = true) :
    Selects f coProc w i ↔ Selectable e w := by
  have he := mem_allEntries hi
  have hok := entryOk hi hc
  have hlow := h.low hok
  obtain ⟨⟨hsys, hcbo, hwide, h65⟩, hfunc, haddi, hkeys⟩ := rounding_entries e he hc hrm
  have hop : Opcode w = e.opcode := (Opcode_eq w).trans h.opcode
  have hf3 : Funct3 w = w / 2 ^ 12 % 2 ^ 3 := by
    rw [Isa.Funct3_eq hlow, h.opcode, codeFunct3, hwide, if_neg (by decide)]
  have hlt : Funct3 w < 2 ^ 3 := by
    rw [hf3]
    exact Nat.mod_lt _ (by decide)
  have hopcode : e.opcode ≠ 0b1110011 := by
    intro heq
    rw [heq] at h65
    exact absurd h65 (by decide)
  have henc : Enc w = CompressEncoding { e with funct3 := Funct3 w } := by
    rw [h.enc hok, h.Imm12_other hok hsys fun _ => hopcode, ← hok.imm12 hsys hcbo]
  have hzero : e.funct3 = 0 := hok.funct3 (by simp [hasFunct3, hrm])
  obtain ⟨hmask, hbits⟩ := hkeys (Funct3 w) hlt
  by_cases h0 : Funct3 w = 0
  · refine ⟨fun _ => selectable_other hfunc fun _ => ?_, fun _ => ?_⟩
    · rw [← hf3, h0]
      decide
    · refine selects_of_key hi hc hlow ?_
      rw [henc, h0, ← hzero]
  by_cases hbad : Funct3 w = 0b101 ∨ Funct3 w = 0b110
  · have hnot : ¬Selectable e w := by
      intro hsel
      obtain ⟨h5, h6⟩ := hsel.rm hrm
      rw [← hf3] at h5 h6
      rcases hbad with hbad | hbad
      · exact h5 hbad
      · exact h6 hbad
    refine ⟨fun hsel => absurd hsel (not_selects hi hc hlow ?_ haddi fun _ => hbad),
      fun hsel => absurd hsel hnot⟩
    intro heq
    rw [henc] at heq
    have hnone : EncToEntry f (CompressEncoding { e with funct3 := Funct3 w }) = none :=
      rounding_key he hc hrm hlt h0
    rw [(EncToEntry_iff hi hc).mpr heq] at hnone
    cases hnone
  · rw [not_or] at hbad
    refine ⟨fun _ => selectable_other hfunc fun _ => hf3 ▸ hbad, fun _ => ?_⟩
    have hfirst : EncToEntry f (Enc w) = none := by
      rw [henc]
      exact rounding_key he hc hrm hlt h0
    have hsecond : EncToEntry f (Enc w &&& 0xfffff8ff) = some i := by
      rw [EncToEntry_iff hi hc, henc, hmask]
    rw [selects_iff hi hok.format hlow]
    refine Or.inl ?_
    simp only [findEntry, hop, h65, hfirst, hsecond, hbad.1, hbad.2, not_false_eq_true, ne_eq,
      true_and, if_true]

/-- A word of ECALL or EBREAK. -/
theorem selects_system (hi : (InstTable f)[i]? = some e) (hc : e.compressed = false)
    (h : Encodes e w) (hsys : systemImm e = true) :
    Selects f coProc w i ↔ Selectable e w := by
  have hok := entryOk hi hc
  have hlow := h.low hok
  obtain ⟨hrm, h65, haddi, hwhich⟩ := system_entries e (mem_allEntries hi) hc hsys
  have henc := h.enc_fixed hok hrm
  have himm := h.imm12 (Or.inl hsys)
  rw [h.Imm12_system hok hrm hsys] at henc
  have hsecond : inst65 (Opcode w) = 0b10 → Funct3 w = 0b101 ∨ Funct3 w = 0b110 := by
    rw [(Opcode_eq w).trans h.opcode, h65]
    exact fun habs => absurd habs (by decide)
  have hbit : w / 2 ^ 19 % 2 ^ 12 = 2 * e.imm12 + w / 2 ^ 19 % 2 := by
    have hword := h.word
    omega
  rw [hbit] at henc
  rcases hwhich with ⟨hecall, hzero, hone⟩ | ⟨hebreak, himm1, htwo, hthree⟩
  · rcases Nat.mod_two_eq_zero_or_one (w / 2 ^ 19) with hb | hb
    · refine ⟨fun _ => ⟨?_, fun _ => hb, ?_, ?_⟩, fun _ => ?_⟩
      · simp [hecall]
      · simp [hecall]
      · simp [hrm]
      · refine selects_of_key hi hc hlow ?_
        have hsame : 2 * e.imm12 + w / 2 ^ 19 % 2 = e.imm12 := by omega
        rw [henc, hsame]
    · refine ⟨fun hsel => absurd hsel (not_selects hi hc hlow ?_ haddi hsecond), fun hsel => ?_⟩
      · rw [henc, hzero, hb]
        exact hone.symm
      · have hbad := hsel.ecall hecall
        omega
  · refine ⟨fun hsel => absurd hsel (not_selects hi hc hlow ?_ haddi hsecond),
      fun hsel => absurd hebreak hsel.ebreak⟩
    rw [henc, himm1]
    rcases Nat.mod_two_eq_zero_or_one (w / 2 ^ 19) with hb | hb
    · rw [hb]
      exact htwo.symm
    · rw [hb]
      exact hthree.symm

/-- A word of a cache-block instruction: all are looked up as CBO.INVAL. -/
theorem selects_cacheBlock (hi : (InstTable f)[i]? = some e) (hc : e.compressed = false)
    (h : Encodes e w) (hcbo : cacheBlock e = true) :
    Selects f coProc w i ↔ Selectable e w := by
  have hok := entryOk hi hc
  have hlow := h.low hok
  obtain ⟨⟨hrm, hsys, h65⟩, haddi, hfunc, hkey⟩ := cacheBlock_entries e (mem_allEntries hi) hc hcbo
  have henc := h.enc_fixed hok hrm
  rw [h.Imm12_other hok hsys (by simp [hrm])] at henc
  have hsecond : inst65 (Opcode w) = 0b10 → Funct3 w = 0b101 ∨ Funct3 w = 0b110 := by
    rw [(Opcode_eq w).trans h.opcode, h65]
    exact fun habs => absurd habs (by decide)
  by_cases hzero : e.imm12 = 0
  · refine ⟨fun _ => ⟨?_, ?_, fun _ => hzero, ?_⟩, fun _ => ?_⟩
    · simp [hfunc]
    · simp [hfunc]
    · simp [hrm]
    · refine selects_of_key hi hc hlow ?_
      rw [henc, ← hzero]
  · refine ⟨fun hsel => absurd hsel (not_selects hi hc hlow ?_ haddi hsecond),
      fun hsel => absurd (hsel.cmo hfunc) hzero⟩
    rw [henc]
    exact (hkey hzero).symm

/-- 32-bit decode: of the words with the fixed fields of an uncompressed entry,
    `DecodeInst` selects that entry for exactly the selectable ones, on every
    machine model and with any coprocessor. -/
theorem decodeInst_selects (hi : (InstTable f)[i]? = some e) (hc : e.compressed = false)
    (h : Encodes e w) : Selects f coProc w i ↔ Selectable e w := by
  cases hrm : roundingMode e with
  | true => exact selects_rounding hi hc h hrm
  | false =>
    cases hsys : systemImm e with
    | true => exact selects_system hi hc h hsys
    | false =>
      cases hcbo : cacheBlock e with
      | true => exact selects_cacheBlock hi hc h hcbo
      | false =>
        have hok := entryOk hi hc
        have hfunc := other_entries e (mem_allEntries hi) hc hsys hcbo
        refine ⟨fun _ => selectable_other hfunc (by simp [hrm]), fun _ => ?_⟩
        refine selects_of_key hi hc (h.low hok) ?_
        rw [h.enc_fixed hok hrm, h.Imm12_other hok hsys (by simp [hrm]), ← hok.imm12 hsys hcbo]

end Selection

/-- `add x1, x2, x3` on a machine RV64I. -/
theorem decodeInst_selects_add :
    Selects { IsRV64 := true } (fun _ => false) 0x003100b3 27 := by
  have hi : (InstTable { IsRV64 := true })[27]? =
      some { opcode := 0b0110011, func := some .add } := by decide +kernel
  refine (decodeInst_selects hi rfl ?_).mpr ?_
  · exact ⟨by decide, by decide, by decide, by decide, by decide, by decide⟩
  · exact ⟨by decide, by decide, by decide, by decide⟩

/-- The entry of EBREAK. -/
def ebreakEntry : RevInstEntry ImplFunc :=
  { opcode := 0b1110011, rdClass := .RegUNKNOWN, rs1Class := .RegUNKNOWN, rs2Class := .RegUNKNOWN,
    imm12 := 1, imm := .FEnc, format := .RVTypeI, func := some .ebreak }

/-- EBREAK, `0x00100073`: the immediate is read one bit too low, as 2, and the
    word is not decoded. -/
theorem ebreak_not_decoded :
    (InstTable { IsRV64 := true })[40]? = some ebreakEntry ∧ ebreakEntry.compressed = false ∧
      Encodes ebreakEntry 0x00100073 ∧
      DecodeInst { IsRV64 := true } (fun _ => false) 0x00100073 = none := by
  refine ⟨by decide +kernel, rfl, ?_, by decide +kernel⟩
  exact ⟨by decide, by decide, by decide, by decide, by decide, by decide⟩

end RevCPU.Isa
