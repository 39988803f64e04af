import Mathlib.Tactic.SplitIfs
import RevCPU.Proc.CompressedFields

namespace RevCPU

/-- A field that is selected by a mask and shifted down. -/
theorem field_eq {m j k : ℕ} (hm : m >>> j = 2 ^ k - 1) (x : ℕ) :
    (x &&& m) >>> j = x / 2 ^ j % 2 ^ k := by
  rw [Nat.shiftRight_and_distrib, hm, Nat.and_two_pow_sub_one_eq_mod, Nat.shiftRight_eq_div_pow]

/-- A field that is shifted down and masked. -/
theorem field_eq' {m k : ℕ} (hm : m = 2 ^ k - 1) (x j : ℕ) : (x >>> j) &&& m = x / 2 ^ j % 2 ^ k := by
  rw [hm, Nat.and_two_pow_sub_one_eq_mod, Nat.shiftRight_eq_div_pow]

theorem low_eq {m k : ℕ} (hm : m = 2 ^ k - 1) (x : ℕ) : x &&& m = x % 2 ^ k := by
  rw [hm, Nat.and_two_pow_sub_one_eq_mod]

namespace CForm

/-- What `ofWord` tells of a word and the machine. -/
theorem ofWord_spec {f : RevFeature} {w : ℕ} {form : CForm} (h : ofWord f w = some form) :
    f.RV_I = true ∧ f.RV_C = true ∧ cbits w 1 0 = form.cEntry.opcode ∧
      cbits w 15 13 = form.cEntry.funct3 ∧ form.onXlen f.IsRV64 = true ∧
      (form ∈ [flwsp, fswsp, flw, fsw] → f.RV_F = true) ∧
      (form ∈ [fldsp, fsdsp, fld, fsd] → f.RV_D = true) := by
  unfold ofWord at h
  split at h
  · simp at h
  · rename_i hmodes
    simp only [Bool.not_eq_true', Bool.not_eq_false, Bool.and_eq_true] at hmodes
    refine ⟨hmodes.1, hmodes.2, ?_⟩
    split at h <;> (try split_ifs at h) <;> cases h <;> simp_all [cEntry, onXlen]

/-- A word of a form is built from its two free fields. -/
theorem eq_word {f : RevFeature} {w : ℕ} {form : CForm} (hw : w < 2 ^ 16)
    (h : ofWord f w = some form) : w = form.word (w / 128 % 64) (w / 4 % 32) := by
  obtain ⟨-, -, hop, hf3, -⟩ := ofWord_spec h
  simp only [cbits] at hop hf3
  unfold word
  omega

/-- The immediate of the decoded instruction, on every machine with the XLEN. -/
theorem imm_spec {f : RevFeature} {w : ℕ} {form : CForm} (hw : w < 2 ^ 16)
    (h : ofWord f w = some form) :
    form.imm f.IsRV64 w < 2 ^ 11 ∧
      (form.Kept f.IsRV64 w = true → form.imm f.IsRV64 w = form.offset w) ∧
      (form.Kept f.IsRV64 w = false → form.imm f.IsRV64 w + form.size ≤ form.offset w ∨
        form.offset w + form.size ≤ form.imm f.IsRV64 w) := by
  have hcheck := immCheck_word f.IsRV64 form (ofWord_spec h).2.2.2.2.1 (w / 128 % 64) (by omega)
    (w / 4 % 32) (by omega)
  rw [← eq_word hw h] at hcheck
  simp only [immCheck, Bool.and_eq_true, Nat.blt_eq] at hcheck
  refine ⟨hcheck.1, ?_, ?_⟩
  · intro hkept
    simpa [hkept] using hcheck.2
  · intro hkept
    simpa [hkept] using hcheck.2

/-- The offset of the expansion fits the positive half of a 12-bit immediate. -/
theorem offset_lt (w : ℕ) (form : CForm) : form.offset w < 2 ^ 11 := by
  cases form <;> simp only [offset, cbits] <;> omega

theorem base_lt (w : ℕ) (form : CForm) : form.base w < 32 := by
  cases form <;> simp only [base, cbits] <;> omega

theorem data_lt (w : ℕ) (form : CForm) : form.data w < 32 := by
  cases form <;> simp only [data, cbits] <;> omega

/-- The encoding that is looked up is that of the entry. -/
theorem encCompressed_eq {f : RevFeature} {w : ℕ} {form : CForm} (h : ofWord f w = some form) :
    encCompressed w = CompressCEncoding form.cEntry := by
  obtain ⟨-, -, hop, hf3, -⟩ := ofWord_spec h
  have hopc : w &&& 0b11 = form.cEntry.opcode := by
    have hlow : w &&& 0b11 = w % 2 ^ 2 := low_eq (k := 2) rfl w
    rw [hlow, ← hop]
    simp [cbits]
  have hl3 : (w &&& 0b1110000000000000) >>> 13 = form.cEntry.funct3 := by
    rw [field_eq (k := 3) rfl, ← hf3]
    simp [cbits]
  simp only [encCompressed, hopc, hl3]
  cases form <;> rfl

/-- The registers of the decoded instruction. -/
theorem registers_eq (f : RevFeature) {w : ℕ} (hw : w < 2 ^ 16) (form : CForm) :
    (decodeEntry f w form.cEntry).rs1 = form.base w ∧
      (if form.isLoad then (decodeEntry f w form.cEntry).rd
       else (decodeEntry f w form.cEntry).rs2) = form.data w := by
  have hmod : w % 65536 = w := Nat.mod_eq_of_lt hw
  have hrd : DECODE_RD w = cbits w 11 7 := field_eq' (k := 5) rfl w 7
  have hcrs2 : DECODE_LOWER_CRS2 w = cbits w 6 2 := field_eq' (k := 5) rfl w 2
  have hlow : (w &&& 0b11100) >>> 2 = cbits w 4 2 := field_eq (k := 3) rfl w
  have hhigh : (w &&& 0b1110000000) >>> 7 = cbits w 9 7 := field_eq (k := 3) rfl w
  cases form <;>
    simp [decodeEntry, cEntry, base, data, isLoad, hmod, DecodeCIInst, DecodeCSSInst, DecodeCLInst,
      DecodeCSInst, rs1CI, CRegIdx, hrd, hcrs2, hlow, hhigh]

theorem imm_eq (f : RevFeature) (w : ℕ) (form : CForm) :
    ((decodeEntry f w form.cEntry).imm &&& form.mask) % 2 ^ 12 = form.imm f.IsRV64 w := by
  cases form <;> rfl

/-- The table entry of the expansion. -/
def iEntry : CForm → RevInstEntry
  | lwsp | lw => { opcode := 0b0000011, funct3 := 0b010, rs2Class := .RegUNKNOWN, format := .RVTypeI, func := .lw }
  | ldsp | ld => { opcode := 0b0000011, funct3 := 0b011, rs2Class := .RegUNKNOWN, format := .RVTypeI, func := .ld }
  | flwsp | flw => { opcode := 0b0000111, funct3 := 0b010, rdClass := .RegFLOAT, rs2Class := .RegUNKNOWN,
                     format := .RVTypeI, func := .flw }
  | fldsp | fld => { opcode := 0b0000111, funct3 := 0b011, rdClass := .RegFLOAT, format := .RVTypeI,
                     func := .fld }
  | swsp | sw => { opcode := 0b0100011, funct3 := 0b010, rdClass := .RegIMM, format := .RVTypeS, func := .sw }
  | sdsp | sd => { opcode := 0b0100011, funct3 := 0b011, rdClass := .RegIMM, format := .RVTypeS, func := .sd }
  | fswsp | fsw => { opcode := 0b0100111, funct3 := 0b010, rdClass := .RegIMM, rs2Class := .RegFLOAT,
                     format := .RVTypeS, func := .fsw }
  | fsdsp | fsd => { opcode := 0b0100111, funct3 := 0b011, rdClass := .RegIMM, rs1Class := .RegFLOAT,
                     rs2Class := .RegFLOAT, format := .RVTypeS, func := .fsd }

/-- The fields of a 32-bit word, from the highest one down. -/
theorem word_fields {a c b e d o : ℕ} (hc : c < 32) (hb : b < 32) (he : e < 8) (hd : d < 32)
    (ho : o < 128) {E : ℕ}
    (hE : E = a * 2 ^ 25 + c * 2 ^ 20 + b * 2 ^ 15 + e * 2 ^ 12 + d * 2 ^ 7 + o) :
    E % 128 = o ∧ E / 128 % 32 = d ∧ E / 4096 % 8 = e ∧ E / 32768 % 32 = b ∧
      E / 1048576 % 32 = c ∧ E / 33554432 = a := by
  refine ⟨?_, ?_, ?_, ?_, ?_, ?_⟩ <;> omega

/-- The fields of the expansion. -/
theorem expand_fields (w : ℕ) (form : CForm) :
    form.expand w % 128 = form.opcode ∧ form.expand w / 4096 % 8 = form.funct3 ∧
      form.expand w / 32768 % 32 = form.base w ∧
      (form.isLoad = true → form.expand w / 128 % 32 = form.data w ∧
        form.expand w / 1048576 % 4096 = form.offset w) ∧
      (form.isLoad = false → form.expand w / 1048576 % 32 = form.data w ∧
        form.expand w / 128 % 32 + 32 * (form.expand w / 33554432 % 128) = form.offset w) := by
  have hoffset := offset_lt w form
  have hbase := base_lt w form
  have hdata := data_lt w form
  have hop : form.opcode < 128 := by cases form <;> decide
  have hf3 : form.funct3 < 8 := by cases form <;> decide
  cases hload : form.isLoad with
  | true =>
    have hE : form.expand w = form.offset w / 32 * 2 ^ 25 + form.offset w % 32 * 2 ^ 20 +
        form.base w * 2 ^ 15 + form.funct3 * 2 ^ 12 + form.data w * 2 ^ 7 + form.opcode := by
      simp only [expand, hload, if_true]
      omega
    obtain ⟨h₁, h₂, h₃, h₄, h₅, h₆⟩ := word_fields (by omega) hbase hf3 hdata hop hE
    exact ⟨h₁, h₃, h₄, fun _ => ⟨h₂, by omega⟩, by simp⟩
  | false =>
    have hE : form.expand w = form.offset w / 32 * 2 ^ 25 + form.data w * 2 ^ 20 +
        form.base w * 2 ^ 15 + form.funct3 * 2 ^ 12 + form.offset w % 32 * 2 ^ 7 + form.opcode := by
      simp only [expand, hload, Bool.false_eq_true, if_false]
    obtain ⟨h₁, h₂, h₃, h₄, h₅, h₆⟩ := word_fields hdata hbase hf3 (by omega) hop hE
    exact ⟨h₁, h₃, h₄, by simp, fun _ => ⟨h₅, by omega⟩⟩

theorem encInst_expand (w : ℕ) (form : CForm) :
    encInst (form.expand w) = CompressEncoding form.iEntry := by
  obtain ⟨hop, hf3, -⟩ := expand_fields w form
  have hopcode : form.expand w &&& 0b1111111 = form.opcode := by
    have hlow : form.expand w &&& 0b1111111 = form.expand w % 2 ^ 7 := low_eq (k := 7) rfl _
    rw [hlow]
    exact hop
  have hfunct3 : (form.expand w &&& 0b111000000000000) >>> 12 = form.funct3 := by
    rw [field_eq (k := 3) rfl]
    exact hf3
  simp only [encInst, hopcode, hfunct3]
  cases form <;> simp [opcode, funct3, iEntry, CompressEncoding]

/-- The operands of the expansion after decoding. -/
theorem expand_registers (f : RevFeature) (w : ℕ) (form : CForm) :
    (decodeEntry f (form.expand w) form.iEntry).rs1 = form.base w ∧
      (if form.isLoad then (decodeEntry f (form.expand w) form.iEntry).rd
       else (decodeEntry f (form.expand w) form.iEntry).rs2) = form.data w ∧
      (decodeEntry f (form.expand w) form.iEntry).imm = form.offset w := by
  obtain ⟨-, -, hrs1, hload, hstore⟩ := expand_fields w form
  have hbase : DECODE_RS1 (form.expand w) = form.base w := by
    have hfield : DECODE_RS1 (form.expand w) = form.expand w / 2 ^ 15 % 2 ^ 5 :=
      field_eq' (k := 5) rfl _ 15
    rw [hfield]
    exact hrs1
  have hrd : DECODE_RD (form.expand w) = form.expand w / 128 % 32 := field_eq' (k := 5) rfl _ 7
  have hrs2 : DECODE_RS2 (form.expand w) = form.expand w / 1048576 % 32 := field_eq' (k := 5) rfl _ 20
  have himm : DECODE_IMM12 (form.expand w) = form.expand w / 1048576 % 4096 :=
    field_eq' (k := 12) rfl _ 20
  have hfunct7 : DECODE_FUNCT7 (form.expand w) = form.expand w / 33554432 % 128 :=
    field_eq' (k := 7) rfl _ 25
  have hsplit : DECODE_RD (form.expand w) ||| (DECODE_FUNCT7 (form.expand w) <<< 5) =
      form.expand w / 128 % 32 + 32 * (form.expand w / 33554432 % 128) := by
    rw [hrd, hfunct7, Nat.shiftLeft_eq, Nat.mul_comm, Nat.or_comm, Nat.add_comm]
    exact (Nat.two_pow_add_eq_or_of_lt (i := 5) (Nat.mod_lt _ (by decide)) _).symm
  cases hform : form.isLoad with
  | true =>
    obtain ⟨hdata, hoffset⟩ := hload hform
    have hentry : decodeEntry f (form.expand w) form.iEntry = DecodeIInst (form.expand w) form.iEntry ∧
        form.iEntry.rdClass ≠ .RegUNKNOWN ∧ form.iEntry.rs1Class ≠ .RegUNKNOWN := by
      cases form <;> first | exact ⟨rfl, by decide, by decide⟩ | simp [isLoad] at hform
    obtain ⟨heq, hrdClass, hrs1Class⟩ := hentry
    rw [heq]
    simp only [DecodeIInst, if_pos hrdClass, if_pos hrs1Class, if_true, hbase, hrd, himm, hdata,
      hoffset, and_self]
  | false =>
    obtain ⟨hdata, hoffset⟩ := hstore hform
    have hentry : decodeEntry f (form.expand w) form.iEntry = DecodeSInst (form.expand w) form.iEntry ∧
        form.iEntry.rs2Class ≠ .RegUNKNOWN ∧ form.iEntry.rs1Class ≠ .RegUNKNOWN := by
      cases form <;> first | exact ⟨rfl, by decide, by decide⟩ | simp [isLoad] at hform
    obtain ⟨heq, hrs2Class, hrs1Class⟩ := hentry
    rw [heq]
    simp only [DecodeSInst, if_pos hrs2Class, if_pos hrs1Class, Bool.false_eq_true, if_false, hbase,
      hrs2, hsplit, hdata, hoffset, and_self]

end CForm

end RevCPU
