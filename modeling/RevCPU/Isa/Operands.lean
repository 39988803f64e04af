import RevCPU.Isa.IntegerRefines

namespace RevCPU.Isa

/-- The operands of the instructions in 32 bits: registers, immediates by their
    format, the ordering bits of the atomics and the rounding mode. -/
inductive Operand
  | rd | rs1 | rs2 | rs3 | immI | immS | immB | immU | immJ | funct12 | aq | rl | rm
  deriving DecidableEq, Repr

def immS (w : ℕ) : BitVec 12 := BitVec.ofNat 12 (w / 2 ^ 25 * 2 ^ 5 + w / 2 ^ 7 % 2 ^ 5)

/-- What an implementation function uses is the field of the RISC-V encoding,
    with the sign that the function extends. -/
def Operand.Decoded (w : ℕ) (r : RevInst) : Operand → Prop
  | rd => r.rd = rdField w
  | rs1 => r.rs1 = rs1Field w
  | rs2 => r.rs2 = rs2Field w
  | rs3 => r.rs3 = w / 2 ^ 27 % 2 ^ 5
  | immI => immSignExt r.imm 12 = (Isa.immI w).signExtend 32
  | immS => immSignExt r.imm 12 = (Isa.immS w).signExtend 32
  | immB => immSignExt r.imm 13 = (Isa.immB w).signExtend 32
  | immU => upperImm r = Isa.immU w ++ 0#12
  | immJ => immSignExt r.imm 21 = (Isa.immJ w).signExtend 32
  | funct12 => r.imm = w / 2 ^ 20 % 2 ^ 12
  | aq => r.aq = w / 2 ^ 26 % 2
  | rl => r.rl = w / 2 ^ 25 % 2
  | rm => r.rm = funct3Field w

/-- The operands that an implementation function reads from the instruction. The
    system functions read none. -/
def ImplFunc.operands : ImplFunc → List Operand
  | lui | auipc => [.rd, .immU]
  | jal => [.rd, .immJ]
  | jalr | lb | lh | lw | lbu | lhu | lwu | ld | flw | fld => [.rd, .rs1, .immI]
  | addi | slti | sltiu | xori | ori | andi | slli | srli | srai | addiw | slliw | srliw | sraiw =>
    [.rd, .rs1, .immI]
  | beq | bne | blt | bge | bltu | bgeu => [.rs1, .rs2, .immB]
  | sb | sh | sw | sd | fsw | fsd => [.rs1, .rs2, .immS]
  | add | sub | sll | slt | sltu | f_xor | srl | sra | f_or | f_and | addw | subw | sllw | srlw
  | sraw => [.rd, .rs1, .rs2]
  | mul | mulh | mulhsu | mulhu | div | divu | rem | remu | mulw | divw | divuw | remw | remuw =>
    [.rd, .rs1, .rs2]
  | lrw | lrd => [.rd, .rs1, .aq, .rl]
  | scw | scd => [.rd, .rs1, .rs2, .aq, .rl]
  | amoswapw | amoaddw | amoxorw | amoandw | amoorw | amominw | amomaxw | amominuw | amomaxuw =>
    [.rd, .rs1, .rs2, .aq, .rl]
  | amoswapd | amoaddd | amoxord | amoandd | amoord | amomind | amomaxd | amominud | amomaxud =>
    [.rd, .rs1, .rs2, .aq, .rl]
  | fmadds | fmsubs | fnmsubs | fnmadds | fmaddd | fmsubd | fnmsubd | fnmaddd =>
    [.rd, .rs1, .rs2, .rs3]
  | fadds | fsubs | fmuls | fdivs | fmins | fmaxs | fsgnjs | fsgnjns | fsgnjxs | feqs | flts
  | fles => [.rd, .rs1, .rs2]
  | faddd | fsubd | fmuld | fdivd | fmind | fmaxd | fsgnjd | fsgnjnd | fsgnjxd | feqd | fltd
  | fled => [.rd, .rs1, .rs2]
  | fsqrts | fclasss | fmvxw | fmvwx | fcvtws | fcvtwus | fcvtsw | fcvtswu | fcvtls | fcvtlus
  | fcvtsl | fcvtslu => [.rd, .rs1]
  | fsqrtd | fclassd | fcvtsd | fcvtds | fcvtwd | fcvtwud | fcvtdw | fcvtdwu | fcvtld | fcvtlud
  | fcvtdl | fcvtdlu | fmvxd | fmvdx => [.rd, .rs1]
  | cmo => [.rs1, .funct12]
  | _ => []

/-- The operands of an entry: those of its function, and the rounding mode that
    `Execute` selects. -/
def usedOperands (e : RevInstEntry ImplFunc) : List Operand :=
  e.func.elim [] ImplFunc.operands ++ if roundingMode e then [.rm] else []

/-- The decoder of the format of the entry takes the operand from the word. -/
def takes (e : RevInstEntry ImplFunc) : Operand → Bool
  | .rd => [.RVTypeR, .RVTypeI, .RVTypeU, .RVTypeJ, .RVTypeR4].contains e.format &&
      e.rdClass != .RegUNKNOWN
  | .rs1 => [.RVTypeR, .RVTypeI, .RVTypeS, .RVTypeB, .RVTypeR4].contains e.format &&
      e.rs1Class != .RegUNKNOWN
  | .rs2 => [.RVTypeR, .RVTypeS, .RVTypeB, .RVTypeR4].contains e.format &&
      e.rs2Class != .RegUNKNOWN
  | .rs3 => e.format == .RVTypeR4 && e.rs3Class != .RegUNKNOWN
  | .immI | .funct12 => e.format == .RVTypeI
  | .immS => e.format == .RVTypeS
  | .immB => e.format == .RVTypeB
  | .immU => e.format == .RVTypeU
  | .immJ => e.format == .RVTypeJ
  | .aq | .rl => e.format == .RVTypeR && e.opcode == 0b0101111
  | .rm => [.RVTypeR, .RVTypeI, .RVTypeS].contains e.format && IsFloat e

/-- The entries take all their operands, but for the source register of SC.D and
    the rounding mode of the fused multiply-adds. -/
theorem entries_take : ∀ e ∈ allEntries, e.compressed = false →
    (∀ o ∈ usedOperands e, takes e o = true ∨ o = .rs2 ∧ e.func = some .scd ∨
      o = .rm ∧ e.format = .RVTypeR4) ∧
    (e.func = some .scd → e.format = .RVTypeR ∧ e.rs2Class = .RegUNKNOWN) ∧
    (e.format = .RVTypeR4 → roundingMode e = true) := by
  decide +kernel

section Takes

variable {w : ℕ} {e : RevInstEntry ImplFunc} {r : RevInst}

theorem immSignExt_eq {bits imm : ℕ} {v : BitVec bits} (hpos : 0 < bits) (hle : bits < 64)
    (hv : BitVec.ofNat bits imm = v) : immSignExt imm bits = v.signExtend 32 := by
  rw [← hv]
  exact SignExt_setWidth imm hpos hle (by decide)

theorem immS_eq (w : ℕ) (e : RevInstEntry ImplFunc) :
    BitVec.ofNat 12 (DecodeSInst w e).imm = immS w := by
  have h7 : DECODE_FUNCT7 w = w / 2 ^ 25 % 2 ^ 7 := by
    rw [DECODE_FUNCT7, Nat.shiftRight_eq_div_pow]
    exact Nat.and_two_pow_sub_one_eq_mod _ 7
  have hrd : DECODE_RD w = w / 2 ^ 7 % 2 ^ 5 := rdField_eq w
  have himm : (DecodeSInst w e).imm = w / 2 ^ 25 % 2 ^ 7 * 2 ^ 5 + w / 2 ^ 7 % 2 ^ 5 := by
    simp only [DecodeSInst, h7, hrd]
    rw [Nat.shiftLeft_eq, Nat.or_comm]
    exact or_eq_add 5 (by omega) (by omega)
  apply BitVec.eq_of_toNat_eq
  rw [himm, immS, BitVec.toNat_ofNat, BitVec.toNat_ofNat]
  omega

theorem rs3_eq (w : ℕ) : DECODE_RS3 w = w / 2 ^ 27 % 2 ^ 5 := by
  rw [DECODE_RS3, Nat.shiftRight_eq_div_pow]
  exact Nat.and_two_pow_sub_one_eq_mod _ 5

theorem rm_eq (w : ℕ) : DECODE_RM w = funct3Field w := by
  rw [DECODE_RM, Nat.shiftRight_eq_div_pow]
  exact Nat.and_two_pow_sub_one_eq_mod _ 3

theorem aq_eq (w : ℕ) : DECODE_AQ w = w / 2 ^ 26 % 2 := by
  rw [DECODE_AQ, Nat.shiftRight_eq_div_pow]
  exact Nat.and_two_pow_sub_one_eq_mod _ 1

theorem rl_eq (w : ℕ) : DECODE_RL w = w / 2 ^ 25 % 2 := by
  rw [DECODE_RL, Nat.shiftRight_eq_div_pow]
  exact Nat.and_two_pow_sub_one_eq_mod _ 1

theorem field_known {c : RevRegClass} {x : ℕ} (hc : (c != .RegUNKNOWN) = true) : field c x = x :=
  if_pos (by simpa using hc)

/-- An operand that the decoder takes is the field of the word. -/
theorem decoded_of_takes {o : Operand} (ht : takes e o = true) (hr : decodeFormat w e = some r) :
    o.Decoded w r := by
  unfold decodeFormat at hr
  cases o with
  | rd =>
    simp only [takes, Bool.and_eq_true] at ht
    cases hf : e.format <;> rw [hf] at hr ht <;> first
      | exact absurd ht.1 (by decide)
      | (cases hr; exact (field_known ht.2).trans (rdField_eq w))
  | rs1 =>
    simp only [takes, Bool.and_eq_true] at ht
    cases hf : e.format <;> rw [hf] at hr ht <;> first
      | exact absurd ht.1 (by decide)
      | (cases hr; exact (field_known ht.2).trans (rs1Field_eq w))
  | rs2 =>
    simp only [takes, Bool.and_eq_true] at ht
    cases hf : e.format <;> rw [hf] at hr ht <;> first
      | exact absurd ht.1 (by decide)
      | (cases hr; exact (field_known ht.2).trans (rs2_eq w))
  | rs3 =>
    simp only [takes, Bool.and_eq_true, beq_iff_eq] at ht
    rw [ht.1] at hr
    cases hr
    exact (field_known ht.2).trans (rs3_eq w)
  | immI =>
    simp only [takes, beq_iff_eq] at ht
    rw [ht] at hr
    cases hr
    exact immSignExt_eq (by decide) (by decide) (immI_eq w e)
  | funct12 =>
    simp only [takes, beq_iff_eq] at ht
    rw [ht] at hr
    cases hr
    exact (congrArg (· &&& 0b111111111111) (Nat.shiftRight_eq_div_pow w 20)).trans
      (Nat.and_two_pow_sub_one_eq_mod _ 12)
  | immS =>
    simp only [takes, beq_iff_eq] at ht
    rw [ht] at hr
    cases hr
    exact immSignExt_eq (by decide) (by decide) (immS_eq w e)
  | immB =>
    simp only [takes, beq_iff_eq] at ht
    rw [ht] at hr
    cases hr
    exact immSignExt_eq (by decide) (by decide) (immB_eq w e)
  | immU =>
    simp only [takes, beq_iff_eq] at ht
    rw [ht] at hr
    cases hr
    exact (upperImm_eq _).trans (congrArg (· ++ 0#12) (immU_eq w e))
  | immJ =>
    simp only [takes, beq_iff_eq] at ht
    rw [ht] at hr
    cases hr
    exact immSignExt_eq (by decide) (by decide) (immJ_eq w e)
  | aq =>
    simp only [takes, Bool.and_eq_true, beq_iff_eq] at ht
    rw [ht.1] at hr
    cases hr
    exact (if_pos ht.2).trans (aq_eq w)
  | rl =>
    simp only [takes, Bool.and_eq_true, beq_iff_eq] at ht
    rw [ht.1] at hr
    cases hr
    exact (if_pos ht.2).trans (rl_eq w)
  | rm =>
    simp only [takes, Bool.and_eq_true] at ht
    cases hf : e.format <;> rw [hf] at hr ht <;> first
      | exact absurd ht.1 (by decide)
      | (cases hr; exact (if_pos ht.2).trans (rm_eq w))

end Takes

section Decode

variable {f : RevFeature} {w i : ℕ} {e : RevInstEntry ImplFunc}

theorem findEntry_uncompressed (hfind : findEntry f w = some i) (he : (InstTable f)[i]? = some e) :
    e.compressed = false := by
  obtain ⟨key, hkey⟩ : ∃ key, EncToEntry f key = some i := by
    simp only [findEntry] at hfind
    split at hfind
    · exact ⟨_, hfind⟩
    · exact ⟨_, hfind⟩
  obtain ⟨hlt, hp, -⟩ := List.findIdx?_eq_some_iff_getElem.mp hkey
  rw [List.getElem?_eq_getElem hlt] at he
  cases he
  simp only [Bool.and_eq_true, Bool.not_eq_true'] at hp
  exact hp.1

theorem decodeInst_found (hlow : w % 4 = 3) (hfind : findEntry f w = some i)
    (he : (InstTable f)[i]? = some e) (coProc : ℕ → Bool) : DecodeInst f coProc w =
      (decodeFormat w e).map fun ret => { ret with entry := i, isCoProcInst := false } := by
  have hand : w &&& 0b11 = 0b11 := (Nat.and_two_pow_sub_one_eq_mod w 2).trans hlow
  unfold DecodeInst
  simp [hand, hfind, he]

theorem Operand.decoded_with {r : RevInst} (o : Operand) (n : ℕ) (b : Bool) :
    o.Decoded w { r with entry := n, isCoProcInst := b } ↔ o.Decoded w r := by
  cases o <;> rfl

/-- SC.D and the fused multiply-adds have operands that are not taken: `rs2` is
    0, and there is no rounding mode. -/
theorem not_taken (hc : e.compressed = false) (he : e ∈ allEntries) {r : RevInst}
    (hr : decodeFormat w e = some r) :
    (e.func = some .scd → .rs2 ∈ usedOperands e ∧ (Operand.rs2.Decoded w r ↔ rs2Field w = 0)) ∧
    (e.format = .RVTypeR4 → .rm ∈ usedOperands e ∧ ¬Operand.rm.Decoded w r) := by
  obtain ⟨-, hscd, hr4⟩ := entries_take e he hc
  unfold decodeFormat at hr
  constructor
  · intro hfunc
    obtain ⟨hformat, hclass⟩ := hscd hfunc
    rw [hformat] at hr
    cases hr
    refine ⟨?_, ?_⟩
    · rw [usedOperands, hfunc]
      exact List.mem_append_left _ (by decide)
    · have hzero : (DecodeRInst w e).rs2 = 0 := if_neg (not_not.mpr hclass)
      rw [Operand.Decoded, hzero]
      exact eq_comm
  · intro hformat
    rw [hformat] at hr
    cases hr
    refine ⟨?_, ?_⟩
    · rw [usedOperands, hr4 hformat, if_pos rfl]
      exact List.mem_append_right _ (by decide)
    · have hlt : funct3Field w < 2 ^ 3 := Nat.mod_lt _ (by decide)
      have hnone : (DecodeR4Inst w e).rm = 0xff := rfl
      rw [Operand.Decoded, hnone]
      omega

/-- Operand fields: a word that is decoded with an entry gives all operands that
    the entry uses, exactly if it is not a fused multiply-add, and not an SC.D
    with a source register other than 0. -/
theorem operands_decoded_iff (hlow : w % 4 = 3) (hfind : findEntry f w = some i)
    (he : (InstTable f)[i]? = some e) (coProc : ℕ → Bool) :
    ∃ r, DecodeInst f coProc w = some r ∧ r.entry = i ∧
      ((∀ o ∈ usedOperands e, o.Decoded w r) ↔
        e.format ≠ .RVTypeR4 ∧ (e.func = some .scd → rs2Field w = 0)) := by
  have hc := findEntry_uncompressed hfind he
  have hmem := mem_allEntries he
  obtain ⟨r, hr⟩ := decodeFormat_isSome (entryOk he hc).format w
  refine ⟨{ r with entry := i, isCoProcInst := false }, ?_, rfl, ?_⟩
  · rw [decodeInst_found hlow hfind he coProc, hr, Option.map_some]
  simp only [Operand.decoded_with]
  obtain ⟨hscd, hr4⟩ := not_taken hc hmem hr
  constructor
  · intro hall
    refine ⟨fun hformat => (hr4 hformat).2 (hall _ (hr4 hformat).1), fun hfunc => ?_⟩
    exact (hscd hfunc).2.mp (hall _ (hscd hfunc).1)
  · rintro ⟨hformat, hrs2⟩ o ho
    rcases (entries_take e hmem hc).1 o ho with ht | ⟨rfl, hfunc⟩ | ⟨-, habs⟩
    · exact decoded_of_takes ht hr
    · exact (hscd hfunc).2.mpr (hrs2 hfunc)
    · exact absurd habs hformat

end Decode

/-- `add x1, x2, x3` on a machine RV64I. -/
theorem operands_decoded_add : ∃ r, DecodeInst { IsRV64 := true } (fun _ => false) 0x003100b3 =
      some r ∧ r.entry = 27 ∧
        ∀ o ∈ usedOperands { opcode := 0b0110011, func := some .add }, o.Decoded 0x003100b3 r := by
  have hi : (InstTable { IsRV64 := true })[27]? =
      some { opcode := 0b0110011, func := some .add } := by decide +kernel
  obtain ⟨r, hr, hentry, hiff⟩ := operands_decoded_iff (w := 0x003100b3) (by decide)
    (by decide +kernel : findEntry { IsRV64 := true } 0x003100b3 = some 27) hi fun _ => false
  exact ⟨r, hr, hentry, hiff.mpr ⟨by decide, by decide⟩⟩

/-- The entry of SC.D. -/
def scdEntry : RevInstEntry ImplFunc :=
  { opcode := 0b0101111, funct3 := 0b011, funct2or7 := 0b0000011, rs2Class := .RegUNKNOWN,
    func := some .scd }

/-- `sc.d x1, x3, (x2)` is decoded with x0 as its source register. -/
theorem scd_operand_lost :
    findEntry { IsRV64 := true, RV_A := true } 0x183130af = some 99 ∧
      (InstTable { IsRV64 := true, RV_A := true })[99]? = some scdEntry ∧
      Operand.rs2 ∈ usedOperands scdEntry ∧ rs2Field 0x183130af = 3 ∧
      (DecodeInst { IsRV64 := true, RV_A := true } (fun _ => false) 0x183130af).map RevInst.rs2 =
        some 0 := by
  refine ⟨?_, ?_, ?_, ?_, ?_⟩ <;> decide +kernel

end RevCPU.Isa
