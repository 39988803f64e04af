import RevCPU.Isa.DecodeSelects
import RevCPU.Isa.Integer

namespace RevCPU.Isa

/-- The functions of the operations on two registers. -/
def AluOp.regFunc (W : Bool) : AluOp → ImplFunc
  | add => if W then .addw else .add
  | sub => if W then .subw else .sub
  | sll => if W then .sllw else .sll
  | slt => .slt
  | sltu => .sltu
  | xor => .f_xor
  | srl => if W then .srlw else .srl
  | sra => if W then .sraw else .sra
  | or => .f_or
  | and => .f_and

/-- The functions of the operations on a register and an immediate. -/
def AluOp.immFunc (W : Bool) : AluOp → ImplFunc
  | add => if W then .addiw else .addi
  | sll => if W then .slliw else .slli
  | slt => .slti
  | sltu => .sltiu
  | xor => .xori
  | srl => if W then .srliw else .srli
  | sra => if W then .sraiw else .srai
  | or => .ori
  | and => .andi
  | sub => .sub

def BranchOp.func : BranchOp → ImplFunc
  | eq => .beq
  | ne => .bne
  | lt => .blt
  | ge => .bge
  | ltu => .bltu
  | geu => .bgeu

/-- The table entry of an instruction. -/
def IntInst.entry : IntInst → RevInstEntry ImplFunc
  | lui .. => { opcode := 0b0110111, rs1Class := .RegUNKNOWN, rs2Class := .RegUNKNOWN,
                format := .RVTypeU, func := some .lui }
  | auipc .. => { opcode := 0b0010111, rs1Class := .RegUNKNOWN, rs2Class := .RegUNKNOWN,
                  format := .RVTypeU, func := some .auipc }
  | jal .. => { opcode := 0b1101111, rs1Class := .RegUNKNOWN, rs2Class := .RegUNKNOWN,
                format := .RVTypeJ, func := some .jal }
  | jalr .. => { opcode := 0b1100111, rs2Class := .RegUNKNOWN, imm := .FImm, format := .RVTypeI,
                 func := some .jalr }
  | branch op .. => { opcode := 0b1100011, funct3 := op.funct3, rdClass := .RegIMM,
                      format := .RVTypeB, func := some op.func }
  | opImm op W .. =>
    { opcode := if W then 0b0011011 else 0b0010011, funct3 := op.funct3,
      funct2or7 := if W then op.funct7 else op.funct7 / 2, rs2Class := .RegUNKNOWN, imm := .FImm,
      format := .RVTypeI, func := some (op.immFunc W) }
  | opReg op W .. =>
    { opcode := if W then 0b0111011 else 0b0110011, funct3 := op.funct3, funct2or7 := op.funct7,
      func := some (op.regFunc W) }

section Decoding

variable {f : RevFeature} {w : ℕ} {e : RevInstEntry ImplFunc} (coProc : ℕ → Bool)

/-- A word with the fixed fields of an entry is decoded with that entry. -/
theorem decodeInst_eq {n : ℕ} (hn : (InstTable f)[n]? = some e) (hc : e.compressed = false)
    (h : Encodes e w) (hrm : roundingMode e = false) (hsys : systemImm e = false)
    (hcbo : cacheBlock e = false) :
    DecodeInst f coProc w =
      (decodeFormat w e).map fun i => { i with entry := n, isCoProcInst := false } := by
  have hok := entryOk hn hc
  have hkey : CompressEncoding e = Enc w := by
    rw [h.enc_fixed hok hrm, h.Imm12_other hok hsys (by simp [hrm]), ← hok.imm12 hsys hcbo]
  have hfind : findEntry f w = some n := by
    unfold findEntry
    simp [(EncToEntry_iff hn hc).mpr hkey]
  have hlow : w &&& 0b11 = 0b11 := (Nat.and_two_pow_sub_one_eq_mod w 2).trans (h.low hok)
  unfold DecodeInst
  simp [hlow, hfind, hn]

theorem mem_RV32I (hI : f.RV_I = true) (he : e ∈ RV32ITable) : e ∈ InstTable f := by
  rw [InstTable_eq, List.mem_flatMap]
  refine ⟨(RV32I, !f.IsRV64), ?_, List.mem_append_left _ he⟩
  simp only [SeedInstTable, hI, if_true, List.mem_append]
  cases f.IsRV64 <;> simp

theorem mem_RV64I (hI : f.RV_I = true) (hrv : f.IsRV64 = true) (he : e ∈ RV64ITable) :
    e ∈ InstTable f := by
  rw [InstTable_eq, List.mem_flatMap]
  refine ⟨(RV64I, false), ?_, List.mem_append_left _ he⟩
  simp [SeedInstTable, hI, hrv]

end Decoding

/-- Decoding the word and running the function of its entry executes the
    instruction. -/
def RunsWord (f : RevFeature) (coProc : ℕ → Bool) (w : ℕ) (R : RevRegFile) (t : IntInst) : Prop :=
  ∃ i e g, DecodeInst f coProc w = some i ∧ (InstTable f)[i.entry]? = some e ∧
    e.func.bind integer = some g ∧ Executed t 4 R (g R i)

section Fields

variable (w : ℕ)

theorem rdField_eq : DECODE_RD w = rdField w := by
  rw [DECODE_RD, Nat.shiftRight_eq_div_pow]
  exact Nat.and_two_pow_sub_one_eq_mod _ 5

theorem rs1Field_eq : DECODE_RS1 w = rs1Field w := by
  rw [DECODE_RS1, Nat.shiftRight_eq_div_pow]
  exact Nat.and_two_pow_sub_one_eq_mod _ 5

theorem immI_eq (e : RevInstEntry ImplFunc) :
    BitVec.ofNat 12 (DecodeIInst w e).imm = immI w := by
  have hand : (DecodeIInst w e).imm = w / 2 ^ 20 % 2 ^ 12 := by
    rw [DecodeIInst, DECODE_IMM12, Nat.shiftRight_eq_div_pow]
    exact Nat.and_two_pow_sub_one_eq_mod _ 12
  apply BitVec.eq_of_toNat_eq
  rw [hand, immI, BitVec.toNat_ofNat, BitVec.toNat_ofNat, Nat.mod_mod]

theorem immU_eq (e : RevInstEntry ImplFunc) :
    BitVec.ofNat 20 (DecodeUInst w e).imm = immU w := by
  have hand : (DecodeUInst w e).imm = w / 2 ^ 12 % 2 ^ 20 := by
    rw [DecodeUInst, DECODE_IMM20, Nat.shiftRight_eq_div_pow]
    exact Nat.and_two_pow_sub_one_eq_mod _ 20
  apply BitVec.eq_of_toNat_eq
  rw [hand, immU, BitVec.toNat_ofNat, BitVec.toNat_ofNat, Nat.mod_mod]

end Fields

/-- A field of `n` bits that is moved to position `k`. -/
theorem shifted_field (w s n k : ℕ) :
    (w >>> s) &&& ((2 ^ n - 1) <<< k) = w / 2 ^ (s + k) % 2 ^ n * 2 ^ k := by
  rw [and_shiftLeft, Nat.and_two_pow_sub_one_eq_mod, ← Nat.shiftRight_add,
    Nat.shiftRight_eq_div_pow, Nat.shiftLeft_eq]

/-- Fields in different places are put together by addition. -/
theorem or_eq_add {a b : ℕ} (k : ℕ) (ha : a % 2 ^ k = 0) (hb : b < 2 ^ k) : a ||| b = a + b := by
  have hshift : a = (a / 2 ^ k) <<< k := by
    rw [Nat.shiftLeft_eq, Nat.div_mul_cancel (Nat.dvd_of_mod_eq_zero ha)]
  rw [hshift, ← Nat.shiftLeft_add_eq_or_of_lt hb]

theorem immB_eq (w : ℕ) (e : RevInstEntry ImplFunc) :
    BitVec.ofNat 13 (DecodeBInst w e).imm = immB w := by
  have h12 : (w >>> 19) &&& 0b1000000000000 = w / 2 ^ 31 % 2 * 2 ^ 12 := shifted_field w 19 1 12
  have h11 : (w <<< 4) &&& 0b100000000000 = w / 2 ^ 7 % 2 * 2 ^ 11 := by
    refine (shifted_field (w <<< 4) 0 1 11).trans ?_
    rw [Nat.shiftLeft_eq]
    omega
  have h5 : (w >>> 20) &&& 0b11111100000 = w / 2 ^ 25 % 2 ^ 6 * 2 ^ 5 := shifted_field w 20 6 5
  have h1 : (w >>> 7) &&& 0b11110 = w / 2 ^ 8 % 2 ^ 4 * 2 := shifted_field w 7 4 1
  have himm : (DecodeBInst w e).imm = w / 2 ^ 31 % 2 * 2 ^ 12 + w / 2 ^ 7 % 2 * 2 ^ 11 +
      w / 2 ^ 25 % 2 ^ 6 * 2 ^ 5 + w / 2 ^ 8 % 2 ^ 4 * 2 := by
    have hb : w / 2 ^ 31 % 2 * 2 ^ 12 ||| w / 2 ^ 7 % 2 * 2 ^ 11 = _ :=
      or_eq_add 12 (by omega) (by omega)
    have hc : w / 2 ^ 31 % 2 * 2 ^ 12 + w / 2 ^ 7 % 2 * 2 ^ 11 ||| w / 2 ^ 25 % 2 ^ 6 * 2 ^ 5 = _ :=
      or_eq_add 11 (by omega) (by omega)
    simp only [DecodeBInst, h12, h11, h5, h1]
    rw [hb, hc, or_eq_add 5 (by omega) (by omega)]
  rw [himm, immB]

theorem immJ_eq (w : ℕ) (e : RevInstEntry ImplFunc) :
    BitVec.ofNat 21 (DecodeJInst w e).imm = immJ w := by
  have h20 : (w >>> 11) &&& 0b100000000000000000000 = w / 2 ^ 31 % 2 * 2 ^ 20 :=
    shifted_field w 11 1 20
  have h12 : w &&& 0b11111111000000000000 = w / 2 ^ 12 % 2 ^ 8 * 2 ^ 12 := shifted_field w 0 8 12
  have h11 : (w >>> 9) &&& 0b100000000000 = w / 2 ^ 20 % 2 * 2 ^ 11 := shifted_field w 9 1 11
  have h1 : (w >>> 20) &&& 0b11111111110 = w / 2 ^ 21 % 2 ^ 10 * 2 := shifted_field w 20 10 1
  have himm : (DecodeJInst w e).imm = w / 2 ^ 31 % 2 * 2 ^ 20 + w / 2 ^ 12 % 2 ^ 8 * 2 ^ 12 +
      w / 2 ^ 20 % 2 * 2 ^ 11 + w / 2 ^ 21 % 2 ^ 10 * 2 := by
    have hb : w / 2 ^ 31 % 2 * 2 ^ 20 ||| w / 2 ^ 12 % 2 ^ 8 * 2 ^ 12 = _ :=
      or_eq_add 20 (by omega) (by omega)
    have hc : w / 2 ^ 31 % 2 * 2 ^ 20 + w / 2 ^ 12 % 2 ^ 8 * 2 ^ 12 ||| w / 2 ^ 20 % 2 * 2 ^ 11 =
        _ := or_eq_add 12 (by omega) (by omega)
    simp only [DecodeJInst, h20, h12, h11, h1]
    rw [hb, hc, or_eq_add 11 (by omega) (by omega)]
  rw [himm, immJ]

section Runs

variable {f : RevFeature} {w : ℕ} {R : RevRegFile} (coProc : ℕ → Bool)

/-- A word of an instruction runs with the function of its entry. -/
theorem runsWord {t : IntInst} {i : RevInst} {g : RevRegFile → RevInst → RevRegFile}
    (ht : t.entry ∈ InstTable f) (h : Encodes t.entry w) (hi : decodeFormat w t.entry = some i)
    (hg : t.entry.func.bind integer = some g)
    (hplain : roundingMode t.entry = false ∧ systemImm t.entry = false ∧
      cacheBlock t.entry = false)
    (hrun : ∀ i' : RevInst, i'.rd = i.rd → i'.rs1 = i.rs1 → i'.rs2 = i.rs2 → i'.imm = i.imm →
      i'.instSize = i.instSize → Executed t 4 R (g R i')) :
    RunsWord f coProc w R t := by
  obtain ⟨n, hlt, hn⟩ := List.getElem_of_mem ht
  have hentry : (InstTable f)[n]? = some t.entry := by
    rw [List.getElem?_eq_getElem hlt, hn]
  have hc : t.entry.compressed = false := by cases t <;> rfl
  have hdecode := decodeInst_eq coProc hentry hc h hplain.1 hplain.2.1 hplain.2.2
  rw [hi, Option.map_some] at hdecode
  exact ⟨_, t.entry, g, hdecode, hentry, hg, hrun _ rfl rfl rfl rfl rfl⟩

theorem regEntry_field (op : AluOp) (W : Bool) (rd rs1 rs2 : ℕ) :
    functField (IntInst.opReg op W rd rs1 rs2).entry = .funct7 := by
  cases W <;> rfl

theorem immEntry_field (op : AluOp) (W : Bool) (rd rs1 : ℕ) (imm : BitVec 12) :
    functField (IntInst.opImm op W rd rs1 imm).entry =
      if op.isShift then if W then .funct7 else .funct6 else .none := by
  cases op <;> cases W <;> rfl

/-- The words of an instruction have the fixed fields of its entry. -/
theorem IntWord.encodes {rv64 : Bool} {t : IntInst} (hw : w < 2 ^ 32) (h : IntWord rv64 w t) :
    Encodes t.entry w := by
  cases h with
  | lui hop =>
    refine ⟨hw, hop, fun habs => ?_, fun habs => ?_, fun habs => ?_, fun habs => ?_⟩ <;>
      exact absurd habs (by simp [IntInst.entry]; decide)
  | auipc hop =>
    refine ⟨hw, hop, fun habs => ?_, fun habs => ?_, fun habs => ?_, fun habs => ?_⟩ <;>
      exact absurd habs (by simp [IntInst.entry]; decide)
  | jal hop =>
    refine ⟨hw, hop, fun habs => ?_, fun habs => ?_, fun habs => ?_, fun habs => ?_⟩ <;>
      exact absurd habs (by simp [IntInst.entry]; decide)
  | jalr hop hf3 =>
    refine ⟨hw, hop, fun _ => hf3, fun habs => ?_, fun habs => ?_, fun habs => ?_⟩ <;>
      exact absurd habs (by simp [IntInst.entry]; decide)
  | branch op hop hf3 =>
    refine ⟨hw, hop, fun _ => hf3, fun habs => absurd rfl habs, fun habs => ?_, fun habs => ?_⟩ <;>
      exact absurd habs (by simp [IntInst.entry, converts, systemImm, cacheBlock])
  | opImm op W hop hf3 hsub hf7 hW =>
    refine ⟨hw, hop, fun _ => hf3, fun hfield => ?_, fun habs => ?_, fun habs => ?_⟩
    · rw [immEntry_field] at hfield ⊢
      cases hshift : op.isShift with
      | false => simp [hshift] at hfield
      | true =>
        have hbits := hf7 hshift
        cases W with
        | true =>
          rw [if_neg (by simp)] at hbits
          exact hbits
        | false =>
          have h26 : w / 2 ^ 26 = op.funct7 / 2 := by
            split at hbits
            · exact hbits
            · omega
          exact h26
    · exact absurd habs (by cases W <;> simp [IntInst.entry, converts])
    · exact absurd habs (by cases W <;> simp [IntInst.entry, systemImm, cacheBlock])
  | opReg op W hop hf3 hf7 hW =>
    refine ⟨hw, hop, fun _ => hf3, fun _ => ?_, fun habs => ?_, fun habs => ?_⟩
    · rw [regEntry_field]
      exact hf7
    · exact absurd habs (by cases W <;> simp [IntInst.entry, converts])
    · exact absurd habs (by cases W <;> simp [IntInst.entry, systemImm, cacheBlock])

theorem IntInst.entry_plain (t : IntInst) : roundingMode t.entry = false ∧
    systemImm t.entry = false ∧ cacheBlock t.entry = false := by
  cases t with
  | opImm op W rd rs1 imm => cases W <;> exact ⟨rfl, rfl, rfl⟩
  | opReg op W rd rs1 rs2 => cases W <;> exact ⟨rfl, rfl, rfl⟩
  | _ => exact ⟨rfl, rfl, rfl⟩

/-- The entries of the operations are in the tables. -/
theorem aluEntries_mem :
    (∀ op : AluOp, (IntInst.opReg op false 0 0 0).entry ∈ RV32ITable ∧
      (op.hasWord = true → (IntInst.opReg op true 0 0 0).entry ∈ RV64ITable)) ∧
    ∀ op : AluOp, op ≠ .sub → (IntInst.opImm op false 0 0 0).entry ∈ RV32ITable ∧
      (op.hasWord = true → (IntInst.opImm op true 0 0 0).entry ∈ RV64ITable) := by
  refine ⟨fun op => ?_, fun op hsub => ?_⟩
  · cases op <;> decide +kernel
  · cases op with
    | sub => exact absurd rfl hsub
    | _ => decide +kernel

/-- The table of a machine has the entries of the instructions that exist on
    it. -/
theorem IntWord.entry_mem {t : IntInst} (hI : f.RV_I = true) (h : IntWord f.IsRV64 w t) :
    t.entry ∈ InstTable f := by
  cases h with
  | lui | auipc | jal | jalr =>
    refine mem_RV32I hI ?_
    simp only [IntInst.entry]
    decide +kernel
  | branch op =>
    refine mem_RV32I hI ?_
    cases op <;> (simp only [IntInst.entry]; decide +kernel)
  | opImm op W hop hf3 hsub hf7 hW =>
    obtain ⟨hbase, hword⟩ := aluEntries_mem.2 op hsub
    cases W with
    | false => exact mem_RV32I hI hbase
    | true => exact mem_RV64I hI (hW rfl).1 (hword (hW rfl).2)
  | opReg op W hop hf3 hf7 hW =>
    obtain ⟨hbase, hword⟩ := aluEntries_mem.1 op
    cases W with
    | false => exact mem_RV32I hI hbase
    | true => exact mem_RV64I hI (hW rfl).1 (hword (hW rfl).2)

theorem integer_regFunc {op : AluOp} {W : Bool} (hW : W = true → op.hasWord = true) :
    integer (op.regFunc W) = some fun R i => oper R i op.operator .Reg op.signed W := by
  cases W with
  | false =>
    cases op with
    | add => exact congrArg some (funext fun R => funext fun i => add_eq_oper R i)
    | _ => rfl
  | true => cases op <;> first | rfl | exact absurd (hW rfl) (by decide)

theorem integer_immFunc {op : AluOp} {W : Bool} (hsub : op ≠ .sub)
    (hW : W = true → op.hasWord = true) :
    integer (op.immFunc W) = some fun R i => oper R i op.operator .Imm op.signed W := by
  cases W with
  | false => cases op <;> first | rfl | exact absurd rfl hsub
  | true => cases op <;> first | rfl | exact absurd rfl hsub | exact absurd (hW rfl) (by decide)

theorem executed_branch (op : BranchOp) (R : RevRegFile) :
    ∃ g, integer op.func = some g ∧ ∀ i, Executed
      (.branch op i.rs1 i.rs2 (BitVec.ofNat 13 i.imm)) i.instSize R (g R i) := by
  cases op with
  | eq => exact ⟨beq, rfl, executed_beq R⟩
  | ne => exact ⟨bne, rfl, executed_bne R⟩
  | lt => exact ⟨blt, rfl, executed_blt R⟩
  | ge => exact ⟨bge, rfl, executed_bge R⟩
  | ltu => exact ⟨bltu, rfl, executed_bltu R⟩
  | geu => exact ⟨bgeu, rfl, executed_bgeu R⟩

end Runs

/-- Integer instructions, jumps and branches: on every machine with the base
    instructions, every word of an instruction that exists at its XLEN is
    decoded and run as the RISC-V specification says, from any register file, and
    nothing else changes. -/
theorem integer_isa {f : RevFeature} (hI : f.RV_I = true) (coProc : ℕ → Bool) {w : ℕ}
    (hw : w < 2 ^ 32) {t : IntInst} (h : IntWord f.IsRV64 w t) (R : RevRegFile) :
    RunsWord f coProc w R t := by
  have hmem := h.entry_mem hI
  have henc := h.encodes hw
  have hplain := t.entry_plain
  cases h with
  | lui hop =>
    refine runsWord coProc hmem henc rfl rfl hplain fun i hrd hrs1 hrs2 himm hsize => ?_
    have hrun := executed_lui R i
    rwa [hrd.trans (rdField_eq w), himm, immU_eq w, hsize] at hrun
  | auipc hop =>
    refine runsWord coProc hmem henc rfl rfl hplain fun i hrd hrs1 hrs2 himm hsize => ?_
    have hrun := executed_auipc R i
    rwa [hrd.trans (rdField_eq w), himm, immU_eq w, hsize] at hrun
  | jal hop =>
    refine runsWord coProc hmem henc rfl rfl hplain fun i hrd hrs1 hrs2 himm hsize => ?_
    have hrun := executed_jal R i
    rwa [hrd.trans (rdField_eq w), himm, immJ_eq w, hsize] at hrun
  | jalr hop hf3 =>
    refine runsWord coProc hmem henc rfl rfl hplain fun i hrd hrs1 hrs2 himm hsize => ?_
    have hrun := executed_jalr R i
    rwa [hrd.trans (rdField_eq w), hrs1.trans (rs1Field_eq w), himm, immI_eq w,
      hsize] at hrun
  | branch op hop hf3 =>
    obtain ⟨g, hg, hrun⟩ := executed_branch op R
    refine runsWord coProc hmem henc rfl hg hplain fun i hrd hrs1 hrs2 himm hsize => ?_
    have hrun := hrun i
    rwa [hrs1.trans (rs1Field_eq w), hrs2.trans (rs2_eq w), himm, immB_eq w, hsize] at hrun
  | opImm op W hop hf3 hsub hf7 hW =>
    refine runsWord coProc hmem henc rfl (integer_immFunc hsub fun hw => (hW hw).2) hplain
      fun i hrd hrs1 hrs2 himm hsize => ?_
    have hrun := executed_opImm R i op W
    rwa [hrd.trans (rdField_eq w), hrs1.trans (rs1Field_eq w), himm, immI_eq w,
      hsize] at hrun
  | opReg op W hop hf3 hf7 hW =>
    refine runsWord coProc hmem henc rfl (integer_regFunc fun hw => (hW hw).2) hplain
      fun i hrd hrs1 hrs2 himm hsize => ?_
    have hrun := executed_opReg R i op W
    rwa [hrd.trans (rdField_eq w), hrs1.trans (rs1Field_eq w), hrs2.trans (rs2_eq w), hsize] at hrun

/-- `addi x1, x2, -1` on a machine RV64I. -/
theorem integer_isa_addi :
    RunsWord { IsRV64 := true } (fun _ => false) 0xfff10093
      { IsRV32 := false, HasD := false, X := fun _ => 0, FP := fun _ => 0, PC := 0 }
      (.opImm .add false 1 2 0xfff) :=
  integer_isa rfl (fun _ => false) (by decide)
    (.opImm .add false (by decide) (by decide) (by decide) (by decide) (by decide)) _

end RevCPU.Isa
