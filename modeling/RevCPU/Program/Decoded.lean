import RevCPU.Isa.IntegerRefines
import RevCPU.Program.Execute
import RevCPU.Program.Spec

namespace RevCPU.Program

open RevCPU.Lib RevCPU.Isa

/-- The functions of the loads and stores in the tables. -/
def loadFunc : IntLoad → Isa.ImplFunc
  | .lb => .lb
  | .lbu => .lbu
  | .lh => .lh
  | .lhu => .lhu
  | .lw => .lw
  | .lwu => .lwu
  | .ld => .ld

def storeFunc : IntStore → Isa.ImplFunc
  | .sb => .sb
  | .sh => .sh
  | .sw => .sw
  | .sd => .sd

/-- The functions of the M extension. -/
def MulDivOp.func (W : Bool) : MulDivOp → Isa.ImplFunc
  | mul => if W then .mulw else .mul
  | mulh => .mulh
  | mulhsu => .mulhsu
  | mulhu => .mulhu
  | div => if W then .divw else .div
  | divu => if W then .divuw else .divu
  | rem => if W then .remw else .rem
  | remu => if W then .remuw else .remu

/-- The table entry of an instruction. -/
def Inst.entry : Inst → Isa.RevInstEntry Isa.ImplFunc
  | int t => t.entry
  | load l .. => { opcode := 0b0000011, funct3 := loadFunct3 l, rs2Class := .RegUNKNOWN,
                   imm := .FImm, format := .RVTypeI, func := some (loadFunc l) }
  | store t .. => { opcode := 0b0100011, funct3 := t.funct3, rdClass := .RegIMM,
                    format := .RVTypeS, func := some (storeFunc t) }
  | mulDiv op W .. => { opcode := if W then 0b0111011 else 0b0110011, funct3 := op.funct3,
                        funct2or7 := 0b0000001, func := some (op.func W) }

/-- The extensions that the instruction belongs to are enabled. -/
def Inst.enabled (f : Isa.RevFeature) : Inst → Bool
  | mulDiv .. => f.RV_I && f.RV_M
  | _ => f.RV_I

section Entries

variable {f : Isa.RevFeature} {w : ℕ} {t : Inst}

/-- A table that the machine enables is part of its instruction table. -/
theorem mem_InstTable {c : RevExt Isa.ImplFunc × Bool} (hc : c ∈ Isa.SeedInstTable f)
    {e : Isa.RevInstEntry Isa.ImplFunc} (he : e ∈ c.1.table) : e ∈ InstTable f := by
  rw [InstTable_eq, List.mem_flatMap]
  exact ⟨c, hc, List.mem_append_left _ he⟩

theorem mem_RV32M (hM : f.RV_M = true) {e : Isa.RevInstEntry Isa.ImplFunc}
    (he : e ∈ RV32MTable) : e ∈ InstTable f := by
  refine mem_InstTable (c := (RV32M, false)) ?_ he
  simp [Isa.SeedInstTable, hM]

theorem mem_RV64M (hM : f.RV_M = true) (hrv : f.IsRV64 = true)
    {e : Isa.RevInstEntry Isa.ImplFunc} (he : e ∈ RV64MTable) : e ∈ InstTable f := by
  refine mem_InstTable (c := (RV64M, false)) ?_ he
  simp [Isa.SeedInstTable, hM, hrv]

theorem loadEntry_mem (l : IntLoad) : (Inst.load l 0 0 0).entry ∈
    if l.avail true then Isa.RV32ITable else Isa.RV64ITable := by
  cases l <;> decide +kernel

theorem storeEntry_mem (t : IntStore) : (Inst.store t 0 0 0).entry ∈
    if t.avail false then Isa.RV32ITable else Isa.RV64ITable := by
  cases t <;> decide +kernel

theorem mulDivEntry_mem (op : MulDivOp) : (Inst.mulDiv op false 0 0 0).entry ∈ RV32MTable ∧
    (op.hasWord = true → (Inst.mulDiv op true 0 0 0).entry ∈ RV64MTable) := by
  cases op <;> decide +kernel

/-- The table of a machine has the entries of the instructions that exist on it. -/
theorem InstWord.entry_mem (hf : t.enabled f = true) (h : InstWord f.IsRV64 w t) :
    t.entry ∈ InstTable f := by
  cases h with
  | int t h => exact h.entry_mem hf
  | load l _ _ hrv =>
    have hmem := loadEntry_mem l
    split at hmem
    · exact mem_RV32I hf hmem
    · rename_i hnot
      cases h64 : f.IsRV64 with
      | true => exact mem_RV64I hf h64 hmem
      | false =>
        rw [h64] at hrv
        exact absurd hrv hnot
  | store t _ _ hrv =>
    have hmem := storeEntry_mem t
    split at hmem
    · exact mem_RV32I hf hmem
    · rename_i hnot
      cases h64 : f.IsRV64 with
      | true => exact mem_RV64I hf h64 hmem
      | false =>
        rw [h64] at hrv
        exact absurd hrv hnot
  | mulDiv op W _ _ _ hW =>
    obtain ⟨-, hM⟩ := Bool.and_eq_true_iff.mp hf
    obtain ⟨hbase, hword⟩ := mulDivEntry_mem op
    cases W with
    | false => exact mem_RV32M hM hbase
    | true => exact mem_RV64M hM (hW rfl).1 (hword (hW rfl).2)

theorem Inst.entry_plain (t : Inst) : t.entry.compressed = false ∧
    roundingMode t.entry = false ∧ systemImm t.entry = false ∧ cacheBlock t.entry = false := by
  cases t with
  | int t => exact ⟨by cases t <;> rfl, t.entry_plain⟩
  | mulDiv op W rd rs1 rs2 => cases W <;> exact ⟨rfl, rfl, rfl, rfl⟩
  | _ => exact ⟨rfl, rfl, rfl, rfl⟩

/-- The words of an instruction have the fixed fields of its entry. -/
theorem InstWord.encodes (hw : w < 2 ^ 32) (h : InstWord f.IsRV64 w t) :
    Encodes t.entry w := by
  cases h with
  | int t h => exact h.encodes hw
  | load l hop hf3 hrv =>
    refine ⟨hw, hop, fun _ => hf3, fun habs => absurd rfl habs, fun habs => ?_, fun habs => ?_⟩ <;>
      exact absurd habs (by simp [Inst.entry, converts, systemImm, cacheBlock])
  | store t hop hf3 hrv =>
    refine ⟨hw, hop, fun _ => hf3, fun habs => absurd rfl habs, fun habs => ?_, fun habs => ?_⟩ <;>
      exact absurd habs (by simp [Inst.entry, converts, systemImm, cacheBlock])
  | mulDiv op W hop hf3 hf7 hW =>
    refine ⟨hw, hop, fun _ => hf3, fun _ => ?_, fun habs => ?_, fun habs => ?_⟩
    · have hfield : functField (Inst.mulDiv op W 0 0 0).entry = .funct7 := by
        cases W <;> rfl
      exact (congrArg (fun k => FunctField.read k w) hfield).trans hf7
    · exact absurd habs (by cases W <;> simp [Inst.entry, converts])
    · exact absurd habs (by cases W <;> simp [Inst.entry, systemImm, cacheBlock])

/-- The decoder takes the word of an instruction apart by the format of its
    entry. -/
theorem InstWord.decoded (coProc : ℕ → Bool) (hf : t.enabled f = true) (hw : w < 2 ^ 32)
    (h : InstWord f.IsRV64 w t) {i : Isa.RevInst} (hi : decodeFormat w t.entry = some i) :
    ∃ n, Isa.DecodeInst f coProc w = some { i with entry := n, isCoProcInst := false } ∧
      (InstTable f)[n]? = some t.entry := by
  obtain ⟨n, hlt, hn⟩ := List.getElem_of_mem (h.entry_mem hf)
  have hentry : (InstTable f)[n]? = some t.entry := by
    rw [List.getElem?_eq_getElem hlt, hn]
  obtain ⟨hc, hrm, hsys, hcbo⟩ := t.entry_plain
  have hdecode := decodeInst_eq coProc hentry hc (h.encodes hw) hrm hsys hcbo
  rw [hi, Option.map_some] at hdecode
  exact ⟨n, hdecode, hentry⟩

end Entries

section Fields

/-- The immediate of the format S. -/
theorem immS_eq {w : ℕ} (hw : w < 2 ^ 32) (e : Isa.RevInstEntry Isa.ImplFunc) :
    BitVec.ofNat 12 (Isa.DecodeSInst w e).imm = immS w := by
  have hrd : DECODE_RD w = w / 2 ^ 7 % 2 ^ 5 := rdField_eq w
  have hf7 : DECODE_FUNCT7 w = w / 2 ^ 25 := funct7_field hw
  have hor : w / 2 ^ 25 * 2 ^ 5 ||| w / 2 ^ 7 % 2 ^ 5 = _ := or_eq_add 5 (by omega) (by omega)
  have himm : (Isa.DecodeSInst w e).imm = w / 2 ^ 25 * 2 ^ 5 + w / 2 ^ 7 % 2 ^ 5 := by
    simp only [Isa.DecodeSInst, hrd, hf7, Nat.shiftLeft_eq]
    rw [Nat.or_comm, hor]
  rw [himm, immS]

end Fields

end RevCPU.Program
