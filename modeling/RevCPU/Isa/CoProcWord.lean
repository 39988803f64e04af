import RevCPU.Isa.CompressedAluRefines

namespace RevCPU.Isa

open RevCPU.Lib

/-- The bytes that a word takes. -/
def wordSize (Inst : ℕ) : ℕ := if Inst &&& 0b11 ≠ 0b11 then 2 else 4

/-- Whether the decoders call `IssueInst` for a word: it is not in the tables. -/
def asksCoProc (f : RevFeature) (Inst : ℕ) : Bool :=
  if Inst &&& 0b11 ≠ 0b11 then
    f.HasCompressed && (CEncToEntry f (encCompressed (Inst &&& 0b1111111111111111))).isNone
  else (findEntry f Inst).isNone

/-- The entry of `addi`. -/
def addiEntry : RevInstEntry ImplFunc :=
  { opcode := 0b0010011, rs2Class := .RegUNKNOWN, imm := .FImm, format := .RVTypeI,
    func := some .addi }

/-- The fields that make a word a no-op when it is decoded as the instruction that
    takes its place: a word of 32 bits is cleared, one of 16 bits is not and adds
    its immediate to its register. -/
def IsNoOp (Inst : ℕ) : Prop := wordSize Inst = 4 ∨ cbits Inst 11 7 = 0 ∨ imm6 Inst = 0

instance (Inst : ℕ) : Decidable (IsNoOp Inst) := inferInstanceAs (Decidable (_ ∨ _ ∨ _))

/-- The function that `ClockTick` runs for an instruction, if it is one of the
    integer instructions. -/
def implFunc (f : RevFeature) (i : RevInst) : Option (RevRegFile → RevInst → RevRegFile) :=
  ((({} : RevProc ImplFunc).enableAll f.RV_C (SeedInstTable f)).execute i.entry).bind fun g =>
    (integer g).or (compressedAlu g)

section Entries

variable {f : RevFeature} {n : ℕ} {e : RevInstEntry ImplFunc}

/-- The keys of `addi` and `c.addi` lead to their entries on every machine that has
    an entry under them. -/
theorem addi_of_key (h : EncToEntry f 0b0010011 = some n) : (InstTable f)[n]? = some addiEntry := by
  obtain ⟨hlt, hp, -⟩ := List.findIdx?_eq_some_iff_getElem.mp h
  have hall : ∀ e ∈ allEntries, (!e.compressed && CompressEncoding e == 0b0010011) = true →
      e = addiEntry := by
    decide +kernel
  rw [List.getElem?_eq_getElem hlt, hall _ ((InstTable_sublist f).subset (List.getElem_mem hlt)) hp]

theorem caddi_of_key (h : CEncToEntry f 0b01 = some n) :
    (InstTable f)[n]? = some (ciEntry 0b01 0b000 .caddi) := by
  obtain ⟨hlt, hp, -⟩ := List.findIdx?_eq_some_iff_getElem.mp h
  have hall : ∀ e ∈ allEntries, (e.compressed && CompressCEncoding e == 0b01) = true →
      e = ciEntry 0b01 0b000 .caddi := by
    decide +kernel
  rw [List.getElem?_eq_getElem hlt, hall _ ((InstTable_sublist f).subset (List.getElem_mem hlt)) hp]

/-- `addi` and `c.addi` run their own functions. -/
theorem execute_own (hn : (InstTable f)[n]? = some e) (he : e ∈ [addiEntry, ciEntry 0b01 0b000 .caddi]) :
    (({} : RevProc ImplFunc).enableAll f.RV_C (SeedInstTable f)).execute n = e.func := by
  obtain ⟨c, hc, j, hload, hexec⟩ := RevProc.provenance_of_entry hn
  have hext : c.1 ∈ allExts := (seed_sublist f).subset (List.mem_map_of_mem hc)
  have hall : ∀ x ∈ allExts, ∀ e ∈ [addiEntry, ciEntry 0b01 0b000 .caddi],
      (e ∈ x.table → e.compressed = false) ∧ (e ∈ x.ctable → e.compressed = true) ∧
        e ∉ x.otable := by
    decide +kernel
  obtain ⟨htable, hctable, hotable⟩ := hall c.1 hext e he
  rw [hexec]
  rcases RevProc.mem_loaded.mp hload with h | ⟨-, h | ⟨-, h⟩⟩
  · have hflag := htable (List.mem_of_getElem? h)
    exact (RevProc.execute_table h).mpr fun htrue => absurd (hflag.symm.trans htrue) (by decide)
  · have hflag := hctable (List.mem_of_getElem? h)
    exact (RevProc.execute_ctable h).mpr fun hfalse => absurd (hflag.symm.trans hfalse) (by decide)
  · exact absurd (List.mem_of_getElem? h) hotable

end Entries

theorem signExtend_eq_zero {n m : ℕ} (hle : n ≤ m) (v : BitVec n) : v.signExtend m = 0 ↔ v = 0 := by
  rw [← BitVec.toInt_inj, ← BitVec.toInt_inj, BitVec.toInt_signExtend_of_le hle]
  simp

/-- An addition of an immediate to a register. -/
theorem executed_addImm {R R' : RevRegFile} {rd size : ℕ} {v : BitVec 12}
    (h : Executed (.opImm .add false rd rd v) size R R') :
    R'.PC = (R.PC + size) % 2 ^ xlen R ∧ SameRest R R' ∧
      ((∀ k, R'.GetX k = R.GetX k) ↔ rd = 0 ∨ v = 0) := by
  have hx : ∀ k, R'.GetX k = if k = rd ∧ k ≠ 0 then
      (getX R (xlen R) rd + v.signExtend (xlen R)).toNat else R.GetX k := by
    intro k
    rw [h.x k]
    exact toNat_write R _ rd k
  have hle : 12 ≤ xlen R := by
    rcases xlen_cases R with hlen | hlen <;> omega
  refine ⟨h.pc.trans (toNat_next R size), h.rest, ?_⟩
  constructor
  · intro hsame
    by_cases hrd : rd = 0
    · exact .inl hrd
    · right
      have hval := (hx rd).symm.trans (hsame rd)
      rw [if_pos ⟨rfl, hrd⟩, ← toNat_getX, BitVec.toNat_inj] at hval
      have hzero : v.signExtend (xlen R) = 0 := by simpa using hval
      exact (signExtend_eq_zero hle v).mp hzero
  · rintro hnoop k
    rw [hx k]
    split
    · rename_i hk
      rcases hnoop with rfl | rfl
      · exact absurd hk.1 hk.2
      · rw [hk.1, (signExtend_eq_zero hle 0).mpr rfl]
        simp [toNat_getX]
    · rfl

/-- The lookup of a word that is not found needs a coprocessor that takes it. -/
theorem asked_taken {found other : Option ℕ} {takes : Bool} {n : ℕ}
    (h : (if found.isNone && takes then other else found) = some n) :
    (found.isNone && takes) = found.isNone ∧ (found.isNone = true → takes = true) := by
  cases found with
  | some m => simp
  | none =>
    cases takes with
    | true => simp
    | false => simp at h

section Decoded

variable {f : RevFeature} {coProc : ℕ → Bool} {w : ℕ} {i : RevInst}

/-- A word is decoded as a coprocessor instruction if the decoders have asked the
    coprocessor about it: if it does not take the word there is an error. -/
theorem isCoProcInst_eq (h : DecodeInst f coProc w = some i) :
    i.isCoProcInst = asksCoProc f w ∧ (asksCoProc f w = true → coProc w = true) := by
  unfold DecodeInst at h
  unfold asksCoProc
  split at h
  · rename_i hshort
    rw [if_pos hshort]
    unfold DecodeCompressed at h
    split at h
    · cases h
    · rename_i hC
      obtain ⟨n, hn, h⟩ := Option.bind_eq_some_iff.mp h
      obtain ⟨e, -, h⟩ := Option.bind_eq_some_iff.mp h
      obtain ⟨ret, -, rfl⟩ := Option.map_eq_some_iff.mp h
      have hcompressed : f.HasCompressed = true := by simpa using hC
      rw [hcompressed, Bool.true_and]
      exact asked_taken hn
  · rename_i hlong
    rw [if_neg hlong]
    obtain ⟨n, hn, h⟩ := Option.bind_eq_some_iff.mp h
    obtain ⟨e, -, h⟩ := Option.bind_eq_some_iff.mp h
    obtain ⟨ret, -, rfl⟩ := Option.map_eq_some_iff.mp h
    exact asked_taken hn

/-- In place of a word of 32 bits the coprocessor's word is decoded as
    `addi x0, x0, 0`. -/
theorem coProcInst_long (h : DecodeInst f coProc w = some i) (hco : i.isCoProcInst = true)
    (hlong : ¬(w &&& 0b11 ≠ 0b11)) :
    (InstTable f)[i.entry]? = some addiEntry ∧ i.rd = 0 ∧ i.rs1 = 0 ∧ i.imm = 0 ∧ i.instSize = 4 := by
  unfold DecodeInst at h
  rw [if_neg hlong] at h
  obtain ⟨n, hn, h⟩ := Option.bind_eq_some_iff.mp h
  obtain ⟨e, he, h⟩ := Option.bind_eq_some_iff.mp h
  obtain ⟨ret, hret, rfl⟩ := Option.map_eq_some_iff.mp h
  simp only at hco
  simp only [hco, if_true] at hn hret
  have hentry := addi_of_key hn
  obtain rfl := Option.some.inj (he.symm.trans hentry)
  obtain rfl := Option.some.inj hret
  exact ⟨hentry, rfl, rfl, rfl, rfl⟩

theorem cbits_low (w : ℕ) : cbits (w &&& 0b1111111111111111) 11 7 = cbits w 11 7 ∧
    imm6 (w &&& 0b1111111111111111) = imm6 w := by
  have hlow : w &&& 0b1111111111111111 = w % 2 ^ 16 := Nat.and_two_pow_sub_one_eq_mod w 16
  have h12 : w % 2 ^ 16 / 2 ^ 12 % 2 ^ 1 = w / 2 ^ 12 % 2 ^ 1 := by omega
  have h6 : w % 2 ^ 16 / 2 ^ 2 % 2 ^ 5 = w / 2 ^ 2 % 2 ^ 5 := by omega
  rw [hlow]
  refine ⟨?_, ?_⟩
  · show w % 2 ^ 16 / 2 ^ 7 % 2 ^ 5 = w / 2 ^ 7 % 2 ^ 5
    omega
  · show BitVec.ofNat 6 (w % 2 ^ 16 / 2 ^ 12 % 2 ^ 1 * 2 ^ 5 + w % 2 ^ 16 / 2 ^ 2 % 2 ^ 5) = _
    rw [h12, h6]
    rfl

/-- In place of a word of 16 bits it is decoded as `c.addi`, with the register and
    the immediate of the word itself. -/
theorem coProcInst_short (h : DecodeInst f coProc w = some i) (hco : i.isCoProcInst = true)
    (hshort : w &&& 0b11 ≠ 0b11) :
    (InstTable f)[i.entry]? = some (ciEntry 0b01 0b000 .caddi) ∧ i.rd = cbits w 11 7 ∧
      i.rs1 = cbits w 11 7 ∧ BitVec.ofNat 6 i.imm = imm6 w ∧ i.instSize = 2 := by
  unfold DecodeInst at h
  rw [if_pos hshort] at h
  unfold DecodeCompressed at h
  split at h
  · cases h
  obtain ⟨n, hn, h⟩ := Option.bind_eq_some_iff.mp h
  obtain ⟨e, he, h⟩ := Option.bind_eq_some_iff.mp h
  obtain ⟨ret, hret, rfl⟩ := Option.map_eq_some_iff.mp h
  simp only at hco
  simp only [hco, if_true] at hn
  have hentry := caddi_of_key hn
  obtain rfl := Option.some.inj (he.symm.trans hentry)
  obtain rfl := Option.some.inj hret
  obtain ⟨hrd, himm⟩ := cbits_low w
  refine ⟨hentry, ?_, ?_, ?_, rfl⟩
  · exact (rd_eq _).trans hrd
  · exact (rd_eq _).trans hrd
  · exact (immCI_eq _ f (e := ciEntry 0b01 0b000 .caddi) (by decide)).trans himm

/-- What the instruction in the word's place does: it advances the PC by the size of
    the word, and changes no register exactly if its fields make it a no-op. -/
theorem coProcInst_runs (h : DecodeInst f coProc w = some i) (hco : i.isCoProcInst = true) :
    ∃ g, implFunc f i = some g ∧ ∀ R, (g R i).PC = (R.PC + wordSize w) % 2 ^ xlen R ∧
      SameRest R (g R i) ∧ ((∀ k, (g R i).GetX k = R.GetX k) ↔ IsNoOp w) := by
  by_cases hshort : w &&& 0b11 ≠ 0b11
  · obtain ⟨hentry, hrd, hrs1, himm, hsize⟩ := coProcInst_short h hco hshort
    have hword : wordSize w = 2 := if_pos hshort
    refine ⟨caddi, ?_, ?_⟩
    · rw [implFunc, execute_own hentry (by decide)]
      rfl
    · intro R
      have hrun : Executed (.opImm .add false (cbits w 11 7) (cbits w 11 7)
          ((imm6 w).signExtend 12)) 2 R (caddi R i) :=
        executed_immForm R .add false hrd hrs1 (immExt_imm6 himm) hsize
      obtain ⟨hPC, hrest, hnoop⟩ := executed_addImm hrun
      refine ⟨by rw [hPC, hword], hrest, hnoop.trans ?_⟩
      rw [signExtend_eq_zero (by decide), IsNoOp, hword]
      simp
  · obtain ⟨hentry, hrd, hrs1, himm, hsize⟩ := coProcInst_long h hco hshort
    have hword : wordSize w = 4 := if_neg hshort
    refine ⟨addi, ?_, ?_⟩
    · rw [implFunc, execute_own hentry (by decide)]
      rfl
    · intro R
      have hrun : Executed (.opImm .add false 0 0 (BitVec.ofNat 12 i.imm)) 4 R (addi R i) := by
        have hop := executed_opImm R i .add false
        rwa [hrd, hrs1, hsize] at hop
      obtain ⟨hPC, hrest, hnoop⟩ := executed_addImm hrun
      refine ⟨by rw [hPC, hword], hrest, hnoop.trans ?_⟩
      simp [IsNoOp, hword]

end Decoded

end RevCPU.Isa
