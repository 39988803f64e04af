import RevCPU.Isa.ControlFields

namespace RevCPU.Isa

open RevCPU.Lib

/-- The entries of the jumps and branches. -/
def CtrlForm.entry : CtrlForm → RevInstEntry ImplFunc
  | j => { opcode := 0b01, funct3 := 0b101, imm := .FVal, format := .RVCTypeCJ, func := some .cj,
           compressed := true }
  | jal => { opcode := 0b01, funct3 := 0b001, format := .RVCTypeCJ, func := some .cjal,
             compressed := true }
  | jr => { opcode := 0b10, funct4 := 0b1000, format := .RVCTypeCR, func := some .CRFUNC_1000,
            compressed := true }
  | jalr => { opcode := 0b10, funct4 := 0b1001, format := .RVCTypeCR, func := some .CRFUNC_1001,
              compressed := true }
  | beqz => { opcode := 0b01, funct3 := 0b110, imm := .FVal, format := .RVCTypeCB,
              func := some .cbeqz, compressed := true }
  | bnez => { opcode := 0b01, funct3 := 0b111, imm := .FVal, format := .RVCTypeCB,
              func := some .cbnez, compressed := true }

/-- What a word of a form looks like, on a machine that has the form. -/
structure CtrlForm.Fits (f : RevFeature) (w : ℕ) (form : CtrlForm) : Prop where
  machine : f.RV_I = true ∧ f.RV_C = true
  xlen : form = .jal → f.IsRV64 = false
  key : encCompressed w = CompressCEncoding form.entry
  register : form = .jr ∨ form = .jalr → cbits w 11 7 ≠ 0 ∧ cbits w 6 2 = 0

/-- The key of a word in the second quadrant, but for the arithmetic. -/
theorem enc_quadrant1 {w l3 : ℕ} (hop : cbits w 1 0 = 0b01) (hl3 : cbits w 15 13 = l3)
    (hne : l3 ≠ 0b100) (hlt : l3 < 8) : encCompressed w = 0b01 ||| l3 <<< 4 := by
  unfold encCompressed
  simp only [opc_eq, l3_eq, hop, hl3]
  have hmid : ¬(0b011 < l3 ∧ l3 < 0b101) := by omega
  rw [if_neg (by decide), if_pos trivial, if_neg hmid, ite_self]
  simp

theorem enc_quadrant2 {w : ℕ} (hop : cbits w 1 0 = 0b10) (hl3 : cbits w 15 13 = 0b100) :
    encCompressed w = 0b10 ||| cbits w 15 12 <<< 8 := by
  unfold encCompressed
  simp only [opc_eq, l3_eq, funct4_eq, hop, hl3]
  simp

theorem CtrlForm.fits {f : RevFeature} {w : ℕ} {form : CtrlForm} (h : ofWord f w = some form) :
    form.Fits f w := by
  unfold ofWord at h
  split at h
  · cases h
  · rename_i hmachine
    have hIC : f.RV_I = true ∧ f.RV_C = true := by simpa using hmachine
    split at h
    · rename_i hop hl3
      split at h
      · cases h
      · rename_i hrv
        cases h
        exact ⟨hIC, fun _ => by simpa using hrv, enc_quadrant1 hop hl3 (by decide) (by decide),
          by simp⟩
    · rename_i hop hl3
      cases h
      exact ⟨hIC, by simp, enc_quadrant1 hop hl3 (by decide) (by decide), by simp⟩
    · rename_i hop hl3
      cases h
      exact ⟨hIC, by simp, enc_quadrant1 hop hl3 (by decide) (by decide), by simp⟩
    · rename_i hop hl3
      cases h
      exact ⟨hIC, by simp, enc_quadrant1 hop hl3 (by decide) (by decide), by simp⟩
    · rename_i hop hl3
      split at h
      · rename_i hreg
        have hfour : cbits w 15 12 = 8 + cbits w 12 12 := by
          unfold cbits at *
          omega
        have hkey := enc_quadrant2 hop hl3
        rw [hfour] at hkey
        by_cases hbit : cbits w 12 12 = 0
        · rw [if_pos hbit] at h
          cases h
          rw [hbit] at hkey
          exact ⟨hIC, by simp, hkey, fun _ => hreg⟩
        · have hone : cbits w 12 12 = 1 := by
            unfold cbits at *
            omega
          rw [if_neg hbit] at h
          cases h
          rw [hone] at hkey
          exact ⟨hIC, by simp, hkey, fun _ => hreg⟩
      · cases h
    · cases h


/-- On RV32 the table has no entry of the RV64I extension. -/
theorem mem_rv32 {f : RevFeature} (hrv : f.IsRV64 = false) {e : RevInstEntry ImplFunc}
    (he : e ∈ InstTable f) :
    e ∈ [RV32I, RV32M, RV32A, RV32F, RV64F, RV32D, Zicbom].flatMap
      fun x => x.table ++ (x.ctable ++ x.otable) := by
  have hone : ∀ (b : Bool) (x : RevExt ImplFunc) (o : Bool),
      ((if b then [(x, o)] else []).map Prod.fst) ⊆ [x] := by
    intro b x o
    split_ifs <;> simp
  have hF : ((if f.RV_F then
      if !f.RV_D && f.IsRV32 then [(RV32F, true)] else [(RV32F, false), (RV64F, false)]
      else []).map Prod.fst) ⊆ [RV32F, RV64F] := by
    split_ifs <;> simp
  rw [InstTable_eq, List.mem_flatMap] at he
  obtain ⟨c, hc, he⟩ := he
  refine List.mem_flatMap.mpr ⟨c.1, ?_, (entries_sublist f.RV_C c).subset he⟩
  have hmem := List.mem_map_of_mem (f := Prod.fst) hc
  simp only [SeedInstTable, hrv, Bool.false_eq_true, if_false, List.map_append,
    List.mem_append] at hmem
  rcases hmem with ((((h | h) | h) | h) | h) | h
  · rw [List.mem_singleton.mp (hone _ _ _ h)]
    simp
  · rw [List.mem_singleton.mp (hone _ _ _ h)]
    simp
  · rw [List.mem_singleton.mp (hone _ _ _ h)]
    simp
  · exact (by simp : [RV32F, RV64F] ⊆ [RV32I, RV32M, RV32A, RV32F, RV64F, RV32D, Zicbom]) (hF h)
  · rw [List.mem_singleton.mp (hone _ _ _ h)]
    simp
  · rw [List.mem_singleton.mp (hone _ _ _ h)]
    simp

/-- No other entry of the table has the key of the form. -/
theorem CtrlForm.entry_unique {f : RevFeature} {form : CtrlForm} (hrv : form = .jal → f.IsRV64 = false)
    {e : RevInstEntry ImplFunc} (he : e ∈ InstTable f) (hc : e.compressed = true)
    (hkey : CompressCEncoding e = CompressCEncoding form.entry) : e = form.entry := by
  by_cases hjal : form = .jal
  · subst hjal
    have hall : ∀ e ∈ [RV32I, RV32M, RV32A, RV32F, RV64F, RV32D, Zicbom].flatMap
        (fun x => x.table ++ (x.ctable ++ x.otable)), e.compressed = true →
        CompressCEncoding e = CompressCEncoding jal.entry → e = jal.entry := by
      decide +kernel
    exact hall e (mem_rv32 (hrv rfl) he) hc hkey
  · have hall : ∀ form ∈ [j, jr, jalr, beqz, bnez], ∀ e ∈ allEntries, e.compressed = true →
        CompressCEncoding e = CompressCEncoding form.entry → e = form.entry := by
      decide +kernel
    refine hall form ?_ e ((InstTable_sublist f).subset he) hc hkey
    cases form <;> simp at hjal ⊢

theorem CtrlForm.entry_mem {f : RevFeature} {w : ℕ} {form : CtrlForm} (h : form.Fits f w) :
    form.entry ∈ InstTable f := by
  rw [InstTable_eq, List.mem_flatMap]
  refine ⟨(RV32I, !f.IsRV64), ?_, ?_⟩
  · simp only [SeedInstTable, h.machine.1, if_true, List.mem_append]
    cases f.IsRV64 <;> simp
  · have hjal : form ≠ .jal → form.entry ∈ RV32ICTable := by
      cases form <;> decide +kernel
    unfold entries
    rw [h.machine.2]
    by_cases hform : form = .jal
    · subst hform
      rw [h.xlen rfl]
      decide +kernel
    · simp [RV32I, hjal hform]

/-- A compressed word with the key of one entry only is decoded with that
    entry. -/
theorem decodeCompressed_eq {f : RevFeature} {w : ℕ} {e : RevInstEntry ImplFunc} (hw : w < 2 ^ 16)
    (hC : f.RV_C = true) (he : e ∈ InstTable f) (hc : e.compressed = true)
    (hkey : encCompressed w = CompressCEncoding e)
    (hunique : ∀ e' ∈ InstTable f, e'.compressed = true →
      CompressCEncoding e' = CompressCEncoding e → e' = e) (coProc : ℕ → Bool) :
    ∃ n, (InstTable f)[n]? = some e ∧ DecodeCompressed f coProc w =
      (decodeCFormat f w e).map fun i => { i with entry := n, isCoProcInst := false } := by
  have htmp : w &&& 0b1111111111111111 = w :=
    (Nat.and_two_pow_sub_one_eq_mod w 16).trans (Nat.mod_eq_of_lt hw)
  obtain ⟨n, hn⟩ : ∃ n, CEncToEntry f (encCompressed w) = some n := by
    rw [← Option.isSome_iff_exists, CEncToEntry, List.findIdx?_isSome, List.any_eq_true]
    exact ⟨e, he, by simp [hc, hkey]⟩
  have hentry : (InstTable f)[n]? = some e := by
    obtain ⟨hlt, hp, -⟩ := List.findIdx?_eq_some_iff_getElem.mp hn
    simp only [Bool.and_eq_true, beq_iff_eq] at hp
    rw [List.getElem?_eq_getElem hlt, hunique _ (List.getElem_mem hlt) hp.1 (hp.2.trans hkey)]
  refine ⟨n, hentry, ?_⟩
  have hcompressed : f.HasCompressed = true := hC
  unfold DecodeCompressed
  simp [htmp, hcompressed, hn, hentry]

/-- A word of a form is decoded with the entry of the form. -/
theorem CtrlForm.decoded {f : RevFeature} {w : ℕ} {form : CtrlForm} (hw : w < 2 ^ 16)
    (h : form.Fits f w) (coProc : ℕ → Bool) :
    ∃ n, (InstTable f)[n]? = some form.entry ∧ DecodeCompressed f coProc w =
      (decodeCFormat f w form.entry).map fun i => { i with entry := n, isCoProcInst := false } := by
  have hcompressed : form.entry.compressed = true := by cases form <;> rfl
  exact decodeCompressed_eq hw h.machine.2 (CtrlForm.entry_mem h) hcompressed h.key
    (fun e' he' hc' hkey' => CtrlForm.entry_unique h.xlen he' hc' hkey') coProc

section Steps

variable (R : RevRegFile)

theorem wrap_natCast (n : ℕ) : wrap R n = n % 2 ^ xlen R := by
  have hcast : ((n : ℤ) % 2 ^ xlen R) = ((n % 2 ^ xlen R : ℕ) : ℤ) := by push_cast; rfl
  rw [wrap, hcast, Int.toNat_natCast]

/-- An offset and the 64-bit number that stands for it lead to the same PC. -/
theorem wrap_offset {pc imm k : ℕ} {offset : ℤ} (h : (imm : ℤ) = offset + k * 2 ^ 64) :
    (pc + imm) % 2 ^ xlen R = wrap R (pc + offset) := by
  obtain ⟨d, hd⟩ : ∃ d : ℕ, (2 : ℤ) ^ 64 = 2 ^ xlen R * 2 ^ d := by
    unfold xlen
    cases R.IsRV32 with
    | true => exact ⟨32, by norm_num⟩
    | false => exact ⟨0, by norm_num⟩
  have hsum : ((pc + imm : ℕ) : ℤ) = pc + offset + 2 ^ xlen R * (2 ^ d * k) := by
    push_cast
    rw [h, hd]
    ring
  rw [← wrap_natCast, wrap, wrap, hsum, Int.add_mul_emod_self_left]

theorem jal_PC (i : RevInst) : (jal R i).PC = (R.PC + immExt i.imm 21) % 2 ^ xlen R := rfl

theorem jal_GetX {i : RevInst} (hi : i.instSize = 2) (r : ℕ) : (jal R i).GetX r = link R i.rd r := by
  have hwrap := wrap_natCast R (R.PC + 2)
  push_cast at hwrap
  unfold jal link
  rw [GetX_SetPC, GetX_SetX, hi, hwrap]

theorem jalr_PC {i : RevInst} (hi : i.imm = 0) :
    (jalr R i).PC = wrap R (R.GetX i.rs1 + 0) / 2 * 2 := by
  have hlt := GetX_lt R i.rs1
  have hle : xlen R ≤ 64 := by
    unfold xlen
    cases R.IsRV32 <;> decide
  have h64 : R.GetX i.rs1 < 2 ^ 64 := Nat.lt_of_lt_of_le hlt (Nat.pow_le_pow_right (by decide) hle)
  have hmask : R.GetX i.rs1 &&& (2 ^ 64 - 2) = R.GetX i.rs1 / 2 * 2 := by
    refine (and_shiftLeft (R.GetX i.rs1) (2 ^ 63 - 1) 1).trans ?_
    rw [Nat.and_two_pow_sub_one_eq_mod, Nat.shiftRight_eq_div_pow, Nat.shiftLeft_eq]
    omega
  have hpc : (jalr R i).PC =
      ((R.GetX i.rs1 + immExt i.imm 12) % 2 ^ 64 &&& (2 ^ 64 - 2)) % 2 ^ xlen R := rfl
  have hzero : immExt 0 12 = 0 := by decide
  rw [hpc, hi, hzero, Nat.add_zero, Nat.mod_eq_of_lt h64, hmask, Int.add_zero, wrap_natCast,
    Nat.mod_eq_of_lt hlt]
  exact Nat.mod_eq_of_lt (by omega)

theorem jalr_GetX {i : RevInst} (hi : i.instSize = 2) (r : ℕ) : (jalr R i).GetX r = link R i.rd r := by
  have hwrap := wrap_natCast R (R.PC + 2)
  push_cast at hwrap
  unfold jalr link
  rw [GetX_SetX, xlen_SetPC, GetX_SetPC, hi, hwrap]

end Steps

/-- What the word does is what its function does to the decoded fields. -/
theorem CtrlForm.runs_iff {f : RevFeature} {w : ℕ} {form : CtrlForm} (hw : w < 2 ^ 16)
    (h : form.Fits f w) (coProc : ℕ → Bool) {R : RevRegFile} {s : ℕ × (ℕ → ℕ)} {i : RevInst}
    (hi : decodeCFormat f w form.entry = some i) {g : RevRegFile → RevInst → RevRegFile}
    (hg : form.entry.func.bind control = some g)
    (hsame : ∀ n, g R { i with entry := n, isCoProcInst := false } = g R i) :
    Runs f coProc w R s ↔ (g R i).PC = s.1 ∧ ∀ r, (g R i).GetX r = s.2 r := by
  obtain ⟨n, hentry, hdecode⟩ := form.decoded hw h coProc
  rw [hi, Option.map_some] at hdecode
  constructor
  · rintro ⟨i', e, g', hdecode', hentry', hg', hpc, hx⟩
    rw [hdecode] at hdecode'
    cases hdecode'
    rw [hentry] at hentry'
    cases hentry'
    rw [hg] at hg'
    cases hg'
    rw [hsame] at hpc hx
    exact ⟨hpc, hx⟩
  · rintro ⟨hpc, hx⟩
    refine ⟨_, form.entry, g, hdecode, hentry, hg, ?_, ?_⟩
    · rw [hsame]
      exact hpc
    · intro r
      rw [hsame]
      exact hx r

/-- The branches: equal registers take the offset, or unequal ones. -/
theorem bcond_PC (R : RevRegFile) (op : ℕ → ℕ → Bool) {i : RevInst} (hi : i.instSize = 2)
    {offset : ℤ} {k : ℕ} (hoff : (immExt i.imm 13 : ℤ) = offset + k * 2 ^ 64) :
    (bcond R i op).PC =
      wrap R (R.PC + if op (R.GetX i.rs1) (R.GetX i.rs2) = true then offset else 2) ∧
    ∀ r, (bcond R i op).GetX r = R.GetX r := by
  unfold bcond
  split
  · exact ⟨wrap_offset R hoff, fun _ => rfl⟩
  · have hwrap := wrap_natCast R (R.PC + 2)
    push_cast at hwrap
    refine ⟨?_, fun _ => rfl⟩
    rw [hwrap]
    exact congrArg (fun n => (R.PC + n) % 2 ^ xlen R) hi

/-- The fields of c.jr and c.jalr. -/
theorem register_fields {f : RevFeature} {w : ℕ} {form : CtrlForm} (h : form.Fits f w) (hform : form = .jr ∨ form = .jalr) :
    (DecodeCRInst w form.entry).rd = cbits w 11 7 ∧
    (DecodeCRInst w form.entry).rs1 = cbits w 11 7 ∧ (DecodeCRInst w form.entry).rs2 = 0 := by
  obtain ⟨-, hrs2⟩ := h.register hform
  have hlow : DECODE_LOWER_CRS2 w = 0 := (crs2_eq w).trans hrs2
  refine ⟨rd_eq w, ?_, hlow⟩
  unfold DecodeCRInst
  rw [hlow]
  simp [rd_eq]

theorem branch_rs1 (w : ℕ) (e : RevInstEntry ImplFunc) : (DecodeCBInst w e).rs1 = cbits w 9 7 + 8 :=
  congrArg (· + 8) (creg_eq w)

section Forms

variable {f : RevFeature} {w : ℕ} {R : RevRegFile} (coProc : ℕ → Bool) (hw : w < 2 ^ 16)

include hw

theorem runs_j (h : CtrlForm.j.Fits f w) : Runs f coProc w R ((CtrlForm.j.expand w).exec R) := by
  rw [CtrlForm.runs_iff hw h coProc rfl rfl fun _ => rfl]
  exact ⟨wrap_offset R (jump_imm w _).2, fun r => jal_GetX R rfl r⟩

/-- c.jal keeps the target as a positive number. -/
theorem runs_jal (h : CtrlForm.jal.Fits f w) (hR : R.IsRV32 = f.IsRV32) :
    Runs f coProc w R ((CtrlForm.jal.expand w).exec R) ↔ cbits w 12 12 = 0 := by
  rw [CtrlForm.runs_iff hw h coProc rfl rfl fun _ => rfl]
  have himm := (jump_imm w CtrlForm.jal.entry).1
  constructor
  · rintro ⟨hpc, -⟩
    have hxlen : xlen R = 32 := by
      unfold xlen
      rw [hR, RevFeature.IsRV32, h.xlen rfl]
      rfl
    have hpc' : (R.PC + immExt (DecodeCJInst w CtrlForm.jal.entry).jumpTarget 21) % 2 ^ xlen R =
        wrap R (R.PC + CtrlForm.jOffset w) := hpc
    have hsign := cbits_lt w 12 12
    unfold wrap at hpc'
    rw [hxlen] at hpc'
    omega
  · intro hzero
    refine ⟨wrap_offset R (k := 0) ?_, fun r => jal_GetX R rfl r⟩
    rw [hzero] at himm
    exact himm

/-- c.jr writes the link value to the register that it jumps to. -/
theorem runs_jr (h : CtrlForm.jr.Fits f w) :
    Runs f coProc w R ((CtrlForm.jr.expand w).exec R) ↔
      R.GetX (cbits w 11 7) = wrap R (R.PC + 2) := by
  obtain ⟨hne, -⟩ := h.register (Or.inl rfl)
  obtain ⟨hrd, hrs1, hrs2⟩ := register_fields h (Or.inl rfl)
  rw [CtrlForm.runs_iff hw h coProc rfl rfl fun _ => rfl]
  have hrun : CRFUNC_1000 R (DecodeCRInst w CtrlForm.jr.entry) =
      jalr R (DecodeCRInst w CtrlForm.jr.entry) := by
    unfold CRFUNC_1000 cjr
    rw [if_neg (not_not.mpr hrs2), ← hrs2]
  rw [hrun, jalr_PC R rfl, hrs1]
  simp only [jalr_GetX R (rfl : (DecodeCRInst w CtrlForm.jr.entry).instSize = 2), hrd]
  constructor
  · rintro ⟨-, hx⟩
    have hself := hx (cbits w 11 7)
    simp only [Ctrl.exec, CtrlForm.expand, link] at hself
    rw [if_pos ⟨trivial, hne⟩, if_neg fun hcase => hne hcase.1] at hself
    exact hself.symm
  · intro hlink
    refine ⟨rfl, ?_⟩
    intro r
    simp only [Ctrl.exec, CtrlForm.expand, link]
    rw [if_neg fun hcase : r = 0 ∧ r ≠ 0 => hcase.2 hcase.1]
    split
    · rename_i hr
      rw [hr.1, hlink]
    · rfl

theorem runs_jalr (h : CtrlForm.jalr.Fits f w) :
    Runs f coProc w R ((CtrlForm.jalr.expand w).exec R) := by
  obtain ⟨hne, -⟩ := h.register (Or.inr rfl)
  obtain ⟨hrd, hrs1, hrs2⟩ := register_fields h (Or.inr rfl)
  rw [CtrlForm.runs_iff hw h coProc rfl rfl fun _ => rfl]
  have hrun : CRFUNC_1001 R (DecodeCRInst w CtrlForm.jalr.entry) =
      jalr R { DecodeCRInst w CtrlForm.jalr.entry with rd := 1 } := by
    unfold CRFUNC_1001
    rw [hrd, if_neg fun hcase => hne hcase.2, if_pos ⟨hrs2, hne⟩]
  rw [hrun]
  refine ⟨?_, fun r => jalr_GetX R rfl r⟩
  rw [jalr_PC R rfl]
  exact congrArg (fun r => wrap R (R.GetX r + 0) / 2 * 2) hrs1

theorem runs_beqz (h : CtrlForm.beqz.Fits f w) :
    Runs f coProc w R ((CtrlForm.beqz.expand w).exec R) := by
  rw [CtrlForm.runs_iff hw h coProc rfl rfl fun _ => rfl]
  obtain ⟨hpc, hx⟩ := bcond_PC R (· == ·)
    (rfl : ({ DecodeCBInst w CtrlForm.beqz.entry with
      rs2 := 0, imm := immExt (DecodeCBInst w CtrlForm.beqz.entry).offset 9 } : RevInst).instSize = 2)
    (branch_imm w (by decide))
  refine ⟨?_, hx⟩
  rw [branch_rs1] at hpc
  simp only [beq_iff_eq] at hpc
  exact hpc

theorem runs_bnez (h : CtrlForm.bnez.Fits f w) :
    Runs f coProc w R ((CtrlForm.bnez.expand w).exec R) := by
  rw [CtrlForm.runs_iff hw h coProc rfl rfl fun _ => rfl]
  obtain ⟨hpc, hx⟩ := bcond_PC R (· != ·)
    (rfl : ({ DecodeCBInst w CtrlForm.bnez.entry with
      imm := immExt (DecodeCBInst w CtrlForm.bnez.entry).offset 9 } : RevInst).instSize = 2)
    (branch_imm w (by decide))
  refine ⟨?_, hx⟩
  rw [branch_rs1] at hpc
  simp only [bne_iff_ne] at hpc
  exact hpc

end Forms

/-- Compressed control flow: decoding a word of a jump or branch and running the
    function of its entry gives the PC and the x registers of the expansion,
    exactly where the form agrees with it. -/
theorem control_refines {f : RevFeature} {w : ℕ} {form : CtrlForm} {R : RevRegFile}
    (coProc : ℕ → Bool) (hw : w < 2 ^ 16) (hform : CtrlForm.ofWord f w = some form)
    (hR : R.IsRV32 = f.IsRV32) :
    Runs f coProc w R ((form.expand w).exec R) ↔ form.Agrees w R := by
  have hfits := CtrlForm.fits hform
  cases form with
  | j => exact ⟨fun _ => ⟨by simp, by simp⟩, fun _ => runs_j coProc hw hfits⟩
  | jal =>
    rw [runs_jal coProc hw hfits hR]
    exact ⟨fun h => ⟨fun _ => h, by simp⟩, fun h => h.1 rfl⟩
  | jr =>
    rw [runs_jr coProc hw hfits]
    exact ⟨fun h => ⟨by simp, fun _ => h⟩, fun h => h.2 rfl⟩
  | jalr => exact ⟨fun _ => ⟨by simp, by simp⟩, fun _ => runs_jalr coProc hw hfits⟩
  | beqz => exact ⟨fun _ => ⟨by simp, by simp⟩, fun _ => runs_beqz coProc hw hfits⟩
  | bnez => exact ⟨fun _ => ⟨by simp, by simp⟩, fun _ => runs_bnez coProc hw hfits⟩

/-- A register file of zeros. -/
def zeroRegs (IsRV32 : Bool) (PC : ℕ) : RevRegFile :=
  { IsRV32, HasD := false, X := fun _ => 0, FP := fun _ => 0, PC }

/-- `c.jalr x5`. -/
theorem control_refines_jalr : Runs { IsRV64 := true } (fun _ => false) 0x9282 (zeroRegs false 16)
    ((CtrlForm.jalr.expand 0x9282).exec (zeroRegs false 16)) :=
  (control_refines (fun _ => false) (by decide) (by decide) rfl).mpr ⟨by decide, by decide⟩

/-- `c.jr x1`, the return, at address 16: `x1` becomes 18. -/
theorem return_writes_x1 : CtrlForm.ofWord { IsRV64 := true } 0x8082 = some .jr ∧
    ¬Runs { IsRV64 := true } (fun _ => false) 0x8082 (zeroRegs false 16)
      ((CtrlForm.jr.expand 0x8082).exec (zeroRegs false 16)) := by
  have hform : CtrlForm.ofWord { IsRV64 := true } 0x8082 = some .jr := by decide
  refine ⟨hform, ?_⟩
  rw [runs_jr (fun _ => false) (by decide) (CtrlForm.fits hform)]
  decide

end RevCPU.Isa
