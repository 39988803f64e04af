import RevCPU.Proc.CompressedDecode
import RevCPU.Proc.LoadStore

namespace RevCPU

open Lib

/-- The table entry that a lookup of `CEncToEntry` leads to. -/
def findC (f : RevFeature) (Enc : ℕ) : Option RevInstEntry :=
  (SeedInstTable f).find? fun e => e.compressed && CompressCEncoding e == Enc

/-- The table entry that a lookup of `EncToEntry` leads to. -/
def findI (f : RevFeature) (Enc : ℕ) : Option RevInstEntry :=
  (SeedInstTable f).find? fun e => !e.compressed && CompressEncoding e == Enc

namespace Core

/-- The index of the table entry plays no part in the execution. -/
theorem runFunc_entry (c : Core) (f : RevFeature) (i : RevInst) (k : ℕ) (func : ImplFunc) :
    c.runFunc f { i with entry := k } func = c.runFunc f i func := by
  cases func <;> rfl

/-- Running what an index of the table leads to. -/
theorem run_entry (c : Core) (f : RevFeature) (Inst : ℕ) (idx : Option ℕ) :
    ((idx.bind fun k => (SeedInstTable f)[k]?.map fun e =>
        { decodeEntry f Inst e with entry := k }).bind fun i =>
      (SeedInstTable f)[i.entry]?.bind fun e => c.runFunc f i e.func) =
    (idx.bind fun k => (SeedInstTable f)[k]?).bind fun e =>
      c.runFunc f (decodeEntry f Inst e) e.func := by
  cases idx with
  | none => rfl
  | some k =>
    simp only [Option.bind_some]
    cases hk : (SeedInstTable f)[k]? with
    | none => rfl
    | some e =>
      simp only [Option.map_some, Option.bind_some, hk]
      exact runFunc_entry c f _ k e.func

theorem run_compressed (c : Core) {f : RevFeature} (hC : f.RV_C = true) {w : ℕ} (hw : w < 2 ^ 16)
    (hlow : w &&& 0b11 ≠ 0b11) :
    c.run f w = (findC f (encCompressed w)).bind fun e =>
      c.runFunc f (decodeEntry f w e) e.func := by
  have hmod : w % 2 ^ 16 = w := Nat.mod_eq_of_lt hw
  unfold run DecodeInst DecodeCompressed
  rw [if_pos hlow, if_neg (by simp [RevFeature.HasCompressed, hC]), hmod, run_entry]
  unfold CEncToEntry findC
  rw [List.find?_eq_bind_findIdx?_getElem?]

theorem run_word (c : Core) {f : RevFeature} {w : ℕ} (hlow : w &&& 0b11 = 0b11)
    {e : RevInstEntry} (he : findI f (encInst w) = some e) :
    c.run f w = c.runFunc f (decodeEntry f w e) e.func := by
  unfold findI at he
  rw [List.find?_eq_bind_findIdx?_getElem?] at he
  unfold run DecodeInst
  rw [if_neg (by simp [hlow]), run_entry]
  have hfind : findEntry f w = EncToEntry f (encInst w) := by
    unfold findEntry EncToEntry
    cases hidx : (SeedInstTable f).findIdx? fun e => !e.compressed && CompressEncoding e == encInst w with
    | none => simp [hidx] at he
    | some k => simp only [hidx]
  rw [hfind]
  unfold EncToEntry
  rw [he]
  rfl

end Core

namespace CForm

/-- The low bits of a compressed word and of an expansion. -/
theorem low_ne {f : RevFeature} {w : ℕ} {form : CForm} (h : ofWord f w = some form) :
    w &&& 0b11 ≠ 0b11 := by
  have hop := (ofWord_spec h).2.2.1
  have hlow : w &&& 0b11 = form.cEntry.opcode := by
    have hmod : w &&& 0b11 = w % 2 ^ 2 := low_eq (k := 2) rfl w
    rw [hmod, ← hop]
    simp [cbits]
  rw [hlow]
  cases form <;> decide

theorem expand_low (w : ℕ) (form : CForm) : form.expand w &&& 0b11 = 0b11 := by
  have hop := (expand_fields w form).1
  have hlow : form.opcode % 4 = 3 := by cases form <;> rfl
  have hmod : form.expand w &&& 0b11 = form.expand w % 2 ^ 2 := low_eq (k := 2) rfl _
  rw [hmod]
  omega

/-- The forms for whose entries the machine has to lack the D extension. -/
def isSingle : CForm → Bool
  | flwsp | fswsp | flw | fsw => true
  | _ => false

theorem find_table (form : CForm) : ∀ rv64 fl d : Bool,
    (form.onXlen rv64 = true ∧ (form ∈ [flwsp, fswsp, flw, fsw] → fl = true) ∧
      (form ∈ [fldsp, fsdsp, fld, fsd] → d = true)) →
    findI ⟨rv64, true, fl, d, true, 0⟩ (CompressEncoding form.iEntry) = some form.iEntry ∧
    findC ⟨rv64, true, fl, d, true, 0⟩ (CompressCEncoding form.cEntry) =
      if form.isSingle && d then none else some form.cEntry := by
  cases form <;> decide

/-- The lookups of a compressed load or store and of its expansion. -/
theorem find_entry {f : RevFeature} {w : ℕ} {form : CForm} (h : ofWord f w = some form) :
    findI f (CompressEncoding form.iEntry) = some form.iEntry ∧
    findC f (CompressCEncoding form.cEntry) =
      if form.isSingle && f.RV_D then none else some form.cEntry := by
  obtain ⟨hI, hC, -, -, hx, hF, hD⟩ := ofWord_spec h
  obtain ⟨rv64, i, fl, d, c, hart⟩ := f
  simp only at hI hC
  subst hI hC
  exact find_table form rv64 fl d ⟨hx, hF, hD⟩

end CForm

namespace Core

/-- A core without its program counter. -/
def dropPC (c : Core) : Core := { c with R := { c.R with PC := 0 } }

/-- The program counter after an instruction of `n` bytes. -/
def nextPC (c : Core) (n : ℕ) : ℕ := (c.R.PC + n) % (if c.R.IsRV32 then 2 ^ 32 else 2 ^ 64)

/-- Two runs from `c` leave the same registers and the same memory, and the
    program counter 2 and 4 bytes on; or both end in a fatal error. -/
structure Refines (c : Core) (a b : Option Core) : Prop where
  same : a.map dropPC = b.map dropPC
  pc : ∀ x, a = some x → x.R.PC = c.nextPC 2
  pc' : ∀ x, b = some x → x.R.PC = c.nextPC 4

/-- Two runs that differ in how far the last step advances the program counter. -/
theorem refines_map {c : Core} {o : Option Core} {i j : RevInst} {g : RevRegFile → RevRegFile}
    (hi : i.instSize = 2) (hj : j.instSize = 4)
    (hkeep : ∀ x, o = some x → (g x.R).PC = c.R.PC ∧ (g x.R).IsRV32 = c.R.IsRV32) :
    Refines c (o.map fun x => { x with R := (g x.R).AdvancePC i })
      (o.map fun x => { x with R := (g x.R).AdvancePC j }) := by
  cases o with
  | none => exact ⟨rfl, by simp, by simp⟩
  | some x =>
    obtain ⟨hpc, hrv⟩ := hkeep x rfl
    refine ⟨rfl, ?_, ?_⟩
    · intro y hy
      simp only [Option.map_some, Option.some.injEq] at hy
      subst hy
      simp only [RevRegFile.AdvancePC, nextPC, hi, hpc, hrv]
    · intro y hy
      simp only [Option.map_some, Option.some.injEq] at hy
      subst hy
      simp only [RevRegFile.AdvancePC, nextPC, hj, hpc, hrv]

theorem effAddr_congr (c : Core) {i j : RevInst} (hrs1 : i.rs1 = j.rs1)
    (himm : i.ImmSignExt 12 = j.ImmSignExt 12) : c.effAddr i = c.effAddr j := by
  simp only [effAddr, hrs1, himm]

theorem readX_congr (c : Core) (f : RevFeature) {i j : RevInst} (hrd : i.rd = j.rd)
    (hrs1 : i.rs1 = j.rs1) (himm : i.ImmSignExt 12 = j.ImmSignExt 12) (off n : ℕ) (fl : RevFlag) :
    c.readX f i off n fl = c.readX f j off n fl := by
  simp only [readX, loadReq, effAddr_congr c hrs1 himm, hrd]

theorem readFP_congr (c : Core) (f : RevFeature) {i j : RevInst} (hrd : i.rd = j.rd)
    (hrs1 : i.rs1 = j.rs1) (himm : i.ImmSignExt 12 = j.ImmSignExt 12) (off n : ℕ) (fl : RevFlag) :
    c.readFP f i off n fl = c.readFP f j off n fl := by
  simp only [readFP, loadReq, effAddr_congr c hrs1 himm, hrd]

theorem readX_keeps {c x : Core} {f : RevFeature} {i : RevInst} {off n : ℕ} {fl : RevFlag}
    (h : c.readX f i off n fl = some x) : x.R.PC = c.R.PC ∧ x.R.IsRV32 = c.R.IsRV32 := by
  simp only [readX, Option.map_eq_some_iff, Prod.exists] at h
  obtain ⟨M, host, -, rfl⟩ := h
  exact ⟨rfl, rfl⟩

theorem readFP_keeps {c x : Core} {f : RevFeature} {i : RevInst} {off n : ℕ} {fl : RevFlag}
    (h : c.readFP f i off n fl = some x) : x.R.PC = c.R.PC ∧ x.R.IsRV32 = c.R.IsRV32 := by
  simp only [readFP, Option.map_eq_some_iff, Prod.exists] at h
  obtain ⟨M, host, -, rfl⟩ := h
  exact ⟨rfl, rfl⟩

theorem load_refines (c : Core) (f : RevFeature) {i j : RevInst} (hi : i.instSize = 2)
    (hj : j.instSize = 4) (hrd : i.rd = j.rd) (hrs1 : i.rs1 = j.rs1)
    (himm : i.ImmSignExt 12 = j.ImmSignExt 12) (n : ℕ) (s : Bool) :
    Refines c (c.load f i n s) (c.load f j n s) := by
  simp only [load, readX_congr c f hrd hrs1 himm, hrd]
  refine refines_map (g := fun R => R.SetX j.rd (castLoad n s (leNat (getBytes R.X
    (if n < 8 ∧ c.R.IsRV32 = true then 4 * j.rd else 8 * j.rd)
    (if n < 8 ∧ c.R.IsRV32 = true then 4 else 8))))) hi hj ?_
  intro x hx
  exact readX_keeps hx

theorem fload_refines (c : Core) (f : RevFeature) {i j : RevInst} (hi : i.instSize = 2)
    (hj : j.instSize = 4) (hrd : i.rd = j.rd) (hrs1 : i.rs1 = j.rs1)
    (himm : i.ImmSignExt 12 = j.ImmSignExt 12) (n : ℕ) :
    Refines c (c.fload f i n) (c.fload f j n) := by
  simp only [fload, readFP_congr c f hrd hrs1 himm, hrd]
  split
  · refine refines_map (g := fun R => if n < 8 then R.boxDPF j.rd else R) hi hj ?_
    intro x hx
    obtain ⟨hpc, hrv⟩ := readFP_keeps hx
    split <;> exact ⟨hpc, hrv⟩
  · exact refines_map (g := id) hi hj fun x hx => readFP_keeps hx

/-- Stores of the same bytes at the same address. -/
theorem write_refines (c : Core) {i j : RevInst} (hi : i.instSize = 2) (hj : j.instSize = 4)
    (o : Option RevMem) :
    Refines c (o.map fun M => { R := c.R.AdvancePC i, M }) (o.map fun M => { R := c.R.AdvancePC j, M }) := by
  have hmap : ∀ k : RevInst, (o.map fun M => ({ R := c.R.AdvancePC k, M } : Core)) =
      (o.map fun M => ({ R := c.R, M } : Core)).map fun x => { x with R := (id x.R).AdvancePC k } := by
    intro k
    rw [Option.map_map]
    rfl
  rw [hmap i, hmap j]
  refine refines_map hi hj ?_
  intro x hx
  obtain ⟨M, -, rfl⟩ := Option.map_eq_some_iff.mp hx
  exact ⟨rfl, rfl⟩

theorem store_refines (c : Core) (f : RevFeature) {i j : RevInst} (hi : i.instSize = 2)
    (hj : j.instSize = 4) (hrs2 : i.rs2 = j.rs2) (hrs1 : i.rs1 = j.rs1)
    (himm : i.ImmSignExt 12 = j.ImmSignExt 12) (n : ℕ) :
    Refines c (c.store f i n) (c.store f j n) := by
  simp only [store, effAddr_congr c hrs1 himm, hrs2]
  exact write_refines c hi hj _

theorem fstore_refines (c : Core) (f : RevFeature) {i j : RevInst} (hi : i.instSize = 2)
    (hj : j.instSize = 4) (hrs2 : i.rs2 = j.rs2) (hrs1 : i.rs1 = j.rs1)
    (himm : i.ImmSignExt 12 = j.ImmSignExt 12) (n : ℕ) :
    Refines c (c.fstore f i n) (c.fstore f j n) := by
  simp only [fstore, effAddr_congr c hrs1 himm, hrs2]
  exact write_refines c hi hj _

/-- The load or store of a form. -/
def access (c : Core) (f : RevFeature) (i : RevInst) : CForm → Option Core
  | .lwsp | .lw => c.load f i 4 true
  | .ldsp | .ld => c.load f i 8 true
  | .flwsp | .flw => c.fload f i 4
  | .fldsp | .fld => c.fload f i 8
  | .swsp | .sw => c.store f i 4
  | .sdsp | .sd => c.store f i 8
  | .fswsp | .fsw => c.fstore f i 4
  | .fsdsp | .fsd => c.fstore f i 8

theorem access_refines (c : Core) (f : RevFeature) {i j : RevInst} (form : CForm)
    (hi : i.instSize = 2) (hj : j.instSize = 4)
    (hdata : (if form.isLoad then i.rd else i.rs2) = if form.isLoad then j.rd else j.rs2)
    (hrs1 : i.rs1 = j.rs1) (himm : i.ImmSignExt 12 = j.ImmSignExt 12) :
    Refines c (c.access f i form) (c.access f j form) := by
  cases form with
  | lwsp | lw => exact load_refines c f hi hj hdata hrs1 himm 4 true
  | ldsp | ld => exact load_refines c f hi hj hdata hrs1 himm 8 true
  | flwsp | flw => exact fload_refines c f hi hj hdata hrs1 himm 4
  | fldsp | fld => exact fload_refines c f hi hj hdata hrs1 himm 8
  | swsp | sw => exact store_refines c f hi hj hdata hrs1 himm 4
  | sdsp | sd => exact store_refines c f hi hj hdata hrs1 himm 8
  | fswsp | fsw => exact fstore_refines c f hi hj hdata hrs1 himm 4
  | fsdsp | fsd => exact fstore_refines c f hi hj hdata hrs1 himm 8

theorem runFunc_iEntry (c : Core) (f : RevFeature) (j : RevInst) (form : CForm) :
    c.runFunc f j form.iEntry.func = c.access f j form := by
  cases form <;> rfl

/-- The implementation functions of the C extension run the access on the
    masked immediate. -/
theorem runFunc_cEntry (f : RevFeature) (i : RevInst) (form : CForm) :
    ∃ j, j.instSize = i.instSize ∧ j.rs1 = i.rs1 ∧ j.rs2 = i.rs2 ∧ j.rd = i.rd ∧
      j.imm % 2 ^ 12 = (i.imm &&& form.mask) % 2 ^ 12 ∧
      ∀ c : Core, c.runFunc f i form.cEntry.func = c.access f j form := by
  have hfull : (i.imm &&& (2 ^ 64 - 1)) % 2 ^ 12 = i.imm % 2 ^ 12 := by
    rw [Nat.and_two_pow_sub_one_eq_mod]
    omega
  cases form with
  | lwsp | ldsp | swsp | sdsp | lw | ld | sw | sd =>
    exact ⟨{ i with imm := i.imm &&& _ }, rfl, rfl, rfl, rfl, rfl, fun c => rfl⟩
  | flwsp | fldsp | fswsp | fsdsp | flw | fld | fsw | fsd =>
    exact ⟨i, rfl, rfl, rfl, rfl, hfull.symm, fun c => rfl⟩

/-- The run of a compressed load or store whose entry is in the table. -/
theorem run_form {f : RevFeature} {w : ℕ} {form : CForm} (hw : w < 2 ^ 16)
    (h : CForm.ofWord f w = some form) (hentry : (form.isSingle && f.RV_D) = false) :
    ∃ i : RevInst, i.instSize = 2 ∧ i.rs1 = form.base w ∧
      (if form.isLoad then i.rd else i.rs2) = form.data w ∧
      i.imm % 2 ^ 12 = form.imm f.IsRV64 w ∧ ∀ c : Core, c.run f w = c.access f i form := by
  obtain ⟨j, hsize, hrs1, hrs2, hrd, himm, hrun⟩ :=
    runFunc_cEntry f (decodeEntry f w form.cEntry) form
  obtain ⟨hbase, hdata⟩ := CForm.registers_eq f hw form
  have hinstSize : (decodeEntry f w form.cEntry).instSize = 2 := by cases form <;> rfl
  refine ⟨j, hsize.trans hinstSize, hrs1.trans hbase, ?_, ?_, ?_⟩
  · rw [hrd, hrs2]
    exact hdata
  · rw [himm]
    exact CForm.imm_eq f w form
  · intro c
    rw [run_compressed c (CForm.ofWord_spec h).2.1 hw (CForm.low_ne h), CForm.encCompressed_eq h,
      (CForm.find_entry h).2, hentry]
    exact hrun c

/-- A word whose entry is missing is a fatal error. -/
theorem run_missing {f : RevFeature} {w : ℕ} {form : CForm} (hw : w < 2 ^ 16)
    (h : CForm.ofWord f w = some form) (hentry : (form.isSingle && f.RV_D) = true) (c : Core) :
    c.run f w = none := by
  rw [run_compressed c (CForm.ofWord_spec h).2.1 hw (CForm.low_ne h), CForm.encCompressed_eq h,
    (CForm.find_entry h).2, hentry]
  rfl

/-- The run of the expansion. -/
theorem run_expand {f : RevFeature} {w : ℕ} {form : CForm} (h : CForm.ofWord f w = some form) :
    ∃ j : RevInst, j.instSize = 4 ∧ j.rs1 = form.base w ∧
      (if form.isLoad then j.rd else j.rs2) = form.data w ∧ j.imm = form.offset w ∧
      ∀ c : Core, c.run f (form.expand w) = c.access f j form := by
  obtain ⟨hbase, hdata, himm⟩ := CForm.expand_registers f w form
  have hinstSize : (decodeEntry f (form.expand w) form.iEntry).instSize = 4 := by
    cases form <;> rfl
  refine ⟨_, hinstSize, hbase, hdata, himm, ?_⟩
  intro c
  have hfind := (CForm.find_entry h).1
  rw [← CForm.encInst_expand w] at hfind
  rw [run_word c (CForm.expand_low w form) hfind]
  exact runFunc_iEntry c f _ form

end Core

end RevCPU
