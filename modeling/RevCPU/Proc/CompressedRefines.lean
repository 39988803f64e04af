import RevCPU.Mem.ReadAfterWrite
import RevCPU.Proc.CompressedRun

namespace RevCPU

open Lib

/-- A memory whose first page holds 2 at one address and 0 elsewhere. -/
def probeMem (A : ℕ) : RevMem :=
  { RevMem.pageMem with
    physMem := fun a => if a = A then 2 else 0
    pageMap := [(0, 0)]
    nextPage := 1 }

theorem probeMem_lookup (A p : ℕ) :
    (probeMem A).pageMap.lookup p = if p = 0 then some 0 else none := by
  cases p with
  | zero => rfl
  | succ p => rfl

theorem probeMem_ok {A : ℕ} (hA : A < RevMem.pageSize) : (probeMem A).PageTableOk := by
  refine ⟨rfl, RevMem.pageMem_ok.tops, ?_, ?_, by simp [probeMem, RevMem.pageMem], ?_,
    (by decide : 1 ≤ RevMem.maxFrames), Nat.mul_le_mul_right _ (by decide : 1 ≤ 4)⟩
  · intro p f hp
    rw [probeMem_lookup] at hp
    split at hp
    · simp only [Option.some.injEq] at hp
      subst hp
      exact Nat.one_pos
    · simp at hp
  · intro p q f hp hq
    rw [probeMem_lookup] at hp hq
    split at hp
    · split at hq
      · omega
      · simp at hq
    · simp at hp
  · intro a ha
    have hne : a ≠ A := by
      simp only [probeMem, Nat.one_mul] at ha
      omega
    simp [probeMem, hne]

theorem probeMem_view {A v : ℕ} (hv : v < RevMem.pageSize) :
    (probeMem A).view v = if v = A then 2 else 0 := by
  have hpage : v / RevMem.pageSize = 0 := Nat.div_eq_of_lt hv
  have hoff : v % RevMem.pageSize = v := Nat.mod_eq_of_lt hv
  simp only [RevMem.view, probeMem_lookup, hpage, if_true, hoff, Nat.zero_mul, Nat.zero_add]
  rfl

theorem probeMem_range (A : ℕ) {B N : ℕ} (hend : B + N ≤ RevMem.pageSize)
    (hstart : B < RevMem.pageSize) : (probeMem A).RangeOk B N :=
  (RevMem.pageMem_range (by omega) (by omega)).congr fun _ => rfl

theorem probeMem_room (A B N : ℕ) : (probeMem A).HasRoom (RevMem.rangePages B N) := by
  have hcard : ((RevMem.rangePages B N).filter
      fun p => (probeMem A).pageMap.lookup p = none).card ≤ 2 :=
    Nat.le_trans (Finset.card_filter_le _ _) Finset.card_le_two
  have hnext : (probeMem A).nextPage = 1 := rfl
  have hsize : (probeMem A).memSize = 4 * RevMem.pageSize := rfl
  unfold RevMem.HasRoom
  rw [hnext, hsize]
  refine ⟨?_, Nat.mul_le_mul_right _ (by omega)⟩
  unfold RevMem.maxFrames
  omega

/-- A core whose registers all hold 1, on such a memory. -/
def probe (f : RevFeature) (A : ℕ) : Core :=
  { R := { IsRV32 := f.IsRV32, HasD := f.HasD
           X := fun b => if b % (if f.IsRV32 then 4 else 8) = 0 then 1 else 0
           FP := fun _ => 1, PC := 0 }
    M := probeMem A }

theorem probe_GetX (f : RevFeature) (A : ℕ) {r : ℕ} (hr : r ≠ 0) : (probe f A).R.GetX r = 1 := by
  unfold RevRegFile.GetX
  rw [if_pos hr]
  cases hrv : f.IsRV32 with
  | true =>
    simp [probe, hrv, RevRegFile.xOff, RevRegFile.xLen, getBytes, List.range_succ, leNat]
  | false =>
    simp [probe, hrv, RevRegFile.xOff, RevRegFile.xLen, getBytes, List.range_succ, leNat]

theorem probe_effAddr (f : RevFeature) (A : ℕ) {i : RevInst} {v : ℕ} (hrs1 : i.rs1 ≠ 0)
    (hv : i.imm % 2 ^ 12 = v) (hlt : v < 2 ^ 11) : (probe f A).effAddr i = 1 + v := by
  rw [Core.effAddr_eq _ hv hlt, probe_GetX f A hrs1]
  unfold W64
  omega

/-- What a store of `n` bytes leaves in the memory of the probe. -/
theorem probe_write (f : RevFeature) {A B n : ℕ} (hA : A < RevMem.pageSize) (hB : B + n ≤ RevMem.pageSize)
    (hstart : B < RevMem.pageSize) (bytes : List UInt8) :
    ∃ M, (probe f A).M.WriteMem f.HartToExecID B n bytes = some M ∧
      ∀ u, M.view u = if B ≤ u ∧ u < B + n then bytes.getD (u - B) 0 else (probeMem A).view u := by
  obtain ⟨M, hM, -, -, -, hview⟩ := RevMem.WriteMemFlags_view (probeMem_ok hA) (probeMem_room A B n)
    (probeMem_range A hB hstart) (Finset.Subset.refl _) f.HartToExecID bytes .F_NONE
  exact ⟨M, hM, hview⟩

/-- A store of a form writes a 1 to its address, and nothing from its end on or
    before it. -/
theorem probe_store {f : RevFeature} {A v : ℕ} {form : CForm} (hform : form.isLoad = false)
    (hA : A < RevMem.pageSize) {i : RevInst} (hrs1 : i.rs1 ≠ 0)
    (hrs2 : form ∈ [.swsp, .sdsp, .sw, .sd] → i.rs2 ≠ 0) (hv : i.imm % 2 ^ 12 = v) (hlt : v < 2 ^ 11) :
    ∃ x, (probe f A).access f i form = some x ∧ x.M.view (1 + v) = 1 ∧
      ∀ u, u < 1 + v ∨ 1 + v + form.size ≤ u → x.M.view u = (probeMem A).view u := by
  have heff := probe_effAddr f A hrs1 hv hlt
  have hstore : ∀ n bytes, bytes.getD 0 0 = (1 : UInt8) → 0 < n → n ≤ 8 →
      ∃ x, (((probe f A).M.WriteMem f.HartToExecID (1 + v) n bytes).map fun M =>
          ({ R := (probe f A).R.AdvancePC i, M } : Core)) = some x ∧ x.M.view (1 + v) = 1 ∧
        ∀ u, u < 1 + v ∨ 1 + v + n ≤ u → x.M.view u = (probeMem A).view u := by
    intro n bytes hbyte hpos hle
    obtain ⟨M, hM, hview⟩ := probe_write f (n := n) (B := 1 + v) hA
      (by unfold RevMem.pageSize; omega) (by unfold RevMem.pageSize; omega) bytes
    rw [hM]
    refine ⟨_, rfl, ?_, ?_⟩
    · rw [hview, if_pos (by omega), Nat.sub_self]
      exact hbyte
    · intro u hu
      rw [hview, if_neg (by omega)]
  have hint : ∀ n, 0 < n → i.rs2 ≠ 0 → (leBytes n ((probe f A).R.GetX i.rs2)).getD 0 0 = 1 := by
    intro n hn hne
    obtain ⟨n, rfl⟩ := Nat.exists_eq_succ_of_ne_zero (by omega : n ≠ 0)
    rw [probe_GetX f A hne]
    rfl
  have hfp : ∀ n, 0 < n → ((probe f A).R.GetFP n i.rs2).getD 0 0 = 1 := by
    intro n hn
    obtain ⟨n, rfl⟩ := Nat.exists_eq_succ_of_ne_zero (by omega : n ≠ 0)
    unfold RevRegFile.GetFP
    split <;> simp [getBytes, probe, List.range_succ_eq_map]
  cases form with
  | swsp | sw =>
    simp only [Core.access, Core.store, heff]
    exact hstore 4 _ (hint 4 (by decide) (hrs2 (by decide))) (by decide) (by decide)
  | sdsp | sd =>
    simp only [Core.access, Core.store, heff]
    exact hstore 8 _ (hint 8 (by decide) (hrs2 (by decide))) (by decide) (by decide)
  | fswsp | fsw =>
    simp only [Core.access, Core.fstore, heff]
    exact hstore 4 _ (hfp 4 (by decide)) (by decide) (by decide)
  | fsdsp | fsd =>
    simp only [Core.access, Core.fstore, heff]
    exact hstore 8 _ (hfp 8 (by decide)) (by decide) (by decide)
  | _ => simp [CForm.isLoad] at hform

/-- A single-precision load puts the byte at its address into the register. -/
theorem probe_load {f : RevFeature} {A v : ℕ} (hA : A < RevMem.pageSize) {i : RevInst}
    (hrs1 : i.rs1 ≠ 0) (hv : i.imm % 2 ^ 12 = v) (hlt : v < 2 ^ 11) :
    ∃ x, (probe f A).fload f i 4 = some x ∧
      x.R.FP (if f.HasD then 8 * i.rd else 4 * i.rd) = (probeMem A).view (1 + v) := by
  have heff := probe_effAddr f A hrs1 hv hlt
  have hread : ∀ off flags, ∃ x, (probe f A).readFP f i off 4 flags = some x ∧
      x.R.FP off = (probeMem A).view (1 + v) := by
    intro off flags
    obtain ⟨M, h, heq, -, hcell⟩ := RevMem.ReadMem_view (probeMem_ok hA) (probeMem_room A (1 + v) 4)
      (probeMem_range A (by unfold RevMem.pageSize; omega) (by unfold RevMem.pageSize; omega))
      (Finset.Subset.refl _) ⟨fun _ j => (probe f A).R.FP (off + j), []⟩ f.HartToExecID (256 + off)
      ((probe f A).loadReq f i .RegFLOAT) flags
    have haddr : ((probe f A).loadReq f i .RegFLOAT).Addr = 1 + v := heff
    have hM : (probe f A).M = probeMem A := rfl
    unfold Core.readFP
    simp only [haddr, hM, heq, Option.map_some]
    refine ⟨_, rfl, ?_⟩
    simp [setBytes, Host.read, List.range_succ_eq_map, hcell 0 (by decide)]
  unfold Core.fload
  by_cases hD : f.HasD = true
  · obtain ⟨x, hx, hbyte⟩ := hread (8 * i.rd) .F_BOXNAN
    rw [if_pos (.inr hD), if_pos hD]
    simp only [(by decide : (4 : ℕ) < 8), if_true, hx, Option.map_some]
    refine ⟨_, rfl, ?_⟩
    simp only [RevRegFile.AdvancePC, RevRegFile.boxDPF, setBytes]
    rw [if_neg (by omega)]
    exact hbyte
  · obtain ⟨x, hx, hbyte⟩ := hread (4 * i.rd) .F_NONE
    rw [if_neg (by simp [hD]), if_neg hD, hx]
    exact ⟨_, rfl, hbyte⟩

namespace CForm

/-- The words that the decoder serves: its table has the entry, and none of the
    bits of the offset that it misplaces are set. -/
def Served (f : RevFeature) (w : ℕ) : CForm → Prop
  | sw => cbits w 12 10 = 0
  | fsd => f.IsRV64 = true ∨ cbits w 6 5 = 0
  | fsw => f.RV_D = false ∧ cbits w 6 5 = 0
  | flwsp => f.RV_D = false ∧ cbits w 6 6 = 0
  | flw | fswsp => f.RV_D = false
  | _ => True

theorem served_iff (f : RevFeature) (w : ℕ) (form : CForm) :
    form.Served f w ↔ (form.isSingle && f.RV_D) = false ∧ form.Kept f.IsRV64 w = true := by
  cases form <;> simp [Served, isSingle, Kept]

theorem base_ne_zero (w : ℕ) (form : CForm) : form.base w ≠ 0 := by
  cases form <;> simp [base]

/-- The stores that are not served use the registers from 8 on. -/
theorem data_ne_zero {rv64 : Bool} {w : ℕ} {form : CForm} (hstore : form.isLoad = false)
    (hkept : form.Kept rv64 w = false) : form.data w ≠ 0 := by
  cases form <;> simp_all [data, isLoad, Kept]

end CForm

namespace Core

theorem same_of_refines {c x y : Core} {a b : Option Core} (h : Refines c a b) (ha : a = some x)
    (hb : b = some y) : x.M = y.M ∧ x.R.FP = y.R.FP := by
  have hsame := h.same
  rw [ha, hb] at hsame
  simp only [Option.map_some, Option.some.injEq, dropPC, Core.mk.injEq, RevRegFile.mk.injEq] at hsame
  exact ⟨hsame.2, hsame.1.2.2.2.1⟩

/-- A fatal error does not refine a load or store that succeeds. -/
theorem refines_missing {f : RevFeature} {w : ℕ} {form : CForm} (hw : w < 2 ^ 16)
    (h : CForm.ofWord f w = some form) (hentry : (form.isSingle && f.RV_D) = true) :
    ¬Refines (probe f 0) ((probe f 0).run f w) ((probe f 0).run f (form.expand w)) := by
  intro hrefines
  obtain ⟨j, -, hrs1, hdata, himm, hrun⟩ := run_expand h
  have hj : j.imm % 2 ^ 12 = form.offset w := by
    have hlt := CForm.offset_lt w form
    omega
  have hbase : j.rs1 ≠ 0 := by
    rw [hrs1]
    exact CForm.base_ne_zero w form
  have hsame := hrefines.same
  rw [run_missing hw h hentry, hrun] at hsame
  have hnone : (probe f 0).access f j form = none := by
    cases hx : (probe f 0).access f j form with
    | none => rfl
    | some x => simp [hx] at hsame
  have hsingle : form.isSingle = true := ((Bool.and_eq_true _ _).mp hentry).1
  cases hload : form.isLoad with
  | true =>
    have haccess : (probe f 0).access f j form = (probe f 0).fload f j 4 := by
      cases form <;> first | rfl | simp_all [CForm.isSingle, CForm.isLoad]
    obtain ⟨x, hx, -⟩ := probe_load (f := f) (by decide : 0 < RevMem.pageSize) hbase hj
      (CForm.offset_lt w form)
    simp [haccess, hx] at hnone
  | false =>
    have hfloat : form ∉ [.swsp, .sdsp, .sw, .sd] := by
      cases form <;> simp_all [CForm.isSingle]
    obtain ⟨x, hx, -⟩ := probe_store (f := f) hload (by decide : 0 < RevMem.pageSize) hbase
      (fun hmem => absurd hmem hfloat) hj (CForm.offset_lt w form)
    simp [hx] at hnone

/-- With a misplaced bit of the offset the two runs use bytes that are apart. -/
theorem refines_misplaced {f : RevFeature} {w : ℕ} {form : CForm} (hw : w < 2 ^ 16)
    (h : CForm.ofWord f w = some form) (hentry : (form.isSingle && f.RV_D) = false)
    (hkept : form.Kept f.IsRV64 w = false) :
    ¬Refines (probe f (1 + form.offset w)) ((probe f (1 + form.offset w)).run f w)
      ((probe f (1 + form.offset w)).run f (form.expand w)) := by
  intro hrefines
  obtain ⟨i, -, hrs1, hdata, himm, hrun⟩ := run_form hw h hentry
  obtain ⟨j, -, hrs1', hdata', himm', hrun'⟩ := run_expand h
  obtain ⟨hvlt, -, hapart⟩ := CForm.imm_spec hw h
  have hlt := CForm.offset_lt w form
  have hj : j.imm % 2 ^ 12 = form.offset w := by omega
  have hbase := CForm.base_ne_zero w form
  have hA : 1 + form.offset w < RevMem.pageSize := by
    unfold RevMem.pageSize
    omega
  have hview : (probeMem (1 + form.offset w)).view (1 + form.offset w) = 2 := by
    rw [probeMem_view hA, if_pos rfl]
  specialize hapart hkept
  cases hload : form.isLoad with
  | true =>
    have hform : form = .flwsp := by
      cases form <;> simp_all [CForm.isLoad, CForm.Kept]
    subst hform
    obtain ⟨x, hx, hbyte⟩ := probe_load (f := f) hA (hrs1 ▸ hbase) himm hvlt
    obtain ⟨y, hy, hbyte'⟩ := probe_load (f := f) hA (hrs1' ▸ hbase) hj hlt
    have hFP := (same_of_refines hrefines ((hrun _).trans hx) ((hrun' _).trans hy)).2
    have hrd : i.rd = j.rd := hdata.trans hdata'.symm
    rw [hFP, hrd, hbyte', hview, probeMem_view (by unfold RevMem.pageSize; omega), if_neg] at hbyte
    · simp at hbyte
    · simp only [CForm.size] at hapart
      omega
  | false =>
    have hdata_ne := CForm.data_ne_zero hload hkept
    rw [hload] at hdata hdata'
    simp only [Bool.false_eq_true, if_false] at hdata hdata'
    obtain ⟨x, hx, -, hframe⟩ := probe_store (f := f) hload hA (hrs1 ▸ hbase)
      (fun _ => hdata ▸ hdata_ne) himm hvlt
    obtain ⟨y, hy, hbyte, -⟩ := probe_store (f := f) hload hA (hrs1' ▸ hbase)
      (fun _ => hdata' ▸ hdata_ne) hj hlt
    have hM := (same_of_refines hrefines ((hrun _).trans hx) ((hrun' _).trans hy)).1
    rw [← hM, hframe _ (by omega), hview] at hbyte
    simp at hbyte

/-- A compressed load or store refines its expansion, on every register file and
    every memory of the machine, exactly when the decoder serves the word. -/
theorem compressed_refines {f : RevFeature} {w : ℕ} {form : CForm} (hw : w < 2 ^ 16)
    (h : CForm.ofWord f w = some form) :
    (∀ c : Core, c.R.IsRV32 = f.IsRV32 → c.R.HasD = f.HasD →
      Refines c (c.run f w) (c.run f (form.expand w))) ↔ form.Served f w := by
  rw [CForm.served_iff]
  constructor
  · intro hall
    cases hentry : form.isSingle && f.RV_D with
    | true => exact absurd (hall (probe f 0) rfl rfl) (refines_missing hw h hentry)
    | false =>
      refine ⟨rfl, ?_⟩
      cases hkept : form.Kept f.IsRV64 w with
      | true => rfl
      | false =>
        exact absurd (hall (probe f (1 + form.offset w)) rfl rfl) (refines_misplaced hw h hentry hkept)
  · intro ⟨hentry, hkept⟩ c hRV hD
    obtain ⟨i, hsize, hrs1, hdata, himm, hrun⟩ := run_form hw h hentry
    obtain ⟨j, hsize', hrs1', hdata', himm', hrun'⟩ := run_expand h
    obtain ⟨hvlt, heq, -⟩ := CForm.imm_spec hw h
    have hlt := CForm.offset_lt w form
    have hext : i.ImmSignExt 12 = j.ImmSignExt 12 := by
      rw [ImmSignExt_eq (himm.trans (heq hkept)) hlt, ImmSignExt_eq (i := j) _ hlt]
      omega
    rw [hrun, hrun']
    exact access_refines c f form hsize hsize' (hdata.trans hdata'.symm) (hrs1.trans hrs1'.symm) hext

theorem compressed_refines_lwsp :
    CForm.ofWord { IsRV64 := true } 0x4502 = some .lwsp ∧ CForm.expand 0x4502 .lwsp = 0x00012503 ∧
    ∀ c : Core, c.R.IsRV32 = false → c.R.HasD = false →
      Refines c (c.run { IsRV64 := true } 0x4502) (c.run { IsRV64 := true } 0x00012503) :=
  ⟨by decide, by decide, (compressed_refines (f := { IsRV64 := true }) (w := 0x4502) (by decide)
    (by decide : CForm.ofWord { IsRV64 := true } 0x4502 = some .lwsp)).mpr trivial⟩

/-- `c.sw x9, 8(x8)` stores to the address that is 16 above `x8`. -/
theorem csw_misplaced :
    CForm.ofWord { IsRV64 := true } 0xc404 = some .sw ∧ CForm.expand 0xc404 .sw = 0x00942423 ∧
    ((probe { IsRV64 := true } 9).run { IsRV64 := true } 0xc404).map (fun c => [c.M.view 9, c.M.view 17]) =
      some [2, 1] ∧
    ((probe { IsRV64 := true } 9).run { IsRV64 := true } 0x00942423).map
      (fun c => [c.M.view 9, c.M.view 17]) = some [1, 0] ∧
    ¬Refines (probe { IsRV64 := true } 9) ((probe { IsRV64 := true } 9).run { IsRV64 := true } 0xc404)
      ((probe { IsRV64 := true } 9).run { IsRV64 := true } 0x00942423) := by
  refine ⟨by decide, by decide, by decide +kernel, by decide +kernel, ?_⟩
  exact refines_misplaced (f := { IsRV64 := true }) (w := 0xc404) (by decide)
    (by decide : CForm.ofWord { IsRV64 := true } 0xc404 = some .sw) rfl rfl

end Core

end RevCPU
