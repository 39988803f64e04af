import Mathlib.Data.List.Perm.Subperm
import RevCPU.Mem.Tlb

namespace RevCPU.RevMem

open Lib

/-- Calls of `CalcPhysAddr`, one after another, with their results. -/
def translateAll (m : RevMem) : List ℕ → Option (List (ℕ × ℕ) × RevMem)
  | [] => some ([], m)
  | v :: vs =>
    match m.CalcPhysAddr (v / pageSize) v with
    | none => none
    | some (p, m) => (m.translateAll vs).map fun r => ((v, p) :: r.1, r.2)

/-- A memory before the first translation, with its segments inside of it. -/
structure Fresh (memSize : ℕ) (m : RevMem) : Prop where
  size : m.memSize = memSize
  tlbSize : 0 < m.tlbSize
  tlb : m.TLB = [] ∧ m.LRUQueue = []
  pages : m.pageMap = [] ∧ m.nextPage = 0
  segs : ∀ x ∈ m.MemSegs ++ m.ThreadMemSegs, x.TopAddr ≤ memSize

/-- The translations are a function, an injective one, into the memory. -/
def TranslationOk (memSize : ℕ) (results : List (ℕ × ℕ)) : Prop :=
  (∀ x ∈ results, ∀ y ∈ results, x.1 = y.1 ↔ x.2 = y.2) ∧ ∀ x ∈ results, x.2 < memSize

/-- The page table of a memory of at most `n` frames: frames have been handed out
    in the order of the pages, and the pages are inside the memory. -/
structure Paged (n : ℕ) (m : RevMem) : Prop where
  nodup : (m.pageMap.map Prod.fst).Nodup
  frames : m.pageMap.map Prod.snd = List.range m.pageMap.length
  next : m.nextPage = m.pageMap.length
  inside : ∀ e ∈ m.pageMap, e.1 < n
  segs : ∀ v, m.isValidVirtAddr v = true → v / pageSize < n

namespace Paged

variable {n : ℕ} {m : RevMem}

/-- There are no more frames than pages. -/
theorem length_le (h : m.Paged n) : m.pageMap.length ≤ n := by
  have hsub : m.pageMap.map Prod.fst ⊆ List.range n := by
    intro p hp
    obtain ⟨e, he, rfl⟩ := List.mem_map.mp hp
    exact List.mem_range.mpr (h.inside e he)
  have hle := (List.subperm_of_subset h.nodup hsub).length_le
  simpa using hle

theorem frame_lt (h : m.Paged n) {p f : ℕ} (hp : m.pageMap.lookup p = some f) : f < n := by
  have hmem : f ∈ m.pageMap.map Prod.snd := List.mem_map.mpr ⟨(p, f), mem_of_lookup hp, rfl⟩
  rw [h.frames, List.mem_range] at hmem
  exact Nat.lt_of_lt_of_le hmem h.length_le

theorem frame_inj (h : m.Paged n) {p q f : ℕ} (hp : m.pageMap.lookup p = some f)
    (hq : m.pageMap.lookup q = some f) : p = q := by
  have hnodup : (m.pageMap.map Prod.snd).Nodup := by
    rw [h.frames]
    exact List.nodup_range
  have heq := List.inj_on_of_nodup_map hnodup (mem_of_lookup hp) (mem_of_lookup hq) rfl
  exact (Prod.mk.inj heq).1

theorem mapNext (h : m.Paged n) (hn : n < 2 ^ 31) {p : ℕ} (hp : p < n)
    (hnone : m.pageMap.lookup p = none) : (m.mapNext p).Paged n := by
  have hnew : p ∉ m.pageMap.map Prod.fst := by
    intro hmem
    obtain ⟨⟨q, f⟩, he, rfl⟩ := List.mem_map.mp hmem
    rw [lookup_of_mem h.nodup he] at hnone
    simp at hnone
  have hle := h.length_le
  refine ⟨?_, ?_, ?_, ?_, h.segs⟩
  · simp only [RevMem.mapNext, List.map_append, List.map_cons, List.map_nil]
    rw [List.nodup_append]
    refine ⟨h.nodup, by simp, ?_⟩
    rintro a ha b hb rfl
    rw [List.mem_singleton.mp hb] at ha
    exact hnew ha
  · simp only [RevMem.mapNext, List.map_append, List.map_cons, List.map_nil, List.length_append,
      List.length_singleton, h.frames, h.next, List.range_succ]
  · simp only [RevMem.mapNext, List.length_append, List.length_singleton, h.next]
    exact Nat.mod_eq_of_lt (by omega)
  · intro e he
    rcases List.mem_append.mp he with he | he
    · exact h.inside e he
    · rw [List.mem_singleton.mp he]
      exact hp

theorem cache (h : m.Paged n) (v p : ℕ) : (m.AddToTLB v p).Paged n := by
  obtain ⟨T, Q, heq, -⟩ := AddToTLB_spec m v p
  rw [heq]
  exact ⟨h.nodup, h.frames, h.next, h.inside, h.segs⟩

/-- A translation is the address in the frame of its page, which stays. -/
theorem calcPhysAddr (h : m.Paged n) (hn : n < 2 ^ 31) {hist : List (ℕ × ℕ)} (hok : m.TlbOk hist)
    (hhist : ∀ c ∈ hist, c.1 = c.2 / pageSize) {v p : ℕ} {m' : RevMem}
    (hcalc : m.CalcPhysAddr (v / pageSize) v = some (p, m')) :
    m'.Paged n ∧ (∃ f, m'.pageMap.lookup (v / pageSize) = some f ∧ p = frameBase f + v % pageSize) ∧
      ∀ q f, m.pageMap.lookup q = some f → m'.pageMap.lookup q = some f := by
  cases htlb : m.TLB.lookup v with
  | some r =>
    rw [CalcPhysAddr_hit htlb (hok.ne_invalid htlb)] at hcalc
    simp only [Option.some.injEq, Prod.mk.injEq] at hcalc
    obtain ⟨rfl, rfl⟩ := hcalc
    obtain ⟨page, f, hin, hf, heq⟩ := hok.entries (v, r) (mem_of_lookup htlb)
    have hpage : page = v / pageSize := hhist _ hin
    rw [hpage] at hf
    exact ⟨⟨h.nodup, h.frames, h.next, h.inside, h.segs⟩, ⟨f, hf, heq⟩, fun _ _ hq => hq⟩
  | none =>
    cases hvalid : m.isValidVirtAddr v with
    | false => simp [CalcPhysAddr, SearchTLB, htlb, hvalid] at hcalc
    | true =>
      rw [CalcPhysAddr_miss htlb hvalid] at hcalc
      cases hpage : m.pageMap.lookup (v / pageSize) with
      | none =>
        simp only [hpage, Option.some.injEq, Prod.mk.injEq] at hcalc
        obtain ⟨rfl, rfl⟩ := hcalc
        refine ⟨(h.mapNext hn (h.segs v hvalid) hpage).cache _ _, ⟨m.nextPage, ?_, rfl⟩, ?_⟩
        · rw [AddToTLB_pageMap, RevMem.mapNext, lookup_concat hpage, if_pos rfl]
        · intro q f hq
          rw [AddToTLB_pageMap, RevMem.mapNext, lookup_concat hpage, if_neg]
          · exact hq
          · rintro rfl
            simp [hpage] at hq
      | some f =>
        simp only [hpage, Option.some.injEq, Prod.mk.injEq] at hcalc
        obtain ⟨rfl, rfl⟩ := hcalc
        refine ⟨h.cache _ _, ⟨f, ?_, rfl⟩, ?_⟩
        · rw [AddToTLB_pageMap]
          exact hpage
        · intro q g hq
          rw [AddToTLB_pageMap]
          exact hq

/-- All results of a run are the addresses in the frames of the last page
    table. -/
theorem translateAll (h : m.Paged n) (hn : n < 2 ^ 31) {hist : List (ℕ × ℕ)} (hok : m.TlbOk hist)
    (hhist : ∀ c ∈ hist, c.1 = c.2 / pageSize) {vs : List ℕ} {rs : List (ℕ × ℕ)} {m' : RevMem}
    (hall : m.translateAll vs = some (rs, m')) :
    m'.Paged n ∧ (∀ q f, m.pageMap.lookup q = some f → m'.pageMap.lookup q = some f) ∧
      ∀ x ∈ rs, ∃ f, m'.pageMap.lookup (x.1 / pageSize) = some f ∧
        x.2 = frameBase f + x.1 % pageSize := by
  induction vs generalizing m hist rs with
  | nil =>
    simp only [RevMem.translateAll, Option.some.injEq, Prod.mk.injEq] at hall
    obtain ⟨rfl, rfl⟩ := hall
    exact ⟨h, fun _ _ hq => hq, by simp⟩
  | cons v vs ih =>
    simp only [RevMem.translateAll] at hall
    cases hcalc : m.CalcPhysAddr (v / pageSize) v with
    | none => simp [hcalc] at hall
    | some r =>
      obtain ⟨p, m₁⟩ := r
      simp only [hcalc, Option.map_eq_some_iff, Prod.mk.injEq, Prod.exists] at hall
      obtain ⟨rs', m₂, hrest, rfl, rfl⟩ := hall
      obtain ⟨hpaged, ⟨f, hf, hp⟩, hold⟩ := h.calcPhysAddr hn hok hhist hcalc
      have hhist' : ∀ c ∈ (v / pageSize, v) :: hist, c.1 = c.2 / pageSize := by
        intro c hc
        rcases List.mem_cons.mp hc with rfl | hc
        · rfl
        · exact hhist c hc
      obtain ⟨hlast, hkeep, hres⟩ := ih hpaged (hok.calcPhysAddr hcalc).1 hhist' hrest
      refine ⟨hlast, fun q g hq => hkeep q g (hold q g hq), ?_⟩
      intro x hx
      rcases List.mem_cons.mp hx with rfl | hx
      · exact ⟨f, hkeep _ _ hf, hp⟩
      · exact hres x hx

end Paged

/-- The results in a page table whose frames all lie inside the memory. -/
theorem translationOk_of_frames {n memSize : ℕ} {m : RevMem} {rs : List (ℕ × ℕ)} (h : m.Paged n)
    (hn : n ≤ 2 ^ 14) (hbound : ∀ x ∈ rs, ∀ f < n, f * pageSize + x.1 % pageSize < memSize)
    (hres : ∀ x ∈ rs, ∃ f, m.pageMap.lookup (x.1 / pageSize) = some f ∧
      x.2 = frameBase f + x.1 % pageSize) : TranslationOk memSize rs := by
  have hbase : ∀ {f}, f < n → frameBase f = f * pageSize := by
    intro f hf
    refine Nat.mod_eq_of_lt ?_
    unfold pageSize
    omega
  refine ⟨?_, ?_⟩
  · intro x hx y hy
    obtain ⟨f, hf, hxf⟩ := hres x hx
    obtain ⟨g, hg, hyg⟩ := hres y hy
    constructor
    · intro heq
      rw [heq, hg, Option.some.injEq] at hf
      rw [hxf, hyg, heq, hf]
    · intro heq
      rw [hxf, hyg, hbase (h.frame_lt hf), hbase (h.frame_lt hg)] at heq
      have hframe : f = g := by
        simp only [pageSize] at heq
        omega
      subst hframe
      have hpage := h.frame_inj hf hg
      simp only [pageSize] at heq hpage
      omega
  · intro x hx
    obtain ⟨f, hf, hxf⟩ := hres x hx
    have hlt := h.frame_lt hf
    rw [hxf, hbase hlt]
    exact hbound x hx f hlt

/-- A translation leaves the segments, and its address is valid or cached. -/
theorem CalcPhysAddr_valid {m m' : RevMem} {page v p : ℕ}
    (hcalc : m.CalcPhysAddr page v = some (p, m')) :
    (m.isValidVirtAddr v = true ∨ v ∈ m.TLB.map Prod.fst) ∧
      ∀ w, m'.isValidVirtAddr w = m.isValidVirtAddr w := by
  have hadd : ∀ (m : RevMem) (v p w : ℕ),
      (m.AddToTLB v p).isValidVirtAddr w = m.isValidVirtAddr w := by
    intro m v p w
    obtain ⟨T, Q, heq, -⟩ := AddToTLB_spec m v p
    rw [heq]
    rfl
  cases htlb : m.TLB.lookup v with
  | some r =>
    refine ⟨.inr (List.mem_map.mpr ⟨(v, r), mem_of_lookup htlb, rfl⟩), ?_⟩
    intro w
    simp only [CalcPhysAddr, SearchTLB, htlb] at hcalc
    split at hcalc
    · split at hcalc
      · split at hcalc
        · simp only [Option.some.injEq, Prod.mk.injEq] at hcalc
          rw [← hcalc.2, hadd]
          rfl
        · simp only [Option.some.injEq, Prod.mk.injEq] at hcalc
          rw [← hcalc.2, hadd]
          rfl
      · simp at hcalc
    · simp only [Option.some.injEq, Prod.mk.injEq] at hcalc
      rw [← hcalc.2]
      rfl
  | none =>
    cases hvalid : m.isValidVirtAddr v with
    | false => simp [CalcPhysAddr, SearchTLB, htlb, hvalid] at hcalc
    | true =>
      refine ⟨.inl rfl, ?_⟩
      intro w
      rw [CalcPhysAddr_miss htlb hvalid] at hcalc
      split at hcalc
      · simp only [Option.some.injEq, Prod.mk.injEq] at hcalc
        rw [← hcalc.2, hadd]
        rfl
      · simp only [Option.some.injEq, Prod.mk.injEq] at hcalc
        rw [← hcalc.2, hadd]

/-- The addresses that are translated have been valid. -/
theorem translateAll_valid {m m' : RevMem} {vs : List ℕ} {rs : List (ℕ × ℕ)}
    {hist : List (ℕ × ℕ)} {P : ℕ → Prop} (hok : m.TlbOk hist) (hhist : ∀ c ∈ hist, P c.2)
    (hvalid : ∀ v, m.isValidVirtAddr v = true → P v)
    (hall : m.translateAll vs = some (rs, m')) : ∀ x ∈ rs, P x.1 := by
  induction vs generalizing m hist rs with
  | nil =>
    simp only [translateAll, Option.some.injEq, Prod.mk.injEq] at hall
    obtain ⟨rfl, rfl⟩ := hall
    simp
  | cons v vs ih =>
    simp only [translateAll] at hall
    cases hcalc : m.CalcPhysAddr (v / pageSize) v with
    | none => simp [hcalc] at hall
    | some r =>
      obtain ⟨p, m₁⟩ := r
      simp only [hcalc, Option.map_eq_some_iff, Prod.mk.injEq, Prod.exists] at hall
      obtain ⟨rs', m₂, hrest, rfl, rfl⟩ := hall
      obtain ⟨hv, hsame⟩ := CalcPhysAddr_valid hcalc
      have hP : P v := by
        rcases hv with hv | hv
        · exact hvalid v hv
        · obtain ⟨e, he, rfl⟩ := List.mem_map.mp hv
          obtain ⟨page, f, hin, -⟩ := hok.entries e he
          exact hhist _ hin
      have hhist' : ∀ c ∈ (v / pageSize, v) :: hist, P c.2 := by
        intro c hc
        rcases List.mem_cons.mp hc with rfl | hc
        · exact hP
        · exact hhist c hc
      have hrest' := ih (hok.calcPhysAddr hcalc).1 hhist'
        (fun w hw => hvalid w (by rwa [hsame] at hw)) hrest
      intro x hx
      rcases List.mem_cons.mp hx with rfl | hx
      · exact hP
      · exact hrest' x hx

theorem Fresh.tlbOk {memSize : ℕ} {m : RevMem} (h : m.Fresh memSize) : m.TlbOk [] := by
  refine ⟨h.tlbSize, ?_, ?_, ?_, ?_⟩ <;> simp [h.tlb, recent]

theorem Fresh.valid_lt {memSize : ℕ} {m : RevMem} (h : m.Fresh memSize) {v : ℕ}
    (hv : m.isValidVirtAddr v = true) : v < memSize := by
  simp only [isValidVirtAddr, Bool.or_eq_true, List.any_eq_true, MemSegment.contains,
    Bool.and_eq_true, decide_eq_true_eq] at hv
  rcases hv with ⟨x, hx, -, hlt⟩ | ⟨x, hx, -, hlt⟩
  · exact Nat.lt_of_lt_of_le hlt (h.segs x (by simp [hx]))
  · exact Nat.lt_of_lt_of_le hlt (h.segs x (by simp [hx]))

theorem Fresh.paged {memSize n : ℕ} {m : RevMem} (h : m.Fresh memSize)
    (hn : ∀ v < memSize, v / pageSize < n) : m.Paged n := by
  refine ⟨?_, ?_, ?_, ?_, fun v hv => hn v (h.valid_lt hv)⟩ <;> simp [h.pages]

/-- A memory of whole pages, or of one page, and of at most 4 GiB. -/
theorem translationOk_of_size {memSize : ℕ} (hsize : memSize ≤ 2 ^ 32)
    (hpages : pageSize ∣ memSize ∨ memSize ≤ pageSize) {m m' : RevMem} (h : m.Fresh memSize)
    {vs : List ℕ} {rs : List (ℕ × ℕ)} (hall : m.translateAll vs = some (rs, m')) :
    TranslationOk memSize rs := by
  have hvs := translateAll_valid (P := fun v => v < memSize) h.tlbOk (by simp)
    (fun v hv => h.valid_lt hv) hall
  rcases hpages with ⟨n, rfl⟩ | hone
  · have hn : n ≤ 2 ^ 14 := by
      unfold pageSize at hsize
      omega
    obtain ⟨hpaged, -, hres⟩ := (h.paged (n := n) fun v hv => by
      unfold pageSize at hv ⊢
      omega).translateAll (by omega) h.tlbOk (by simp) hall
    refine translationOk_of_frames hpaged hn ?_ hres
    intro x hx f hf
    unfold pageSize
    omega
  · obtain ⟨hpaged, -, hres⟩ := (h.paged (n := 1) fun v hv => by
      unfold pageSize at hone ⊢
      omega).translateAll (by omega) h.tlbOk (by simp) hall
    refine translationOk_of_frames hpaged (by omega) ?_ hres
    intro x hx f hf
    have hlt := hvs x hx
    unfold pageSize at hone ⊢
    omega

/-- Addresses in pages that have no frame get the next frames in their order. -/
theorem translateAll_fresh {m : RevMem} {vs : List ℕ}
    (hnew : ∀ v ∈ vs, m.isValidVirtAddr v = true ∧ m.pageMap.lookup (v / pageSize) = none ∧
      v ∉ m.TLB.map Prod.fst)
    (hpages : (vs.map (· / pageSize)).Nodup) (hnext : m.nextPage + vs.length < 2 ^ 32) :
    ∃ m', m.translateAll vs = some
      ((vs.zipIdx m.nextPage).map fun x => (x.1, frameBase x.2 + x.1 % pageSize), m') := by
  induction vs generalizing m with
  | nil => exact ⟨m, rfl⟩
  | cons v vs ih =>
    obtain ⟨hvalid, hpage, htlb⟩ := hnew v (by simp)
    have hnone : m.TLB.lookup v = none := by
      cases hlook : m.TLB.lookup v with
      | none => rfl
      | some r => exact absurd (List.mem_map.mpr ⟨(v, r), mem_of_lookup hlook, rfl⟩) htlb
    have hcalc := CalcPhysAddr_miss (p := v / pageSize) hnone hvalid
    simp only [hpage] at hcalc
    rw [List.map_cons, List.nodup_cons] at hpages
    rw [List.length_cons] at hnext
    obtain ⟨T, Q, hadd, hT⟩ := AddToTLB_spec (m.mapNext (v / pageSize)) v
      (frameBase m.nextPage + v % pageSize)
    have hstep : ((m.mapNext (v / pageSize)).AddToTLB v
        (frameBase m.nextPage + v % pageSize)).nextPage = m.nextPage + 1 := by
      rw [hadd]
      exact Nat.mod_eq_of_lt (by omega)
    have hsame := (CalcPhysAddr_valid hcalc).2
    obtain ⟨m', hrest⟩ := ih (m := (m.mapNext (v / pageSize)).AddToTLB v
        (frameBase m.nextPage + v % pageSize)) (by
      intro w hw
      obtain ⟨hwvalid, hwpage, hwtlb⟩ := hnew w (by simp [hw])
      have hne : w / pageSize ≠ v / pageSize := fun heq =>
        hpages.1 (List.mem_map.mpr ⟨w, hw, heq⟩)
      refine ⟨by rw [hsame]; exact hwvalid, ?_, ?_⟩
      · rw [AddToTLB_pageMap, mapNext, lookup_concat hpage, if_neg hne]
        exact hwpage
      · rw [hadd]
        intro hmem
        obtain ⟨e, he, rfl⟩ := List.mem_map.mp hmem
        rcases hT e he with he | rfl
        · exact hwtlb (List.mem_map.mpr ⟨e, he, rfl⟩)
        · exact hne rfl) hpages.2 (by omega)
    rw [hstep] at hrest
    refine ⟨m', ?_⟩
    simp only [translateAll, hcalc, hrest, Option.map_some, List.zipIdx_cons, List.map_cons]

/-- A memory of `memSize` bytes that is one segment. -/
def oneSegment (memSize : ℕ) : RevMem :=
  { memSize, maxHeapSize := 0, ThreadMemSize := 0, NextThreadMemAddr := 0,
    MemSegs := [⟨0, memSize, memSize, true⟩] }

theorem oneSegment_fresh (memSize : ℕ) : (oneSegment memSize).Fresh memSize := by
  refine ⟨rfl, Nat.succ_pos 511, ⟨rfl, rfl⟩, ⟨rfl, rfl⟩, ?_⟩
  intro x hx
  have heq : x = ⟨0, memSize, memSize, true⟩ := by simpa [oneSegment] using hx
  rw [heq]

theorem oneSegment_valid {memSize v : ℕ} (hv : v < memSize) :
    (oneSegment memSize).isValidVirtAddr v = true := by
  simp [isValidVirtAddr, oneSegment, MemSegment.contains, hv]

/-- The translations of addresses in different pages of such a memory. -/
theorem oneSegment_translateAll (memSize : ℕ) (vs : List ℕ) (hvs : ∀ v ∈ vs, v < memSize)
    (hpages : (vs.map (· / pageSize)).Nodup) (hlen : vs.length < 2 ^ 32) :
    ∃ m', (oneSegment memSize).translateAll vs = some
      (vs.zipIdx.map fun x => (x.1, frameBase x.2 + x.1 % pageSize), m') := by
  refine translateAll_fresh ?_ hpages ?_
  · intro v hv
    exact ⟨oneSegment_valid (hvs v hv), rfl, by simp [oneSegment]⟩
  · simpa [oneSegment] using hlen

/-- The first addresses of the first pages are in different pages. -/
theorem map_page_range (n : ℕ) :
    ((List.range n).map (· * pageSize)).map (· / pageSize) = List.range n := by
  refine List.ext_getElem (by simp) fun i hi hi' => ?_
  rw [List.getElem_map, List.getElem_map, List.getElem_range,
    Nat.mul_div_cancel _ (by decide : 0 < pageSize)]

/-- Beyond 4 GiB the shift of the frame number loses bits. -/
theorem translation_collides {memSize : ℕ} (hsize : 2 ^ 32 < memSize) :
    ∃ vs rs m', (oneSegment memSize).translateAll vs = some (rs, m') ∧ ¬TranslationOk memSize rs := by
  have hget : ∀ i < 2 ^ 14 + 1, ((List.range (2 ^ 14 + 1)).map (· * pageSize))[i]? = some (i * pageSize) := by
    intro i hi
    rw [List.getElem?_map, List.getElem?_range hi, Option.map_some]
  obtain ⟨m', hall⟩ := oneSegment_translateAll memSize
    ((List.range (2 ^ 14 + 1)).map (· * pageSize)) (by
      intro v hv
      obtain ⟨i, hi, rfl⟩ := List.mem_map.mp hv
      rw [List.mem_range] at hi
      unfold pageSize
      omega) (by
      rw [map_page_range]
      exact List.nodup_range) (by simp)
  refine ⟨_, _, m', hall, ?_⟩
  rintro ⟨hinj, -⟩
  have hmem : ∀ i < 2 ^ 14 + 1, (i * pageSize, frameBase i + i * pageSize % pageSize) ∈
      (((List.range (2 ^ 14 + 1)).map (· * pageSize)).zipIdx.map fun x =>
        (x.1, frameBase x.2 + x.1 % pageSize)) := by
    intro i hi
    exact List.mem_map.mpr ⟨(i * pageSize, i), List.mem_zipIdx_iff_getElem?.mpr (hget i hi), rfl⟩
  have hiff := hinj _ (hmem 0 (by omega)) _ (hmem (2 ^ 14) (by omega))
  have hfalse : 0 * pageSize = 2 ^ 14 * pageSize := by
    refine hiff.mpr ?_
    simp only [Nat.mul_mod_left, frameBase, pageSize]
    omega
  simp only [pageSize] at hfalse
  omega

/-- In a memory with a part of a page at its end the last frame sticks out. -/
theorem translation_outside {memSize : ℕ} (hsize : memSize ≤ 2 ^ 32) (hmore : pageSize < memSize)
    (hpart : ¬pageSize ∣ memSize) :
    ∃ vs rs m', (oneSegment memSize).translateAll vs = some (rs, m') ∧ ¬TranslationOk memSize rs := by
  obtain ⟨n, hn⟩ : ∃ n, memSize / pageSize = n + 1 := by
    refine ⟨memSize / pageSize - 1, ?_⟩
    simp only [pageSize] at *
    omega
  have hlow : (n + 1) * pageSize < memSize := by
    simp only [pageSize] at *
    omega
  have hhigh : memSize < (n + 2) * pageSize := by
    simp only [pageSize] at *
    omega
  have hframes : n + 1 < 2 ^ 14 := by
    simp only [pageSize] at *
    omega
  generalize hvs : (n + 1) * pageSize ::
    ((List.range n).map (· * pageSize) ++ [n * pageSize + (pageSize - 1)]) = vs
  obtain ⟨m', hall⟩ := oneSegment_translateAll memSize vs (by
      intro v hv
      rw [← hvs, List.mem_cons, List.mem_append, List.mem_singleton] at hv
      rcases hv with rfl | hv | rfl
      · exact hlow
      · obtain ⟨i, hi, rfl⟩ := List.mem_map.mp hv
        rw [List.mem_range] at hi
        have hle : i * pageSize ≤ (n + 1) * pageSize := Nat.mul_le_mul_right _ (by omega)
        exact Nat.lt_of_le_of_lt hle hlow
      · refine Nat.lt_of_le_of_lt ?_ hlow
        rw [Nat.succ_mul]
        exact Nat.add_le_add_left (Nat.sub_le _ _) _) (by
      have hfirst : (n + 1) * pageSize / pageSize = n + 1 := Nat.mul_div_cancel _ (by decide)
      have hlast : (n * pageSize + (pageSize - 1)) / pageSize = n := by
        simp only [pageSize]
        omega
      rw [← hvs, List.map_cons, List.map_append, map_page_range, List.map_singleton,
        hfirst, hlast, ← List.range_succ, List.nodup_cons]
      refine ⟨?_, List.nodup_range⟩
      rw [List.mem_range]
      omega) (by
      rw [← hvs]
      simp only [List.length_cons, List.length_append, List.length_map, List.length_range,
        List.length_nil]
      omega)
  refine ⟨vs, _, m', hall, ?_⟩
  rintro ⟨-, hbound⟩
  have hget : vs[n + 1]? = some (n * pageSize + (pageSize - 1)) := by
    rw [← hvs, List.getElem?_cons_succ, List.getElem?_append_right (by simp)]
    simp
  have hlt := hbound (n * pageSize + (pageSize - 1),
    frameBase (n + 1) + (n * pageSize + (pageSize - 1)) % pageSize)
    (List.mem_map.mpr ⟨(n * pageSize + (pageSize - 1), n + 1), List.mem_zipIdx_iff_getElem?.mpr hget,
      rfl⟩)
  have hbase : frameBase (n + 1) = (n + 1) * pageSize := by
    refine Nat.mod_eq_of_lt ?_
    simp only [pageSize]
    omega
  rw [hbase] at hlt
  simp only [pageSize] at *
  omega

/-- The translations of a memory are injective and in bounds for all segments
    and all calls exactly when the memory has at most 4 GiB and consists of whole
    pages or of a part of one page. -/
theorem translation_iff (memSize : ℕ) :
    (∀ m : RevMem, m.Fresh memSize → ∀ vs rs m', m.translateAll vs = some (rs, m') →
      TranslationOk memSize rs) ↔
    memSize ≤ 2 ^ 32 ∧ (pageSize ∣ memSize ∨ memSize ≤ pageSize) := by
  constructor
  · intro hall
    have hsize : memSize ≤ 2 ^ 32 := by
      by_contra hnot
      obtain ⟨vs, rs, m', hrun, hbad⟩ := translation_collides (Nat.lt_of_not_le hnot)
      exact hbad (hall _ (oneSegment_fresh memSize) vs rs m' hrun)
    refine ⟨hsize, ?_⟩
    by_contra hnot
    rw [not_or, Nat.not_le] at hnot
    obtain ⟨vs, rs, m', hrun, hbad⟩ := translation_outside hsize hnot.2 hnot.1
    exact hbad (hall _ (oneSegment_fresh memSize) vs rs m' hrun)
  · rintro ⟨hsize, hpages⟩ m hfresh vs rs m' hrun
    exact translationOk_of_size hsize hpages hfresh hrun

/-- A memory of a page and 1 KiB: the second page is touched first, and the last
    byte of the first page then lies outside. -/
theorem translation_out_of_bounds :
    ∃ m : RevMem, m.Fresh (pageSize + 1024) ∧ ∃ rs m', m.translateAll [pageSize, pageSize - 1] =
      some (rs, m') ∧ (pageSize - 1, 2 * pageSize - 1) ∈ rs ∧ ¬TranslationOk (pageSize + 1024) rs := by
  have hall : ((oneSegment (pageSize + 1024)).translateAll [pageSize, pageSize - 1]).map Prod.fst =
      some [(pageSize, 0), (pageSize - 1, 2 * pageSize - 1)] := by decide +kernel
  obtain ⟨⟨rs, m'⟩, hall, hrs⟩ := Option.map_eq_some_iff.mp hall
  simp only at hrs
  refine ⟨_, oneSegment_fresh _, rs, m', hall, by rw [hrs]; simp, ?_⟩
  rintro ⟨-, hbound⟩
  have hlt := hbound (pageSize - 1, 2 * pageSize - 1) (by rw [hrs]; simp)
  revert hlt
  decide

end RevCPU.RevMem
