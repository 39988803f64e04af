import Mathlib.Data.Finset.Card
import RevCPU.Lib.Assoc
import RevCPU.Mem.Access

namespace RevCPU.RevMem

open Lib

/-- The frames whose end `pageMap[...].first << addrShift` and the addition of
    `pageSize` still give in 32 bits. -/
def maxFrames : ℕ := 2 ^ 14 - 1

/-- The states of the page table and the TLB without a controller: pages have
    frames of their own inside the backing memory, the TLB agrees with the page
    table, and the frames not handed out are zero. -/
structure PageTableOk (m : RevMem) : Prop where
  ctrl : m.ctrl = none
  tops : ∀ x ∈ m.MemSegs ++ m.ThreadMemSegs, x.TopAddr < W64
  frame_lt : ∀ p f, m.pageMap.lookup p = some f → f < m.nextPage
  frame_inj : ∀ p q f, m.pageMap.lookup p = some f → m.pageMap.lookup q = some f → p = q
  tlb : ∀ e ∈ m.TLB, ∃ f, m.pageMap.lookup (e.1 / pageSize) = some f ∧
    e.2 = f * pageSize + e.1 % pageSize
  fresh : ∀ a, m.nextPage * pageSize ≤ a → m.physMem a = 0
  inside : m.nextPage ≤ maxFrames ∧ m.nextPage * pageSize ≤ m.memSize

/-- The byte stored at a virtual address. -/
def view (m : RevMem) (v : ℕ) : UInt8 :=
  match m.pageMap.lookup (v / pageSize) with
  | some f => m.physMem (f * pageSize + v % pageSize)
  | none => 0

/-- There are frames for those of the pages that have none. -/
def HasRoom (m : RevMem) (pages : Finset ℕ) : Prop :=
  m.nextPage + (pages.filter fun p => m.pageMap.lookup p = none).card ≤ maxFrames ∧
    (m.nextPage + (pages.filter fun p => m.pageMap.lookup p = none).card) * pageSize ≤ m.memSize

/-- What a translation leaves: the page table may have grown by fresh frames. -/
structure Mapped (m m' : RevMem) : Prop where
  ok : m'.PageTableOk
  phys : m'.physMem = m.physMem
  size : m'.memSize = m.memSize
  segs : m'.MemSegs = m.MemSegs
  threads : m'.ThreadMemSegs = m.ThreadMemSegs
  old : ∀ p f, m.pageMap.lookup p = some f → m'.pageMap.lookup p = some f
  new : ∀ p f, m'.pageMap.lookup p = some f → m.pageMap.lookup p = none → m.nextPage ≤ f
  next_le : m.nextPage ≤ m'.nextPage

namespace Mapped

theorem trans {m₁ m₂ m₃ : RevMem} (h₁ : Mapped m₁ m₂) (h₂ : Mapped m₂ m₃) : Mapped m₁ m₃ := by
  refine ⟨h₂.ok, h₂.phys.trans h₁.phys, h₂.size.trans h₁.size, h₂.segs.trans h₁.segs,
    h₂.threads.trans h₁.threads, fun p f hp => h₂.old p f (h₁.old p f hp), ?_,
    Nat.le_trans h₁.next_le h₂.next_le⟩
  intro p f hp hnone
  cases hmid : m₂.pageMap.lookup p with
  | none => exact Nat.le_trans h₁.next_le (h₂.new p f hp hmid)
  | some g =>
    have heq : g = f := by simpa [h₂.old p g hmid] using hp
    rw [← heq]
    exact h₁.new p g hmid hnone

theorem valid_eq {m m' : RevMem} (h : Mapped m m') (v : ℕ) :
    m'.isValidVirtAddr v = m.isValidVirtAddr v := by
  unfold isValidVirtAddr
  rw [h.segs, h.threads]

/-- A translation stores no byte. -/
theorem view_eq {m m' : RevMem} (h : Mapped m m') (hok : m.PageTableOk) (v : ℕ) :
    m'.view v = m.view v := by
  unfold view
  cases hold : m.pageMap.lookup (v / pageSize) with
  | some f => simp only [h.old _ _ hold, h.phys]
  | none =>
    cases hnew : m'.pageMap.lookup (v / pageSize) with
    | none => rfl
    | some f =>
      have hle := h.new _ _ hnew hold
      simp only [h.phys]
      refine hok.fresh _ (Nat.le_trans (Nat.mul_le_mul_right pageSize hle) ?_)
      omega

end Mapped

theorem PageTableOk.mapped {m : RevMem} (h : m.PageTableOk) : Mapped m m :=
  ⟨h, rfl, rfl, rfl, rfl, fun _ _ hp => hp, by simp +contextual, Nat.le_refl _⟩

/-- The TLB gets at most the new translation. -/
theorem AddToTLB_spec (m : RevMem) (v p : ℕ) :
    ∃ T Q, m.AddToTLB v p = { m with TLB := T, LRUQueue := Q } ∧
      ∀ e ∈ T, e ∈ m.TLB ∨ e = (v, p) := by
  unfold AddToTLB
  split
  · refine ⟨_, _, rfl, ?_⟩
    intro e he
    obtain ⟨e', he', heq⟩ := List.mem_map.mp he
    split at heq
    · exact .inr heq.symm
    · rw [← heq]
      exact .inl he'
  · split
    · refine ⟨_, _, rfl, ?_⟩
      intro e he
      rcases List.mem_append.mp he with he | he
      · exact .inl (List.mem_of_mem_eraseP he)
      · exact .inr (List.mem_singleton.mp he)
    · refine ⟨_, _, rfl, ?_⟩
      intro e he
      rcases List.mem_append.mp he with he | he
      · exact .inl he
      · exact .inr (List.mem_singleton.mp he)

theorem Mapped.cache {m m' : RevMem} (h : Mapped m m') {v f : ℕ}
    (hf : m'.pageMap.lookup (v / pageSize) = some f) :
    Mapped m (m'.AddToTLB v (f * pageSize + v % pageSize)) := by
  obtain ⟨T, Q, heq, hmem⟩ := AddToTLB_spec m' v (f * pageSize + v % pageSize)
  rw [heq]
  refine ⟨⟨h.ok.ctrl, h.ok.tops, h.ok.frame_lt, h.ok.frame_inj, ?_, h.ok.fresh, h.ok.inside⟩,
    h.phys, h.size, h.segs, h.threads, h.old, h.new, h.next_le⟩
  intro e he
  rcases hmem e he with he | rfl
  · exact h.ok.tlb e he
  · exact ⟨f, hf, rfl⟩

theorem frameBase_eq {f : ℕ} (hf : f < maxFrames) : frameBase f = f * pageSize := by
  unfold frameBase
  refine Nat.mod_eq_of_lt ?_
  unfold maxFrames at hf
  unfold pageSize
  omega

theorem lookup_concat {m : List (ℕ × ℕ)} {p q f : ℕ} (hnone : m.lookup p = none) :
    (m ++ [(p, f)]).lookup q = if q = p then some f else m.lookup q := by
  rw [List.lookup_append]
  by_cases hq : q = p
  · rw [if_pos hq, hq, hnone]
    simp
  · have hbeq : (q == p) = false := by simpa using hq
    rw [if_neg hq]
    simp [List.lookup_cons, hbeq]

/-- A page that has no frame takes one of the frames that there is room for. -/
theorem HasRoom.card_pos {m : RevMem} {pages : Finset ℕ} {p : ℕ} (hp : p ∈ pages)
    (hnone : m.pageMap.lookup p = none) :
    0 < (pages.filter fun p => m.pageMap.lookup p = none).card :=
  Finset.card_pos.mpr ⟨p, Finset.mem_filter.mpr ⟨hp, hnone⟩⟩

/-- The state in which the next frame is given to a page. -/
def mapNext (m : RevMem) (p : ℕ) : RevMem :=
  { m with pageMap := m.pageMap ++ [(p, m.nextPage)], nextPage := (m.nextPage + 1) % 2 ^ 32 }

theorem HasRoom.next_eq {m : RevMem} {pages : Finset ℕ} (h : m.HasRoom pages) {p : ℕ}
    (hp : p ∈ pages) (hnone : m.pageMap.lookup p = none) :
    (m.nextPage + 1) % 2 ^ 32 = m.nextPage + 1 := by
  have hpos := HasRoom.card_pos hp hnone
  have hle := h.1
  unfold maxFrames at hle
  exact Nat.mod_eq_of_lt (by omega)

theorem HasRoom.mapNext {m : RevMem} {pages : Finset ℕ} (h : m.HasRoom pages) {p : ℕ}
    (hp : p ∈ pages) (hnone : m.pageMap.lookup p = none) : (m.mapNext p).HasRoom pages := by
  have hpos := HasRoom.card_pos hp hnone
  have hfilter : (pages.filter fun q => (m.mapNext p).pageMap.lookup q = none) =
      (pages.filter fun q => m.pageMap.lookup q = none).erase p := by
    ext q
    simp only [RevMem.mapNext, lookup_concat hnone, Finset.mem_filter, Finset.mem_erase]
    by_cases hq : q = p
    · simp [hq]
    · simp [hq]
  have hmem : p ∈ pages.filter fun q => m.pageMap.lookup q = none :=
    Finset.mem_filter.mpr ⟨hp, hnone⟩
  have hcard := Finset.card_erase_of_mem hmem
  have hnext : (m.mapNext p).nextPage = m.nextPage + 1 := h.next_eq hp hnone
  have hsum : (m.mapNext p).nextPage +
      (pages.filter fun q => (m.mapNext p).pageMap.lookup q = none).card =
      m.nextPage + (pages.filter fun q => m.pageMap.lookup q = none).card := by
    rw [hfilter, hcard, hnext]
    omega
  unfold HasRoom
  rw [hsum]
  exact h

theorem PageTableOk.mapNext {m : RevMem} (h : m.PageTableOk) {pages : Finset ℕ}
    (hroom : m.HasRoom pages) {p : ℕ} (hp : p ∈ pages) (hnone : m.pageMap.lookup p = none) :
    Mapped m (m.mapNext p) := by
  have hpos := HasRoom.card_pos hp hnone
  have hnext : (m.mapNext p).nextPage = m.nextPage + 1 := hroom.next_eq hp hnone
  have hlookup : ∀ q, (m.mapNext p).pageMap.lookup q =
      if q = p then some m.nextPage else m.pageMap.lookup q := fun q => lookup_concat hnone
  refine ⟨⟨h.ctrl, h.tops, ?_, ?_, ?_, ?_, ?_⟩, rfl, rfl, rfl, rfl, ?_, ?_, by omega⟩
  · intro q f hq
    rw [hlookup] at hq
    split at hq
    · simp only [Option.some.injEq] at hq
      omega
    · have hlt := h.frame_lt q f hq
      omega
  · intro q r f hq hr
    rw [hlookup] at hq hr
    split at hq <;> split at hr
    · omega
    · have hlt := h.frame_lt r f hr
      simp only [Option.some.injEq] at hq
      omega
    · have hlt := h.frame_lt q f hq
      simp only [Option.some.injEq] at hr
      omega
    · exact h.frame_inj q r f hq hr
  · intro e he
    obtain ⟨f, hf, heq⟩ := h.tlb e he
    refine ⟨f, ?_, heq⟩
    rw [hlookup, if_neg]
    · exact hf
    · intro hq
      rw [hq, hnone] at hf
      simp at hf
  · intro a ha
    rw [hnext] at ha
    refine h.fresh a (Nat.le_trans ?_ ha)
    exact Nat.mul_le_mul_right pageSize (by omega)
  · rw [hnext]
    refine ⟨by have := hroom.1; omega, Nat.le_trans ?_ hroom.2⟩
    exact Nat.mul_le_mul_right pageSize (by omega)
  · intro q f hq
    rw [hlookup, if_neg]
    · exact hq
    · rintro rfl
      simp [hnone] at hq
  · intro q f hq hq'
    rw [hlookup] at hq
    split at hq
    · simp only [Option.some.injEq] at hq
      omega
    · simp [hq'] at hq

theorem CalcPhysAddr_hit {m : RevMem} {p v r : ℕ} (htlb : m.TLB.lookup v = some r)
    (hne : r ≠ INVALID_ADDR) :
    m.CalcPhysAddr p v = some (r, { m with LRUQueue := v :: m.LRUQueue.erase v }) := by
  unfold CalcPhysAddr SearchTLB
  simp only [htlb, if_neg hne]

theorem CalcPhysAddr_miss {m : RevMem} {p v : ℕ} (htlb : m.TLB.lookup v = none)
    (hvalid : m.isValidVirtAddr v = true) :
    m.CalcPhysAddr p v =
      match m.pageMap.lookup p with
      | none =>
        some (frameBase m.nextPage + v % pageSize,
          (m.mapNext p).AddToTLB v (frameBase m.nextPage + v % pageSize))
      | some f =>
        some (frameBase f + v % pageSize, m.AddToTLB v (frameBase f + v % pageSize)) := by
  unfold CalcPhysAddr SearchTLB
  simp only [htlb, hvalid, if_true]
  rfl

theorem HasRoom.of_pageMap {m m' : RevMem} {pages : Finset ℕ} (h : m.HasRoom pages)
    (hmap : m'.pageMap = m.pageMap) (hnext : m'.nextPage = m.nextPage)
    (hsize : m'.memSize = m.memSize) : m'.HasRoom pages := by
  unfold HasRoom
  rw [hmap, hnext, hsize]
  exact h

theorem HasRoom.cache {m : RevMem} {pages : Finset ℕ} (h : m.HasRoom pages) (v p : ℕ) :
    (m.AddToTLB v p).HasRoom pages := by
  obtain ⟨T, Q, heq, -⟩ := AddToTLB_spec m v p
  rw [heq]
  exact h

@[simp] theorem AddToTLB_pageMap (m : RevMem) (v p : ℕ) :
    (m.AddToTLB v p).pageMap = m.pageMap := by
  obtain ⟨T, Q, heq, -⟩ := AddToTLB_spec m v p
  rw [heq]

/-- The translation of a valid address: the address in the frame of its page. -/
theorem CalcPhysAddr_mapped {m : RevMem} (h : m.PageTableOk) {pages : Finset ℕ}
    (hroom : m.HasRoom pages) {v : ℕ} (hp : v / pageSize ∈ pages)
    (hvalid : m.isValidVirtAddr v = true) :
    ∃ f m', m.CalcPhysAddr (v / pageSize) v = some (f * pageSize + v % pageSize, m') ∧
      m'.pageMap.lookup (v / pageSize) = some f ∧ Mapped m m' ∧ m'.HasRoom pages := by
  cases htlb : m.TLB.lookup v with
  | some r =>
    obtain ⟨f, hf, heq : r = f * pageSize + v % pageSize⟩ := h.tlb (v, r) (mem_of_lookup htlb)
    have hlt := h.frame_lt _ _ hf
    have hinside := h.inside.1
    have hne : r ≠ INVALID_ADDR := by
      simp only [maxFrames, pageSize, INVALID_ADDR, W64] at *
      omega
    refine ⟨f, { m with LRUQueue := v :: m.LRUQueue.erase v }, ?_, hf, ?_, hroom⟩
    · rw [CalcPhysAddr_hit htlb hne, heq]
    · exact ⟨⟨h.ctrl, h.tops, h.frame_lt, h.frame_inj, h.tlb, h.fresh, h.inside⟩, rfl, rfl, rfl,
        rfl, h.mapped.old, h.mapped.new, Nat.le_refl _⟩
  | none =>
    rw [CalcPhysAddr_miss htlb hvalid]
    cases hmap : m.pageMap.lookup (v / pageSize) with
    | none =>
      have hpos := HasRoom.card_pos hp hmap
      have hbase : frameBase m.nextPage = m.nextPage * pageSize :=
        frameBase_eq (by have := hroom.1; omega)
      have hfound : (m.mapNext (v / pageSize)).pageMap.lookup (v / pageSize) = some m.nextPage := by
        simp only [mapNext, lookup_concat hmap, if_true]
      simp only [hbase]
      refine ⟨m.nextPage, _, rfl, ?_, (h.mapNext hroom hp hmap).cache hfound,
        (hroom.mapNext hp hmap).cache _ _⟩
      rw [AddToTLB_pageMap]
      exact hfound
    | some f =>
      have hbase : frameBase f = f * pageSize := by
        refine frameBase_eq ?_
        have hlt := h.frame_lt _ _ hmap
        have hinside := h.inside.1
        omega
      simp only [hbase]
      refine ⟨f, _, rfl, ?_, h.mapped.cache hmap, hroom.cache _ _⟩
      rw [AddToTLB_pageMap]
      exact hmap

end RevCPU.RevMem
