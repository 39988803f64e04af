import RevCPU.Lib.Recency
import RevCPU.Mem.PageTable

namespace RevCPU.RevMem

open Lib

theorem AddToTLB_tlbSize (m : RevMem) (v p : ℕ) : (m.AddToTLB v p).tlbSize = m.tlbSize := by
  obtain ⟨T, Q, heq, -⟩ := AddToTLB_spec m v p
  rw [heq]

/-- The TLB after the calls of a history, the latest first: its keys are the
    queue, which holds the most recently used addresses in their order, and its
    translations are those of the page table. -/
structure TlbOk (m : RevMem) (hist : List (ℕ × ℕ)) : Prop where
  size : 0 < m.tlbSize
  keys : (m.TLB.map Prod.fst).Nodup
  members : ∀ v, v ∈ m.TLB.map Prod.fst ↔ v ∈ m.LRUQueue
  queue : m.LRUQueue = (recent (hist.map Prod.snd)).take m.tlbSize
  entries : ∀ e ∈ m.TLB, ∃ page f, (page, e.1) ∈ hist ∧ m.pageMap.lookup page = some f ∧
    e.2 = frameBase f + e.1 % pageSize

namespace TlbOk

variable {m : RevMem} {hist : List (ℕ × ℕ)}

theorem queue_nodup (h : m.TlbOk hist) : m.LRUQueue.Nodup := by
  rw [h.queue]
  exact (recent_nodup _).sublist (List.take_sublist _ _)

theorem lookup_iff (h : m.TlbOk hist) {v : ℕ} : (∃ p, m.TLB.lookup v = some p) ↔ v ∈ m.LRUQueue := by
  rw [← h.members]
  constructor
  · rintro ⟨p, hp⟩
    exact List.mem_map.mpr ⟨(v, p), mem_of_lookup hp, rfl⟩
  · intro hv
    obtain ⟨⟨v', p⟩, he, rfl⟩ := List.mem_map.mp hv
    exact ⟨p, lookup_of_mem h.keys he⟩

theorem mem_of_mem_queue {v : ℕ} (h : m.TlbOk hist) (hv : v ∈ m.LRUQueue) :
    v ∈ recent (hist.map Prod.snd) := by
  rw [h.queue] at hv
  exact List.mem_of_mem_take hv

/-- A cached translation is not `INVALID_ADDR`. -/
theorem ne_invalid (h : m.TlbOk hist) {v p : ℕ} (hp : m.TLB.lookup v = some p) : p ≠ INVALID_ADDR := by
  obtain ⟨page, f, -, -, heq⟩ := h.entries (v, p) (mem_of_lookup hp)
  have hbase : frameBase f < 2 ^ 32 := Nat.mod_lt _ (by decide)
  have hoff : v % pageSize < pageSize := Nat.mod_lt _ (by decide)
  simp only at heq
  simp only [pageSize, INVALID_ADDR, W64] at *
  omega

/-- A hit moves the address to the front. -/
theorem hit (h : m.TlbOk hist) {v p : ℕ} (page : ℕ) (hp : m.TLB.lookup v = some p) :
    TlbOk { m with LRUQueue := v :: m.LRUQueue.erase v } ((page, v) :: hist) := by
  have hv : v ∈ m.LRUQueue := h.lookup_iff.mp ⟨p, hp⟩
  refine ⟨h.size, h.keys, ?_, ?_, ?_⟩
  · intro u
    rw [h.members]
    by_cases hu : u = v
    · simp [hu, hv]
    · simp [hu, List.mem_erase_of_ne]
  · have htake := take_touch_hit (h.queue ▸ hv)
    simp only [List.map_cons, recent]
    rw [htake, ← h.queue]
    rfl
  · intro e he
    obtain ⟨q, f, hq, hf, heq⟩ := h.entries e he
    exact ⟨q, f, List.mem_cons_of_mem _ hq, hf, heq⟩

/-- A miss inserts the address and evicts the last one of a full queue. -/
theorem insert (h : m.TlbOk hist) {page v f : ℕ} (hv : m.TLB.lookup v = none)
    (hf : m.pageMap.lookup page = some f) :
    (m.AddToTLB v (frameBase f + v % pageSize)).TlbOk ((page, v) :: hist) := by
  have hnot : v ∉ m.LRUQueue := by
    rw [← h.lookup_iff, hv]
    simp
  have hmap : v ∉ m.TLB.map Prod.fst := by
    rw [h.members]
    exact hnot
  obtain ⟨n, hn⟩ : ∃ n, m.tlbSize = n + 1 := ⟨m.tlbSize - 1, by have := h.size; omega⟩
  have hentry : ∀ e, e ∈ m.TLB ∨ e = (v, frameBase f + v % pageSize) → ∃ q g,
      (q, e.1) ∈ (page, v) :: hist ∧ m.pageMap.lookup q = some g ∧
        e.2 = frameBase g + e.1 % pageSize := by
    rintro e (he | rfl)
    · obtain ⟨q, g, hq, hg, heq⟩ := h.entries e he
      exact ⟨q, g, List.mem_cons_of_mem _ hq, hg, heq⟩
    · exact ⟨page, f, List.mem_cons_self, hf, rfl⟩
  have htake : (recent (((page, v) :: hist).map Prod.snd)).take m.tlbSize =
      v :: (recent (hist.map Prod.snd)).take n := by
    simp only [List.map_cons, recent, hn]
    refine take_touch_miss ?_
    rw [← hn, ← h.queue]
    exact hnot
  unfold AddToTLB
  rw [hv]
  simp only
  by_cases hfull : m.LRUQueue.length = m.tlbSize
  · rw [if_pos hfull]
    have hne : m.LRUQueue ≠ [] := by
      intro hnil
      rw [hnil] at hfull
      simp only [List.length_nil] at hfull
      omega
    have hlast : m.LRUQueue.getLastD 0 = m.LRUQueue.getLast hne := by
      rw [List.getLastD_eq_getLast?, List.getLast?_eq_getLast_of_ne_nil hne, Option.getD_some]
    have hsplit := List.dropLast_append_getLast hne
    have hnodup := h.queue_nodup
    rw [← hsplit, List.nodup_append] at hnodup
    rw [hlast]
    have hkeys : (m.TLB.eraseP fun e => e.1 == m.LRUQueue.getLast hne).map Prod.fst =
        (m.TLB.map Prod.fst).erase (m.LRUQueue.getLast hne) := map_fst_eraseP_key ..
    refine ⟨h.size, ?_, ?_, ?_, ?_⟩
    · rw [List.map_append, hkeys, List.nodup_append]
      refine ⟨h.keys.erase _, by simp, ?_⟩
      rintro a ha b hb rfl
      rw [List.map_singleton, List.mem_singleton] at hb
      rw [hb] at ha
      exact hmap (List.mem_of_mem_erase ha)
    · intro u
      rw [List.map_append, hkeys, List.mem_append, h.keys.mem_erase_iff, h.members, List.mem_cons]
      have hmem : u ∈ m.LRUQueue ↔ u ∈ m.LRUQueue.dropLast ∨ u = m.LRUQueue.getLast hne := by
        conv_lhs => rw [← hsplit]
        rw [List.mem_append, List.mem_singleton]
      have hout : u ∈ m.LRUQueue.dropLast → u ≠ m.LRUQueue.getLast hne := fun hu heq =>
        hnodup.2.2 u hu _ (by simp) heq
      rw [hmem]
      simp only [List.map_cons, List.map_nil, List.mem_singleton]
      tauto
    · rw [htake]
      have hdrop : m.LRUQueue.dropLast = (recent (hist.map Prod.snd)).take n := by
        rw [List.dropLast_eq_take, hfull, h.queue, hn, Nat.add_sub_cancel, List.take_take,
          Nat.min_eq_left (by omega)]
      simp only [hdrop]
    · intro e he
      refine hentry e ?_
      rcases List.mem_append.mp he with he | he
      · exact .inl (List.mem_of_mem_eraseP he)
      · exact .inr (List.mem_singleton.mp he)
  · rw [if_neg hfull]
    refine ⟨h.size, ?_, ?_, ?_, ?_⟩
    · rw [List.map_append, List.nodup_append]
      refine ⟨h.keys, by simp, ?_⟩
      rintro a ha b hb rfl
      rw [List.map_singleton, List.mem_singleton] at hb
      rw [hb] at ha
      exact hmap ha
    · intro u
      rw [List.map_append, List.mem_append, h.members, List.mem_cons]
      simp only [List.map_cons, List.map_nil, List.mem_singleton]
      tauto
    · rw [htake]
      have hshort : (recent (hist.map Prod.snd)).length ≤ n := by
        have hlen := congrArg List.length h.queue
        rw [List.length_take] at hlen
        omega
      simp only
      rw [h.queue, List.take_of_length_le (by omega), List.take_of_length_le hshort]
    · intro e he
      refine hentry e ?_
      rcases List.mem_append.mp he with he | he
      · exact .inl he
      · exact .inr (List.mem_singleton.mp he)

/-- The page table may grow. -/
theorem mapNext (h : m.TlbOk hist) {page : ℕ} (hnone : m.pageMap.lookup page = none) :
    (m.mapNext page).TlbOk hist := by
  refine ⟨h.size, h.keys, h.members, h.queue, ?_⟩
  intro e he
  obtain ⟨q, f, hq, hf, heq⟩ := h.entries e he
  refine ⟨q, f, hq, ?_, heq⟩
  simp only [RevMem.mapNext, lookup_concat hnone]
  rw [if_neg]
  · exact hf
  · rintro rfl
    simp [hnone] at hf

theorem calcPhysAddr {m' : RevMem} (h : m.TlbOk hist) {page v p : ℕ}
    (hcalc : m.CalcPhysAddr page v = some (p, m')) :
    m'.TlbOk ((page, v) :: hist) ∧ m'.tlbSize = m.tlbSize := by
  cases htlb : m.TLB.lookup v with
  | some q =>
    rw [CalcPhysAddr_hit htlb (h.ne_invalid htlb)] at hcalc
    simp only [Option.some.injEq, Prod.mk.injEq] at hcalc
    rw [← hcalc.2]
    exact ⟨h.hit page htlb, rfl⟩
  | none =>
    cases hvalid : m.isValidVirtAddr v with
    | false => simp [CalcPhysAddr, SearchTLB, htlb, hvalid] at hcalc
    | true =>
      rw [CalcPhysAddr_miss htlb hvalid] at hcalc
      cases hpage : m.pageMap.lookup page with
      | none =>
        simp only [hpage, Option.some.injEq, Prod.mk.injEq] at hcalc
        rw [← hcalc.2]
        refine ⟨(h.mapNext hpage).insert htlb ?_, AddToTLB_tlbSize ..⟩
        simp only [RevMem.mapNext, lookup_concat hpage, if_true]
      | some f =>
        simp only [hpage, Option.some.injEq, Prod.mk.injEq] at hcalc
        rw [← hcalc.2]
        exact ⟨h.insert htlb hpage, AddToTLB_tlbSize ..⟩

/-- An address that a call evicts is the least recently used one. -/
theorem evicted {m' : RevMem} (h : m.TlbOk hist) {page v p : ℕ}
    (hcalc : m.CalcPhysAddr page v = some (p, m')) {u : ℕ} (hu : u ∈ m.LRUQueue)
    (hgone : u ∉ m'.LRUQueue) : ∀ w ∈ m.LRUQueue, w ≠ u →
      (hist.map Prod.snd).idxOf w < (hist.map Prod.snd).idxOf u := by
  obtain ⟨h', hsize⟩ := h.calcPhysAddr hcalc
  rw [h.queue] at hu
  rw [h'.queue, hsize] at hgone
  obtain ⟨l, hl⟩ := eq_last_of_gone hu hgone
  have hpairs := (recent_pairwise (hist.map Prod.snd)).sublist (List.take_sublist m.tlbSize _)
  rw [hl, List.pairwise_append] at hpairs
  intro w hw hne
  rw [h.queue, hl, List.mem_append, List.mem_singleton] at hw
  exact hpairs.2.2 w (hw.resolve_right hne) u (by simp)

end TlbOk

end RevCPU.RevMem
