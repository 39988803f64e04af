import RevCPU.Lib.Run
import RevCPU.Mem.Tlb

namespace RevCPU

open Lib

/-- `RevMem` with the iterators that the map `TLB` stores. `LRUQueue` lists its
    nodes with their addresses; an entry of `TLB` holds the translation and the
    node of its address. The rest of the state is that of `RevMem`. -/
structure LinkedMem where
  rest : RevMem
  TLB : List (ℕ × ℕ × ℕ) := []
  LRUQueue : List (ℕ × ℕ) := []
  nextNode : ℕ := 0

namespace LinkedMem

open RevMem

/-- `LRUQueue.erase`; `none` is an iterator that is not valid. -/
def eraseNode (q : List (ℕ × ℕ)) (it : ℕ) : Option (List (ℕ × ℕ)) :=
  if (q.lookup it).isSome then some (q.eraseP fun n => n.1 == it) else none

/-- The entry of `vAddr` gets a translation and a node. -/
def setEntry (tlb : List (ℕ × ℕ × ℕ)) (vAddr physAddr it : ℕ) : List (ℕ × ℕ × ℕ) :=
  tlb.map fun e => if e.1 = vAddr then (vAddr, physAddr, it) else e

/-- `SearchTLB`. -/
def SearchTLB (s : LinkedMem) (vAddr : ℕ) : Option (ℕ × LinkedMem) :=
  match s.TLB.lookup vAddr with
  | none => some (INVALID_ADDR, s)
  | some (physAddr, it) =>
    (eraseNode s.LRUQueue it).map fun q =>
      (physAddr,
        { s with
          LRUQueue := (s.nextNode, vAddr) :: q
          TLB := setEntry s.TLB vAddr physAddr s.nextNode
          nextNode := s.nextNode + 1 })

/-- `AddToTLB`. -/
def AddToTLB (s : LinkedMem) (vAddr physAddr : ℕ) : Option LinkedMem :=
  match s.TLB.lookup vAddr with
  | some (_, it) =>
    (eraseNode s.LRUQueue it).map fun q =>
      { s with
        LRUQueue := (s.nextNode, vAddr) :: q
        TLB := setEntry s.TLB vAddr physAddr s.nextNode
        nextNode := s.nextNode + 1 }
  | none =>
    if s.LRUQueue.length = s.rest.tlbSize then
      s.LRUQueue.getLast?.map fun last =>
        { s with
          LRUQueue := (s.nextNode, vAddr) :: s.LRUQueue.dropLast
          TLB := s.TLB.eraseP (fun e => e.1 == last.2) ++ [(vAddr, physAddr, s.nextNode)]
          nextNode := s.nextNode + 1 }
    else
      some { s with
        LRUQueue := (s.nextNode, vAddr) :: s.LRUQueue
        TLB := s.TLB ++ [(vAddr, physAddr, s.nextNode)]
        nextNode := s.nextNode + 1 }

/-- `CalcPhysAddr`; `none` is the segmentation fault or an invalid iterator. -/
def CalcPhysAddr (s : LinkedMem) (pageNum vAddr : ℕ) : Option (ℕ × LinkedMem) :=
  match s.SearchTLB vAddr with
  | none => none
  | some (physAddr, s) =>
    if physAddr = INVALID_ADDR then
      if s.rest.isValidVirtAddr vAddr then
        match s.rest.pageMap.lookup pageNum with
        | none =>
          let physAddr := frameBase s.rest.nextPage + vAddr % pageSize
          let s := { s with rest := s.rest.mapNext pageNum }
          (s.AddToTLB vAddr physAddr).map fun s => (physAddr, s)
        | some frame =>
          let physAddr := frameBase frame + vAddr % pageSize
          (s.AddToTLB vAddr physAddr).map fun s => (physAddr, s)
      else none
    else some (physAddr, s)

/-- The memory without the iterators. -/
def unlinked (s : LinkedMem) : RevMem :=
  { s.rest with
    TLB := s.TLB.map fun e => (e.1, e.2.1)
    LRUQueue := s.LRUQueue.map Prod.snd }

/-- The iterators are valid: each entry has a node of its own, with its
    address. -/
structure Linked (s : LinkedMem) : Prop where
  nodes : (s.LRUQueue.map Prod.fst).Nodup
  nodes_lt : ∀ n ∈ s.LRUQueue, n.1 < s.nextNode
  links : ∀ e ∈ s.TLB, (e.2.2, e.1) ∈ s.LRUQueue

section
variable {s : LinkedMem} {hist : List (ℕ × ℕ)} {v p it : ℕ}

theorem lookup_unlinked (s : LinkedMem) (v : ℕ) :
    s.unlinked.TLB.lookup v = (s.TLB.lookup v).map Prod.fst := by
  simp only [unlinked]
  induction s.TLB with
  | nil => rfl
  | cons e l ih =>
    rw [List.map_cons, List.lookup_cons, List.lookup_cons, ih]
    cases v == e.1 <;> rfl

theorem keys_unlinked (s : LinkedMem) : s.unlinked.TLB.map Prod.fst = s.TLB.map Prod.fst := by
  simp [unlinked]

/-- The node that an entry points to is erased from the queue with the address
    of the entry. -/
theorem Linked.eraseNode (h : s.Linked) (hnodup : (s.LRUQueue.map Prod.snd).Nodup)
    (he : (v, p, it) ∈ s.TLB) :
    ∃ q, LinkedMem.eraseNode s.LRUQueue it = some q ∧ q.map Prod.snd = (s.LRUQueue.map Prod.snd).erase v ∧
      ∀ n, n ∈ q ↔ n ∈ s.LRUQueue ∧ n.1 ≠ it := by
  have hlook : s.LRUQueue.lookup it = some v := lookup_of_mem h.nodes (h.links _ he)
  refine ⟨_, by rw [LinkedMem.eraseNode, hlook]; rfl, ?_, ?_⟩
  · obtain ⟨l₁, l₂, hsplit, herase⟩ := lookup_split hlook
    rw [herase, hsplit]
    rw [hsplit, List.map_append, List.map_cons, List.nodup_append, List.nodup_cons] at hnodup
    rw [List.map_append, List.map_append, List.map_cons,
      List.erase_append_right _ (fun hv => hnodup.2.2 _ hv v (by simp) rfl), List.erase_cons_head]
  · intro n
    exact mem_eraseP_key h.nodes

/-- A new node in front of nodes that are there. -/
theorem Linked.front (h : s.Linked) {rest : RevMem} {q : List (ℕ × ℕ)} {tlb : List (ℕ × ℕ × ℕ)}
    (hq : q.Sublist s.LRUQueue)
    (hlinks : ∀ e ∈ tlb, (e.2.2, e.1) = (s.nextNode, v) ∨ (e.2.2, e.1) ∈ q) :
    Linked ⟨rest, tlb, (s.nextNode, v) :: q, s.nextNode + 1⟩ := by
  refine ⟨?_, ?_, ?_⟩
  · rw [List.map_cons, List.nodup_cons]
    refine ⟨?_, h.nodes.sublist (hq.map _)⟩
    intro hmem
    obtain ⟨n, hn, heq⟩ := List.mem_map.mp hmem
    have hlt := h.nodes_lt n (hq.subset hn)
    simp only at heq
    omega
  · intro n hn
    rcases List.mem_cons.mp hn with rfl | hn
    · exact Nat.lt_succ_self _
    · have hlt := h.nodes_lt n (hq.subset hn)
      simp only
      omega
  · intro e he
    exact List.mem_cons.mpr (hlinks e he)

theorem eraseNode_sublist {q q' : List (ℕ × ℕ)} (h : LinkedMem.eraseNode q it = some q') :
    q'.Sublist q := by
  unfold LinkedMem.eraseNode at h
  split at h
  · simp only [Option.some.injEq] at h
    rw [← h]
    exact List.eraseP_sublist
  · simp at h

/-- A hit in the TLB does what `RevMem` does. -/
theorem Linked.search_hit (h : s.Linked) (hok : s.unlinked.TlbOk hist)
    (hv : s.TLB.lookup v = some (p, it)) :
    ∃ s', s.SearchTLB v = some (p, s') ∧ s'.Linked ∧ s'.rest = s.rest ∧
      s'.unlinked = { s.unlinked with LRUQueue := v :: s.unlinked.LRUQueue.erase v } := by
  have he : (v, p, it) ∈ s.TLB := mem_of_lookup hv
  have hkeys : (s.TLB.map Prod.fst).Nodup := by
    rw [← keys_unlinked]
    exact hok.keys
  obtain ⟨q, hq, hmap, hmem⟩ := h.eraseNode hok.queue_nodup he
  refine ⟨⟨s.rest, setEntry s.TLB v p s.nextNode, (s.nextNode, v) :: q, s.nextNode + 1⟩,
    by simp only [SearchTLB, hv, hq, Option.map_some], ?_, rfl, ?_⟩
  · refine h.front (eraseNode_sublist hq) ?_
    intro e hset
    obtain ⟨e', he', rfl⟩ := List.mem_map.mp hset
    by_cases hk : e'.1 = v
    · simp [hk]
    · right
      rw [if_neg hk, hmem]
      refine ⟨h.links e' he', ?_⟩
      intro hnode
      have hother := h.links e' he'
      simp only at hnode
      rw [hnode] at hother
      have hown := h.links _ he
      have heq := lookup_of_mem h.nodes hother
      rw [lookup_of_mem h.nodes hown, Option.some.injEq] at heq
      exact hk heq.symm
  · simp only [unlinked, setEntry, List.map_map, List.map_cons, hmap]
    congr 1
    refine List.map_congr_left ?_
    intro e he'
    simp only [Function.comp]
    split
    · rename_i hk
      obtain ⟨e₁, e₂⟩ := e
      simp only at hk
      subst hk
      have heq := lookup_of_mem hkeys he'
      rw [hv, Option.some.injEq] at heq
      rw [← heq]
    · rfl

/-- An insertion does what `RevMem` does. -/
theorem Linked.insert (h : s.Linked) (hok : s.unlinked.TlbOk hist) (hv : s.TLB.lookup v = none) :
    ∃ s', s.AddToTLB v p = some s' ∧ s'.Linked ∧ s'.unlinked = s.unlinked.AddToTLB v p := by
  have hnone : s.unlinked.TLB.lookup v = none := by rw [lookup_unlinked, hv]; rfl
  have hkeys : (s.TLB.map Prod.fst).Nodup := by
    rw [← keys_unlinked]
    exact hok.keys
  have hlen : s.unlinked.LRUQueue.length = s.LRUQueue.length := List.length_map _
  have hsize : s.unlinked.tlbSize = s.rest.tlbSize := rfl
  by_cases hfull : s.LRUQueue.length = s.rest.tlbSize
  · have hne : s.LRUQueue ≠ [] := by
      intro hnil
      have hpos := hok.size
      rw [hnil] at hfull
      simp only [List.length_nil] at hfull
      omega
    have hlast := List.getLast?_eq_getLast_of_ne_nil hne
    have hsplit := List.dropLast_append_getLast hne
    have hlastD : s.unlinked.LRUQueue.getLastD 0 = (s.LRUQueue.getLast hne).2 := by
      simp [unlinked, List.getLastD_eq_getLast?, List.getLast?_map, hlast]
    refine ⟨⟨s.rest, s.TLB.eraseP (fun e => e.1 == (s.LRUQueue.getLast hne).2) ++
      [(v, p, s.nextNode)], (s.nextNode, v) :: s.LRUQueue.dropLast, s.nextNode + 1⟩,
      by simp only [AddToTLB, hv, if_pos hfull, hlast, Option.map_some], ?_, ?_⟩
    · refine h.front (List.dropLast_sublist _) ?_
      intro e he
      rcases List.mem_append.mp he with he | he
      · obtain ⟨he, hkey⟩ := (mem_eraseP_key hkeys).mp he
        right
        have hlink := h.links e he
        rw [← hsplit, List.mem_append, List.mem_singleton] at hlink
        refine hlink.resolve_right ?_
        intro heq
        exact hkey (by rw [← heq])
      · left
        rw [List.mem_singleton.mp he]
    · unfold RevMem.AddToTLB
      rw [hnone]
      simp only [hlen, hsize, if_pos hfull, hlastD]
      simp only [unlinked, List.map_cons, List.map_append, List.map_dropLast, List.map_nil]
      congr 2
      rw [List.eraseP_map]
      rfl
  · refine ⟨⟨s.rest, s.TLB ++ [(v, p, s.nextNode)], (s.nextNode, v) :: s.LRUQueue, s.nextNode + 1⟩,
      by simp only [AddToTLB, hv, if_neg hfull], ?_, ?_⟩
    · refine h.front (List.Sublist.refl _) ?_
      intro e he
      rcases List.mem_append.mp he with he | he
      · exact .inr (h.links e he)
      · left
        rw [List.mem_singleton.mp he]
    · unfold RevMem.AddToTLB
      rw [hnone]
      simp only [hlen, hsize, if_neg hfull]
      simp only [unlinked, List.map_cons, List.map_append, List.map_nil]

/-- `CalcPhysAddr` with iterators does what it does in `RevMem`, and no iterator
    becomes invalid. -/
theorem Linked.calcPhysAddr (h : s.Linked) (hok : s.unlinked.TlbOk hist) (page v : ℕ) :
    (s.CalcPhysAddr page v).map (fun r => (r.1, r.2.unlinked)) = s.unlinked.CalcPhysAddr page v ∧
      ∀ r ∈ s.CalcPhysAddr page v, r.2.Linked := by
  have hvalid : s.unlinked.isValidVirtAddr v = s.rest.isValidVirtAddr v := rfl
  cases hv : s.TLB.lookup v with
  | some x =>
    obtain ⟨p, it⟩ := x
    have htlb : s.unlinked.TLB.lookup v = some p := by rw [lookup_unlinked, hv]; rfl
    have hne := hok.ne_invalid htlb
    obtain ⟨s', hsearch, hlinked, -, hview⟩ := h.search_hit hok hv
    have hcalc : s.CalcPhysAddr page v = some (p, s') := by
      simp only [CalcPhysAddr, hsearch, if_neg hne]
    rw [hcalc, CalcPhysAddr_hit htlb hne, ← hview]
    exact ⟨rfl, by simpa using hlinked⟩
  | none =>
    have htlb : s.unlinked.TLB.lookup v = none := by rw [lookup_unlinked, hv]; rfl
    have hsearch : s.SearchTLB v = some (INVALID_ADDR, s) := by simp only [SearchTLB, hv]
    cases hval : s.rest.isValidVirtAddr v with
    | false =>
      have hcalc : s.CalcPhysAddr page v = none := by simp [CalcPhysAddr, hsearch, hval]
      have hfault : s.unlinked.CalcPhysAddr page v = none := by
        simp [RevMem.CalcPhysAddr, RevMem.SearchTLB, htlb, hvalid, hval]
      rw [hcalc, hfault]
      exact ⟨rfl, by simp⟩
    | true =>
      rw [CalcPhysAddr_miss htlb (hvalid.trans hval)]
      cases hpage : s.rest.pageMap.lookup page with
      | none =>
        have hpage' : s.unlinked.pageMap.lookup page = none := hpage
        obtain ⟨s', hadd, hlinked, hview⟩ := Linked.insert
          (s := { s with rest := s.rest.mapNext page })
          (p := frameBase s.rest.nextPage + v % pageSize) ⟨h.nodes, h.nodes_lt, h.links⟩
          (hok.mapNext hpage') hv
        have hcalc : s.CalcPhysAddr page v = some (frameBase s.rest.nextPage + v % pageSize, s') := by
          simp only [CalcPhysAddr, hsearch, if_true, hval, hpage, hadd, Option.map_some]
        rw [hcalc, hpage']
        simp only [Option.map_some, hview]
        exact ⟨rfl, by simpa using hlinked⟩
      | some f =>
        have hpage' : s.unlinked.pageMap.lookup page = some f := hpage
        obtain ⟨s', hadd, hlinked, hview⟩ := h.insert (p := frameBase f + v % pageSize) hok hv
        have hcalc : s.CalcPhysAddr page v = some (frameBase f + v % pageSize, s') := by
          simp only [CalcPhysAddr, hsearch, if_true, hval, hpage, hadd, Option.map_some]
        rw [hcalc, hpage']
        simp only [Option.map_some, hview]
        exact ⟨trivial, by simpa using hlinked⟩

end

/-- One call of `CalcPhysAddr` with its page number and address. -/
def step (s : LinkedMem) (c : ℕ × ℕ) : Option LinkedMem := (s.CalcPhysAddr c.1 c.2).map Prod.snd

/-- The representation invariant of the TLB after the calls of a history, which
    lists them from the latest on. -/
structure LRUOrdered (s : LinkedMem) (hist : List (ℕ × ℕ)) : Prop where
  keys : ∀ v, v ∈ s.TLB.map Prod.fst ↔ v ∈ s.LRUQueue.map Prod.snd
  nodup : (s.LRUQueue.map Prod.snd).Nodup
  links : ∀ e ∈ s.TLB, (e.2.2, e.1) ∈ s.LRUQueue
  size : s.LRUQueue.length ≤ s.rest.tlbSize
  order : (s.LRUQueue.map Prod.snd).Pairwise fun a b =>
    (hist.map Prod.snd).idxOf a < (hist.map Prod.snd).idxOf b
  evicts : ∀ c s', s.step c = some s' → ∀ u ∈ s.LRUQueue.map Prod.snd,
    u ∉ s'.LRUQueue.map Prod.snd → ∀ w ∈ s.LRUQueue.map Prod.snd, w ≠ u →
      (hist.map Prod.snd).idxOf w < (hist.map Prod.snd).idxOf u
  entries : ∀ e ∈ s.TLB, ∃ page f, (page, e.1) ∈ hist ∧ s.rest.pageMap.lookup page = some f ∧
    e.2.1 = frameBase f + e.1 % pageSize

theorem step_unlinked {s s' : LinkedMem} {hist : List (ℕ × ℕ)} {c : ℕ × ℕ} (h : s.Linked)
    (hok : s.unlinked.TlbOk hist) (hstep : s.step c = some s') :
    ∃ p, s.unlinked.CalcPhysAddr c.1 c.2 = some (p, s'.unlinked) ∧ s'.Linked := by
  obtain ⟨⟨p, s₁⟩, hcalc, rfl⟩ := Option.map_eq_some_iff.mp hstep
  obtain ⟨hsim, hlinked⟩ := h.calcPhysAddr hok c.1 c.2
  rw [hcalc] at hsim hlinked
  exact ⟨p, hsim.symm, hlinked _ rfl⟩

theorem lruOrdered_of_ok {s : LinkedMem} {hist : List (ℕ × ℕ)} (h : s.Linked)
    (hok : s.unlinked.TlbOk hist) : s.LRUOrdered hist := by
  refine ⟨?_, hok.queue_nodup, h.links, ?_, ?_, ?_, ?_⟩
  · intro v
    rw [← keys_unlinked]
    exact hok.members v
  · have hlen := congrArg List.length hok.queue
    rw [List.length_take] at hlen
    have hmap : s.unlinked.LRUQueue.length = s.LRUQueue.length := List.length_map _
    have hsize : s.unlinked.tlbSize = s.rest.tlbSize := rfl
    omega
  · have hpairs := (recent_pairwise (hist.map Prod.snd)).sublist
      (List.take_sublist s.unlinked.tlbSize _)
    rw [← hok.queue] at hpairs
    exact hpairs
  · intro c s' hstep u hu hgone
    obtain ⟨p, hcalc, -⟩ := step_unlinked h hok hstep
    exact hok.evicted hcalc hu hgone
  · intro e he
    exact hok.entries (e.1, e.2.1) (List.mem_map.mpr ⟨e, he, rfl⟩)

/-- After any calls of `CalcPhysAddr`, the TLB and its LRU queue represent the
    most recently used translations. -/
theorem lruOrdered_of_calls (m : RevMem) (hsize : 1 ≤ m.tlbSize) (calls : List (ℕ × ℕ))
    {s : LinkedMem} (hexec : exec step { rest := m } calls = some s) : s.LRUOrdered calls.reverse := by
  have hrun : ∀ (calls hist : List (ℕ × ℕ)) (s₀ : LinkedMem), s₀.Linked → s₀.unlinked.TlbOk hist →
      exec step s₀ calls = some s → s.Linked ∧ s.unlinked.TlbOk (calls.reverse ++ hist) := by
    intro calls
    induction calls with
    | nil =>
      intro hist s₀ h hok hexec
      obtain rfl : s₀ = s := by simpa [exec] using hexec
      exact ⟨h, hok⟩
    | cons c calls ih =>
      intro hist s₀ h hok hexec
      simp only [exec, Option.bind_eq_some_iff] at hexec
      obtain ⟨s₁, hstep, hexec⟩ := hexec
      obtain ⟨p, hcalc, hlinked⟩ := step_unlinked h hok hstep
      have hnext := ih (c :: hist) s₁ hlinked (hok.calcPhysAddr hcalc).1 hexec
      rw [List.reverse_cons, List.append_assoc]
      exact hnext
  obtain ⟨hlinked, hok⟩ := hrun calls [] { rest := m } ⟨by simp, by simp, by simp⟩
    ⟨hsize, by simp [unlinked], by simp [unlinked], by simp [unlinked, recent], by simp [unlinked]⟩ hexec
  rw [List.append_nil] at hok
  exact lruOrdered_of_ok hlinked hok

/-- A memory with a TLB of two entries and one segment. -/
def smallTlb : RevMem :=
  { memSize := 4096, tlbSize := 2, maxHeapSize := 1024, ThreadMemSize := 1024, NextThreadMemAddr := 3072,
    MemSegs := [MemSegment.new 0 4096 true] }

/-- The third address evicts the second, since the first is used in between. -/
theorem lruOrdered_small :
    ∃ s, exec step { rest := smallTlb } [(0, 8), (0, 16), (0, 8), (0, 24)] = some s ∧
      s.LRUQueue.map Prod.snd = [24, 8] ∧ s.LRUOrdered [(0, 24), (0, 8), (0, 16), (0, 8)] := by
  have hexec : (exec step { rest := smallTlb } [(0, 8), (0, 16), (0, 8), (0, 24)]).map
      (fun s => s.LRUQueue.map Prod.snd) = some [24, 8] := by decide +kernel
  obtain ⟨s, hexec, hqueue⟩ := Option.map_eq_some_iff.mp hexec
  exact ⟨s, hexec, hqueue, lruOrdered_of_calls smallTlb (by decide) _ hexec⟩

end LinkedMem

end RevCPU
