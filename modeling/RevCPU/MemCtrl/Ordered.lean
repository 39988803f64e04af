import RevCPU.MemCtrl.Bookkeeping

namespace RevCPU

open Lib RevBasicMemCtrl

namespace RevBasicMemCtrl

/-- The operations that the controller still works on. -/
def live (s : RevBasicMemCtrl) : List RevMemOp := s.rqstQ ++ s.outstanding.map Prod.snd

theorem mem_live {s : RevBasicMemCtrl} {op : RevMemOp} :
    op ∈ s.live ↔ op ∈ s.rqstQ ∨ ∃ id, (id, op) ∈ s.outstanding := by
  simp [live]

/-- The operation comes from the call `c`: it is the operation that the call
    enqueued, or the write half of the AMO that it enqueued. -/
inductive Stems (c : Call) : RevMemOp → Prop
  | original (seq n : ℕ) : Stems c { c.memOp seq with SplitRqst := n }
  | half (seq ptr n : ℕ) (buffer tempT : List UInt8) (hamo : c.isAMO = true) (hlt : seq < ptr) :
      Stems c { amoWriteOp ptr (c.memOp seq) buffer tempT with SplitRqst := n }

theorem Stems.memOp (c : Call) (seq : ℕ) : Stems c (c.memOp seq) := by
  have h : Stems c { c.memOp seq with SplitRqst := 1 } := .original seq 1
  cases c <;> exact h

theorem Stems.seq_le {c : Call} {op : RevMemOp} (h : Stems c op) : op.seq ≤ op.ptr := by
  cases h with
  | original seq n => simp
  | half seq ptr n buffer tempT hamo hlt =>
    simp only [amoWriteOp, Call.memOp_seq]
    omega

theorem Stems.split {c : Call} {op : RevMemOp} (h : Stems c op) (n : ℕ) :
    Stems c { op with SplitRqst := n } := by
  cases h with
  | original seq m => exact .original seq n
  | half seq ptr m buffer tempT hamo hlt => exact .half seq ptr n buffer tempT hamo hlt

/-- The write half of an operation that is not one itself. -/
theorem Stems.toHalf {c : Call} {op : RevMemOp} (h : Stems c op) (hread : op.Op ≠ .MemOpWRITE)
    (hamo : c.isAMO = true) {ptr : ℕ} (hlt : op.seq < ptr) (buffer tempT : List UInt8) :
    Stems c (amoWriteOp ptr op buffer tempT) := by
  cases h with
  | original seq n => exact .half seq ptr 1 buffer tempT hamo (by simpa using hlt)
  | half seq ptr' n buffer' tempT' => exact absurd rfl hread

/-- The facts about the operations, the AMO table and the history of calls that
    hold however requests are dispatched and answered. -/
structure Ordered (s : RevBasicMemCtrl) (issued : List (ℕ × Call)) : Prop where
  sorted : s.rqstQ.Pairwise fun a b => a.ptr < b.ptr
  live_lt : ∀ op ∈ s.live, op.ptr < s.nextPtr
  dispatched : ∀ n ∈ s.outstanding, ∀ op ∈ s.rqstQ, n.2.ptr ≠ op.ptr
  same_ptr : ∀ op ∈ s.live, ∀ op' ∈ s.live, op.ptr = op'.ptr → op = op'
  same_seq : ∀ op ∈ s.live, ∀ op' ∈ s.live, op.seq = op'.seq → op = op'
  unsplit : ∀ n ∈ s.outstanding, n.2.SplitRqst ≤ 1 → s.getNumSplitRqsts n.2 = 1
  history : issued.Pairwise fun a b => a.1 < b.1
  history_lt : ∀ p ∈ issued, p.1 < s.nextPtr
  accepted : ∀ p ∈ issued, p.2.enqueues = true
  stems : ∀ op ∈ s.live, ∃ c, (op.seq, c) ∈ issued ∧ Stems c op
  entry : ∀ e ∈ s.AMOTable, e.key = e.memop.Addr ∧
    (e.memop.Op = .MemOpREAD ∨ e.memop.Op = .MemOpWRITE) ∧
    ∃ op ∈ s.live, ∃ n, op = { e.memop with SplitRqst := n }
  entry_amo : ∀ e ∈ s.AMOTable, ∃ c, (e.memop.seq, c) ∈ issued ∧ c.isAMO = true
  entries : (s.AMOTable.map fun e => e.memop.ptr).Nodup
  tabled : ∀ op ∈ s.rqstQ, ∀ c, (op.seq, c) ∈ issued → c.isAMO = true →
    ∃ e ∈ s.AMOTable, e.memop.ptr = op.ptr

namespace Ordered

variable {s s' : RevBasicMemCtrl} {issued : List (ℕ × Call)}

theorem seq_le (hs : s.Ordered issued) {op : RevMemOp} (hop : op ∈ s.live) : op.seq ≤ op.ptr := by
  obtain ⟨c, -, hstem⟩ := hs.stems op hop
  exact hstem.seq_le

theorem history_unique (hs : s.Ordered issued) {k : ℕ} {c c' : Call} (hc : (k, c) ∈ issued)
    (hc' : (k, c') ∈ issued) : c = c' := by
  have heq := eq_of_pairwise_lt hs.history hc hc' rfl
  exact (Prod.mk.inj heq).2

/-- The live operation with the address of an AMO entry is the one recorded in
    the entry. -/
theorem entry_eq (hs : s.Ordered issued) {e : AMOEntry} (he : e ∈ s.AMOTable) {op : RevMemOp}
    (hop : op ∈ s.live) (hptr : e.memop.ptr = op.ptr) :
    ∃ n, op = { e.memop with SplitRqst := n } := by
  obtain ⟨-, -, op', hop', n, hn⟩ := hs.entry e he
  have heq : op' = op := hs.same_ptr op' hop' op hop (by rw [hn]; exact hptr)
  exact ⟨n, by rw [← heq, hn]⟩

/-- The entry with the address of a live operation is found by `isFor`. -/
theorem isFor_iff (hs : s.Ordered issued) {e : AMOEntry} (he : e ∈ s.AMOTable) {op : RevMemOp}
    (hop : op ∈ s.live) : AMOEntry.isFor op e = true ↔ e.memop.ptr = op.ptr := by
  constructor
  · intro hfor
    simp only [AMOEntry.isFor, Bool.and_eq_true, beq_iff_eq] at hfor
    exact hfor.2
  · intro hptr
    obtain ⟨n, hn⟩ := hs.entry_eq he hop hptr
    simp only [AMOEntry.isFor, Bool.and_eq_true, beq_iff_eq]
    exact ⟨by rw [(hs.entry e he).1, hn], hptr⟩

/-- Operations and entries can go away: what stays keeps the order. -/
theorem shrink (hs : s.Ordered issued) (hq : s'.rqstQ.Sublist s.rqstQ)
    (hout : s'.outstanding.Sublist s.outstanding) (hptr : s'.nextPtr = s.nextPtr)
    (hamo : s'.AMOTable.Sublist s.AMOTable)
    (hunsplit : ∀ n ∈ s'.outstanding, n.2.SplitRqst ≤ 1 → s'.getNumSplitRqsts n.2 = 1)
    (hentry : ∀ e ∈ s'.AMOTable, ∀ op ∈ s.live, op.ptr = e.memop.ptr → op ∈ s'.live)
    (htabled : ∀ op ∈ s'.rqstQ, ∀ e ∈ s.AMOTable, e.memop.ptr = op.ptr → e ∈ s'.AMOTable) :
    s'.Ordered issued := by
  have hlive : ∀ op ∈ s'.live, op ∈ s.live := by
    intro op hop
    rw [mem_live] at hop ⊢
    rcases hop with hop | ⟨id, hop⟩
    · exact .inl (hq.subset hop)
    · exact .inr ⟨id, hout.subset hop⟩
  refine ⟨hs.sorted.sublist hq, ?_, ?_, ?_, ?_, hunsplit, hs.history, ?_, hs.accepted, ?_, ?_, ?_, ?_, ?_⟩
  · rw [hptr]
    exact fun op hop => hs.live_lt op (hlive op hop)
  · exact fun n hn op hop => hs.dispatched n (hout.subset hn) op (hq.subset hop)
  · exact fun op hop op' hop' => hs.same_ptr op (hlive op hop) op' (hlive op' hop')
  · exact fun op hop op' hop' => hs.same_seq op (hlive op hop) op' (hlive op' hop')
  · rw [hptr]
    exact hs.history_lt
  · exact fun op hop => hs.stems op (hlive op hop)
  · intro e he
    obtain ⟨hkey, hkind, op, hop, n, hn⟩ := hs.entry e (hamo.subset he)
    exact ⟨hkey, hkind, op, hentry e he op hop (by rw [hn]), n, hn⟩
  · exact fun e he => hs.entry_amo e (hamo.subset he)
  · exact hs.entries.sublist (hamo.map _)
  · intro op hop c hc hisAMO
    obtain ⟨e, he, hptr'⟩ := hs.tabled op (hq.subset hop) c hc hisAMO
    exact ⟨e, htabled op hop e he hptr', hptr'⟩

/-- A fresh operation at the end of the queue, with its entry when it belongs
    to an AMO. -/
theorem push (hs : s.Ordered issued) {issued' : List (ℕ × Call)} (op : RevMemOp) (c : Call)
    {es : List AMOEntry} (hptr : op.ptr = s.nextPtr) (hfresh : ∀ o ∈ s.live, o.seq ≠ op.seq)
    (hc : (op.seq, c) ∈ issued') (hstem : Stems c op)
    (hissued : issued' = issued ∨ c.enqueues = true ∧ issued' = issued ++ [(s.nextPtr, c)])
    (hes : c.isAMO = false ∧ es = [] ∨
      c.isAMO = true ∧ ∃ e, es = [e] ∧ e.key = op.Addr ∧ e.memop = op)
    (hkind : c.isAMO = true → op.Op = .MemOpREAD ∨ op.Op = .MemOpWRITE)
    (hq : s'.rqstQ = s.rqstQ ++ [op]) (hout : s'.outstanding = s.outstanding)
    (hamo : s'.AMOTable = s.AMOTable ++ es) (hnext : s'.nextPtr = s.nextPtr + 1) :
    s'.Ordered issued' := by
  have hlive : ∀ o, o ∈ s'.live ↔ o ∈ s.live ∨ o = op := by
    intro o
    rw [mem_live, mem_live, hq, hout, List.mem_append, List.mem_singleton]
    tauto
  have hsub : ∀ p ∈ issued, p ∈ issued' := by
    rcases hissued with rfl | ⟨-, rfl⟩
    · exact fun p hp => hp
    · exact fun p hp => List.mem_append.mpr (.inl hp)
  have hnew : ∀ p ∈ issued', p ∈ issued ∨ p = (s.nextPtr, c) ∧ c.enqueues = true := by
    rcases hissued with rfl | ⟨henq, rfl⟩
    · exact fun p hp => .inl hp
    · intro p hp
      rcases List.mem_append.mp hp with hp | hp
      · exact .inl hp
      · exact .inr ⟨List.mem_singleton.mp hp, henq⟩
  have hhist : issued'.Pairwise fun a b => a.1 < b.1 := by
    rcases hissued with rfl | ⟨-, rfl⟩
    · exact hs.history
    · rw [List.pairwise_append]
      refine ⟨hs.history, List.pairwise_singleton _ _, ?_⟩
      intro a ha b hb
      rw [List.mem_singleton.mp hb]
      exact hs.history_lt a ha
  have hne : ∀ o ∈ s.live, o.ptr ≠ op.ptr := by
    intro o ho
    have hlt := hs.live_lt o ho
    omega
  constructor
  case sorted =>
    rw [hq, List.pairwise_append]
    refine ⟨hs.sorted, List.pairwise_singleton _ _, ?_⟩
    intro a ha b hb
    rw [List.mem_singleton.mp hb, hptr]
    exact hs.live_lt a (mem_live.mpr (.inl ha))
  case live_lt =>
    intro o ho
    rw [hnext]
    rcases (hlive o).mp ho with ho | rfl
    · have hlt := hs.live_lt o ho
      omega
    · omega
  case dispatched =>
    intro n hn o ho
    rw [hout] at hn
    rw [hq, List.mem_append, List.mem_singleton] at ho
    rcases ho with ho | rfl
    · exact hs.dispatched n hn o ho
    · exact hne n.2 (mem_live.mpr (.inr ⟨n.1, hn⟩))
  case same_ptr =>
    intro o ho o' ho' heq
    rcases (hlive o).mp ho with ho | rfl <;> rcases (hlive o').mp ho' with ho' | rfl
    · exact hs.same_ptr o ho o' ho' heq
    · exact absurd heq (hne o ho)
    · exact absurd heq.symm (hne o' ho')
    · rfl
  case same_seq =>
    intro o ho o' ho' heq
    rcases (hlive o).mp ho with ho | rfl <;> rcases (hlive o').mp ho' with ho' | rfl
    · exact hs.same_seq o ho o' ho' heq
    · exact absurd heq (hfresh o ho)
    · exact absurd heq.symm (hfresh o' ho')
    · rfl
  case unsplit =>
    unfold getNumSplitRqsts
    rw [hout]
    exact hs.unsplit
  case history => exact hhist
  case history_lt =>
    intro p hp
    rw [hnext]
    rcases hnew p hp with hp | ⟨rfl, -⟩
    · have hlt := hs.history_lt p hp
      omega
    · exact Nat.lt_succ_self _
  case accepted =>
    intro p hp
    rcases hnew p hp with hp | ⟨rfl, henq⟩
    · exact hs.accepted p hp
    · exact henq
  case stems =>
    intro o ho
    rcases (hlive o).mp ho with ho | rfl
    · obtain ⟨c', hc', hstem'⟩ := hs.stems o ho
      exact ⟨c', hsub _ hc', hstem'⟩
    · exact ⟨c, hc, hstem⟩
  case entry =>
    intro e he
    rw [hamo, List.mem_append] at he
    rcases he with he | he
    · obtain ⟨hkey, hk, o, ho, n, hn⟩ := hs.entry e he
      exact ⟨hkey, hk, o, (hlive o).mpr (.inl ho), n, hn⟩
    · rcases hes with ⟨-, rfl⟩ | ⟨hisAMO, e', rfl, hkey, hmem⟩
      · simp at he
      · rw [List.mem_singleton.mp he, hkey, hmem]
        exact ⟨rfl, hkind hisAMO, op, (hlive op).mpr (.inr rfl), op.SplitRqst, rfl⟩
  case entry_amo =>
    intro e he
    rw [hamo, List.mem_append] at he
    rcases he with he | he
    · obtain ⟨c', hc', hisAMO⟩ := hs.entry_amo e he
      exact ⟨c', hsub _ hc', hisAMO⟩
    · rcases hes with ⟨-, rfl⟩ | ⟨hisAMO, e', rfl, -, hmem⟩
      · simp at he
      · rw [List.mem_singleton.mp he, hmem]
        exact ⟨c, hc, hisAMO⟩
  case entries =>
    rw [hamo, List.map_append]
    rcases hes with ⟨-, rfl⟩ | ⟨-, e', rfl, -, hmem⟩
    · simpa using hs.entries
    · rw [List.nodup_append]
      refine ⟨hs.entries, List.nodup_singleton _, ?_⟩
      intro a ha b hb
      rw [List.map_singleton, List.mem_singleton, hmem] at hb
      obtain ⟨e, he, rfl⟩ := List.mem_map.mp ha
      obtain ⟨-, -, o, ho, n, hn⟩ := hs.entry e he
      have hneo := hne o ho
      rw [hn] at hneo
      rw [hb]
      exact hneo
  case tabled =>
    intro o ho c' hc' hisAMO
    rw [hamo]
    rw [hq, List.mem_append, List.mem_singleton] at ho
    rcases ho with ho | rfl
    · rcases hnew _ hc' with hold | ⟨heq, -⟩
      · obtain ⟨e, he, hp⟩ := hs.tabled o ho c' hold hisAMO
        exact ⟨e, List.mem_append.mpr (.inl he), hp⟩
      · have hmem : o ∈ s.live := mem_live.mpr (.inl ho)
        have hle := hs.seq_le hmem
        have hlt := hs.live_lt o hmem
        rw [(Prod.mk.inj heq).1] at hle
        omega
    · rcases hes with ⟨hnot, rfl⟩ | ⟨-, e', rfl, -, hmem⟩
      · have heq := (Prod.mk.inj (eq_of_pairwise_lt hhist hc' hc rfl)).2
        rw [heq, hnot] at hisAMO
        simp at hisAMO
      · exact ⟨e', by simp, by rw [hmem]⟩

/-- What is left of the queue without a slot are the other operations. -/
theorem mem_eraseIdx (hs : s.Ordered issued) {i : ℕ} {op : RevMemOp} (hslot : s.rqstQ[i]? = some op)
    {o : RevMemOp} : o ∈ s.rqstQ.eraseIdx i ↔ o ∈ s.rqstQ ∧ o.ptr ≠ op.ptr := by
  obtain ⟨l₁, l₂, hsplit, -, herase⟩ := getElem?_split hslot
  have hsorted := hs.sorted
  rw [hsplit, List.pairwise_append, List.pairwise_cons] at hsorted
  rw [herase, hsplit, List.mem_append, List.mem_append, List.mem_cons]
  constructor
  · rintro (ho | ho)
    · exact ⟨.inl ho, Nat.ne_of_lt (hsorted.2.2 o ho op (by simp))⟩
    · exact ⟨.inr (.inr ho), Nat.ne_of_gt (hsorted.2.1.1 o ho)⟩
  · rintro ⟨ho | rfl | ho, hne⟩
    · exact .inl ho
    · exact absurd rfl hne
    · exact .inr ho

/-- A dispatch moves one operation from the queue to `outstanding`. -/
theorem mem_live_dispatch (hs : s.Ordered issued) {P : Params} {i : ℕ} {op : RevMemOp}
    (hslot : s.rqstQ[i]? = some op) {o : RevMemOp} :
    o ∈ (dispatchSlot P s i op).live ↔ o ∈ s.live ∧ o.ptr ≠ op.ptr ∨ o = splitOp P op := by
  have hop : op ∈ s.rqstQ := List.mem_of_getElem? hslot
  rw [mem_live, mem_live]
  simp only [dispatchSlot_rqstQ, dispatchSlot_outstanding, List.mem_append, List.mem_map,
    List.mem_range'_1, hs.mem_eraseIdx hslot, Prod.mk.injEq]
  constructor
  · rintro (⟨ho, hne⟩ | ⟨id, ho | ⟨id', -, -, ho⟩⟩)
    · exact .inl ⟨.inl ho, hne⟩
    · exact .inl ⟨.inr ⟨id, ho⟩, hs.dispatched _ ho op hop⟩
    · exact .inr ho.symm
  · rintro (⟨ho | ⟨id, ho⟩, hne⟩ | rfl)
    · exact .inl ⟨ho, hne⟩
    · exact .inr ⟨id, .inl ho⟩
    · have hpos : 0 < (dispatchParts P op).length :=
        List.length_pos_iff.mpr (dispatchParts_ne_nil P op)
      exact .inr ⟨s.nextId, .inr ⟨s.nextId, by omega, rfl, rfl⟩⟩

theorem dispatch (hs : s.Ordered issued) {P : Params} {i : ℕ} {op : RevMemOp}
    (hslot : s.rqstQ[i]? = some op) : (dispatchSlot P s i op).Ordered issued := by
  have hop : op ∈ s.live := mem_live.mpr (.inl (List.mem_of_getElem? hslot))
  have hmem : ∀ {o}, o ∈ (dispatchSlot P s i op).live ↔
      o ∈ s.live ∧ o.ptr ≠ op.ptr ∨ o = splitOp P op := hs.mem_live_dispatch hslot
  have hsame : ∀ o ∈ s.live, o.ptr ≠ op.ptr → o.seq ≠ op.seq := fun o ho hne heq =>
    hne (by rw [hs.same_seq o ho op hop heq])
  constructor
  case sorted => exact hs.sorted.sublist (List.eraseIdx_sublist _ _)
  case live_lt =>
    intro o ho
    rw [dispatchSlot_nextPtr]
    rcases hmem.mp ho with ⟨ho, -⟩ | rfl
    · exact hs.live_lt o ho
    · rw [splitOp_ptr]
      exact hs.live_lt op hop
  case dispatched =>
    intro n hn o ho
    obtain ⟨ho, hne⟩ := (hs.mem_eraseIdx hslot).mp ho
    rw [dispatchSlot_outstanding, List.mem_append, List.mem_map] at hn
    rcases hn with hn | ⟨id, -, rfl⟩
    · exact hs.dispatched n hn o ho
    · simp only [splitOp_ptr]
      exact hne.symm
  case same_ptr =>
    intro o ho o' ho' heq
    rcases hmem.mp ho with ⟨ho, hne⟩ | rfl <;> rcases hmem.mp ho' with ⟨ho', hne'⟩ | rfl
    · exact hs.same_ptr o ho o' ho' heq
    · exact absurd (heq.trans (splitOp_ptr P op)) hne
    · exact absurd (heq.symm.trans (splitOp_ptr P op)) hne'
    · rfl
  case same_seq =>
    intro o ho o' ho' heq
    rcases hmem.mp ho with ⟨ho, hne⟩ | rfl <;> rcases hmem.mp ho' with ⟨ho', hne'⟩ | rfl
    · exact hs.same_seq o ho o' ho' heq
    · exact absurd (heq.trans (splitOp_seq P op)) (hsame o ho hne)
    · exact absurd (heq.symm.trans (splitOp_seq P op)) (hsame o' ho' hne')
    · rfl
  case unsplit =>
    intro n hn hle
    have hqueue : op ∈ s.rqstQ := List.mem_of_getElem? hslot
    rw [dispatchSlot_outstanding, List.mem_append, List.mem_map] at hn
    unfold getNumSplitRqsts
    rw [dispatchSlot_outstanding, List.countP_append, List.countP_map]
    rcases hn with hn | ⟨id, -, rfl⟩
    · have hne : op.ptr ≠ n.2.ptr := (hs.dispatched n hn op hqueue).symm
      have hold := hs.unsplit n hn hle
      unfold getNumSplitRqsts at hold
      simp [hold, Function.comp_def, hne]
    · have hzero : s.outstanding.countP (fun n => n.2.ptr == op.ptr) = 0 := by
        rw [List.countP_eq_zero]
        intro n hn
        simpa using hs.dispatched n hn op hqueue
      have hlen : (dispatchParts P op).length = 1 := by
        rw [dispatchParts_length]
        split
        · exact Nat.max_eq_left hle
        · rfl
      simp [hzero, hlen]
  case history => exact hs.history
  case history_lt =>
    rw [dispatchSlot_nextPtr]
    exact hs.history_lt
  case accepted => exact hs.accepted
  case stems =>
    intro o ho
    rcases hmem.mp ho with ⟨ho, -⟩ | rfl
    · exact hs.stems o ho
    · obtain ⟨c, hc, hstem⟩ := hs.stems op hop
      rw [splitOp_eq]
      exact ⟨c, hc, hstem.split _⟩
  case entry =>
    intro e he
    rw [dispatchSlot_AMOTable] at he
    obtain ⟨hkey, hkind, o, ho, n, hn⟩ := hs.entry e he
    refine ⟨hkey, hkind, ?_⟩
    by_cases heq : o.ptr = op.ptr
    · obtain rfl := hs.same_ptr o ho op hop heq
      exact ⟨splitOp P o, hmem.mpr (.inr rfl), _, by rw [splitOp_eq, hn]⟩
    · exact ⟨o, hmem.mpr (.inl ⟨ho, heq⟩), n, hn⟩
  case entry_amo =>
    rw [dispatchSlot_AMOTable]
    exact hs.entry_amo
  case entries =>
    rw [dispatchSlot_AMOTable]
    exact hs.entries
  case tabled =>
    intro o ho c hc hisAMO
    rw [dispatchSlot_AMOTable]
    exact hs.tabled o ((hs.mem_eraseIdx hslot).mp ho).1 c hc hisAMO

end Ordered

end RevBasicMemCtrl

end RevCPU
