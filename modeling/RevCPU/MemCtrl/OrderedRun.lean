import RevCPU.MemCtrl.Ordered

namespace RevCPU

open Lib RevBasicMemCtrl

namespace RevBasicMemCtrl.Ordered

variable {s s' : RevBasicMemCtrl} {issued : List (ℕ × Call)}

/-- The removal of a fence from the queue. -/
theorem dropFence (hs : s.Ordered issued) {i : ℕ} {op : RevMemOp} (hslot : s.rqstQ[i]? = some op)
    (hop : op.Op = .MemOpFENCE) (hq : s'.rqstQ = s.rqstQ.eraseIdx i)
    (hout : s'.outstanding = s.outstanding) (hamo : s'.AMOTable = s.AMOTable)
    (hptr : s'.nextPtr = s.nextPtr) : s'.Ordered issued := by
  have hmem : op ∈ s.live := mem_live.mpr (.inl (List.mem_of_getElem? hslot))
  refine hs.shrink (by rw [hq]; exact List.eraseIdx_sublist _ _) (by rw [hout]) hptr
    (by rw [hamo]) ?_ ?_ ?_
  · unfold getNumSplitRqsts
    rw [hout]
    exact hs.unsplit
  · intro e he o ho hptr
    rw [hamo] at he
    have hne : o.ptr ≠ op.ptr := by
      intro heq
      obtain ⟨n, hn⟩ := hs.entry_eq he hmem (by rw [← hptr, heq])
      have hkind := (hs.entry e he).2.1
      rw [hn] at hop
      rcases hkind with hkind | hkind <;> rw [hkind] at hop <;> simp at hop
    rw [mem_live] at ho ⊢
    rw [hq, hout, hs.mem_eraseIdx hslot]
    rcases ho with ho | ho
    · exact .inl ⟨ho, hne⟩
    · exact .inr ho
  · rw [hamo]
    exact fun _ _ e he _ => he

/-- The last response of an operation takes the operation away. -/
theorem gone_of_lastResp (hs : s.Ordered issued) (hbook : s.Bookkeeping) {id : ℕ} {op : RevMemOp}
    (hop : s.outstanding.lookup id = some op) (hlast : s.lastResp op = true) :
    ∀ n ∈ s.outstanding.eraseP (fun n => n.1 == id), n.2.ptr ≠ op.ptr := by
  have hone : s.getNumSplitRqsts op = 1 := by
    simp only [lastResp, Bool.or_eq_true, decide_eq_true_eq, beq_iff_eq] at hlast
    rcases hlast with hle | hone
    · exact hs.unsplit _ (mem_of_lookup hop) hle
    · exact hone
  have hcount := countP_eraseP_key (fun n => n.2.ptr == op.ptr) hop
  unfold getNumSplitRqsts at hone
  simp only [hone, beq_self_eq_true, if_true] at hcount
  have hzero : (s.outstanding.eraseP fun n => n.1 == id).countP (fun n => n.2.ptr == op.ptr) = 0 := by
    omega
  rw [List.countP_eq_zero] at hzero
  intro n hn
  simpa using hzero n hn

/-- A response that is not the last one leaves a request of the operation in
    flight. -/
theorem stays (hs : s.Ordered issued) {id : ℕ} {op : RevMemOp}
    (hop : s.outstanding.lookup id = some op) (hlast : s.lastResp op = false) :
    ∃ id', (id', op) ∈ s.outstanding.eraseP fun n => n.1 == id := by
  simp only [lastResp, Bool.or_eq_false_iff, beq_eq_false_iff_ne] at hlast
  have hcount := countP_eraseP_key (fun n => n.2.ptr == op.ptr) hop
  have hone : 0 < s.outstanding.countP fun n => n.2.ptr == op.ptr :=
    List.countP_pos_iff.mpr ⟨_, mem_of_lookup hop, by simp⟩
  have hmore : s.outstanding.countP (fun n => n.2.ptr == op.ptr) ≠ 1 := hlast.2
  have hpos : 0 < (s.outstanding.eraseP fun n => n.1 == id).countP fun n => n.2.ptr == op.ptr := by
    simp only [beq_self_eq_true, if_true] at hcount
    omega
  obtain ⟨n, hn, hptr⟩ := List.countP_pos_iff.mp hpos
  have heq : n.2 = op := hs.same_ptr _ (mem_live.mpr (.inr ⟨n.1, List.mem_of_mem_eraseP hn⟩)) _
    (mem_live.mpr (.inr ⟨_, mem_of_lookup hop⟩)) (by simpa using hptr)
  rw [← heq]
  exact ⟨n.1, hn⟩

/-- An answered request: the operation stays when other parts of it are
    outstanding; its entries may go only with it or at a write response. -/
theorem answer (hs : s.Ordered issued) (hbook : s.Bookkeeping) {id : ℕ} {op : RevMemOp}
    (hop : s.outstanding.lookup id = some op) (hq : s'.rqstQ = s.rqstQ)
    (hout : s'.outstanding = s.outstanding.eraseP fun n => n.1 == id)
    (hptr : s'.nextPtr = s.nextPtr) (hamo : s'.AMOTable.Sublist s.AMOTable)
    (hkeep : ∀ e ∈ s.AMOTable, e.memop.ptr ≠ op.ptr → e ∈ s'.AMOTable)
    (hgone : s.lastResp op = true → ∀ e ∈ s'.AMOTable, e.memop.ptr ≠ op.ptr) :
    s'.Ordered issued := by
  have hopmem : (id, op) ∈ s.outstanding := mem_of_lookup hop
  have hoplive : op ∈ s.live := mem_live.mpr (.inr ⟨id, hopmem⟩)
  have hsub : s'.outstanding.Sublist s.outstanding := by rw [hout]; exact List.eraseP_sublist
  have hcount : ∀ ptr, s.outstanding.countP (fun n => n.2.ptr == ptr) =
      s'.outstanding.countP (fun n => n.2.ptr == ptr) + if op.ptr == ptr then 1 else 0 := by
    intro ptr
    rw [hout]
    exact countP_eraseP_key (fun n => n.2.ptr == ptr) hop
  refine hs.shrink (by rw [hq]) hsub hptr hamo ?_ ?_ ?_
  · intro n hn hle
    have hold := hs.unsplit n (hsub.subset hn) hle
    have hc := hcount n.2.ptr
    have hpos : 0 < s'.outstanding.countP (fun m => m.2.ptr == n.2.ptr) :=
      List.countP_pos_iff.mpr ⟨n, hn, by simp⟩
    unfold getNumSplitRqsts at hold ⊢
    omega
  · intro e he o ho heq
    rw [mem_live] at ho ⊢
    rw [hq]
    rcases ho with ho | ⟨id', ho⟩
    · exact .inl ho
    right
    by_cases hsame : o.ptr = op.ptr
    · have hlast : s.lastResp op = false := by
        by_contra hne
        exact hgone (by simpa using hne) e he (by rw [← heq, hsame])
      have hmore : s.getNumSplitRqsts op ≠ 1 := by
        simp only [lastResp, Bool.or_eq_false_iff, beq_eq_false_iff_ne] at hlast
        exact hlast.2
      have hc := hcount op.ptr
      simp only [beq_self_eq_true, if_true] at hc
      have hpos : 0 < s'.outstanding.countP (fun m => m.2.ptr == op.ptr) := by
        unfold getNumSplitRqsts at hmore
        omega
      obtain ⟨n, hn, hnptr⟩ := List.countP_pos_iff.mp hpos
      have hno : n.2 = o := hs.same_ptr _ (mem_live.mpr (.inr ⟨n.1, hsub.subset hn⟩)) _
        (mem_live.mpr (.inr ⟨id', ho⟩)) (by rw [hsame]; simpa using hnptr)
      exact ⟨n.1, by rw [← hno]; exact hn⟩
    · refine ⟨id', ?_⟩
      rw [hout, mem_eraseP_key hbook.keys_nodup]
      refine ⟨ho, ?_⟩
      rintro rfl
      have hlookup := lookup_of_mem hbook.keys_nodup ho
      rw [hop, Option.some.injEq] at hlookup
      exact hsame (by rw [hlookup])
  · intro o ho e he heq
    refine hkeep e he ?_
    rw [heq, hq] at *
    exact (hs.dispatched _ hopmem o ho).symm

/-- Erasing the entry of an operation leaves no other entry for it. -/
theorem eraseP_isFor (hs : s.Ordered issued) {op : RevMemOp} (hop : op ∈ s.live) {e : AMOEntry}
    (he : s.AMOTable.find? (AMOEntry.isFor op) = some e) :
    ∀ e' ∈ s.AMOTable.eraseP (AMOEntry.isFor op), e'.memop.ptr ≠ op.ptr := by
  obtain ⟨a, l₁, l₂, -, ha, hsplit, herase⟩ := List.exists_of_eraseP
    (List.mem_of_find?_eq_some he) (List.find?_some he)
  have haptr : a.memop.ptr = op.ptr := (hs.isFor_iff (by simp [hsplit]) hop).mp ha
  have hnodup := hs.entries
  rw [hsplit, List.map_append, List.map_cons, List.nodup_append, List.nodup_cons] at hnodup
  intro e' he' heq
  rw [herase, List.mem_append] at he'
  rw [← haptr] at heq
  rcases he' with he' | he'
  · exact hnodup.2.2 _ (List.mem_map.mpr ⟨e', he', rfl⟩) _ (by simp) heq
  · exact hnodup.2.1.1 (List.mem_map.mpr ⟨e', he', heq⟩)

/-- The last read response of an AMO: its entry and the operation go, the write
    half and a new entry come. -/
theorem performAMO (hs : s.Ordered issued) (hbook : s.Bookkeeping) {id q : ℕ} {op : RevMemOp}
    {h : Host} {e : AMOEntry} (hop : s.outstanding.lookup id = some op)
    (hread : op.Op ≠ .MemOpWRITE) (hlast : s.lastResp op = true)
    (he : s.AMOTable.find? (AMOEntry.isFor op) = some e) (hq : s'.rqstQ =
      s.rqstQ ++ [amoHalf s.nextPtr h e.memop q])
    (hout : s'.outstanding = s.outstanding.eraseP fun n => n.1 == id)
    (hamo : s'.AMOTable = (s.AMOTable ++ [amoWriteEntry (amoHalf s.nextPtr h e.memop q)]).eraseP
      (AMOEntry.isFor op))
    (hptr : s'.nextPtr = s.nextPtr + 1) : s'.Ordered issued := by
  have hoplive : op ∈ s.live := mem_live.mpr (.inr ⟨id, mem_of_lookup hop⟩)
  have hmem : e ∈ s.AMOTable := List.mem_of_find?_eq_some he
  have hfor : AMOEntry.isFor op e = true := List.find?_some he
  obtain ⟨n, hn⟩ := hs.entry_eq hmem hoplive ((hs.isFor_iff hmem hoplive).mp hfor)
  rw [List.eraseP_append_left hfor _ hmem] at hamo
  have hrest : RevBasicMemCtrl.Ordered { s with
      outstanding := s.outstanding.eraseP fun n => n.1 == id
      AMOTable := s.AMOTable.eraseP (AMOEntry.isFor op) } issued := by
    refine hs.answer hbook hop rfl rfl rfl List.eraseP_sublist ?_ ?_
    · intro e' he' hne
      have hnot : ¬AMOEntry.isFor op e' = true := fun h => hne ((hs.isFor_iff he' hoplive).mp h)
      exact (List.mem_eraseP_of_neg hnot).mpr he'
    · exact fun _ => hs.eraseP_isFor hoplive he
  obtain ⟨c, hc, hstem⟩ := hs.stems op hoplive
  obtain ⟨c', hc', hisAMO⟩ := hs.entry_amo e hmem
  have hseq : e.memop.seq = op.seq := by rw [hn]
  rw [hseq] at hc'
  obtain rfl := hs.history_unique hc hc'
  have hlt : op.seq < s.nextPtr := hs.history_lt _ hc
  refine hrest.push (amoHalf s.nextPtr h e.memop q) c rfl ?_ ?_ ?_ (.inl rfl)
    (.inr ⟨hisAMO, _, rfl, rfl, rfl⟩) (fun _ => .inr rfl) hq hout hamo hptr
  · intro o ho hoseq
    have hoseq : o.seq = op.seq := hoseq.trans hseq
    rw [mem_live] at ho
    rcases ho with ho | ⟨id', ho⟩
    · have heq := hs.same_seq o (mem_live.mpr (.inl ho)) op hoplive hoseq
      exact hs.dispatched _ (mem_of_lookup hop) o ho (by rw [heq])
    · have hold : o ∈ s.live := mem_live.mpr (.inr ⟨id', List.mem_of_mem_eraseP ho⟩)
      have heq := hs.same_seq o hold op hoplive hoseq
      exact hs.gone_of_lastResp hbook hop hlast _ ho (by rw [heq])
  · rw [← hseq] at hc
    exact hc
  · have hhalf : amoHalf s.nextPtr h e.memop q = amoWriteOp s.nextPtr op
        ((amoTarget h e.memop q).read q e.memop.Size) (h.read q e.memop.Size) := by
      rw [hn]
      rfl
    rw [hhalf]
    exact hstem.toHalf hread hisAMO hlt _ _

theorem responded (hs : s.Ordered issued) (hbook : s.Bookkeeping) {h h' : Host} {r : StdRqst}
    {data : List UInt8} (hr : s.memIface.find? (fun x => x.id == r.id) = some r)
    (hresp : Responded s h r data s' h') : s'.Ordered issued := by
  have hlive : ∀ {op}, s.outstanding.lookup r.id = some op → op ∈ s.live := fun hop =>
    mem_live.mpr (.inr ⟨r.id, mem_of_lookup hop⟩)
  have hother : ∀ {op}, s.outstanding.lookup r.id = some op → op.Op ≠ .MemOpREAD →
      op.Op ≠ .MemOpWRITE → ∀ e ∈ s.AMOTable, e.memop.ptr ≠ op.ptr := by
    intro op hop hread hwrite e he heq
    obtain ⟨n, hn⟩ := hs.entry_eq he (hlive hop) heq
    rw [hn] at hread hwrite
    rcases (hs.entry e he).2.1 with hkind | hkind
    · exact hread hkind
    · exact hwrite hkind
  cases hresp with
  | readPart hcls hreq hop htgt hlast =>
    exact hs.answer hbook hop rfl rfl rfl (List.Sublist.refl _) (fun e he _ => he)
      (fun h => by rw [hlast] at h; simp at h)
  | readDone hcls hreq hop htgt hlast hflag hamo =>
    refine hs.answer hbook hop rfl rfl rfl (List.Sublist.refl _) (fun e he _ => he) ?_
    intro _ e he heq
    rw [List.any_eq_false] at hamo
    exact hamo e he ((hs.isFor_iff he (hlive hop)).mpr heq)
  | readAMO hcls hreq hop htgt hlast hflag hamo hq =>
    have hkind := hbook.cls_eq hr hop
    refine hs.performAMO hbook hop ?_ hlast hamo rfl rfl rfl rfl
    rw [← hkind]
    intro hw
    rw [hw] at hcls
    simp [readsBack] at hcls
  | @write op hcls hreq hop =>
    refine hs.answer hbook hop rfl rfl rfl List.filter_sublist ?_ ?_
    · intro e he hne
      refine List.mem_filter.mpr ⟨he, ?_⟩
      rw [Bool.not_eq_true', Bool.eq_false_iff]
      exact fun hfor => hne ((hs.isFor_iff he (hlive hop)).mp hfor)
    · intro _ e he heq
      obtain ⟨he, hnot⟩ := List.mem_filter.mp he
      rw [(hs.isFor_iff he (hlive hop)).mpr heq] at hnot
      simp at hnot
  | flush hcls hreq hop =>
    have hkind := (hbook.cls_eq hr hop).symm.trans hcls
    exact hs.answer hbook hop rfl rfl rfl (List.Sublist.refl _) (fun e he _ => he)
      (fun _ => hother hop (by simp [hkind]) (by simp [hkind]))
  | custom hcls hreq hop =>
    have hkind := (hbook.cls_eq hr hop).symm.trans hcls
    exact hs.answer hbook hop rfl rfl rfl (List.Sublist.refl _) (fun e he _ => he)
      (fun _ => hother hop (by simp [hkind]) (by simp [hkind]))

/-- What a response adds to the queue: at most the write half of an AMO whose
    read was outstanding. -/
theorem responded_queue (hs : s.Ordered issued) {h h' : Host} {r : StdRqst} {data : List UInt8}
    (hresp : Responded s h r data s' h') :
    ∃ new, s'.rqstQ = s.rqstQ ++ new ∧
      ∀ w ∈ new, w.ptr ≠ w.seq ∧ ∃ n ∈ s.outstanding, n.2.seq = w.seq := by
  cases hresp with
  | readPart | readDone | write | flush | custom => exact ⟨[], by simp [answered], by simp⟩
  | @readAMO op p q h₁ e hcls hreq hop htgt hlast hflag hamo hq =>
    refine ⟨_, rfl, ?_⟩
    intro w hw
    rw [List.mem_singleton.mp hw]
    have hmem : e ∈ s.AMOTable := List.mem_of_find?_eq_some hamo
    have hoplive : op ∈ s.live := mem_live.mpr (.inr ⟨r.id, mem_of_lookup hop⟩)
    have hptr := (hs.isFor_iff hmem hoplive).mp (List.find?_some hamo)
    obtain ⟨n, hn⟩ := hs.entry_eq hmem hoplive hptr
    have hseq : e.memop.seq = op.seq := by rw [hn]
    refine ⟨?_, (r.id, op), mem_of_lookup hop, hseq.symm⟩
    have hle := hs.seq_le hoplive
    have hlt := hs.live_lt op hoplive
    show s.nextPtr ≠ e.memop.seq
    omega

theorem responded_outstanding {h h' : Host} {r : StdRqst} {data : List UInt8}
    (hresp : Responded s h r data s' h') : s'.outstanding.Sublist s.outstanding := by
  cases hresp <;> exact List.eraseP_sublist

/-- A call that passes its guards. -/
theorem enqueue (hs : s.Ordered issued) (c : Call) (henq : c.enqueues = true) :
    (c.enqueued s).Ordered (issued ++ [(s.nextPtr, c)]) := by
  refine hs.push (c.memOp s.nextPtr) c (by simp) ?_ (by simp) (.memOp c s.nextPtr)
    (.inr ⟨henq, rfl⟩) ?_ ?_ rfl rfl rfl rfl
  · intro o ho heq
    have hle := hs.seq_le ho
    have hlt := hs.live_lt o ho
    rw [Call.memOp_seq] at heq
    omega
  · cases hamo : c.isAMO with
    | false => exact .inl ⟨rfl, by simp [Call.amoEntries, hamo]⟩
    | true => exact .inr ⟨rfl, _, by simp [Call.amoEntries, hamo]; rfl, rfl, rfl⟩
  · intro hamo
    cases c <;> simp [Call.isAMO] at hamo
    exact .inl rfl

end RevBasicMemCtrl.Ordered

namespace CtrlSys

/-- The invariant of every run of the controller. -/
structure Wf (s : CtrlSys) : Prop where
  book : s.ctrl.Bookkeeping
  ord : s.ctrl.Ordered s.issued

theorem init_wf (host : Host) : (init host).Wf := by
  refine ⟨init_bookkeeping host, ?_⟩
  constructor <;> simp [init, live]

theorem Stepped.wf {P : Params} {s s' : CtrlSys} {ev : Event} (h : Stepped P s ev s')
    (hs : s.Wf) : s'.Wf := by
  refine ⟨h.bookkeeping hs.book, ?_⟩
  cases h with
  | skip | wait | start => exact hs.ord
  | @send c htick henq => exact hs.ord.enqueue c henq
  | clear =>
    exact hs.ord.shrink (List.Sublist.refl _) (List.Sublist.refl _) rfl (List.Sublist.refl _)
      hs.ord.unsplit (fun _ _ _ h _ => h) (fun _ _ _ h _ => h)
  | process htick hproc hfence =>
    cases hproc with
    | idle => exact hs.ord
    | fence hcand hop => exact hs.ord.dropFence hcand.slot hop rfl rfl rfl rfl
    | dispatch hcand hop hamo hpend => exact hs.ord.dispatch hcand.slot
  | response htick hr hresp => exact hs.ord.responded hs.book hr hresp

end CtrlSys

end RevCPU
