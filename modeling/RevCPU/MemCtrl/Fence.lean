import RevCPU.MemCtrl.AcquireRelease

namespace RevCPU

open Lib RevBasicMemCtrl

namespace RevBasicMemCtrl

/-- The outstanding requests that are not flushes. -/
def unflushed (s : RevBasicMemCtrl) : ℕ := s.outstanding.countP fun n => n.2.Op != .MemOpFLUSH

theorem fenceSum_eq (s : RevBasicMemCtrl) :
    s.fenceSum = s.num .read + s.num .write + s.num .llsc + s.num .readlock + s.num .writeunlock +
      s.num .custom := rfl

theorem dispatchSlot_fenceSum (P : Params) (s : RevBasicMemCtrl) (i : ℕ) {op : RevMemOp}
    (hfence : op.Op ≠ .MemOpFENCE) (hamo : op.Op ≠ .MemOpAMO) :
    (dispatchSlot P s i op).fenceSum =
      s.fenceSum + if op.Op = .MemOpFLUSH then 0 else UInt64.ofNat (dispatchParts P op).length := by
  simp only [fenceSum_eq, dispatchSlot_num]
  generalize UInt64.ofNat (dispatchParts P op).length = n
  cases hop : op.Op <;> simp [hop, MemOp.counter] at hfence hamo ⊢ <;> ac_rfl

theorem Responded.fenceSum {s s' : RevBasicMemCtrl} {h h' : Host} {r : StdRqst}
    {data : List UInt8} (hresp : Responded s h r data s' h') :
    s'.fenceSum = s.fenceSum - if r.cls = .MemOpFLUSH then 0 else 1 := by
  have hnum := hresp.num
  have hkind : readsBack r.cls ∨ writesBack r.cls ∨ r.cls = .MemOpFLUSH ∨ r.cls = .MemOpCUSTOM := by
    cases hresp <;> simp_all
  simp only [fenceSum_eq, hnum]
  cases hcls : r.cls <;> simp [hcls, readsBack, writesBack, MemOp.answerCounter] at hkind ⊢ <;>
    grind

theorem dispatchSlot_unflushed (P : Params) (s : RevBasicMemCtrl) (i : ℕ) (op : RevMemOp) :
    (dispatchSlot P s i op).unflushed =
      s.unflushed + if op.Op = .MemOpFLUSH then 0 else (dispatchParts P op).length := by
  unfold unflushed
  rw [dispatchSlot_outstanding, List.countP_append]
  congr 1
  by_cases hop : op.Op = .MemOpFLUSH
  · simp [List.countP_map, Function.comp_def, hop]
  · have hne : (op.Op != .MemOpFLUSH) = true := by simpa using hop
    simp [List.countP_map, Function.comp_def, hop, hne]

theorem Responded.unflushed {s s' : RevBasicMemCtrl} {h h' : Host} {r : StdRqst}
    {data : List UInt8} (hs : s.Bookkeeping)
    (hr : s.memIface.find? (fun x => x.id == r.id) = some r)
    (hresp : Responded s h r data s' h') :
    s.unflushed = s'.unflushed + if r.cls = .MemOpFLUSH then 0 else 1 := by
  obtain ⟨op, hop, hout⟩ : ∃ op, s.outstanding.lookup r.id = some op ∧
      s'.outstanding = s.outstanding.eraseP fun n => n.1 == r.id := by
    cases hresp <;> exact ⟨_, ‹_›, rfl⟩
  have hcls := hs.cls_eq hr hop
  unfold RevBasicMemCtrl.unflushed
  rw [hout, countP_eraseP_key (fun n => n.2.Op != .MemOpFLUSH) hop]
  by_cases hflush : op.Op = .MemOpFLUSH <;> simp [hcls, hflush]

end RevBasicMemCtrl

namespace CtrlSys

/-- The handlers that decrement the counter of another kind cancel out in the
    sum that a fence waits for. -/
theorem Stepped.fenceSum {P : Params} {s s' : CtrlSys} {ev : Event} (h : Stepped P s ev s')
    (hbook : s.ctrl.Bookkeeping) (hs : s.ctrl.fenceSum = UInt64.ofNat s.ctrl.unflushed) :
    s'.ctrl.fenceSum = UInt64.ofNat s'.ctrl.unflushed := by
  cases h with
  | skip | send | wait | start | clear => exact hs
  | process htick hproc hfence =>
    cases hproc with
    | idle => exact hs
    | fence => exact hs
    | @dispatch i op hcand hop hamo hpend =>
      simp only [dispatchSlot_fenceSum P s.ctrl i hop hamo, dispatchSlot_unflushed, hs]
      split <;> simp
  | @response r data ctrl host htick hr hresp =>
    have hsum := hresp.fenceSum
    have hcount := hresp.unflushed hbook hr
    simp only [hsum, hs, hcount]
    split
    · simp
    · simp [UInt64.ofNat_add]

/-- The fence ordering law for one event: nothing enqueued after a fence is
    dispatched while something enqueued before it is unfinished. -/
def FenceOrder (P : Params) (s : CtrlSys) (ev : Event) : Prop :=
  ∀ op, Dispatches P s ev op → ∀ f h, (f, .FENCE h) ∈ s.issued → f < op.seq →
    ∀ k r, (k, r) ∈ s.issued → k < f → ¬s.ctrl.Pending k

/-- The condition on the state before a step. A `processNextRqst` does not scan
    past an operation whose kind is used up and then take a fence; a `clockTick`
    that releases a fence finds no flush outstanding and no write half of an AMO
    in the queue. -/
def FenceOk (P : Params) (s : CtrlSys) : Event → Prop
  | .processNextRqst => ∀ t i op, s.tick = some t → Candidate P s.ctrl.rqstQ t i op →
      op.Op = .MemOpFENCE → i = 0
  | .clockTick => s.ctrl.num_fence ≠ 0 → s.ctrl.fenceSum = 0 →
      (∀ n ∈ s.ctrl.outstanding, n.2.Op ≠ .MemOpFLUSH) ∧ ∀ o ∈ s.ctrl.rqstQ, o.ptr = o.seq
  | _ => True

/-- `FenceOk` as a check: a fence in a later slot has an available operation in
    front of it. -/
def fenceCheck (P : Params) (s : CtrlSys) : Event → Bool
  | .processNextRqst => s.tick.all fun t => s.ctrl.rqstQ.zipIdx.all fun (op, i) =>
      op.Op != .MemOpFENCE || i == 0 ||
        (s.ctrl.rqstQ.take i).any fun o => isMemOpAvail P o t != some (false, t)
  | .clockTick => s.ctrl.num_fence == 0 || s.ctrl.fenceSum != 0 ||
      (s.ctrl.outstanding.all fun n => n.2.Op != .MemOpFLUSH) &&
        s.ctrl.rqstQ.all fun o => o.ptr == o.seq
  | _ => true

theorem fenceOk_of_check {P : Params} {s : CtrlSys} {ev : Event} (h : fenceCheck P s ev = true) :
    FenceOk P s ev := by
  cases ev with
  | send | response => exact trivial
  | clockTick =>
    intro hfence hsum
    simpa [fenceCheck, hfence, hsum] using h
  | processNextRqst =>
    intro t i op htick hcand hop
    simp only [fenceCheck, htick, Option.all_some, List.all_eq_true] at h
    have hslot := h (op, i) (List.mem_zipIdx_iff_getElem?.mpr hcand.slot)
    by_contra hi
    simp only [hop, bne_self_eq_false, Bool.false_or, beq_eq_false_iff_ne.mpr hi,
      List.any_eq_true, bne_iff_ne] at hslot
    obtain ⟨o, ho, havail⟩ := hslot
    obtain ⟨j, hj⟩ := List.mem_iff_getElem?.mp ho
    rw [List.getElem?_take] at hj
    split at hj
    · rename_i hji
      exact havail (hcand.skipped j hji o hj)
    · simp at hj

/-- Everything enqueued before the fence `f` is finished. -/
def Cleared (s : CtrlSys) (f : ℕ) : Prop := ∀ o ∈ s.ctrl.live, f ≤ o.seq

/-- Nothing enqueued after the fence `f` has been dispatched. -/
def Ahead (s : CtrlSys) (f : ℕ) : Prop :=
  ∀ o ∈ s.ctrl.live, f < o.seq → o ∈ s.ctrl.rqstQ ∧ o.ptr = o.seq

/-- The fence `f` is still in the queue. -/
def Queued (s : CtrlSys) (f : ℕ) : Prop := ∃ o ∈ s.ctrl.rqstQ, o.seq = f

/-- The fence `f` has left the queue and nothing enqueued before it is in the
    queue, write halves apart. -/
def Waiting (s : CtrlSys) (f : ℕ) : Prop :=
  s.ctrl.num_fence ≠ 0 ∧ ∀ o ∈ s.ctrl.rqstQ, o.ptr = o.seq → f < o.seq

/-- The invariant behind the fence ordering. -/
structure FenceInv (s : CtrlSys) : Prop where
  ticking : s.tick ≠ none → s.ctrl.num_fence = 0
  single : s.ctrl.num_fence = 0 ∨ s.ctrl.num_fence = 1
  phase : ∀ f h, (f, .FENCE h) ∈ s.issued → s.Cleared f ∨ s.Ahead f ∧ (s.Queued f ∨ s.Waiting f)

/-- The operation of a fence is the one that `sendFENCE` enqueued. -/
theorem Wf.fence_op {s : CtrlSys} (hs : s.Wf) {f h : ℕ} (hf : (f, Call.FENCE h) ∈ s.issued)
    {o : RevMemOp} (ho : o ∈ s.ctrl.live) (hseq : o.seq = f) :
    o.ptr = o.seq ∧ o.Op = .MemOpFENCE := by
  obtain ⟨c, hc, hstem⟩ := hs.ord.stems o ho
  rw [hseq] at hc
  obtain rfl := hs.ord.history_unique hf hc
  cases hstem with
  | original seq n => exact ⟨rfl, rfl⟩
  | half seq ptr n buffer tempT hamo hlt => simp [Call.isAMO] at hamo

/-- The scan never passes a fence, so the candidate was enqueued before every
    fence in the queue, or is one. -/
theorem Wf.candidate_before_fence {P : Params} {s : CtrlSys} (hs : s.Wf) {f h i : ℕ} {t : TMax}
    {op : RevMemOp} (hf : (f, Call.FENCE h) ∈ s.issued) (hq : s.Queued f)
    (hcand : Candidate P s.ctrl.rqstQ t i op) (hop : op.Op ≠ .MemOpFENCE) : op.seq < f := by
  obtain ⟨o, ho, rfl⟩ := hq
  obtain ⟨horig, hofence⟩ := hs.fence_op hf (mem_live.mpr (.inl ho)) rfl
  obtain ⟨j, hj⟩ := List.mem_iff_getElem?.mp ho
  rcases Nat.lt_trichotomy j i with hji | rfl | hij
  · have hskip := hcand.skipped j hji o hj
    simp [isMemOpAvail, hofence] at hskip
  · rw [hcand.slot, Option.some.injEq] at hj
    rw [hj] at hop
    exact absurd hofence hop
  · exact hs.ord.seq_lt_of_slot hcand.slot hj hij horig

theorem FenceInv.order {P : Params} {s : CtrlSys} {ev : Event} (hs : s.Wf) (hinv : s.FenceInv) :
    FenceOrder P s ev := by
  intro op hdisp f h hf hlt k r hr hk hpend
  obtain ⟨-, t, i, op', htick, hcand, hop, -, rfl⟩ := hdisp.candidate
  rw [splitOp_seq] at hlt
  have hzero := hinv.ticking (by rw [htick]; simp)
  rcases hinv.phase f h hf with hclear | ⟨hahead, hq | ⟨hwait, -⟩⟩
  · obtain ⟨o, ho, rfl⟩ := hs.ord.pending_live hpend
    have hle := hclear o ho
    omega
  · have hbefore := hs.candidate_before_fence hf hq hcand hop
    omega
  · exact absurd hzero hwait

theorem init_fenceInv (host : Host) : (init host).FenceInv := by
  constructor <;> simp [init]

theorem FenceInv.send {s : CtrlSys} (hs : s.Wf) (hinv : s.FenceInv) {c : Call}
    (htick : s.tick = none) :
    FenceInv { s with ctrl := c.enqueued s.ctrl, issued := s.issued ++ [(s.ctrl.nextPtr, c)] } := by
  have hlive : ∀ o, o ∈ (c.enqueued s.ctrl).live ↔ o ∈ s.ctrl.live ∨ o = c.memOp s.ctrl.nextPtr := by
    intro o
    rw [mem_live, mem_live]
    simp only [Call.enqueued, List.mem_append, List.mem_singleton]
    tauto
  refine ⟨fun h => absurd htick h, hinv.single, ?_⟩
  intro f h hf
  rcases List.mem_append.mp hf with hf | hf
  · have hflt := hs.ord.history_lt _ hf
    rcases hinv.phase f h hf with hclear | ⟨hahead, hphase⟩
    · left
      intro o ho
      rcases (hlive o).mp ho with ho | rfl
      · exact hclear o ho
      · rw [Call.memOp_seq]
        exact Nat.le_of_lt hflt
    · right
      refine ⟨?_, ?_⟩
      · intro o ho hlt
        rcases (hlive o).mp ho with ho | rfl
        · obtain ⟨hq, horig⟩ := hahead o ho hlt
          exact ⟨List.mem_append.mpr (.inl hq), horig⟩
        · exact ⟨by simp [Call.enqueued], by simp⟩
      · rcases hphase with ⟨o, ho, hseq⟩ | ⟨hne, hwait⟩
        · exact .inl ⟨o, List.mem_append.mpr (.inl ho), hseq⟩
        · refine .inr ⟨hne, ?_⟩
          intro o ho horig
          rcases List.mem_append.mp ho with ho | ho
          · exact hwait o ho horig
          · rw [List.mem_singleton.mp ho, Call.memOp_seq]
            exact hflt
  · obtain ⟨rfl, rfl⟩ := Prod.mk.inj (List.mem_singleton.mp hf)
    right
    refine ⟨?_, .inl ⟨(Call.FENCE h).memOp s.ctrl.nextPtr, by simp [Call.enqueued], by simp⟩⟩
    intro o ho hlt
    exfalso
    rcases (hlive o).mp ho with ho | rfl
    · have hle := hs.ord.seq_le ho
      have hlt' := hs.ord.live_lt o ho
      omega
    · simp at hlt

theorem FenceInv.clear {s : CtrlSys} (hinv : s.FenceInv)
    (hfence : 0 < s.ctrl.num_fence) (hout : s.ctrl.outstanding = [])
    (horig : ∀ o ∈ s.ctrl.rqstQ, o.ptr = o.seq) :
    FenceInv { s with ctrl := { s.ctrl with num_fence := s.ctrl.num_fence - 1 }, tick := some {} } := by
  have hone : s.ctrl.num_fence = 1 := by
    rcases hinv.single with hz | hone
    · rw [hz] at hfence
      simp at hfence
    · exact hone
  refine ⟨fun _ => by simp [hone], .inl (by simp [hone]), ?_⟩
  intro f h hf
  rcases hinv.phase f h hf with hclear | ⟨hahead, hq | ⟨-, hwait⟩⟩
  · exact .inl hclear
  · exact .inr ⟨hahead, .inl hq⟩
  · left
    intro o ho
    rcases mem_live.mp ho with ho | ⟨id, ho⟩
    · exact Nat.le_of_lt (hwait o ho (horig o ho))
    · simp [hout] at ho

/-- The fence at the head of the queue leaves it. -/
theorem FenceInv.dropFence {s : CtrlSys} (hs : s.Wf) (hinv : s.FenceInv) {op : RevMemOp}
    (hslot : s.ctrl.rqstQ[0]? = some op) (htick : s.tick ≠ none) :
    FenceInv { s with
      ctrl := { s.ctrl with
        rqstQ := s.ctrl.rqstQ.eraseIdx 0
        num_fence := s.ctrl.num_fence + 1 }
      tick := none } := by
  have hzero := hinv.ticking htick
  have hmem : ∀ o, o ∈ s.ctrl.rqstQ.eraseIdx 0 ↔ o ∈ s.ctrl.rqstQ ∧ o.ptr ≠ op.ptr := fun o =>
    hs.ord.mem_eraseIdx hslot
  refine ⟨fun h => absurd rfl h, .inr (by simp [hzero]), ?_⟩
  intro f h hf
  rcases hinv.phase f h hf with hclear | ⟨hahead, hq | ⟨hne, -⟩⟩
  · left
    intro o ho
    refine hclear o (mem_live.mpr ?_)
    rcases mem_live.mp ho with ho | ho
    · exact .inl ((hmem o).mp ho).1
    · exact .inr ho
  · right
    obtain ⟨g, hg, hgseq⟩ := hq
    obtain ⟨horig, -⟩ := hs.fence_op hf (mem_live.mpr (.inl hg)) hgseq
    by_cases hsame : g.ptr = op.ptr
    · have hfirst : ∀ o ∈ s.ctrl.rqstQ.eraseIdx 0, op.ptr < o.ptr := by
        intro o ho
        obtain ⟨l₁, l₂, hsplit, hlen, herase⟩ := getElem?_split hslot
        obtain rfl := List.length_eq_zero_iff.mp hlen
        have hsorted := hs.ord.sorted
        rw [hsplit, List.nil_append, List.pairwise_cons] at hsorted
        rw [herase] at ho
        exact hsorted.1 o ho
      refine ⟨?_, .inr ⟨by simp [hzero], ?_⟩⟩
      · intro o ho hlt
        rcases mem_live.mp ho with ho | ⟨id, ho⟩
        · exact ⟨ho, (hahead o (mem_live.mpr (.inl ((hmem o).mp ho).1)) hlt).2⟩
        · have hq := (hahead o (mem_live.mpr (.inr ⟨id, ho⟩)) hlt).1
          exact absurd rfl (hs.ord.dispatched _ ho o hq)
      · intro o ho hoorig
        have hlt := hfirst o ho
        omega
    · refine ⟨?_, .inl ⟨g, (hmem g).mpr ⟨hg, hsame⟩, hgseq⟩⟩
      intro o ho hlt
      rcases mem_live.mp ho with ho | ⟨id, ho⟩
      · exact ⟨ho, (hahead o (mem_live.mpr (.inl ((hmem o).mp ho).1)) hlt).2⟩
      · have hq := (hahead o (mem_live.mpr (.inr ⟨id, ho⟩)) hlt).1
        exact absurd rfl (hs.ord.dispatched _ ho o hq)
  · exact absurd hzero hne

theorem FenceInv.dispatch {P : Params} {s : CtrlSys} (hs : s.Wf) (hinv : s.FenceInv) {i : ℕ}
    {t : TMax} {tick' : Option TMax} {op : RevMemOp} (hcand : Candidate P s.ctrl.rqstQ t i op)
    (hop : op.Op ≠ .MemOpFENCE) (htick : s.tick ≠ none) :
    FenceInv { s with ctrl := dispatchSlot P s.ctrl i op, tick := tick' } := by
  have hzero := hinv.ticking htick
  have hopq : op ∈ s.ctrl.rqstQ := List.mem_of_getElem? hcand.slot
  have hmem : ∀ {o}, o ∈ (dispatchSlot P s.ctrl i op).live ↔
      o ∈ s.ctrl.live ∧ o.ptr ≠ op.ptr ∨ o = splitOp P op := hs.ord.mem_live_dispatch hcand.slot
  refine ⟨fun _ => by simpa using hzero, .inl (by simpa using hzero), ?_⟩
  intro f h hf
  rcases hinv.phase f h hf with hclear | ⟨hahead, hq | ⟨hne, -⟩⟩
  · left
    intro o ho
    rcases hmem.mp ho with ⟨ho, -⟩ | rfl
    · exact hclear o ho
    · rw [splitOp_seq]
      exact hclear op (mem_live.mpr (.inl hopq))
  · right
    have hbefore := hs.candidate_before_fence hf hq hcand hop
    obtain ⟨g, hg, hgseq⟩ := hq
    obtain ⟨horig, hgop⟩ := hs.fence_op hf (mem_live.mpr (.inl hg)) hgseq
    refine ⟨?_, .inl ⟨g, ?_, hgseq⟩⟩
    · intro o ho hlt
      rcases hmem.mp ho with ⟨ho, hne⟩ | rfl
      · obtain ⟨hq, horig⟩ := hahead o ho hlt
        exact ⟨(hs.ord.mem_eraseIdx hcand.slot).mpr ⟨hq, hne⟩, horig⟩
      · rw [splitOp_seq] at hlt
        omega
    · refine (hs.ord.mem_eraseIdx hcand.slot).mpr ⟨hg, ?_⟩
      intro heq
      have hsame := hs.ord.same_ptr g (mem_live.mpr (.inl hg)) op (mem_live.mpr (.inl hopq)) heq
      rw [hsame] at hgop
      exact hop hgop
  · exact absurd hzero hne

theorem FenceInv.responded {s : CtrlSys} (hs : s.Wf) (hinv : s.FenceInv) {r : StdRqst}
    {data : List UInt8} {ctrl : RevBasicMemCtrl} {host : Host} (htick : s.tick = none)
    (hresp : Responded s.ctrl s.host r data ctrl host) : FenceInv { s with ctrl, host } := by
  obtain ⟨new, hqueue, hnew⟩ := hs.ord.responded_queue hresp
  have hsub := Ordered.responded_outstanding hresp
  have hfence : ctrl.num_fence = s.ctrl.num_fence := by cases hresp <;> rfl
  refine ⟨fun h => absurd htick h, by rw [hfence]; exact hinv.single, ?_⟩
  intro f h hf
  have hlive : ∀ o ∈ ctrl.live, o ∈ s.ctrl.live ∨ o ∈ new := by
    intro o ho
    rcases mem_live.mp ho with ho | ⟨id, ho⟩
    · rw [hqueue, List.mem_append] at ho
      exact ho.imp (fun ho => mem_live.mpr (.inl ho)) id
    · exact .inl (mem_live.mpr (.inr ⟨id, hsub.subset ho⟩))
  rcases hinv.phase f h hf with hclear | ⟨hahead, hphase⟩
  · left
    intro o ho
    rcases hlive o ho with ho | ho
    · exact hclear o ho
    · obtain ⟨-, n, hn, hseq⟩ := hnew o ho
      rw [← hseq]
      exact hclear n.2 (mem_live.mpr (.inr ⟨n.1, hn⟩))
  · right
    refine ⟨?_, ?_⟩
    · intro o ho hlt
      rcases hlive o ho with ho | ho
      · obtain ⟨hq, horig⟩ := hahead o ho hlt
        exact ⟨by rw [hqueue]; exact List.mem_append.mpr (.inl hq), horig⟩
      · obtain ⟨-, n, hn, hseq⟩ := hnew o ho
        have hq := (hahead n.2 (mem_live.mpr (.inr ⟨n.1, hn⟩)) (by rw [hseq]; exact hlt)).1
        exact absurd rfl (hs.ord.dispatched n hn n.2 hq)
    · rcases hphase with ⟨g, hg, hgseq⟩ | ⟨hne, hwait⟩
      · exact .inl ⟨g, by rw [hqueue]; exact List.mem_append.mpr (.inl hg), hgseq⟩
      · refine .inr ⟨by rw [hfence]; exact hne, ?_⟩
        intro o ho horig
        rw [hqueue, List.mem_append] at ho
        rcases ho with ho | ho
        · exact hwait o ho horig
        · exact absurd horig (hnew o ho).1

theorem Stepped.fenceInv {P : Params} {s s' : CtrlSys} {ev : Event} (h : Stepped P s ev s')
    (hs : s.Wf) (hsum : s.ctrl.fenceSum = UInt64.ofNat s.ctrl.unflushed)
    (hids : s.ctrl.nextId < 2 ^ 64) (hinv : s.FenceInv) (hok : FenceOk P s ev) : s'.FenceInv := by
  cases h with
  | skip | wait => exact hinv
  | @send c htick henq => exact hinv.send hs htick
  | start htick hfence => exact ⟨fun _ => hfence, hinv.single, hinv.phase⟩
  | clear htick hfence hzero =>
    obtain ⟨hflush, horig⟩ := hok (UInt64.pos_iff_ne_zero.mp hfence) hzero
    refine hinv.clear hfence ?_ horig
    have hcount : s.ctrl.unflushed = s.ctrl.outstanding.length :=
      List.countP_eq_length.mpr fun n hn => by simpa using hflush n hn
    have hlen : s.ctrl.outstanding.length ≤ s.ctrl.nextId := hs.book.outstanding_length_le
    rw [hsum, ← UInt64.toNat_inj, UInt64.toNat_ofNat', Nat.mod_eq_of_lt (by omega)] at hzero
    rw [hcount] at hzero
    exact List.length_eq_zero_iff.mp hzero
  | @process t tick' ctrl htick hproc hfence =>
    have hticking : s.tick ≠ none := by simp [htick]
    cases hproc with
    | idle => exact ⟨fun _ => hinv.ticking hticking, hinv.single, hinv.phase⟩
    | @fence i op hcand hop =>
      obtain rfl := hok t i op htick hcand hop
      have hnone : tick' = none := hfence (by simp)
      rw [hnone]
      exact hinv.dropFence hs hcand.slot hticking
    | dispatch hcand hop hamo hpend => exact hinv.dispatch hs hcand hop hticking
  | response htick hr hresp => exact hinv.responded hs htick hresp

/-- Every run whose steps meet `FenceOk`, and whose request ids fit in 64 bits,
    keeps the fence ordering. -/
theorem fenceOrder_of_run (P : Params) (host : Host) {tr : List (CtrlSys × Event)} {s : CtrlSys}
    (hrun : Run (step P) (init host) tr s) (hids : s.ctrl.nextId < 2 ^ 64)
    (hok : ∀ p ∈ tr, FenceOk P p.1 p.2) : ∀ p ∈ tr, FenceOrder P p.1 p.2 := by
  have hle := hrun.le_last (fun s => s.ctrl.nextId) fun s l s' hstep => (step_cases hstep).nextId_le
  obtain ⟨-, hall⟩ := hrun.invariant
    (fun s => s.Wf ∧ s.ctrl.fenceSum = UInt64.ofNat s.ctrl.unflushed ∧
      (s.ctrl.nextId < 2 ^ 64 → s.FenceInv))
    (FenceOk P) ⟨init_wf host, rfl, fun _ => init_fenceInv host⟩
    (fun s l s' hI hok hstep => by
      have hcases := step_cases hstep
      refine ⟨hcases.wf hI.1, hcases.fenceSum hI.1.book hI.2.1, fun hid => ?_⟩
      have hid' := Nat.lt_of_le_of_lt hcases.nextId_le hid
      exact hcases.fenceInv hI.1 hI.2.1 hid' (hI.2.2 hid') hok)
    hok
  intro p hp
  obtain ⟨hwf, -, hinv⟩ := hall p hp
  exact (hinv (Nat.lt_of_le_of_lt (hle p hp) hids)).order hwf

/-- Two loads, a fence and a store, with one load a tick. -/
def fenceCalls : List Event :=
  [.send (.READ 0 256 256 4 (some 0) {} .F_NONE), .send (.READ 0 512 512 4 (some 1) {} .F_NONE),
    .send (.FENCE 0), .send (.WRITE 0 768 768 4 [1, 0, 0, 0] .F_NONE)]

/-- The scan passes the second load, whose kind is used up, and takes the fence
    behind it; once the first load is answered the second load and the store
    are dispatched in one tick. -/
theorem fence_overtaken :
    ∃ tr s, Run (step { max_loads := 1 }) (init zeroHost) tr s ∧ s.ctrl.nextId < 2 ^ 64 ∧
      ∃ p ∈ tr, ¬FenceOrder { max_loads := 1 } p.1 p.2 := by
  have hrun : Run (step { max_loads := 1 }) (init zeroHost) (trace (step { max_loads := 1 })
      (init zeroHost) (fenceCalls ++ [.clockTick, .processNextRqst, .processNextRqst,
        .response 0 [0, 0, 0, 0], .clockTick, .processNextRqst])) _ := run_of_exec _ rfl
  refine ⟨_, _, hrun.snoc (l := .processNextRqst) rfl, by decide, _,
    List.mem_append.mpr (.inr (List.mem_singleton.mpr rfl)), ?_⟩
  intro hlaw
  refine hlaw ((Call.WRITE 0 768 768 4 [1, 0, 0, 0] .F_NONE).memOp 3)
    ⟨_, rfl, (2, (Call.WRITE 0 768 768 4 [1, 0, 0, 0] .F_NONE).memOp 3), ?_, ?_, rfl⟩ 2 0 ?_ ?_ 1
    (.READ 0 512 512 4 (some 1) {} .F_NONE) ?_ ?_
    (.inr (.inl ⟨(1, (Call.READ 0 512 512 4 (some 1) {} .F_NONE).memOp 1), ?_, rfl⟩))
  all_goals decide

/-- A load, a fence and a store; the store waits for the answer of the load. -/
def fenceWaited : List Event :=
  [.send (.READ 0 256 256 4 (some 0) {} .F_NONE), .send (.FENCE 0),
    .send (.WRITE 0 768 768 4 [1, 0, 0, 0] .F_NONE), .clockTick, .processNextRqst,
    .processNextRqst, .clockTick, .response 0 [0, 0, 0, 0], .clockTick, .processNextRqst]

theorem fence_waited :
    ∃ tr s, Run (step {}) (init zeroHost) tr s ∧ s.ctrl.outstanding ≠ [] ∧
      ∀ p ∈ tr, FenceOrder {} p.1 p.2 := by
  have hrun : Run (step {}) (init zeroHost) (trace (step {}) (init zeroHost) fenceWaited) _ :=
    run_of_exec _ rfl
  have hall : (trace (step {}) (init zeroHost) fenceWaited).all
      (fun p => fenceCheck {} p.1 p.2) = true := by decide
  exact ⟨_, _, hrun, by decide, fenceOrder_of_run {} zeroHost hrun (by decide)
    fun p hp => fenceOk_of_check (List.all_eq_true.mp hall p hp)⟩

end CtrlSys

end RevCPU
