import RevCPU.MemCtrl.Accounting
import RevCPU.MemCtrl.OrderedRun

namespace RevCPU

open Lib RevBasicMemCtrl

namespace RevBasicMemCtrl

/-- The request with number `k` is not finished: it is in `rqstQ`, in
    `outstanding` (in both the write half of an AMO has the number of its read
    half), or it is an AMO that is still in `AMOTable`. -/
def Pending (s : RevBasicMemCtrl) (k : ℕ) : Prop :=
  (∃ op ∈ s.rqstQ, op.seq = k) ∨ (∃ n ∈ s.outstanding, n.2.seq = k) ∨
    ∃ e ∈ s.AMOTable, e.memop.seq = k

theorem Ordered.pending_live {s : RevBasicMemCtrl} {issued : List (ℕ × Call)}
    (hs : s.Ordered issued) {k : ℕ} (h : s.Pending k) : ∃ op ∈ s.live, op.seq = k := by
  rcases h with ⟨op, hop, hk⟩ | ⟨n, hn, hk⟩ | ⟨e, he, hk⟩
  · exact ⟨op, mem_live.mpr (.inl hop), hk⟩
  · exact ⟨n.2, mem_live.mpr (.inr ⟨n.1, hn⟩), hk⟩
  · obtain ⟨-, -, op, hop, n, hn⟩ := hs.entry e he
    exact ⟨op, hop, by rw [hn]; exact hk⟩

theorem Stems.Hart_eq {c : Call} {op : RevMemOp} (h : Stems c op) : op.Hart = c.Hart := by
  cases h <;> simp [amoWriteOp]

theorem Stems.flags_eq {c : Call} {op : RevMemOp} (h : Stems c op) : op.flags = c.flags := by
  cases h <;> simp [amoWriteOp]

/-- An operation in a later slot that is not a write half was enqueued later. -/
theorem Ordered.seq_lt_of_slot {s : RevBasicMemCtrl} {issued : List (ℕ × Call)}
    (hs : s.Ordered issued) {i j : ℕ} {op o : RevMemOp} (hi : s.rqstQ[i]? = some op)
    (hj : s.rqstQ[j]? = some o) (hij : i < j) (horig : o.ptr = o.seq) : op.seq < o.seq := by
  obtain ⟨hilt, rfl⟩ := List.getElem?_eq_some_iff.mp hi
  obtain ⟨hjlt, rfl⟩ := List.getElem?_eq_some_iff.mp hj
  have hlt := List.pairwise_iff_getElem.mp hs.sorted i j hilt hjlt hij
  have hle := hs.seq_le (mem_live.mpr (.inl (List.getElem_mem hilt)))
  omega

/-- The guard of `sendAMORequest`. -/
theorem Call.atomic_of_enqueues {c : Call} (henq : c.enqueues = true) (hamo : c.isAMO = true) :
    RevFlagHas c.flags .F_ATOMIC = true := by
  cases c <;> simp [Call.isAMO] at hamo
  simp only [Call.enqueues, Bool.and_eq_true] at henq
  exact henq.2

/-- The operation is, or is the write half of, an acquire AMO. -/
def isAcquire (op : RevMemOp) : Bool := RevFlagHas op.flags .F_ATOMIC && RevFlagHas op.flags .F_AQ

def isRelease (op : RevMemOp) : Bool := RevFlagHas op.flags .F_ATOMIC && RevFlagHas op.flags .F_RL

/-- The operations enqueued before `op` by its hart that `isAQ` and `isRL` do
    not see when `op` is in slot `i`: those that have left the queue and the
    write halves that have been put behind `op`. -/
def unseen (s : RevBasicMemCtrl) (i : ℕ) (op : RevMemOp) : List RevMemOp :=
  (s.outstanding.map Prod.snd ++ (s.rqstQ.drop (i + 1)).filter fun o => o.ptr != o.seq).filter
    fun o => o.Hart == op.Hart && decide (o.seq < op.seq)

end RevBasicMemCtrl

namespace CtrlSys

/-- The event sends a request of the operation `op` to the memory. -/
def Dispatches (P : Params) (s : CtrlSys) (ev : Event) (op : RevMemOp) : Prop :=
  ∃ s', step P s ev = some s' ∧ ∃ n ∈ s'.ctrl.outstanding, n ∉ s.ctrl.outstanding ∧ n.2 = op

/-- The acquire and release law for one event. -/
structure AcqRel (P : Params) (s : CtrlSys) (ev : Event) : Prop where
  acquire : ∀ op c, Dispatches P s ev op → (op.seq, c) ∈ s.issued →
    ∀ k a, (k, a) ∈ s.issued → a.isAMO = true → RevFlagHas a.flags .F_AQ = true →
      a.Hart = c.Hart → k < op.seq → ¬s.ctrl.Pending k
  release : ∀ op c, Dispatches P s ev op → (op.seq, c) ∈ s.issued → c.isAMO = true →
    RevFlagHas c.flags .F_RL = true → op.Op = .MemOpREAD →
    ∀ k r, (k, r) ∈ s.issued → r.Hart = c.Hart → k < op.seq → ¬s.ctrl.Pending k

/-- The condition on the state before a `processNextRqst`: if the operation that
    the scan stops at is not held back, no acquire AMO is unseen by it, and it
    is not the read of a release AMO with an unseen operation. -/
def AcqRelOk (P : Params) (s : CtrlSys) : Prop :=
  ∀ t i op, s.tick = some t → Candidate P s.ctrl.rqstQ t i op →
    s.ctrl.isPendingAMO i op = false →
    (∀ o ∈ s.ctrl.unseen i op, isAcquire o = false) ∧
      (isRelease op = true → op.Op = .MemOpREAD → s.ctrl.unseen i op = [])

/-- A check of `AcqRelOk` over all slots. -/
def acqRelCheck (s : CtrlSys) : Bool :=
  s.ctrl.rqstQ.zipIdx.all fun (op, i) =>
    (s.ctrl.unseen i op).all (fun o => !isAcquire o) &&
      (!isRelease op || (s.ctrl.unseen i op).isEmpty)

theorem acqRelOk_of_check {P : Params} {s : CtrlSys} (h : s.acqRelCheck = true) :
    AcqRelOk P s := by
  intro t i op _ hcand _
  have hmem : (op, i) ∈ s.ctrl.rqstQ.zipIdx := List.mem_zipIdx_iff_getElem?.mpr hcand.slot
  have hslot := List.all_eq_true.mp h (op, i) hmem
  simp only [Bool.and_eq_true, List.all_eq_true, Bool.not_eq_true', Bool.or_eq_true] at hslot
  refine ⟨hslot.1, fun hrel _ => ?_⟩
  rcases hslot.2 with hnot | hempty
  · rw [hrel] at hnot
    simp at hnot
  · exact List.isEmpty_iff.mp hempty

/-- Only a `processNextRqst` that sends its candidate dispatches. -/
theorem Dispatches.candidate {P : Params} {s : CtrlSys} {ev : Event} {op : RevMemOp}
    (h : Dispatches P s ev op) :
    ev = .processNextRqst ∧ ∃ t i op', s.tick = some t ∧ Candidate P s.ctrl.rqstQ t i op' ∧
      op'.Op ≠ .MemOpFENCE ∧ s.ctrl.isPendingAMO i op' = false ∧ op = splitOp P op' := by
  obtain ⟨s', hstep, n, hn, hnew, rfl⟩ := h
  cases step_cases hstep with
  | skip | send | wait | start | clear => exact absurd hn hnew
  | @process t _ _ htick hproc hfence =>
    cases hproc with
    | idle => exact absurd hn hnew
    | fence => exact absurd hn hnew
    | @dispatch i op' hcand hop hamo hpend =>
      simp only [dispatchSlot_outstanding, List.mem_append, List.mem_map] at hn
      rcases hn with hn | ⟨id, -, rfl⟩
      · exact absurd hn hnew
      · exact ⟨rfl, t, i, op', htick, hcand, hop, hpend, rfl⟩
  | response htick hr hresp =>
    cases hresp <;> exact absurd (List.mem_of_mem_eraseP hn) hnew

/-- An unfinished operation of an earlier request is in an earlier slot or
    unseen. -/
theorem Wf.earlier_or_unseen {s : CtrlSys} (hs : s.Wf) {i : ℕ} {op o : RevMemOp}
    (hslot : s.ctrl.rqstQ[i]? = some op) (ho : o ∈ s.ctrl.live) (hlt : o.seq < op.seq)
    (hhart : o.Hart = op.Hart) : o ∈ s.ctrl.rqstQ.take i ∨ o ∈ s.ctrl.unseen i op := by
  rcases mem_live.mp ho with hq | ⟨id, hout⟩
  · obtain ⟨j, hj⟩ := List.mem_iff_getElem?.mp hq
    rcases Nat.lt_trichotomy j i with hji | rfl | hij
    · left
      rw [List.mem_iff_getElem?]
      exact ⟨j, by rw [List.getElem?_take_of_lt hji, hj]⟩
    · rw [hslot, Option.some.injEq] at hj
      rw [hj] at hlt
      omega
    · right
      have hhalf : o.ptr ≠ o.seq := by
        intro horig
        have hseq := hs.ord.seq_lt_of_slot hslot hj hij horig
        omega
      have hdrop : o ∈ s.ctrl.rqstQ.drop (i + 1) := by
        rw [List.mem_iff_getElem?]
        refine ⟨j - (i + 1), ?_⟩
        rw [List.getElem?_drop, show i + 1 + (j - (i + 1)) = j by omega, hj]
      simp [unseen, hdrop, hhalf, hhart, hlt]
  · right
    simp only [unseen, List.mem_filter, List.mem_append, List.mem_map]
    exact ⟨.inl ⟨(id, o), hout, rfl⟩, by simp [hhart, hlt]⟩

theorem Wf.acqRel {P : Params} {s : CtrlSys} {ev : Event} (hs : s.Wf)
    (hok : ev = .processNextRqst → AcqRelOk P s) : AcqRel P s ev := by
  constructor
  · intro op c hdisp hc k a ha hamo haq hhart hlt hpend
    obtain ⟨hev, t, i, op', htick, hcand, -, hnot, rfl⟩ := hdisp.candidate
    rw [splitOp_seq] at hc hlt
    obtain ⟨o, ho, rfl⟩ := hs.ord.pending_live hpend
    obtain ⟨a', ha', hstem⟩ := hs.ord.stems o ho
    obtain rfl := hs.ord.history_unique ha ha'
    have hop' : op' ∈ s.ctrl.live := mem_live.mpr (.inl (List.mem_of_getElem? hcand.slot))
    obtain ⟨c', hc', hstem'⟩ := hs.ord.stems op' hop'
    obtain rfl := hs.ord.history_unique hc hc'
    have hhart' : o.Hart = op'.Hart := by rw [hstem.Hart_eq, hhart, hstem'.Hart_eq]
    have hatomic : RevFlagHas o.flags .F_ATOMIC = true := by
      rw [hstem.flags_eq]
      exact Call.atomic_of_enqueues (hs.ord.accepted _ ha) hamo
    have hacq : isAcquire o = true := by
      simp only [isAcquire, hatomic, Bool.true_and]
      rw [hstem.flags_eq]
      exact haq
    rcases hs.earlier_or_unseen hcand.slot ho hlt hhart' with hearly | hun
    · have hq : o ∈ s.ctrl.rqstQ := List.mem_of_mem_take hearly
      obtain ⟨e, he, -⟩ := hs.ord.tabled o hq a ha hamo
      simp only [isAcquire, Bool.and_eq_true] at hacq
      have hany : s.ctrl.isAQ i op' = true := by
        unfold isAQ
        rw [if_neg (by simpa using List.ne_nil_of_mem he), if_neg, List.any_eq_true]
        · exact ⟨o, hearly, by simp [hacq.1, hacq.2, hhart']⟩
        · rintro rfl
          simp at hearly
      simp [isPendingAMO, hany] at hnot
    · have hfalse := (hok hev t i op' htick hcand hnot).1 o hun
      rw [hacq] at hfalse
      simp at hfalse
  · intro op c hdisp hc hamo hrl hread k r hr hhart hlt hpend
    obtain ⟨hev, t, i, op', htick, hcand, -, hnot, rfl⟩ := hdisp.candidate
    rw [splitOp_seq] at hc hlt
    rw [splitOp_Op] at hread
    obtain ⟨o, ho, rfl⟩ := hs.ord.pending_live hpend
    obtain ⟨r', hr', hstem⟩ := hs.ord.stems o ho
    obtain rfl := hs.ord.history_unique hr hr'
    have hq' : op' ∈ s.ctrl.rqstQ := List.mem_of_getElem? hcand.slot
    obtain ⟨c', hc', hstem'⟩ := hs.ord.stems op' (mem_live.mpr (.inl hq'))
    obtain rfl := hs.ord.history_unique hc hc'
    have hhart' : o.Hart = op'.Hart := by rw [hstem.Hart_eq, hhart, hstem'.Hart_eq]
    have hrel : isRelease op' = true := by
      simp only [isRelease, Bool.and_eq_true]
      rw [hstem'.flags_eq]
      exact ⟨Call.atomic_of_enqueues (hs.ord.accepted _ hc) hamo, hrl⟩
    rcases hs.earlier_or_unseen hcand.slot ho hlt hhart' with hearly | hun
    · obtain ⟨e, he, -⟩ := hs.ord.tabled op' hq' c hc hamo
      simp only [isRelease] at hrel
      have hany : s.ctrl.isRL i op' = true := by
        unfold isRL
        rw [if_neg (by simpa using List.ne_nil_of_mem he), if_neg, if_pos hrel, List.any_eq_true]
        · exact ⟨o, hearly, by simp [hhart']⟩
        · rintro rfl
          simp at hearly
      simp [isPendingAMO, hany] at hnot
    · have hempty := (hok hev t i op' htick hcand hnot).2 hrel hread
      rw [hempty] at hun
      simp at hun

/-- Every run whose `processNextRqst` steps all meet `AcqRelOk` keeps the
    acquire and release law. -/
theorem acqRel_of_run (P : Params) (host : Host) {tr : List (CtrlSys × Event)} {s : CtrlSys}
    (hrun : Run (step P) (init host) tr s)
    (hok : ∀ p ∈ tr, p.2 = .processNextRqst → AcqRelOk P p.1) :
    ∀ p ∈ tr, AcqRel P p.1 p.2 := by
  have hwf := hrun.invariant_of_step Wf (init_wf host)
    fun s l s' hI hstep => (step_cases hstep).wf hI
  exact fun p hp => (hwf.2 p hp).acqRel (hok p hp)

/-- An acquire AMO and a load of hart 0. -/
def acquireCall : Call := .AMO 0 256 256 4 [1, 0, 0, 0] (some 0) {} (.F_AMOADD ||| .F_AQ)

def loadCall : Call := .READ 0 512 512 4 (some 1) {} .F_NONE

/-- The load is dispatched in the same tick as the read of the AMO that was
    enqueued before it, which is still outstanding. -/
theorem acquire_overtaken :
    ∃ tr s, Run (step {}) (init zeroHost) tr s ∧ ∃ p ∈ tr, ¬AcqRel {} p.1 p.2 := by
  have hrun : Run (step {}) (init zeroHost) (trace (step {}) (init zeroHost)
      [.send acquireCall, .send loadCall, .clockTick, .processNextRqst]) _ := run_of_exec _ rfl
  refine ⟨_, _, hrun.snoc (l := .processNextRqst) rfl, _,
    List.mem_append.mpr (.inr (List.mem_singleton.mpr rfl)), ?_⟩
  intro hlaw
  refine hlaw.acquire (loadCall.memOp 1) loadCall ⟨_, rfl, (1, loadCall.memOp 1), ?_, ?_, rfl⟩ ?_ 0
    acquireCall ?_ rfl rfl rfl (by decide) (.inr (.inl ⟨(0, acquireCall.memOp 0), ?_, rfl⟩))
  all_goals decide

/-- The load is enqueued once the AMO is finished. -/
def acquireWaited : List Event :=
  [.send acquireCall, .clockTick, .processNextRqst, .processNextRqst, .response 0 [5, 0, 0, 0],
    .clockTick, .processNextRqst, .processNextRqst, .response 1 [], .send loadCall, .clockTick,
    .processNextRqst]

theorem acquire_waited :
    ∃ tr s, Run (step {}) (init zeroHost) tr s ∧ s.ctrl.outstanding ≠ [] ∧
      ∀ p ∈ tr, AcqRel {} p.1 p.2 := by
  have hrun : Run (step {}) (init zeroHost) (trace (step {}) (init zeroHost) acquireWaited) _ :=
    run_of_exec _ rfl
  have hall : (trace (step {}) (init zeroHost) acquireWaited).all
      (fun p => p.1.acqRelCheck) = true := by decide
  exact ⟨_, _, hrun, by decide, acqRel_of_run {} zeroHost hrun
    fun p hp _ => acqRelOk_of_check (List.all_eq_true.mp hall p hp)⟩

end CtrlSys

end RevCPU
