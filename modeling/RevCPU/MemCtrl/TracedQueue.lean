import RevCPU.MemCtrl.TracedEffect

namespace RevCPU

open Lib RevBasicMemCtrl

namespace Backed

variable {P : Params} {m₀ : ℕ → UInt8} {s : Backed}

/-- The effects of the log belong to calls that have been made. -/
theorem Traced.log_lt (hs : s.Traced P m₀) : ∀ e ∈ s.log, e.seq < s.sys.ctrl.nextPtr := by
  intro e he
  obtain ⟨l₁, l₂, hsplit⟩ := List.append_of_mem he
  obtain ⟨c, hc, -⟩ := hs.logged l₁ e l₂ hsplit
  exact hs.flight.wf.ord.history_lt _ hc

/-- A step that changes only the queue and the calls: an operation that stays
    was there before, and one that is new is at the start. -/
theorem Traced.requeue (hs : s.Traced P m₀) {sys : CtrlSys} (hflight : sys.InFlight P)
    (hout : sys.ctrl.outstanding = s.sys.ctrl.outstanding)
    (hiface : sys.ctrl.memIface = s.sys.ctrl.memIface)
    (hreq : sys.ctrl.requests = s.sys.ctrl.requests) (hhost : sys.host = s.sys.host)
    (hsub : ∀ q ∈ s.sys.issued, q ∈ sys.issued)
    (hlive : ∀ op ∈ sys.ctrl.live, ∀ c, (op.seq, c) ∈ sys.issued → c.isFence = false →
      (op ∈ s.sys.ctrl.live ∧ (op.seq, c) ∈ s.sys.issued ∧
        (op ∈ sys.ctrl.rqstQ ↔ op ∈ s.sys.ctrl.rqstQ)) ∨
      (op ∈ sys.ctrl.rqstQ ∧ (∀ e ∈ s.log, e.seq ≠ op.seq) ∧
        ¬(op.Op = .MemOpWRITE ∧ c.isAMO = true)))
    (hretired : ∀ k c, (k, c) ∈ sys.issued → c.isFence = false → (∀ op ∈ sys.ctrl.live, op.seq ≠ k) →
      (k, c) ∈ s.sys.issued ∧ ∀ op ∈ s.sys.ctrl.live, op.seq ≠ k) :
    Traced P m₀ { s with sys } := by
  refine ⟨hflight, ?_, ?_, ?_, ?_, hs.memory, ?_⟩
  · simp only [hreq]
    exact hs.doneIds
  · simp only [hout, hiface]
    exact hs.doneData
  · intro op hop c hc hfence
    have hwaits : ∀ a, Waits { s with sys } op a ↔ s.Waits op a := by
      intro a
      simp only [Waits, hout, hiface]
    have hundone : ∀ a, Undone { s with sys } op a ↔ s.Undone op a := by
      intro a
      simp only [Undone, hout, hiface]
    rcases hlive op hop c hc hfence with ⟨hold, hc', hqueue⟩ | ⟨hqueue, hfresh, hkind⟩
    · refine (hs.tracks op hold c hc' hfence).congr (fun _ _ => rfl) ?_ ?_ ?_
      · intro a
        simp only [NotDone, hqueue, hundone]
      · intro a
        simp only [NotAnswered, hqueue, hwaits]
      · intro p _
        simp only [hhost]
    · have hnone := logAt_eq_none_of_seq hfresh
      refine ⟨?_, ?_, ?_, ?_⟩
      · intro a
        simp [hnone, NotDone, hqueue]
      · intro _ a
        exact hnone true a
      · intro _ p _ i _ hnot
        exact absurd (.inl hqueue) hnot
      · intro hwrite hamo
        exact absurd ⟨hwrite, hamo⟩ hkind
  · intro k c hc hfence hgone
    obtain ⟨hc', hgone'⟩ := hretired k c hc hfence hgone
    exact hs.retired k c hc' hfence hgone'
  · intro l₁ e l₂ hsplit
    obtain ⟨c, hc, hlogged⟩ := hs.logged l₁ e l₂ hsplit
    exact ⟨c, hsub _ hc, hlogged⟩

theorem Traced.enqueue (hs : s.Traced P m₀) {c : Call} {sys : CtrlSys} (hflight : sys.InFlight P)
    (hctrl : sys.ctrl = c.enqueued s.sys.ctrl) (hhost : sys.host = s.sys.host)
    (hissued : sys.issued = s.sys.issued ++ [(s.sys.ctrl.nextPtr, c)]) :
    Traced P m₀ { s with sys } := by
  have hlive : ∀ {op}, op ∈ sys.ctrl.live ↔
      op ∈ s.sys.ctrl.live ∨ op = c.memOp s.sys.ctrl.nextPtr := by
    intro op
    rw [hctrl, mem_live, mem_live]
    simp only [Call.enqueued, List.mem_append, List.mem_singleton]
    tauto
  have hqueue : ∀ {op}, op ∈ sys.ctrl.rqstQ ↔
      op ∈ s.sys.ctrl.rqstQ ∨ op = c.memOp s.sys.ctrl.nextPtr := by
    intro op
    rw [hctrl]
    simp [Call.enqueued]
  have hord := hs.flight.wf.ord
  refine hs.requeue hflight (by rw [hctrl]; rfl) (by rw [hctrl]; rfl) (by rw [hctrl]; rfl) hhost ?_ ?_ ?_
  · intro q hq
    rw [hissued]
    exact List.mem_append.mpr (.inl hq)
  · intro op hop c' hc' hfence
    rcases hlive.mp hop with hop | rfl
    · left
      have hle := hord.seq_le hop
      have hlt := hord.live_lt op hop
      refine ⟨hop, ?_, ?_⟩
      · rw [hissued, List.mem_append, List.mem_singleton] at hc'
        rcases hc' with hc' | hc'
        · exact hc'
        · have heq := (Prod.mk.inj hc').1
          omega
      · rw [hqueue]
        constructor
        · rintro (h | rfl)
          · exact h
          · simp at hlt
        · exact .inl
    · right
      refine ⟨hqueue.mpr (.inr rfl), ?_, ?_⟩
      · intro e he
        rw [Call.memOp_seq]
        exact Nat.ne_of_lt (hs.log_lt e he)
      · rintro ⟨hwrite, hamo⟩
        have hsame : c' = c := by
          refine hflight.wf.ord.history_unique hc' ?_
          rw [hissued, Call.memOp_seq]
          simp
        subst hsame
        cases c' <;> simp [Call.isAMO] at hamo
        simp [Call.memOp] at hwrite
  · intro k c' hc' hfence hgone
    rw [hissued, List.mem_append, List.mem_singleton] at hc'
    rcases hc' with hc' | hc'
    · exact ⟨hc', fun op hop => hgone op (hlive.mpr (.inl hop))⟩
    · have hnot := hgone _ (hlive.mpr (.inr rfl))
      rw [Call.memOp_seq] at hnot
      exact absurd (Prod.mk.inj hc').1.symm hnot

/-- A fence leaves the queue. -/
theorem Traced.dropFence (hs : s.Traced P m₀) {sys : CtrlSys} (hflight : sys.InFlight P) {i : ℕ}
    {op : RevMemOp} (hslot : s.sys.ctrl.rqstQ[i]? = some op) (hop : op.Op = .MemOpFENCE)
    (hq : sys.ctrl.rqstQ = s.sys.ctrl.rqstQ.eraseIdx i)
    (hout : sys.ctrl.outstanding = s.sys.ctrl.outstanding)
    (hiface : sys.ctrl.memIface = s.sys.ctrl.memIface)
    (hreq : sys.ctrl.requests = s.sys.ctrl.requests) (hhost : sys.host = s.sys.host)
    (hissued : sys.issued = s.sys.issued) : Traced P m₀ { s with sys } := by
  have hord := hs.flight.wf.ord
  have hfence : ∀ {c}, (op.seq, c) ∈ s.sys.issued → c.isFence = true := by
    intro c hc
    have hlive : op ∈ s.sys.ctrl.live := mem_live.mpr (.inl (List.mem_of_getElem? hslot))
    obtain ⟨c', hc', hstem, hplain, -⟩ := hs.flight.call hlive
    obtain rfl := hord.history_unique hc hc'
    by_contra hnot
    rcases hstem.kind hplain (by simpa using hnot) with h | h | h <;> simp [hop] at h
  have hmem : ∀ {o}, o ∈ sys.ctrl.rqstQ ↔ o ∈ s.sys.ctrl.rqstQ ∧ o.ptr ≠ op.ptr := by
    intro o
    rw [hq]
    exact hord.mem_eraseIdx hslot
  have hptr : ∀ {o}, o ∈ s.sys.ctrl.live → ∀ {c}, (o.seq, c) ∈ s.sys.issued → c.isFence = false →
      o.ptr ≠ op.ptr := by
    intro o ho c hc hnot heq
    have hlive : op ∈ s.sys.ctrl.live := mem_live.mpr (.inl (List.mem_of_getElem? hslot))
    rw [hord.same_ptr o ho op hlive heq] at hc
    rw [hfence hc] at hnot
    simp at hnot
  have hlive : ∀ {o}, o ∈ sys.ctrl.live → o ∈ s.sys.ctrl.live := by
    intro o ho
    rw [mem_live, hout] at ho
    rw [mem_live]
    rcases ho with ho | ho
    · exact .inl (hmem.mp ho).1
    · exact .inr ho
  refine hs.requeue hflight hout hiface hreq hhost (by rw [hissued]; exact fun _ h => h) ?_ ?_
  · intro o ho c hc hnot
    rw [hissued] at hc
    refine .inl ⟨hlive ho, hc, ?_⟩
    rw [hmem]
    have hne := hptr (hlive ho) hc hnot
    tauto
  · intro k c hc hnot hgone
    rw [hissued] at hc
    refine ⟨hc, ?_⟩
    rintro o ho rfl
    refine hgone o ?_ rfl
    rw [mem_live, hout, hmem]
    rcases mem_live.mp ho with h | h
    · exact .inl ⟨h, hptr ho hc hnot⟩
    · exact .inr h

/-- The operation in a slot is dispatched. -/
theorem Traced.dispatch (hs : s.Traced P m₀) {sys : CtrlSys} (hflight : sys.InFlight P) {i : ℕ}
    {op : RevMemOp} (hslot : s.sys.ctrl.rqstQ[i]? = some op) (hop : op.Op ≠ .MemOpFENCE)
    (hctrl : sys.ctrl = dispatchSlot P s.sys.ctrl i op) (hhost : sys.host = s.sys.host)
    (hissued : sys.issued = s.sys.issued) : Traced P m₀ { s with sys } := by
  have hord := hs.flight.wf.ord
  have hbook := hs.flight.wf.book
  have hqueue : op ∈ s.sys.ctrl.rqstQ := List.mem_of_getElem? hslot
  have hopl : op ∈ s.sys.ctrl.live := mem_live.mpr (.inl hqueue)
  have hkind := hs.flight.kind hopl hop
  have hlive : ∀ {o}, o ∈ sys.ctrl.live ↔ o ∈ s.sys.ctrl.live ∧ o.ptr ≠ op.ptr ∨ o = splitOp P op := by
    rw [hctrl]
    exact hord.mem_live_dispatch hslot
  have hout : ∀ {n}, n ∈ sys.ctrl.outstanding ↔ n ∈ s.sys.ctrl.outstanding ∨
      s.sys.ctrl.nextId ≤ n.1 ∧ n.1 < s.sys.ctrl.nextId + (dispatchParts P op).length ∧
        n.2 = splitOp P op := by
    rw [hctrl]
    exact mem_outstanding_dispatch
  have hiface : ∀ {r}, r ∈ sys.ctrl.memIface ↔ r ∈ s.sys.ctrl.memIface ∨ r ∈ newRqsts P s.sys.ctrl op := by
    intro r
    rw [hctrl, dispatchSlot_memIface, List.mem_append]
  have hdone : ∀ r ∈ newRqsts P s.sys.ctrl op, s.done.lookup r.id = none := by
    intro r hr
    obtain ⟨hlow, -⟩ := newRqsts_carries hkind hr
    cases hlook : s.done.lookup r.id with
    | none => rfl
    | some d =>
      have hlt := hbook.lt _ (hs.doneIds.2 _ (mem_of_lookup hlook))
      simp only at hlt
      omega
  have hnewOp : ∀ {r o}, r ∈ newRqsts P s.sys.ctrl op → (r.id, o) ∈ sys.ctrl.outstanding → o = splitOp P op := by
    intro r o hr ho
    obtain ⟨hlow, -⟩ := newRqsts_carries hkind hr
    rcases hout.mp ho with ho | ⟨-, -, heq⟩
    · have hlt := hbook.outstanding_lt _ ho
      simp only at hlt
      omega
    · exact heq
  have holdOp : ∀ {r o}, r ∈ s.sys.ctrl.memIface →
      ((r.id, o) ∈ sys.ctrl.outstanding ↔ (r.id, o) ∈ s.sys.ctrl.outstanding) := by
    intro r o hr
    rw [hout]
    constructor
    · rintro (h | ⟨hlow, -, -⟩)
      · exact h
      · have hlt := hbook.memIface_lt r hr
        simp only at hlow
        omega
    · exact .inl
  have hptr : ∀ {o}, (∃ id, (id, o) ∈ s.sys.ctrl.outstanding) → o ≠ splitOp P op := by
    rintro o ⟨id, ho⟩ rfl
    exact hord.dispatched _ ho op hqueue (splitOp_ptr P op)
  refine ⟨hflight, ?_, ?_, ?_, ?_, hs.memory, ?_⟩
  · refine ⟨hs.doneIds.1, ?_⟩
    intro d hd
    have hmem := hs.doneIds.2 d hd
    simp only [hctrl, dispatchSlot, sendParts_requests, List.mem_append]
    exact .inl hmem
  · intro r hr o ho hread data hdata
    rcases hiface.mp hr with hr | hr
    · exact hs.doneData r hr o ((holdOp hr).mp ho) hread data hdata
    · have hnone := hdone r hr
      simp only at hdata
      rw [hnone] at hdata
      simp at hdata
  · intro o ho c hc hfence
    simp only [hissued] at hc
    rcases hlive.mp ho with ⟨ho, hne⟩ | rfl
    · have hsplit : o ≠ splitOp P op := by
        rintro rfl
        exact hne (splitOp_ptr P op)
      have hq : o ∈ sys.ctrl.rqstQ ↔ o ∈ s.sys.ctrl.rqstQ := by
        rw [hctrl, dispatchSlot_rqstQ, hord.mem_eraseIdx hslot]
        tauto
      refine (hs.tracks o ho c hc hfence).congr (fun _ _ => rfl) ?_ ?_ (fun _ _ => by simp only [hhost])
      · intro a
        unfold NotDone Undone
        simp only [hq]
        refine or_congr_right ⟨?_, ?_⟩
        · rintro ⟨r, hr, hro, h⟩
          rcases hiface.mp hr with hr | hr
          · exact ⟨r, hr, (holdOp hr).mp hro, h⟩
          · exact absurd (hnewOp hr hro) hsplit
        · rintro ⟨r, hr, hro, h⟩
          exact ⟨r, hiface.mpr (.inl hr), (holdOp hr).mpr hro, h⟩
      · intro a
        unfold NotAnswered Waits
        simp only [hq]
        refine or_congr_right ⟨?_, ?_⟩
        · rintro ⟨r, hr, hro, h⟩
          rcases hiface.mp hr with hr | hr
          · exact ⟨r, hr, (holdOp hr).mp hro, h⟩
          · exact absurd (hnewOp hr hro) hsplit
        · rintro ⟨r, hr, hro, h⟩
          exact ⟨r, hiface.mpr (.inl hr), (holdOp hr).mpr hro, h⟩
    · rw [splitOp_seq] at hc
      have ht := hs.tracks op hopl c hc hfence
      obtain ⟨c', hc', hstem, -, hok⟩ := hs.flight.call hopl
      obtain rfl := hord.history_unique hc' hc
      have hcovered : Covered P op := hstem.covered hok hfence
      have hall : ∀ a, op.Touches a → Undone { s with sys } (splitOp P op) a := by
        intro a ha
        obtain ⟨p, hp, hlow, hhigh⟩ := hcovered (a - op.Addr) (by unfold RevMemOp.Touches at ha; omega)
        obtain ⟨haddr, -⟩ := dispatchParts_range P op hp
        obtain ⟨n, hn, hget⟩ := List.getElem_of_mem hp
        have hzip : (p, s.sys.ctrl.nextId + n) ∈ (dispatchParts P op).zipIdx s.sys.ctrl.nextId := by
          rw [List.mk_mem_zipIdx_iff_le_and_getElem?_sub]
          refine ⟨by omega, ?_⟩
          rw [Nat.add_sub_cancel_left, List.getElem?_eq_getElem hn, hget]
        have hcustom : op.Op ≠ .MemOpCUSTOM := by rcases hkind with h | h <;> simp [h]
        have hr : mkRqst (s.sys.ctrl.nextId + n) (splitOp P op) p.addr p.size p.cur (dispatchFlags P op) ∈
            newRqsts P s.sys.ctrl op := List.mem_map.mpr ⟨_, hzip, rfl⟩
        refine ⟨_, hiface.mpr (.inr hr), hout.mpr (.inr ?_), ?_, ?_, hdone _ hr⟩
        · rw [mkRqst_id]
          exact ⟨by omega, by omega, rfl⟩
        · simp only [mkRqst, splitOp_Op, if_neg hcustom]
          unfold RevMemOp.Touches at ha
          omega
        · simp only [mkRqst, splitOp_Op, if_neg hcustom]
          unfold RevMemOp.Touches at ha
          omega
      have hnone : ∀ a, logAt s.log (op.Op == .MemOpWRITE) op.seq a = none := fun a =>
        (ht.final a).mpr (.inr (.inl hqueue))
      have htouch : ∀ a, (splitOp P op).Touches a ↔ op.Touches a := by
        intro a
        simp only [RevMemOp.Touches, splitOp_Addr, splitOp_Size]
      refine ⟨?_, ?_, ?_, ?_⟩
      · intro a
        rw [splitOp_seq, splitOp_Op, htouch]
        refine ⟨fun _ => ?_, fun _ => hnone a⟩
        by_cases ha : op.Touches a
        · exact .inr (.inr (hall a ha))
        · exact .inl ha
      · intro hread a
        rw [splitOp_seq]
        exact ht.unwritten (by simpa using hread) a
      · intro hread p hp j hj hnot
        rw [splitOp_Addr, splitOp_Size] at *
        obtain ⟨r, hr, hro, hlow, hhigh, -⟩ := hall (op.Addr + j) (by unfold RevMemOp.Touches; omega)
        exact absurd (.inr ⟨r, hr, hro, hlow, hhigh⟩) hnot
      · intro hwrite hamo p hp
        have hhalf := ht.half (by simpa using hwrite) hamo p hp
        simpa only [splitOp_seq, splitOp_Addr, splitOp_Size, splitOp_flags, splitOp_membuf, hhost] using hhalf
  · intro k c hc hfence hgone
    simp only [hissued] at hc
    refine hs.retired k c hc hfence ?_
    rintro o ho rfl
    by_cases hne : o.ptr = op.ptr
    · obtain rfl := hord.same_ptr o ho op hopl hne
      exact hgone _ (hlive.mpr (.inr rfl)) (splitOp_seq P o)
    · exact hgone o (hlive.mpr (.inl ⟨ho, hne⟩)) rfl
  · simp only [hissued]
    exact hs.logged

end Backed

end RevCPU
