import RevCPU.MemCtrl.InFlight

namespace RevCPU

open Lib RevBasicMemCtrl

namespace CtrlSys

/-- The operation may be dispatched in its turn among the operations at address
    `A`: no older one is queued, and no older one is the read of an AMO, whose
    write half is still to come. -/
structure InTurn (A : ℕ) (s : CtrlSys) (op : RevMemOp) : Prop where
  queued : ∀ o ∈ s.ctrl.rqstQ, o.Op ≠ .MemOpFENCE → o.Addr = A → op.seq ≤ o.seq
  reading : ∀ n ∈ s.ctrl.outstanding, n.2.Addr = A → n.2.seq < op.seq → n.2.Op = .MemOpREAD →
    ∀ q ∈ s.issued, q.1 = n.2.seq → q.2.isAMO = false

instance (A : ℕ) (s : CtrlSys) (op : RevMemOp) : Decidable (s.InTurn A op) :=
  decidable_of_iff
    ((∀ o ∈ s.ctrl.rqstQ, o.Op ≠ .MemOpFENCE → o.Addr = A → op.seq ≤ o.seq) ∧
      ∀ n ∈ s.ctrl.outstanding, n.2.Addr = A → n.2.seq < op.seq → n.2.Op = .MemOpREAD →
        ∀ q ∈ s.issued, q.1 = n.2.seq → q.2.isAMO = false)
    ⟨fun h => ⟨h.1, h.2⟩, fun h => ⟨h.queued, h.reading⟩⟩

/-- The operations at address `A` are in flight in their order. -/
structure Lane (A : ℕ) (s : CtrlSys) : Prop where
  turn : ∀ n ∈ s.ctrl.outstanding, n.2.Addr = A → s.InTurn A n.2
  ids : ∀ n ∈ s.ctrl.outstanding, ∀ n' ∈ s.ctrl.outstanding, n.2.Addr = A → n'.2.Addr = A →
    n.2.seq < n'.2.seq → n.1 < n'.1

/-- A step of `processNextRqst` that dispatches an operation at address `A`
    dispatches it in its turn. -/
def LaneOk (P : Params) (A : ℕ) (s : CtrlSys) : Event → Prop
  | .processNextRqst => ∀ t i op, s.tick = some t → Candidate P s.ctrl.rqstQ t i op →
      op.Op ≠ .MemOpFENCE → op.Addr = A → s.InTurn A op
  | _ => True

/-- It is enough that every operation in the queue is in its turn. -/
theorem laneOk_of_queue {P : Params} {A : ℕ} {s : CtrlSys}
    (h : ∀ op ∈ s.ctrl.rqstQ, op.Op ≠ .MemOpFENCE → op.Addr = A → s.InTurn A op) :
    s.LaneOk P A .processNextRqst :=
  fun _ _ _ _ hcand => h _ (List.mem_of_getElem? hcand.slot)

namespace Lane

variable {P : Params} {A : ℕ} {s s' : CtrlSys}

/-- Operations may leave, and younger ones may be queued. -/
theorem shrink (hs : s.Lane A)
    (hissued : ∀ n ∈ s.ctrl.outstanding, ∀ q ∈ s'.issued, q.1 = n.2.seq → q ∈ s.issued)
    (hout : ∀ n ∈ s'.ctrl.outstanding, n ∈ s.ctrl.outstanding)
    (hqueue : ∀ o ∈ s'.ctrl.rqstQ, o ∈ s.ctrl.rqstQ ∨
      ∀ n ∈ s'.ctrl.outstanding, n.2.Addr = A → o.Addr = A → n.2.seq ≤ o.seq) : s'.Lane A := by
  refine ⟨?_, ?_⟩
  · intro n hn haddr
    have hturn := hs.turn n (hout n hn) haddr
    refine ⟨?_, ?_⟩
    · intro o ho hfence hoaddr
      rcases hqueue o ho with hold | hyoung
      · exact hturn.queued o hold hfence hoaddr
      · exact hyoung n hn haddr hoaddr
    · intro n' hn' haddr' hlt hread q hq hseq
      exact hturn.reading n' (hout n' hn') haddr' hlt hread q
        (hissued n' (hout n' hn') q hq hseq) hseq
  · intro n hn n' hn'
    exact hs.ids n (hout n hn) n' (hout n' hn')

theorem dispatch (hs : s.Lane A) (hwf : s.Wf) {i : ℕ} {op : RevMemOp}
    (hslot : s.ctrl.rqstQ[i]? = some op) (hfence : op.Op ≠ .MemOpFENCE)
    (hturn : op.Addr = A → s.InTurn A op) (hctrl : s'.ctrl = dispatchSlot P s.ctrl i op)
    (hissued : s'.issued = s.issued) : s'.Lane A := by
  have hqueue : op ∈ s.ctrl.rqstQ := List.mem_of_getElem? hslot
  have hout : ∀ {n}, n ∈ s'.ctrl.outstanding ↔ n ∈ s.ctrl.outstanding ∨
      s.ctrl.nextId ≤ n.1 ∧ n.1 < s.ctrl.nextId + (dispatchParts P op).length ∧ n.2 = splitOp P op := by
    rw [hctrl]
    exact mem_outstanding_dispatch
  have hq : ∀ o ∈ s'.ctrl.rqstQ, o ∈ s.ctrl.rqstQ := by
    intro o ho
    rw [hctrl, dispatchSlot_rqstQ] at ho
    exact List.mem_of_mem_eraseIdx ho
  have hlater : ∀ n ∈ s.ctrl.outstanding, n.2.Addr = A → op.Addr = A → n.2.seq ≤ op.seq :=
    fun n hn haddr hopaddr => (hs.turn n hn haddr).queued op hqueue hfence hopaddr
  refine ⟨?_, ?_⟩
  · intro n hn haddr
    rcases hout.mp hn with hn | ⟨-, -, heq⟩
    · have hold := hs.turn n hn haddr
      refine ⟨fun o ho => hold.queued o (hq o ho), ?_⟩
      rw [hissued]
      intro n' hn' haddr' hlt
      rcases hout.mp hn' with hn' | ⟨-, -, heq'⟩
      · exact hold.reading n' hn' haddr' hlt
      · rw [heq'] at haddr' hlt
        have hle := hlater n hn haddr (by simpa using haddr')
        rw [splitOp_seq] at hlt
        omega
    · rw [heq] at haddr ⊢
      have hnew := hturn (by simpa using haddr)
      refine ⟨?_, ?_⟩
      · intro o ho
        rw [splitOp_seq]
        exact hnew.queued o (hq o ho)
      · rw [hissued]
        intro n' hn' haddr' hlt
        rw [splitOp_seq] at hlt
        rcases hout.mp hn' with hn' | ⟨-, -, heq'⟩
        · exact hnew.reading n' hn' haddr' hlt
        · rw [heq', splitOp_seq] at hlt
          omega
  · intro n hn n' hn' haddr haddr' hlt
    rcases hout.mp hn with hn | ⟨hlow, -, heq⟩ <;> rcases hout.mp hn' with hn' | ⟨hlow', -, heq'⟩
    · exact hs.ids n hn n' hn' haddr haddr' hlt
    · have hid := hwf.book.outstanding_lt n hn
      omega
    · rw [heq, splitOp_seq] at hlt
      rw [heq, splitOp_Addr] at haddr
      have hle := hlater n' hn' haddr' haddr
      omega
    · rw [heq, heq'] at hlt
      omega

theorem stepped (hs : s.Lane A) (hwf : s.Wf) {ev : Event} (h : Stepped P s ev s')
    (hok : LaneOk P A s ev) : s'.Lane A := by
  have hkeep : ∀ {t : CtrlSys}, t.ctrl.rqstQ = s.ctrl.rqstQ →
      t.ctrl.outstanding = s.ctrl.outstanding → t.issued = s.issued → t.Lane A := by
    intro t hq hout hissued
    refine hs.shrink ?_ (by rw [hout]; exact fun _ h => h) (by rw [hq]; exact fun _ h => .inl h)
    rw [hissued]
    exact fun _ _ _ h _ => h
  cases h with
  | skip | wait | start | clear => exact hkeep rfl rfl rfl
  | @send c htick henq =>
    refine hs.shrink ?_ (fun _ h => h) ?_
    · intro n hn q hq hseq
      have hlive : n.2 ∈ s.ctrl.live := mem_live.mpr (.inr ⟨n.1, hn⟩)
      rcases List.mem_append.mp hq with hq | hq
      · exact hq
      · have hle := hwf.ord.seq_le hlive
        have hlt := hwf.ord.live_lt n.2 hlive
        rw [List.mem_singleton.mp hq] at hseq
        simp only at hseq
        omega
    · intro o ho
      simp only [Call.enqueued, List.mem_append, List.mem_singleton] at ho
      rcases ho with ho | rfl
      · exact .inl ho
      · right
        intro n hn _ _
        have hlive : n.2 ∈ s.ctrl.live := mem_live.mpr (.inr ⟨n.1, hn⟩)
        have hle := hwf.ord.seq_le hlive
        have hlt := hwf.ord.live_lt n.2 hlive
        rw [Call.memOp_seq]
        omega
  | process htick hproc hfence =>
    cases hproc with
    | idle => exact hkeep rfl rfl rfl
    | fence hcand hop =>
      exact hs.shrink (fun _ _ _ h _ => h) (fun _ h => h)
        fun o ho => .inl (List.mem_of_mem_eraseIdx ho)
    | dispatch hcand hop hamo hpend =>
      exact hs.dispatch hwf hcand.slot hop (hok _ _ _ htick hcand hop) rfl rfl
  | @response r data ctrl host htick hr hresp =>
    cases hresp with
    | readPart | readDone | write | flush | custom =>
      exact hs.shrink (fun _ _ _ h _ => h) (fun _ h => List.mem_of_mem_eraseP h) fun o ho => .inl ho
    | @readAMO op p q h' e hcls hreq hop htgt hlast hflag hamo hq =>
      refine hs.shrink (fun _ _ _ h _ => h) (fun _ h => List.mem_of_mem_eraseP h) ?_
      intro o ho
      simp only [List.mem_append, List.mem_singleton] at ho
      rcases ho with ho | rfl
      · exact .inl ho
      · right
        intro n hn haddr hoaddr
        have hmem := mem_of_lookup hop
        have hoplive : op ∈ s.ctrl.live := mem_live.mpr (.inr ⟨_, hmem⟩)
        have he := List.mem_of_find?_eq_some hamo
        have hfor : AMOEntry.isFor op e = true := List.find?_some hamo
        obtain ⟨m, hm⟩ := hwf.ord.entry_eq he hoplive ((hwf.ord.isFor_iff he hoplive).mp hfor)
        obtain ⟨c, hc, hisAMO⟩ := hwf.ord.entry_amo e he
        obtain ⟨hseq, hopaddr, hkind⟩ : e.memop.seq = op.seq ∧ e.memop.Addr = op.Addr ∧
            e.memop.Op = op.Op := by
          rw [hm]
          exact ⟨rfl, rfl, rfl⟩
        have hread : op.Op = .MemOpREAD := by
          rw [hwf.book.cls_eq hr hop] at hcls
          rcases (hwf.ord.entry e he).2.1 with hop' | hop'
          · exact hkind.symm.trans hop'
          · rw [← hkind, hop'] at hcls
            simp [readsBack] at hcls
        by_contra hlt
        have hyoung : op.seq < n.2.seq := by
          simp only [amoHalf, amoWriteOp] at hlt
          omega
        have hopA : op.Addr = A := hopaddr.symm.trans hoaddr
        have hnot := (hs.turn n (List.mem_of_mem_eraseP hn) haddr).reading (r.id, op) hmem hopA hyoung
          hread (e.memop.seq, c) hc hseq
        simp [hisAMO] at hnot

theorem init (A : ℕ) (host : Host) : (CtrlSys.init host).Lane A := by
  refine ⟨?_, ?_⟩ <;> simp [CtrlSys.init]

end Lane

end CtrlSys

end RevCPU
