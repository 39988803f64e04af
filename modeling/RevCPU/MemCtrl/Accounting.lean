import RevCPU.MemCtrl.Bookkeeping

namespace RevCPU

open Lib RevBasicMemCtrl

/-- The seven counters of requests in flight. -/
inductive Counter
  | read
  | write
  | flush
  | llsc
  | readlock
  | writeunlock
  | custom
  deriving DecidableEq, Repr

/-- The counter of the kind of an operation. -/
def MemOp.counter : MemOp → Option Counter
  | .MemOpREAD => some .read
  | .MemOpWRITE => some .write
  | .MemOpFLUSH => some .flush
  | .MemOpREADLOCK => some .readlock
  | .MemOpWRITEUNLOCK => some .writeunlock
  | .MemOpLOADLINK => some .llsc
  | .MemOpSTORECOND => some .llsc
  | .MemOpCUSTOM => some .custom
  | .MemOpFENCE => none
  | .MemOpAMO => none

/-- The counter that the handler of the response to a request decrements. -/
def MemOp.answerCounter : MemOp → Option Counter
  | .MemOpREAD | .MemOpREADLOCK | .MemOpLOADLINK => some .read
  | .MemOpWRITE | .MemOpWRITEUNLOCK | .MemOpSTORECOND => some .write
  | .MemOpFLUSH => some .flush
  | .MemOpCUSTOM => some .custom
  | .MemOpFENCE => none
  | .MemOpAMO => none

namespace RevBasicMemCtrl

def num (s : RevBasicMemCtrl) : Counter → UInt64
  | .read => s.num_read
  | .write => s.num_write
  | .flush => s.num_flush
  | .llsc => s.num_llsc
  | .readlock => s.num_readlock
  | .writeunlock => s.num_writeunlock
  | .custom => s.num_custom

/-- The number of outstanding requests of a kind. -/
def inFlight (s : RevBasicMemCtrl) (k : Counter) : ℕ :=
  s.outstanding.countP fun n => n.2.Op.counter == some k

/-- `requests` holds the keys of `outstanding`, each once, every counter is the
    number of outstanding requests of its kind, and so all are 0 when nothing
    is left to answer. -/
structure Accounted (s : RevBasicMemCtrl) : Prop where
  keys : ∀ id, id ∈ s.requests ↔ ∃ op, (id, op) ∈ s.outstanding
  nodup : s.requests.Nodup
  counts : ∀ k, (s.num k).toNat = s.inFlight k
  drained : s.memIface = [] → ∀ k, s.num k = 0

theorem countRqst_num (s : RevBasicMemCtrl) (o : MemOp) (k : Counter) :
    (s.countRqst o).num k = s.num k + if o.counter = some k then 1 else 0 := by
  cases o <;> cases k <;> simp [countRqst, num, MemOp.counter]

theorem sendParts_num (s : RevBasicMemCtrl) (op : RevMemOp) (flags : RevFlag) (ps : List Part)
    (k : Counter) :
    (s.sendParts op flags ps).num k =
      s.num k + if op.Op.counter = some k then UInt64.ofNat ps.length else 0 := by
  induction ps generalizing s with
  | nil => simp [sendParts]
  | cons p ps ih =>
    have h := ih (s.sendRqst op p.addr p.size p.cur flags)
    have hsent : (s.sendRqst op p.addr p.size p.cur flags).num k =
        s.num k + if op.Op.counter = some k then 1 else 0 := by
      unfold sendRqst
      rw [countRqst_num]
      cases k <;> rfl
    rw [hsent] at h
    refine h.trans ?_
    by_cases hk : op.Op.counter = some k
    · simp only [hk, if_true, List.length_cons, UInt64.ofNat_add]
      rw [UInt64.add_assoc, UInt64.add_comm 1]
      rfl
    · simp [hk]

theorem dispatchSlot_num (P : Params) (s : RevBasicMemCtrl) (i : ℕ) (op : RevMemOp) (k : Counter) :
    (dispatchSlot P s i op).num k =
      s.num k + if op.Op.counter = some k then UInt64.ofNat (dispatchParts P op).length else 0 := by
  have h := sendParts_num s (splitOp P op) (dispatchFlags P op) (dispatchParts P op) k
  rw [splitOp_Op] at h
  rw [← h]
  cases k <;> rfl

theorem Responded.num {s s' : RevBasicMemCtrl} {h h' : Host} {r : StdRqst} {data : List UInt8}
    (hresp : Responded s h r data s' h') (k : Counter) :
    s'.num k = s.num k - if r.cls.answerCounter = some k then 1 else 0 := by
  cases hresp with
  | readPart hcls | readDone hcls | readAMO hcls =>
    cases hr : r.cls <;> simp [hr, readsBack] at hcls <;> cases k <;>
      simp [RevBasicMemCtrl.num, answered, MemOp.answerCounter]
  | write hcls =>
    cases hr : r.cls <;> simp [hr, writesBack] at hcls <;> cases k <;>
      simp [RevBasicMemCtrl.num, answered, MemOp.answerCounter]
  | flush hcls => cases k <;> simp [RevBasicMemCtrl.num, answered, hcls, MemOp.answerCounter]
  | custom hcls => cases k <;> simp [RevBasicMemCtrl.num, answered, hcls, MemOp.answerCounter]

theorem Responded.inFlight {s s' : RevBasicMemCtrl} {h h' : Host} {r : StdRqst}
    {data : List UInt8} (hs : s.Bookkeeping)
    (hr : s.memIface.find? (fun x => x.id == r.id) = some r)
    (hresp : Responded s h r data s' h') (k : Counter) :
    s.inFlight k = s'.inFlight k + if r.cls.counter = some k then 1 else 0 := by
  obtain ⟨op, hop, hout⟩ : ∃ op, s.outstanding.lookup r.id = some op ∧
      s'.outstanding = s.outstanding.eraseP fun n => n.1 == r.id := by
    cases hresp <;> exact ⟨_, ‹_›, rfl⟩
  have hcls := hs.cls_eq hr hop
  unfold RevBasicMemCtrl.inFlight
  rw [hout, countP_eraseP_key (fun n => n.2.Op.counter == some k) hop]
  simp [hcls]

theorem dispatchSlot_inFlight (P : Params) (s : RevBasicMemCtrl) (i : ℕ) (op : RevMemOp)
    (k : Counter) :
    (dispatchSlot P s i op).inFlight k =
      s.inFlight k + if op.Op.counter = some k then (dispatchParts P op).length else 0 := by
  unfold inFlight
  rw [dispatchSlot_outstanding, List.countP_append]
  congr 1
  by_cases hk : op.Op.counter = some k
  · simp [List.countP_map, Function.comp_def, hk]
  · simp [List.countP_map, Function.comp_def, hk]

theorem Bookkeeping.inFlight_le {s : RevBasicMemCtrl} (hs : s.Bookkeeping) (k : Counter) :
    s.inFlight k ≤ s.nextId :=
  Nat.le_trans List.countP_le_length hs.outstanding_length_le

theorem Bookkeeping.accounted {s : RevBasicMemCtrl} (hs : s.Bookkeeping)
    (hcounts : ∀ k, (s.num k).toNat = s.inFlight k) : s.Accounted := by
  refine ⟨?_, hs.nodup, hcounts, ?_⟩
  · intro id
    rw [← hs.ids, List.mem_map]
    constructor
    · rintro ⟨⟨id', op⟩, hn, rfl⟩
      exact ⟨op, hn⟩
    · rintro ⟨op, hn⟩
      exact ⟨(id, op), hn, rfl⟩
  · intro hempty k
    have hout : s.outstanding = [] := by
      have hiface := hs.iface
      rw [hempty, List.map_nil] at hiface
      exact List.map_eq_nil_iff.mp hiface.symm
    have hzero : (s.num k).toNat = 0 := by rw [hcounts k]; simp [RevBasicMemCtrl.inFlight, hout]
    exact UInt64.toNat_inj.mp hzero

end RevBasicMemCtrl

namespace CtrlSys

/-- The requests that share a handler with plain reads and writes and have a
    counter of their own. -/
def locked : MemOp → Bool
  | .MemOpREADLOCK | .MemOpWRITEUNLOCK | .MemOpLOADLINK | .MemOpSTORECOND => true
  | _ => false

/-- The event answers a `ReadLock`, `WriteUnlock`, `LoadLink` or
    `StoreConditional` request. -/
def answersLocked (s : CtrlSys) : Event → Bool
  | .response id _ => (s.ctrl.memIface.find? fun r => r.id == id).any fun r => locked r.cls
  | _ => false

/-- No counter wraps below 0 when the event is a response: the handlers only
    decrement, so a counter that is larger afterwards has wrapped. -/
def noUnderflow (P : Params) (s : CtrlSys) (ev : Event) : Prop :=
  ∀ id data s', ev = .response id data → step P s ev = some s' →
    ∀ k, s'.ctrl.num k ≤ s.ctrl.num k

theorem Stepped.nextId_le {P : Params} {s s' : CtrlSys} {ev : Event} (h : Stepped P s ev s') :
    s.ctrl.nextId ≤ s'.ctrl.nextId := by
  cases h with
  | skip | send | wait | start | clear => exact Nat.le_refl _
  | process htick hproc hfence =>
    cases hproc with
    | idle => exact Nat.le_refl _
    | fence => exact Nat.le_refl _
    | dispatch => simp
  | response htick hr hresp => cases hresp <;> exact Nat.le_refl _

/-- The handler of the other kinds decrements the counter of the kind. -/
theorem counter_eq_answerCounter {o : MemOp} (h : locked o = false) :
    o.answerCounter = o.counter := by
  cases o <;> simp [locked] at h <;> rfl

theorem locked_of_answersLocked {s : CtrlSys} {r : StdRqst} {data : List UInt8}
    (hr : s.ctrl.memIface.find? (fun x => x.id == r.id) = some r) :
    answersLocked s (.response r.id data) = locked r.cls := by
  simp [answersLocked, hr]

theorem Stepped.counts {P : Params} {s s' : CtrlSys} {ev : Event} (h : Stepped P s ev s')
    (hs : s.ctrl.Bookkeeping) (hcounts : ∀ k, (s.ctrl.num k).toNat = s.ctrl.inFlight k)
    (hok : answersLocked s ev = false) (k : Counter) (hbound : s'.ctrl.inFlight k < 2 ^ 64) :
    (s'.ctrl.num k).toNat = s'.ctrl.inFlight k := by
  have hk := hcounts k
  cases h with
  | skip | send | wait | start | clear => cases k <;> exact hk
  | process htick hproc hfence =>
    cases hproc with
    | idle => exact hk
    | fence => cases k <;> exact hk
    | @dispatch i op hcand hop hamo hpend =>
      have hnum := dispatchSlot_num P s.ctrl i op k
      have hfly := dispatchSlot_inFlight P s.ctrl i op k
      dsimp only at hbound
      rw [hfly] at hbound ⊢
      rw [hnum, UInt64.toNat_add, hk]
      by_cases hkind : op.Op.counter = some k
      · simp only [hkind, if_true] at hbound ⊢
        have hlen : (dispatchParts P op).length < 2 ^ 64 := by omega
        rw [UInt64.toNat_ofNat', Nat.mod_eq_of_lt hlen, Nat.mod_eq_of_lt hbound]
      · simp only [hkind, if_false] at hbound ⊢
        exact Nat.mod_eq_of_lt hbound
  | @response r data ctrl host htick hr hresp =>
    have hsame : r.cls.answerCounter = r.cls.counter :=
      counter_eq_answerCounter (by rwa [locked_of_answersLocked hr] at hok)
    have hfly := hresp.inFlight hs hr k
    have hnum := hresp.num k
    rw [hsame] at hnum
    by_cases hkind : r.cls.counter = some k
    · simp only [hkind, if_true] at hfly hnum
      have hpos : (1 : UInt64) ≤ s.ctrl.num k := by
        rw [UInt64.le_iff_toNat_le, hk, hfly]
        simp
      rw [hnum, UInt64.toNat_sub_of_le _ _ hpos, hk, hfly]
      simp
    · simp only [hkind, if_false, Nat.add_zero, UInt64.sub_zero] at hfly hnum
      rw [hnum, hk, hfly]

/-- A response to a locked kind leaves the counter of that kind behind. -/
theorem Stepped.not_accounted {P : Params} {s s' : CtrlSys} {ev : Event}
    (h : Stepped P s ev s') (hs : s.ctrl.Bookkeeping)
    (hcounts : ∀ k, (s.ctrl.num k).toNat = s.ctrl.inFlight k) (hlocked : answersLocked s ev = true) :
    ¬s'.ctrl.Accounted := by
  intro hacc
  cases h with
  | skip | send | wait | start | clear | process => simp [answersLocked] at hlocked
  | @response r data ctrl host htick hr hresp =>
    rw [locked_of_answersLocked hr] at hlocked
    obtain ⟨k, hk, hne⟩ : ∃ k, r.cls.counter = some k ∧ r.cls.answerCounter ≠ some k := by
      cases hcls : r.cls <;> simp only [hcls, locked, reduceCtorEq] at hlocked
      · exact ⟨.readlock, rfl, by decide⟩
      · exact ⟨.writeunlock, rfl, by decide⟩
      · exact ⟨.llsc, rfl, by decide⟩
      · exact ⟨.llsc, rfl, by decide⟩
    have hfly := hresp.inFlight hs hr k
    have hnum := hresp.num k
    simp only [hk, if_true] at hfly
    simp only [hne, if_false, UInt64.sub_zero] at hnum
    have hafter : (ctrl.num k).toNat = ctrl.inFlight k := hacc.counts k
    rw [hnum, hcounts k] at hafter
    omega

theorem Stepped.noUnderflow {P : Params} {s : CtrlSys} {ev : Event} (hs : s.ctrl.Bookkeeping)
    (hcounts : ∀ k, (s.ctrl.num k).toNat = s.ctrl.inFlight k) (hok : answersLocked s ev = false) :
    noUnderflow P s ev := by
  rintro id data s' rfl hstep k
  cases step_cases hstep with
  | @response r _ ctrl host htick hr hresp =>
    have hsame : r.cls.answerCounter = r.cls.counter :=
      counter_eq_answerCounter (by rwa [locked_of_answersLocked hr] at hok)
    have hfly := hresp.inFlight hs hr k
    have hnum := hresp.num k
    rw [hsame] at hnum
    by_cases hkind : r.cls.counter = some k
    · simp only [hkind, if_true] at hfly hnum
      have hpos : (1 : UInt64) ≤ s.ctrl.num k := by
        rw [UInt64.le_iff_toNat_le, hcounts k, hfly]
        simp
      rw [UInt64.le_iff_toNat_le, hnum, UInt64.toNat_sub_of_le _ _ hpos]
      omega
    · simp only [hkind, if_false, UInt64.sub_zero] at hnum
      rw [hnum]
      exact UInt64.le_refl _

/-- The accounting invariant of a whole run: `Accounted` in every state and no
    counter wraps. -/
def AccountedRun (P : Params) (tr : List (CtrlSys × Event)) (s : CtrlSys) : Prop :=
  s.ctrl.Accounted ∧ ∀ p ∈ tr, p.1.ctrl.Accounted ∧ noUnderflow P p.1 p.2

/-- In a run whose request ids fit in 64 bits the accounting holds throughout
    exactly when no `ReadLock`, `WriteUnlock`, `LoadLink` or `StoreConditional`
    is answered: the two handlers they share with plain reads and writes
    decrement `num_read` and `num_write`. -/
theorem accountedRun_iff (P : Params) (host : Host) {tr : List (CtrlSys × Event)} {s : CtrlSys}
    (hrun : Run (step P) (init host) tr s) (hids : s.ctrl.nextId < 2 ^ 64) :
    AccountedRun P tr s ↔ ∀ p ∈ tr, answersLocked p.1 p.2 = false := by
  have hbook := hrun.invariant_of_step (fun s => s.ctrl.Bookkeeping) (init_bookkeeping host)
    fun s l s' hI hstep => (step_cases hstep).bookkeeping hI
  constructor
  · rintro ⟨hlast, hall⟩ p hp
    by_contra hne
    have hlocked : answersLocked p.1 p.2 = true := by simpa using hne
    obtain ⟨s', hstep⟩ := hrun.step_mem p hp
    have hcounts := (hall p hp).1.counts
    have hbad := (step_cases hstep).not_accounted (hbook.2 p hp) hcounts hlocked
    rcases hrun.next_mem hp hstep with rfl | ⟨q, hq, rfl⟩
    · exact hbad hlast
    · exact hbad (hall q hq).1
  · intro hok
    have hle := hrun.le_last (fun s => s.ctrl.nextId) fun s l s' hstep => (step_cases hstep).nextId_le
    obtain ⟨hlast, hall⟩ := hrun.invariant
      (fun s => s.ctrl.Bookkeeping ∧
        (s.ctrl.nextId < 2 ^ 64 → ∀ k, (s.ctrl.num k).toNat = s.ctrl.inFlight k))
      (fun s ev => answersLocked s ev = false)
      ⟨init_bookkeeping host, fun _ k => by cases k <;> rfl⟩
      (fun s l s' hI hok hstep => by
        have hcases := step_cases hstep
        have hbook := hcases.bookkeeping hI.1
        refine ⟨hbook, fun hid k => hcases.counts hI.1 (hI.2 ?_) hok k ?_⟩
        · exact Nat.lt_of_le_of_lt hcases.nextId_le hid
        · exact Nat.lt_of_le_of_lt (hbook.inFlight_le k) hid)
      hok
    refine ⟨hlast.1.accounted (hlast.2 hids), fun p hp => ?_⟩
    have hcounts := (hall p hp).2 (Nat.lt_of_le_of_lt (hle p hp) hids)
    exact ⟨(hall p hp).1.accounted hcounts, Stepped.noUnderflow (hall p hp).1 hcounts (hok p hp)⟩

/-- A host whose objects are all zero. -/
def zeroHost : Host := { cell := fun _ _ => 0, completed := [] }

/-- One `ReadLock`, dispatched and answered. -/
def readLockEvents : List Event :=
  [.send (.READLOCK 0 256 256 8 (some 0) {} .F_NONE), .clockTick, .processNextRqst,
    .processNextRqst, .response 0 [0, 0, 0, 0, 0, 0, 0, 0]]

/-- After the `ReadLock` is answered nothing is outstanding, `num_read` has
    wrapped and `num_readlock` is still 1. -/
theorem readLock_not_accounted :
    ∃ tr s, Run (step {}) (init zeroHost) tr s ∧ s.ctrl.nextId < 2 ^ 64 ∧
      s.ctrl.num_read = 0xFFFFFFFFFFFFFFFF ∧ s.ctrl.num_readlock = 1 ∧ ¬AccountedRun {} tr s := by
  refine ⟨_, _, run_of_exec readLockEvents rfl, by decide, by decide, by decide, ?_⟩
  intro hacc
  have hcount := hacc.1.counts .readlock
  revert hcount
  decide

/-- One write, dispatched and answered. -/
def writeEvents : List Event :=
  [.send (.WRITE 0 256 256 2 [1, 2] .F_NONE), .clockTick, .processNextRqst, .processNextRqst,
    .response 0 []]

/-- The accounting of a run with one plain write holds. -/
theorem write_accounted :
    ∃ tr s, Run (step {}) (init zeroHost) tr s ∧ tr.length = 5 ∧ AccountedRun {} tr s := by
  have hrun : Run (step {}) (init zeroHost) (trace (step {}) (init zeroHost) writeEvents) _ :=
    run_of_exec writeEvents rfl
  refine ⟨_, _, hrun, by decide, (accountedRun_iff {} zeroHost hrun (by decide)).mpr ?_⟩
  have hall : (trace (step {}) (init zeroHost) writeEvents).all
      (fun p => !answersLocked p.1 p.2) = true := by decide
  simpa using hall

end CtrlSys

end RevCPU
