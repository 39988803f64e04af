import Mathlib.Algebra.Order.BigOperators.Group.List
import Mathlib.Algebra.Order.Ring.Nat
import RevCPU.Lib.Progress
import RevCPU.MemCtrl.Fence
import RevCPU.MemCtrl.Limits
import RevCPU.MemCtrl.OrderedRun

namespace RevCPU

open Lib RevBasicMemCtrl

namespace RevBasicMemCtrl

section Work

variable (P : Params)

/-- The work on an operation in the queue: its dispatch, and an answer for each of
    its parts. -/
def opWork (op : RevMemOp) : ℕ := 1 + (dispatchParts P op).length

/-- The work that an entry of the AMO table brings when the read half of its AMO is
    answered. -/
def entryWork (e : AMOEntry) : ℕ := if e.memop.Op = .MemOpREAD then opWork P e.memop else 0

/-- The work that the controller has left. -/
def work (s : RevBasicMemCtrl) : ℕ :=
  (s.rqstQ.map (opWork P)).sum + (s.AMOTable.map (entryWork P)).sum + s.outstanding.length +
    s.num_fence.toNat

theorem opWork_congr {op op' : RevMemOp} (haddr : op'.Addr = op.Addr) (hsize : op'.Size = op.Size)
    (hflags : op'.flags = op.flags) : opWork P op' = opWork P op := by
  have hcache : op'.isCacheable = op.isCacheable := by
    unfold RevMemOp.isCacheable
    rw [hflags]
  unfold opWork
  rw [dispatchParts_length, dispatchParts_length]
  unfold splitOp
  rw [hcache]
  split
  · simp only [haddr, hsize]
  · rfl

theorem two_le_opWork (op : RevMemOp) : 2 ≤ opWork P op := by
  have hpos := List.length_pos_of_ne_nil (dispatchParts_ne_nil P op)
  unfold opWork
  omega

end Work

/-- An operation leaves the queue. -/
theorem sum_eraseIdx (f : RevMemOp → ℕ) {q : List RevMemOp} {i : ℕ} {op : RevMemOp}
    (h : q[i]? = some op) : ((q.eraseIdx i).map f).sum + f op = (q.map f).sum := by
  obtain ⟨q₁, q₂, rfl, -, herase⟩ := getElem?_split h
  rw [herase]
  simp only [List.map_append, List.map_cons, List.sum_append, List.sum_cons]
  omega

/-- `processNextRqst` works on an operation or leaves the controller alone. -/
theorem Processed.work {P : Params} {s s' : RevBasicMemCtrl} {t : TMax} (h : Processed P s t s') :
    s' = s ∨ s'.work P < s.work P := by
  cases h with
  | idle => exact .inl rfl
  | @fence i op hcand hop =>
    have hsum := sum_eraseIdx (opWork P) hcand.slot
    have htwo := two_le_opWork P op
    have hfence : (s.num_fence + 1).toNat ≤ s.num_fence.toNat + 1 := by
      rw [UInt64.toNat_add]
      exact Nat.mod_le _ _
    right
    simp only [RevBasicMemCtrl.work]
    omega
  | @dispatch i op hcand hfence hamo hpend =>
    have hsum := sum_eraseIdx (opWork P) hcand.slot
    have hop : opWork P op = 1 + (dispatchParts P op).length := rfl
    right
    simp only [RevBasicMemCtrl.work, dispatchSlot_rqstQ, dispatchSlot_AMOTable,
      dispatchSlot_num_fence, dispatchSlot_outstanding, List.length_append, List.length_map,
      List.length_range']
    omega

/-- An answer does a part of the work; the write half of an AMO is paid for by its
    entry in the AMO table. -/
theorem Responded.work {P : Params} {s s' : RevBasicMemCtrl} {h h' : Host} {r : StdRqst}
    {data : List UInt8} {issued : List (ℕ × Call)} (hord : s.Ordered issued) (hbook : s.Bookkeeping)
    (hr : s.memIface.find? (fun x => x.id == r.id) = some r)
    (hresp : Responded s h r data s' h') : s'.work P < s.work P := by
  have hanswered : ∀ {op : RevMemOp}, s.outstanding.lookup r.id = some op →
      (s.answered r.id).outstanding.length + 1 = s.outstanding.length := by
    intro op hop
    obtain ⟨l₁, l₂, hout, herase⟩ := lookup_split hop
    change (s.outstanding.eraseP fun n => n.1 == r.id).length + 1 = _
    rw [herase, hout, List.length_append, List.length_append, List.length_cons]
    omega
  cases hresp with
  | readPart _ _ hop | readDone _ _ hop | flush _ _ hop | custom _ _ hop =>
    have hlen := hanswered hop
    simp only [RevBasicMemCtrl.work]
    change (s.rqstQ.map (opWork P)).sum + (s.AMOTable.map (entryWork P)).sum +
      (s.answered r.id).outstanding.length + s.num_fence.toNat < _
    omega
  | @write op _ _ hop =>
    have hlen := hanswered hop
    have htable : ((s.AMOTable.filter fun e => !AMOEntry.isFor op e).map (entryWork P)).sum ≤
        (s.AMOTable.map (entryWork P)).sum :=
      (List.filter_sublist.map _).sum_le_sum fun _ _ => Nat.zero_le _
    simp only [RevBasicMemCtrl.work]
    change (s.rqstQ.map (opWork P)).sum + _ + (s.answered r.id).outstanding.length +
      s.num_fence.toNat < _
    omega
  | @readAMO op p q h₁ e hcls _ hop htgt hlast hflag hamo hq =>
    have hlen := hanswered hop
    have he := List.mem_of_find?_eq_some hamo
    have hfor : AMOEntry.isFor op e = true := List.find?_some hamo
    have hlive : op ∈ s.live := mem_live.mpr (.inr ⟨r.id, mem_of_lookup hop⟩)
    have hread : e.memop.Op = .MemOpREAD := by
      obtain ⟨n, hn⟩ := hord.entry_eq he hlive ((hord.isFor_iff he hlive).mp hfor)
      have hkind : r.cls = e.memop.Op := by rw [hbook.cls_eq hr hop, hn]
      rcases (hord.entry e he).2.1 with hop' | hop'
      · exact hop'
      · rw [hkind, hop'] at hcls
        simp [readsBack] at hcls
    have hhalf : opWork P (amoHalf s.nextPtr h₁ e.memop q) = opWork P e.memop :=
      opWork_congr P rfl rfl rfl
    have htable : ((s.AMOTable.eraseP (AMOEntry.isFor op)).map (entryWork P)).sum +
        opWork P e.memop = (s.AMOTable.map (entryWork P)).sum := by
      obtain ⟨-, l₁, l₂, hl, hne⟩ := List.find?_eq_some_iff_append.mp hamo
      rw [hl, List.eraseP_append_right _ (by simpa using hne), List.eraseP_cons_of_pos hfor]
      simp only [List.map_append, List.map_cons, List.sum_append, List.sum_cons, entryWork,
        if_pos hread]
      omega
    have hnew : entryWork P (amoWriteEntry (amoHalf s.nextPtr h₁ e.memop q)) = 0 := rfl
    have herase :=
      List.eraseP_append_left hfor [amoWriteEntry (amoHalf s.nextPtr h₁ e.memop q)] he
    simp only [RevBasicMemCtrl.work, herase, List.map_append, List.sum_append, List.map_cons,
      List.map_nil, List.sum_cons, List.sum_nil, hhalf, hnew]
    change (s.rqstQ.map (opWork P)).sum + (opWork P e.memop + 0) + _ +
      (s.answered r.id).outstanding.length + s.num_fence.toNat < _
    omega

/-- With nothing in the queue and nothing in flight no AMO is open. -/
theorem Ordered.drained {s : RevBasicMemCtrl} {issued : List (ℕ × Call)}
    (hord : s.Ordered issued) (hq : s.rqstQ = []) (hout : s.outstanding = []) :
    s.AMOTable = [] := by
  refine List.eq_nil_iff_forall_not_mem.mpr fun e he => ?_
  obtain ⟨-, -, op, hop, -⟩ := hord.entry e he
  simp [live, hq, hout] at hop

/-- The lines of a cached operation fit into the limit of its kind. -/
def Fits (P : Params) (op : RevMemOp) : Prop :=
  (P.hasCache && op.isCacheable) = true → ∀ k, op.Op.counter = some k →
    getNumCacheLines P op.Addr op.Size ≤ P.limit k

/-- An operation is held back only when its lines need more slots than are free. -/
theorem buildStandardMemRqst_held {P : Params} {s s' : RevBasicMemCtrl} {op : RevMemOp}
    (h : buildStandardMemRqst P s op = some (s', false)) :
    (P.hasCache && op.isCacheable) = true ∧ ∃ slots, freeSlots P s op.Op = some slots ∧
      slots < UInt64.ofNat (getNumCacheLines P op.Addr op.Size) := by
  unfold buildStandardMemRqst at h
  split at h
  · rename_i hcached
    refine ⟨hcached, ?_⟩
    unfold buildCacheMemRqst at h
    dsimp only at h
    split at h
    · cases h
    · rename_i slots hslots
      split at h
      · rename_i hlt
        exact ⟨slots, hslots, hlt⟩
      · simp at h
  · split at h <;> simp at h

section Head

variable {P : Params} {s s' : RevBasicMemCtrl} {op : RevMemOp} {q : List RevMemOp}

theorem isMemOpAvail_fresh (hpos : ∀ k, 0 < P.limit k) (hamo : op.Op ≠ .MemOpAMO) :
    ∃ t, isMemOpAvail P op {} = some (true, t) := by
  have hread : 0 < P.max_loads := hpos .read
  have hwrite : 0 < P.max_stores := hpos .write
  have hflush : 0 < P.max_flush := hpos .flush
  have hllsc : 0 < P.max_llsc := hpos .llsc
  have hreadlock : 0 < P.max_readlock := hpos .readlock
  have hwriteunlock : 0 < P.max_writeunlock := hpos .writeunlock
  have hcustom : 0 < P.max_custom := hpos .custom
  unfold isMemOpAvail
  cases hop : op.Op <;> simp_all

/-- With nothing in flight an operation that fits is not held back. -/
theorem not_held (hlimit : ∀ k, P.limit k < 2 ^ 64) (hout : s.outstanding = [])
    (hcounts : P.hasCache = true → ∀ k, (s.num k).toNat = s.inFlight k) (hfits : Fits P op) :
    buildStandardMemRqst P s op ≠ some (s', false) := by
  intro h
  obtain ⟨hcached, slots, hslots, hlt⟩ := buildStandardMemRqst_held h
  have hcache : P.hasCache = true := (Bool.and_eq_true_iff.mp hcached).1
  obtain ⟨k, hk⟩ : ∃ k, op.Op.counter = some k := by
    cases hop : op.Op <;> simp [hop, freeSlots] at hslots <;> exact ⟨_, rfl⟩
  have hzero : s.inFlight k = 0 := by simp [inFlight, hout]
  have hfree := freeSlots_toNat hslots hk (hcounts hcache k) (by omega) (hlimit k)
  have hle := hfits hcached k hk
  have hlines := getNumCacheLines_lt P op.Addr op.Size
  rw [UInt64.lt_iff_toNat_lt, UInt64.toNat_ofNat', Nat.mod_eq_of_lt (by omega)] at hlt
  omega

/-- A tick that finds nothing in flight works on the operation at the head. -/
theorem processNextRqst_head (hpos : ∀ k, 0 < P.limit k) (hlimit : ∀ k, P.limit k < 2 ^ 64)
    (hq : s.rqstQ = op :: q) (hamo : op.Op ≠ .MemOpAMO) (hout : s.outstanding = [])
    (hcounts : P.hasCache = true → ∀ k, (s.num k).toNat = s.inFlight k) (hfits : Fits P op)
    {t' : TMax} (h : processNextRqst P s {} = some (s', t')) : s'.work P < s.work P := by
  have hcases := (processNextRqst_cases h).1
  refine hcases.work.resolve_left fun hsame => ?_
  obtain ⟨t, havail⟩ := isMemOpAvail_fresh hpos hamo
  have hnext : nextCandidate P s.rqstQ 0 {} = some (some (0, op, t)) := by
    rw [hq, nextCandidate, havail]
  have hpend : s.isPendingAMO 0 op = false := by
    unfold isPendingAMO isAQ isRL
    split <;> simp
  have htail : s'.rqstQ = q := by
    unfold processNextRqst at h
    rw [if_neg (by simp [hq]), hnext] at h
    dsimp only at h
    rw [hpend] at h
    split at h
    · cases h
      simp [hq]
    · simp only [Bool.false_eq_true, if_false] at h
      split at h
      · cases h
      · rename_i s₁ hbuild
        obtain ⟨hf, -⟩ | ⟨-, -, -, rfl⟩ := buildStandardMemRqst_cases hbuild
        · cases hf
        · cases h
          simp [hq]
      · rename_i s₁ hbuild
        exact absurd hbuild (not_held hlimit hout hcounts hfits)
  rw [hsame, hq] at htail
  simp at htail

end Head

/-- A call of `processNextRqst` ends the tick or counts an operation. -/
theorem processNextRqst_counts {P : Params} {s s' : RevBasicMemCtrl} {t t' : TMax}
    (h : processNextRqst P s t = some (s', t')) :
    t'.t_max_ops = P.max_ops ∨ 0 < t'.t_max_ops := by
  unfold processNextRqst at h
  split at h
  · cases h
    exact .inl rfl
  split at h
  · cases h
  · cases h
    exact .inl rfl
  split at h
  · cases h
    exact .inl rfl
  split at h
  · cases h
    exact .inl rfl
  split at h
  · cases h
  · cases h
    exact .inr (Nat.succ_pos _)
  · cases h
    exact .inl rfl

end RevBasicMemCtrl

namespace Call

/-- The work that a call brings; an AMO has two operations. -/
def work (P : Params) (c : Call) : ℕ := opWork P (c.memOp 0) * if c.isAMO then 2 else 1

/-- The operations of a call fit into the limits of their kinds. -/
structure Fits (P : Params) (c : Call) : Prop where
  own : RevBasicMemCtrl.Fits P (c.memOp 0)
  half : c.isAMO = true → RevBasicMemCtrl.Fits P { c.memOp 0 with Op := .MemOpWRITE }

theorem enqueued_work (P : Params) (s : RevBasicMemCtrl) (c : Call) :
    (c.enqueued s).work P = s.work P + c.work P := by
  have hop : opWork P (c.memOp s.nextPtr) = opWork P (c.memOp 0) := by
    cases c <;> exact opWork_congr P rfl rfl rfl
  have hentries : ((c.amoEntries (c.memOp s.nextPtr)).map (entryWork P)).sum =
      if c.isAMO then opWork P (c.memOp 0) else 0 := by
    unfold amoEntries
    split
    · rename_i hamo
      have hread : (c.memOp s.nextPtr).Op = .MemOpREAD := by
        cases c <;> simp [isAMO] at hamo
        rfl
      simp [entryWork, hread, hop]
    · rfl
  simp only [RevBasicMemCtrl.work, enqueued, List.map_append, List.sum_append, hentries,
    List.map_cons, List.map_nil, List.sum_cons, List.sum_nil, hop, work]
  split <;> omega

end Call

theorem RevBasicMemCtrl.Stems.op_ne_AMO {c : Call} {op : RevMemOp} (h : Stems c op) :
    op.Op ≠ .MemOpAMO := by
  cases h with
  | original seq n => exact c.memOp_Op_ne_AMO seq
  | half => exact MemOp.noConfusion

theorem RevBasicMemCtrl.Stems.fits {P : Params} {c : Call} {op : RevMemOp} (h : Stems c op)
    (hfits : c.Fits P) : RevBasicMemCtrl.Fits P op := by
  cases h with
  | original seq n =>
    have hown := hfits.own
    cases c <;> exact hown
  | half seq ptr n buffer tempT hamo hlt =>
    have hhalf := hfits.half hamo
    cases c <;> exact hhalf

namespace CtrlSys

section

variable (P : Params) (s : CtrlSys)

/-- The work of all the calls so far. -/
def issuedWork : ℕ := (s.issued.map fun p => p.2.work P).sum

/-- Nothing is left to do. -/
def Drained : Prop := s.ctrl.rqstQ = [] ∧ s.ctrl.outstanding = [] ∧ s.ctrl.num_fence = 0

instance : Decidable s.Drained :=
  inferInstanceAs (Decidable (s.ctrl.rqstQ = [] ∧ s.ctrl.outstanding = [] ∧ s.ctrl.num_fence = 0))

/-- A `clockTick` that finds nothing in flight. -/
def idleTick (p : CtrlSys × Event) : Bool := p.2 = .clockTick ∧ p.1.ctrl.outstanding = []

/-- A tick that has begun with nothing in flight has still to take its first
    operation. -/
def due : ℕ :=
  if s.tick = some {} ∧ s.ctrl.rqstQ ≠ [] ∧ s.ctrl.outstanding = [] then 1 else 0

/-- The invariant of the runs in which the controller drains. -/
structure Draining : Prop where
  wf : s.Wf
  fenceSum : s.ctrl.fenceSum = UInt64.ofNat s.ctrl.unflushed
  counts : P.hasCache = true → s.ctrl.nextId < 2 ^ 64 →
    ∀ k, (s.ctrl.num k).toNat = s.ctrl.inFlight k
  fits : ∀ p ∈ s.issued, p.2.Fits P
  work : s.ctrl.work P ≤ s.issuedWork P

/-- The condition on the events. With a cache no request is answered whose handler
    decrements the counter of another kind. -/
structure DrainOk (ev : Event) : Prop where
  fits : ∀ c, ev = .send c → c.Fits P
  locked : P.hasCache = true → answersLocked s ev = false

end

theorem due_of_tick {s : CtrlSys} (htick : s.tick = none) : s.due = 0 := by
  unfold due
  rw [if_neg (by simp [htick])]

theorem clear_lt {x : UInt64} (h : 0 < x) : (x - 1).toNat < x.toNat := by
  have hpos : 0 < x.toNat := UInt64.lt_iff_toNat_lt.mp h
  have hone : (1 : UInt64) ≤ x := by
    rw [UInt64.le_iff_toNat_le]
    exact hpos
  rw [UInt64.toNat_sub_of_le _ _ hone]
  exact Nat.sub_lt hpos Nat.one_pos

section

variable {P : Params} {s s' : CtrlSys} {ev : Event}

/-- Only a call brings work. -/
theorem Draining.stepped (h : Draining P s) (hs : Stepped P s ev s') :
    s'.ctrl.work P + s.issuedWork P ≤ s.ctrl.work P + s'.issuedWork P := by
  cases hs with
  | skip | wait | start => exact Nat.le_refl _
  | @send c htick henq =>
    have hwork := c.enqueued_work P s.ctrl
    simp only [issuedWork, List.map_append, List.sum_append, List.map_cons, List.map_nil,
      List.sum_cons, List.sum_nil, hwork]
    omega
  | clear htick hfence hsum =>
    have hlt := clear_lt hfence
    simp only [RevBasicMemCtrl.work, issuedWork]
    omega
  | process htick hproc hfence =>
    rcases hproc.work with rfl | hlt
    · exact Nat.le_refl _
    · exact Nat.add_le_add_right (Nat.le_of_lt hlt) _
  | response htick hr hresp =>
    have hlt := hresp.work (P := P) h.wf.ord h.wf.book hr
    exact Nat.add_le_add_right (Nat.le_of_lt hlt) _

theorem Draining.step (h : Draining P s) (hok : DrainOk P s ev) (hstep : step P s ev = some s') :
    Draining P s' := by
  have hs := step_cases hstep
  refine ⟨hs.wf h.wf, hs.fenceSum h.wf.book h.fenceSum, ?_, ?_, ?_⟩
  · intro hcache hid k
    have hbook := hs.bookkeeping h.wf.book
    refine hs.counts h.wf.book (h.counts hcache ?_) (hok.locked hcache) k ?_
    · exact Nat.lt_of_le_of_lt hs.nextId_le hid
    · exact Nat.lt_of_le_of_lt (hbook.inFlight_le k) hid
  · cases hs with
    | @send c htick henq =>
      intro p hp
      rcases List.mem_append.mp hp with hp | hp
      · exact h.fits p hp
      · rw [List.mem_singleton.mp hp]
        exact hok.fits c rfl
    | skip | wait | start | clear | process | response => exact h.fits
  · have hwork := h.work
    have hle := h.stepped hs
    omega

theorem init_draining (P : Params) (host : Host) : Draining P (init host) :=
  ⟨init_wf host, rfl, fun _ _ k => by cases k <;> rfl, by simp [init], Nat.le_refl _⟩

/-- A fence in the queue or one that waits, an operation or a request is work. -/
theorem work_pos (h : ¬s.Drained) : 0 < s.ctrl.work P := by
  have hcases : s.ctrl.rqstQ ≠ [] ∨ s.ctrl.outstanding ≠ [] ∨ s.ctrl.num_fence ≠ 0 := by
    by_contra hnone
    simp only [not_or, not_not] at hnone
    exact h hnone
  unfold RevBasicMemCtrl.work
  rcases hcases with hq | hout | hfence
  · obtain ⟨op, q, hcons⟩ := List.exists_cons_of_ne_nil hq
    have htwo := two_le_opWork P op
    rw [hcons, List.map_cons, List.sum_cons]
    omega
  · have hlen := List.length_pos_of_ne_nil hout
    omega
  · have hne : s.ctrl.num_fence.toNat ≠ 0 := fun hzero => hfence (UInt64.toNat_inj.mp hzero)
    omega

/-- A tick that finds nothing in flight and is not drained pays with work, at once
    or with the first operation that it takes. -/
theorem Draining.pays (hpos : ∀ k, 0 < P.limit k) (hlimit : ∀ k, P.limit k < 2 ^ 64)
    (h : Draining P s) (hid : s.ctrl.nextId < 2 ^ 64) (hsend : ∀ c, ev ≠ .send c)
    (hstep : CtrlSys.step P s ev = some s') :
    s'.ctrl.work P + (s.issuedWork P + s.due) +
        (if (idleTick (s, ev) && !decide s.Drained) = true then 1 else 0) ≤
      s.ctrl.work P + (s'.issuedWork P + s'.due) := by
  have hs := step_cases hstep
  have hle := h.stepped hs
  cases ev with
  | send c => exact absurd rfl (hsend c)
  | response id data =>
    cases hs with
    | @response r _ ctrl host htick hr hresp =>
      rw [due_of_tick htick, due_of_tick (s := { s with ctrl, host }) htick]
      simp only [idleTick, reduceCtorEq, false_and, decide_false, Bool.false_and,
        Bool.false_eq_true, if_false]
      exact hle
  | processNextRqst =>
    have hmark : (idleTick (s, .processNextRqst) && !decide s.Drained) = false := by
      simp [idleTick]
    rw [hmark, if_neg (by decide)]
    suffices hdue : s'.ctrl.work P + s.issuedWork P + s.due ≤ s.ctrl.work P + s'.issuedWork P by
      omega
    by_cases hfirst : s.tick = some {} ∧ s.ctrl.rqstQ ≠ [] ∧ s.ctrl.outstanding = []
    swap
    · rw [due, if_neg hfirst]
      omega
    obtain ⟨htick, hq, hout⟩ := hfirst
    obtain ⟨op, q, hcons⟩ := List.exists_cons_of_ne_nil hq
    have hlive : op ∈ s.ctrl.live := mem_live.mpr (.inl (by rw [hcons]; exact List.mem_cons_self))
    obtain ⟨c, hc, hstem⟩ := h.wf.ord.stems op hlive
    simp only [CtrlSys.step, htick, Option.map_eq_some_iff, Prod.exists] at hstep
    obtain ⟨ctrl, t', hproc, rfl⟩ := hstep
    have hlt := processNextRqst_head hpos hlimit hcons hstem.op_ne_AMO hout
      (fun hcache => h.counts hcache hid) (hstem.fits (h.fits _ hc)) hproc
    have hdue : s.due = 1 := if_pos ⟨htick, hq, hout⟩
    rw [hdue]
    change ctrl.work P + s.issuedWork P + 1 ≤ s.ctrl.work P + s.issuedWork P
    omega
  | clockTick =>
    cases hs with
    | wait htick hfence hsum =>
      have hmark : idleTick (s, .clockTick) = false := by
        have hout : s.ctrl.outstanding ≠ [] := by
          intro hout
          rw [h.fenceSum] at hsum
          simp [unflushed, hout] at hsum
        simp [idleTick, hout]
      rw [hmark, Bool.false_and, if_neg (by decide)]
      exact Nat.le_refl _
    | clear htick hfence hsum =>
      have hlt := clear_lt hfence
      have hmark :
          (if (idleTick (s, .clockTick) && !decide s.Drained) = true then 1 else 0) ≤ 1 := by
        split <;> omega
      rw [due_of_tick htick]
      simp only [RevBasicMemCtrl.work, issuedWork] at hle ⊢
      omega
    | start htick hfence =>
      rw [due_of_tick htick]
      by_cases hmark : (idleTick (s, .clockTick) && !decide s.Drained) = true
      · have hparts : s.ctrl.outstanding = [] ∧ ¬s.Drained := by simpa [idleTick] using hmark
        have hq : s.ctrl.rqstQ ≠ [] := fun hq => hparts.2 ⟨hq, hparts.1, hfence⟩
        have hdue : due { s with tick := some {} } = 1 := if_pos ⟨rfl, hq, hparts.1⟩
        rw [if_pos hmark, hdue]
        exact Nat.le_refl _
      · rw [if_neg hmark]
        change s.ctrl.work P + s.issuedWork P ≤
          s.ctrl.work P + (s.issuedWork P + due { s with tick := some {} })
        exact Nat.add_le_add_left (Nat.le_add_right _ _) _

/-- Without a call a drained controller stays so. -/
theorem Drained.step (h : s.Drained) (hwf : s.Wf) (hsend : ∀ c, ev ≠ .send c)
    (hstep : CtrlSys.step P s ev = some s') : s'.Drained := by
  obtain ⟨hq, hout, hfence⟩ := h
  cases step_cases hstep with
  | skip | send => exact absurd rfl (hsend _)
  | wait | start => exact ⟨hq, hout, hfence⟩
  | clear htick hpos => exact absurd hpos (by simp [hfence])
  | process htick hproc =>
    cases hproc with
    | idle => exact ⟨hq, hout, hfence⟩
    | fence hcand | dispatch hcand =>
      have hslot := hcand.slot
      simp [hq] at hslot
  | response htick hr hresp =>
    have hiface := hwf.book.iface
    rw [hout, List.map_nil, List.map_eq_nil_iff] at hiface
    simp [hiface] at hr

/-- The controller drains: after a run of calls, ticks and answers in any order, a
    continuation without calls in which more ticks find nothing in flight than the
    calls have brought work leaves nothing queued, in flight or fenced, and no AMO
    open. Every limit is positive, and with a cache every operation's lines fit
    into the limit of its kind and the answers of the locked kinds, which are
    counted to another kind, do not occur. -/
theorem drains (hpos : ∀ k, 0 < P.limit k) (hlimit : ∀ k, P.limit k < 2 ^ 64) (host : Host)
    {tr tr' : List (CtrlSys × Event)} (hrun : Run (CtrlSys.step P) (init host) tr s)
    (hok : ∀ p ∈ tr, DrainOk P p.1 p.2) (hrun' : Run (CtrlSys.step P) s tr' s')
    (hok' : ∀ p ∈ tr', DrainOk P p.1 p.2) (hsend : ∀ p ∈ tr', ∀ c, p.2 ≠ .send c)
    (hids : s'.ctrl.nextId < 2 ^ 64) (hticks : s'.issuedWork P < tr'.countP idleTick) :
    s'.Drained ∧ s'.ctrl.AMOTable = [] := by
  have hstep : ∀ s ev s', Draining P s → DrainOk P s ev → CtrlSys.step P s ev = some s' →
      Draining P s' := fun s ev s' h hok hs => h.step hok hs
  have hstart := (hrun.invariant (Draining P) (DrainOk P) (init_draining P host) hstep hok).1
  obtain ⟨hend, hall⟩ := hrun'.invariant (Draining P) (DrainOk P) hstart hstep hok'
  have hle := hrun'.le_last (fun s => s.ctrl.nextId) fun s l s' hs => (step_cases hs).nextId_le
  suffices hdrained : s'.Drained from ⟨hdrained, hend.wf.ord.drained hdrained.1 hdrained.2.1⟩
  by_contra hnot
  have hbusy : ∀ p ∈ tr', ¬p.1.Drained := fun p hp hd => hnot
    (hrun'.persists Drained (fun p hp s' hd hs => hd.step (hall p hp).wf (hsend p hp) hs) p hp hd)
  have hcount : tr'.countP (fun p => idleTick p && !decide p.1.Drained) = tr'.countP idleTick := by
    refine List.countP_congr fun p hp => ?_
    simp [hbusy p hp]
  have hbudget := hrun'.count_le (fun p => idleTick p && !decide p.1.Drained)
    (fun s => s.ctrl.work P) (fun s => s.issuedWork P + s.due)
    (Nat.le_trans hstart.work (Nat.le_add_right _ _)) fun p hp s' hs =>
      (hall p hp).pays hpos hlimit (Nat.lt_of_le_of_lt (hle p hp) hids) (hsend p hp) hs
  have hpos' := work_pos (P := P) hnot
  have hdue : s'.due ≤ 1 := by
    unfold due
    split <;> omega
  omega

end

/-- A controller over lines of 64 bytes. -/
def linesOf64 : Params := { lineSize := 64 }

/-- An atomic addition to the word at 64, and a fence after it. -/
def addThenFence : List Call := [.AMO 0 64 64 4 [1, 0, 0, 0] (some 0) {} .F_AMOADD, .FENCE 0]

/-- The controller after the two calls. -/
def fencedAdd : CtrlSys :=
  { init zeroHost with
    ctrl := addThenFence.foldl Call.apply {}
    issued := [0, 1].zip addThenFence }

/-- Seven ticks that find nothing in flight, with the answers of the memory. -/
def sevenTicks : List Event :=
  [.clockTick, .processNextRqst, .processNextRqst, .response 0 [5, 0, 0, 0], .clockTick,
    .processNextRqst, .processNextRqst, .response 1 [], .clockTick, .processNextRqst, .clockTick,
    .processNextRqst, .clockTick, .processNextRqst, .clockTick, .processNextRqst, .clockTick,
    .processNextRqst]

theorem addThenFence_fits : ∀ c ∈ addThenFence, c.Fits linesOf64 := by
  intro c hc
  simp only [addThenFence, List.mem_cons, List.not_mem_nil, or_false] at hc
  rcases hc with rfl | rfl
  · refine ⟨fun _ k hk => ?_, fun _ _ k hk => ?_⟩
    all_goals
      obtain rfl := Option.some.inj hk
      decide
  · exact ⟨fun _ k hk => by simp [Call.memOp, MemOp.counter] at hk, fun hamo => by cases hamo⟩

/-- The addition and the fence are done after seven such ticks. -/
theorem addThenFence_drains :
    ∃ tr s, Run (step linesOf64) fencedAdd tr s ∧ s.Drained ∧ s.ctrl.AMOTable = [] := by
  have hlimit : ∀ k, 0 < linesOf64.limit k ∧ linesOf64.limit k < 2 ^ 64 := by
    intro k
    cases k <;> decide
  have hcalls : Run (step linesOf64) (init zeroHost)
      (trace (step linesOf64) (init zeroHost) (addThenFence.map Event.send)) fencedAdd :=
    run_of_exec _ rfl
  have hexec : (exec (step linesOf64) fencedAdd sevenTicks).map
      (fun s => (s.ctrl.nextId, s.issuedWork linesOf64)) = some (2, 6) := by decide +kernel
  obtain ⟨s, hexec, hout⟩ := Option.map_eq_some_iff.mp hexec
  simp only [Prod.mk.injEq] at hout
  have hcount : (trace (step linesOf64) fencedAdd sevenTicks).countP idleTick = 7 := by
    decide +kernel
  have hlocked : ∀ p ∈ trace (step linesOf64) fencedAdd sevenTicks,
      answersLocked p.1 p.2 = false := by decide +kernel
  have hsend : ∀ p ∈ trace (step linesOf64) fencedAdd sevenTicks, ∀ c, p.2 ≠ .send c := by
    intro p hp c heq
    have hlabel := trace_label hp
    rw [heq] at hlabel
    simp [sevenTicks] at hlabel
  have hrun := run_of_exec sevenTicks hexec
  refine ⟨_, s, hrun, drains (fun k => (hlimit k).1) (fun k => (hlimit k).2) zeroHost hcalls ?_ hrun
    ?_ hsend (by omega) (by omega)⟩
  · intro p hp
    obtain ⟨c, hc, heq⟩ := List.mem_map.mp (trace_label hp)
    refine ⟨fun c' hc' => ?_, fun _ => ?_⟩
    · obtain rfl : c = c' := Event.send.inj (heq.trans hc')
      exact addThenFence_fits c hc
    · rw [← heq]
      rfl
  · intro p hp
    exact ⟨fun c hc => absurd hc (hsend p hp c), fun _ => hlocked p hp⟩

end CtrlSys

end RevCPU
