import RevCPU.MemCtrl.Processed
import RevCPU.MemCtrl.Responded

namespace RevCPU

open Lib RevBasicMemCtrl

namespace Call

/-- The entries that a call adds to `AMOTable`. -/
def amoEntries (c : Call) (op : RevMemOp) : List AMOEntry :=
  if c.isAMO then
    [{ key := op.Addr, hart := op.Hart, target := op.target, flags := op.flags, memop := op,
       isIn := false }]
  else []

/-- The controller after a call that passes its guards. -/
def enqueued (s : RevBasicMemCtrl) (c : Call) : RevBasicMemCtrl :=
  { s with
    rqstQ := s.rqstQ ++ [c.memOp s.nextPtr]
    AMOTable := s.AMOTable ++ c.amoEntries (c.memOp s.nextPtr)
    nextPtr := s.nextPtr + 1 }

theorem apply_eq (s : RevBasicMemCtrl) (c : Call) :
    c.apply s = if c.enqueues then c.enqueued s else s := by
  cases c with
  | AMO Hart Addr PAddr Size buffer target req flags =>
    by_cases hsize : Size = 0
    · simp [apply, enqueues, sendAMORequest, hsize]
    · by_cases hflags : RevFlagHas flags .F_ATOMIC <;>
        simp [apply, enqueues, enqueued, sendAMORequest, push, memOp, amoEntries, isAMO, hsize, hflags]
  | FENCE Hart =>
    simp [apply, enqueues, enqueued, sendFENCE, push, memOp, amoEntries, isAMO]
  | FLUSH Hart Addr PAddr Size Inv flags =>
    by_cases hsize : Size = 0 <;>
      simp [apply, enqueues, enqueued, sendFLUSHRequest, push, memOp, amoEntries, isAMO, hsize]
  | READ Hart Addr PAddr Size target req flags =>
    by_cases hsize : Size = 0 <;>
      simp [apply, enqueues, enqueued, sendREADRequest, push, memOp, amoEntries, isAMO, hsize]
  | WRITE Hart Addr PAddr Size buffer flags =>
    by_cases hsize : Size = 0 <;>
      simp [apply, enqueues, enqueued, sendWRITERequest, push, memOp, amoEntries, isAMO, hsize]
  | READLOCK Hart Addr PAddr Size target req flags =>
    by_cases hsize : Size = 0 <;>
      simp [apply, enqueues, enqueued, sendREADLOCKRequest, push, memOp, amoEntries, isAMO, hsize]
  | WRITELOCK Hart Addr PAddr Size buffer flags =>
    by_cases hsize : Size = 0 <;>
      simp [apply, enqueues, enqueued, sendWRITELOCKRequest, push, memOp, amoEntries, isAMO, hsize]
  | LOADLINK Hart Addr PAddr Size flags =>
    by_cases hsize : Size = 0 <;>
      simp [apply, enqueues, enqueued, sendLOADLINKRequest, push, memOp, amoEntries, isAMO, hsize]
  | STORECOND Hart Addr PAddr Size buffer flags =>
    by_cases hsize : Size = 0 <;>
      simp [apply, enqueues, enqueued, sendSTORECONDRequest, push, memOp, amoEntries, isAMO, hsize]
  | CUSTOMREAD Hart Addr PAddr Size target Opc flags =>
    by_cases hsize : Size = 0 <;>
      simp [apply, enqueues, enqueued, sendCUSTOMREADRequest, push, memOp, amoEntries, isAMO, hsize]
  | CUSTOMWRITE Hart Addr PAddr Size buffer Opc flags =>
    by_cases hsize : Size = 0 <;>
      simp [apply, enqueues, enqueued, sendCUSTOMWRITERequest, push, memOp, amoEntries, isAMO, hsize]

section
variable (ptr : ℕ) (c : Call)

@[simp] theorem memOp_ptr : (c.memOp ptr).ptr = ptr := by cases c <;> rfl
@[simp] theorem memOp_seq : (c.memOp ptr).seq = ptr := by cases c <;> rfl
@[simp] theorem memOp_Hart : (c.memOp ptr).Hart = c.Hart := by cases c <;> rfl
@[simp] theorem memOp_flags : (c.memOp ptr).flags = c.flags := by cases c <;> rfl

theorem memOp_Op_ne_AMO : (c.memOp ptr).Op ≠ .MemOpAMO := by cases c <;> simp [memOp]

end

end Call

namespace CtrlSys

/-- Everything that one step of the controller can do. -/
inductive Stepped (P : Params) (s : CtrlSys) : Event → CtrlSys → Prop
  | skip {c : Call} (htick : s.tick = none) (henq : c.enqueues = false) :
      Stepped P s (.send c) s
  | send {c : Call} (htick : s.tick = none) (henq : c.enqueues = true) :
      Stepped P s (.send c)
        { s with ctrl := c.enqueued s.ctrl, issued := s.issued ++ [(s.ctrl.nextPtr, c)] }
  | wait (htick : s.tick = none) (hfence : 0 < s.ctrl.num_fence) (hsum : s.ctrl.fenceSum ≠ 0) :
      Stepped P s .clockTick s
  | start (htick : s.tick = none) (hfence : s.ctrl.num_fence = 0) :
      Stepped P s .clockTick { s with tick := some {} }
  | clear (htick : s.tick = none) (hfence : 0 < s.ctrl.num_fence) (hsum : s.ctrl.fenceSum = 0) :
      Stepped P s .clockTick
        { s with ctrl := { s.ctrl with num_fence := s.ctrl.num_fence - 1 }, tick := some {} }
  | process {t : TMax} {tick' : Option TMax} {ctrl : RevBasicMemCtrl} (htick : s.tick = some t)
      (hproc : Processed P s.ctrl t ctrl)
      (hfence : ctrl.num_fence ≠ s.ctrl.num_fence → tick' = none) :
      Stepped P s .processNextRqst { s with ctrl, tick := tick' }
  | response {r : StdRqst} {data : List UInt8} {ctrl : RevBasicMemCtrl} {host : Host}
      (htick : s.tick = none) (hr : s.ctrl.memIface.find? (fun x => x.id == r.id) = some r)
      (hresp : Responded s.ctrl s.host r data ctrl host) :
      Stepped P s (.response r.id data) { s with ctrl, host }

theorem step_cases {P : Params} {s s' : CtrlSys} {ev : Event} (h : step P s ev = some s') :
    Stepped P s ev s' := by
  cases ev with
  | send c =>
    cases htick : s.tick with
    | some t => simp [step, htick] at h
    | none =>
      simp only [step, htick, Option.isSome_none, Bool.false_eq_true, if_false, Option.some.injEq,
        Call.apply_eq] at h
      cases henq : c.enqueues with
      | false =>
        simp only [henq, Bool.false_eq_true, if_false] at h
        have heq : s' = s := by rw [← h]; cases s; simp_all
        rw [heq]
        exact .skip htick henq
      | true =>
        simp only [henq, if_true] at h
        subst h
        have hstep := Stepped.send (P := P) htick henq
        rwa [htick] at hstep
  | clockTick =>
    cases htick : s.tick with
    | some t => simp [step, htick] at h
    | none =>
      simp only [step, htick, Option.isSome_none, Bool.false_eq_true, if_false, passFence] at h
      by_cases hfence : s.ctrl.num_fence > 0
      · by_cases hsum : s.ctrl.fenceSum = 0
        · simp only [hfence, if_true, hsum, ne_eq, not_true_eq_false, if_false,
            Option.some.injEq] at h
          subst h
          exact .clear htick hfence hsum
        · simp only [hfence, if_true, hsum, ne_eq, not_false_eq_true, Option.some.injEq] at h
          subst h
          exact .wait htick hfence hsum
      · simp only [hfence, if_false, Option.some.injEq] at h
        subst h
        exact .start htick (by simpa using hfence)
  | processNextRqst =>
    cases htick : s.tick with
    | none => simp [step, htick] at h
    | some t =>
      simp only [step, htick, Option.map_eq_some_iff, Prod.exists] at h
      obtain ⟨ctrl, t', hproc, rfl⟩ := h
      obtain ⟨hcases, hsat⟩ := processNextRqst_cases hproc
      exact .process htick hcases fun hne => by rw [if_pos (hsat hne)]
  | response id data =>
    cases htick : s.tick with
    | some t => simp [step, htick] at h
    | none =>
      simp only [step, htick, Option.isSome_none, Bool.false_eq_true, if_false] at h
      cases hfind : s.ctrl.memIface.find? fun x => x.id == id with
      | none => simp [hfind] at h
      | some r =>
        have hid : r.id = id := by simpa using List.find?_some hfind
        subst hid
        simp only [hfind, Option.map_eq_some_iff, Prod.exists] at h
        obtain ⟨ctrl, host, hresp, rfl⟩ := h
        have hstep := Stepped.response (P := P) htick hfind (handleResp_cases hresp)
        rwa [htick] at hstep

end CtrlSys

end RevCPU
