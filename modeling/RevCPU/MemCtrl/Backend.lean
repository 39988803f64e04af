import RevCPU.Lib.Serial
import RevCPU.MemCtrl.OrderedRun

namespace RevCPU

open Lib RevBasicMemCtrl

namespace Call

def Addr (c : Call) : ℕ := (c.memOp 0).Addr

def Size (c : Call) : ℕ := (c.memOp 0).Size

def target (c : Call) : Option ℕ := (c.memOp 0).target

/-- The call is `sendREADRequest`, `sendWRITERequest`, `sendAMORequest` or
    `sendFENCE`. -/
def plain : Call → Bool
  | READ .. | WRITE .. | AMO .. | FENCE .. => true
  | _ => false

def isFence : Call → Bool
  | FENCE .. => true
  | _ => false

end Call

/-- A request that has taken effect: the number of its operation, and the bytes
    that it read or wrote from an address on. -/
structure Effect where
  seq : ℕ
  write : Bool
  addr : ℕ
  data : List UInt8
  deriving DecidableEq, Repr

/-- The controller in front of a memory. `done` lists the requests in flight
    that have taken effect, with the bytes that they have read. `log` and
    `returned` are history: the effects in their order, and for every load and
    AMO the bytes of its target when its last response has been handled. -/
structure Backed where
  sys : CtrlSys
  mem : ℕ → UInt8
  done : List (ℕ × List UInt8) := []
  log : List Effect := []
  returned : List (ℕ × List UInt8) := []

/-- The steps of the controller, and those of the memory: a request in flight
    takes effect, and a request that has taken effect is answered. -/
inductive BackedEvent
  | send (c : Call)
  | clockTick
  | processNextRqst
  | effect (id : ℕ)
  | respond (id : ℕ)
  deriving DecidableEq, Repr

namespace Backed

/-- A `Read` or `Write` request of operation `seq` takes effect. -/
def takeEffect (s : Backed) (r : StdRqst) (seq : ℕ) : Option Backed :=
  match r.cls with
  | .MemOpREAD =>
    let data := getBytes s.mem r.pAddr r.size
    some { s with done := s.done ++ [(r.id, data)], log := s.log ++ [⟨seq, false, r.pAddr, data⟩] }
  | .MemOpWRITE =>
    some { s with
      mem := setBytes s.mem r.pAddr r.data
      done := s.done ++ [(r.id, [])]
      log := s.log ++ [⟨seq, true, r.pAddr, r.data⟩] }
  | _ => none

/-- The value that a response returns to the caller of its operation: the bytes
    of the target once the last request of a load or of the write half of an AMO
    is answered. -/
def answers (s : Backed) (op : RevMemOp) (h : Host) : List (ℕ × List UInt8) :=
  match s.sys.issued.lookup op.seq with
  | none => []
  | some c =>
    if s.sys.ctrl.lastResp op && ((op.Op == .MemOpWRITE) == c.isAMO) then
      c.target.toList.map fun p => (op.seq, h.read p c.Size)
    else []

def step (P : Params) (s : Backed) : BackedEvent → Option Backed
  | .send c =>
    if c.plain then (s.sys.step P (.send c)).map fun sys => { s with sys } else none
  | .clockTick => (s.sys.step P .clockTick).map fun sys => { s with sys }
  | .processNextRqst => (s.sys.step P .processNextRqst).map fun sys => { s with sys }
  | .effect id =>
    match s.sys.ctrl.memIface.find? (fun r => r.id == id), s.sys.ctrl.outstanding.lookup id with
    | some r, some op => if (s.done.lookup id).isSome then none else s.takeEffect r op.seq
    | _, _ => none
  | .respond id =>
    match s.done.lookup id, s.sys.ctrl.outstanding.lookup id with
    | some data, some op =>
      (s.sys.step P (.response id data)).map fun sys =>
        { s with
          sys
          done := s.done.eraseP fun d => d.1 == id
          returned := s.returned ++ s.answers op sys.host }
    | _, _ => none

/-- The controller as it is constructed, on a memory. -/
def init (host : Host) (mem : ℕ → UInt8) : Backed := { sys := CtrlSys.init host, mem }

/-- Everything has been dispatched and answered. -/
def Drained (s : Backed) : Prop := s.sys.ctrl.rqstQ = [] ∧ s.sys.ctrl.outstanding = []

/-- What one step can do. -/
inductive Stepped (P : Params) (s : Backed) : BackedEvent → Backed → Prop
  | send {c : Call} {sys : CtrlSys} (hplain : c.plain = true)
      (hsys : CtrlSys.Stepped P s.sys (.send c) sys) : Stepped P s (.send c) { s with sys }
  | clockTick {sys : CtrlSys} (hsys : CtrlSys.Stepped P s.sys .clockTick sys) :
      Stepped P s .clockTick { s with sys }
  | processNextRqst {sys : CtrlSys} (hsys : CtrlSys.Stepped P s.sys .processNextRqst sys) :
      Stepped P s .processNextRqst { s with sys }
  | read {r : StdRqst} {op : RevMemOp}
      (hr : s.sys.ctrl.memIface.find? (fun x => x.id == r.id) = some r)
      (hop : s.sys.ctrl.outstanding.lookup r.id = some op) (hdone : s.done.lookup r.id = none)
      (hcls : r.cls = .MemOpREAD) :
      Stepped P s (.effect r.id)
        { s with
          done := s.done ++ [(r.id, getBytes s.mem r.pAddr r.size)]
          log := s.log ++ [⟨op.seq, false, r.pAddr, getBytes s.mem r.pAddr r.size⟩] }
  | write {r : StdRqst} {op : RevMemOp}
      (hr : s.sys.ctrl.memIface.find? (fun x => x.id == r.id) = some r)
      (hop : s.sys.ctrl.outstanding.lookup r.id = some op) (hdone : s.done.lookup r.id = none)
      (hcls : r.cls = .MemOpWRITE) :
      Stepped P s (.effect r.id)
        { s with
          mem := setBytes s.mem r.pAddr r.data
          done := s.done ++ [(r.id, [])]
          log := s.log ++ [⟨op.seq, true, r.pAddr, r.data⟩] }
  | respond {r : StdRqst} {op : RevMemOp} {data : List UInt8} {ctrl : RevBasicMemCtrl} {host : Host}
      (hr : s.sys.ctrl.memIface.find? (fun x => x.id == r.id) = some r)
      (hop : s.sys.ctrl.outstanding.lookup r.id = some op)
      (hdone : s.done.lookup r.id = some data) (htick : s.sys.tick = none)
      (hresp : Responded s.sys.ctrl s.sys.host r data ctrl host) :
      Stepped P s (.respond r.id)
        { s with
          sys := { s.sys with ctrl, host }
          done := s.done.eraseP fun d => d.1 == r.id
          returned := s.returned ++ s.answers op host }

theorem step_cases {P : Params} {s s' : Backed} {ev : BackedEvent} (h : step P s ev = some s') :
    Stepped P s ev s' := by
  cases ev with
  | send c =>
    simp only [step] at h
    split at h
    · rename_i hplain
      obtain ⟨sys, hsys, rfl⟩ := Option.map_eq_some_iff.mp h
      exact .send hplain (CtrlSys.step_cases hsys)
    · simp at h
  | clockTick =>
    obtain ⟨sys, hsys, rfl⟩ := Option.map_eq_some_iff.mp h
    exact .clockTick (CtrlSys.step_cases hsys)
  | processNextRqst =>
    obtain ⟨sys, hsys, rfl⟩ := Option.map_eq_some_iff.mp h
    exact .processNextRqst (CtrlSys.step_cases hsys)
  | effect id =>
    simp only [step] at h
    cases hfind : s.sys.ctrl.memIface.find? fun r => r.id == id with
    | none => simp [hfind] at h
    | some r =>
      obtain rfl : r.id = id := by simpa using List.find?_some hfind
      cases hop : s.sys.ctrl.outstanding.lookup r.id with
      | none => simp [hop] at h
      | some op =>
        cases hdone : s.done.lookup r.id with
        | some data => simp [hfind, hop, hdone] at h
        | none =>
          simp only [hfind, hop, hdone, Option.isSome_none, Bool.false_eq_true, if_false] at h
          unfold takeEffect at h
          split at h
          · rename_i hcls
            obtain rfl := Option.some.inj h
            exact .read hfind hop hdone hcls
          · rename_i hcls
            obtain rfl := Option.some.inj h
            exact .write hfind hop hdone hcls
          · simp at h
  | respond id =>
    simp only [step] at h
    cases hdone : s.done.lookup id with
    | none => simp [hdone] at h
    | some data =>
      cases hop : s.sys.ctrl.outstanding.lookup id with
      | none => simp [hdone, hop] at h
      | some op =>
        simp only [hdone, hop] at h
        obtain ⟨sys, hsys, rfl⟩ := Option.map_eq_some_iff.mp h
        generalize hev : Event.response id data = ev at hsys
        cases CtrlSys.step_cases hsys with
        | @response r data' ctrl host htick hr hresp =>
          simp only [Event.response.injEq] at hev
          obtain ⟨rfl, rfl⟩ := hev
          exact .respond hr hop hdone htick hresp
        | _ => simp at hev

end Backed

end RevCPU
