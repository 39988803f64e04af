import RevCPU.Lib.Run
import RevCPU.MemCtrl.Dispatch
import RevCPU.MemCtrl.Response

namespace RevCPU

open Lib

/-- A call of one of the `send*Request` functions or of `sendFENCE`. -/
inductive Call
  | FLUSH (Hart Addr PAddr Size : ℕ) (Inv : Bool) (flags : RevFlag)
  | READ (Hart Addr PAddr Size : ℕ) (target : Option ℕ) (req : MemReq) (flags : RevFlag)
  | WRITE (Hart Addr PAddr Size : ℕ) (buffer : List UInt8) (flags : RevFlag)
  | AMO (Hart Addr PAddr Size : ℕ) (buffer : List UInt8) (target : Option ℕ) (req : MemReq)
      (flags : RevFlag)
  | READLOCK (Hart Addr PAddr Size : ℕ) (target : Option ℕ) (req : MemReq) (flags : RevFlag)
  | WRITELOCK (Hart Addr PAddr Size : ℕ) (buffer : List UInt8) (flags : RevFlag)
  | LOADLINK (Hart Addr PAddr Size : ℕ) (flags : RevFlag)
  | STORECOND (Hart Addr PAddr Size : ℕ) (buffer : List UInt8) (flags : RevFlag)
  | CUSTOMREAD (Hart Addr PAddr Size : ℕ) (target : Option ℕ) (Opc : ℕ) (flags : RevFlag)
  | CUSTOMWRITE (Hart Addr PAddr Size : ℕ) (buffer : List UInt8) (Opc : ℕ) (flags : RevFlag)
  | FENCE (Hart : ℕ)
  deriving DecidableEq, Repr

namespace Call

def apply (s : RevBasicMemCtrl) : Call → RevBasicMemCtrl
  | FLUSH Hart Addr PAddr Size Inv flags => s.sendFLUSHRequest Hart Addr PAddr Size Inv flags
  | READ Hart Addr PAddr Size target req flags =>
    s.sendREADRequest Hart Addr PAddr Size target req flags
  | WRITE Hart Addr PAddr Size buffer flags => s.sendWRITERequest Hart Addr PAddr Size buffer flags
  | AMO Hart Addr PAddr Size buffer target req flags =>
    s.sendAMORequest Hart Addr PAddr Size buffer target req flags
  | READLOCK Hart Addr PAddr Size target req flags =>
    s.sendREADLOCKRequest Hart Addr PAddr Size target req flags
  | WRITELOCK Hart Addr PAddr Size buffer flags =>
    s.sendWRITELOCKRequest Hart Addr PAddr Size buffer flags
  | LOADLINK Hart Addr PAddr Size flags => s.sendLOADLINKRequest Hart Addr PAddr Size flags
  | STORECOND Hart Addr PAddr Size buffer flags =>
    s.sendSTORECONDRequest Hart Addr PAddr Size buffer flags
  | CUSTOMREAD Hart Addr PAddr Size target Opc flags =>
    s.sendCUSTOMREADRequest Hart Addr PAddr Size target Opc flags
  | CUSTOMWRITE Hart Addr PAddr Size buffer Opc flags =>
    s.sendCUSTOMWRITERequest Hart Addr PAddr Size buffer Opc flags
  | FENCE Hart => s.sendFENCE Hart

def Hart : Call → ℕ
  | FLUSH h .. | READ h .. | WRITE h .. | AMO h .. | READLOCK h .. | WRITELOCK h ..
  | LOADLINK h .. | STORECOND h .. | CUSTOMREAD h .. | CUSTOMWRITE h .. | FENCE h => h

def flags : Call → RevFlag
  | FLUSH _ _ _ _ _ f | READ _ _ _ _ _ _ f | WRITE _ _ _ _ _ f | AMO _ _ _ _ _ _ _ f
  | READLOCK _ _ _ _ _ _ f | WRITELOCK _ _ _ _ _ f | LOADLINK _ _ _ _ f | STORECOND _ _ _ _ _ f
  | CUSTOMREAD _ _ _ _ _ _ f | CUSTOMWRITE _ _ _ _ _ _ f => f
  | FENCE _ => .F_NONE

/-- The operation that the call puts on the request queue, if it puts one
    there, when `ptr` is the address of the new object. -/
def memOp (ptr : ℕ) : Call → RevMemOp
  | FLUSH Hart Addr PAddr Size Inv flags =>
    { ptr, seq := ptr, Hart, Addr, PAddr, Size, Op := .MemOpFLUSH, flags, Inv }
  | READ Hart Addr PAddr Size target req flags =>
    { ptr, seq := ptr, Hart, Addr, PAddr, Size, Op := .MemOpREAD, flags, target, procReq := req }
  | WRITE Hart Addr PAddr Size buffer flags =>
    { ptr, seq := ptr, Hart, Addr, PAddr, Size, Op := .MemOpWRITE, flags,
      membuf := copyBuf buffer Size }
  | AMO Hart Addr PAddr Size buffer target req flags =>
    { ptr, seq := ptr, Hart, Addr, PAddr, Size, Op := .MemOpREAD, flags,
      membuf := copyBuf buffer Size, target, procReq := req }
  | READLOCK Hart Addr PAddr Size target req flags =>
    { ptr, seq := ptr, Hart, Addr, PAddr, Size, Op := .MemOpREADLOCK, flags, target,
      procReq := req }
  | WRITELOCK Hart Addr PAddr Size buffer flags =>
    { ptr, seq := ptr, Hart, Addr, PAddr, Size, Op := .MemOpWRITEUNLOCK, flags,
      membuf := copyBuf buffer Size }
  | LOADLINK Hart Addr PAddr Size flags =>
    { ptr, seq := ptr, Hart, Addr, PAddr, Size, Op := .MemOpLOADLINK, flags }
  | STORECOND Hart Addr PAddr Size buffer flags =>
    { ptr, seq := ptr, Hart, Addr, PAddr, Size, Op := .MemOpSTORECOND, flags,
      membuf := copyBuf buffer Size }
  | CUSTOMREAD Hart Addr PAddr Size target Opc flags =>
    { ptr, seq := ptr, Hart, Addr, PAddr, Size, Op := .MemOpCUSTOM, flags, CustomOpc := Opc,
      target }
  | CUSTOMWRITE Hart Addr PAddr Size buffer Opc flags =>
    { ptr, seq := ptr, Hart, Addr, PAddr, Size, Op := .MemOpCUSTOM, flags, CustomOpc := Opc,
      membuf := copyBuf buffer Size }
  | FENCE Hart =>
    { ptr, seq := ptr, Hart, Addr := 0, PAddr := 0, Size := 0, Op := .MemOpFENCE, flags := .F_NONE }

def isAMO : Call → Bool
  | AMO .. => true
  | _ => false

/-- The call passes the guards of its `send*Request` function. -/
def enqueues (c : Call) : Bool :=
  match c with
  | FENCE _ => true
  | AMO _ _ _ Size _ _ _ flags => Size != 0 && RevFlagHas flags .F_ATOMIC
  | c => (c.memOp 0).Size != 0

end Call

/-- The controller with its surroundings. `tick` holds the issue counters while
    a `clockTick` is in its loop; `issued` is the history of the accepted calls
    with the number each operation got. -/
structure CtrlSys where
  ctrl : RevBasicMemCtrl
  host : Host
  tick : Option TMax := none
  issued : List (ℕ × Call) := []

/-- What happens to the controller, one step at a time. A `clockTick` is the
    event of that name followed by one `processNextRqst` for each call that its
    loop makes; nothing comes between them. -/
inductive Event
  | send (c : Call)
  | clockTick
  | processNextRqst
  | response (id : ℕ) (data : List UInt8)
  deriving DecidableEq, Repr

namespace RevBasicMemCtrl

/-- The handler that the response to a request of this class reaches. -/
def handleResp (s : RevBasicMemCtrl) (h : Host) (r : StdRqst) (data : List UInt8) :
    Option (RevBasicMemCtrl × Host) :=
  match r.cls with
  | .MemOpREAD | .MemOpREADLOCK | .MemOpLOADLINK =>
    s.handleReadResp h { id := r.id, pAddr := r.pAddr, size := r.size, data }
  | .MemOpWRITE | .MemOpWRITEUNLOCK | .MemOpSTORECOND => s.handleWriteResp h r.id
  | .MemOpFLUSH => (s.handleFlushResp r.id).map fun s => (s, h)
  | .MemOpCUSTOM => (s.handleCustomResp r.id).map fun s => (s, h)
  | .MemOpFENCE | .MemOpAMO => none

end RevBasicMemCtrl

namespace CtrlSys

def step (P : Params) (s : CtrlSys) : Event → Option CtrlSys
  | .send c =>
    if s.tick.isSome then none
    else some { s with
      ctrl := c.apply s.ctrl
      issued := if c.enqueues then s.issued ++ [(s.ctrl.nextPtr, c)] else s.issued }
  | .clockTick =>
    if s.tick.isSome then none
    else
      match s.ctrl.passFence with
      | none => some s
      | some ctrl => some { s with ctrl, tick := some {} }
  | .processNextRqst =>
    match s.tick with
    | none => none
    | some t =>
      (s.ctrl.processNextRqst P t).map fun (ctrl, t') =>
        { s with ctrl, tick := if t'.t_max_ops = P.max_ops then none else some t' }
  | .response id data =>
    if s.tick.isSome then none
    else
      match s.ctrl.memIface.find? fun r => r.id == id with
      | none => none
      | some r =>
        let ctrl := { s.ctrl with memIface := s.ctrl.memIface.eraseP fun r => r.id == id }
        (ctrl.handleResp s.host r data).map fun (ctrl, host) => { s with ctrl, host }

end CtrlSys

end RevCPU
