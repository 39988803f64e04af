import RevCPU.Mem.Access
import RevCPU.MemCtrl.System
import RevCPU.Sched.Pipeline

namespace RevCPU

open Sched

/-- `EcallStatus`. -/
inductive EcallStatus
  | SUCCESS | CONTINUE | ERROR
  deriving DecidableEq, Repr

/-- `EcallState`. The array `buf` is an object of the host. -/
structure EcallState where
  string : List UInt8 := []
  path_string : List UInt8 := []
  bytesRead : ℕ := 0
  deriving DecidableEq, Repr

namespace SysCalls

/-- `RevReg::a0`, `RevReg::a1` and `RevReg::a2`. -/
def a0 : ℕ := 10

def a1 : ℕ := 11

def a2 : ℕ := 12

/-- What stays the same while a hart executes a system call again and again: the
    memory controller, if there is one, XLEN, the hart, where its register file
    and its `buf` are, the number of the `MarkLoadComplete` of its core, and the
    address of the instruction. -/
structure Site where
  P : Params := {}
  hasCtrl : Bool := false
  IsRV32 : Bool := false
  HartToExecID : ℕ
  RegFile : ℕ
  buf : ℕ
  MarkLoadComplete : ℕ
  PC : ℕ

/-- XLEN in bits. -/
def Site.xlen (e : Site) : ℕ := if e.IsRV32 then 32 else 64

/-- The size of the `ecall` instruction. -/
def instSize : ℕ := 4

/-- A hart with its core, the memory and the controller in front of it. `X` are
    its integer registers, `calls` is the history of what its system calls have
    asked of the host. -/
structure Machine (κ : Type) where
  core : CoreState
  M : RevMem
  sys : CtrlSys
  X : ℕ → ℕ
  Ecall : EcallState := {}
  calls : List κ := []

/-- `MarkLoadComplete` for the requests of this core, one after the other. -/
def markAll (e : Site) (c : CoreState) : List MemReq → Option CoreState
  | [] => some c
  | req :: reqs =>
    if req.MarkLoadCompleteFunc = some e.MarkLoadComplete then
      (c.MarkLoadComplete req).toOption.bind fun c => markAll e c reqs
    else markAll e c reqs

namespace Machine

variable {κ : Type}

/-- The outstanding loads of the register a0. -/
def count (s : Machine κ) (e : Site) : ℕ := s.core.lsqCount a0 .RegGPR e.HartToExecID

/-- `DependencySet` and `DependencyClear` on a0. -/
def setDependency (s : Machine κ) (e : Site) (value : Bool) : Option (Machine κ) :=
  (s.core.DependencySet e.HartToExecID a0 false value).toOption.map fun core => { s with core }

/-- The `MemReq` for a read of `buf`. -/
def loadReq (e : Site) (A : ℕ) : MemReq :=
  { Addr := A, DestReg := a0, RegType := .RegGPR, Hart := e.HartToExecID, ReqType := .MemOpREAD,
    isOutstanding := true, MarkLoadCompleteFunc := some e.MarkLoadComplete }

/-- The calls of `sendREADRequest` that have put these operations on the queue. -/
def readCalls (ops : List RevMemOp) : List (ℕ × Call) :=
  ops.map fun op => (op.seq, .READ op.Hart op.Addr op.PAddr op.Size op.target op.procReq op.flags)

/-- The request enters `LSQueue`, and `ReadVal` reads `n` bytes into `buf`. -/
def ReadVal (s : Machine κ) (e : Site) (A n : ℕ) : Option (Machine κ) :=
  let req := loadReq e A
  let core := { s.core with proc := { s.core.proc with LSQueue := s.core.proc.LSQueue ++ [req] } }
  let M := { s.M with ctrl := if e.hasCtrl then some s.sys.ctrl else none }
  (M.ReadMem s.sys.host e.HartToExecID A n e.buf req .F_NONE).bind fun (M, host) =>
    let ctrl := M.ctrl.getD s.sys.ctrl
    let sent := ctrl.rqstQ.drop s.sys.ctrl.rqstQ.length
    (markAll e core (host.completed.drop s.sys.host.completed.length)).map fun core =>
      { s with
        core
        M := { M with ctrl := none }
        sys := { s.sys with ctrl, host, issued := s.sys.issued ++ readCalls sent } }

/-- The bytes of `buf` are appended to `string`. -/
def append (s : Machine κ) (e : Site) : Machine κ :=
  { s with Ecall := { s.Ecall with
      string := s.Ecall.string ++ s.sys.host.read e.buf s.Ecall.bytesRead
      bytesRead := 0 } }

/-- A read of `buf` is started. -/
def startRead (s : Machine κ) (e : Site) (A n : ℕ) : Option (Machine κ) :=
  (s.ReadVal e A n).bind fun s =>
    { s with Ecall := { s.Ecall with bytesRead := n } }.setDependency e true

/-- `EcallLoadAndParseString`. The action is called with the string, of which the
    history keeps a copy, and works on the registers. -/
def EcallLoadAndParseString (e : Site) (straddr : ℕ) (action : List UInt8 → (ℕ → ℕ) → ℕ → ℕ)
    (s : Machine (List UInt8)) : Option (Machine (List UInt8) × EcallStatus) :=
  if 0 < s.count e then some (s, .CONTINUE)
  else
    let s := if s.Ecall.bytesRead ≠ 0 then s.append e else s
    if s.Ecall.string.getLast? = some 0 then
      let s := { s with
        X := action s.Ecall.string s.X
        calls := s.calls ++ [s.Ecall.string] }
      let s := { s with Ecall := { s.Ecall with string := [], bytesRead := 0 } }
      (s.setDependency e false).map fun s => (s, .SUCCESS)
    else
      (s.startRead e ((straddr + s.Ecall.string.length) % W64) 1).map fun s => (s, .CONTINUE)

/-- The bytes that `ECALL_write` reads next. -/
def chunk (nleft : ℕ) : ℕ := if 8 ≤ nleft then 8 else if 4 ≤ nleft then 4 else if 2 ≤ nleft then 2 else 1

/-- `EcallState::clear`. -/
def clear (s : Machine κ) (e : Site) : Machine κ :=
  { s with
    Ecall := { string := [], path_string := [], bytesRead := 0 }
    sys := { s.sys with host := s.sys.host.write e.buf 0 [0] } }

/-- The value that `SetX` stores for an `int`. -/
def intX (e : Site) (rc : ℤ) : ℕ := (BitVec.ofInt e.xlen (BitVec.ofInt 32 rc).toInt).toNat

/-- `ECALL_write`. The `write` of the host gets a file descriptor and bytes and
    returns a number. -/
def ECALL_write (e : Site) (write : ℤ → List UInt8 → ℤ) (s : Machine (ℤ × List UInt8)) :
    Option (Machine (ℤ × List UInt8) × EcallStatus) :=
  let fd := (BitVec.ofNat 32 (s.X a0)).toInt
  let addr := s.X a1
  let nbytes := s.X a2
  let s := if s.Ecall.bytesRead ≠ 0 ∧ s.count e = 0 then s.append e else s
  let nleft := (nbytes + W64 - s.Ecall.string.length) % W64
  if nleft = 0 ∧ s.count e = 0 then
    let s := { s with
      X := Function.update s.X a0 (intX e (write fd s.Ecall.string))
      calls := s.calls ++ [(fd, s.Ecall.string)] }
    ((s.clear e).setDependency e false).map fun s => (s, .SUCCESS)
  else if s.count e = 0 then
    (s.startRead e ((addr + s.Ecall.string.length) % W64) (chunk nleft)).map fun s => (s, .CONTINUE)
  else some (s, .CONTINUE)

def setPC (s : Machine κ) (e : Site) (pc : ℕ) : Machine κ :=
  { s with core := s.core.setReg e.RegFile fun r => { r with PC := pc % 2 ^ e.xlen } }

def GetPC (s : Machine κ) (e : Site) : ℕ := (s.core.regs e.RegFile).PC

/-- `ExecEcall` for the function of a system call: a call without success is
    executed again. -/
def ExecEcall (e : Site) (handler : Machine κ → Option (Machine κ × EcallStatus)) (s : Machine κ) :
    Option (Machine κ) :=
  (handler s).map fun (s, status) =>
    if status ≠ .SUCCESS then s.setPC e (s.GetPC e + 2 ^ 64 - instSize) else s

end Machine

/-- What happens while the hart is at the `ecall`: it executes it, the controller
    takes a step, or the other harts work on the core and the memory. -/
inductive Action
  | exec
  | ctrl (ev : Event)
  | other (core : CoreState) (M : RevMem)

namespace Machine

variable {κ : Type}

/-- One step. The `ecall` advances the PC before `ExecEcall`; the requests that
    the controller marks complete are those of a core. -/
def step (e : Site) (handler : Machine κ → Option (Machine κ × EcallStatus)) (s : Machine κ)
    (a : Action) : Option (Machine κ) :=
  if s.GetPC e ≠ e.PC then none
  else
    match a with
    | .exec =>
      if e.hasCtrl && s.sys.tick.isSome then none
      else ExecEcall e handler (s.setPC e (s.GetPC e + instSize))
    | .ctrl ev =>
      if e.hasCtrl then
        (s.sys.step e.P ev).bind fun sys =>
          (markAll e s.core (sys.host.completed.drop s.sys.host.completed.length)).map fun core =>
            { s with core, sys }
      else none
    | .other core M => some { s with core, M }

end Machine

end SysCalls

end RevCPU
