import RevCPU.Sched.Pipeline

namespace RevCPU.Sched

/-- The system calls as `ExecEcall` sees them. `pthread_create` gets the new
    thread's id and the address of its first instruction, `pthread_join` the value
    of a0; any other call works on the loads and the scoreboard and returns a
    status, which is `SUCCESS` or not. -/
inductive Ecall
  | create (NewTID firstPC : ℕ)
  | join (a0 : ℕ)
  | other (ops : List CoreState.LoadOp) (success : Bool)

/-- What `Execute` does: the loads it issues and completes, the PC and the cost it
    leaves in the register file, and the system call that it asks for. -/
structure Executed where
  ops : List CoreState.LoadOp := []
  PC : ℕ
  cost : ℕ
  ecall : Option Ecall := none

/-- What a call of `ClockTick` gets from outside: whether the prefetcher has the
    instruction, whether the coprocessor stalls the hart, the instruction that is
    fetched and what its execution does. `none` is a fatal error. -/
structure TickInput where
  avail : Bool := true
  stallReq : Bool := false
  fetched : Option Fetched := none
  executed : Option Executed := none

namespace CoreState

variable (c : CoreState)

/-- A hart is clear to decode if it has a thread whose last instruction is done. -/
def updateClear : CoreState :=
  { c with proc := { c.proc with
      HartsClearToDecode := fun h =>
        !c.proc.IdleHarts h && (c.proc.Harts h).any fun t => (c.regs t.VirtRegState).cost == 0 } }

/-- `UpdateStatusOfHarts`. -/
def UpdateStatusOfHarts : Except Fault CoreState :=
  if (List.range c.proc.numHarts).any fun h => !c.proc.IdleHarts h && (c.proc.Harts h).isNone then
    .error .nullRegFile
  else .ok c.updateClear

/-- The hart `h` with the register file at `r` has a hazard. -/
def stall (h r : ℕ) : CoreState :=
  let c := c.setReg r fun s => { s with cost := 0 }
  { c with proc := { c.proc with
      HartsClearToExecute := Function.update c.proc.HartsClearToExecute h false
      HartToExecID := none } }

/-- The first part of `ClockTick`: choose a hart, fetch and decode its next
    instruction and check for hazards. -/
def decode (i : TickInput) : Except Fault CoreState :=
  if (List.range c.proc.numHarts).any c.proc.HartsClearToDecode then do
    let h := c.proc.GetNextHartToDecodeID
    let r ← c.hartReg h
    let c := { c with proc := { c.proc with HartToDecodeID := h, RegFile := some r } }
    if (c.regs r).PC == 0 || !i.avail || i.stallReq then return c.stall h r
    else
      match i.fetched with
      | none => .error .fatal
      | some f =>
        let c := c.setReg r fun s => { s with cost := f.cost, trigger := false }
        if c.DependencyCheck h r f then return c.stall h r
        else
          return { c with proc := { c.proc with
            HartsClearToExecute := Function.update c.proc.HartsClearToExecute h true
            HartToExecID := some h } }
  else .ok c

/-- `ECALL_pthread_create`: `CreateThread` makes a register file and a thread. -/
def ECALL_pthread_create (NewTID firstPC : ℕ) : CoreState :=
  AddThreadsThatChangedState
    { c with
      regs := Function.update c.regs c.nextReg { PC := firstPC }
      nextReg := c.nextReg + 1
      created := c.created ++ [(NewTID, c.nextReg)] }
    { ID := NewTID, VirtRegState := c.nextReg }

/-- `ECALL_pthread_join`: the status is `SUCCESS` if the hart `h` has no
    dependencies. -/
def ECALL_pthread_join (h a0 : ℕ) : Except Fault (CoreState × Bool) := do
  let free ← c.HartHasNoDependencies h
  if free then
    let (c, t) ← c.PopThreadFromHart h
    let t := { t with State := .BLOCKED, WaitingToJoinTID := a0 % 2 ^ 32 }
    return ({ c with joins := c.joins ++ [(t.ID, a0)] }.AddThreadsThatChangedState t, true)
  else return (c, false)

/-- The entry of `Ecalls` for a system call of the hart `h`: the new state, and
    whether the status is `SUCCESS`. -/
def Ecalls (h : ℕ) : Ecall → Except Fault (CoreState × Bool)
  | .create NewTID firstPC => .ok (c.ECALL_pthread_create NewTID firstPC, true)
  | .join a0 => c.ECALL_pthread_join h a0
  | .other ops success => do
    let c ← c.loadOps h ops
    return (c, success)

/-- `ExecEcall`: a call without success is executed again. -/
def ExecEcall (h r : ℕ) (f : Fetched) (e : Ecall) : Except Fault CoreState := do
  let _ ← c.hartReg c.proc.HartToDecodeID
  let (c, success) ← c.Ecalls h e
  if success then return c
  else return c.setReg r fun s => { s with PC := (s.PC + 2 ^ 64 - f.inst.instSize) % 2 ^ 64 }

/-- The hart and the register file that the second part of `ClockTick` calls
    `Execute` for. -/
def triggers : Except Fault (Option (ℕ × ℕ)) :=
  match c.proc.HartToExecID with
  | none => .ok none
  | some h => do
    let r ← c.curReg
    return if !(c.regs r).trigger && c.proc.HartsClearToExecute h then some (h, r) else none

/-- `Execute` on the hart `h` with the register file at `r`, and the system call
    that it asks for. -/
def dispatch (h r : ℕ) (f : Fetched) (e : Executed) : Except Fault CoreState := do
  let c := c.setReg r fun s => { s with trigger := true }
  let c := { c with proc := { c.proc with Pipeline := c.proc.Pipeline ++ [(h, f)] } }
  let c ← c.DependencyInst h f true
  let c ← c.loadOps h e.ops
  let c := c.setReg r fun s => { s with PC := e.PC, cost := e.cost }
  match e.ecall with
  | none => return c
  | some call => c.ExecEcall h r f call

/-- The second part of `ClockTick`: `Execute` and the system call. In a tick
    without a decoded instruction the register numbers of `Inst` are out of
    range. -/
def execute (f : Option Fetched) (i : TickInput) : Except Fault CoreState := do
  let target ← c.triggers
  match target, f, i.executed with
  | none, _, _ => return c
  | some _, none, _ => .error .undecoded
  | some _, some _, none => .error .fatal
  | some (h, r), some f, some e => c.dispatch h r f e

/-- The third part of `ClockTick`: the first instruction of the pipeline retires
    when its cost is one; a larger cost is counted down and put back. -/
def retire : Except Fault CoreState :=
  match c.proc.Pipeline with
  | [] => .ok c
  | (h, f) :: rest =>
    if f.cost = 1 then do
      let r ← c.curReg
      let c ←
        (if c.lsqCount f.inst.rd f.entry.rdClass h = 0 then c.DependencyInst h f false else .ok c)
      let c := { c with proc := { c.proc with Pipeline := rest } }
      return c.setReg r fun s => { s with cost := 0 }
    else .ok c

/-- A completed thread leaves the hart `h`; the bits of the hart `bits` are
    cleared. -/
def finishThread (h bits : ℕ) : Except Fault CoreState := do
  let (c, t) ← c.PopThreadFromHart h
  let c := { c with proc := { c.proc with
    HartsClearToExecute := Function.update c.proc.HartsClearToExecute bits false
    HartsClearToDecode := Function.update c.proc.HartsClearToDecode bits false
    IdleHarts := Function.update c.proc.IdleHarts bits true } }
  return c.AddThreadsThatChangedState { t with State := .DONE }

/-- The second test of the last part of `ClockTick` is on `HartToExecID`, but pops
    the thread of `HartToDecodeID`. -/
def completeExec : Except Fault CoreState :=
  match c.proc.HartToExecID with
  | none => .ok c
  | some e =>
    if c.proc.IdleHarts e then .ok c
    else do
      let free ← c.HartHasNoDependencies e
      if free then c.finishThread c.proc.HartToDecodeID e else return c

/-- The last part of `ClockTick`: a thread whose PC is zero is done once it has no
    dependencies. -/
def complete : Except Fault CoreState := do
  let r ← c.curReg
  if (c.regs r).PC == 0 then
    let free ← c.HartHasNoDependencies c.proc.HartToDecodeID
    let c ← (if free then c.finishThread c.proc.HartToDecodeID c.proc.HartToDecodeID else .ok c)
    c.completeExec
  else return c

/-- `RevProc::ClockTick`. Both outcomes of the test for a trigger set the value
    that it returns. -/
def ClockTick (i : TickInput) : Except Fault (CoreState × Bool) := do
  let c ← c.UpdateStatusOfHarts
  let f := if (List.range c.proc.numHarts).any c.proc.HartsClearToDecode then i.fetched else none
  let c ← c.decode i
  let c ← c.execute f i
  let c ← c.retire
  let c ← c.complete
  return (c, true)

end CoreState

end RevCPU.Sched
