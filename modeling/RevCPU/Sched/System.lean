import RevCPU.Lib.Run
import RevCPU.Sched.ClockTick

namespace RevCPU.Sched

/-- The state of `RevCPU`: the cores, the threads that no core has, and the
    register files. `next` is the core whose turn it is in the loop of `clockTick`,
    `coDone` says what `IsDone` of a core's coprocessor was in its last turn, and
    `ended` is set once `clockTick` has returned true. -/
structure CPU where
  numCores : ℕ
  Procs : ℕ → RevProc
  Enabled : ℕ → Bool := fun _ => false
  ReadyThreads : List RevThread := []
  BlockedThreads : List RevThread := []
  CompletedThreads : List RevThread := []
  regs : ℕ → RegState := fun _ => {}
  nextReg : ℕ := 0
  created : List (ℕ × ℕ) := []
  joins : List (ℕ × ℕ) := []
  next : ℕ := 0
  coDone : ℕ → Bool := fun _ => false
  ended : Bool := false

namespace CPU

/-- What core `i` works on. -/
def core (s : CPU) (i : ℕ) : CoreState := ⟨s.Procs i, s.regs, s.nextReg, s.created, s.joins⟩

/-- Put back what core `i` has worked on. -/
def setCore (s : CPU) (i : ℕ) (c : CoreState) : CPU :=
  { s with
    Procs := Function.update s.Procs i c.proc
    regs := c.regs
    nextReg := c.nextReg
    created := c.created
    joins := c.joins }

def setEnabled (s : CPU) (i : ℕ) (b : Bool) : CPU :=
  { s with Enabled := Function.update s.Enabled i b }

/-- `InitMainThread` after the constructor: the main thread is ready. -/
def init (numCores numHarts MainThreadID StartAddr : ℕ) : CPU :=
  { numCores
    Procs := fun _ => { numHarts }
    ReadyThreads := [{ ID := MainThreadID, VirtRegState := 0, State := .READY }]
    regs := fun _ => { PC := StartAddr }
    nextReg := 1
    created := [(MainThreadID, 0)] }

/-- `RevProc::AssignThread`. -/
def AssignThread (p : RevProc) (t : RevThread) : Except Fault RevProc :=
  match p.FindIdleHartID with
  | none => .error .fatal
  | some h =>
    .ok { p with
      Harts := Function.update p.Harts h (some { t with State := .RUNNING })
      IdleHarts := Function.update p.IdleHarts h false }

/-- `UpdateThreadAssignments`. -/
def UpdateThreadAssignments (s : CPU) (i : ℕ) : Except Fault CPU :=
  match s.ReadyThreads with
  | [] => .ok s
  | t :: rest =>
    if (s.Procs i).HasIdleHart then do
      let p ← AssignThread (s.Procs i) t
      return { s with
        Procs := Function.update s.Procs i p
        ReadyThreads := rest
        Enabled := Function.update s.Enabled i true }
    else .ok s

/-- What `HandleThreadStateChangesForProc` does with one thread. A thread with the
    id of a completed one is not put into the map. -/
def handleThread (s : CPU) (t : RevThread) : Except Fault CPU :=
  match t.State with
  | .DONE =>
    .ok { s with
      CompletedThreads :=
        if s.CompletedThreads.any fun u => u.ID == t.ID then s.CompletedThreads
        else s.CompletedThreads ++ [t] }
  | .BLOCKED => .ok { s with BlockedThreads := s.BlockedThreads ++ [t] }
  | .START => .ok { s with ReadyThreads := s.ReadyThreads ++ [{ t with State := .READY }] }
  | .RUNNING => .ok s
  | .READY => .error .fatal

/-- `HasNoWork`; `done` is what `IsDone` of the coprocessor says, or true without a
    coprocessor. -/
def HasNoWork (p : RevProc) (done : Bool) : Bool := p.HasNoBusyHarts && done

/-- The loop of `HandleThreadStateChangesForProc`. -/
def handleThreads (i : ℕ) (done : Bool) : CPU → List RevThread → Except Fault CPU
  | s, [] => .ok s
  | s, t :: ts => do
    let s ← s.handleThread t
    let s := if HasNoWork (s.Procs i) done then s.setEnabled i false else s
    handleThreads i done s ts

/-- `HandleThreadStateChangesForProc`. -/
def HandleThreadStateChangesForProc (s : CPU) (i : ℕ) (done : Bool) : Except Fault CPU :=
  let ts := (s.Procs i).ThreadsThatChangedState
  handleThreads i done
    { s with Procs := Function.update s.Procs i { s.Procs i with ThreadsThatChangedState := [] } } ts

/-- `ClockTick` of core `i`, if it is enabled. -/
def clockCore (s : CPU) (i : ℕ) (inp : TickInput) : Except Fault CPU :=
  if s.Enabled i then do
    let (c, rtn) ← (s.core i).ClockTick inp
    let s := s.setCore i c
    return if !rtn then s.setEnabled i false else s
  else .ok s

/-- One turn of the loop of `clockTick`: core `i` after its coprocessor's
    `ClockTick`, when `IsDone` says `done`. -/
def turn (s : CPU) (i : ℕ) (inp : TickInput) (done : Bool) : Except Fault CPU := do
  let s ← s.UpdateThreadAssignments i
  let s ← s.clockCore i inp
  let s ← s.HandleThreadStateChangesForProc i done
  return if (s.Procs i).HasNoBusyHarts then s.setEnabled i false else s

/-- `ThreadCanProceed`. -/
def ThreadCanProceed (s : CPU) (t : RevThread) : Bool :=
  if t.WaitingToJoinTID ≠ INVALID_TID then s.CompletedThreads.any fun u => u.ID == t.WaitingToJoinTID
  else true

/-- `CheckBlockedThreads`. -/
def CheckBlockedThreads (s : CPU) : CPU :=
  { s with
    ReadyThreads := s.ReadyThreads ++ s.BlockedThreads.filter s.ThreadCanProceed
    BlockedThreads := s.BlockedThreads.filter fun t => !s.ThreadCanProceed t }

/-- What `clockTick` does after its loop, and what it returns; `net` says that the
    network has outstanding messages. -/
def finish (s : CPU) (net : Bool) : CPU × Bool :=
  let rtn := (List.range s.numCores).all fun i => !s.Enabled i
  let (s, rtn) :=
    if s.ReadyThreads ≠ [] then (s, false)
    else if s.BlockedThreads ≠ [] then (s.CheckBlockedThreads, false)
    else (s, rtn)
  let rtn := rtn && !net
  (s, rtn && s.CompletedThreads ≠ [])

/-- What happens to the system: a turn of the loop of `clockTick`, the end of
    `clockTick`, and between two calls of `clockTick` the response to a load of a
    core. -/
inductive Event
  | turn (inp : TickInput) (done : Bool)
  | finish (net : Bool)
  | loadComplete (i : ℕ) (req : MemReq)

/-- The steps of the system, with the errors that end it. An event out of turn is
    refused. -/
def stepE (s : CPU) (ev : Event) : Except Fault CPU :=
  if s.ended then .error .fatal
  else
    match ev with
    | .turn inp done =>
      if s.next < s.numCores then do
        let s' ← s.turn s.next inp done
        return { s' with next := s.next + 1, coDone := Function.update s.coDone s.next done }
      else .error .fatal
    | .finish net =>
      if s.next = s.numCores then
        let (s', rtn) := s.finish net
        return { s' with next := 0, ended := rtn }
      else .error .fatal
    | .loadComplete i req =>
      if s.next = 0 ∧ i < s.numCores then do
        let c ← (s.core i).MarkLoadComplete req
        return s.setCore i c
      else .error .fatal

def step (s : CPU) (ev : Event) : Option CPU := (s.stepE ev).toOption

end CPU

end RevCPU.Sched
