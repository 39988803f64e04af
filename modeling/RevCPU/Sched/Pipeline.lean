import RevCPU.Sched.State

namespace RevCPU.Sched

namespace CoreState

variable (c : CoreState)

/-- Change the register file at an address. -/
def setReg (r : ℕ) (f : RegState → RegState) : CoreState :=
  { c with regs := Function.update c.regs r (f (c.regs r)) }

/-- `Harts.at(h)->RegFile`, to be dereferenced. -/
def hartReg (h : ℕ) : Except Fault ℕ :=
  match c.proc.Harts h with
  | some t => .ok t.VirtRegState
  | none => .error .nullRegFile

/-- `RegFile`, to be dereferenced. -/
def curReg : Except Fault ℕ :=
  match c.proc.RegFile with
  | some r => .ok r
  | none => .error .nullRegFile

/-- `DependencySet` on a register number: the register file of the hart is
    dereferenced only where a bit is written. -/
def DependencySet (h reg : ℕ) (isFloat value : Bool) : Except Fault CoreState :=
  if reg < NUM_REGS then
    if h < c.proc.numHarts then
      if isFloat then do
        let r ← c.hartReg h
        return c.setReg r fun s => { s with FP_Scoreboard := Function.update s.FP_Scoreboard reg value }
      else if reg ≠ 0 then do
        let r ← c.hartReg h
        return c.setReg r fun s => { s with RV_Scoreboard := Function.update s.RV_Scoreboard reg value }
      else .ok c
    else .error .fatal
  else .ok c

/-- `DependencySet` and `DependencyClear` on the destination of an instruction. -/
def DependencyInst (h : ℕ) (f : Fetched) (value : Bool) : Except Fault CoreState :=
  c.DependencySet h f.inst.rd (f.entry.rdClass == .RegFLOAT) value

/-- The outstanding loads with the key of a register. -/
def lsqCount (reg : ℕ) (cls : RevRegClass) (h : ℕ) : ℕ :=
  c.proc.LSQueue.countP fun q => reqHash q == LSQHash reg cls h

/-- `LSQCheck`. -/
def LSQCheck (h reg : ℕ) (cls : RevRegClass) : Bool :=
  (reg != 0 || cls != .RegGPR) && decide (0 < c.lsqCount reg cls h)

/-- `ScoreboardCheck`. -/
def ScoreboardCheck (r : RegState) (reg : ℕ) (cls : RevRegClass) : Bool :=
  decide (reg < NUM_REGS) &&
    (cls == .RegFLOAT && r.FP_Scoreboard reg || cls == .RegGPR && reg != 0 && r.RV_Scoreboard reg)

/-- `DependencyCheck` for the instruction of the hart `h` whose register file is
    at `r`. -/
def DependencyCheck (h r : ℕ) (f : Fetched) : Bool :=
  c.LSQCheck h f.inst.rs1 f.entry.rs1Class || c.LSQCheck h f.inst.rs2 f.entry.rs2Class ||
    c.LSQCheck h f.inst.rs3 f.entry.rs3Class || c.LSQCheck h f.inst.rd f.entry.rdClass ||
    ScoreboardCheck (c.regs r) f.inst.rs1 f.entry.rs1Class ||
    ScoreboardCheck (c.regs r) f.inst.rs2 f.entry.rs2Class ||
    ScoreboardCheck (c.regs r) f.inst.rs3 f.entry.rs3Class

/-- `HartHasNoDependencies`. -/
def HartHasNoDependencies (h : ℕ) : Except Fault Bool := do
  let r ← c.hartReg h
  return !(c.regs r).AnyDependency

/-- The entry of `LSQueue` that completes a request. -/
def completes (req q : MemReq) : Bool := reqHash q == reqHash req && q.Addr == req.Addr

/-- `MarkLoadComplete`: the last outstanding load of a register clears its
    dependency. A request that is not in the queue is a fatal error. -/
def MarkLoadComplete (req : MemReq) : Except Fault CoreState :=
  match c.proc.LSQueue.find? (completes req) with
  | none => .error .fatal
  | some q => do
    let c ←
      (if c.lsqCount req.DestReg req.RegType req.Hart = 1 then
        c.DependencySet q.Hart q.DestReg (q.RegType == .RegFLOAT) false
      else .ok c)
    return { c with proc := { c.proc with LSQueue := c.proc.LSQueue.eraseP (completes req) } }

/-- What the execution of an instruction or of a system call does to the queue of
    the loads and the scoreboard. -/
inductive LoadOp
  | insert (req : MemReq)
  | complete (req : MemReq)
  | dependency (reg : ℕ) (value : Bool)
  deriving DecidableEq

/-- One of these operations, for the hart `h`. -/
def loadOp (h : ℕ) : LoadOp → Except Fault CoreState
  | .insert req => .ok { c with proc := { c.proc with LSQueue := c.proc.LSQueue ++ [req] } }
  | .complete req => c.MarkLoadComplete req
  | .dependency reg value => c.DependencySet h reg false value

/-- The operations one after the other. -/
def loadOps (c : CoreState) (h : ℕ) : List LoadOp → Except Fault CoreState
  | [] => .ok c
  | op :: ops => do
    let c ← c.loadOp h op
    c.loadOps h ops

/-- `PopThreadFromHart`. -/
def PopThreadFromHart (h : ℕ) : Except Fault (CoreState × RevThread) :=
  if h < c.proc.numHarts then
    match c.proc.Harts h with
    | none => .error .popEmpty
    | some t =>
      .ok ({ c with
        proc := { c.proc with
          Harts := Function.update c.proc.Harts h none
          IdleHarts := Function.update c.proc.IdleHarts h true } }, t)
  else .error .fatal

/-- `AddThreadsThatChangedState`. -/
def AddThreadsThatChangedState (t : RevThread) : CoreState :=
  { c with proc := { c.proc with
      ThreadsThatChangedState := c.proc.ThreadsThatChangedState ++ [t] } }

end CoreState

end RevCPU.Sched
