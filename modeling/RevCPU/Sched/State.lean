import RevCPU.Isa.Tables
import RevCPU.Isa.Decode
import Mathlib.Logic.Function.Basic

namespace RevCPU.Sched

/-- `_INVALID_TID_`. -/
def INVALID_TID : ℕ := 0

/-- `ThreadState`. -/
inductive ThreadState
  | START | READY | RUNNING | BLOCKED | DONE
  deriving DecidableEq, Repr

/-- A `RevThread`. Its register file is an object of its own, known by its
    address `VirtRegState`: the pointer moves between the thread and a hart, the
    object stays where it is. -/
structure RevThread where
  ID : ℕ
  VirtRegState : ℕ
  State : ThreadState := .START
  WaitingToJoinTID : ℕ := INVALID_TID
  deriving DecidableEq, Repr

/-- What `ClockTick` uses of a `RevRegFile`. -/
structure RegState where
  PC : ℕ := 0
  cost : ℕ := 0
  trigger : Bool := false
  RV_Scoreboard : ℕ → Bool := fun _ => false
  FP_Scoreboard : ℕ → Bool := fun _ => false

/-- `_REV_NUM_REGS_`. -/
def NUM_REGS : ℕ := 32

/-- Whether a scoreboard has a bit: `AnyDependency`. -/
def RegState.AnyDependency (r : RegState) : Bool :=
  (List.range NUM_REGS).any r.FP_Scoreboard || (List.range NUM_REGS).any r.RV_Scoreboard

/-- `RevRegClass` as a number. -/
def classNum : RevRegClass → ℕ
  | .RegUNKNOWN => 0
  | .RegIMM => 1
  | .RegGPR => 2
  | .RegCSR => 3
  | .RegFLOAT => 4

/-- `LSQHash`. -/
def LSQHash (DestReg : ℕ) (RegType : RevRegClass) (Hart : ℕ) : ℕ :=
  classNum RegType <<< 24 ||| (DestReg <<< 16) % 2 ^ 64 ||| Hart

def reqHash (req : MemReq) : ℕ := LSQHash req.DestReg req.RegType req.Hart

/-- An instruction as `FetchAndDecodeInst` returns it, with the table entry of
    its number and its cost. -/
structure Fetched where
  inst : Isa.RevInst
  entry : Isa.RevInstEntry Isa.ImplFunc
  cost : ℕ

/-- The errors that end a run: a call of `fatal`, a null register file that is
    dereferenced, an instruction that is executed in a tick that has not decoded
    one, and `PopThreadFromHart` on a hart without a thread. -/
inductive Fault
  | fatal | nullRegFile | undecoded | popEmpty
  deriving DecidableEq, Repr

/-- The state of a `RevProc`. The thread and the register file of a hart come and
    go together, so that one optional thread stands for both; `HartToExecID` is
    `none` for `_REV_INVALID_HART_ID_`, and `RegFile` is the address of a register
    file. -/
structure RevProc where
  numHarts : ℕ
  Harts : ℕ → Option RevThread := fun _ => none
  IdleHarts : ℕ → Bool := fun _ => true
  HartsClearToDecode : ℕ → Bool := fun _ => false
  HartsClearToExecute : ℕ → Bool := fun _ => false
  HartToDecodeID : ℕ := 0
  HartToExecID : Option ℕ := some 0
  RegFile : Option ℕ := none
  Pipeline : List (ℕ × Fetched) := []
  LSQueue : List MemReq := []
  ThreadsThatChangedState : List RevThread := []

namespace RevProc

/-- `HasNoBusyHarts`: `IdleHarts == ValidHarts`. -/
def HasNoBusyHarts (p : RevProc) : Bool := (List.range p.numHarts).all p.IdleHarts

/-- `HasIdleHart`. -/
def HasIdleHart (p : RevProc) : Bool := (List.range p.numHarts).any p.IdleHarts

/-- `FindIdleHartID`: the first idle hart. -/
def FindIdleHartID (p : RevProc) : Option ℕ := (List.range p.numHarts).find? p.IdleHarts

/-- One turn of the loop in `GetNextHartToDecodeID`. -/
def scanHarts (p : RevProc) : ℕ → ℕ → ℕ
  | 0, nextID => nextID
  | k + 1, nextID =>
    let nextID := if nextID + 1 ≥ p.numHarts then 0 else nextID + 1
    if p.HartsClearToDecode nextID then nextID else p.scanHarts k nextID

/-- `GetNextHartToDecodeID`, for a core with a hart that is clear to decode. -/
def GetNextHartToDecodeID (p : RevProc) : ℕ :=
  if p.HartsClearToDecode p.HartToDecodeID then p.HartToDecodeID
  else p.scanHarts p.numHarts p.HartToDecodeID

end RevProc

/-- What a core works on: its own state, the register files of all threads with
    the next free address, and the history of the calls of `pthread_create` and of
    the completed calls of `pthread_join`. -/
structure CoreState where
  proc : RevProc
  regs : ℕ → RegState
  nextReg : ℕ
  created : List (ℕ × ℕ)
  joins : List (ℕ × ℕ)

end RevCPU.Sched
