import Mathlib.Algebra.Group.Nat.Defs
import Mathlib.Data.List.Basic
import Mathlib.Data.Nat.Notation

namespace RevCPU

/-- `TRC_CMD_IDX`. -/
inductive TrcCmdIdx
  | TRACE_OFF
  | TRACE_ON
  | TRACE_PUSH_OFF
  | TRACE_PUSH_ON
  | TRACE_POP
  deriving DecidableEq, Repr

/-- The position of a command in `nops`. -/
def TrcCmdIdx.idx : TrcCmdIdx → ℕ
  | TRACE_OFF => 0
  | TRACE_ON => 1
  | TRACE_PUSH_OFF => 2
  | TRACE_PUSH_ON => 3
  | TRACE_POP => 4

/-- `s2op`. -/
def s2op : List (String × BitVec 32) :=
  [("slti", 0x00002013), ("sltiu", 0x00003013), ("slli", 0x00001013), ("srli", 0x00005013),
   ("srai", 0x40005013)]

def TRC_OP_DEFAULT : String := "slli"

def TRC_OP_POS : ℕ := 20

def MAX_ENABLE_Q : ℕ := 100

/-- The `nops` of a template. -/
def trcNops (cmd_template : BitVec 32) (i : TrcCmdIdx) : BitVec 32 :=
  cmd_template ||| (BitVec.ofNat 32 i.idx <<< TRC_OP_POS)

/-- `RevTracer`. Of the captured records it matters only whether there are any;
    `trc_ctl` is the event of that name and `valid` the field of
    `instHeader`. -/
structure RevTracer where
  outputEnabled : Bool := false
  trc_ctl : Bool := false
  valid : Bool := false
  traceRecs : Bool := false
  insn : BitVec 32 := 0
  nops : TrcCmdIdx → BitVec 32
  startCycle : ℕ := 0
  cycleLimit : ℕ := 0
  enableQ : List Bool := List.replicate MAX_ENABLE_Q false
  enableQindex : ℕ := 0
  traceCycles : ℕ := 0
  disabled : Bool := false

namespace RevTracer

/-- `SetCmdTemplate`; `none` is a fatal error. -/
def SetCmdTemplate (t : RevTracer) (cmd : String) : Option RevTracer :=
  (s2op.lookup cmd).map fun cmd_template => { t with nops := trcNops cmd_template }

/-- The tracer of a core: the constructor and the calls of `SetStartCycle`,
    `SetCycleLimit` and `SetCmdTemplate`. -/
def new (startCycle cycleLimit : UInt64) (cmd : String) : Option RevTracer :=
  (s2op.lookup TRC_OP_DEFAULT).bind fun cmd_template =>
    SetCmdTemplate { nops := trcNops cmd_template, startCycle := startCycle.toNat,
                     cycleLimit := cycleLimit.toNat } cmd

/-- `(enableQindex - 1) % MAX_ENABLE_Q`; the index is unsigned. -/
def prevIndex (enableQindex : ℕ) : ℕ := (enableQindex + 2 ^ 32 - 1) % 2 ^ 32 % MAX_ENABLE_Q

/-- The command that the instruction is, in the order of the comparisons. -/
def command (t : RevTracer) : Option TrcCmdIdx :=
  if t.insn = t.nops .TRACE_OFF then some .TRACE_OFF
  else if t.insn = t.nops .TRACE_ON then some .TRACE_ON
  else if t.insn = t.nops .TRACE_PUSH_OFF then some .TRACE_PUSH_OFF
  else if t.insn = t.nops .TRACE_PUSH_ON then some .TRACE_PUSH_ON
  else if t.insn = t.nops .TRACE_POP then some .TRACE_POP
  else none

/-- `enableQindex` gets a value. -/
def setIndex (t : RevTracer) (index : ℕ) : RevTracer := { t with enableQindex := index }

/-- The push of `outputEnabled`. -/
def push (t : RevTracer) : RevTracer :=
  { t with enableQ := t.enableQ.set t.enableQindex t.outputEnabled }.setIndex
    ((t.enableQindex + 1) % MAX_ENABLE_Q)

/-- The pop and the value that it finds. -/
def pop (t : RevTracer) : Bool × RevTracer :=
  let t := t.setIndex (prevIndex t.enableQindex)
  (t.enableQ.getD t.enableQindex false, t)

/-- The programmatic controls: `nextState` and the state. -/
def programControls (t : RevTracer) : Bool × RevTracer :=
  match t.command with
  | some .TRACE_OFF => (false, t)
  | some .TRACE_ON => (true, t)
  | some .TRACE_PUSH_OFF => (false, t.push)
  | some .TRACE_PUSH_ON => (true, t.push)
  | some .TRACE_POP => t.pop
  | none => (t.outputEnabled, t)

/-- `outputEnabled` gets a value; a change is an event. -/
def setOutput (t : RevTracer) (enable : Bool) : RevTracer :=
  if enable ≠ t.outputEnabled then { t with outputEnabled := enable, trc_ctl := true } else t

/-- `CheckUserControls`. -/
def CheckUserControls (t : RevTracer) (cycle : ℕ) : RevTracer :=
  if t.disabled then t
  else if t.cycleLimit ≠ 0 ∧ t.traceCycles > t.cycleLimit then
    { t with disabled := true }.setOutput false
  else if t.startCycle > 0 then t.setOutput (decide (cycle > t.startCycle))
  else
    let (nextState, t) := t.programControls
    t.setOutput nextState

def SetFetchedInsn (t : RevTracer) (insn : BitVec 32) : RevTracer := { t with insn }

/-- `regRead` and the other functions that capture a record. -/
def capture (t : RevTracer) : RevTracer := { t with traceRecs := true }

def Exec (t : RevTracer) : RevTracer := { t with valid := true }

def OutputOK (t : RevTracer) : Bool := t.outputEnabled || t.trc_ctl

def InstTraceReset (t : RevTracer) : RevTracer :=
  { t with trc_ctl := false, insn := 0, traceRecs := false, valid := false }

/-- `RenderExec` counts the instructions that have captured records. -/
def RenderExec (t : RevTracer) : RevTracer :=
  if t.traceRecs then { t with traceCycles := t.traceCycles + 1 } else t

/-- `Render`. -/
def Render (t : RevTracer) (cycle : ℕ) : RevTracer :=
  let t := t.CheckUserControls cycle
  if t.valid then (if t.OutputOK then t.RenderExec else t).InstTraceReset else t

end RevTracer

/-- What a `ClockTick` shows to the tracer: an instruction that is fetched and
    executed, one that is fetched and held back by `DependencyCheck`, or none. -/
inductive TraceTick
  | exec (insn : BitVec 32) (recs : Bool) (cycle : ℕ)
  | stall (insn : BitVec 32) (cycle : ℕ)
  | idle (cycle : ℕ)
  deriving DecidableEq, Repr

namespace RevTracer

/-- The calls of `ClockTick`. -/
def tick (t : RevTracer) : TraceTick → RevTracer
  | .exec insn recs cycle =>
    let t := t.SetFetchedInsn insn
    (if recs then t.capture else t).Exec.Render cycle
  | .stall insn cycle => (t.SetFetchedInsn insn).Render cycle
  | .idle cycle => t.Render cycle

def run (t : RevTracer) (s : List TraceTick) : RevTracer := s.foldl tick t

end RevTracer

end RevCPU
