import RevCPU.Isa.CoProcWord
import RevCPU.Mem.State
import RevCPU.Sched.Costs

namespace RevCPU.Sched

open Lib

/-- What the decoding and the execution leave a trace of, with the address of the
    register file: a call of `IssueInst`, a hazard of the instruction for which it
    has been called, and a call of `Execute`. -/
inductive Mark
  | IssueInst (r Inst : ℕ)
  | hazard (r : ℕ)
  | Execute (r : ℕ)
  deriving DecidableEq

/-- A call of `IssueInst` with the register file at `r`. -/
def Mark.issueFor (r : ℕ) : Mark → Bool
  | .IssueInst r' _ => r' == r
  | _ => false

/-- The features of a core, and which words its coprocessor takes. -/
structure CoProcSetup where
  f : Isa.RevFeature
  coProc : ℕ → Bool

/-- A core with the contents of the register files, by their addresses, and the
    memory. -/
structure CoProcCore where
  core : CoreState
  files : ℕ → RevRegFile
  M : RevMem
  marks : List Mark := []

/-- What a call of `ClockTick` finds: whether the prefetcher has the instruction,
    whether the coprocessor stalls the hart, and the word. What it does if it is
    not for the coprocessor is left open. -/
structure WordTick where
  avail : Bool := true
  stallReq : Bool := false
  Inst : ℕ
  cost : ℕ := 1
  executed : Option Executed := none
  files : ℕ → RevRegFile
  M : RevMem

/-- A tick of the core, or what happens between two ticks: loads that complete, work
    of the coprocessor and of the other cores. -/
inductive CoProcEvent
  | tick (t : WordTick)
  | other (core : CoreState) (files : ℕ → RevRegFile) (M : RevMem)

namespace CoreState

/-- The hart whose instruction the next `ClockTick` decodes, and its register file. -/
def fetches (c : CoreState) (avail stallReq : Bool) : Option (ℕ × ℕ) :=
  let c := c.updateClear
  if (List.range c.proc.numHarts).any c.proc.HartsClearToDecode then
    let h := c.proc.GetNextHartToDecodeID
    (c.proc.Harts h).bind fun t =>
      if (c.regs t.VirtRegState).PC == 0 || !avail || stallReq then none
      else some (h, t.VirtRegState)
  else none

/-- What `fetches` says. -/
theorem fetches_eq_some {c : CoreState} {avail stallReq : Bool} {h r : ℕ}
    (hf : c.fetches avail stallReq = some (h, r)) :
    (List.range c.updateClear.proc.numHarts).any c.updateClear.proc.HartsClearToDecode = true ∧
      c.updateClear.proc.GetNextHartToDecodeID = h ∧ c.updateClear.hartReg h = .ok r ∧
      ((c.updateClear.regs r).PC == 0) = false ∧ avail = true ∧ stallReq = false := by
  unfold fetches at hf
  simp only at hf
  split at hf
  swap
  · cases hf
  rename_i hany
  obtain ⟨t, ht, hf⟩ := Option.bind_eq_some_iff.mp hf
  split at hf
  · cases hf
  rename_i hgo
  obtain ⟨rfl, rfl⟩ := Prod.mk.inj (Option.some.inj hf)
  simp only [Bool.or_eq_true, Bool.not_eq_true', not_or, Bool.not_eq_true, Bool.not_eq_false] at hgo
  refine ⟨hany, rfl, ?_, hgo.1.1, hgo.1.2, hgo.2⟩
  unfold hartReg
  rw [ht]

theorem finishThread_regs {c c' : CoreState} {h bits : ℕ} (hok : c.finishThread h bits = .ok c') :
    c'.regs = c.regs := by
  obtain ⟨⟨c₁, t⟩, hpop, hok⟩ := bind_eq_ok.mp hok
  obtain ⟨-, -, rfl⟩ := PopThreadFromHart_eq_ok hpop
  obtain rfl := Except.ok.inj hok
  rfl

/-- The last part of `ClockTick` leaves the register files alone. -/
theorem complete_regs {c c' : CoreState} (hok : c.complete = .ok c') : c'.regs = c.regs := by
  obtain ⟨r, -, hok⟩ := bind_eq_ok.mp hok
  split at hok
  swap
  · obtain rfl := Except.ok.inj hok
    rfl
  obtain ⟨free, -, hok⟩ := bind_eq_ok.mp hok
  obtain ⟨c₁, hfirst, hsecond⟩ := bind_eq_ok.mp hok
  have h₁ : c₁.regs = c.regs := by
    split at hfirst
    · exact finishThread_regs hfirst
    · obtain rfl := Except.ok.inj hfirst
      rfl
  unfold completeExec at hsecond
  split at hsecond
  · obtain rfl := Except.ok.inj hsecond
    exact h₁
  · split at hsecond
    · obtain rfl := Except.ok.inj hsecond
      exact h₁
    · obtain ⟨free', -, hsecond⟩ := bind_eq_ok.mp hsecond
      split at hsecond
      · exact (finishThread_regs hsecond).trans h₁
      · obtain rfl := Except.ok.inj hsecond
        exact h₁

/-- The PC after the execution of an instruction without a system call. -/
theorem dispatch_PC {c c' : CoreState} {h r : ℕ} {f : Fetched} {PC cost : ℕ}
    (hok : c.dispatch h r f { PC, cost } = .ok c') : (c'.regs r).PC = PC := by
  obtain ⟨c₁, -, hok⟩ := bind_eq_ok.mp hok
  obtain ⟨c₂, -, hok⟩ := bind_eq_ok.mp hok
  obtain rfl := Except.ok.inj hok
  rw [setReg_regs_self]

/-- The tick of an instruction without a hazard executes it. -/
theorem ClockTick_PC {c c' : CoreState} {i : TickInput} {h r : ℕ} {f : Fetched} {PC cost : ℕ}
    {rtn : Bool} (hf : c.fetches i.avail i.stallReq = some (h, r)) (hfetched : i.fetched = some f)
    (hexecuted : i.executed = some { PC, cost })
    (hfree : c.updateClear.DependencyCheck h r f = false) (hok : c.ClockTick i = .ok (c', rtn)) :
    (c'.regs r).PC = PC := by
  obtain ⟨hany, hnext, hreg, hPC, havail, hstall⟩ := fetches_eq_some hf
  obtain ⟨c₀, hstatus, hok⟩ := bind_eq_ok.mp hok
  obtain ⟨c₁, hdecode, hok⟩ := bind_eq_ok.mp hok
  obtain ⟨c₂, hexecute, hok⟩ := bind_eq_ok.mp hok
  obtain ⟨c₃, hretire, hok⟩ := bind_eq_ok.mp hok
  obtain ⟨c₄, hcomplete, hok⟩ := bind_eq_ok.mp hok
  obtain ⟨rfl, -⟩ := Prod.mk.inj (Except.ok.inj hok)
  obtain rfl := UpdateStatusOfHarts_eq_ok hstatus
  rw [decode_pass hany hnext hreg hPC havail hstall hfetched hfree] at hdecode
  obtain rfl := Except.ok.inj hdecode
  have hPC₂ : (c₂.regs r).PC = PC := by
    rcases execute_eq_ok hexecute with ⟨hnone, -⟩ | ⟨h', r', f', e', hsome, -, he, hdispatch⟩
    · simp [triggers, curReg, bind, Except.bind, pure, Except.pure] at hnone
    · simp only [triggers, curReg, bind, Except.bind, pure, Except.pure, Function.update_self,
        Bool.not_false, Bool.and_self, if_true, Except.ok.injEq, Option.some.injEq,
        Prod.mk.injEq] at hsome
      obtain ⟨rfl, rfl⟩ := hsome
      obtain rfl := Option.some.inj (he.symm.trans hexecuted)
      exact dispatch_PC hdispatch
  rw [complete_regs hcomplete, (retire_retired hretire).PC]
  exact hPC₂

end CoreState

namespace CoProcCore

/-- The instruction as `FetchAndDecodeInst` returns it. -/
def fetchAndDecode (e : CoProcSetup) (t : WordTick) : Option Fetched :=
  (Isa.DecodeInst e.f e.coProc t.Inst).bind fun inst =>
    (Isa.InstTable e.f)[inst.entry]?.map fun entry => { inst, entry, cost := t.cost }

/-- `ClockTick` with the instruction and what its execution does. -/
def clock (s : CoProcCore) (t : WordTick) (fetched : Option Fetched) (executed : Option Executed) :
    Option CoreState :=
  (s.core.ClockTick { avail := t.avail, stallReq := t.stallReq, fetched, executed }).toOption.map
    Prod.fst

/-- The register file at `r` as the instruction finds it. -/
def file (s : CoProcCore) (r : ℕ) : RevRegFile := { s.files r with PC := (s.core.regs r).PC }

/-- The call of `IssueInst` for the word, if there is one. -/
def issued (e : CoProcSetup) (r Inst : ℕ) : List Mark :=
  if Isa.asksCoProc e.f Inst then [.IssueInst r Inst] else []

/-- A tick in which the hart `h` with the register file at `r` decodes its word. -/
def decodeTick (e : CoProcSetup) (s : CoProcCore) (t : WordTick) (h r : ℕ) : Option CoProcCore :=
  (fetchAndDecode e t).bind fun f =>
    if s.core.updateClear.DependencyCheck h r f then
      (s.clock t (some f) none).map fun core =>
        { s with core, marks := s.marks ++ (if Isa.asksCoProc e.f t.Inst then
            [.IssueInst r t.Inst, .hazard r] else []) }
    else if f.inst.isCoProcInst then
      (Isa.implFunc e.f f.inst).bind fun g =>
        let R := g (s.file r) f.inst
        (s.clock t (some f) (some { PC := R.PC, cost := t.cost })).map fun core =>
          { s with
            core
            files := Function.update s.files r R
            marks := s.marks ++ issued e r t.Inst ++ [.Execute r] }
    else
      (s.clock t (some f) t.executed).map fun core =>
        { core, files := t.files, M := t.M, marks := s.marks ++ issued e r t.Inst ++ [.Execute r] }

def step (e : CoProcSetup) (s : CoProcCore) : CoProcEvent → Option CoProcCore
  | .tick t =>
    match s.core.fetches t.avail t.stallReq with
    | some (h, r) => decodeTick e s t h r
    | none => (s.clock t none none).map fun core => { s with core }
  | .other core files M => some { s with core, files, M }

/-- The marks of a kind since the last `Execute` of the register file at `r`. -/
def since (r : ℕ) (kind : Mark → Bool) (marks : List Mark) : ℕ :=
  marks.foldl (fun n m => if m = .Execute r then 0 else if kind m then n + 1 else n) 0

/-- The calls of `IssueInst` for the instruction that the register file at `r` is
    at. -/
def issues (r : ℕ) (marks : List Mark) : ℕ := since r (Mark.issueFor r) marks

/-- The hazards that it has had. -/
def hazards (r : ℕ) (marks : List Mark) : ℕ := since r (· == .hazard r) marks

end CoProcCore

end RevCPU.Sched
