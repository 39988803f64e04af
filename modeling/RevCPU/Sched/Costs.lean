import RevCPU.Sched.Exec

namespace RevCPU.Sched

open Lib

namespace CoreState

variable {c c' : CoreState}

/-- `ClockTick` up to the retirement. -/
def issue (c : CoreState) (i : TickInput) : Except Fault CoreState := do
  let c ← c.UpdateStatusOfHarts
  let f := if (List.range c.proc.numHarts).any c.proc.HartsClearToDecode then i.fetched else none
  let c ← c.decode i
  c.execute f i

theorem ClockTick_issue (c : CoreState) (i : TickInput) :
    c.ClockTick i = do
      let c ← c.issue i
      let c ← c.retire
      let c ← c.complete
      return (c, true) := by
  simp only [ClockTick, issue, bind_assoc]

/-- The tick that leads from `c` to `c'` lowers the cost of the instruction at the
    head of the pipeline by one. If nothing is left of it the instruction retires,
    and the register file of its hart has no cost any more. -/
def Honours (c : CoreState) (i : TickInput) (c' : CoreState) : Prop :=
  ∀ c₂, c.issue i = .ok c₂ →
    match c₂.proc.Pipeline with
    | [] => True
    | (h, f) :: rest =>
      if f.cost = 1 then
        c'.proc.Pipeline = rest ∧
          ∀ t, c.proc.Harts h = some t → (c'.regs t.VirtRegState).cost = 0
      else c'.proc.Pipeline = (h, { f with cost := f.cost - 1 }) :: rest

/-- In a core with nothing in progress only the fetched instruction can be at the
    head of the pipeline. -/
theorem Drained.issue {i : TickInput} (hc : Drained c)
    (hany : (List.range c.updateClear.proc.numHarts).any c.updateClear.proc.HartsClearToDecode = true)
    (hok : c.issue i = .ok c') :
    c'.proc.Pipeline = [] ∨ ∃ h f, c'.proc.Pipeline = [(h, f)] ∧ i.fetched = some f := by
  obtain ⟨c₀, hstatus, hok⟩ := bind_eq_ok.mp hok
  obtain ⟨c₁, hdecode, hexecute⟩ := bind_eq_ok.mp hok
  obtain rfl := UpdateStatusOfHarts_eq_ok hstatus
  simp only [hany, if_true] at hexecute
  have hpipe : c₁.proc.Pipeline = [] := by
    cases decode_decoded hdecode with
    | skip hnone _ =>
      rw [hany] at hnone
      cases hnone
    | stall _ hdec _ _ => exact hdec.pipeline.trans hc.pipeline
    | pass _ hdec _ _ _ _ _ _ => exact hdec.pipeline.trans hc.pipeline
  rcases execute_eq_ok hexecute with ⟨-, rfl⟩ | ⟨h, r, f, e, -, hf, -, hdisp⟩
  · exact .inl hpipe
  · refine .inr ⟨h, f, ?_, hf⟩
    rw [(dispatch_dispatched hdisp).pipeline, hpipe]
    rfl

/-- Instructions of cost one retire in the tick that executes them. -/
theorem Drained.honours {i : TickInput} {rtn : Bool} (hc : Drained c)
    (hany : (List.range c.updateClear.proc.numHarts).any c.updateClear.proc.HartsClearToDecode = true)
    (hcost : ∀ f, i.fetched = some f → f.cost = 1) (hok : c.ClockTick i = .ok (c', rtn)) :
    Honours c i c' := by
  have hdrained := hc.ClockTick hany hcost hok
  intro c₂ hissue
  rcases hc.issue hany hissue with hempty | ⟨h, f, hone, hf⟩
  · rw [hempty]
    trivial
  · rw [hone]
    simp only [hcost f hf, if_true]
    exact ⟨hdrained.pipeline, fun t _ => hdrained.cost _⟩

/-- Registers that nothing depends on. -/
theorem DependencyCheck_free (h : ℕ) {r : ℕ} (f : Fetched) (hqueue : c.proc.LSQueue = [])
    (hRV : ∀ k, (c.regs r).RV_Scoreboard k = false)
    (hFP : ∀ k, (c.regs r).FP_Scoreboard k = false) : c.DependencyCheck h r f = false := by
  simp [DependencyCheck, LSQCheck, lsqCount, ScoreboardCheck, hqueue, hRV, hFP]

end CoreState

namespace CPU

variable {s s' : CPU}

/-- A table of instructions with their costs, as the override tables leave it. -/
abbrev CostTable := List (Isa.RevInstEntry Isa.ImplFunc × ℕ)

/-- The instruction that is fetched has its cost from the table. -/
def FromTable (T : CostTable) : Event → Prop
  | .turn inp _ => ∀ f, inp.fetched = some f → (f.entry, f.cost) ∈ T
  | _ => True

/-- The core whose turn it is honours the costs. -/
def HonoursTurn (s : CPU) : Event → Prop
  | .turn inp _ => ∀ s₁ c' rtn, s.UpdateThreadAssignments s.next = .ok s₁ →
      s₁.Enabled s.next = true → (s₁.core s.next).ClockTick inp = .ok (c', rtn) →
      (s₁.core s.next).Honours inp c'
  | _ => True

/-- All ticks of all runs with the table honour its costs. -/
def Honoured (T : CostTable) : Prop :=
  ∀ (numCores numHarts MainThreadID StartAddr : ℕ) (tr : List (CPU × Event)) (s : CPU),
    Run step (init numCores numHarts MainThreadID StartAddr) tr s →
    (∀ p ∈ tr, FromTable T p.2) → ∀ p ∈ tr, HonoursTurn p.1 p.2

theorem Live.honoursTurn {ev : Event} (hs : s.Live) (hcost : CostOne ev)
    (hstep : s.step ev = some s') : HonoursTurn s ev := by
  cases step_cases hstep with
  | @turn inp done s₁ _ hnext hturn =>
    intro s₁ c' rtn hassign hon htick
    exact (hs.assigned hnext hassign).1.honours (hs.any_clear hnext hassign hon) hcost htick
  | finish _ _ => trivial
  | loadComplete _ _ _ _ => trivial

/-- With costs of one only. -/
theorem honoured_of_one {T : CostTable} (hone : ∀ x ∈ T, x.2 = 1) : Honoured T := by
  intro numCores numHarts MainThreadID StartAddr tr s hrun htable p hp
  have hcost : ∀ p ∈ tr, CostOne p.2 := by
    intro p hp
    have hfrom := htable p hp
    cases hev : p.2 with
    | turn inp done =>
      rw [hev] at hfrom
      exact fun f hf => hone _ (hfrom f hf)
    | finish net => trivial
    | loadComplete i req => trivial
  have hlive := (hrun.invariant Live (fun _ ev => CostOne ev) (init_live ..)
    (fun _ _ _ hs hone hstep => hs.step hone hstep) hcost).2 p hp
  obtain ⟨s', hstep⟩ := hrun.step_mem p hp
  exact hlive.honoursTurn (hcost p hp) hstep

/-- An instruction of the table with x0 as all its registers. -/
def nop (e : Isa.RevInstEntry Isa.ImplFunc) (cost : ℕ) : Fetched :=
  { inst := { rd := 0, rs1 := 0, rs2 := 0, rs3 := 0, instSize := 4 }, entry := e, cost }

/-- The tick of a core that fetches and executes it at address 4096. -/
def nopTick (e : Isa.RevInstEntry Isa.ImplFunc) (cost : ℕ) : TickInput :=
  { fetched := some (nop e cost), executed := some { PC := 4100, cost := cost } }

/-- The main thread has its hart. -/
def booted : CPU :=
  { init 1 1 1 4096 with
    ReadyThreads := []
    Procs := Function.update (fun _ => { numHarts := 1 }) 0
      { numHarts := 1
        Harts := Function.update (fun _ => none) 0
          (some { ID := 1, VirtRegState := 0, State := .RUNNING })
        IdleHarts := Function.update (fun _ => true) 0 false }
    Enabled := Function.update (fun _ => false) 0 true }

theorem init_booted : (init 1 1 1 4096).UpdateThreadAssignments 0 = .ok booted := rfl

/-- Its execution leaves it in the pipeline. -/
theorem nop_issue (e : Isa.RevInstEntry Isa.ImplFunc) (cost : ℕ) :
    ∃ c₂, (booted.core 0).issue (nopTick e cost) = .ok c₂ ∧ c₂.proc.Pipeline = [(0, nop e cost)] ∧
      c₂.proc.RegFile = some 0 ∧ (c₂.regs 0).PC = 4100 ∧ c₂.proc.ThreadsThatChangedState = [] := by
  unfold CoreState.issue
  have hstatus : (booted.core 0).UpdateStatusOfHarts = .ok (booted.core 0).updateClear := rfl
  have hdec := CoreState.decode_pass (c := (booted.core 0).updateClear) (i := nopTick e cost)
    (h := 0) (r := 0) (f := nop e cost) (by decide) (by decide) rfl rfl rfl rfl rfl
    (CoreState.DependencyCheck_free _ _ rfl (fun _ => rfl) (fun _ => rfl))
  rw [hstatus]
  simp only [bind, Except.bind]
  rw [hdec]
  obtain ⟨_, _, _, _, _, _, rdClass⟩ := e
  cases rdClass <;> exact ⟨_, rfl, rfl, rfl, rfl, rfl⟩

/-- A cost above one is never counted down. -/
theorem nop_stuck (e : Isa.RevInstEntry Isa.ImplFunc) {cost : ℕ} (hcost : cost ≠ 1) :
    ∃ c, (booted.core 0).issue (nopTick e cost) = .ok c ∧
      (booted.core 0).ClockTick (nopTick e cost) = .ok (c, true) ∧
      c.proc.Pipeline = [(0, nop e cost)] ∧ c.proc.ThreadsThatChangedState = [] := by
  obtain ⟨c, hissue, hpipe, hreg, hPC, hthreads⟩ := nop_issue e cost
  refine ⟨c, hissue, ?_, hpipe, hthreads⟩
  have hretire : c.retire = .ok c := by
    unfold CoreState.retire
    rw [hpipe]
    exact if_neg hcost
  have hcomplete : c.complete = .ok c := by
    unfold CoreState.complete CoreState.curReg
    rw [hreg]
    simp only [bind, Except.bind, hPC]
    rfl
  rw [CoreState.ClockTick_issue, hissue]
  simp only [bind, Except.bind, hretire, hcomplete]
  rfl

theorem nop_step (e : Isa.RevInstEntry Isa.ImplFunc) {cost : ℕ} (hcost : cost ≠ 1) :
    ∃ s, (init 1 1 1 4096).step (.turn (nopTick e cost) true) = some s := by
  obtain ⟨c, -, htick, -, hthreads⟩ := nop_stuck e hcost
  have hclock : booted.clockCore 0 (nopTick e cost) = .ok (booted.setCore 0 c) := by
    unfold clockCore
    rw [if_pos (by decide), htick]
    rfl
  have hhandle : ∃ s, (booted.setCore 0 c).HandleThreadStateChangesForProc 0 true = .ok s := by
    have hnone : ((booted.setCore 0 c).Procs 0).ThreadsThatChangedState = [] := by
      simpa [setCore] using hthreads
    unfold HandleThreadStateChangesForProc
    rw [hnone]
    exact ⟨_, rfl⟩
  obtain ⟨s, hs⟩ := hhandle
  have hturn : ∃ s', (init 1 1 1 4096).turn 0 (nopTick e cost) true = .ok s' := by
    unfold turn
    rw [init_booted]
    simp only [bind, Except.bind, hclock, hs]
    exact ⟨_, rfl⟩
  obtain ⟨s', hs'⟩ := hturn
  refine ⟨{ s' with next := 1, coDone := Function.update (init 1 1 1 4096).coDone 0 true }, ?_⟩
  apply toOption_eq_some.mpr
  unfold stepE
  rw [if_neg (by decide)]
  simp only
  rw [if_pos (by decide)]
  have hnext : (init 1 1 1 4096).next = 0 := rfl
  rw [hnext, hs']
  rfl

/-- One instruction of another cost is enough for a tick that does not honour it. -/
theorem one_of_honoured {T : CostTable} (hT : Honoured T) {x : Isa.RevInstEntry Isa.ImplFunc × ℕ}
    (hx : x ∈ T) (hpos : 1 ≤ x.2) : x.2 = 1 := by
  by_contra hcost
  obtain ⟨s, hstep⟩ := nop_step x.1 hcost
  obtain ⟨c, hissue, htick, hpipe, -⟩ := nop_stuck x.1 hcost
  have hrun := Run.nil.snoc hstep
  have hfrom : ∀ p ∈ [(init 1 1 1 4096, Event.turn (nopTick x.1 x.2) true)], FromTable T p.2 := by
    intro p hp
    rw [List.mem_singleton.mp hp]
    intro f hf
    rw [← Option.some.inj hf]
    exact hx
  have hhonours := hT 1 1 1 4096 _ s hrun hfrom _ (List.mem_singleton_self _) booted c true
    init_booted rfl htick c hissue
  rw [hpipe] at hhonours
  simp only [nop, if_neg hcost, List.cons.injEq, Prod.mk.injEq, Fetched.mk.injEq] at hhonours
  omega

/-- The costs of a table are honoured exactly when all of them are one. -/
theorem honoured_iff {T : CostTable} (hpos : ∀ x ∈ T, 1 ≤ x.2) :
    Honoured T ↔ ∀ x ∈ T, x.2 = 1 :=
  ⟨fun hT x hx => one_of_honoured hT hx (hpos x hx), honoured_of_one⟩

/-- The built-in tables give every instruction the cost one. -/
theorem builtin_honoured : Honoured (Isa.RV32ITable.map fun e => (e, 1)) := by
  have hone : ∀ x ∈ Isa.RV32ITable.map fun e => (e, 1), x.2 = 1 := by
    intro x hx
    obtain ⟨e, -, rfl⟩ := List.mem_map.mp hx
    rfl
  refine (honoured_iff ?_).mpr hone
  intro x hx
  rw [hone x hx]

/-- The same table with a cost of two for its first instruction, `lui`. -/
theorem slow_lui_not_honoured :
    ¬Honoured ((Isa.RV32ITable.head (by decide), 2) :: Isa.RV32ITable.tail.map fun e => (e, 1)) := by
  intro hT
  exact absurd (one_of_honoured hT List.mem_cons_self (by decide)) (by decide)

end CPU

end RevCPU.Sched
