import RevCPU.Sched.Moves

namespace RevCPU.Sched

open Lib

namespace CoreState

variable {c c' : CoreState}

/-- `HartToExecID` is the hart that is decoding, or no hart. -/
def ExecOk (c : CoreState) : Prop :=
  c.proc.HartToExecID = none ∨ c.proc.HartToExecID = some c.proc.HartToDecodeID

theorem UpdateStatusOfHarts_eq_ok (hok : c.UpdateStatusOfHarts = .ok c') :
    c' = c.updateClear := by
  unfold UpdateStatusOfHarts at hok
  split at hok
  · cases hok
  · exact (Except.ok.inj hok).symm

/-- `Execute` is called only for the instruction that has just been decoded. -/
theorem Decoded.triggers {i : TickInput} {target : ℕ × ℕ} (hdec : Decoded c i c')
    (hany : (List.range c.proc.numHarts).any c.proc.HartsClearToDecode = true)
    (htriggers : c'.triggers = .ok (some target)) :
    ∃ t f, Decoding c c' c.proc.GetNextHartToDecodeID t ∧ i.fetched = some f ∧
      target = (c.proc.GetNextHartToDecodeID, t.VirtRegState) ∧
      c'.proc.HartToExecID = some c.proc.GetNextHartToDecodeID ∧
      (c'.regs t.VirtRegState).cost = f.cost ∧
      c.DependencyCheck c.proc.GetNextHartToDecodeID t.VirtRegState f = false := by
  cases hdec with
  | skip hnone heq => rw [hany] at hnone; cases hnone
  | stall _ hdec hexec hcost =>
    unfold CoreState.triggers at htriggers
    rw [hexec] at htriggers
    cases htriggers
  | @pass t f _ hdec hfetched hexec hclear hcost htrigger hfree =>
    unfold CoreState.triggers CoreState.curReg at htriggers
    rw [hexec, hdec.regFile] at htriggers
    obtain ⟨r, hr, htriggers⟩ := bind_eq_ok.mp htriggers
    obtain rfl := Except.ok.inj hr
    simp only [htrigger, hclear, Bool.not_false, Bool.and_self, if_true] at htriggers
    refine ⟨t, f, hdec, hfetched, ?_, hexec, hcost, hfree⟩
    exact (Option.some.inj (Except.ok.inj htriggers)).symm

/-- What the second part of `ClockTick` can do: nothing, or execute the
    instruction that has been decoded. -/
theorem execute_eq_ok {f : Option Fetched} {i : TickInput} (hok : c.execute f i = .ok c') :
    c.triggers = .ok none ∧ c' = c ∨
      ∃ h r f' e, c.triggers = .ok (some (h, r)) ∧ f = some f' ∧ i.executed = some e ∧
        c.dispatch h r f' e = .ok c' := by
  obtain ⟨target, htarget, hok⟩ := bind_eq_ok.mp hok
  cases target with
  | none => exact .inl ⟨htarget, (Except.ok.inj hok).symm⟩
  | some target =>
    obtain ⟨h, r⟩ := target
    cases f with
    | none => cases hok
    | some f =>
      cases he : i.executed with
      | none =>
        simp only [he] at hok
        cases hok
      | some e =>
        simp only [he] at hok
        exact .inr ⟨h, r, f, e, htarget, rfl, rfl, hok⟩

/-- The thread of the decoding hart has finished. -/
structure Done (c c' : CoreState) (t : RevThread) : Prop where
  lt : c.proc.HartToDecodeID < c.proc.numHarts
  hart : c.proc.Harts c.proc.HartToDecodeID = some t
  still : Still c c'
  regs : c'.regs = c.regs
  pipeline : c'.proc.Pipeline = c.proc.Pipeline
  view : c'.view = c.view.finish c.proc.HartToDecodeID t
  idle : c'.proc.IdleHarts c.proc.HartToDecodeID = true

theorem finishThread_done (hok : c.finishThread c.proc.HartToDecodeID c.proc.HartToDecodeID =
    .ok c') : ∃ t, Done c c' t := by
  obtain ⟨⟨c₁, t⟩, hpop, hok⟩ := bind_eq_ok.mp hok
  obtain ⟨hlt, hart, rfl⟩ := PopThreadFromHart_eq_ok hpop
  obtain rfl := Except.ok.inj hok
  refine ⟨t, hlt, hart, ⟨rfl, rfl, rfl⟩, rfl, rfl, ?_, ?_⟩
  · simp only [CoreState.view, View.finish, View.pop, AddThreadsThatChangedState,
      Function.update_idem]
  · simp only [AddThreadsThatChangedState, Function.update_self]

theorem HartHasNoDependencies_eq_ok {h : ℕ} {free : Bool} (hok : c.HartHasNoDependencies h = .ok free) :
    ∃ t, c.proc.Harts h = some t ∧ free = !(c.regs t.VirtRegState).AnyDependency := by
  obtain ⟨r, hr, hok⟩ := bind_eq_ok.mp hok
  obtain ⟨t, ht, rfl⟩ := hartReg_eq_ok hr
  exact ⟨t, ht, (Except.ok.inj hok).symm⟩

/-- What the last part of `ClockTick` can do: nothing, or let the thread of the
    decoding hart finish. Its second test finds nothing after the first one. -/
theorem complete_cases (hexec : c.ExecOk) (hok : c.complete = .ok c') :
    c' = c ∨ ∃ t, Done c c' t := by
  obtain ⟨r, hr, hok⟩ := bind_eq_ok.mp hok
  split at hok
  · obtain ⟨free, hfree, hrest⟩ := bind_eq_ok.mp hok
    obtain ⟨c₁, hfirst, hsecond⟩ := bind_eq_ok.mp hrest
    unfold completeExec at hsecond
    split at hfirst
    · obtain ⟨t, hdone⟩ := finishThread_done hfirst
      refine .inr ⟨t, ?_⟩
      rw [hdone.still.execID] at hsecond
      rcases hexec with hnone | hsome
      · rw [hnone] at hsecond
        obtain rfl := Except.ok.inj hsecond
        exact hdone
      · rw [hsome] at hsecond
        simp only [hdone.idle, if_true] at hsecond
        obtain rfl := Except.ok.inj hsecond
        exact hdone
    · rename_i hnot
      obtain rfl := Except.ok.inj hfirst
      refine .inl ?_
      rcases hexec with hnone | hsome
      · rw [hnone] at hsecond
        exact (Except.ok.inj hsecond).symm
      · rw [hsome] at hsecond
        simp only [] at hsecond
        split at hsecond
        · exact (Except.ok.inj hsecond).symm
        · obtain ⟨free', hfree', hlast⟩ := bind_eq_ok.mp hsecond
          obtain rfl := Except.ok.inj (hfree.symm.trans hfree')
          rw [if_neg hnot] at hlast
          exact (Except.ok.inj hlast).symm
  · exact .inl (Except.ok.inj hok).symm

/-- What a call of `ClockTick` does with the threads: it may create one, and then
    one may finish; or one waits for another. -/
inductive Outcome (c c' : CoreState) : Prop
  | stay (hview : c'.view = c.view)
  | create {NewTID : ℕ} (hview : c'.view = c.view.create NewTID)
  | finish {h : ℕ} {t : RevThread} (hlt : h < c.proc.numHarts) (hart : c.proc.Harts h = some t)
      (hview : c'.view = c.view.finish h t)
  | createFinish {NewTID h : ℕ} {t : RevThread} (hlt : h < c.proc.numHarts)
      (hart : c.proc.Harts h = some t) (hview : c'.view = (c.view.create NewTID).finish h t)
  | join {h a0 : ℕ} {t : RevThread} (hlt : h < c.proc.numHarts) (hart : c.proc.Harts h = some t)
      (hview : c'.view = c.view.join h t a0)
      (htrigger : t.VirtRegState < c.nextReg → (c'.regs t.VirtRegState).trigger = true)

/-- What a call of `ClockTick` does. -/
structure Ticked (c c' : CoreState) : Prop where
  exec : c'.ExecOk
  decodeID : c'.proc.HartToDecodeID < c'.proc.numHarts
  outcome : Outcome c c'
  trigger : ∀ k < c.nextReg, (∀ h < c.proc.numHarts, ∀ t, c.proc.Harts h = some t → t.VirtRegState ≠ k) →
    (c'.regs k).trigger = (c.regs k).trigger

/-- The first part of `ClockTick` leaves the threads where they are. -/
structure Begun (c c₁ : CoreState) : Prop where
  exec : c₁.ExecOk
  decodeID : c₁.proc.HartToDecodeID < c₁.proc.numHarts
  view : c₁.view = c.view
  trigger : ∀ k, (∀ h < c.proc.numHarts, ∀ t, c.proc.Harts h = some t → t.VirtRegState ≠ k) →
    (c₁.regs k).trigger = (c.regs k).trigger

theorem Decoded.begun {i : TickInput} (hexec : c.ExecOk) (hlt : c.proc.HartToDecodeID < c.proc.numHarts)
    (hdec : Decoded c i c') : Begun c c' := by
  have hdecoding : ∀ {t}, (List.range c.proc.numHarts).any c.proc.HartsClearToDecode = true →
      Decoding c c' c.proc.GetNextHartToDecodeID t →
      c'.proc.HartToDecodeID < c'.proc.numHarts ∧
      ∀ k, (∀ h < c.proc.numHarts, ∀ t, c.proc.Harts h = some t → t.VirtRegState ≠ k) →
        (c'.regs k).trigger = (c.regs k).trigger := by
    intro t hany hdec
    have hnext := (RevProc.GetNextHartToDecodeID_clear hlt hany).2
    have hnum : c'.proc.numHarts = c.proc.numHarts := congrArg View.numHarts hdec.view
    refine ⟨by rw [hdec.decodeID, hnum]; exact hnext, ?_⟩
    intro k hk
    rw [hdec.others k (Ne.symm (hk _ hnext t hdec.hart))]
  cases hdec with
  | skip _ heq =>
    rw [heq]
    exact ⟨hexec, hlt, rfl, fun _ _ => rfl⟩
  | stall hany hdec hnone _ =>
    obtain ⟨hdecodeID, htrigger⟩ := hdecoding hany hdec
    exact ⟨.inl hnone, hdecodeID, hdec.view, htrigger⟩
  | pass hany hdec _ hsome _ _ _ _ =>
    obtain ⟨hdecodeID, htrigger⟩ := hdecoding hany hdec
    exact ⟨.inr (by rw [hsome, hdec.decodeID]), hdecodeID, hdec.view, htrigger⟩

/-- What the second part of `ClockTick` does after the first. -/
inductive Ran (c c₁ c₂ : CoreState) : Prop
  | idle (heq : c₂ = c₁)
  | ran {t : RevThread} {f : Fetched} (hlt : c₁.proc.HartToDecodeID < c.proc.numHarts)
      (hart : c.proc.Harts c₁.proc.HartToDecodeID = some t)
      (hdisp : Dispatched c₁ c₂ c₁.proc.HartToDecodeID t.VirtRegState f)

/-- The parts of `ClockTick`. -/
theorem ClockTick_parts {i : TickInput} {rtn : Bool} (hexec : c.ExecOk)
    (hlt : c.proc.HartToDecodeID < c.proc.numHarts) (hok : c.ClockTick i = .ok (c', rtn)) :
    ∃ c₁ c₂ c₃, Begun c c₁ ∧ Ran c c₁ c₂ ∧ Retired c₂ c₃ ∧ c₃.complete = .ok c' := by
  obtain ⟨c₀, hstatus, hok⟩ := bind_eq_ok.mp hok
  obtain ⟨c₁, hdecode, hok⟩ := bind_eq_ok.mp hok
  obtain ⟨c₂, hexecute, hok⟩ := bind_eq_ok.mp hok
  obtain ⟨c₃, hretire, hok⟩ := bind_eq_ok.mp hok
  obtain ⟨c₄, hcomplete, hok⟩ := bind_eq_ok.mp hok
  obtain ⟨rfl, -⟩ := Prod.mk.inj (Except.ok.inj hok)
  obtain rfl := UpdateStatusOfHarts_eq_ok hstatus
  have hdec := decode_decoded hdecode
  have hbegun := Decoded.begun (c := c.updateClear) hexec hlt hdec
  refine ⟨c₁, c₂, c₃, ⟨hbegun.exec, hbegun.decodeID, hbegun.view, hbegun.trigger⟩, ?_,
    retire_retired hretire, hcomplete⟩
  rcases execute_eq_ok hexecute with ⟨-, heq⟩ | ⟨h, r, f, e, htriggers, hf, -, hdisp⟩
  · exact .idle heq
  · split at hf
    · rename_i hany
      obtain ⟨t, f', hdecoding, -, htarget, -⟩ := hdec.triggers hany htriggers
      obtain ⟨rfl, rfl⟩ := Prod.mk.inj htarget
      have hnum : c₁.proc.numHarts = c.proc.numHarts := congrArg View.numHarts hbegun.view
      refine .ran (t := t) (f := f) (by rw [← hnum]; exact hbegun.decodeID) ?_ ?_
      · rw [hdecoding.decodeID]
        exact hdecoding.hart
      · rw [hdecoding.decodeID]
        exact dispatch_dispatched hdisp
    · cases hf

/-- What a call of `ClockTick` does with the threads. -/
theorem ClockTick_ticked {i : TickInput} {rtn : Bool} (hexec : c.ExecOk)
    (hlt : c.proc.HartToDecodeID < c.proc.numHarts) (hok : c.ClockTick i = .ok (c', rtn)) :
    Ticked c c' := by
  obtain ⟨c₁, c₂, c₃, hbegun, hran, hretired, hcomplete⟩ := ClockTick_parts hexec hlt hok
  have hnext₁ : c₁.nextReg = c.nextReg := congrArg View.nextReg hbegun.view
  have hharts₁ : c₁.proc.Harts = c.proc.Harts := congrArg View.Harts hbegun.view
  have hnum₁ : c₁.proc.numHarts = c.proc.numHarts := congrArg View.numHarts hbegun.view
  have hstill : Still c₁ c₂ := by
    cases hran with
    | idle heq => exact heq ▸ .refl c₁
    | ran _ _ hdisp => exact hdisp.still
  have hstill₃ := hstill.trans hretired.still
  have hexec₃ : c₃.ExecOk := by
    rw [ExecOk, hstill₃.execID, hstill₃.decodeID]
    exact hbegun.exec
  have htrigger₂ : ∀ k < c.nextReg,
      (∀ h < c.proc.numHarts, ∀ t, c.proc.Harts h = some t → t.VirtRegState ≠ k) →
      (c₂.regs k).trigger = (c.regs k).trigger := by
    intro k hk hfree
    rw [← hbegun.trigger k hfree]
    cases hran with
    | idle heq => rw [heq]
    | ran hlt hart hdisp => exact hdisp.trigger k (by omega) (Ne.symm (hfree _ hlt _ hart))
  have hview₂ : c₂.view = c.view ∨ (∃ NewTID, c₂.view = c.view.create NewTID) ∨
      ∃ t a0, c₁.proc.HartToDecodeID < c.proc.numHarts ∧
        c.proc.Harts c₁.proc.HartToDecodeID = some t ∧
        c₂.view = c.view.join c₁.proc.HartToDecodeID t a0 ∧
        (t.VirtRegState < c.nextReg → (c₂.regs t.VirtRegState).trigger = true) := by
    cases hran with
    | idle heq => exact .inl (by rw [heq]; exact hbegun.view)
    | @ran t f hlt hart hdisp =>
      have hmove := hdisp.view
      rw [hbegun.view, hnum₁, hharts₁] at hmove
      rcases hmove with hstay | hcreate | ⟨t', a0, hlt, hart', hjoin⟩
      · exact .inl hstay
      · exact .inr (.inl hcreate)
      · obtain rfl := Option.some.inj (hart.symm.trans hart')
        exact .inr (.inr ⟨t, a0, hlt, hart, hjoin, fun hr => hdisp.triggered (by omega)⟩)
  have hview₃ : c₃.view = c₂.view := hretired.view
  rcases complete_cases hexec₃ hcomplete with rfl | ⟨t, hdone⟩
  · have hnum : c'.proc.numHarts = c₁.proc.numHarts := by
      rcases hview₂ with hstay | ⟨_, hcreate⟩ | ⟨_, _, _, _, hjoin, _⟩
      · exact congrArg View.numHarts (hview₃.trans (hstay.trans hbegun.view.symm))
      · exact (congrArg View.numHarts (hview₃.trans hcreate)).trans hnum₁.symm
      · exact (congrArg View.numHarts (hview₃.trans hjoin)).trans hnum₁.symm
    refine ⟨hexec₃, by rw [hnum, hstill₃.decodeID]; exact hbegun.decodeID, ?_, ?_⟩
    · rcases hview₂ with hstay | ⟨NewTID, hcreate⟩ | ⟨t, a0, hlt, hart, hjoin, htrigger⟩
      · exact .stay (hview₃.trans hstay)
      · exact .create (hview₃.trans hcreate)
      · refine .join hlt hart (hview₃.trans hjoin) fun hr => ?_
        rw [hretired.trigger]
        exact htrigger hr
    · intro k hk hfree
      rw [hretired.trigger]
      exact htrigger₂ k hk hfree
  · have hdecodeID : c₃.proc.HartToDecodeID = c₁.proc.HartToDecodeID := hstill₃.decodeID
    have hharts₃ : c₃.proc.Harts = c₂.view.Harts := congrArg View.Harts hview₃
    have hnum₃ : c₃.proc.numHarts = c₂.view.numHarts := congrArg View.numHarts hview₃
    have hnum : c'.proc.numHarts = c₃.proc.numHarts := congrArg View.numHarts hdone.view
    refine ⟨?_, ?_, ?_, ?_⟩
    · rw [ExecOk, hdone.still.execID, hdone.still.decodeID]
      exact hexec₃
    · rw [hdone.still.decodeID, hnum]
      exact hdone.lt
    · have hlt := hdone.lt
      have hart := hdone.hart
      have hfinish := hdone.view
      rw [hview₃] at hfinish
      rw [hnum₃] at hlt
      rw [hharts₃] at hart
      rcases hview₂ with hstay | ⟨NewTID, hcreate⟩ | ⟨t', a0, -, -, hjoin, -⟩
      · rw [hstay] at hlt hart hfinish
        exact .finish hlt hart hfinish
      · rw [hcreate] at hlt hart hfinish
        exact .createFinish hlt hart hfinish
      · rw [hjoin, hdecodeID] at hart
        simp [View.join, View.pop] at hart
    · intro k hk hfree
      rw [hdone.regs, hretired.trigger]
      exact htrigger₂ k hk hfree

end CoreState

end RevCPU.Sched
