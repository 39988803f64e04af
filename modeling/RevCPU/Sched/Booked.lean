import RevCPU.Lib.Fallible
import RevCPU.Sched.System

namespace RevCPU.Sched

open Lib

namespace CoreState

variable {c c' c'' : CoreState}

/-- Only the scoreboards and the queue of the loads have changed. -/
structure Booked (c c' : CoreState) : Prop where
  proc : ∃ q, c'.proc = { c.proc with LSQueue := q }
  PC : ∀ r, (c'.regs r).PC = (c.regs r).PC
  cost : ∀ r, (c'.regs r).cost = (c.regs r).cost
  trigger : ∀ r, (c'.regs r).trigger = (c.regs r).trigger
  nextReg : c'.nextReg = c.nextReg
  created : c'.created = c.created
  joins : c'.joins = c.joins

namespace Booked

theorem refl (c : CoreState) : Booked c c :=
  ⟨⟨c.proc.LSQueue, rfl⟩, fun _ => rfl, fun _ => rfl, fun _ => rfl, rfl, rfl, rfl⟩

theorem trans (h : Booked c c') (h' : Booked c' c'') : Booked c c'' := by
  obtain ⟨q, hq⟩ := h.proc
  obtain ⟨q', hq'⟩ := h'.proc
  refine ⟨⟨q', ?_⟩, fun r => (h'.PC r).trans (h.PC r), fun r => (h'.cost r).trans (h.cost r),
    fun r => (h'.trigger r).trans (h.trigger r), h'.nextReg.trans h.nextReg,
    h'.created.trans h.created, h'.joins.trans h.joins⟩
  rw [hq', hq]

/-- A change of the scoreboards of one register file. -/
theorem setReg (c : CoreState) (r : ℕ) {f : RegState → RegState} (hPC : ∀ s, (f s).PC = s.PC)
    (hcost : ∀ s, (f s).cost = s.cost) (htrigger : ∀ s, (f s).trigger = s.trigger) :
    Booked c (c.setReg r f) := by
  have hfield : ∀ {α : Type} (g : RegState → α), (∀ s, g (f s) = g s) →
      ∀ k, g ((c.setReg r f).regs k) = g (c.regs k) := by
    intro α g hg k
    by_cases hk : k = r
    · rw [hk]
      simp only [CoreState.setReg, Function.update_self, hg]
    · simp only [CoreState.setReg, Function.update_of_ne hk]
  exact ⟨⟨c.proc.LSQueue, rfl⟩, hfield RegState.PC hPC, hfield RegState.cost hcost,
    hfield RegState.trigger htrigger, rfl, rfl, rfl⟩

end Booked

theorem DependencySet_booked {h reg : ℕ} {isFloat value : Bool}
    (hok : c.DependencySet h reg isFloat value = .ok c') : Booked c c' := by
  unfold DependencySet at hok
  split at hok
  · split at hok
    · split at hok
      · obtain ⟨r, -, hok⟩ := bind_eq_ok.mp hok
        obtain rfl := Except.ok.inj hok
        exact .setReg c r (fun _ => rfl) (fun _ => rfl) (fun _ => rfl)
      · split at hok
        · obtain ⟨r, -, hok⟩ := bind_eq_ok.mp hok
          obtain rfl := Except.ok.inj hok
          exact .setReg c r (fun _ => rfl) (fun _ => rfl) (fun _ => rfl)
        · obtain rfl := Except.ok.inj hok
          exact .refl c
    · cases hok
  · obtain rfl := Except.ok.inj hok
    exact .refl c

theorem MarkLoadComplete_booked {req : MemReq} (hok : c.MarkLoadComplete req = .ok c') :
    Booked c c' := by
  unfold MarkLoadComplete at hok
  split at hok
  · cases hok
  · obtain ⟨c₁, hclear, hok⟩ := bind_eq_ok.mp hok
    obtain rfl := Except.ok.inj hok
    have hbooked : Booked c c₁ := by
      split at hclear
      · exact DependencySet_booked hclear
      · obtain rfl := Except.ok.inj hclear
        exact .refl c
    exact hbooked.trans ⟨⟨_, rfl⟩, fun _ => rfl, fun _ => rfl, fun _ => rfl, rfl, rfl, rfl⟩

theorem loadOp_booked {h : ℕ} {op : LoadOp} (hok : c.loadOp h op = .ok c') : Booked c c' := by
  cases op with
  | insert req =>
    obtain rfl := Except.ok.inj hok
    exact ⟨⟨_, rfl⟩, fun _ => rfl, fun _ => rfl, fun _ => rfl, rfl, rfl, rfl⟩
  | complete req => exact MarkLoadComplete_booked hok
  | dependency reg value => exact DependencySet_booked hok

/-- The operations of an instruction on the loads and the scoreboard. -/
theorem loadOps_booked {h : ℕ} {ops : List LoadOp} (hok : c.loadOps h ops = .ok c') :
    Booked c c' := by
  induction ops generalizing c with
  | nil =>
    obtain rfl := Except.ok.inj hok
    exact .refl c
  | cons op ops ih =>
    obtain ⟨c₁, hop, hok⟩ := bind_eq_ok.mp hok
    exact (loadOp_booked hop).trans (ih hok)

end CoreState

end RevCPU.Sched
