import RevCPU.Sched.Decoded

namespace RevCPU.Sched

open Lib

namespace View

/-- A new thread. -/
def create (v : View) (NewTID : ℕ) : View :=
  { v with
    changed := v.changed ++ [{ ID := NewTID, VirtRegState := v.nextReg }]
    nextReg := v.nextReg + 1
    created := v.created ++ [(NewTID, v.nextReg)] }

/-- A thread leaves the hart `h` as `t`. -/
def pop (v : View) (h : ℕ) (t : RevThread) : View :=
  { v with
    Harts := Function.update v.Harts h none
    IdleHarts := Function.update v.IdleHarts h true
    changed := v.changed ++ [t] }

/-- The thread of a hart waits for another one. -/
def join (v : View) (h : ℕ) (t : RevThread) (a0 : ℕ) : View :=
  { v.pop h { t with State := .BLOCKED, WaitingToJoinTID := a0 % 2 ^ 32 } with
    joins := v.joins ++ [(t.ID, a0)] }

/-- The thread of a hart is done. -/
def finish (v : View) (h : ℕ) (t : RevThread) : View := v.pop h { t with State := .DONE }

/-- What a core can do with threads. -/
inductive Move (v : View) : View → Prop
  | create (NewTID : ℕ) : Move v (v.create NewTID)
  | join {h : ℕ} {t : RevThread} (a0 : ℕ) (hlt : h < v.numHarts) (hart : v.Harts h = some t) :
      Move v (v.join h t a0)
  | finish {h : ℕ} {t : RevThread} (hlt : h < v.numHarts) (hart : v.Harts h = some t) :
      Move v (v.finish h t)

end View

namespace CoreState

variable {c c' c'' : CoreState}

/-- What the second to the last part of `ClockTick` leave alone. -/
structure Still (c c' : CoreState) : Prop where
  decodeID : c'.proc.HartToDecodeID = c.proc.HartToDecodeID
  execID : c'.proc.HartToExecID = c.proc.HartToExecID
  regFile : c'.proc.RegFile = c.proc.RegFile

theorem Still.refl (c : CoreState) : Still c c := ⟨rfl, rfl, rfl⟩

theorem Still.trans (h : Still c c') (h' : Still c' c'') : Still c c'' :=
  ⟨h'.decodeID.trans h.decodeID, h'.execID.trans h.execID, h'.regFile.trans h.regFile⟩

theorem setReg_still (c : CoreState) (r : ℕ) (f : RegState → RegState) : Still c (c.setReg r f) :=
  ⟨rfl, rfl, rfl⟩

theorem setReg_view (c : CoreState) (r : ℕ) (f : RegState → RegState) :
    (c.setReg r f).view = c.view := rfl

theorem Booked.still (h : Booked c c') : Still c c' := by
  obtain ⟨q, hq⟩ := h.proc
  constructor <;> rw [hq]

theorem Booked.pipeline (h : Booked c c') : c'.proc.Pipeline = c.proc.Pipeline := by
  obtain ⟨q, hq⟩ := h.proc
  rw [hq]

theorem PopThreadFromHart_eq_ok {h : ℕ} {t : RevThread}
    (hok : c.PopThreadFromHart h = .ok (c', t)) :
    h < c.proc.numHarts ∧ c.proc.Harts h = some t ∧ c' = { c with
      proc := { c.proc with
        Harts := Function.update c.proc.Harts h none
        IdleHarts := Function.update c.proc.IdleHarts h true } } := by
  unfold PopThreadFromHart at hok
  split at hok
  · rename_i hlt
    split at hok
    · cases hok
    · rename_i t' ht
      obtain ⟨rfl, rfl⟩ := Prod.mk.inj (Except.ok.inj hok)
      exact ⟨hlt, ht, rfl⟩
  · cases hok

/-- What a system call does with the threads. -/
structure Called (c c' : CoreState) (h : ℕ) : Prop where
  still : Still c c'
  pipeline : c'.proc.Pipeline = c.proc.Pipeline
  cost : ∀ k, (c'.regs k).cost = (c.regs k).cost ∨ (c'.regs k).cost = 0
  trigger : ∀ k < c.nextReg, (c'.regs k).trigger = (c.regs k).trigger
  view : c'.view = c.view ∨ (∃ NewTID, c'.view = c.view.create NewTID) ∨
    ∃ t a0, h < c.proc.numHarts ∧ c.proc.Harts h = some t ∧ c'.view = c.view.join h t a0

theorem Booked.called (hb : Booked c c') (h : ℕ) : Called c c' h :=
  ⟨hb.still, hb.pipeline, fun k => .inl (hb.cost k), fun k _ => hb.trigger k, .inl hb.view⟩

theorem Ecalls_called {h : ℕ} {e : Ecall} {success : Bool} (hok : c.Ecalls h e = .ok (c', success)) :
    Called c c' h := by
  cases e with
  | create NewTID firstPC =>
    obtain ⟨rfl, -⟩ := Prod.mk.inj (Except.ok.inj hok)
    refine ⟨⟨rfl, rfl, rfl⟩, rfl, ?_, ?_, .inr (.inl ⟨NewTID, rfl⟩)⟩
    · intro k
      by_cases hk : k = c.nextReg
      · rw [hk]
        exact .inr (by simp [ECALL_pthread_create, AddThreadsThatChangedState])
      · exact .inl (by simp [ECALL_pthread_create, AddThreadsThatChangedState, hk])
    · intro k hk
      simp [ECALL_pthread_create, AddThreadsThatChangedState, Nat.ne_of_lt hk]
  | join a0 =>
    obtain ⟨free, hfree, hok⟩ := bind_eq_ok.mp hok
    split at hok
    · obtain ⟨⟨c₁, t⟩, hpop, hok⟩ := bind_eq_ok.mp hok
      obtain ⟨hlt, hart, rfl⟩ := PopThreadFromHart_eq_ok hpop
      obtain ⟨rfl, -⟩ := Prod.mk.inj (Except.ok.inj hok)
      exact ⟨⟨rfl, rfl, rfl⟩, rfl, fun _ => .inl rfl, fun _ _ => rfl,
        .inr (.inr ⟨t, a0, hlt, hart, rfl⟩)⟩
    · obtain ⟨rfl, -⟩ := Prod.mk.inj (Except.ok.inj hok)
      exact (Booked.refl c).called h
  | other ops success =>
    obtain ⟨c₁, hops, hok⟩ := bind_eq_ok.mp hok
    obtain ⟨rfl, -⟩ := Prod.mk.inj (Except.ok.inj hok)
    exact (loadOps_booked hops).called h

/-- What the execution of an instruction for the hart `h` with the register file
    at `r` does. -/
structure Dispatched (c c' : CoreState) (h r : ℕ) (f : Fetched) : Prop where
  still : Still c c'
  pipeline : c'.proc.Pipeline = c.proc.Pipeline ++ [(h, f)]
  cost : ∀ k, k ≠ r → (c'.regs k).cost = (c.regs k).cost ∨ (c'.regs k).cost = 0
  trigger : ∀ k < c.nextReg, k ≠ r → (c'.regs k).trigger = (c.regs k).trigger
  triggered : r < c.nextReg → (c'.regs r).trigger = true
  view : c'.view = c.view ∨ (∃ NewTID, c'.view = c.view.create NewTID) ∨
    ∃ t a0, h < c.proc.numHarts ∧ c.proc.Harts h = some t ∧ c'.view = c.view.join h t a0

theorem dispatch_dispatched {h r : ℕ} {f : Fetched} {e : Executed} (hok : c.dispatch h r f e = .ok c') :
    Dispatched c c' h r f := by
  obtain ⟨c₁, hset, hok⟩ := bind_eq_ok.mp hok
  obtain ⟨c₂, hops, hok⟩ := bind_eq_ok.mp hok
  have hbooked := (DependencySet_booked hset).trans (loadOps_booked hops)
  have hview : c₂.view = c.view := hbooked.view
  have hstill : Still c c₂ := by
    have hsame := hbooked.still
    exact ⟨hsame.decodeID, hsame.execID, hsame.regFile⟩
  have hregs : ∀ k, k ≠ r → (c₂.regs k).cost = (c.regs k).cost ∧
      (c₂.regs k).trigger = (c.regs k).trigger := by
    intro k hk
    have hcost := hbooked.cost k
    have htrigger := hbooked.trigger k
    simp only [setReg_regs_ne _ hk] at hcost htrigger
    exact ⟨hcost, htrigger⟩
  have htriggered : (c₂.regs r).trigger = true := by
    have htrigger := hbooked.trigger r
    simpa only [setReg_regs_self] using htrigger
  have hplain : Dispatched c (c₂.setReg r fun s => { s with PC := e.PC, cost := e.cost }) h r f := by
    refine ⟨⟨hstill.decodeID, hstill.execID, hstill.regFile⟩, hbooked.pipeline, ?_, ?_, ?_,
      .inl hview⟩
    · intro k hk
      rw [setReg_regs_ne _ hk]
      exact .inl (hregs k hk).1
    · intro k _ hk
      rw [setReg_regs_ne _ hk]
      exact (hregs k hk).2
    · intro _
      rw [setReg_regs_self]
      exact htriggered
  generalize hc₃ : (c₂.setReg r fun s => { s with PC := e.PC, cost := e.cost }) = c₃ at hplain
  simp only [hc₃] at hok
  split at hok
  · obtain rfl := Except.ok.inj hok
    exact hplain
  · obtain ⟨_, -, hok⟩ := bind_eq_ok.mp hok
    obtain ⟨⟨c₄, success⟩, hcall, hok⟩ := bind_eq_ok.mp hok
    have hcalled := Ecalls_called hcall
    have hview₃ : c₃.view = c.view := by
      rw [← hc₃]
      exact hview
    have hnext : c₃.nextReg = c.nextReg := congrArg View.nextReg hview₃
    have hnum : c₃.proc.numHarts = c.proc.numHarts := congrArg View.numHarts hview₃
    have hharts : c₃.proc.Harts = c.proc.Harts := congrArg View.Harts hview₃
    have hmoved : Dispatched c c₄ h r f := by
      refine ⟨hplain.still.trans hcalled.still, hcalled.pipeline.trans hplain.pipeline, ?_, ?_, ?_, ?_⟩
      · intro k hk
        rcases hcalled.cost k with hsame | hzero
        · rw [hsame]
          exact hplain.cost k hk
        · exact .inr hzero
      · intro k hlt hk
        rw [hcalled.trigger k (by omega), hplain.trigger k hlt hk]
      · intro hlt
        rw [hcalled.trigger r (by omega), hplain.triggered hlt]
      · have hmove := hcalled.view
        rw [hview₃, hnum, hharts] at hmove
        exact hmove
    simp only [] at hok
    split at hok
    · obtain rfl := Except.ok.inj hok
      exact hmoved
    · obtain rfl := Except.ok.inj hok
      refine ⟨hmoved.still.trans (setReg_still ..), hmoved.pipeline, ?_, ?_, ?_, ?_⟩
      · intro k hk
        rw [setReg_regs_ne _ hk]
        exact hmoved.cost k hk
      · intro k hlt hk
        rw [setReg_regs_ne _ hk]
        exact hmoved.trigger k hlt hk
      · intro hlt
        rw [setReg_regs_self]
        exact hmoved.triggered hlt
      · rw [setReg_view]
        exact hmoved.view

/-- What the third part of `ClockTick` does. -/
structure Retired (c c' : CoreState) : Prop where
  still : Still c c'
  view : c'.view = c.view
  cost : ∀ k, (c'.regs k).cost = (c.regs k).cost ∨ (c'.regs k).cost = 0
  trigger : ∀ k, (c'.regs k).trigger = (c.regs k).trigger
  PC : ∀ k, (c'.regs k).PC = (c.regs k).PC

theorem retire_retired (hok : c.retire = .ok c') : Retired c c' := by
  have hrefl : Retired c c := ⟨.refl c, rfl, fun _ => .inl rfl, fun _ => rfl, fun _ => rfl⟩
  unfold retire at hok
  split at hok
  · obtain rfl := Except.ok.inj hok
    exact hrefl
  · split at hok
    · obtain ⟨r, -, hok⟩ := bind_eq_ok.mp hok
      obtain ⟨c₁, hclear, hok⟩ := bind_eq_ok.mp hok
      obtain rfl := Except.ok.inj hok
      have hbooked : Booked c c₁ := by
        split at hclear
        · exact DependencySet_booked hclear
        · obtain rfl := Except.ok.inj hclear
          exact .refl c
      have hstill := hbooked.still
      refine ⟨⟨hstill.decodeID, hstill.execID, hstill.regFile⟩, hbooked.view, ?_, ?_, ?_⟩
      · intro k
        by_cases hk : k = r
        · rw [hk, setReg_regs_self]
          exact .inr rfl
        · rw [setReg_regs_ne _ hk]
          exact .inl (hbooked.cost k)
      · intro k
        by_cases hk : k = r
        · rw [hk, setReg_regs_self]
          exact hbooked.trigger r
        · rw [setReg_regs_ne _ hk]
          exact hbooked.trigger k
      · intro k
        by_cases hk : k = r
        · rw [hk, setReg_regs_self]
          exact hbooked.PC r
        · rw [setReg_regs_ne _ hk]
          exact hbooked.PC k
    · obtain rfl := Except.ok.inj hok
      exact hrefl

end CoreState

end RevCPU.Sched
