import RevCPU.Sched.CoProcOnce

namespace RevCPU.Sched

open Lib

/-- A `RevSimpleCoProc`: its queue of instructions and the cycle of the last one.
    `executed` lists the instructions that it has executed, with their cycles, in
    the order of its output; `num_instRetired` is their number. -/
structure RevSimpleCoProc where
  InstQ : List ℕ := []
  cycleCount : ℕ := 0
  executed : List (ℕ × ℕ) := []

namespace RevSimpleCoProc

/-- A request for a hart, which has to be one of the core. -/
def external (numHarts HartID : ℕ) (stall : Bool) (CoProcStallReq : ℕ → Bool) :
    Option (ℕ → Bool) :=
  if HartID < numHarts then some (Function.update CoProcStallReq HartID stall) else none

/-- `ExternalStallHart` of the core. -/
def ExternalStallHart (numHarts HartID : ℕ) : (ℕ → Bool) → Option (ℕ → Bool) :=
  external numHarts HartID true

/-- `ExternalReleaseHart` of the core. -/
def ExternalReleaseHart (numHarts HartID : ℕ) : (ℕ → Bool) → Option (ℕ → Bool) :=
  external numHarts HartID false

/-- `IssueInst`, which takes every word. -/
def IssueInst (c : RevSimpleCoProc) (Inst : ℕ) : RevSimpleCoProc × Bool :=
  ({ c with InstQ := c.InstQ ++ [Inst] }, true)

/-- `Reset`, which `Teardown` calls. -/
def Reset (c : RevSimpleCoProc) : RevSimpleCoProc := { c with InstQ := [] }

/-- `IsDone`. -/
def IsDone (c : RevSimpleCoProc) : Bool := c.InstQ.isEmpty

/-- The first part of `ClockTick`: an instruction of the queue is executed, and hart 0
    of the core is stalled. -/
def execute (c : RevSimpleCoProc) (numHarts cycle : ℕ) (CoProcStallReq : ℕ → Bool) :
    Option (RevSimpleCoProc × (ℕ → Bool)) :=
  match c.InstQ with
  | [] => some (c, CoProcStallReq)
  | inst :: rest =>
    (ExternalStallHart numHarts 0 CoProcStallReq).map fun CoProcStallReq =>
      ({ InstQ := rest, cycleCount := cycle, executed := c.executed ++ [(cycle, inst)] },
        CoProcStallReq)

/-- The cycles since the last instruction, in 64 bits. -/
def elapsed (c : RevSimpleCoProc) (cycle : ℕ) : ℕ := (cycle + 2 ^ 64 - c.cycleCount) % 2 ^ 64

/-- The second part of `ClockTick`: hart 0 is released when the last instruction was
    long ago. -/
def release (c : RevSimpleCoProc) (numHarts cycle : ℕ) (CoProcStallReq : ℕ → Bool) :
    Option (ℕ → Bool) :=
  if c.elapsed cycle > 500 then
    ExternalReleaseHart numHarts 0 CoProcStallReq
  else some CoProcStallReq

/-- `ClockTick` in the cycle `cycle`, with the requests to the core. -/
def ClockTick (c : RevSimpleCoProc) (numHarts cycle : ℕ) (CoProcStallReq : ℕ → Bool) :
    Option (RevSimpleCoProc × (ℕ → Bool)) :=
  (c.execute numHarts cycle CoProcStallReq).bind fun executed =>
    (executed.1.release numHarts cycle executed.2).map fun released => (executed.1, released)

variable {c c' : RevSimpleCoProc} {numHarts cycle Inst : ℕ} {req req' : ℕ → Bool}

theorem external_eq_some {HartID : ℕ} {stall : Bool}
    (h : external numHarts HartID stall req = some req') :
    req' = Function.update req HartID stall := by
  unfold external at h
  split at h
  · exact (Option.some.inj h).symm
  · cases h

theorem elapsed_eq (hpast : c.cycleCount ≤ cycle) (hroom : cycle < 2 ^ 64) :
    c.elapsed cycle = cycle - c.cycleCount := by
  unfold elapsed
  rw [Nat.sub_add_comm hpast, Nat.add_mod_right]
  exact Nat.mod_eq_of_lt (Nat.lt_of_le_of_lt (Nat.sub_le ..) hroom)

theorem elapsed_self (hnow : c.cycleCount = cycle) : c.elapsed cycle = 0 := by
  unfold elapsed
  rw [hnow, Nat.add_sub_cancel_left, Nat.mod_self]

/-- A tick without an instruction releases hart 0 when the last one was more than
    500 cycles ago. -/
theorem ClockTick_idle (hqueue : c.InstQ = []) (hpast : c.cycleCount ≤ cycle)
    (hroom : cycle < 2 ^ 64) (hok : c.ClockTick numHarts cycle req = some (c', req')) :
    c' = c ∧
      req' = if c.cycleCount + 500 < cycle then Function.update req 0 false else req := by
  obtain ⟨executed, hexec, hok⟩ := Option.bind_eq_some_iff.mp hok
  obtain ⟨released, hrelease, hlast⟩ := Option.map_eq_some_iff.mp hok
  obtain ⟨rfl, rfl⟩ := Prod.mk.inj hlast
  rw [execute, hqueue] at hexec
  obtain rfl := Option.some.inj hexec
  refine ⟨rfl, ?_⟩
  rw [release, elapsed_eq hpast hroom] at hrelease
  split at hrelease
  · rw [external_eq_some hrelease, if_pos (by omega)]
  · rw [← Option.some.inj hrelease, if_neg (by omega)]

/-- A tick with an instruction executes it and stalls hart 0. -/
theorem ClockTick_busy (hqueue : c.InstQ = [Inst])
    (hok : c.ClockTick numHarts cycle req = some (c', req')) :
    c' = { cycleCount := cycle, executed := c.executed ++ [(cycle, Inst)] } ∧
      req' = Function.update req 0 true := by
  obtain ⟨executed, hexec, hok⟩ := Option.bind_eq_some_iff.mp hok
  obtain ⟨released, hrelease, hlast⟩ := Option.map_eq_some_iff.mp hok
  obtain ⟨rfl, rfl⟩ := Prod.mk.inj hlast
  rw [execute, hqueue] at hexec
  obtain ⟨req₁, hstall, rfl⟩ := Option.map_eq_some_iff.mp hexec
  rw [release, elapsed_self rfl, if_neg (by omega)] at hrelease
  rw [← Option.some.inj hrelease]
  exact ⟨rfl, external_eq_some hstall⟩

end RevSimpleCoProc

/-- A core with its `RevSimpleCoProc` after the turn in the cycle `cycle`. -/
structure CoProcSystem where
  core : CoProcCore
  coProc : RevSimpleCoProc := {}
  CoProcStallReq : ℕ → Bool := fun _ => false
  cycle : ℕ := 0

/-- The turn of the core in a cycle, or what happens between two turns. -/
inductive CoProcTurn
  | turn (cycle : ℕ) (t : WordTick)
  | other (core : CoreState) (files : ℕ → RevRegFile) (M : RevMem)

namespace CoProcSystem

/-- The features of the core with a coprocessor that takes every word. -/
def setup (f : Isa.RevFeature) : CoProcSetup :=
  ⟨f, fun Inst => (({} : RevSimpleCoProc).IssueInst Inst).2⟩

/-- The words of the calls of `IssueInst`. -/
def words (marks : List Mark) : List ℕ :=
  marks.filterMap fun m =>
    match m with
    | .IssueInst _ Inst => some Inst
    | _ => none

/-- What the core finds in a turn: the hart that it decodes for may be stalled. -/
def stalled (s : CoProcSystem) (t : WordTick) : WordTick :=
  { t with stallReq := s.CoProcStallReq s.core.core.updateClear.proc.GetNextHartToDecodeID }

/-- In a turn the core ticks first and the coprocessor after it. -/
def step (f : Isa.RevFeature) (s : CoProcSystem) : CoProcTurn → Option CoProcSystem
  | .turn cycle t =>
    if s.cycle < cycle ∧ cycle < 2 ^ 64 then do
      let core ← CoProcCore.step (setup f) s.core (.tick (s.stalled t))
      let issued := words (core.marks.drop s.core.marks.length)
      let coProc := issued.foldl (fun c Inst => (c.IssueInst Inst).1) s.coProc
      let (coProc, CoProcStallReq) ←
        coProc.ClockTick core.core.proc.numHarts cycle s.CoProcStallReq
      some { core, coProc, CoProcStallReq, cycle }
    else none
  | .other core files M =>
    (CoProcCore.step (setup f) s.core (.other core files M)).map fun core => { s with core }

variable {f : Isa.RevFeature} {s s' : CoProcSystem}

theorem words_append (marks marks' : List Mark) :
    words (marks ++ marks') = words marks ++ words marks' := List.filterMap_append

/-- A tick of the core calls `IssueInst` at most once. -/
theorem issued_cases {e : CoProcSetup} {c c' : CoProcCore} (h : CoProcCore.Marked e c c') :
    c'.marks = c.marks ++ c'.marks.drop c.marks.length ∧
      (words (c'.marks.drop c.marks.length) = [] ∨
        ∃ Inst, words (c'.marks.drop c.marks.length) = [Inst]) := by
  cases h with
  | quiet h =>
    rw [h, List.drop_length, List.append_nil]
    exact ⟨rfl, .inl rfl⟩
  | @hazard r Inst h =>
    rw [h, List.append_assoc, List.drop_left]
    exact ⟨rfl, .inr ⟨Inst, rfl⟩⟩
  | @execute r Inst h =>
    rw [h, List.append_assoc, List.drop_left]
    refine ⟨rfl, ?_⟩
    unfold CoProcCore.issued
    split
    · exact .inr ⟨Inst, rfl⟩
    · exact .inl rfl

/-- What holds after every turn: nothing is left in the queue, and hart 0 is stalled
    as long as the last execution is recent. -/
structure Served (s : CoProcSystem) : Prop where
  queue : s.coProc.InstQ = []
  inOrder : s.coProc.executed.map Prod.snd = words s.core.marks
  cycles : ∀ x ∈ s.coProc.executed, x.1 ≤ s.coProc.cycleCount
  last : s.coProc.executed = [] ∧ s.coProc.cycleCount = 0 ∨
    ∃ x ∈ s.coProc.executed, x.1 = s.coProc.cycleCount
  past : s.coProc.cycleCount ≤ s.cycle
  room : s.cycle < 2 ^ 64
  stall : s.CoProcStallReq 0 = true ↔ s.coProc.executed ≠ [] ∧ s.cycle ≤ s.coProc.cycleCount + 500
  others : ∀ k, k ≠ 0 → s.CoProcStallReq k = false

/-- A turn serves at once what the core issues. -/
theorem Served.turn {cycle : ℕ} {t : WordTick} (hs : s.Served)
    (hstep : s.step f (.turn cycle t) = some s') :
    s'.Served ∧ s.cycle < cycle ∧ s'.cycle = cycle ∧
      s'.coProc.executed = s.coProc.executed ++
        (words (s'.core.marks.drop s.core.marks.length)).map fun Inst => (cycle, Inst) := by
  obtain ⟨hqueue, hinOrder, hcycles, hlast, hpast, -, hstall, hothers⟩ := hs
  unfold step at hstep
  simp only [] at hstep
  split at hstep
  swap
  · cases hstep
  rename_i hcycle
  obtain ⟨core, hcore, hstep⟩ := Option.bind_eq_some_iff.mp hstep
  obtain ⟨⟨coProc, req⟩, htick, hstep⟩ := Option.bind_eq_some_iff.mp hstep
  obtain rfl := Option.some.inj hstep
  obtain ⟨hmarks, hissued⟩ := issued_cases (CoProcCore.step_marked hcore)
  have hwords : words core.marks =
      words s.core.marks ++ words (core.marks.drop s.core.marks.length) := by
    rw [← words_append, ← hmarks]
  rcases hissued with hnone | ⟨Inst, hone⟩
  · rw [hnone, List.foldl_nil] at htick
    obtain ⟨rfl, hreq⟩ := RevSimpleCoProc.ClockTick_idle hqueue (by omega) hcycle.2 htick
    rw [hnone, List.append_nil] at hwords
    refine ⟨⟨hqueue, hinOrder.trans hwords.symm, hcycles, hlast,
        Nat.le_of_lt (Nat.lt_of_le_of_lt hpast hcycle.1), hcycle.2, ?_, ?_⟩,
      hcycle.1, rfl, by simp only [hnone, List.map_nil, List.append_nil]⟩
    · dsimp only
      rw [hreq]
      split
      · rw [Function.update_self]
        simp only [Bool.false_eq_true, false_iff, not_and]
        intro _
        omega
      · rename_i hrecent
        rw [hstall]
        constructor
        · rintro ⟨hne, -⟩
          exact ⟨hne, Nat.not_lt.mp hrecent⟩
        · rintro ⟨hne, -⟩
          refine ⟨hne, ?_⟩
          omega
    · intro k hk
      simp only [hreq]
      split
      · rw [Function.update_of_ne hk]
        exact hothers k hk
      · exact hothers k hk
  · rw [hone, List.foldl_cons, List.foldl_nil] at htick
    have hissued : (s.coProc.IssueInst Inst).1.InstQ = [Inst] := by
      rw [RevSimpleCoProc.IssueInst, hqueue, List.nil_append]
    obtain ⟨rfl, rfl⟩ := RevSimpleCoProc.ClockTick_busy hissued htick
    have hnow : (cycle, Inst) ∈ s.coProc.executed ++ [(cycle, Inst)] :=
      List.mem_append_right _ (List.mem_singleton.mpr rfl)
    refine ⟨⟨rfl, ?_, ?_, .inr ⟨_, hnow, rfl⟩, Nat.le_refl _, hcycle.2, ?_, ?_⟩, hcycle.1, rfl, ?_⟩
    · simp only [hwords, hone, ← hinOrder, RevSimpleCoProc.IssueInst, List.map_append,
        List.map_cons, List.map_nil]
    · intro x hx
      rcases List.mem_append.mp hx with hx | hx
      · have hle := hcycles x hx
        simp only []
        omega
      · rw [List.mem_singleton.mp hx]
    · dsimp only
      rw [Function.update_self]
      simp [RevSimpleCoProc.IssueInst]
    · intro k hk
      dsimp only
      rw [Function.update_of_ne hk]
      exact hothers k hk
    · simp only [hone, RevSimpleCoProc.IssueInst, List.map_cons, List.map_nil]

theorem Served.step {ev : CoProcTurn} (hs : s.Served) (hstep : s.step f ev = some s') :
    s'.Served := by
  cases ev with
  | turn cycle t => exact (hs.turn hstep).1
  | other core files M =>
    unfold CoProcSystem.step at hstep
    obtain ⟨core', hcore, rfl⟩ := Option.map_eq_some_iff.mp hstep
    have hmarks : core'.marks = s.core.marks := by
      rw [← Option.some.inj hcore]
    refine ⟨hs.queue, ?_, hs.cycles, hs.last, hs.past, hs.room, hs.stall, hs.others⟩
    simp only [hmarks]
    exact hs.inOrder

/-- A core with its coprocessor before the first turn. -/
def start (core : CoProcCore) : CoProcSystem := { core }

theorem start_served {core : CoProcCore} (hmarks : core.marks = []) : (start core).Served :=
  ⟨rfl, by rw [start, hmarks]; rfl, by simp [start], .inl ⟨rfl, rfl⟩, Nat.le_refl _,
    Nat.two_pow_pos 64, by simp [start], fun _ _ => rfl⟩

/-- In every run the words that the core issues are executed in their order, each in
    the cycle in which it is issued, so that nothing is left after a turn that a
    teardown could drop, and hart 0 is stalled until more than 500 cycles have passed
    without one: an instruction that is decoded for it comes more than 501 cycles
    after the last. -/
theorem run_served {core : CoProcCore} {tr : List (CoProcSystem × CoProcTurn)}
    (hmarks : core.marks = []) (hrun : Run (step f) (start core) tr s) :
    s.coProc.IsDone = true ∧ s.coProc.Reset = s.coProc ∧
      s.coProc.executed.map Prod.snd = words s.core.marks ∧
      (∀ k, s.CoProcStallReq k = true ↔
        k = 0 ∧ ∃ x ∈ s.coProc.executed, s.cycle ≤ x.1 + 500) ∧
      ∀ p ∈ tr, ∀ cycle t, p.2 = .turn cycle t →
        (∀ s', step f p.1 p.2 = some s' → s'.coProc.executed = p.1.coProc.executed ++
          (words (s'.core.marks.drop p.1.core.marks.length)).map fun Inst => (cycle, Inst)) ∧
        ∀ r, p.1.core.core.fetches t.avail (p.1.stalled t).stallReq = some (0, r) →
          ∀ x ∈ p.1.coProc.executed, x.1 + 501 < cycle := by
  obtain ⟨hlast, hall⟩ := hrun.invariant_of_step Served (start_served hmarks)
    fun _ _ _ hs hstep => hs.step hstep
  have hrecent : ∀ u : CoProcSystem, u.Served → ∀ k, u.CoProcStallReq k = true ↔
      k = 0 ∧ ∃ x ∈ u.coProc.executed, u.cycle ≤ x.1 + 500 := by
    intro u hu k
    by_cases hk : k = 0
    · rw [hk, hu.stall]
      constructor
      · rintro ⟨hne, hle⟩
        rcases hu.last with ⟨hnil, -⟩ | ⟨x, hx, heq⟩
        · exact absurd hnil hne
        · exact ⟨rfl, x, hx, by rw [heq]; exact hle⟩
      · rintro ⟨-, x, hx, hle⟩
        have hbefore := hu.cycles x hx
        exact ⟨List.ne_nil_of_mem hx, by omega⟩
    · rw [hu.others k hk]
      simp [hk]
  refine ⟨?_, ?_, hlast.inOrder, hrecent s hlast, ?_⟩
  · rw [RevSimpleCoProc.IsDone, hlast.queue]
    rfl
  · rw [RevSimpleCoProc.Reset, ← hlast.queue]
  intro p hp cycle t hev
  obtain ⟨s', hstep⟩ := hrun.step_mem p hp
  rw [hev] at hstep
  obtain ⟨-, hlt, -, hserved⟩ := (hall p hp).turn hstep
  refine ⟨?_, ?_⟩
  · intro s₁ hstep₁
    rw [hev, hstep] at hstep₁
    rw [← Option.some.inj hstep₁]
    exact hserved
  · intro r hfetch x hx
    obtain ⟨-, hhart, -, -, -, hfree⟩ := CoreState.fetches_eq_some hfetch
    simp only [stalled, hhart] at hfree
    by_contra hearly
    have hbusy := (hrecent p.1 (hall p hp) 0).mpr ⟨rfl, x, hx, by omega⟩
    rw [hfree] at hbusy
    cases hbusy

/-- A word for the coprocessor in cycle 1, and a second turn: the word is executed
    once, and hart 0 is stalled. -/
theorem custom_served :
    ∃ tr s, Run (step CoProcCore.takesAll.f) (start (CoProcCore.atWord [] [])) tr s ∧
      tr.length = 2 ∧ s.coProc.executed = [(1, 0xb)] ∧ s.coProc.IsDone = true ∧
      s.CoProcStallReq 0 = true := by
  have hsome : ((exec (step CoProcCore.takesAll.f) (start (CoProcCore.atWord [] []))
      [.turn 1 (CoProcCore.wordTick 0xb), .turn 2 (CoProcCore.wordTick 0xb)]).map fun s =>
      (s.coProc.executed, s.cycle)) = some ([(1, 0xb)], 2) := by decide +kernel
  have hlength : (trace (step CoProcCore.takesAll.f) (start (CoProcCore.atWord [] []))
      [.turn 1 (CoProcCore.wordTick 0xb), .turn 2 (CoProcCore.wordTick 0xb)]).length = 2 := by
    decide +kernel
  obtain ⟨s, hexec, hstate⟩ := Option.map_eq_some_iff.mp hsome
  obtain ⟨hexecuted, hcycle⟩ := Prod.mk.inj hstate
  have hrun := run_of_exec _ hexec
  obtain ⟨hdone, -, -, hstall, -⟩ := run_served rfl hrun
  refine ⟨_, s, hrun, hlength, hexecuted, hdone, (hstall 0).mpr ⟨rfl, (1, 0xb), ?_, by omega⟩⟩
  rw [hexecuted]
  exact List.mem_singleton_self _

end CoProcSystem

end RevCPU.Sched
