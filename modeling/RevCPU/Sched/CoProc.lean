import RevCPU.Sched.Threads

namespace RevCPU.Sched

open Lib

namespace CPU

variable {s s' : CPU}

/-- Whether the core whose turn it is still has a busy hart after its
    `UpdateThreadAssignments` and `ClockTick`. -/
def busyAfter (s : CPU) (inp : TickInput) : Bool :=
  match s.UpdateThreadAssignments s.next >>= fun s₁ => s₁.clockCore s.next inp with
  | .ok s₂ => !(s₂.Procs s.next).HasNoBusyHarts
  | .error _ => true

/-- The turn of a core whose coprocessor has work leaves the core a thread. -/
def KeepsThread (s : CPU) : Event → Prop
  | .turn inp done => done = true ∨ s.busyAfter inp = true
  | _ => True

instance (s : CPU) (ev : Event) : Decidable (s.KeepsThread ev) :=
  match ev with
  | .turn inp done => inferInstanceAs (Decidable (done = true ∨ s.busyAfter inp = true))
  | .finish _ => inferInstanceAs (Decidable True)
  | .loadComplete _ _ => inferInstanceAs (Decidable True)

/-- A core stays on in a turn in which its coprocessor has work. -/
def StaysOn (s : CPU) : Event → CPU → Prop
  | .turn _ done, s' => done = false → s'.Enabled s.next = true
  | _, _ => True

/-- The loop of `HandleThreadStateChangesForProc` switches a core off only if it
    has no busy hart, and no other core. -/
theorem handleThreads_enabled {i : ℕ} {done : Bool} {ts : List RevThread}
    (hok : handleThreads i done s ts = .ok s') :
    (∀ k, k ≠ i → s'.Enabled k = s.Enabled k) ∧
      ((s.Procs i).HasNoBusyHarts = false → s'.Enabled i = s.Enabled i) := by
  induction ts generalizing s with
  | nil =>
    obtain rfl := Except.ok.inj hok
    exact ⟨fun _ _ => rfl, fun _ => rfl⟩
  | cons t ts ih =>
    obtain ⟨s₁, hone, hrest⟩ := bind_eq_ok.mp hok
    obtain ⟨hhandled, hen⟩ := handleThread_handled hone
    obtain ⟨hother, hsame⟩ := ih hrest
    refine ⟨?_, ?_⟩
    · intro k hk
      rw [hother k hk, ← hen]
      split
      · exact Function.update_of_ne hk ..
      · rfl
    · intro hbusy
      rw [← hhandled.procs] at hbusy
      have hwork : HasNoWork (s₁.Procs i) done = false := by
        rw [HasNoWork, hbusy, Bool.false_and]
      simp only [hwork, Bool.false_eq_true, if_false] at hsame
      rw [hsame hbusy, hen]

/-- What a turn of core `i` does to the cores that are on. -/
theorem turn_enabled {i : ℕ} {inp : TickInput} {done : Bool} (hs : s.Wf) (hi : i < s.numCores)
    (hok : s.turn i inp done = .ok s') :
    (∀ k, k ≠ i → s'.Enabled k = s.Enabled k) ∧
      ∃ s₁ s₂, s.UpdateThreadAssignments i = .ok s₁ ∧ s₁.clockCore i inp = .ok s₂ ∧
        s'.Enabled i = !(s₂.Procs i).HasNoBusyHarts := by
  obtain ⟨s₁, s₂, s₃, hassign, hclock, hhandle, heq, hs₁, hs₂, hs₃, hnum₁, hnum₂, hnum₃, hprocs⟩ :=
    turn_parts hs.sound hi hok
  have h₁ : ∀ k, k ≠ i → s₁.Enabled k = s.Enabled k := by
    intro k hk
    cases UpdateThreadAssignments_cases hassign with
    | stay => rfl
    | assign _ _ _ => exact Function.update_of_ne hk ..
  have h₂ : s₂.Enabled = s₁.Enabled := by
    cases clockCore_cases hclock with
    | off _ => rfl
    | tick _ _ => rfl
  obtain ⟨hother, hsame⟩ := handleThreads_enabled hhandle
  have hno : (s₃.Procs i).HasNoBusyHarts = (s₂.Procs i).HasNoBusyHarts := by
    rw [hprocs, Function.update_self]
    rfl
  refine ⟨?_, s₁, s₂, hassign, hclock, ?_⟩
  · intro k hk
    rw [← h₁ k hk, ← h₂, ← hother k hk, heq]
    split
    · exact Function.update_of_ne hk ..
    · rfl
  · rw [heq, hno]
    cases hbusy : (s₂.Procs i).HasNoBusyHarts with
    | true => simp [setEnabled]
    | false =>
      have hon : s₂.Enabled i = true := by
        by_contra hoff
        have hcore := hs₂.cores i (by omega)
        rw [Bool.not_eq_true] at hoff
        rw [hcore.noBusy_iff.mpr (hcore.off hoff)] at hbusy
        cases hbusy
      simp only [Bool.false_eq_true, if_false, Bool.not_false]
      rw [hsame (by simp only [Function.update_self]; exact hbusy)]
      exact hon

theorem turn_on_iff {i : ℕ} {inp : TickInput} {done : Bool} (hs : s.Wf) (hi : s.next < s.numCores)
    (hnext : i = s.next) (hok : s.turn i inp done = .ok s') :
    s'.Enabled i = s.busyAfter inp := by
  subst hnext
  obtain ⟨-, s₁, s₂, hassign, hclock, hen⟩ := turn_enabled hs hi hok
  rw [hen, busyAfter, hassign]
  simp only [bind, Except.bind, hclock]

/-- Every core that has had its turn is on or has a coprocessor that is done. -/
structure Kept (s : CPU) : Prop where
  wf : s.Wf
  next : s.next ≤ s.numCores
  kept : ∀ i < s.next, s.coDone i = true ∨ s.Enabled i = true
  ended : s.ended = true → ∀ i < s.numCores, s.coDone i = true

theorem Kept.step {ev : Event} (hs : s.Kept) (hkeep : s.KeepsThread ev)
    (hstep : s.step ev = some s') : s'.Kept := by
  have hwf := hs.wf.step hstep
  cases step_cases hstep with
  | @turn inp done s₁ hended hnext hturn =>
    obtain ⟨hother, -⟩ := turn_enabled hs.wf hnext hturn
    have hon := turn_on_iff hs.wf hnext rfl hturn
    obtain ⟨-, hnum⟩ := hs.wf.quiet.turn hs.wf.sound hnext hturn
    have hrunning : s₁.ended = false := (turn_ended hturn).trans hended
    refine ⟨hwf, ?_, ?_, fun htrue => absurd htrue (by simp [hrunning])⟩
    · simp only [hnum]
      exact hnext
    · intro i hi
      by_cases hin : i = s.next
      · subst hin
        simp only [Function.update_self]
        rcases hkeep with hdone | hbusy
        · exact .inl hdone
        · exact .inr (hon.trans hbusy)
      · simp only [Function.update_of_ne hin, hother i hin]
        simp only [] at hi
        exact hs.kept i (by omega)
  | @finish net hended hnext =>
    obtain ⟨-, hen, hnum⟩ := finish_frame s net
    refine ⟨hwf, Nat.zero_le _, fun i hi => absurd hi (by simp), ?_⟩
    intro htrue i hi
    have hcoDone : (s.finish net).1.coDone = s.coDone := by
      rcases finish_cases s net with heq | heq
      · rw [heq]
      · rw [heq]
        rfl
    obtain ⟨hoff, -, -⟩ := finish_true htrue
    simp only [hnum] at hi
    simp only [hcoDone]
    rcases hs.kept i (by omega) with hdone | hon
    · exact hdone
    · rw [hoff i hi] at hon
      cases hon
  | @loadComplete i req c hended hnext hi hc =>
    exact ⟨hwf, hs.next, hs.kept, fun htrue => absurd htrue (by simp [setCore, hended])⟩

theorem Wf.staysOn_iff {ev : Event} (hs : s.Wf) (hstep : s.step ev = some s') :
    s.StaysOn ev s' ↔ s.KeepsThread ev := by
  cases step_cases hstep with
  | @turn inp done s₁ hended hnext hturn =>
    have hon : s₁.Enabled s.next = s.busyAfter inp := turn_on_iff hs hnext rfl hturn
    simp only [StaysOn, KeepsThread, hon]
    cases done with
    | true => simp
    | false => simp
  | finish _ _ => exact Iff.rfl
  | loadComplete _ _ _ _ => exact Iff.rfl

/-- A core stays on while its coprocessor has work, and the simulation does not
    end before the coprocessors are done, exactly in the runs in which a core
    whose coprocessor has work always keeps a thread. -/
theorem coproc_kept_iff {numCores numHarts MainThreadID StartAddr : ℕ} {tr : List (CPU × Event)}
    (hrun : Run step (init numCores numHarts MainThreadID StartAddr) tr s) :
    ((∀ p ∈ tr, ∀ s', p.1.step p.2 = some s' → p.1.StaysOn p.2 s') ∧
      (s.ended = true → ∀ i < s.numCores, s.coDone i = true)) ↔
      ∀ p ∈ tr, p.1.KeepsThread p.2 := by
  have hwf := (hrun.invariant_of_step Wf (init_wf ..) fun _ _ _ hs hstep => hs.step hstep).2
  constructor
  · rintro ⟨hstays, -⟩ p hp
    obtain ⟨s', hstep⟩ := hrun.step_mem p hp
    exact ((hwf p hp).staysOn_iff hstep).mp (hstays p hp s' hstep)
  · intro hkeep
    have hinit : (init numCores numHarts MainThreadID StartAddr).Kept :=
      ⟨init_wf .., Nat.zero_le _, fun i hi => absurd hi (by simp [init]),
        fun h => absurd h (by simp [init])⟩
    have hlast := (hrun.invariant Kept KeepsThread hinit
      (fun _ _ _ hs hkeep hstep => hs.step hkeep hstep) hkeep).1
    exact ⟨fun p hp s' hstep => ((hwf p hp).staysOn_iff hstep).mpr (hkeep p hp), hlast.ended⟩

theorem create_coproc_kept :
    ∃ tr s, Run step (init 1 2 1 4096) tr s ∧ (∀ p ∈ tr, p.1.KeepsThread p.2) ∧
      (∃ p ∈ tr, ∃ inp, p.2 = .turn inp false) ∧
      ∀ p ∈ tr, ∀ s', p.1.step p.2 = some s' → p.1.StaysOn p.2 s' := by
  have hsome : ((exec step (init 1 2 1 4096)
      [.turn (ecallTick 4096 (.create 7 8192)) false, .finish false]).map fun s => s.created) =
      some [(1, 0), (7, 1)] := by decide
  obtain ⟨s, hexec, -⟩ := Option.map_eq_some_iff.mp hsome
  have hrun := run_of_exec _ hexec
  have hkeep : ∀ p ∈ trace step (init 1 2 1 4096)
      [.turn (ecallTick 4096 (.create 7 8192)) false, .finish false], p.1.KeepsThread p.2 := by
    decide
  exact ⟨_, s, hrun, hkeep, ⟨_, List.mem_cons_self, _, rfl⟩, ((coproc_kept_iff hrun).mpr hkeep).1⟩

/-- The last thread of a core returns while the coprocessor has work: the core is
    switched off, and the simulation ends. -/
theorem coproc_dropped :
    ∃ tr s, Run step (init 1 1 1 4096) tr s ∧ s.ended = true ∧ s.coDone 0 = false ∧
      ∃ p ∈ tr, ∃ s', p.1.step p.2 = some s' ∧ ¬p.1.StaysOn p.2 s' := by
  have hsome : ((exec step (init 1 1 1 4096) [.turn retTick false, .finish false]).map fun s =>
      (s.ended, s.coDone 0)) = some (true, false) := by decide
  have hoff : ((step (init 1 1 1 4096) (.turn retTick false)).map fun s => s.Enabled 0) =
      some false := by decide
  obtain ⟨s, hexec, hstate⟩ := Option.map_eq_some_iff.mp hsome
  obtain ⟨s₁, hstep, hswitched⟩ := Option.map_eq_some_iff.mp hoff
  obtain ⟨hended, hdone⟩ := Prod.mk.inj hstate
  refine ⟨_, s, run_of_exec _ hexec, hended, hdone, (init 1 1 1 4096, .turn retTick false), ?_, s₁,
    hstep, ?_⟩
  · simp only [trace, hstep]
    exact List.mem_cons_self
  · intro hstays
    have hon : s₁.Enabled 0 = true := hstays rfl
    rw [hon] at hswitched
    cases hswitched

end CPU

end RevCPU.Sched
