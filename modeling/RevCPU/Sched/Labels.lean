import RevCPU.Sched.Threads

namespace RevCPU.Sched

open Lib

namespace CPU

variable {s s' : CPU}

/-- The state of a thread says where it is. -/
structure Labeled (s : CPU) : Prop where
  ready : ∀ t ∈ s.ReadyThreads, t.State = .READY
  blocked : ∀ t ∈ s.BlockedThreads, t.State = .BLOCKED
  completed : ∀ t ∈ s.CompletedThreads, t.State = .DONE
  running : ∀ i < s.numCores, ∀ h < (s.Procs i).numHarts, ∀ t,
    (s.Procs i).Harts h = some t → t.State = .RUNNING

/-- The end of `clockTick` finds a blocked thread that can proceed. -/
def Resumes (s : CPU) : Event → Prop
  | .finish _ => s.ReadyThreads = [] ∧ (s.BlockedThreads.any s.ThreadCanProceed) = true
  | _ => False

instance (s : CPU) (ev : Event) : Decidable (s.Resumes ev) :=
  match ev with
  | .turn _ _ => inferInstanceAs (Decidable False)
  | .finish _ => inferInstanceAs (Decidable (_ ∧ _))
  | .loadComplete _ _ => inferInstanceAs (Decidable False)

/-- Handling the threads that changed their state. -/
theorem Labeled.handled {ts : List RevThread} (hs : s.Labeled) (h : Handled s ts s') : s'.Labeled := by
  refine ⟨?_, ?_, ?_, ?_⟩
  · intro t ht
    rw [h.ready] at ht
    rcases List.mem_append.mp ht with ht | ht
    · exact hs.ready t ht
    · obtain ⟨u, -, rfl⟩ := List.mem_map.mp ht
      rfl
  · intro t ht
    rw [h.blocked] at ht
    rcases List.mem_append.mp ht with ht | ht
    · exact hs.blocked t ht
    · simpa using (List.mem_filter.mp ht).2
  · intro t ht
    rcases h.done t ht with ht | ⟨-, hst⟩
    · exact hs.completed t ht
    · exact hst
  · intro i hi
    rw [h.procs]
    exact hs.running i (h.numCores ▸ hi)

theorem Labeled.UpdateThreadAssignments {i : ℕ} (hs : s.Labeled)
    (hok : s.UpdateThreadAssignments i = .ok s') : s'.Labeled := by
  cases UpdateThreadAssignments_cases hok with
  | stay => exact hs
  | @assign t rest h hready hlt hidle =>
    refine ⟨?_, hs.blocked, hs.completed, ?_⟩
    · intro u hu
      exact hs.ready u (by rw [hready]; exact List.mem_cons_of_mem _ hu)
    · intro k hk j hj u hu
      by_cases hki : k = i
      · subst hki
        simp only [Function.update_self] at hj hu
        by_cases hjh : j = h
        · rw [hjh, Function.update_self] at hu
          rw [← Option.some.inj hu]
        · rw [Function.update_of_ne hjh] at hu
          exact hs.running k hk j hj u hu
      · simp only [Function.update_of_ne hki] at hj hu
        exact hs.running k hk j hj u hu

theorem Labeled.clockCore {i : ℕ} {inp : TickInput} (hs : s.Labeled) (hsound : s.Sound [])
    (hi : i < s.numCores) (hok : s.clockCore i inp = .ok s') : s'.Labeled := by
  cases clockCore_cases hok with
  | off _ => exact hs
  | @tick c hon htick =>
    obtain ⟨hnum, hharts⟩ := (hsound.ticked hi hon htick).outcome.harts
    refine ⟨hs.ready, hs.blocked, hs.completed, ?_⟩
    intro k hk j hj u hu
    by_cases hki : k = i
    · subst hki
      simp only [setCore, Function.update_self] at hj hu
      rw [hnum] at hj
      exact hs.running k hk j hj u (hharts j u hu)
    · simp only [setCore, Function.update_of_ne hki] at hj hu
      exact hs.running k hk j hj u hu

/-- A turn of a core keeps the labels. -/
theorem Labeled.turn {i : ℕ} {inp : TickInput} {done : Bool} (hs : s.Labeled) (hsound : s.Sound [])
    (hi : i < s.numCores) (hok : s.turn i inp done = .ok s') : s'.Labeled := by
  obtain ⟨s₁, s₂, s₃, hassign, hclock, hhandle, heq, hs₁, -, -, hnum, -⟩ := turn_parts hsound hi hok
  have h₂ : s₂.Labeled := (hs.UpdateThreadAssignments hassign).clockCore hs₁ (by omega) hclock
  have hstart : { s₂ with
      Procs := Function.update s₂.Procs i { s₂.Procs i with ThreadsThatChangedState := [] } }.Labeled := by
    refine ⟨h₂.ready, h₂.blocked, h₂.completed, ?_⟩
    intro k hk
    by_cases hki : k = i
    · subst hki
      simp only [Function.update_self]
      exact h₂.running k hk
    · simp only [Function.update_of_ne hki]
      exact h₂.running k hk
  have h₃ : s₃.Labeled := hstart.handled (handleThreads_handled hhandle)
  rw [heq]
  split
  · exact ⟨h₃.ready, h₃.blocked, h₃.completed, h₃.running⟩
  · exact h₃

/-- The end of `clockTick` keeps the labels if and only if it resumes no thread. -/
theorem Labeled.finish_iff (hs : s.Labeled) (net : Bool) :
    (s.finish net).1.Labeled ↔ ¬s.Resumes (.finish net) := by
  constructor
  · rintro hlab ⟨hready, hany⟩
    obtain ⟨t, ht, hcan⟩ := List.any_eq_true.mp hany
    have hnonempty : s.BlockedThreads ≠ [] := List.ne_nil_of_mem ht
    have hmem : t ∈ (s.finish net).1.ReadyThreads := by
      simp only [finish, hready, ne_eq, not_true_eq_false, if_false, hnonempty, not_false_eq_true,
        if_true, CheckBlockedThreads, List.nil_append]
      exact List.mem_filter.mpr ⟨ht, hcan⟩
    have hst := hlab.ready t hmem
    rw [hs.blocked t ht] at hst
    cases hst
  · intro hnot
    by_cases hready : s.ReadyThreads = []
    · have hnone : s.BlockedThreads.filter s.ThreadCanProceed = [] := by
        rw [List.filter_eq_nil_iff]
        intro t ht hcan
        exact hnot ⟨hready, List.any_eq_true.mpr ⟨t, ht, hcan⟩⟩
      rcases finish_cases s net with heq | heq
      · rw [heq]
        exact hs
      · rw [heq]
        refine ⟨?_, ?_, hs.completed, hs.running⟩
        · simp only [CheckBlockedThreads, hnone, List.append_nil]
          exact hs.ready
        · intro t ht
          exact hs.blocked t (List.mem_filter.mp ht).1
    · have heq : (s.finish net).1 = s := by
        simp only [finish, hready, ne_eq, not_false_eq_true, if_true]
      rw [heq]
      exact hs

theorem Labeled.step_iff {ev : Event} (hs : s.Labeled) (hwf : s.Wf) (hstep : s.step ev = some s') :
    s'.Labeled ↔ ¬s.Resumes ev := by
  cases step_cases hstep with
  | @turn inp done s₁ hended hnext hturn =>
    have h := hs.turn hwf.sound hnext hturn
    exact ⟨fun _ hres => hres, fun _ => ⟨h.ready, h.blocked, h.completed, h.running⟩⟩
  | @finish net hended hnext =>
    rw [← hs.finish_iff net]
    exact ⟨fun h => ⟨h.ready, h.blocked, h.completed, h.running⟩,
      fun h => ⟨h.ready, h.blocked, h.completed, h.running⟩⟩
  | @loadComplete i req c hended hnext hi hc =>
    refine ⟨fun _ hres => hres, fun _ => ⟨hs.ready, hs.blocked, hs.completed, ?_⟩⟩
    obtain ⟨q, hq⟩ := (CoreState.MarkLoadComplete_booked hc).proc
    intro k hk
    by_cases hki : k = i
    · subst hki
      simp only [setCore, Function.update_self, hq]
      exact hs.running k hk
    · simp only [setCore, Function.update_of_ne hki]
      exact hs.running k hk

theorem init_labeled (numCores numHarts MainThreadID StartAddr : ℕ) :
    (init numCores numHarts MainThreadID StartAddr).Labeled := by
  constructor <;> simp [init]

/-- The state of every thread says where it is in all states of a run, if and only
    if no thread is resumed in it. -/
theorem labeled_iff {numCores numHarts MainThreadID StartAddr : ℕ} {tr : List (CPU × Event)}
    (hrun : Run step (init numCores numHarts MainThreadID StartAddr) tr s) :
    (s.Labeled ∧ ∀ p ∈ tr, p.1.Labeled) ↔ ∀ p ∈ tr, ¬p.1.Resumes p.2 := by
  induction hrun with
  | nil =>
    simp only [List.not_mem_nil, false_implies, implies_true, and_true, iff_true]
    exact init_labeled ..
  | @snoc tr s s' ev hrun hstep ih =>
    have hwf := run_wf hrun
    simp only [List.mem_append, List.mem_singleton, or_imp, forall_and, forall_eq]
    constructor
    · rintro ⟨hlast, hall, hprev⟩
      exact ⟨ih.mp ⟨hprev, hall⟩, (hprev.step_iff hwf hstep).mp hlast⟩
    · rintro ⟨hall, hlast⟩
      obtain ⟨hprev, hlab⟩ := ih.mpr hall
      exact ⟨(hprev.step_iff hwf hstep).mpr hlast, hlab, hprev⟩

theorem create_labeled :
    ∃ tr s, Run step (init 1 2 1 4096) tr s ∧ (∀ p ∈ tr, ¬p.1.Resumes p.2) ∧
      s.created = [(1, 0), (7, 1)] ∧ s.Labeled := by
  have hsome : ((exec step (init 1 2 1 4096)
      [.turn (ecallTick 4096 (.create 7 8192)) true, .finish false]).map fun s => s.created) =
      some [(1, 0), (7, 1)] := by decide
  obtain ⟨s, hexec, hcreated⟩ := Option.map_eq_some_iff.mp hsome
  have hrun := run_of_exec _ hexec
  have hnone : ∀ p ∈ trace step (init 1 2 1 4096)
      [.turn (ecallTick 4096 (.create 7 8192)) true, .finish false], ¬p.1.Resumes p.2 := by
    decide
  exact ⟨_, s, hrun, hnone, hcreated, ((labeled_iff hrun).mpr hnone).1⟩

/-- The main thread creates a thread and joins it; it is still labelled `BLOCKED`
    when it is ready again. -/
theorem resumed_blocked :
    ∃ tr s, Run step (init 1 2 1 4096) tr s ∧ ¬s.Labeled := by
  have hsome : ((exec step (init 1 2 1 4096)
      [.turn (ecallTick 4096 (.create 7 8192)) true, .finish false,
        .turn (ecallTick 4100 (.join 7)) true, .finish false,
        .turn retTick true, .finish false]).map fun s => s.ReadyThreads.map RevThread.State) =
      some [.BLOCKED] := by decide
  obtain ⟨s, hexec, hstates⟩ := Option.map_eq_some_iff.mp hsome
  refine ⟨_, s, run_of_exec _ hexec, fun hlab => ?_⟩
  obtain ⟨t, ht, hst⟩ : ∃ t ∈ s.ReadyThreads, t.State = .BLOCKED := by
    rw [← List.mem_map, hstates]
    exact List.mem_singleton_self _
  rw [hlab.ready t ht] at hst
  cases hst

end CPU

end RevCPU.Sched
