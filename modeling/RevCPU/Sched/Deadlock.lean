import RevCPU.Lib.Cyclic
import RevCPU.Sched.CoProc
import RevCPU.Sched.Join

namespace RevCPU.Sched

open Lib

namespace CPU

variable {s s' : CPU} {ts : List RevThread}

/-- The thread `A` has called `pthread_join` for the thread `B`. -/
def JoinsOn (s : CPU) (A B : ℕ) : Prop := ∃ a0, (A, a0) ∈ s.joins ∧ a0 % 2 ^ 32 = B

/-- A blocked thread has called `pthread_join` for the thread that it waits for. -/
def Blocks (s : CPU) (ts : List RevThread) : Prop :=
  ∀ t, t ∈ s.BlockedThreads ∨ t ∈ ts ∧ t.State = .BLOCKED → s.JoinsOn t.ID t.WaitingToJoinTID

/-- The threads that a tick of a core blocks, and the joins that it keeps. -/
theorem outcome_blocks {c c' : CoreState} (hout : CoreState.Outcome c c') :
    (∀ q ∈ c.joins, q ∈ c'.joins) ∧
      ∀ t ∈ c'.proc.ThreadsThatChangedState, t.State = .BLOCKED →
        t ∈ c.proc.ThreadsThatChangedState ∨
          ∃ a0, (t.ID, a0) ∈ c'.joins ∧ a0 % 2 ^ 32 = t.WaitingToJoinTID := by
  have hjoins : c'.joins = c'.view.joins := rfl
  have hchanged : c'.proc.ThreadsThatChangedState = c'.view.changed := rfl
  rw [hjoins, hchanged]
  cases hout with
  | stay hview =>
    rw [hview]
    exact ⟨fun _ hq => hq, fun _ ht _ => .inl ht⟩
  | create hview =>
    rw [hview]
    refine ⟨fun _ hq => hq, fun t ht hst => ?_⟩
    rcases List.mem_append.mp ht with ht | ht
    · exact .inl ht
    · rw [List.mem_singleton.mp ht] at hst
      cases hst
  | finish _ _ hview =>
    rw [hview]
    refine ⟨fun _ hq => hq, fun t ht hst => ?_⟩
    rcases List.mem_append.mp ht with ht | ht
    · exact .inl ht
    · rw [List.mem_singleton.mp ht] at hst
      cases hst
  | createFinish _ _ hview =>
    rw [hview]
    refine ⟨fun _ hq => hq, fun t ht hst => ?_⟩
    rcases List.mem_append.mp ht with ht | ht
    · rcases List.mem_append.mp ht with ht | ht
      · exact .inl ht
      · rw [List.mem_singleton.mp ht] at hst
        cases hst
    · rw [List.mem_singleton.mp ht] at hst
      cases hst
  | @join h a0 u _ _ hview _ =>
    rw [hview]
    refine ⟨fun _ hq => List.mem_append_left _ hq, fun t ht _ => ?_⟩
    rcases List.mem_append.mp ht with ht | ht
    · exact .inl ht
    · refine .inr ⟨a0, List.mem_append_right _ (List.mem_singleton.mpr ?_), ?_⟩
      · rw [List.mem_singleton.mp ht]
      · rw [List.mem_singleton.mp ht]

theorem Blocks.clockCore {i : ℕ} {inp : TickInput} (hs : s.Blocks []) (hsound : s.Sound [])
    (hquiet : (s.Procs i).ThreadsThatChangedState = []) (hi : i < s.numCores)
    (hok : s.clockCore i inp = .ok s') : s'.Blocks (s'.Procs i).ThreadsThatChangedState := by
  cases clockCore_cases hok with
  | off _ =>
    rw [hquiet]
    exact hs
  | @tick c hon htick =>
    obtain ⟨hkeep, hnew⟩ := outcome_blocks (hsound.ticked hi hon htick).outcome
    simp only [setCore, Function.update_self]
    rintro t (ht | ⟨ht, hst⟩)
    · obtain ⟨a0, hjoin, htid⟩ := hs t (.inl ht)
      exact ⟨a0, hkeep _ hjoin, htid⟩
    · rcases hnew t ht hst with hold | hjoin
      · change t ∈ (s.Procs i).ThreadsThatChangedState at hold
        rw [hquiet] at hold
        cases hold
      · exact hjoin

theorem Blocks.handled (hs : s.Blocks ts) (h : Handled s ts s') : s'.Blocks [] := by
  rintro t (ht | ⟨ht, -⟩)
  · rw [h.blocked, List.mem_append, List.mem_filter, decide_eq_true_eq] at ht
    obtain ⟨a0, hjoin, htid⟩ := hs t ht
    exact ⟨a0, by rw [h.joins]; exact hjoin, htid⟩
  · cases ht

theorem Blocks.turn {i : ℕ} {inp : TickInput} {done : Bool} (hs : s.Blocks []) (hwf : s.Wf)
    (hi : i < s.numCores) (hok : s.turn i inp done = .ok s') : s'.Blocks [] := by
  obtain ⟨s₁, s₂, s₃, hassign, hclock, hhandle, heq, hs₁, -, -, hnum, -⟩ :=
    turn_parts hwf.sound hi hok
  obtain ⟨hblocks, hquiet⟩ : s₁.Blocks [] ∧ (s₁.Procs i).ThreadsThatChangedState = [] := by
    cases UpdateThreadAssignments_cases hassign with
    | stay => exact ⟨hs, hwf.quiet i hi⟩
    | assign _ _ _ =>
      refine ⟨hs, ?_⟩
      simp only [Function.update_self]
      exact hwf.quiet i hi
  have h₂ := hblocks.clockCore hs₁ hquiet (by omega) hclock
  have hstart : { s₂ with
      Procs := Function.update s₂.Procs i
        { s₂.Procs i with ThreadsThatChangedState := [] } }.Blocks
      (s₂.Procs i).ThreadsThatChangedState := h₂
  have h₃ := hstart.handled (handleThreads_handled hhandle)
  rw [heq]
  split
  · exact h₃
  · exact h₃

/-- What holds between two steps about the threads that wait and the cores that
    are on. -/
structure Settled (s : CPU) : Prop where
  wf : s.Wf
  blocks : s.Blocks []
  on : ∀ i < s.numCores, s.Enabled i = !(s.Procs i).HasNoBusyHarts
  created : s.created ≠ []

theorem Settled.turn_on {i : ℕ} {inp : TickInput} {done : Bool} (hs : s.Settled)
    (hi : i < s.numCores) (hok : s.turn i inp done = .ok s') :
    ∀ k < s'.numCores, s'.Enabled k = !(s'.Procs k).HasNoBusyHarts := by
  obtain ⟨hother, s₁, s₂, hassign, hclock, hen⟩ := turn_enabled hs.wf hi hok
  obtain ⟨s₁', s₂', s₃, hassign', hclock', -, heq, -, -, -, -, -, hnum, hprocs⟩ :=
    turn_parts hs.wf.sound hi hok
  obtain rfl := Except.ok.inj (hassign.symm.trans hassign')
  obtain rfl := Except.ok.inj (hclock.symm.trans hclock')
  obtain ⟨hlast, hcores⟩ : s'.Procs = s₃.Procs ∧ s'.numCores = s₃.numCores := by
    rw [heq]
    split
    · exact ⟨rfl, rfl⟩
    · exact ⟨rfl, rfl⟩
  intro k hk
  by_cases hki : k = i
  · subst hki
    rw [hen, hlast, hprocs, Function.update_self]
    rfl
  · have hfar : s'.Procs k = s.Procs k := by
      rw [hlast, hprocs, Function.update_of_ne hki, clockCore_other hclock hki,
        UpdateThreadAssignments_other hassign hki]
    rw [hother k hki, hfar]
    exact hs.on k (by omega)

theorem Settled.step {ev : Event} (hs : s.Settled) (hstep : s.step ev = some s') : s'.Settled := by
  have hwf := hs.wf.step hstep
  have hcreated : s'.created ≠ [] := by
    rcases step_created hs.wf hstep with hkeep | ⟨_, _, _, NewTID, _, _, _, _, hnew⟩
    · rw [hkeep]
      exact hs.created
    · rw [hnew]
      exact List.append_ne_nil_of_left_ne_nil hs.created _
  cases step_cases hstep with
  | @turn inp done s₁ _ hnext hturn =>
    have hblocks := hs.blocks.turn hs.wf hnext hturn
    have hon := hs.turn_on hnext hturn
    exact ⟨hwf, hblocks, hon, hcreated⟩
  | @finish net _ _ =>
    obtain ⟨hprocs, hen, hnum⟩ := finish_frame s net
    refine ⟨hwf, ?_, ?_, hcreated⟩
    · rcases finish_cases s net with heq | heq
      · rw [heq]
        exact hs.blocks
      · rw [heq]
        rintro t (ht | ⟨ht, -⟩)
        · exact hs.blocks t (.inl (List.mem_of_mem_filter ht))
        · cases ht
    · intro i hi
      simp only [hnum] at hi
      simp only [hen, hprocs]
      exact hs.on i hi
  | @loadComplete k req c _ _ hk hc =>
    have hbooked := CoreState.MarkLoadComplete_booked hc
    obtain ⟨q, hq⟩ := hbooked.proc
    have hproc : c.proc = { s.Procs k with LSQueue := q } := hq
    refine ⟨hwf, ?_, ?_, hcreated⟩
    · intro t ht
      obtain ⟨a0, hjoin, htid⟩ := hs.blocks t ht
      exact ⟨a0, by simp only [setCore, hbooked.joins]; exact hjoin, htid⟩
    · intro i hi
      by_cases hik : i = k
      · subst hik
        simp only [setCore, Function.update_self, hproc]
        exact hs.on i hi
      · simp only [setCore, Function.update_of_ne hik]
        exact hs.on i hi

theorem init_settled (numCores numHarts MainThreadID StartAddr : ℕ) :
    (init numCores numHarts MainThreadID StartAddr).Settled := by
  refine ⟨init_wf .., ?_, ?_, List.cons_ne_nil _ _⟩
  · rintro t (ht | ⟨ht, -⟩)
    · cases ht
    · cases ht
  · intro i _
    simp [init, RevProc.HasNoBusyHarts]

theorem run_settled {numCores numHarts MainThreadID StartAddr : ℕ} {tr : List (CPU × Event)}
    (hrun : Run step (init numCores numHarts MainThreadID StartAddr) tr s) : s.Settled :=
  (hrun.invariant_of_step Settled (init_settled ..) fun _ _ _ hs hstep => hs.step hstep).1

/-- A thread is ready or on a hart. -/
def Active (s : CPU) : Prop :=
  s.ReadyThreads ≠ [] ∨
    ∃ i < s.numCores, ∃ h < (s.Procs i).numHarts, (s.Procs i).Harts h ≠ none

/-- Without an active thread every thread is blocked or completed. -/
theorem Wf.rests (hs : s.Wf) (hids : (s.created.map Prod.fst).Nodup) (hrest : ¬s.Active)
    {q : ℕ × ℕ} (hq : q ∈ s.created) :
    (∃ t ∈ s.BlockedThreads, t.key = q) ∨ ∃ t ∈ s.CompletedThreads, t.key = q := by
  have hone : s.places q = 1 := by
    rw [hs.places_count hids q]
    exact List.count_eq_one_of_mem (List.Nodup.of_map _ hids) hq
  have hready : s.ReadyThreads = [] := by
    by_contra hne
    exact hrest (.inl hne)
  have hharts : ∑ i ∈ Finset.range s.numCores,
      hartsOcc q (s.Procs i).numHarts (s.Procs i).Harts = 0 := by
    refine Finset.sum_eq_zero fun i hi => Finset.sum_eq_zero fun h hh => ?_
    have hnone : (s.Procs i).Harts h = none := by
      by_contra hne
      exact hrest (.inr ⟨i, Finset.mem_range.mp hi, h, Finset.mem_range.mp hh, hne⟩)
    rw [hnone, hartOcc]
  rw [places, hready, hharts, occ_nil] at hone
  have hpos : 0 < Sched.occ q s.BlockedThreads ∨ 0 < Sched.occ q s.CompletedThreads := by omega
  rcases hpos with hpos | hpos
  · obtain ⟨t, ht, hkey⟩ := List.mem_map.mp (List.count_pos_iff.mp hpos)
    exact .inl ⟨t, ht, hkey⟩
  · obtain ⟨t, ht, hkey⟩ := List.mem_map.mp (List.count_pos_iff.mp hpos)
    exact .inr ⟨t, ht, hkey⟩

/-- What a blocked thread that cannot proceed waits for. -/
theorem not_proceed {t : RevThread} (hno : s.ThreadCanProceed t = false) :
    t.WaitingToJoinTID ≠ INVALID_TID ∧ ∀ u ∈ s.CompletedThreads, u.ID ≠ t.WaitingToJoinTID := by
  unfold ThreadCanProceed at hno
  split at hno
  · rename_i hvalid
    refine ⟨hvalid, fun u hu heq => ?_⟩
    rw [List.any_eq_false] at hno
    exact hno u hu (beq_iff_eq.mpr heq)
  · cases hno

/-- No thread is active, and every blocked thread waits for one that is not
    completed. -/
structure Stuck (s : CPU) : Prop where
  ended : s.ended = false
  rests : ¬s.Active
  blocked : s.BlockedThreads ≠ []
  waits : ∀ t ∈ s.BlockedThreads, s.ThreadCanProceed t = false

/-- What a thread that waits in vain has joined is a circle of joins or a thread
    that was not created. -/
theorem Stuck.cause (hstuck : s.Stuck) (hs : s.Settled) (hids : (s.created.map Prod.fst).Nodup) :
    (∃ A, Relation.TransGen s.JoinsOn A A) ∨
      ∃ A B, s.JoinsOn A B ∧ B ≠ INVALID_TID ∧ B ∉ s.created.map Prod.fst := by
  by_cases hall : ∀ t ∈ s.BlockedThreads, t.WaitingToJoinTID ∈ s.created.map Prod.fst
  · left
    have hnext : ∀ A ∈ s.BlockedThreads.map RevThread.ID,
        ∃ B ∈ s.BlockedThreads.map RevThread.ID, s.JoinsOn A B := by
      intro A hA
      obtain ⟨t, ht, rfl⟩ := List.mem_map.mp hA
      obtain ⟨-, hopen⟩ := not_proceed (hstuck.waits t ht)
      obtain ⟨q, hq, hid⟩ := List.mem_map.mp (hall t ht)
      rcases hs.wf.rests hids hstuck.rests hq with ⟨u, hu, hkey⟩ | ⟨u, hu, hkey⟩
      · have huid : u.ID = t.WaitingToJoinTID := (congrArg Prod.fst hkey).trans hid
        exact ⟨t.WaitingToJoinTID, List.mem_map.mpr ⟨u, hu, huid⟩, hs.blocks t (.inl ht)⟩
      · exact absurd ((congrArg Prod.fst hkey).trans hid) (hopen u hu)
    obtain ⟨A, -, hcircle⟩ := exists_circle (by simpa using hstuck.blocked) hnext
    exact ⟨A, hcircle⟩
  · right
    push Not at hall
    obtain ⟨t, ht, hnew⟩ := hall
    exact ⟨t.ID, t.WaitingToJoinTID, hs.blocks t (.inl ht), (not_proceed (hstuck.waits t ht)).1,
      hnew⟩

/-- An active thread keeps `clockTick` from returning true. -/
theorem Settled.finish_active (hs : s.Settled) {net : Bool} (hactive : s.Active) :
    (s.finish net).2 = false := by
  by_contra htrue
  rw [Bool.not_eq_false] at htrue
  obtain ⟨hoff, hready, -⟩ := finish_true htrue
  rcases hactive with hne | ⟨i, hi, h, hh, hheld⟩
  · unfold finish at htrue
    simp [hne] at htrue
  · have hcore := hs.wf.sound.cores i hi
    exact hheld (hcore.off (hoff i hi) h hh)

/-- The end of `clockTick` leaves an active thread, or all threads are completed,
    or the system is stuck. -/
theorem Settled.finish_rests {net : Bool} (hs : s.Settled) (hids : (s.created.map Prod.fst).Nodup)
    (hended : s.ended = false) :
    (s.finish net).1.Active ∧ (s.finish net).2 = false ∨
      (∀ q ∈ s.created, ∃ t ∈ s.CompletedThreads, t.key = q) ∧ (s.finish net).1 = s ∧
        (s.finish net).2 = !net ∨
      (s.finish net).1.Stuck ∧ (s.finish net).2 = false := by
  by_cases hready : s.ReadyThreads = []
  swap
  · have hsame : s.finish net = (s, false) := by simp [finish, hready]
    exact .inl ⟨by rw [hsame]; exact .inl hready, by rw [hsame]⟩
  by_cases hblocked : s.BlockedThreads = []
  swap
  · have hcheck : s.finish net = (s.CheckBlockedThreads, false) := by
      simp [finish, hready, hblocked]
    rw [hcheck]
    by_cases hactive : s.CheckBlockedThreads.Active
    · exact .inl ⟨hactive, rfl⟩
    · refine .inr (.inr ⟨⟨hended, hactive, ?_, ?_⟩, rfl⟩)
      · intro hnone
        obtain ⟨t, ht⟩ := List.exists_mem_of_ne_nil _ hblocked
        have hno : s.CheckBlockedThreads.ReadyThreads = [] := by
          by_contra hne
          exact hactive (.inl hne)
        by_cases hcan : s.ThreadCanProceed t = true
        · have hmem : t ∈ s.CheckBlockedThreads.ReadyThreads :=
            List.mem_append_right _ (List.mem_filter.mpr ⟨ht, hcan⟩)
          rw [hno] at hmem
          cases hmem
        · have hmem : t ∈ s.CheckBlockedThreads.BlockedThreads :=
            List.mem_filter.mpr ⟨ht, by simpa using hcan⟩
          rw [hnone] at hmem
          cases hmem
      · intro t ht
        have hno := (List.mem_filter.mp ht).2
        rw [Bool.not_eq_true'] at hno
        exact hno
  · have hsame : s.finish net = (s, (List.range s.numCores).all (fun i => !s.Enabled i) && !net &&
        s.CompletedThreads ≠ []) := by
      simp [finish, hready, hblocked]
    by_cases hactive : s.Active
    · have hfalse : (s.finish net).2 = false := hs.finish_active hactive
      exact .inl ⟨by rw [hsame]; exact hactive, hfalse⟩
    · have hall : ∀ q ∈ s.created, ∃ t ∈ s.CompletedThreads, t.key = q := by
        intro q hq
        rcases hs.wf.rests hids hactive hq with ⟨t, ht, -⟩ | hdone
        · rw [hblocked] at ht
          cases ht
        · exact hdone
      have hdone : s.CompletedThreads ≠ [] := by
        obtain ⟨q, hq⟩ := List.exists_mem_of_ne_nil _ hs.created
        obtain ⟨t, ht, -⟩ := hall q hq
        exact List.ne_nil_of_mem ht
      have hoff : (List.range s.numCores).all (fun i => !s.Enabled i) = true := by
        rw [List.all_eq_true]
        intro i hi
        have hlt := List.mem_range.mp hi
        have hno : (s.Procs i).HasNoBusyHarts = true :=
          (hs.wf.sound.cores i hlt).noBusy_iff.mpr fun h hh => by
            by_contra hheld
            exact hactive (.inr ⟨i, hlt, h, hh, hheld⟩)
        rw [hs.on i hlt, hno]
        rfl
      refine .inr (.inl ⟨hall, by rw [hsame], ?_⟩)
      rw [hsame, hoff]
      simp [hdone]

/-- After each call of `clockTick` a thread is ready or on a hart, or all threads are
    completed and it has returned true if the network is empty, or the threads
    wait for each other in a circle or for a thread that was not created. -/
theorem progress_or_stuck {numCores numHarts MainThreadID StartAddr : ℕ} {tr : List (CPU × Event)}
    (hrun : Run step (init numCores numHarts MainThreadID StartAddr) tr s)
    (hids : (s.created.map Prod.fst).Nodup) {net : Bool} (hstep : s.step (.finish net) = some s') :
    s'.Active ∧ s'.ended = false ∨
      (∀ q ∈ s'.created, ∃ t ∈ s'.CompletedThreads, t.key = q) ∧ s'.ended = !net ∨
      s'.Stuck ∧ ((∃ A, Relation.TransGen s'.JoinsOn A A) ∨
        ∃ A B, s'.JoinsOn A B ∧ B ≠ INVALID_TID ∧ B ∉ s'.created.map Prod.fst) := by
  have hs := run_settled hrun
  have hs' := hs.step hstep
  cases step_cases hstep with
  | @finish _ hended _ =>
    rcases hs.finish_rests hids hended with ⟨hactive, hfalse⟩ | ⟨hall, hsame, hrtn⟩ |
      ⟨hstuck, hfalse⟩
    · exact .inl ⟨hactive, hfalse⟩
    · refine .inr (.inl ⟨?_, hrtn⟩)
      simp only [hsame]
      exact hall
    · have hstuck' : CPU.Stuck { (s.finish net).1 with next := 0, ended := (s.finish net).2 } :=
        ⟨hfalse, hstuck.rests, hstuck.blocked, hstuck.waits⟩
      have hcreated : (s.finish net).1.created = s.created := by
        rcases finish_cases s net with heq | heq
        · rw [heq]
        · rw [heq]
          rfl
      exact .inr (.inr ⟨hstuck', hstuck'.cause hs' (by simpa only [hcreated] using hids)⟩)

/-- The main thread creates a second one, and each joins the other. -/
def crossed : List Event :=
  [.turn (ecallTick 4096 (.create 7 8192)) true, .finish false,
    .turn (ecallTick 4100 (.join 7)) true, .finish false,
    .turn (ecallTick 8192 (.join 1)) true]

theorem crossed_progress_or_stuck :
    ∃ tr s s', Run step (init 1 1 1 4096) tr s ∧ (s.created.map Prod.fst).Nodup ∧
      s.step (.finish false) = some s' ∧ s'.Stuck ∧
      ((∃ A, Relation.TransGen s'.JoinsOn A A) ∨
        ∃ A B, s'.JoinsOn A B ∧ B ≠ INVALID_TID ∧ B ∉ s'.created.map Prod.fst) := by
  have hsome : ((exec step (init 1 1 1 4096) crossed).bind fun s =>
      (s.step (.finish false)).map fun s' =>
        ((s.created, s'.created), (s'.ReadyThreads.length, s'.CompletedThreads.length),
          s'.numCores, (s'.Procs 0).numHarts, ((s'.Procs 0).Harts 0).isSome)) =
      some (([(1, 0), (7, 1)], [(1, 0), (7, 1)]), (0, 0), 1, 1, false) := by decide
  obtain ⟨s, hexec, hstate⟩ := Option.bind_eq_some_iff.mp hsome
  obtain ⟨s', hstep, hstate⟩ := Option.map_eq_some_iff.mp hstate
  simp only [Prod.mk.injEq] at hstate
  obtain ⟨⟨hcreated, hcreated'⟩, ⟨hready, hcompleted⟩, hcores, hharts, hnone⟩ := hstate
  have hids : (s.created.map Prod.fst).Nodup := by
    rw [hcreated]
    decide
  refine ⟨_, s, s', run_of_exec _ hexec, hids, hstep, ?_⟩
  rcases progress_or_stuck (run_of_exec _ hexec) hids hstep with ⟨hactive, -⟩ | ⟨hall, -⟩ | hstuck
  · rcases hactive with hne | ⟨i, hi, h, hh, hheld⟩
    · exact absurd (List.length_eq_zero_iff.mp hready) hne
    · obtain rfl : i = 0 := by omega
      obtain rfl : h = 0 := by omega
      exact absurd (by simpa using hnone) hheld
  · obtain ⟨t, ht, -⟩ := hall (1, 0) (by rw [hcreated']; decide)
    rw [List.length_eq_zero_iff.mp hcompleted] at ht
    cases ht
  · exact hstuck

/-- The threads are where they were. -/
structure SameThreads (s s' : CPU) : Prop where
  numCores : s'.numCores = s.numCores
  numHarts : ∀ i, (s'.Procs i).numHarts = (s.Procs i).numHarts
  harts : ∀ i, (s'.Procs i).Harts = (s.Procs i).Harts
  ready : s'.ReadyThreads = s.ReadyThreads
  blocked : s'.BlockedThreads = s.BlockedThreads
  completed : s'.CompletedThreads = s.CompletedThreads
  created : s'.created = s.created
  ended : s'.ended = s.ended

theorem SameThreads.trans {s₁ : CPU} (h : SameThreads s s₁) (h' : SameThreads s₁ s') :
    SameThreads s s' :=
  ⟨h'.numCores.trans h.numCores, fun i => (h'.numHarts i).trans (h.numHarts i),
    fun i => (h'.harts i).trans (h.harts i), h'.ready.trans h.ready, h'.blocked.trans h.blocked,
    h'.completed.trans h.completed, h'.created.trans h.created, h'.ended.trans h.ended⟩

theorem SameThreads.stuck (h : SameThreads s s') (hs : s.Stuck) : s'.Stuck := by
  refine ⟨h.ended.trans hs.ended, ?_, by rw [h.blocked]; exact hs.blocked, ?_⟩
  · rintro (hready | ⟨i, hi, g, hg, hheld⟩)
    · rw [h.ready] at hready
      exact hs.rests (.inl hready)
    · rw [h.numCores] at hi
      rw [h.numHarts] at hg
      rw [h.harts] at hheld
      exact hs.rests (.inr ⟨i, hi, g, hg, hheld⟩)
  · intro t ht
    rw [h.blocked] at ht
    have hwaits := hs.waits t ht
    unfold ThreadCanProceed at hwaits ⊢
    rw [h.completed]
    exact hwaits

/-- A turn of a core does nothing when no thread is active. -/
theorem Settled.turn_same {i : ℕ} {inp : TickInput} {done : Bool} (hs : s.Settled)
    (hrests : ¬s.Active) (hi : i < s.numCores) (hok : s.turn i inp done = .ok s') :
    SameThreads s s' := by
  have hcore := hs.wf.sound.cores i hi
  have hready : s.ReadyThreads = [] := by
    by_contra hne
    exact hrests (.inl hne)
  have hno : (s.Procs i).HasNoBusyHarts = true := hcore.noBusy_iff.mpr fun h hh => by
    by_contra hheld
    exact hrests (.inr ⟨i, hi, h, hh, hheld⟩)
  have hoff : s.Enabled i = false := by
    rw [hs.on i hi, hno]
    rfl
  obtain ⟨s₁, hassign, hok⟩ := bind_eq_ok.mp hok
  obtain ⟨s₂, hclock, hok⟩ := bind_eq_ok.mp hok
  obtain ⟨s₃, hhandle, hok⟩ := bind_eq_ok.mp hok
  obtain rfl := Except.ok.inj hok
  have h₁ : s₁ = s := by
    cases UpdateThreadAssignments_cases hassign with
    | stay => rfl
    | assign hhead _ _ =>
      rw [hready] at hhead
      cases hhead
  subst h₁
  have h₂ : s₂ = s₁ := by
    cases clockCore_cases hclock with
    | off _ => rfl
    | tick hon _ =>
      rw [hoff] at hon
      cases hon
  subst h₂
  unfold HandleThreadStateChangesForProc at hhandle
  rw [hs.wf.quiet i hi] at hhandle
  obtain rfl := Except.ok.inj hhandle
  have hkept : ∀ k, (Function.update s₂.Procs i
        { s₂.Procs i with ThreadsThatChangedState := [] } k).numHarts = (s₂.Procs k).numHarts ∧
      (Function.update s₂.Procs i
        { s₂.Procs i with ThreadsThatChangedState := [] } k).Harts = (s₂.Procs k).Harts := by
    intro k
    by_cases hki : k = i
    · rw [hki, Function.update_self]
      exact ⟨rfl, rfl⟩
    · rw [Function.update_of_ne hki]
      exact ⟨rfl, rfl⟩
  split
  · exact ⟨rfl, fun k => (hkept k).1, fun k => (hkept k).2, rfl, rfl, rfl, rfl, rfl⟩
  · exact ⟨rfl, fun k => (hkept k).1, fun k => (hkept k).2, rfl, rfl, rfl, rfl, rfl⟩

theorem Stuck.step {ev : Event} (hstuck : s.Stuck) (hs : s.Settled)
    (hstep : s.step ev = some s') : SameThreads s s' := by
  cases step_cases hstep with
  | @turn inp done s₁ _ hnext hturn =>
    have hsame := hs.turn_same hstuck.rests hnext hturn
    exact ⟨hsame.numCores, hsame.numHarts, hsame.harts, hsame.ready, hsame.blocked,
      hsame.completed, hsame.created, hsame.ended⟩
  | @finish net _ _ =>
    have hready : s.ReadyThreads = [] := by
      by_contra hne
      exact hstuck.rests (.inl hne)
    have hcheck : s.finish net = (s.CheckBlockedThreads, false) := by
      simp [CPU.finish, hready, hstuck.blocked]
    have hnone : s.BlockedThreads.filter s.ThreadCanProceed = [] := by
      rw [List.filter_eq_nil_iff]
      intro t ht
      simp [hstuck.waits t ht]
    have hall : s.BlockedThreads.filter (fun t => !s.ThreadCanProceed t) = s.BlockedThreads := by
      rw [List.filter_eq_self]
      intro t ht
      simp [hstuck.waits t ht]
    rw [hcheck]
    refine ⟨rfl, fun _ => rfl, fun _ => rfl, ?_, hall, rfl, rfl, hstuck.ended.symm⟩
    simp only [CPU.CheckBlockedThreads, hnone, List.append_nil]
  | @loadComplete k req c _ _ hk hc =>
    have hbooked := CoreState.MarkLoadComplete_booked hc
    obtain ⟨q, hq⟩ := hbooked.proc
    have hproc : c.proc = { s.Procs k with LSQueue := q } := hq
    have hkept : ∀ i, ((s.setCore k c).Procs i).numHarts = (s.Procs i).numHarts ∧
        ((s.setCore k c).Procs i).Harts = (s.Procs i).Harts := by
      intro i
      by_cases hik : i = k
      · have hsame : (s.setCore k c).Procs i = c.proc := by
          rw [hik]
          exact Function.update_self ..
        rw [hsame, hproc, hik]
        exact ⟨rfl, rfl⟩
      · have hsame : (s.setCore k c).Procs i = s.Procs i := Function.update_of_ne hik ..
        rw [hsame]
        exact ⟨rfl, rfl⟩
    exact ⟨rfl, fun i => (hkept i).1, fun i => (hkept i).2, rfl, rfl, rfl, hbooked.created, rfl⟩

/-- Once the system is stuck, no thread moves any more and `clockTick` never returns
    true, whatever the network and the memory do. -/
theorem stuck_forever {numCores numHarts MainThreadID StartAddr : ℕ}
    {tr tr' : List (CPU × Event)}
    (hrun : Run step (init numCores numHarts MainThreadID StartAddr) tr s) (hstuck : s.Stuck)
    (hrun' : Run step s tr' s') :
    s'.Stuck ∧ s'.BlockedThreads = s.BlockedThreads ∧ s'.CompletedThreads = s.CompletedThreads ∧
      s'.created = s.created := by
  have hlast := (hrun'.invariant_of_step (fun u => u.Settled ∧ u.Stuck ∧ SameThreads s u)
    ⟨run_settled hrun, hstuck, ⟨rfl, fun _ => rfl, fun _ => rfl, rfl, rfl, rfl, rfl, rfl⟩⟩ ?_).1
  · obtain ⟨-, hstuck', hsame⟩ := hlast
    exact ⟨hstuck', hsame.blocked, hsame.completed, hsame.created⟩
  · rintro u ev u' ⟨hsettled, hu, hsame⟩ hstep
    have hnext := hu.step hsettled hstep
    exact ⟨hsettled.step hstep, hnext.stuck hu, hsame.trans hnext⟩

/-- Two threads that join each other wait on. -/
theorem crossed_stuck_forever :
    ∃ tr tr' s s', Run step (init 1 1 1 4096) tr s ∧ s.Stuck ∧ Run step s tr' s' ∧
      tr'.length = 2 ∧ s'.Stuck ∧ s'.BlockedThreads = s.BlockedThreads := by
  have hsome : ((exec step (init 1 1 1 4096) (crossed ++ [.finish false])).bind fun s =>
      (exec step s [.turn {} true, .finish false]).map fun _ =>
        ((s.ended, s.ReadyThreads.length, s.numCores, (s.Procs 0).numHarts,
          ((s.Procs 0).Harts 0).isSome), s.BlockedThreads.length,
          s.BlockedThreads.all fun t => !s.ThreadCanProceed t,
          (trace step s [.turn {} true, .finish false]).length)) =
      some ((false, 0, 1, 1, false), 2, true, 2) := by decide
  obtain ⟨s, hexec, hstate⟩ := Option.bind_eq_some_iff.mp hsome
  obtain ⟨s', hexec', hstate⟩ := Option.map_eq_some_iff.mp hstate
  simp only [Prod.mk.injEq] at hstate
  obtain ⟨⟨hended, hready, hcores, hharts, hnone⟩, hblocked, hwaits, hlength⟩ := hstate
  have hstuck : s.Stuck := by
    refine ⟨hended, ?_, ?_, ?_⟩
    · rintro (hne | ⟨i, hi, h, hh, hheld⟩)
      · exact hne (List.length_eq_zero_iff.mp hready)
      · obtain rfl : i = 0 := by omega
        obtain rfl : h = 0 := by omega
        exact hheld (by simpa using hnone)
    · intro hnil
      rw [hnil] at hblocked
      cases hblocked
    · intro t ht
      simpa using List.all_eq_true.mp hwaits t ht
  have hrun := run_of_exec _ hexec
  have hrun' := run_of_exec _ hexec'
  obtain ⟨hstuck', hsame, -⟩ := stuck_forever hrun hstuck hrun'
  exact ⟨_, _, s, s', hrun, hstuck, hrun', hlength, hstuck', hsame⟩

end CPU

end RevCPU.Sched
