import RevCPU.Lib.Progress
import RevCPU.Sched.Threads

namespace RevCPU.Sched

open Lib

namespace CPU

variable {s s' : CPU}

/-- The step is a turn of a core that has an idle hart. -/
def hasRoom : CPU × Event → Bool
  | (s, .turn _ _) => (s.Procs s.next).HasIdleHart
  | _ => false

/-- The step puts the thread on an idle hart of the core whose turn it is, which is
    switched on. -/
def Assigns (t : RevThread) (p : CPU × Event) : Prop :=
  ∃ s₁, p.1.UpdateThreadAssignments p.1.next = .ok s₁ ∧ s₁.Enabled p.1.next = true ∧
    ∃ h < (p.1.Procs p.1.next).numHarts, (p.1.Procs p.1.next).IdleHarts h = true ∧
      (s₁.Procs p.1.next).Harts h = some { t with State := .RUNNING }

/-- `UpdateThreadAssignments` takes the first ready thread if there is room. -/
theorem UpdateThreadAssignments_ready {i : ℕ} (hok : s.UpdateThreadAssignments i = .ok s') :
    s'.ReadyThreads =
      if (s.Procs i).HasIdleHart then s.ReadyThreads.tail else s.ReadyThreads := by
  unfold UpdateThreadAssignments at hok
  split at hok
  · rename_i hready
    obtain rfl := Except.ok.inj hok
    simp [hready]
  · rename_i t rest hready
    split at hok
    · rename_i hroom
      obtain ⟨p, -, hok⟩ := bind_eq_ok.mp hok
      obtain rfl := Except.ok.inj hok
      rw [if_pos hroom, hready]
      rfl
    · rename_i hroom
      obtain rfl := Except.ok.inj hok
      rw [if_neg hroom]

/-- With room the first ready thread gets a hart. -/
theorem UpdateThreadAssignments_first {i : ℕ} {t : RevThread} {rest : List RevThread}
    (hready : s.ReadyThreads = t :: rest) (hroom : (s.Procs i).HasIdleHart = true)
    (hok : s.UpdateThreadAssignments i = .ok s') :
    s'.Enabled i = true ∧ ∃ h < (s.Procs i).numHarts, (s.Procs i).IdleHarts h = true ∧
      (s'.Procs i).Harts h = some { t with State := .RUNNING } := by
  cases UpdateThreadAssignments_cases hok with
  | stay =>
    have hsame := UpdateThreadAssignments_ready hok
    rw [if_pos hroom, hready, List.tail_cons] at hsame
    exact absurd (congrArg List.length hsame) (by simp)
  | @assign u rest' h hhead hlt hidle =>
    obtain ⟨rfl, -⟩ := List.cons.inj (hready.symm.trans hhead)
    refine ⟨Function.update_self .., h, hlt, hidle, ?_⟩
    simp only [Function.update_self]

/-- What a step does with the ready threads. -/
theorem Wf.step_ready {ev : Event} (hs : s.Wf) (hstep : s.step ev = some s') :
    ∃ added, s'.ReadyThreads =
      (if hasRoom (s, ev) then s.ReadyThreads.tail else s.ReadyThreads) ++ added := by
  cases step_cases hstep with
  | @turn inp done s₁ _ hnext hturn =>
    obtain ⟨t₁, t₂, t₃, hassign, hclock, hhandle, heq, -⟩ := turn_parts hs.sound hnext hturn
    have hready₁ := UpdateThreadAssignments_ready hassign
    have hready₂ : t₂.ReadyThreads = t₁.ReadyThreads := by
      cases clockCore_cases hclock with
      | off _ => rfl
      | tick _ _ => rfl
    have hready₃ := (handleThreads_handled hhandle).ready
    have hlast : s₁.ReadyThreads = t₃.ReadyThreads := by
      rw [heq]
      split
      · rfl
      · rfl
    simp only [hready₂, hready₁] at hready₃
    exact ⟨_, hlast.trans hready₃⟩
  | @finish net _ _ =>
    rcases finish_cases s net with heq | heq
    · rw [heq]
      exact ⟨[], (List.append_nil _).symm⟩
    · rw [heq]
      exact ⟨_, rfl⟩
  | loadComplete _ _ _ _ => exact ⟨[], (List.append_nil _).symm⟩

/-- The ready threads get their harts in the order in which they have become ready:
    each turn of a core with an idle hart serves one, and a thread with `j` others
    before it is served by the turn that comes after `j` such turns. -/
theorem ready_fifo {numCores numHarts MainThreadID StartAddr j : ℕ} {t : RevThread}
    {tr tr' : List (CPU × Event)}
    (hrun : Run step (init numCores numHarts MainThreadID StartAddr) tr s)
    (hrun' : Run step s tr' s') (hready : s.ReadyThreads[j]? = some t) :
    (tr'.countP hasRoom ≤ j → s'.ReadyThreads[j - tr'.countP hasRoom]? = some t) ∧
      (j < tr'.countP hasRoom → ∃ before p, before ++ [p] <+: tr' ∧ before.countP hasRoom = j ∧
        Assigns t p) := by
  have hqueue : ∀ {tr₁ : List (CPU × Event)} {s₁ : CPU}, Run step s tr₁ s₁ →
      tr₁.countP hasRoom ≤ j → s₁.ReadyThreads[j - tr₁.countP hasRoom]? = some t := by
    intro tr₁ s₁ hrun₁ hle
    have hwf := (hrun₁.invariant_of_step Wf (run_wf hrun) fun _ _ _ hs hstep => hs.step hstep).2
    have hlen := (List.getElem?_eq_some_iff.mp hready).1
    obtain ⟨added, hlast⟩ := hrun₁.queue_drop ReadyThreads hasRoom
      (fun p hp _ hstep => (hwf p hp).step_ready hstep) (by omega)
    rw [hlast, List.getElem?_append_left (by rw [List.length_drop]; omega), List.getElem?_drop,
      show tr₁.countP hasRoom + (j - tr₁.countP hasRoom) = j by omega]
    exact hready
  refine ⟨hqueue hrun', fun hlt => ?_⟩
  obtain ⟨before, p, hinit, hbefore, hcount, hroom⟩ := hrun'.nth_marked hasRoom hlt
  refine ⟨before, p, hinit, hcount, ?_⟩
  have hfirst := hqueue hbefore (by omega)
  rw [hcount, Nat.sub_self] at hfirst
  obtain ⟨s₁, hstep⟩ := hrun'.step_mem p (hinit.subset (by simp))
  obtain ⟨u, ev⟩ := p
  cases step_cases hstep with
  | turn _ _ hturn =>
    obtain ⟨u₁, hassign, -⟩ := bind_eq_ok.mp hturn
    obtain ⟨rest, hcons⟩ : ∃ rest, u.ReadyThreads = t :: rest := by
      cases hqueued : u.ReadyThreads with
      | nil => simp [hqueued] at hfirst
      | cons v rest =>
        rw [hqueued] at hfirst
        exact ⟨rest, congrArg (· :: rest) (Option.some.inj hfirst)⟩
    exact ⟨u₁, hassign, UpdateThreadAssignments_first hcons hroom hassign⟩
  | finish _ _ => cases hroom
  | loadComplete _ _ _ _ => cases hroom

/-- The main thread creates two threads on a core with one hart. -/
def createsTwo : List Event :=
  [.turn (ecallTick 4096 (.create 7 8192)) true, .finish false,
    .turn (ecallTick 4100 (.create 8 12288)) true, .finish false]

/-- The main thread and the first of the two return. -/
def bothReturn : List Event :=
  [.turn retTick true, .finish false, .turn retTick true, .finish false,
    .turn (ecallTick 12288 (.other [] true)) true]

/-- The second of the two is served by the second turn that has room. -/
theorem bothReturn_fifo :
    ∃ tr tr' s s', Run step (init 1 1 1 4096) tr s ∧ Run step s tr' s' ∧
      s.ReadyThreads[1]? = some { ID := 8, VirtRegState := 2, State := .READY } ∧
      ∃ before p, before ++ [p] <+: tr' ∧ before.countP hasRoom = 1 ∧
        Assigns { ID := 8, VirtRegState := 2, State := .READY } p := by
  have hsome : ((exec step (init 1 1 1 4096) createsTwo).bind fun s =>
      (exec step s bothReturn).map fun _ =>
        (s.ReadyThreads[1]?, (trace step s bothReturn).countP hasRoom)) =
      some (some { ID := 8, VirtRegState := 2, State := .READY }, 2) := by decide
  obtain ⟨s, hexec, hstate⟩ := Option.bind_eq_some_iff.mp hsome
  obtain ⟨s', hexec', hstate⟩ := Option.map_eq_some_iff.mp hstate
  obtain ⟨hready, hcount⟩ := Prod.mk.inj hstate
  have hrun := run_of_exec _ hexec
  have hrun' := run_of_exec _ hexec'
  exact ⟨_, _, s, s', hrun, hrun', hready, (ready_fifo hrun hrun' hready).2 (by omega)⟩

end CPU

end RevCPU.Sched
