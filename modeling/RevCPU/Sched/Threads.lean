import RevCPU.Sched.Conserve

namespace RevCPU.Sched

open Lib

namespace CPU

variable {s s' : CPU}

/-- A turn does not end the simulation. -/
theorem turn_ended {i : ℕ} {inp : TickInput} {done : Bool} (hok : s.turn i inp done = .ok s') :
    s'.ended = s.ended := by
  obtain ⟨s₁, hassign, hok⟩ := bind_eq_ok.mp hok
  obtain ⟨s₂, hclock, hok⟩ := bind_eq_ok.mp hok
  obtain ⟨s₃, hhandle, hok⟩ := bind_eq_ok.mp hok
  obtain rfl := Except.ok.inj hok
  have h₁ : s₁.ended = s.ended := by
    cases UpdateThreadAssignments_cases hassign with
    | stay => rfl
    | assign _ _ _ => rfl
  have h₂ : s₂.ended = s₁.ended := by
    cases clockCore_cases hclock with
    | off _ => rfl
    | tick _ _ => rfl
  have h₃ : s₃.ended = s₂.ended := (handleThreads_handled hhandle).ended
  have h := h₃.trans (h₂.trans h₁)
  split
  · exact h
  · exact h

/-- No core has threads that `RevCPU` has not handled. -/
def Quiet (s : CPU) : Prop := ∀ i < s.numCores, (s.Procs i).ThreadsThatChangedState = []

theorem UpdateThreadAssignments_other {i k : ℕ} (hok : s.UpdateThreadAssignments i = .ok s')
    (hki : k ≠ i) : s'.Procs k = s.Procs k := by
  cases UpdateThreadAssignments_cases hok with
  | stay => rfl
  | assign _ _ _ => exact Function.update_of_ne hki ..

theorem clockCore_other {i k : ℕ} {inp : TickInput} (hok : s.clockCore i inp = .ok s')
    (hki : k ≠ i) : s'.Procs k = s.Procs k := by
  cases clockCore_cases hok with
  | off _ => rfl
  | tick _ _ => exact Function.update_of_ne hki ..

/-- The parts of a turn of core `i`. -/
theorem turn_parts {i : ℕ} {inp : TickInput} {done : Bool} (hs : s.Sound []) (hi : i < s.numCores)
    (hok : s.turn i inp done = .ok s') :
    ∃ s₁ s₂ s₃, s.UpdateThreadAssignments i = .ok s₁ ∧ s₁.clockCore i inp = .ok s₂ ∧
      s₂.HandleThreadStateChangesForProc i done = .ok s₃ ∧
      s' = (if (s₃.Procs i).HasNoBusyHarts then s₃.setEnabled i false else s₃) ∧
      s₁.Sound [] ∧ s₂.Sound [] ∧ s₃.Sound [] ∧ s₁.numCores = s.numCores ∧
      s₂.numCores = s.numCores ∧ s₃.numCores = s.numCores ∧
      s₃.Procs = Function.update s₂.Procs i { s₂.Procs i with ThreadsThatChangedState := [] } := by
  obtain ⟨s₁, hassign, hok⟩ := bind_eq_ok.mp hok
  obtain ⟨s₂, hclock, hok⟩ := bind_eq_ok.mp hok
  obtain ⟨s₃, hhandle, hok⟩ := bind_eq_ok.mp hok
  have hs₁ := hs.UpdateThreadAssignments hi hassign
  have hnum₁ : s₁.numCores = s.numCores := UpdateThreadAssignments_numCores hassign
  have hs₂ := hs₁.clockCore (by omega) hclock
  have hnum₂ : s₂.numCores = s₁.numCores := clockCore_numCores hclock
  obtain ⟨hs₃, hnum₃, hprocs⟩ := hs₂.HandleThreadStateChangesForProc (by omega) hhandle
  exact ⟨s₁, s₂, s₃, hassign, hclock, hhandle, (Except.ok.inj hok).symm, hs₁, hs₂, hs₃, hnum₁,
    hnum₂.trans hnum₁, hnum₃.trans (hnum₂.trans hnum₁), hprocs⟩

theorem Quiet.turn {i : ℕ} {inp : TickInput} {done : Bool} (hs : s.Sound []) (hquiet : s.Quiet)
    (hi : i < s.numCores) (hok : s.turn i inp done = .ok s') :
    s'.Quiet ∧ s'.numCores = s.numCores := by
  obtain ⟨s₁, s₂, s₃, hassign, hclock, -, heq, -, -, -, -, -, hnum, hprocs⟩ := turn_parts hs hi hok
  have hquiet₃ : s₃.Quiet := by
    intro k hk
    rw [hprocs]
    by_cases hki : k = i
    · rw [hki, Function.update_self]
    · rw [Function.update_of_ne hki, clockCore_other hclock hki,
        UpdateThreadAssignments_other hassign hki]
      exact hquiet k (by omega)
  rw [heq]
  split
  · exact ⟨hquiet₃, hnum⟩
  · exact ⟨hquiet₃, hnum⟩

theorem finish_frame (s : CPU) (net : Bool) :
    (s.finish net).1.Procs = s.Procs ∧ (s.finish net).1.Enabled = s.Enabled ∧
      (s.finish net).1.numCores = s.numCores := by
  rcases finish_cases s net with heq | heq
  · rw [heq]
    exact ⟨rfl, rfl, rfl⟩
  · rw [heq]
    exact ⟨rfl, rfl, rfl⟩

/-- When `clockTick` returns true. -/
theorem finish_true {net : Bool} (hrtn : (s.finish net).2 = true) :
    (∀ i < s.numCores, s.Enabled i = false) ∧ (s.finish net).1.ReadyThreads = [] ∧
      (s.finish net).1.BlockedThreads = [] := by
  unfold finish at hrtn ⊢
  simp only [] at hrtn ⊢
  split at hrtn
  · simp at hrtn
  · rename_i hready
    split at hrtn
    · simp at hrtn
    · rename_i hblocked
      simp only [Bool.and_eq_true, List.all_eq_true, List.mem_range, Bool.not_eq_true'] at hrtn
      rw [if_neg hready, if_neg hblocked]
      exact ⟨hrtn.1.1, by simpa using hready, by simpa using hblocked⟩

/-- What holds between two turns. -/
structure Wf (s : CPU) : Prop where
  sound : s.Sound []
  quiet : s.Quiet
  finished : s.ended = true → (∀ i < s.numCores, s.Enabled i = false) ∧ s.ReadyThreads = [] ∧
    s.BlockedThreads = []

theorem Wf.step {ev : Event} (hs : s.Wf) (hstep : s.step ev = some s') : s'.Wf := by
  cases step_cases hstep with
  | @turn inp done s₁ hended hnext hturn =>
    have hsound := hs.sound.turn hnext hturn
    obtain ⟨hquiet, hnum⟩ := hs.quiet.turn hs.sound hnext hturn
    have hkeep : s₁.ended = false := (turn_ended hturn).trans hended
    refine ⟨⟨hsound.cores, hsound.fresh, hsound.occ⟩, hquiet, ?_⟩
    intro htrue
    exact absurd htrue (by simp [hkeep])
  | @finish net hended hnext =>
    obtain ⟨hprocs, hen, hnum⟩ := finish_frame s net
    have hsound := hs.sound.finish net
    refine ⟨⟨hsound.cores, hsound.fresh, hsound.occ⟩, ?_, ?_⟩
    · intro i hi
      simp only [hprocs]
      exact hs.quiet i (by simpa [hnum] using hi)
    · intro htrue
      obtain ⟨hoff, hready, hblocked⟩ := finish_true htrue
      refine ⟨?_, hready, hblocked⟩
      intro i hi
      simp only [hen]
      exact hoff i (by simpa [hnum] using hi)
  | @loadComplete i req c hended hnext hi hc =>
    have hbooked := CoreState.MarkLoadComplete_booked hc
    have hsound := hs.sound.setCore hbooked
    refine ⟨hsound, ?_, fun htrue => absurd htrue (by simp [setCore, hended])⟩
    intro k hk
    by_cases hki : k = i
    · obtain ⟨q, hq⟩ := hbooked.proc
      simp only [setCore, hki, Function.update_self, hq]
      exact hs.quiet i hi
    · simp only [setCore, Function.update_of_ne hki]
      exact hs.quiet k hk

theorem init_wf (numCores numHarts MainThreadID StartAddr : ℕ) :
    (init numCores numHarts MainThreadID StartAddr).Wf := by
  refine ⟨⟨?_, rfl, ?_⟩, fun _ _ => rfl, fun h => absurd h (by simp [init])⟩
  · intro i _
    exact ⟨fun _ _ => by simp [init], .inr rfl, fun h => h, fun h => absurd h (by simp [init]),
      fun _ _ _ => rfl, by simp [init]⟩
  · intro _ q
    have hmain : CPU.occ q (init numCores numHarts MainThreadID StartAddr) =
        hit q { ID := MainThreadID, VirtRegState := 0, State := .READY } := by
      simp [CPU.occ, init, RevProc.occ, hartsOcc, hartOcc]
    rw [hmain, occ_nil, hit, RevThread.key]
    by_cases hq : (MainThreadID, 0) = q
    · simp [init, hq]
    · simp [init, hq]

theorem run_wf {numCores numHarts MainThreadID StartAddr : ℕ} {tr : List (CPU × Event)}
    (hrun : Run step (init numCores numHarts MainThreadID StartAddr) tr s) : s.Wf :=
  (hrun.invariant_of_step Wf (init_wf ..) fun _ _ _ hs hstep => hs.step hstep).1

/-- How often a thread is in one of the containers of `RevCPU` or on a hart. -/
def places (q : ℕ × ℕ) (s : CPU) : ℕ :=
  Sched.occ q s.ReadyThreads + Sched.occ q s.BlockedThreads + Sched.occ q s.CompletedThreads +
    ∑ i ∈ Finset.range s.numCores, hartsOcc q (s.Procs i).numHarts (s.Procs i).Harts

theorem Wf.places_eq (hs : s.Wf) (q : ℕ × ℕ) : s.places q = s.occ q := by
  unfold places occ
  congr 1
  refine Finset.sum_congr rfl fun i hi => ?_
  rw [RevProc.occ, hs.quiet i (Finset.mem_range.mp hi), occ_nil, Nat.add_zero]

theorem Wf.places_count (hs : s.Wf) (hids : (s.created.map Prod.fst).Nodup) (q : ℕ × ℕ) :
    s.places q = s.created.count q := by
  rw [hs.places_eq, ← hs.sound.occ hids q, occ_nil, Nat.add_zero]

/-- Every thread that was created is in one place: ready, blocked, completed or on
    a hart, and the idle harts are those without a thread. -/
theorem threads_conserved {numCores numHarts MainThreadID StartAddr : ℕ} {tr : List (CPU × Event)}
    (hrun : Run step (init numCores numHarts MainThreadID StartAddr) tr s)
    (hids : (s.created.map Prod.fst).Nodup) :
    (∀ q ∈ s.created, s.places q = 1) ∧ (∀ q, q ∉ s.created → s.places q = 0) ∧
      ∀ i < s.numCores, ∀ h < (s.Procs i).numHarts,
        ((s.Procs i).IdleHarts h = true ↔ (s.Procs i).Harts h = none) := by
  have hs := run_wf hrun
  refine ⟨?_, ?_, fun i hi => (hs.sound.cores i hi).idle⟩
  · intro q hq
    rw [hs.places_count hids q]
    exact List.count_eq_one_of_mem (List.Nodup.of_map _ hids) hq
  · intro q hq
    rw [hs.places_count hids q]
    exact List.count_eq_zero.mpr hq

/-- `jalr x0, 0(ra)` and `ecall`. -/
def retInst : Fetched :=
  { inst := { opcode := 0b1100111, rd := 0, rs1 := 1, instSize := 4 }
    entry :=
      { opcode := 0b1100111, rs2Class := .RegUNKNOWN, imm := .FImm, format := .RVTypeI
        func := some .jalr }
    cost := 1 }

def ecallInst : Fetched :=
  { inst := { opcode := 0b1110011, rd := 0, rs1 := 0, instSize := 4 }
    entry :=
      { opcode := 0b1110011, rdClass := .RegUNKNOWN, rs1Class := .RegUNKNOWN
        rs2Class := .RegUNKNOWN, imm12 := 0b000000000000, imm := .FEnc, format := .RVTypeI
        func := some .ecall }
    cost := 1 }

/-- The tick of a core whose thread returns to address zero. -/
def retTick : TickInput := { fetched := some retInst, executed := some { PC := 0, cost := 1 } }

/-- The tick of a core whose thread makes a system call at `PC`. -/
def ecallTick (PC : ℕ) (e : Ecall) : TickInput :=
  { fetched := some ecallInst, executed := some { PC := PC + 4, cost := 1, ecall := some e } }

theorem create_conserved :
    ∃ tr s, Run step (init 1 2 1 4096) tr s ∧ s.created = [(1, 0), (7, 1)] ∧
      (s.created.map Prod.fst).Nodup ∧ ∀ q ∈ s.created, s.places q = 1 := by
  have hsome : ((exec step (init 1 2 1 4096)
      [.turn (ecallTick 4096 (.create 7 8192)) true, .finish false]).map fun s => s.created) =
      some [(1, 0), (7, 1)] := by decide
  obtain ⟨s, hexec, hcreated⟩ := Option.map_eq_some_iff.mp hsome
  have hrun := run_of_exec _ hexec
  have hids : (s.created.map Prod.fst).Nodup := by rw [hcreated]; decide
  exact ⟨_, s, hrun, hcreated, hids, (threads_conserved hrun hids).1⟩

/-- When the simulation ends, every thread that was created is completed; a core
    that is not enabled has no thread. -/
theorem ended_all_completed {numCores numHarts MainThreadID StartAddr : ℕ}
    {tr : List (CPU × Event)}
    (hrun : Run step (init numCores numHarts MainThreadID StartAddr) tr s)
    (hids : (s.created.map Prod.fst).Nodup) :
    (s.ended = true → ∀ q ∈ s.created, ∃ t ∈ s.CompletedThreads, t.key = q) ∧
      ∀ i < s.numCores, s.Enabled i = false → (s.Procs i).HasNoBusyHarts = true := by
  have hs := run_wf hrun
  refine ⟨?_, ?_⟩
  · intro hended q hq
    obtain ⟨hoff, hready, hblocked⟩ := hs.finished hended
    have hone : s.places q = 1 := by
      rw [hs.places_count hids q]
      exact List.count_eq_one_of_mem (List.Nodup.of_map _ hids) hq
    have hharts : ∑ i ∈ Finset.range s.numCores, hartsOcc q (s.Procs i).numHarts (s.Procs i).Harts =
        0 := by
      refine Finset.sum_eq_zero fun i hi => ?_
      have hlt := Finset.mem_range.mp hi
      exact (hoff i hlt ▸ hs.sound.cores i hlt).off_occ q
    rw [places, hready, hblocked, hharts, occ_nil] at hone
    have hpos : 0 < Sched.occ q s.CompletedThreads := by omega
    obtain ⟨t, ht, hkey⟩ := List.mem_map.mp (List.count_pos_iff.mp hpos)
    exact ⟨t, ht, hkey⟩
  · intro i hi hoff
    have hcore := hs.sound.cores i hi
    exact hcore.noBusy_iff.mpr (hcore.off hoff)

theorem ret_completed :
    ∃ tr s, Run step (init 1 1 1 4096) tr s ∧ s.ended = true ∧ s.created = [(1, 0)] ∧
      ∃ t ∈ s.CompletedThreads, t.key = (1, 0) := by
  have hsome : ((exec step (init 1 1 1 4096) [.turn retTick true, .finish false]).map fun s =>
      (s.ended, s.created)) = some (true, [(1, 0)]) := by decide
  obtain ⟨s, hexec, hstate⟩ := Option.map_eq_some_iff.mp hsome
  obtain ⟨hended, hcreated⟩ := Prod.mk.inj hstate
  have hrun := run_of_exec _ hexec
  have hids : (s.created.map Prod.fst).Nodup := by rw [hcreated]; decide
  refine ⟨_, s, hrun, hended, hcreated, (ended_all_completed hrun hids).1 hended (1, 0) ?_⟩
  rw [hcreated]
  decide

end CPU

end RevCPU.Sched
