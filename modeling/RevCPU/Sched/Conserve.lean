import RevCPU.Sched.Places
import RevCPU.Sched.Steps

namespace RevCPU.Sched

open Lib

/-- What holds of a core, enabled or not. -/
structure RevProc.Ok (p : RevProc) (en : Bool) : Prop where
  idle : ∀ h < p.numHarts, p.IdleHarts h = true ↔ p.Harts h = none
  exec : p.HartToExecID = none ∨ p.HartToExecID = some p.HartToDecodeID
  decodeID : 0 < p.numHarts → p.HartToDecodeID < p.numHarts
  enabled : en = true → 0 < p.numHarts
  off : en = false → ∀ h < p.numHarts, p.Harts h = none
  handed : ∀ t ∈ p.ThreadsThatChangedState, t.Handed

/-- How often a core holds a thread. -/
def RevProc.occ (q : ℕ × ℕ) (p : RevProc) : ℕ :=
  hartsOcc q p.numHarts p.Harts + Sched.occ q p.ThreadsThatChangedState

theorem RevProc.Ok.noBusy_iff {p : RevProc} {en : Bool} (hp : p.Ok en) :
    p.HasNoBusyHarts = true ↔ ∀ h < p.numHarts, p.Harts h = none := by
  unfold HasNoBusyHarts
  rw [List.all_eq_true]
  constructor
  · intro hall h hlt
    exact (hp.idle h hlt).mp (hall h (List.mem_range.mpr hlt))
  · intro hall h hmem
    have hlt := List.mem_range.mp hmem
    exact (hp.idle h hlt).mpr (hall h hlt)

/-- A core that is off holds no thread. -/
theorem RevProc.Ok.off_occ {p : RevProc} (hp : p.Ok false) (q : ℕ × ℕ) :
    hartsOcc q p.numHarts p.Harts = 0 := by
  refine Finset.sum_eq_zero fun h hh => ?_
  rw [hp.off rfl h (Finset.mem_range.mp hh), hartOcc]

/-- A core without a busy hart can be switched off. -/
theorem RevProc.Ok.disable {p : RevProc} {en : Bool} (hp : p.Ok en) (hno : p.HasNoBusyHarts = true) :
    p.Ok false :=
  ⟨hp.idle, hp.exec, hp.decodeID, fun h => absurd h (by simp), fun _ => hp.noBusy_iff.mp hno, hp.handed⟩

namespace CPU

variable {s s' : CPU}

/-- How often a thread is somewhere. -/
def occ (q : ℕ × ℕ) (s : CPU) : ℕ :=
  Sched.occ q s.ReadyThreads + Sched.occ q s.BlockedThreads + Sched.occ q s.CompletedThreads +
    ∑ i ∈ Finset.range s.numCores, (s.Procs i).occ q

/-- The cores are in order, and every thread that was ever created is somewhere
    or among the threads `ts` that are being handled, as often as it was created. -/
structure Sound (s : CPU) (ts : List RevThread) : Prop where
  cores : ∀ i < s.numCores, (s.Procs i).Ok (s.Enabled i)
  fresh : s.created.map Prod.snd = List.range s.nextReg
  occ : (s.created.map Prod.fst).Nodup → ∀ q, s.occ q + Sched.occ q ts = s.created.count q

/-- Core `i` is replaced. -/
theorem procs_occ (q : ℕ × ℕ) {n i : ℕ} (hi : i < n) (Procs : ℕ → RevProc) (p : RevProc) :
    (∑ k ∈ Finset.range n, (Function.update Procs i p k).occ q) + (Procs i).occ q =
      (∑ k ∈ Finset.range n, (Procs k).occ q) + p.occ q := by
  have hcomp : (fun k => (Function.update Procs i p k).occ q) =
      Function.update (fun k => (Procs k).occ q) i (p.occ q) := by
    funext k
    exact Function.apply_update (fun _ => RevProc.occ q) Procs i p k
  rw [hcomp]
  exact sum_range_update hi _ _

theorem ok_update {n i : ℕ} {Procs : ℕ → RevProc} {Enabled : ℕ → Bool} {p : RevProc} {en : Bool}
    (hcores : ∀ k < n, (Procs k).Ok (Enabled k)) (hp : p.Ok en) :
    ∀ k < n, (Function.update Procs i p k).Ok (Function.update Enabled i en k) := by
  intro k hk
  by_cases hki : k = i
  · rw [hki, Function.update_self, Function.update_self]
    exact hp
  · rw [Function.update_of_ne hki, Function.update_of_ne hki]
    exact hcores k hk

theorem UpdateThreadAssignments_numCores {i : ℕ} (hok : s.UpdateThreadAssignments i = .ok s') :
    s'.numCores = s.numCores := by
  cases UpdateThreadAssignments_cases hok with
  | stay => rfl
  | assign _ _ _ => rfl

theorem clockCore_numCores {i : ℕ} {inp : TickInput} (hok : s.clockCore i inp = .ok s') :
    s'.numCores = s.numCores := by
  cases clockCore_cases hok with
  | off _ => rfl
  | tick _ _ => rfl

namespace Sound

variable {ts : List RevThread}

/-- The keys of the threads that exist are those of the created ones. -/
theorem created_of_pos (hs : s.Sound ts) (hnodup : (s.created.map Prod.fst).Nodup) {q : ℕ × ℕ}
    (hpos : 0 < s.occ q + Sched.occ q ts) : q ∈ s.created := by
  rw [hs.occ hnodup q] at hpos
  exact List.count_pos_iff.mp hpos

/-- Each is there once. -/
theorem le_one (hs : s.Sound ts) (hnodup : (s.created.map Prod.fst).Nodup) (q : ℕ × ℕ) :
    s.occ q + Sched.occ q ts ≤ 1 := by
  rw [hs.occ hnodup q]
  exact List.nodup_iff_count_le_one.mp (List.Nodup.of_map _ hnodup) q

theorem switch {i : ℕ} {en : Bool} (hs : s.Sound ts) (hp : i < s.numCores → (s.Procs i).Ok en) :
    (s.setEnabled i en).Sound ts := by
  refine ⟨?_, hs.fresh, hs.occ⟩
  intro k hk
  by_cases hki : k = i
  · subst hki
    simpa [setEnabled] using hp hk
  · simpa [setEnabled, hki] using hs.cores k hk

theorem UpdateThreadAssignments {i : ℕ} (hs : s.Sound ts) (hi : i < s.numCores)
    (hok : s.UpdateThreadAssignments i = .ok s') : s'.Sound ts := by
  cases UpdateThreadAssignments_cases hok with
  | stay => exact hs
  | @assign t rest h hready hlt hidle =>
    have hcore := hs.cores i hi
    have hnone := (hcore.idle h hlt).mp hidle
    refine ⟨ok_update hs.cores ⟨?_, hcore.exec, hcore.decodeID, fun _ => by exact Nat.zero_lt_of_lt hlt,
      fun h => absurd h (by simp), hcore.handed⟩, hs.fresh, ?_⟩
    · intro k hk
      by_cases hkh : k = h
      · simp [hkh]
      · simpa [hkh] using hcore.idle k hk
    · intro hnodup q
      have hold := hs.occ hnodup q
      have hharts := hartsOcc_update q hlt (s.Procs i).Harts (some { t with State := .RUNNING })
      have hprocs := procs_occ q hi s.Procs { s.Procs i with
        Harts := Function.update (s.Procs i).Harts h (some { t with State := .RUNNING })
        IdleHarts := Function.update (s.Procs i).IdleHarts h false }
      simp only [hnone, hartOcc, hit_state] at hharts
      simp only [CPU.occ, hready, occ_cons] at hold ⊢
      simp only [RevProc.occ] at hprocs hold ⊢
      omega

/-- `ClockTick` of an enabled core. -/
theorem ticked {i : ℕ} {inp : TickInput} {c : CoreState} (hs : s.Sound ts) (hi : i < s.numCores)
    (hon : s.Enabled i = true) (htick : (s.core i).ClockTick inp = .ok (c, true)) :
    (s.core i).Ticked c := by
  have hcore := hs.cores i hi
  exact CoreState.ClockTick_ticked (c := s.core i) hcore.exec (hcore.decodeID (hcore.enabled hon)) htick

theorem clockCore {i : ℕ} {inp : TickInput} (hs : s.Sound ts) (hi : i < s.numCores)
    (hok : s.clockCore i inp = .ok s') : s'.Sound ts := by
  cases clockCore_cases hok with
  | off _ => exact hs
  | @tick c hon htick =>
    have hticked := hs.ticked hi hon htick
    have hcore := hs.cores i hi
    have hout := hticked.outcome
    refine ⟨?_, hout.fresh hs.fresh, ?_⟩
    · have hp : c.proc.Ok true :=
        ⟨hout.idleOk (c := s.core i) hcore.idle, hticked.exec, fun _ => hticked.decodeID,
          fun _ => Nat.zero_lt_of_lt hticked.decodeID, fun h => absurd h (by simp),
          hout.handed (c := s.core i) hcore.handed⟩
      intro k hk
      by_cases hki : k = i
      · subst hki
        simpa [setCore, hon] using hp
      · simpa [setCore, hki] using hs.cores k hk
    · intro hnodup q
      have hmoved := hout.occ q
      have hold : (s.created.map Prod.fst).Nodup := hnodup.sublist (hout.created.sublist.map _)
      have hocc := hs.occ hold q
      have hprocs := procs_occ q hi s.Procs c.proc
      change c.proc.occ q + s.created.count q = (s.Procs i).occ q + c.created.count q at hmoved
      simp only [CPU.occ, setCore] at hocc ⊢
      omega

/-- One thread is handled. -/
theorem handleThread {t : RevThread} (hs : s.Sound (t :: ts)) (ht : t.Handed)
    (hok : s.handleThread t = .ok s') :
    s'.Sound ts ∧ s'.Procs = s.Procs ∧ s'.Enabled = s.Enabled ∧ s'.numCores = s.numCores := by
  unfold CPU.handleThread at hok
  rcases ht with hst | hst | hst
  · rw [hst] at hok
    obtain rfl := Except.ok.inj hok
    refine ⟨⟨hs.cores, hs.fresh, ?_⟩, rfl, rfl, rfl⟩
    intro hnodup q
    have hocc := hs.occ hnodup q
    simp only [CPU.occ, occ_append, occ_cons, occ_nil, hit_state] at hocc ⊢
    omega
  · rw [hst] at hok
    obtain rfl := Except.ok.inj hok
    refine ⟨⟨hs.cores, hs.fresh, ?_⟩, rfl, rfl, rfl⟩
    intro hnodup q
    have hocc := hs.occ hnodup q
    simp only [CPU.occ, occ_append, occ_cons, occ_nil] at hocc ⊢
    omega
  · rw [hst] at hok
    obtain rfl := Except.ok.inj hok
    refine ⟨⟨hs.cores, hs.fresh, ?_⟩, rfl, rfl, rfl⟩
    intro hnodup q
    have hocc := hs.occ hnodup q
    have hnew : (s.CompletedThreads.any fun u => u.ID == t.ID) = false := by
      rw [List.any_eq_false]
      intro u hu hid
      have hkey : u.key = t.key := by
        have hin : u.key ∈ s.created := hs.created_of_pos hnodup (by
          have := occ_pos hu
          unfold CPU.occ
          omega)
        have hin' : t.key ∈ s.created := hs.created_of_pos hnodup (by
          rw [occ_cons, hit, if_pos rfl]
          omega)
        exact List.inj_on_of_nodup_map hnodup hin hin' (beq_iff_eq.mp hid)
      have hone := hs.le_one hnodup t.key
      have hpos := occ_pos hu
      rw [hkey] at hpos
      rw [occ_cons, hit, if_pos rfl] at hone
      unfold CPU.occ at hone
      omega
    simp only [hnew, Bool.false_eq_true, if_false]
    simp only [CPU.occ, occ_append, occ_cons, occ_nil] at hocc ⊢
    omega

/-- The threads that have changed their state are handled one after the other. -/
theorem handleThreads {i : ℕ} {done : Bool} (hs : s.Sound ts) (hts : ∀ t ∈ ts, t.Handed)
    (hok : CPU.handleThreads i done s ts = .ok s') :
    s'.Sound [] ∧ s'.Procs = s.Procs ∧ s'.numCores = s.numCores := by
  induction ts generalizing s with
  | nil =>
    obtain rfl := Except.ok.inj hok
    exact ⟨hs, rfl, rfl⟩
  | cons t ts ih =>
    obtain ⟨s₁, hone, hrest⟩ := bind_eq_ok.mp hok
    obtain ⟨hs₁, hprocs, hen, hnum⟩ := hs.handleThread (hts t (by simp)) hone
    have hswitch : (if HasNoWork (s₁.Procs i) done then s₁.setEnabled i false else s₁).Sound ts := by
      split
      · rename_i hno
        refine hs₁.switch fun hi => (hs₁.cores i hi).disable ?_
        unfold HasNoWork at hno
        exact (Bool.and_eq_true_iff.mp hno).1
      · exact hs₁
    obtain ⟨hs', hprocs', hnum'⟩ := ih hswitch (fun t ht => hts t (by simp [ht])) hrest
    refine ⟨hs', ?_, ?_⟩
    · rw [hprocs']
      split
      · exact hprocs
      · exact hprocs
    · rw [hnum']
      split
      · exact hnum
      · exact hnum

theorem HandleThreadStateChangesForProc {i : ℕ} {done : Bool} (hs : s.Sound [])
    (hi : i < s.numCores) (hok : s.HandleThreadStateChangesForProc i done = .ok s') :
    s'.Sound [] ∧ s'.numCores = s.numCores ∧ s'.Procs = Function.update s.Procs i
      { s.Procs i with ThreadsThatChangedState := [] } := by
  have hcore := hs.cores i hi
  have hstart : { s with
      Procs := Function.update s.Procs i
        { s.Procs i with ThreadsThatChangedState := [] } }.Sound
      (s.Procs i).ThreadsThatChangedState := by
    refine ⟨?_, hs.fresh, ?_⟩
    · intro k hk
      by_cases hki : k = i
      · subst hki
        simp only [Function.update_self]
        exact ⟨hcore.idle, hcore.exec, hcore.decodeID, hcore.enabled, hcore.off, by simp⟩
      · simp only [Function.update_of_ne hki]
        exact hs.cores k hk
    · intro hnodup q
      have hocc := hs.occ hnodup q
      have hprocs := procs_occ q hi s.Procs { s.Procs i with ThreadsThatChangedState := [] }
      simp only [CPU.occ, occ_nil] at hocc ⊢
      simp only [RevProc.occ, occ_nil] at hprocs hocc ⊢
      omega
  obtain ⟨hs', hprocs, hnum⟩ := hstart.handleThreads hcore.handed hok
  exact ⟨hs', hnum, hprocs⟩

/-- One turn of the loop of `clockTick`. -/
theorem turn {i : ℕ} {inp : TickInput} {done : Bool} (hs : s.Sound []) (hi : i < s.numCores)
    (hok : s.turn i inp done = .ok s') : s'.Sound [] := by
  obtain ⟨s₁, hassign, hok⟩ := bind_eq_ok.mp hok
  obtain ⟨s₂, hclock, hok⟩ := bind_eq_ok.mp hok
  obtain ⟨s₃, hhandle, hok⟩ := bind_eq_ok.mp hok
  obtain rfl := Except.ok.inj hok
  have hs₁ := hs.UpdateThreadAssignments hi hassign
  have hnum₁ : s₁.numCores = s.numCores := UpdateThreadAssignments_numCores hassign
  have hs₂ := hs₁.clockCore (by omega) hclock
  have hnum₂ : s₂.numCores = s₁.numCores := clockCore_numCores hclock
  obtain ⟨hs₃, hnum₃, -⟩ := hs₂.HandleThreadStateChangesForProc (by omega) hhandle
  split
  · rename_i hno
    exact hs₃.switch fun hk => (hs₃.cores i hk).disable hno
  · exact hs₃

/-- The blocked threads that can proceed become ready. -/
theorem CheckBlockedThreads (hs : s.Sound []) : s.CheckBlockedThreads.Sound [] := by
  refine ⟨hs.cores, hs.fresh, ?_⟩
  intro hnodup q
  have hocc := hs.occ hnodup q
  have hsplit : Sched.occ q (s.BlockedThreads.filter s.ThreadCanProceed) +
      Sched.occ q (s.BlockedThreads.filter fun t => !s.ThreadCanProceed t) =
      Sched.occ q s.BlockedThreads := by
    rw [← occ_append]
    exact occ_perm q (List.filter_append_perm ..)
  simp only [CPU.occ, CPU.CheckBlockedThreads, occ_append] at hocc ⊢
  omega

theorem finish (hs : s.Sound []) (net : Bool) : (s.finish net).1.Sound [] := by
  rcases finish_cases s net with heq | heq
  · rw [heq]
    exact hs
  · rw [heq]
    exact hs.CheckBlockedThreads

/-- Work on the scoreboards and the loads of a core. -/
theorem setCore {i : ℕ} {c : CoreState} (hs : s.Sound ts) (hbooked : (s.core i).Booked c) :
    (s.setCore i c).Sound ts := by
  obtain ⟨q, hq⟩ := hbooked.proc
  have hproc : c.proc = { s.Procs i with LSQueue := q } := hq
  have hcreated : c.created = s.created := hbooked.created
  have hnext : c.nextReg = s.nextReg := hbooked.nextReg
  have hocc : ∀ k p, (Function.update s.Procs i c.proc k).occ p = (s.Procs k).occ p := by
    intro k p
    by_cases hki : k = i
    · rw [hki, Function.update_self, hproc]
      rfl
    · rw [Function.update_of_ne hki]
  refine ⟨?_, ?_, ?_⟩
  · intro k hk
    have hcore := hs.cores k hk
    by_cases hki : k = i
    · subst hki
      simp only [CPU.setCore, Function.update_self, hproc]
      exact ⟨hcore.idle, hcore.exec, hcore.decodeID, hcore.enabled, hcore.off, hcore.handed⟩
    · simpa only [CPU.setCore, Function.update_of_ne hki] using hcore
  · simp only [CPU.setCore, hcreated, hnext]
    exact hs.fresh
  · simp only [CPU.setCore, hcreated, CPU.occ, hocc]
    exact hs.occ

end Sound

end CPU

end RevCPU.Sched
