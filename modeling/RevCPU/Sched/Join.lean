import RevCPU.Sched.Ids

namespace RevCPU.Sched

open Lib

namespace CPU

variable {s s' : CPU} {ts : List RevThread}

theorem Sound.snd_nodup (hs : s.Sound ts) : (s.created.map Prod.snd).Nodup := by
  rw [hs.fresh]
  exact List.nodup_range

/-- The register file of a created thread has been handed out. -/
theorem Sound.reg_lt (hs : s.Sound ts) {q : ℕ × ℕ} (hq : q ∈ s.created) : q.2 < s.nextReg := by
  have hmem : q.2 ∈ s.created.map Prod.snd := List.mem_map_of_mem hq
  rw [hs.fresh] at hmem
  exact List.mem_range.mp hmem

theorem hart_occ_le {i h : ℕ} {u : RevThread} (hi : i < s.numCores)
    (hh : h < (s.Procs i).numHarts) (hu : (s.Procs i).Harts h = some u) :
    1 ≤ ∑ k ∈ Finset.range s.numCores, (s.Procs k).occ u.key := by
  have hcore := le_sum_range hi fun k => (s.Procs k).occ u.key
  have hharts := le_sum_range hh fun k => hartOcc u.key ((s.Procs i).Harts k)
  have hone : hartOcc u.key ((s.Procs i).Harts h) = 1 := by
    rw [hu, hartOcc, hit, if_pos rfl]
  simp only [hone] at hharts
  unfold RevProc.occ hartsOcc at hcore
  unfold RevProc.occ hartsOcc
  omega

theorem Sound.hart_created (hs : s.Sound ts) (hids : (s.created.map Prod.fst).Nodup) {i h : ℕ}
    {u : RevThread} (hi : i < s.numCores) (hh : h < (s.Procs i).numHarts)
    (hu : (s.Procs i).Harts h = some u) : u.key ∈ s.created := by
  refine hs.created_of_pos hids ?_
  have := hart_occ_le hi hh hu
  unfold CPU.occ
  omega

theorem Sound.blocked_created (hs : s.Sound ts) (hids : (s.created.map Prod.fst).Nodup)
    {t : RevThread} (ht : t ∈ s.BlockedThreads) : t.key ∈ s.created := by
  refine hs.created_of_pos hids ?_
  have := occ_pos ht
  unfold CPU.occ
  omega

/-- The register file of a blocked thread is not on a hart. -/
theorem Sound.blocked_off (hs : s.Sound ts) (hids : (s.created.map Prod.fst).Nodup)
    {t u : RevThread} (ht : t ∈ s.BlockedThreads) {i h : ℕ} (hi : i < s.numCores)
    (hh : h < (s.Procs i).numHarts) (hu : (s.Procs i).Harts h = some u) :
    u.VirtRegState ≠ t.VirtRegState := by
  intro heq
  have hkey : u.key = t.key := List.inj_on_of_nodup_map hs.snd_nodup (hs.hart_created hids hi hh hu)
    (hs.blocked_created hids ht) heq
  have hone := hs.le_one hids t.key
  have hblocked := occ_pos ht
  have hhart := hart_occ_le hi hh hu
  rw [hkey] at hhart
  unfold CPU.occ at hone
  omega

/-- A thread that waits for the thread `B`, as `ECALL_pthread_join` leaves it. -/
structure WaitsFor (regs : ℕ → RegState) (t : RevThread) (A B : ℕ) : Prop where
  id : t.ID = A
  tid : t.WaitingToJoinTID = B
  trigger : (regs t.VirtRegState).trigger = true

/-- The thread `B` is completed. -/
def Joined (s : CPU) (B : ℕ) : Prop := ∃ u ∈ s.CompletedThreads, u.ID = B

/-- A thread that has joined another one waits among the blocked threads or among
    the threads `ts` that are being handled, until the other one is completed. -/
def Waiting (s : CPU) (ts : List RevThread) : Prop :=
  ∀ A a0, (A, a0) ∈ s.joins → a0 % 2 ^ 32 ≠ INVALID_TID →
    s.Joined (a0 % 2 ^ 32) ∨
      ∃ t, (t ∈ s.BlockedThreads ∨ t ∈ ts ∧ t.State = .BLOCKED) ∧
        WaitsFor s.regs t A (a0 % 2 ^ 32)

theorem Waiting.UpdateThreadAssignments {i : ℕ} (hs : s.Waiting ts)
    (hok : s.UpdateThreadAssignments i = .ok s') : s'.Waiting ts := by
  cases UpdateThreadAssignments_cases hok with
  | stay => exact hs
  | assign _ _ _ => exact hs

/-- The joins after a tick. -/
theorem outcome_joins {c c' : CoreState} (hticked : c.Ticked c') {A a0 : ℕ}
    (hjoin : (A, a0) ∈ c'.joins) :
    (A, a0) ∈ c.joins ∨ ∃ h t, h < c.proc.numHarts ∧ c.proc.Harts h = some t ∧ t.ID = A ∧
      { t with State := .BLOCKED, WaitingToJoinTID := a0 % 2 ^ 32 } ∈
        c'.proc.ThreadsThatChangedState ∧
      (t.VirtRegState < c.nextReg → (c'.regs t.VirtRegState).trigger = true) := by
  have hjoins : c'.joins = c'.view.joins := rfl
  have hchanged : c'.proc.ThreadsThatChangedState = c'.view.changed := rfl
  rw [hjoins] at hjoin
  rw [hchanged]
  cases hticked.outcome with
  | stay hview => rw [hview] at hjoin; exact .inl hjoin
  | create hview => rw [hview] at hjoin; exact .inl hjoin
  | finish _ _ hview => rw [hview] at hjoin; exact .inl hjoin
  | createFinish _ _ hview => rw [hview] at hjoin; exact .inl hjoin
  | @join h b t hlt hart hview htrigger =>
    rw [hview] at hjoin ⊢
    rcases List.mem_append.mp hjoin with hjoin | hjoin
    · exact .inl hjoin
    · obtain ⟨rfl, rfl⟩ := Prod.mk.inj (List.mem_singleton.mp hjoin)
      exact .inr ⟨h, t, hlt, hart, rfl, List.mem_append_right _ (List.mem_singleton_self _), htrigger⟩

/-- `ClockTick` of a core whose changed threads have all been handled. -/
theorem Waiting.clockCore {i : ℕ} {inp : TickInput} (hs : s.Waiting []) (hsound : s.Sound [])
    (hids : (s.created.map Prod.fst).Nodup) (hi : i < s.numCores)
    (hok : s.clockCore i inp = .ok s') : s'.Waiting (s'.Procs i).ThreadsThatChangedState := by
  cases clockCore_cases hok with
  | off _ =>
    intro A a0 hjoin hB
    rcases hs A a0 hjoin hB with hdone | ⟨t, hmem, hwaits⟩
    · exact .inl hdone
    · rcases hmem with hmem | ⟨hmem, -⟩
      · exact .inr ⟨t, .inl hmem, hwaits⟩
      · cases hmem
  | @tick c hon htick =>
    have hticked := hsound.ticked hi hon htick
    intro A a0 hjoin hB
    rcases outcome_joins hticked hjoin with hold | ⟨h, t, hh, hart, hID, hmem, htrigger⟩
    · rcases hs A a0 hold hB with hdone | ⟨t, hmem, hwaits⟩
      · exact .inl hdone
      · rcases hmem with hmem | ⟨hmem, -⟩
        · refine .inr ⟨t, .inl hmem, hwaits.id, hwaits.tid, ?_⟩
          have hlt := hsound.reg_lt (hsound.blocked_created hids hmem)
          exact (hticked.trigger t.VirtRegState hlt fun h hh u hu =>
            hsound.blocked_off hids hmem hi hh hu).trans hwaits.trigger
        · cases hmem
    · have hlt := hsound.reg_lt (hsound.hart_created hids hi hh hart)
      refine .inr ⟨{ t with State := .BLOCKED, WaitingToJoinTID := a0 % 2 ^ 32 }, .inr ⟨?_, rfl⟩, hID,
        rfl, htrigger hlt⟩
      simpa only [setCore, Function.update_self] using hmem

theorem Waiting.handled (hs : s.Waiting ts) (h : Handled s ts s') : s'.Waiting [] := by
  intro A a0 hjoin hB
  rw [h.joins] at hjoin
  rcases hs A a0 hjoin hB with ⟨u, hu, hID⟩ | ⟨t, hmem, hwaits⟩
  · exact .inl ⟨u, h.completed u hu, hID⟩
  · refine .inr ⟨t, .inl ?_, hwaits.id, hwaits.tid, by rw [h.regs]; exact hwaits.trigger⟩
    rw [h.blocked, List.mem_append]
    rcases hmem with hmem | ⟨hmem, hst⟩
    · exact .inl hmem
    · exact .inr (List.mem_filter.mpr ⟨hmem, by simpa using hst⟩)

/-- The end of `clockTick` resumes only threads that wait for a completed one. -/
theorem Waiting.finish (hs : s.Waiting []) (net : Bool) : (s.finish net).1.Waiting [] := by
  rcases finish_cases s net with heq | heq
  · rw [heq]
    exact hs
  · rw [heq]
    intro A a0 hjoin hB
    rcases hs A a0 hjoin hB with hdone | ⟨t, hmem, hwaits⟩
    · exact .inl hdone
    · rcases hmem with hmem | ⟨hmem, -⟩
      · by_cases hcan : s.ThreadCanProceed t = true
        · left
          unfold ThreadCanProceed at hcan
          rw [hwaits.tid, if_pos hB] at hcan
          obtain ⟨u, hu, hID⟩ := List.any_eq_true.mp hcan
          exact ⟨u, hu, beq_iff_eq.mp hID⟩
        · exact .inr ⟨t, .inl (List.mem_filter.mpr ⟨hmem, by simpa using hcan⟩), hwaits.id,
            hwaits.tid, hwaits.trigger⟩
      · cases hmem

/-- A turn of a core. -/
theorem Waiting.turn {i : ℕ} {inp : TickInput} {done : Bool} (hs : s.Waiting []) (hwf : s.Wf)
    (hi : i < s.numCores) (hids : (s.created.map Prod.fst).Nodup)
    (hok : s.turn i inp done = .ok s') : s'.Waiting [] := by
  obtain ⟨s₁, s₂, s₃, hassign, hclock, hhandle, heq, hs₁, -, -, hnum, -⟩ :=
    turn_parts hwf.sound hi hok
  have hcreated : s₁.created = s.created := by
    cases UpdateThreadAssignments_cases hassign with
    | stay => rfl
    | assign _ _ _ => rfl
  have h₂ := (hs.UpdateThreadAssignments hassign).clockCore hs₁ (hcreated ▸ hids) (by omega) hclock
  have hstart : { s₂ with
      Procs := Function.update s₂.Procs i
        { s₂.Procs i with ThreadsThatChangedState := [] } }.Waiting
      (s₂.Procs i).ThreadsThatChangedState := h₂
  have h₃ := hstart.handled (handleThreads_handled hhandle)
  rw [heq]
  split
  · exact h₃
  · exact h₃

theorem Waiting.step {ev : Event} (hs : s.Waiting []) (hwf : s.Wf)
    (hids : (s.created.map Prod.fst).Nodup) (hstep : s.step ev = some s') : s'.Waiting [] := by
  cases step_cases hstep with
  | turn _ hnext hturn =>
    have h := hs.turn hwf hnext hids hturn
    exact h
  | @finish net _ _ => exact hs.finish net
  | @loadComplete i req c _ _ _ hc =>
    have hbooked := CoreState.MarkLoadComplete_booked hc
    have hjoins : c.joins = s.joins := hbooked.joins
    intro A a0 hjoin hB
    rcases hs A a0 (hjoins ▸ hjoin) hB with hdone | ⟨t, hmem, hwaits⟩
    · exact .inl hdone
    · exact .inr ⟨t, hmem, hwaits.id, hwaits.tid, (hbooked.trigger _).trans hwaits.trigger⟩

theorem created_nodup {ev : Event} (hs : s.Wf) (hstep : s.step ev = some s')
    (hids : (s'.created.map Prod.fst).Nodup) : (s.created.map Prod.fst).Nodup := by
  rcases step_created hs hstep with hkeep | ⟨_, _, _, NewTID, _, _, _, _, hnew⟩
  · rwa [hkeep] at hids
  · rw [hnew, List.map_append] at hids
    exact hids.of_append_left

theorem run_waiting {numCores numHarts MainThreadID StartAddr : ℕ} {tr : List (CPU × Event)}
    (hrun : Run step (init numCores numHarts MainThreadID StartAddr) tr s)
    (hids : (s.created.map Prod.fst).Nodup) : s.Waiting [] := by
  induction hrun with
  | nil =>
    intro A a0 hjoin
    cases hjoin
  | snoc hrun hstep ih =>
    have hwf := run_wf hrun
    have hids' := created_nodup hwf hstep hids
    exact (ih hids').step hwf hids' hstep

/-- What the core whose turn it is has in front of the second part of its
    `ClockTick`, if it is on. -/
def front (s : CPU) (inp : TickInput) : Except Fault (Option CoreState) := do
  let s₁ ← s.UpdateThreadAssignments s.next
  if s₁.Enabled s.next then
    let c ← (s₁.core s.next).UpdateStatusOfHarts
    let c ← c.decode inp
    return some c
  else return none

/-- The hart and the register file that `Execute` is called for in the turn of a
    core. -/
def executes (s : CPU) (inp : TickInput) : Option (ℕ × ℕ) :=
  match s.front inp with
  | .ok (some c) => c.triggers.toOption.join
  | _ => none

theorem front_eq_ok {inp : TickInput} {c : CoreState} (hfront : s.front inp = .ok (some c)) :
    ∃ s₁, s.UpdateThreadAssignments s.next = .ok s₁ ∧ s₁.Enabled s.next = true ∧
      (s₁.core s.next).updateClear.Decoded inp c := by
  obtain ⟨s₁, hassign, hrest⟩ := bind_eq_ok.mp hfront
  split at hrest
  · rename_i hon
    obtain ⟨c₀, hstatus, hrest⟩ := bind_eq_ok.mp hrest
    obtain ⟨c₁, hdecode, hrest⟩ := bind_eq_ok.mp hrest
    obtain rfl := Option.some.inj (Except.ok.inj hrest)
    obtain rfl := CoreState.UpdateStatusOfHarts_eq_ok hstatus
    exact ⟨s₁, hassign, hon, CoreState.decode_decoded hdecode⟩
  · cases hrest

theorem executes_eq_some {inp : TickInput} {h r : ℕ} (hexec : s.executes inp = some (h, r)) :
    ∃ c, s.front inp = .ok (some c) ∧ c.triggers = .ok (some (h, r)) := by
  unfold executes at hexec
  split at hexec
  · rename_i c hfront
    exact ⟨c, hfront, toOption_eq_some.mp (Option.join_eq_some_iff.mp hexec)⟩
  · cases hexec

theorem trigger_of_triggers {c : CoreState} {h r : ℕ} (hok : c.triggers = .ok (some (h, r))) :
    (c.regs r).trigger = false := by
  unfold CoreState.triggers at hok
  split at hok
  · cases hok
  · obtain ⟨r', -, hok⟩ := bind_eq_ok.mp hok
    have hsome := Except.ok.inj hok
    split at hsome
    · rename_i hcond
      obtain ⟨-, rfl⟩ := Prod.mk.inj (Option.some.inj hsome)
      simpa using (Bool.and_eq_true_iff.mp hcond).1
    · cases hsome

/-- After a thread `A` has joined the thread `B`, no instruction of `A` is executed
    before `B` is completed. -/
theorem join_safe {numCores numHarts MainThreadID StartAddr : ℕ} {tr : List (CPU × Event)}
    (hrun : Run step (init numCores numHarts MainThreadID StartAddr) tr s)
    (hids : (s.created.map Prod.fst).Nodup) (hnext : s.next < s.numCores) {A a0 : ℕ}
    (hjoin : (A, a0) ∈ s.joins) (hB : a0 % 2 ^ 32 ≠ 0) {inp : TickInput} {h r : ℕ}
    (hexec : s.executes inp = some (h, r)) (hA : (A, r) ∈ s.created) :
    ∃ u ∈ s.CompletedThreads, u.ID = a0 % 2 ^ 32 := by
  have hwf := run_wf hrun
  rcases run_waiting hrun hids A a0 hjoin hB with hdone | ⟨t, hmem, hwaits⟩
  · exact hdone
  · exfalso
    rcases hmem with hmem | ⟨hmem, -⟩
    · have hkey : t.key = (A, r) := List.inj_on_of_nodup_map hids
        (hwf.sound.blocked_created hids hmem) hA hwaits.id
      have hreg : t.VirtRegState = r := congrArg Prod.snd hkey
      obtain ⟨c, hfront, htriggers⟩ := executes_eq_some hexec
      obtain ⟨s₁, hassign, hon, hdec⟩ := front_eq_ok hfront
      have hs₁ := hwf.sound.UpdateThreadAssignments hnext hassign
      obtain ⟨hnum, hcreated, hblocked, hregs⟩ : s₁.numCores = s.numCores ∧ s₁.created = s.created ∧
          s₁.BlockedThreads = s.BlockedThreads ∧ s₁.regs = s.regs := by
        cases UpdateThreadAssignments_cases hassign with
        | stay => exact ⟨rfl, rfl, rfl, rfl⟩
        | assign _ _ _ => exact ⟨rfl, rfl, rfl, rfl⟩
      have hcore := hs₁.cores s.next (by omega)
      have hbegun := CoreState.Decoded.begun (c := (s₁.core s.next).updateClear) hcore.exec
        (hcore.decodeID (hcore.enabled hon)) hdec
      have hfree := hbegun.trigger r fun h hh u hu => by
        rw [← hreg]
        exact hs₁.blocked_off (hcreated ▸ hids) (hblocked ▸ hmem) (by omega) hh hu
      have htrue : (s.regs r).trigger = true := by
        rw [← hreg]
        exact hwaits.trigger
      rw [trigger_of_triggers htriggers] at hfree
      have hsame : ((s₁.core s.next).updateClear.regs r).trigger = (s.regs r).trigger := by
        rw [← hregs]
        rfl
      rw [hsame, htrue] at hfree
      cases hfree
    · cases hmem

theorem join_seven_safe :
    ∃ tr s, Run step (init 1 2 1 4096) tr s ∧ s.joins = [(1, 7)] ∧
      s.executes retTick = some (0, 0) ∧ ∃ u ∈ s.CompletedThreads, u.ID = 7 := by
  have hsome : ((exec step (init 1 2 1 4096)
      [.turn (ecallTick 4096 (.create 7 8192)) true, .finish false,
        .turn (ecallTick 4100 (.join 7)) true, .finish false,
        .turn retTick true, .finish false]).map fun s =>
      (s.created, s.joins, s.executes retTick, decide (s.next < s.numCores))) =
      some ([(1, 0), (7, 1)], [(1, 7)], some (0, 0), true) := by decide
  obtain ⟨s, hexec, hstate⟩ := Option.map_eq_some_iff.mp hsome
  obtain ⟨hcreated, hjoins, hexecutes, hnext⟩ : s.created = [(1, 0), (7, 1)] ∧ s.joins = [(1, 7)] ∧
      s.executes retTick = some (0, 0) ∧ s.next < s.numCores := by simpa using hstate
  have hrun := run_of_exec _ hexec
  have hjoin : (1, 7) ∈ s.joins := by
    rw [hjoins]
    decide
  have hA : (1, 0) ∈ s.created := by
    rw [hcreated]
    decide
  refine ⟨_, s, hrun, hjoins, hexecutes, ?_⟩
  exact join_safe hrun (by rw [hcreated]; decide) hnext hjoin (by decide) hexecutes hA

end CPU

end RevCPU.Sched
