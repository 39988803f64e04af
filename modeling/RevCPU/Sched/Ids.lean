import RevCPU.Sched.Threads

namespace RevCPU.Sched

open Lib

namespace CoreState

variable {c c' : CoreState}

/-- The threads after a system call: `pthread_create` adds one. -/
theorem Ecalls_created {h : ℕ} {e : Ecall} {success : Bool} (hok : c.Ecalls h e = .ok (c', success)) :
    c'.created = c.created ∨
      ∃ NewTID firstPC, e = .create NewTID firstPC ∧
        c'.created = c.created ++ [(NewTID, c.nextReg)] := by
  cases e with
  | create NewTID firstPC =>
    obtain ⟨rfl, -⟩ := Prod.mk.inj (Except.ok.inj hok)
    exact .inr ⟨NewTID, firstPC, rfl, rfl⟩
  | join a0 =>
    obtain ⟨free, -, hok⟩ := bind_eq_ok.mp hok
    split at hok
    · obtain ⟨⟨c₁, t⟩, hpop, hok⟩ := bind_eq_ok.mp hok
      obtain ⟨-, -, rfl⟩ := PopThreadFromHart_eq_ok hpop
      obtain ⟨rfl, -⟩ := Prod.mk.inj (Except.ok.inj hok)
      exact .inl rfl
    · obtain ⟨rfl, -⟩ := Prod.mk.inj (Except.ok.inj hok)
      exact .inl rfl
  | other ops success =>
    obtain ⟨c₁, hops, hok⟩ := bind_eq_ok.mp hok
    obtain ⟨rfl, -⟩ := Prod.mk.inj (Except.ok.inj hok)
    exact .inl (loadOps_booked hops).created

theorem dispatch_created {h r : ℕ} {f : Fetched} {e : Executed} (hok : c.dispatch h r f e = .ok c') :
    c'.created = c.created ∨
      ∃ NewTID firstPC, e.ecall = some (.create NewTID firstPC) ∧
        c'.created = c.created ++ [(NewTID, c.nextReg)] := by
  obtain ⟨c₁, hset, hok⟩ := bind_eq_ok.mp hok
  obtain ⟨c₂, hops, hok⟩ := bind_eq_ok.mp hok
  have hbooked := (DependencySet_booked hset).trans (loadOps_booked hops)
  have hcreated : c₂.created = c.created := hbooked.created
  have hnext : c₂.nextReg = c.nextReg := hbooked.nextReg
  simp only [] at hok
  split at hok
  · obtain rfl := Except.ok.inj hok
    exact .inl hcreated
  · rename_i call hcall
    obtain ⟨_, -, hok⟩ := bind_eq_ok.mp hok
    obtain ⟨⟨c₄, success⟩, hecall, hok⟩ := bind_eq_ok.mp hok
    have hsame : c'.created = c₄.created := by
      simp only [] at hok
      split at hok
      · rw [← Except.ok.inj hok]
      · rw [← Except.ok.inj hok]
        rfl
    rw [hsame]
    rcases Ecalls_created hecall with hkeep | ⟨NewTID, firstPC, rfl, hnew⟩
    · exact .inl (hkeep.trans hcreated)
    · refine .inr ⟨NewTID, firstPC, hcall, ?_⟩
      rw [hnew]
      exact congrArg₂ (fun l n => l ++ [(NewTID, n)]) hcreated hnext

/-- The threads after a tick. -/
theorem ClockTick_created {i : TickInput} {rtn : Bool} (hexec : c.ExecOk)
    (hlt : c.proc.HartToDecodeID < c.proc.numHarts) (hok : c.ClockTick i = .ok (c', rtn)) :
    c'.created = c.created ∨
      ∃ e NewTID firstPC, i.executed = some e ∧ e.ecall = some (.create NewTID firstPC) ∧
        c'.created = c.created ++ [(NewTID, c.nextReg)] := by
  obtain ⟨c₀, hstatus, hok⟩ := bind_eq_ok.mp hok
  obtain ⟨c₁, hdecode, hok⟩ := bind_eq_ok.mp hok
  obtain ⟨c₂, hexecute, hok⟩ := bind_eq_ok.mp hok
  obtain ⟨c₃, hretire, hok⟩ := bind_eq_ok.mp hok
  obtain ⟨c₄, hcomplete, hok⟩ := bind_eq_ok.mp hok
  obtain ⟨rfl, -⟩ := Prod.mk.inj (Except.ok.inj hok)
  obtain rfl := UpdateStatusOfHarts_eq_ok hstatus
  have hbegun := Decoded.begun (c := c.updateClear) hexec hlt (decode_decoded hdecode)
  have hcreated₁ : c₁.created = c.created := congrArg View.created hbegun.view
  have hnext₁ : c₁.nextReg = c.nextReg := congrArg View.nextReg hbegun.view
  have hretired := retire_retired hretire
  have hcreated₃ : c₃.created = c₂.created := congrArg View.created hretired.view
  have hstill : Still c₁ c₂ := by
    rcases execute_eq_ok hexecute with ⟨-, rfl⟩ | ⟨h, r, f, e, -, -, -, hdisp⟩
    · exact .refl c₂
    · exact (dispatch_dispatched hdisp).still
  have hexec₃ : c₃.ExecOk := by
    rw [ExecOk, hretired.still.execID, hretired.still.decodeID, hstill.execID, hstill.decodeID]
    exact hbegun.exec
  have hcreated₄ : c₄.created = c₃.created := by
    rcases complete_cases hexec₃ hcomplete with rfl | ⟨t, hdone⟩
    · rfl
    · exact congrArg View.created hdone.view
  rw [hcreated₄, hcreated₃]
  rcases execute_eq_ok hexecute with ⟨-, rfl⟩ | ⟨h, r, f, e, -, -, he, hdisp⟩
  · exact .inl hcreated₁
  · rcases dispatch_created hdisp with hkeep | ⟨NewTID, firstPC, hcall, hnew⟩
    · exact .inl (hkeep.trans hcreated₁)
    · exact .inr ⟨e, NewTID, firstPC, he, hcall, by rw [hnew, hcreated₁, hnext₁]⟩

end CoreState

namespace CPU

variable {s s' : CPU}

/-- `MainThreadID` of the component `id`. -/
def MainThreadID (id : ℕ) : ℕ := (id + 1) % 2 ^ 32

/-- The ids of the threads that `pthread_create` makes are the outputs of
    `GetNewThreadID`, one after the other: `RevRand(0, UINT32_MAX)`. -/
def Drawn (rand : ℕ → Fin (2 ^ 32)) (s : CPU) : Event → Prop
  | .turn inp _ => ∀ e NewTID firstPC, inp.executed = some e →
      e.ecall = some (.create NewTID firstPC) → NewTID = rand (s.created.length - 1)
  | _ => True

/-- The ids that the main thread and the first `n` created threads get. -/
def ids (id : ℕ) (rand : ℕ → Fin (2 ^ 32)) (n : ℕ) : List ℕ :=
  MainThreadID id :: (List.range n).map fun k => (rand k).val

theorem step_created {ev : Event} (hs : s.Wf) (hstep : s.step ev = some s') :
    s'.created = s.created ∨
      ∃ inp done e NewTID firstPC, ev = .turn inp done ∧ inp.executed = some e ∧
        e.ecall = some (.create NewTID firstPC) ∧
        s'.created = s.created ++ [(NewTID, s.nextReg)] := by
  cases step_cases hstep with
  | @turn inp done s₁ hended hnext hturn =>
    obtain ⟨t₁, t₂, t₃, hassign, hclock, hhandle, heq, ht₁, -, -, hnum, -⟩ :=
      turn_parts hs.sound hnext hturn
    have h₁ : t₁.created = s.created ∧ t₁.nextReg = s.nextReg := by
      cases UpdateThreadAssignments_cases hassign with
      | stay => exact ⟨rfl, rfl⟩
      | assign _ _ _ => exact ⟨rfl, rfl⟩
    have h₃ : t₃.created = t₂.created := (handleThreads_handled hhandle).created
    have hlast : s₁.created = t₂.created := by
      rw [heq]
      split
      · exact h₃
      · exact h₃
    simp only [hlast]
    cases clockCore_cases hclock with
    | off _ => exact .inl h₁.1
    | @tick c hon htick =>
      have hcore := ht₁.cores s.next (by omega)
      rcases CoreState.ClockTick_created (c := t₁.core s.next) hcore.exec
        (hcore.decodeID (hcore.enabled hon)) htick with hkeep | ⟨e, NewTID, firstPC, he, hcall, hnew⟩
      · exact .inl (hkeep.trans h₁.1)
      · refine .inr ⟨inp, done, e, NewTID, firstPC, rfl, he, hcall, ?_⟩
        rw [← h₁.1, ← h₁.2]
        exact hnew
  | @finish net hended hnext =>
    left
    rcases finish_cases s net with heq | heq
    · rw [heq]
    · rw [heq]
      rfl
  | @loadComplete i req c hended hnext hi hc =>
    exact .inl (CoreState.MarkLoadComplete_booked hc).created

/-- The ids in the order in which the threads were created. -/
theorem run_ids {numCores numHarts id StartAddr : ℕ} {rand : ℕ → Fin (2 ^ 32)}
    {tr : List (CPU × Event)}
    (hrun : Run step (init numCores numHarts (MainThreadID id) StartAddr) tr s)
    (hdrawn : ∀ p ∈ tr, p.1.Drawn rand p.2) :
    ∃ n, s.created.length = n + 1 ∧ s.created.map Prod.fst = ids id rand n := by
  induction hrun with
  | nil => exact ⟨0, rfl, rfl⟩
  | @snoc tr s s' ev hrun hstep ih =>
    obtain ⟨n, hlen, hids⟩ := ih fun p hp => hdrawn p (List.mem_append_left _ hp)
    rcases step_created (run_wf hrun) hstep with
      hkeep | ⟨inp, done, e, NewTID, firstPC, rfl, he, hcall, hnew⟩
    · rw [hkeep]
      exact ⟨n, hlen, hids⟩
    · have hid : NewTID = rand (s.created.length - 1) :=
        hdrawn (s, .turn inp done) (by simp) e NewTID firstPC he hcall
      refine ⟨n + 1, by rw [hnew, List.length_append, hlen]; rfl, ?_⟩
      rw [hnew, List.map_append, hids, hid, hlen]
      simp [ids, List.range_succ]

/-- A created thread that is neither ready nor blocked nor on a hart is recorded
    in `CompletedThreads` under its id. -/
def Recorded (s : CPU) : Prop :=
  ∀ q ∈ s.created, Sched.occ q s.ReadyThreads = 0 → Sched.occ q s.BlockedThreads = 0 →
    (∀ i < s.numCores, hartsOcc q (s.Procs i).numHarts (s.Procs i).Harts = 0) →
    ∃ t ∈ s.CompletedThreads, t.key = q

/-- The ids tell the threads apart, and none is the one that stands for no thread. -/
structure Identified (s : CPU) : Prop where
  nonzero : ∀ q ∈ s.created, q.1 ≠ INVALID_TID
  distinct : (s.created.map Prod.fst).Nodup
  recorded : s.Recorded

theorem Wf.recorded (hs : s.Wf) (hids : (s.created.map Prod.fst).Nodup) : s.Recorded := by
  intro q hq hready hblocked hharts
  have hone : s.places q = 1 := by
    rw [hs.places_count hids q]
    exact List.count_eq_one_of_mem (List.Nodup.of_map _ hids) hq
  have hzero : ∑ i ∈ Finset.range s.numCores, hartsOcc q (s.Procs i).numHarts (s.Procs i).Harts = 0 :=
    Finset.sum_eq_zero fun i hi => hharts i (Finset.mem_range.mp hi)
  rw [places, hready, hblocked, hzero] at hone
  have hpos : 0 < Sched.occ q s.CompletedThreads := by omega
  obtain ⟨t, ht, hkey⟩ := List.mem_map.mp (List.count_pos_iff.mp hpos)
  exact ⟨t, ht, hkey⟩

/-- The id of the main thread is not zero, and none of the first `n` outputs of the
    generator is zero, the id of the main thread or an earlier output. -/
def FreshDraws (id : ℕ) (rand : ℕ → Fin (2 ^ 32)) (n : ℕ) : Prop :=
  MainThreadID id ≠ 0 ∧ ∀ k < n, (rand k).val ≠ 0 ∧ (rand k).val ≠ MainThreadID id ∧
    ∀ j < k, (rand j).val ≠ (rand k).val

theorem ids_nodup_iff (id : ℕ) (rand : ℕ → Fin (2 ^ 32)) (n : ℕ) :
    ((∀ x ∈ ids id rand n, x ≠ 0) ∧ (ids id rand n).Nodup) ↔ FreshDraws id rand n := by
  unfold ids FreshDraws
  rw [List.nodup_cons, List.nodup_map_iff_inj_on List.nodup_range]
  simp only [List.mem_cons, List.mem_map, List.mem_range, not_exists, not_and, forall_eq_or_imp,
    forall_exists_index, and_imp]
  constructor
  · rintro ⟨⟨hmain, hzero⟩, hne, hinj⟩
    refine ⟨hmain, fun k hk => ⟨hzero _ k hk rfl, hne k hk, ?_⟩⟩
    intro j hj heq
    have := hinj j (by omega) k hk heq
    omega
  · rintro ⟨hmain, hdraws⟩
    refine ⟨⟨hmain, ?_⟩, fun k hk => (hdraws k hk).2.1, ?_⟩
    · rintro x k hk rfl
      exact (hdraws k hk).1
    · intro j hj k hk heq
      rcases Nat.lt_trichotomy j k with hlt | rfl | hlt
      · exact absurd heq ((hdraws k hk).2.2 j hlt)
      · rfl
      · exact absurd heq.symm ((hdraws j hj).2.2 k hlt)

/-- The ids identify the threads exactly if the outputs that were drawn for them
    are fresh. -/
theorem identified_iff {numCores numHarts id StartAddr : ℕ} {rand : ℕ → Fin (2 ^ 32)}
    {tr : List (CPU × Event)}
    (hrun : Run step (init numCores numHarts (MainThreadID id) StartAddr) tr s)
    (hdrawn : ∀ p ∈ tr, p.1.Drawn rand p.2) :
    s.Identified ↔ FreshDraws id rand (s.created.length - 1) := by
  obtain ⟨n, hlen, hids⟩ := run_ids hrun hdrawn
  rw [hlen, Nat.add_sub_cancel, ← ids_nodup_iff, ← hids]
  constructor
  · intro h
    refine ⟨?_, h.distinct⟩
    intro x hx
    obtain ⟨q, hq, rfl⟩ := List.mem_map.mp hx
    exact h.nonzero q hq
  · rintro ⟨hnonzero, hnodup⟩
    exact ⟨fun q hq => hnonzero q.1 (List.mem_map_of_mem hq), hnodup, (run_wf hrun).recorded hnodup⟩

/-- The main thread creates a thread; both return. -/
def createAndReturn (NewTID : ℕ) : List Event :=
  [.turn (ecallTick 4096 (.create NewTID 8192)) true, .finish false, .turn retTick true,
    .finish false, .turn retTick true, .finish false]

theorem createAndReturn_drawn (NewTID : Fin (2 ^ 32)) :
    ∀ p ∈ trace step (init 1 2 (MainThreadID 0) 4096) (createAndReturn NewTID),
      p.1.Drawn (fun _ => NewTID) p.2 := by
  rintro ⟨s, ev⟩ hp
  have hev := trace_label hp
  simp only [createAndReturn, List.mem_cons, List.not_mem_nil, or_false] at hev
  rcases hev with rfl | rfl | rfl | rfl | rfl | rfl
  · rintro e NewTID' firstPC he hcall
    obtain rfl := Option.some.inj he
    cases hcall
    rfl
  · trivial
  · rintro e NewTID' firstPC he hcall
    obtain rfl := Option.some.inj he
    cases hcall
  · trivial
  · rintro e NewTID' firstPC he hcall
    obtain rfl := Option.some.inj he
    cases hcall
  · trivial

theorem seven_identified :
    ∃ tr s, Run step (init 1 2 (MainThreadID 0) 4096) tr s ∧
      (∀ p ∈ tr, p.1.Drawn (fun _ => 7) p.2) ∧ s.created.length = 2 ∧
      FreshDraws 0 (fun _ => 7) (s.created.length - 1) ∧ s.Identified := by
  have hsome : ((exec step (init 1 2 (MainThreadID 0) 4096) (createAndReturn 7)).map fun s =>
      s.created.length) = some 2 := by decide
  obtain ⟨s, hexec, hlen⟩ := Option.map_eq_some_iff.mp hsome
  have hrun := run_of_exec _ hexec
  have hdrawn := createAndReturn_drawn 7
  have hfresh : FreshDraws 0 (fun _ => 7) (s.created.length - 1) := by
    rw [hlen]
    unfold FreshDraws
    decide
  exact ⟨_, s, hrun, hdrawn, hlen, hfresh, (identified_iff hrun hdrawn).mpr hfresh⟩

/-- The generator hands out the id of the main thread: the second thread that
    returns is not recorded. -/
theorem collision_not_identified :
    ∃ tr s, Run step (init 1 2 (MainThreadID 0) 4096) tr s ∧
      (∀ p ∈ tr, p.1.Drawn (fun _ => 1) p.2) ∧ s.ended = true ∧
      ¬(s.created.map Prod.fst).Nodup ∧ ¬s.Recorded := by
  have hsome : ((exec step (init 1 2 (MainThreadID 0) 4096) (createAndReturn 1)).map fun s =>
      (s.ended, s.created, s.CompletedThreads.map RevThread.key)) =
      some (true, [(1, 0), (1, 1)], [(1, 0)]) := by decide
  obtain ⟨s, hexec, hstate⟩ := Option.map_eq_some_iff.mp hsome
  obtain ⟨hended, hcreated, hcompleted⟩ : s.ended = true ∧ s.created = [(1, 0), (1, 1)] ∧
      s.CompletedThreads.map RevThread.key = [(1, 0)] := by simpa using hstate
  have hrun := run_of_exec _ hexec
  have hs := run_wf hrun
  obtain ⟨hoff, hready, hblocked⟩ := hs.finished hended
  refine ⟨_, s, hrun, createAndReturn_drawn 1, hended, by rw [hcreated]; decide, ?_⟩
  intro hrecorded
  obtain ⟨t, ht, hkey⟩ := hrecorded (1, 1) (by rw [hcreated]; decide) (by rw [hready, occ_nil])
    (by rw [hblocked, occ_nil]) fun i hi => (hoff i hi ▸ hs.sound.cores i hi).off_occ _
  have hmem : (1, 1) ∈ s.CompletedThreads.map RevThread.key := List.mem_map.mpr ⟨t, ht, hkey⟩
  rw [hcompleted] at hmem
  exact absurd hmem (by decide)

end CPU

end RevCPU.Sched
