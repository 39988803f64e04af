import RevCPU.Sched.Ticked

namespace RevCPU.Sched

open Lib

namespace CPU

variable {s s' : CPU}

/-- What `UpdateThreadAssignments` can do for core `i`. -/
inductive Assigned (s : CPU) (i : ℕ) : CPU → Prop
  | stay : Assigned s i s
  | assign {t : RevThread} {rest : List RevThread} {h : ℕ} (hready : s.ReadyThreads = t :: rest)
      (hlt : h < (s.Procs i).numHarts) (hidle : (s.Procs i).IdleHarts h = true) :
      Assigned s i { s with
        Procs := Function.update s.Procs i { s.Procs i with
          Harts := Function.update (s.Procs i).Harts h (some { t with State := .RUNNING })
          IdleHarts := Function.update (s.Procs i).IdleHarts h false }
        ReadyThreads := rest
        Enabled := Function.update s.Enabled i true }

theorem UpdateThreadAssignments_cases {i : ℕ} (hok : s.UpdateThreadAssignments i = .ok s') :
    Assigned s i s' := by
  unfold UpdateThreadAssignments at hok
  split at hok
  · obtain rfl := Except.ok.inj hok
    exact .stay
  · rename_i t rest hready
    split at hok
    · obtain ⟨p, hassign, hok⟩ := bind_eq_ok.mp hok
      obtain rfl := Except.ok.inj hok
      unfold AssignThread at hassign
      split at hassign
      · cases hassign
      · rename_i h hfind
        obtain rfl := Except.ok.inj hassign
        exact .assign hready (List.mem_range.mp (List.mem_of_find?_eq_some hfind))
          (List.find?_some hfind)
    · obtain rfl := Except.ok.inj hok
      exact .stay

/-- `ClockTick` always returns true. -/
theorem rtn_eq {c c' : CoreState} {inp : TickInput} {rtn : Bool}
    (hok : c.ClockTick inp = .ok (c', rtn)) : rtn = true := by
  obtain ⟨c₀, -, hok⟩ := bind_eq_ok.mp hok
  obtain ⟨c₁, -, hok⟩ := bind_eq_ok.mp hok
  obtain ⟨c₂, -, hok⟩ := bind_eq_ok.mp hok
  obtain ⟨c₃, -, hok⟩ := bind_eq_ok.mp hok
  obtain ⟨c₄, -, hok⟩ := bind_eq_ok.mp hok
  exact (Prod.mk.inj (Except.ok.inj hok)).2.symm

/-- What the call of `ClockTick` can do for core `i`. -/
inductive Clocked (s : CPU) (i : ℕ) (inp : TickInput) : CPU → Prop
  | off (hoff : s.Enabled i = false) : Clocked s i inp s
  | tick {c : CoreState} (hon : s.Enabled i = true) (htick : (s.core i).ClockTick inp = .ok (c, true)) :
      Clocked s i inp (s.setCore i c)

theorem clockCore_cases {i : ℕ} {inp : TickInput} (hok : s.clockCore i inp = .ok s') :
    Clocked s i inp s' := by
  unfold clockCore at hok
  split at hok
  · rename_i hon
    obtain ⟨⟨c, rtn⟩, htick, hok⟩ := bind_eq_ok.mp hok
    obtain rfl := rtn_eq htick
    obtain rfl := Except.ok.inj hok
    exact .tick hon htick
  · rename_i hoff
    obtain rfl := Except.ok.inj hok
    exact .off (by simpa using hoff)

/-- What the handling of the threads `ts` does. -/
structure Handled (s : CPU) (ts : List RevThread) (s' : CPU) : Prop where
  numCores : s'.numCores = s.numCores
  procs : s'.Procs = s.Procs
  regs : s'.regs = s.regs
  nextReg : s'.nextReg = s.nextReg
  created : s'.created = s.created
  joins : s'.joins = s.joins
  next : s'.next = s.next
  coDone : s'.coDone = s.coDone
  ended : s'.ended = s.ended
  ready : s'.ReadyThreads =
    s.ReadyThreads ++ (ts.filter (·.State = .START)).map fun t => { t with State := .READY }
  blocked : s'.BlockedThreads = s.BlockedThreads ++ ts.filter (·.State = .BLOCKED)
  completed : ∀ t, t ∈ s.CompletedThreads → t ∈ s'.CompletedThreads
  done : ∀ t, t ∈ s'.CompletedThreads → t ∈ s.CompletedThreads ∨ t ∈ ts ∧ t.State = .DONE

theorem handleThread_handled {t : RevThread} (hok : s.handleThread t = .ok s') :
    Handled s [t] s' ∧ s'.Enabled = s.Enabled := by
  unfold handleThread at hok
  split at hok
  · rename_i hst
    obtain rfl := Except.ok.inj hok
    refine ⟨⟨rfl, rfl, rfl, rfl, rfl, rfl, rfl, rfl, rfl, by simp [hst], by simp [hst], ?_, ?_⟩, rfl⟩
    · intro u hu
      simp only []
      split
      · exact hu
      · exact List.mem_append_left _ hu
    · intro u hu
      simp only [] at hu
      split at hu
      · exact .inl hu
      · rcases List.mem_append.mp hu with hu | hu
        · exact .inl hu
        · obtain rfl := List.mem_singleton.mp hu
          exact .inr ⟨by simp, hst⟩
  · rename_i hst
    obtain rfl := Except.ok.inj hok
    exact ⟨⟨rfl, rfl, rfl, rfl, rfl, rfl, rfl, rfl, rfl, by simp [hst], by simp [hst], fun _ hu => hu,
      fun _ hu => .inl hu⟩, rfl⟩
  · rename_i hst
    obtain rfl := Except.ok.inj hok
    exact ⟨⟨rfl, rfl, rfl, rfl, rfl, rfl, rfl, rfl, rfl, by simp [hst], by simp [hst], fun _ hu => hu,
      fun _ hu => .inl hu⟩, rfl⟩
  · rename_i hst
    obtain rfl := Except.ok.inj hok
    exact ⟨⟨rfl, rfl, rfl, rfl, rfl, rfl, rfl, rfl, rfl, by simp [hst], by simp [hst], fun _ hu => hu,
      fun _ hu => .inl hu⟩, rfl⟩
  · cases hok

theorem Handled.setEnabled {ts : List RevThread} (h : Handled s ts s') (i : ℕ) (b : Bool) :
    Handled s ts (s'.setEnabled i b) :=
  ⟨h.numCores, h.procs, h.regs, h.nextReg, h.created, h.joins, h.next, h.coDone, h.ended, h.ready,
    h.blocked, h.completed, h.done⟩

theorem Handled.append {s₁ : CPU} {ts us : List RevThread} (h : Handled s ts s₁)
    (h' : Handled s₁ us s') : Handled s (ts ++ us) s' where
  numCores := h'.numCores.trans h.numCores
  procs := h'.procs.trans h.procs
  regs := h'.regs.trans h.regs
  nextReg := h'.nextReg.trans h.nextReg
  created := h'.created.trans h.created
  joins := h'.joins.trans h.joins
  next := h'.next.trans h.next
  coDone := h'.coDone.trans h.coDone
  ended := h'.ended.trans h.ended
  ready := by
    rw [h'.ready, h.ready, List.filter_append, List.map_append, List.append_assoc]
  blocked := by
    rw [h'.blocked, h.blocked, List.filter_append, List.append_assoc]
  completed := fun t ht => h'.completed t (h.completed t ht)
  done := by
    intro t ht
    rcases h'.done t ht with ht | ⟨ht, hst⟩
    · rcases h.done t ht with ht | ⟨ht, hst⟩
      · exact .inl ht
      · exact .inr ⟨List.mem_append_left _ ht, hst⟩
    · exact .inr ⟨List.mem_append_right _ ht, hst⟩

/-- The loop of `HandleThreadStateChangesForProc`. -/
theorem handleThreads_handled {i : ℕ} {done : Bool} {ts : List RevThread}
    (hok : handleThreads i done s ts = .ok s') : Handled s ts s' := by
  induction ts generalizing s with
  | nil =>
    obtain rfl := Except.ok.inj hok
    exact ⟨rfl, rfl, rfl, rfl, rfl, rfl, rfl, rfl, rfl, by simp, by simp, fun _ hu => hu,
      fun _ hu => .inl hu⟩
  | cons t ts ih =>
    obtain ⟨s₁, hone, hrest⟩ := bind_eq_ok.mp hok
    obtain ⟨hhandled, -⟩ := handleThread_handled hone
    change Handled s ([t] ++ ts) s'
    refine Handled.append ?_ (ih hrest)
    split
    · exact hhandled.setEnabled i false
    · exact hhandled

/-- What a step can be. -/
inductive Stepped (s : CPU) : Event → CPU → Prop
  | turn {inp : TickInput} {done : Bool} {s₁ : CPU} (hended : s.ended = false)
      (hnext : s.next < s.numCores) (hturn : s.turn s.next inp done = .ok s₁) :
      Stepped s (.turn inp done)
        { s₁ with next := s.next + 1, coDone := Function.update s.coDone s.next done }
  | finish {net : Bool} (hended : s.ended = false) (hnext : s.next = s.numCores) :
      Stepped s (.finish net) { (s.finish net).1 with next := 0, ended := (s.finish net).2 }
  | loadComplete {i : ℕ} {req : MemReq} {c : CoreState} (hended : s.ended = false)
      (hnext : s.next = 0) (hi : i < s.numCores) (hc : (s.core i).MarkLoadComplete req = .ok c) :
      Stepped s (.loadComplete i req) (s.setCore i c)

theorem step_cases {ev : Event} (hstep : s.step ev = some s') : Stepped s ev s' := by
  have hok := toOption_eq_some.mp hstep
  unfold stepE at hok
  split at hok
  · cases hok
  · rename_i hended
    rw [Bool.not_eq_true] at hended
    cases ev with
    | turn inp done =>
      simp only [] at hok
      split at hok
      · rename_i hnext
        obtain ⟨s₁, hturn, hok⟩ := bind_eq_ok.mp hok
        obtain rfl := Except.ok.inj hok
        exact .turn hended hnext hturn
      · cases hok
    | finish net =>
      simp only [] at hok
      split at hok
      · rename_i hnext
        obtain rfl := Except.ok.inj hok
        exact .finish hended hnext
      · cases hok
    | loadComplete i req =>
      simp only [] at hok
      split at hok
      · rename_i hcond
        obtain ⟨c, hc, hok⟩ := bind_eq_ok.mp hok
        obtain rfl := Except.ok.inj hok
        exact .loadComplete hended hcond.1 hcond.2 hc
      · cases hok

/-- What the end of `clockTick` can do. -/
theorem finish_cases (s : CPU) (net : Bool) :
    (s.finish net).1 = s ∨ (s.finish net).1 = s.CheckBlockedThreads := by
  unfold finish
  simp only []
  split
  · exact .inl rfl
  · split
    · exact .inr rfl
    · exact .inl rfl

end CPU

end RevCPU.Sched
