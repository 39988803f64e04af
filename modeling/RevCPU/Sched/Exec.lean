import RevCPU.Sched.CoProc
import RevCPU.Sched.Join

namespace RevCPU.Sched

open Lib

namespace CoreState

variable {c c' : CoreState}

/-- `PopThreadFromHart` is called on an empty hart nowhere in a computation. -/
def NoPop {α : Type} (x : Except Fault α) : Prop := x ≠ .error .popEmpty

theorem NoPop.bind {α β : Type} {x : Except Fault α} {f : α → Except Fault β} (hx : NoPop x)
    (hf : ∀ a, x = .ok a → NoPop (f a)) : NoPop (x >>= f) := bind_ne_error hx hf

@[simp] theorem NoPop.ok {α : Type} (a : α) : NoPop (.ok a) := nofun

@[simp] theorem NoPop.pure {α : Type} (a : α) : NoPop (pure a) := nofun

theorem hartReg_noPop (c : CoreState) (h : ℕ) : NoPop (c.hartReg h) := by
  unfold hartReg
  split
  · simp
  · nofun

theorem curReg_noPop (c : CoreState) : NoPop c.curReg := by
  unfold curReg
  split
  · simp
  · nofun

theorem DependencySet_noPop (c : CoreState) (h reg : ℕ) (isFloat value : Bool) :
    NoPop (c.DependencySet h reg isFloat value) := by
  unfold DependencySet
  split
  · split
    · split
      · exact (c.hartReg_noPop h).bind fun _ _ => by simp
      · split
        · exact (c.hartReg_noPop h).bind fun _ _ => by simp
        · simp
    · nofun
  · simp

theorem MarkLoadComplete_noPop (c : CoreState) (req : MemReq) : NoPop (c.MarkLoadComplete req) := by
  unfold MarkLoadComplete
  split
  · nofun
  · refine NoPop.bind ?_ fun _ _ => by simp
    split
    · exact c.DependencySet_noPop _ _ _ _
    · simp

theorem loadOps_noPop (c : CoreState) (h : ℕ) (ops : List LoadOp) : NoPop (c.loadOps h ops) := by
  induction ops generalizing c with
  | nil => simp [loadOps]
  | cons op ops ih =>
    refine NoPop.bind ?_ fun c' _ => ih c'
    cases op with
    | insert req => simp [loadOp]
    | complete req => exact c.MarkLoadComplete_noPop req
    | dependency reg value => exact c.DependencySet_noPop h reg false value

theorem HartHasNoDependencies_noPop (c : CoreState) (h : ℕ) : NoPop (c.HartHasNoDependencies h) :=
  (c.hartReg_noPop h).bind fun _ _ => by simp

/-- A hart that `HartHasNoDependencies` has looked at has a thread. -/
theorem PopThreadFromHart_noPop {h : ℕ} {free : Bool} (hfree : c.HartHasNoDependencies h = .ok free) :
    NoPop (c.PopThreadFromHart h) := by
  obtain ⟨t, ht, -⟩ := HartHasNoDependencies_eq_ok hfree
  unfold PopThreadFromHart
  rw [ht]
  split
  · simp
  · nofun

theorem Ecalls_noPop (c : CoreState) (h : ℕ) (e : Ecall) : NoPop (c.Ecalls h e) := by
  cases e with
  | create NewTID firstPC => simp [Ecalls]
  | join a0 =>
    refine (c.HartHasNoDependencies_noPop h).bind fun free hfree => ?_
    split
    · exact (PopThreadFromHart_noPop hfree).bind fun _ _ => by simp
    · simp
  | other ops success => exact (c.loadOps_noPop h ops).bind fun _ _ => by simp

theorem dispatch_noPop (c : CoreState) (h r : ℕ) (f : Fetched) (e : Executed) :
    NoPop (c.dispatch h r f e) := by
  refine NoPop.bind (DependencySet_noPop _ _ _ _ _) fun c₁ _ => ?_
  refine NoPop.bind (loadOps_noPop _ _ _) fun c₂ _ => ?_
  simp only []
  split
  · simp
  · refine NoPop.bind (hartReg_noPop _ _) fun _ _ => ?_
    refine NoPop.bind (Ecalls_noPop _ _ _) fun ⟨c₃, success⟩ _ => ?_
    simp only []
    split
    · simp
    · simp

theorem decode_noPop (c : CoreState) (i : TickInput) : NoPop (c.decode i) := by
  unfold decode
  split
  · refine NoPop.bind (hartReg_noPop _ _) fun r _ => ?_
    simp only []
    split
    · simp
    · split
      · nofun
      · split
        · simp
        · simp
  · simp

theorem execute_noPop (c : CoreState) (f : Option Fetched) (i : TickInput) :
    NoPop (c.execute f i) := by
  refine NoPop.bind ?_ fun target _ => ?_
  · unfold triggers
    split
    · simp
    · exact (c.curReg_noPop).bind fun _ _ => by simp
  · split
    · simp
    · nofun
    · nofun
    · exact dispatch_noPop _ _ _ _ _

theorem retire_noPop (c : CoreState) : NoPop c.retire := by
  unfold retire
  split
  · simp
  · split
    · refine (c.curReg_noPop).bind fun _ _ => NoPop.bind ?_ fun _ _ => by simp
      split
      · exact DependencySet_noPop _ _ _ _ _
      · simp
    · simp

theorem finishThread_noPop {h bits : ℕ} {free : Bool} (hfree : c.HartHasNoDependencies h = .ok free) :
    NoPop (c.finishThread h bits) :=
  (PopThreadFromHart_noPop hfree).bind fun _ _ => by simp

/-- Both tests of the last part of `ClockTick` look at the hart whose thread they
    pop. -/
theorem complete_noPop (hexec : c.ExecOk) : NoPop c.complete := by
  refine (c.curReg_noPop).bind fun r _ => ?_
  split
  · refine (c.HartHasNoDependencies_noPop _).bind fun free hfree => NoPop.bind ?_ fun c₁ hc₁ => ?_
    · split
      · exact finishThread_noPop hfree
      · simp
    · have hexec₁ : c₁.ExecOk := by
        split at hc₁
        · obtain ⟨t, hdone⟩ := finishThread_done hc₁
          rw [ExecOk, hdone.still.execID, hdone.still.decodeID]
          exact hexec
        · obtain rfl := Except.ok.inj hc₁
          exact hexec
      unfold completeExec
      split
      · simp
      · rename_i e he
        split
        · simp
        · refine (c₁.HartHasNoDependencies_noPop _).bind fun free' hfree' => ?_
          split
          · rcases hexec₁ with hnone | hsome
            · rw [hnone] at he
              cases he
            · rw [hsome] at he
              rw [Option.some.inj he]
              exact finishThread_noPop hfree'
          · simp
  · simp

theorem ClockTick_noPop {i : TickInput} (hexec : c.ExecOk)
    (hlt : c.proc.HartToDecodeID < c.proc.numHarts) : NoPop (c.ClockTick i) := by
  refine NoPop.bind ?_ fun c₀ hstatus => ?_
  · unfold UpdateStatusOfHarts
    split
    · nofun
    · simp
  · obtain rfl := UpdateStatusOfHarts_eq_ok hstatus
    refine (decode_noPop _ _).bind fun c₁ hdecode => ?_
    refine (execute_noPop _ _ _).bind fun c₂ hexecute => ?_
    refine (retire_noPop _).bind fun c₃ hretire => ?_
    have hbegun := Decoded.begun (c := c.updateClear) hexec hlt (decode_decoded hdecode)
    have hstill : Still c₁ c₂ := by
      rcases execute_eq_ok hexecute with ⟨-, rfl⟩ | ⟨h, r, f, e, -, -, -, hdisp⟩
      · exact .refl c₂
      · exact (dispatch_dispatched hdisp).still
    have hstill₃ := hstill.trans (retire_retired hretire).still
    have hexec₃ : c₃.ExecOk := by
      rw [ExecOk, hstill₃.execID, hstill₃.decodeID]
      exact hbegun.exec
    exact (complete_noPop hexec₃).bind fun _ _ => by simp

/-- Nothing is in progress on a core or in a register file. -/
structure Drained (c : CoreState) : Prop where
  cost : ∀ r, (c.regs r).cost = 0
  pipeline : c.proc.Pipeline = []

/-- The first instruction of the pipeline retires if its cost is one. -/
theorem retire_drained {h r : ℕ} {f : Fetched} (hpipe : c.proc.Pipeline = [(h, f)])
    (hcost : f.cost = 1) (hreg : c.proc.RegFile = some r) (hothers : ∀ k, k ≠ r → (c.regs k).cost = 0)
    (hok : c.retire = .ok c') : Drained c' := by
  unfold retire at hok
  rw [hpipe] at hok
  simp only [hcost, if_true] at hok
  obtain ⟨r', hr, hok⟩ := bind_eq_ok.mp hok
  unfold curReg at hr
  rw [hreg] at hr
  obtain rfl := Except.ok.inj hr
  obtain ⟨c₁, hclear, hok⟩ := bind_eq_ok.mp hok
  obtain rfl := Except.ok.inj hok
  have hbooked : Booked c c₁ := by
    split at hclear
    · exact DependencySet_booked hclear
    · obtain rfl := Except.ok.inj hclear
      exact .refl c
  refine ⟨?_, rfl⟩
  intro k
  by_cases hk : k = r
  · rw [hk, setReg_regs_self]
  · rw [setReg_regs_ne _ hk]
    exact (hbooked.cost k).trans (hothers k hk)

/-- A hart with a thread is clear to decode when nothing is in progress. -/
theorem Drained.any_clear (hc : Drained c) {h : ℕ} {t : RevThread} (hh : h < c.proc.numHarts)
    (hidle : c.proc.IdleHarts h = false) (ht : c.proc.Harts h = some t) :
    (List.range c.updateClear.proc.numHarts).any c.updateClear.proc.HartsClearToDecode = true := by
  refine List.any_eq_true.mpr ⟨h, List.mem_range.mpr hh, ?_⟩
  simp [updateClear, hidle, ht, hc.cost]

/-- A tick of a core with a thread leaves nothing in progress, if the cost of the
    instruction is one. -/
theorem Drained.ClockTick {i : TickInput} {rtn : Bool} (hc : Drained c)
    (hany : (List.range c.updateClear.proc.numHarts).any c.updateClear.proc.HartsClearToDecode = true)
    (hcost : ∀ f, i.fetched = some f → f.cost = 1) (hok : c.ClockTick i = .ok (c', rtn)) :
    Drained c' := by
  obtain ⟨c₀, hstatus, hok⟩ := bind_eq_ok.mp hok
  obtain ⟨c₁, hdecode, hok⟩ := bind_eq_ok.mp hok
  obtain ⟨c₂, hexecute, hok⟩ := bind_eq_ok.mp hok
  obtain ⟨c₃, hretire, hok⟩ := bind_eq_ok.mp hok
  obtain ⟨c₄, hcomplete, hok⟩ := bind_eq_ok.mp hok
  obtain ⟨rfl, -⟩ := Prod.mk.inj (Except.ok.inj hok)
  obtain rfl := UpdateStatusOfHarts_eq_ok hstatus
  simp only [hany, if_true] at hexecute
  obtain ⟨hdrained, hexec₃⟩ : Drained c₃ ∧ c₃.ExecOk := by
    cases decode_decoded hdecode with
    | skip hnone _ =>
      rw [hany] at hnone
      cases hnone
    | @stall t _ hdec hnone hzero =>
      have htriggers : c₁.triggers = .ok none := by
        unfold CoreState.triggers
        rw [hnone]
      rcases execute_eq_ok hexecute with ⟨-, rfl⟩ | ⟨h, r, f, e, hsome, -⟩
      · have hpipe : c₂.proc.Pipeline = [] := hdec.pipeline.trans hc.pipeline
        unfold retire at hretire
        rw [hpipe] at hretire
        obtain rfl := Except.ok.inj hretire
        refine ⟨⟨?_, hpipe⟩, .inl hnone⟩
        intro k
        by_cases hk : k = t.VirtRegState
        · rw [hk]
          exact hzero
        · rw [hdec.others k hk]
          exact hc.cost k
      · rw [htriggers] at hsome
        cases hsome
    | @pass t f _ hdec hfetched hsome hclear _ htrigger _ =>
      have htriggers : c₁.triggers =
          .ok (some (c.updateClear.proc.GetNextHartToDecodeID, t.VirtRegState)) := by
        unfold CoreState.triggers CoreState.curReg
        rw [hsome, hdec.regFile]
        simp [bind, Except.bind, pure, Except.pure, htrigger, hclear]
      rcases execute_eq_ok hexecute with ⟨hnone, -⟩ | ⟨h, r, f', e, htarget, hf, -, hdisp⟩
      · rw [htriggers] at hnone
        cases hnone
      · rw [htriggers] at htarget
        obtain ⟨rfl, rfl⟩ := Prod.mk.inj (Option.some.inj (Except.ok.inj htarget))
        have hdispatched := dispatch_dispatched hdisp
        have hpipe : c₂.proc.Pipeline = [(c.updateClear.proc.GetNextHartToDecodeID, f')] := by
          rw [hdispatched.pipeline, hdec.pipeline]
          exact congrArg (· ++ _) hc.pipeline
        refine ⟨retire_drained hpipe (hcost f' hf) (hdispatched.still.regFile.trans hdec.regFile) ?_
          hretire, ?_⟩
        · intro k hk
          rcases hdispatched.cost k hk with hsame | hzero
          · rw [hsame, hdec.others k hk]
            exact hc.cost k
          · exact hzero
        · have hstill := hdispatched.still.trans (retire_retired hretire).still
          right
          rw [hstill.execID, hstill.decodeID, hsome, hdec.decodeID]
  rcases complete_cases hexec₃ hcomplete with rfl | ⟨t, hdone⟩
  · exact hdrained
  · refine ⟨fun r => ?_, ?_⟩
    · rw [hdone.regs]
      exact hdrained.cost r
    · rw [hdone.pipeline]
      exact hdrained.pipeline

end CoreState

theorem RevProc.Ok.busy {p : RevProc} {en : Bool} (hp : p.Ok en) (hbusy : p.HasNoBusyHarts = false) :
    ∃ h < p.numHarts, ∃ t, p.IdleHarts h = false ∧ p.Harts h = some t := by
  unfold HasNoBusyHarts at hbusy
  obtain ⟨h, hmem, hidle⟩ := List.all_eq_false.mp hbusy
  have hlt := List.mem_range.mp hmem
  cases ht : p.Harts h with
  | none => exact absurd ((hp.idle h hlt).mpr ht) hidle
  | some t => exact ⟨h, hlt, t, by simpa using hidle, ht⟩

namespace CPU

variable {s s' : CPU}

/-- The instructions that are fetched have the cost one. -/
def CostOne : Event → Prop
  | .turn inp _ => ∀ f, inp.fetched = some f → f.cost = 1
  | _ => True

/-- Between two turns, when every instruction has the cost one: the cores that are
    on are those with a thread, and nothing is in progress. -/
structure Live (s : CPU) : Prop where
  wf : s.Wf
  on : ∀ i < s.numCores, s.Enabled i = !(s.Procs i).HasNoBusyHarts
  drained : ∀ i < s.numCores, (s.core i).Drained

theorem Live.assigned {i : ℕ} (hs : s.Live) (hi : i < s.numCores)
    (hok : s.UpdateThreadAssignments i = .ok s') :
    (s'.core i).Drained ∧ (s'.Enabled i = true → (s'.Procs i).HasNoBusyHarts = false) := by
  have hdrained := hs.drained i hi
  cases UpdateThreadAssignments_cases hok with
  | stay =>
    refine ⟨hdrained, fun hon => ?_⟩
    rw [hs.on i hi] at hon
    simpa using hon
  | @assign t rest h _ hlt _ =>
    refine ⟨⟨hdrained.cost, ?_⟩, fun _ => ?_⟩
    · simp only [core, Function.update_self]
      exact hdrained.pipeline
    · simp only [Function.update_self, RevProc.HasNoBusyHarts]
      exact List.all_eq_false.mpr ⟨h, List.mem_range.mpr hlt, by simp⟩

/-- A core that is on has a hart that is clear to decode. -/
theorem Live.any_clear {i : ℕ} (hs : s.Live) (hi : i < s.numCores)
    (hok : s.UpdateThreadAssignments i = .ok s') (hon : s'.Enabled i = true) :
    (List.range (s'.core i).updateClear.proc.numHarts).any
      (s'.core i).updateClear.proc.HartsClearToDecode = true := by
  obtain ⟨hdrained, hbusy⟩ := hs.assigned hi hok
  have hsound := hs.wf.sound.UpdateThreadAssignments hi hok
  have hnum : s'.numCores = s.numCores := UpdateThreadAssignments_numCores hok
  obtain ⟨h, hh, t, hidle, ht⟩ := (hsound.cores i (by omega)).busy (hbusy hon)
  exact hdrained.any_clear hh hidle ht

theorem Live.turn {i : ℕ} {inp : TickInput} {done : Bool} (hs : s.Live) (hi : i < s.numCores)
    (hcost : ∀ f, inp.fetched = some f → f.cost = 1) (hok : s.turn i inp done = .ok s') :
    (∀ k < s'.numCores, s'.Enabled k = !(s'.Procs k).HasNoBusyHarts) ∧
      ∀ k < s'.numCores, (s'.core k).Drained := by
  obtain ⟨hother, s₁, s₂, hassign, hclock, hen⟩ := turn_enabled hs.wf hi hok
  obtain ⟨s₁', s₂', s₃, hassign', hclock', hhandle, heq, hs₁, hs₂, hs₃, hnum₁, hnum₂, hnum₃, hprocs⟩ :=
    turn_parts hs.wf.sound hi hok
  obtain rfl := Except.ok.inj (hassign.symm.trans hassign')
  obtain rfl := Except.ok.inj (hclock.symm.trans hclock')
  have hnum : s'.numCores = s.numCores := by
    rw [heq]
    split
    · exact hnum₃
    · exact hnum₃
  have hsame : s'.Procs = s₃.Procs ∧ s'.regs = s₂.regs := by
    have hregs : s₃.regs = s₂.regs := (handleThreads_handled hhandle).regs
    rw [heq]
    split
    · exact ⟨rfl, hregs⟩
    · exact ⟨rfl, hregs⟩
  have hfar : ∀ k, k ≠ i → s'.Procs k = s.Procs k := by
    intro k hk
    rw [hsame.1, hprocs, Function.update_of_ne hk, clockCore_other hclock hk,
      UpdateThreadAssignments_other hassign hk]
  have hdrained₂ : (s₂.core i).Drained := by
    obtain ⟨hdrained, hbusy⟩ := hs.assigned hi hassign
    cases clockCore_cases hclock with
    | off _ => exact hdrained
    | @tick c hon htick =>
      have h := hdrained.ClockTick (hs.any_clear hi hassign hon) hcost htick
      refine ⟨h.cost, ?_⟩
      simp only [core, setCore, Function.update_self]
      exact h.pipeline
  refine ⟨?_, ?_⟩
  · intro k hk
    by_cases hki : k = i
    · subst hki
      rw [hen, hsame.1, hprocs, Function.update_self]
      rfl
    · rw [hother k hki, hfar k hki]
      exact hs.on k (by omega)
  · intro k hk
    refine ⟨fun r => ?_, ?_⟩
    · change (s'.regs r).cost = 0
      rw [hsame.2]
      exact hdrained₂.cost r
    · change (s'.Procs k).Pipeline = []
      by_cases hki : k = i
      · subst hki
        rw [hsame.1, hprocs, Function.update_self]
        exact hdrained₂.pipeline
      · rw [hfar k hki]
        exact (hs.drained k (by omega)).pipeline

theorem Live.step {ev : Event} (hs : s.Live) (hcost : CostOne ev) (hstep : s.step ev = some s') :
    s'.Live := by
  have hwf := hs.wf.step hstep
  cases step_cases hstep with
  | @turn inp done s₁ _ hnext hturn =>
    obtain ⟨hon, hdrained⟩ := hs.turn hnext hcost hturn
    exact ⟨hwf, hon, fun i hi => ⟨(hdrained i hi).cost, (hdrained i hi).pipeline⟩⟩
  | @finish net _ _ =>
    obtain ⟨hprocs, hen, hnum⟩ := finish_frame s net
    have hregs : (s.finish net).1.regs = s.regs := by
      rcases finish_cases s net with heq | heq
      · rw [heq]
      · rw [heq]
        rfl
    refine ⟨hwf, ?_, ?_⟩
    · intro i hi
      simp only [hnum] at hi
      simp only [hen, hprocs]
      exact hs.on i hi
    · intro i hi
      simp only [hnum] at hi
      simp only [core, hprocs, hregs]
      exact ⟨(hs.drained i hi).cost, (hs.drained i hi).pipeline⟩
  | @loadComplete j req c _ _ hj hc =>
    have hbooked := CoreState.MarkLoadComplete_booked hc
    obtain ⟨q, hq⟩ := hbooked.proc
    have hproc : c.proc = { s.Procs j with LSQueue := q } := hq
    refine ⟨hwf, ?_, ?_⟩
    · intro i hi
      by_cases hij : i = j
      · subst hij
        simp only [setCore, Function.update_self, hproc]
        exact hs.on i hi
      · simp only [setCore, Function.update_of_ne hij]
        exact hs.on i hi
    · intro i hi
      refine ⟨fun r => (hbooked.cost r).trans ((hs.drained i hi).cost r), ?_⟩
      by_cases hij : i = j
      · subst hij
        simp only [core, setCore, Function.update_self, hproc]
        exact (hs.drained i hi).pipeline
      · simp only [core, setCore, Function.update_of_ne hij]
        exact (hs.drained i hi).pipeline

theorem handleThreads_noPop {i : ℕ} {done : Bool} (s : CPU) (ts : List RevThread) :
    CoreState.NoPop (handleThreads i done s ts) := by
  induction ts generalizing s with
  | nil => simp [handleThreads]
  | cons t ts ih =>
    refine CoreState.NoPop.bind ?_ fun _ _ => ih _
    unfold handleThread
    split
    · simp
    · simp
    · simp
    · simp
    · nofun

/-- `PopThreadFromHart` is not called on an empty hart in a step. -/
theorem Wf.stepE_noPop (hs : s.Wf) (ev : Event) : CoreState.NoPop (s.stepE ev) := by
  unfold stepE
  split
  · nofun
  · cases ev with
    | turn inp done =>
      simp only []
      split
      · rename_i hnext
        refine CoreState.NoPop.bind ?_ fun _ _ => by simp
        refine CoreState.NoPop.bind ?_ fun s₁ hassign => CoreState.NoPop.bind ?_ fun s₂ _ =>
          CoreState.NoPop.bind (handleThreads_noPop _ _) fun _ _ => by simp
        · unfold UpdateThreadAssignments
          split
          · simp
          · split
            · refine CoreState.NoPop.bind ?_ fun _ _ => by simp
              unfold AssignThread
              split
              · nofun
              · simp
            · simp
        · unfold clockCore
          split
          · rename_i hon
            have hsound := hs.sound.UpdateThreadAssignments hnext hassign
            have hnum : s₁.numCores = s.numCores := UpdateThreadAssignments_numCores hassign
            have hcore := hsound.cores s.next (by omega)
            exact (CoreState.ClockTick_noPop (c := s₁.core s.next) hcore.exec
              (hcore.decodeID (hcore.enabled hon))).bind fun _ _ => by simp
          · simp
      · nofun
    | finish net =>
      simp only []
      split
      · simp
      · nofun
    | loadComplete i req =>
      simp only []
      split
      · exact (CoreState.MarkLoadComplete_noPop _ _).bind fun _ _ => by simp
      · nofun

/-- Between the two parts of a tick that executes an instruction. -/
structure OwnHart (c : CoreState) (h r : ℕ) : Prop where
  execID : c.proc.HartToExecID = some h
  decodeID : c.proc.HartToDecodeID = h
  clear : c.proc.HartsClearToDecode h = true
  regFile : c.proc.RegFile = some r
  hart : ∃ t, c.proc.Harts h = some t ∧ t.VirtRegState = r

theorem Live.ownHart (hs : s.Live) (hnext : s.next < s.numCores) {inp : TickInput} {c : CoreState}
    (hfront : s.front inp = .ok (some c)) {h r : ℕ} (htriggers : c.triggers = .ok (some (h, r))) :
    OwnHart c h r := by
  obtain ⟨s₁, hassign, hon, hdec⟩ := front_eq_ok hfront
  have hany := hs.any_clear hnext hassign hon
  obtain ⟨t, f, hdecoding, -, htarget, hexecID, -⟩ := hdec.triggers hany htriggers
  obtain ⟨rfl, rfl⟩ := Prod.mk.inj htarget
  have hsound := hs.wf.sound.UpdateThreadAssignments hnext hassign
  have hnum : s₁.numCores = s.numCores := UpdateThreadAssignments_numCores hassign
  have hcore := hsound.cores s.next (by omega)
  have hclear := (RevProc.GetNextHartToDecodeID_clear
    (p := (s₁.core s.next).updateClear.proc) (hcore.decodeID (hcore.enabled hon)) hany).1
  have hharts : c.proc.Harts = (s₁.core s.next).updateClear.proc.Harts :=
    congrArg View.Harts hdecoding.view
  refine ⟨hexecID, hdecoding.decodeID, ?_, hdecoding.regFile, t, ?_, rfl⟩
  · rw [hdecoding.clear]
    exact hclear
  · rw [hharts]
    exact hdecoding.hart

theorem init_live (numCores numHarts MainThreadID StartAddr : ℕ) :
    (init numCores numHarts MainThreadID StartAddr).Live := by
  refine ⟨init_wf .., ?_, fun _ _ => ⟨fun _ => rfl, rfl⟩⟩
  intro i hi
  simp [init, RevProc.HasNoBusyHarts]

/-- When every instruction has the cost one, a core executes only for the thread of
    the hart that it has just decoded for, and pops threads only from harts that
    have one. -/
theorem executes_own_hart {numCores numHarts MainThreadID StartAddr : ℕ} {tr : List (CPU × Event)}
    (hrun : Run step (init numCores numHarts MainThreadID StartAddr) tr s)
    (hcost : ∀ p ∈ tr, CostOne p.2) :
    (s.next < s.numCores → ∀ inp c h r, s.front inp = .ok (some c) →
      c.triggers = .ok (some (h, r)) → OwnHart c h r) ∧
      ∀ ev, s.stepE ev ≠ .error .popEmpty := by
  have hlive := (hrun.invariant Live (fun _ ev => CostOne ev) (init_live ..)
    (fun _ _ _ hs hone hstep => hs.step hone hstep) hcost).1
  exact ⟨fun hnext _ _ _ _ hfront htriggers => hlive.ownHart hnext hfront htriggers,
    hlive.wf.stepE_noPop⟩

theorem create_own_hart :
    ∃ tr s c, Run step (init 1 2 1 4096) tr s ∧ (∀ p ∈ tr, CostOne p.2) ∧ s.next < s.numCores ∧
      s.front retTick = .ok (some c) ∧ c.triggers = .ok (some (0, 0)) ∧ OwnHart c 0 0 := by
  have hsome : ((exec step (init 1 2 1 4096)
      [.turn (ecallTick 4096 (.create 7 8192)) true, .finish false]).map fun s =>
      (s.executes retTick, decide (s.next < s.numCores))) = some (some (0, 0), true) := by decide
  obtain ⟨s, hexec, hstate⟩ := Option.map_eq_some_iff.mp hsome
  obtain ⟨hexecutes, hnext⟩ : s.executes retTick = some (0, 0) ∧ s.next < s.numCores := by
    simpa using hstate
  have hrun := run_of_exec _ hexec
  have hcost : ∀ p ∈ trace step (init 1 2 1 4096)
      [.turn (ecallTick 4096 (.create 7 8192)) true, .finish false], CostOne p.2 := by
    intro p hp
    have hev := trace_label hp
    simp only [List.mem_cons, List.not_mem_nil, or_false] at hev
    rcases hev with hev | hev
    · rw [hev]
      intro f hf
      rw [← Option.some.inj hf]
      rfl
    · rw [hev]
      trivial
  obtain ⟨c, hfront, htriggers⟩ := executes_eq_some hexecutes
  exact ⟨_, s, c, hrun, hcost, hnext, hfront, htriggers,
    (executes_own_hart hrun hcost).1 hnext _ c 0 0 hfront htriggers⟩

end CPU

end RevCPU.Sched
