import RevCPU.Lib.Cyclic
import RevCPU.Lib.Progress
import RevCPU.Sched.Exec

namespace RevCPU.Sched

open Lib

namespace RevProc

/-- The loop goes on to the first hart that is clear to decode. -/
theorem scanHarts_first (p : RevProc) (k : ℕ) {cur : ℕ} (hcur : cur < p.numHarts) :
    ∃ d ≤ k, p.scanHarts k cur = (cur + d) % p.numHarts ∧
      ∀ e, 0 < e → e < d → p.HartsClearToDecode ((cur + e) % p.numHarts) = false := by
  induction k generalizing cur with
  | zero =>
    exact ⟨0, Nat.le_refl _, (Nat.mod_eq_of_lt hcur).symm, fun e _ he => absurd he (by omega)⟩
  | succ k ih =>
    have hnext : (if cur + 1 ≥ p.numHarts then 0 else cur + 1) = (cur + 1) % p.numHarts := by
      split
      · rw [show cur + 1 = p.numHarts by omega, Nat.mod_self]
      · rw [Nat.mod_eq_of_lt (by omega)]
    simp only [scanHarts, hnext]
    by_cases hclear : p.HartsClearToDecode ((cur + 1) % p.numHarts) = true
    · rw [if_pos hclear]
      exact ⟨1, by omega, rfl, fun e h₀ h₁ => absurd h₁ (by omega)⟩
    · rw [if_neg hclear]
      obtain ⟨d, hd, hscan, hfirst⟩ := ih (Nat.mod_lt (cur + 1) (by omega))
      have hshift : ∀ e, ((cur + 1) % p.numHarts + e) % p.numHarts =
          (cur + (e + 1)) % p.numHarts := by
        intro e
        rw [Nat.mod_add_mod, Nat.add_right_comm, Nat.add_assoc]
      refine ⟨d + 1, by omega, by rw [hscan, hshift], ?_⟩
      intro e hpos hlt
      by_cases hone : e = 1
      · rw [hone]
        simpa using hclear
      · have hbefore := hfirst (e - 1) (by omega) (by omega)
        rw [hshift, show e - 1 + 1 = e by omega] at hbefore
        exact hbefore

/-- `GetNextHartToDecodeID` finds the first hart that is clear to decode, from the
    present one on and around. -/
theorem GetNextHartToDecodeID_first {p : RevProc} (hcur : p.HartToDecodeID < p.numHarts) {g : ℕ}
    (hg : g < p.numHarts) (hclear : p.HartsClearToDecode g = true) :
    ∃ d ≤ ahead p.numHarts p.HartToDecodeID g,
      p.GetNextHartToDecodeID = (p.HartToDecodeID + d) % p.numHarts ∧
        (0 < d → p.HartsClearToDecode p.HartToDecodeID = false) := by
  unfold GetNextHartToDecodeID
  split
  · exact ⟨0, Nat.zero_le _, (Nat.mod_eq_of_lt hcur).symm, fun h => absurd h (by omega)⟩
  · rename_i hnot
    rw [Bool.not_eq_true] at hnot
    obtain ⟨d, hd, hscan, hfirst⟩ := p.scanHarts_first p.numHarts hcur
    refine ⟨d, ?_, hscan, fun _ => hnot⟩
    by_contra hlt
    have hpos : 0 < ahead p.numHarts p.HartToDecodeID g := by
      by_contra hzero
      have heq := add_ahead hcur hg
      rw [show ahead p.numHarts p.HartToDecodeID g = 0 by omega, Nat.add_zero,
        Nat.mod_eq_of_lt hcur] at heq
      rw [heq, hclear] at hnot
      cases hnot
    have hbetween := hfirst _ hpos (Nat.not_le.mp hlt)
    rw [add_ahead hcur hg, hclear] at hbetween
    cases hbetween

end RevProc

namespace CoreState

variable {c c' : CoreState}

/-- After a tick of a core with a hart that is clear to decode, the hart that
    `GetNextHartToDecodeID` has found is the one that decodes. -/
theorem ClockTick_decodeID {i : TickInput} {rtn : Bool} (hexec : c.ExecOk)
    (hlt : c.proc.HartToDecodeID < c.proc.numHarts)
    (hany : (List.range c.updateClear.proc.numHarts).any
      c.updateClear.proc.HartsClearToDecode = true)
    (hok : c.ClockTick i = .ok (c', rtn)) :
    c'.proc.HartToDecodeID = c.updateClear.proc.GetNextHartToDecodeID := by
  obtain ⟨c₀, hstatus, hok⟩ := bind_eq_ok.mp hok
  obtain ⟨c₁, hdecode, hok⟩ := bind_eq_ok.mp hok
  obtain ⟨c₂, hexecute, hok⟩ := bind_eq_ok.mp hok
  obtain ⟨c₃, hretire, hok⟩ := bind_eq_ok.mp hok
  obtain ⟨c₄, hcomplete, hok⟩ := bind_eq_ok.mp hok
  obtain ⟨rfl, -⟩ := Prod.mk.inj (Except.ok.inj hok)
  obtain rfl := UpdateStatusOfHarts_eq_ok hstatus
  have hdec := decode_decoded hdecode
  have hbegun := Decoded.begun (c := c.updateClear) hexec hlt hdec
  have hdecodeID : c₁.proc.HartToDecodeID = c.updateClear.proc.GetNextHartToDecodeID := by
    cases hdec with
    | skip hnone _ =>
      rw [hany] at hnone
      cases hnone
    | stall _ hdecoding _ _ => exact hdecoding.decodeID
    | pass _ hdecoding _ _ _ _ _ _ => exact hdecoding.decodeID
  have hstill : Still c₁ c₂ := by
    rcases execute_eq_ok hexecute with ⟨-, rfl⟩ | ⟨h, r, f, e, -, -, -, hdisp⟩
    · exact .refl c₂
    · exact (dispatch_dispatched hdisp).still
  have hstill₃ := hstill.trans (retire_retired hretire).still
  have hexec₃ : c₃.ExecOk := by
    rw [ExecOk, hstill₃.execID, hstill₃.decodeID]
    exact hbegun.exec
  rcases complete_cases hexec₃ hcomplete with rfl | ⟨t, hdone⟩
  · exact hstill₃.decodeID.trans hdecodeID
  · exact hdone.still.decodeID.trans (hstill₃.decodeID.trans hdecodeID)

/-- With nothing in progress the harts that are clear to decode are those with a
    thread. -/
theorem Drained.clear_iff (hc : Drained c) {h : ℕ}
    (hidle : c.proc.IdleHarts h = true ↔ c.proc.Harts h = none) :
    c.updateClear.proc.HartsClearToDecode h = true ↔ c.proc.Harts h ≠ none := by
  cases hart : c.proc.Harts h with
  | none => simp [updateClear, hart]
  | some t =>
    have hbusy : c.proc.IdleHarts h = false := by
      rw [hart] at hidle
      simpa using hidle
    simp [updateClear, hart, hbusy, hc.cost]

end CoreState

namespace CPU

variable {s s' : CPU}

/-- How many harts of core `i` further on the hart `g` is. -/
def wait (i g : ℕ) (s : CPU) : ℕ := ahead (s.Procs i).numHarts (s.Procs i).HartToDecodeID g

/-- The step makes another hart of core `i` decode. -/
def handsOver (i : ℕ) (p : CPU × Event) : Bool :=
  (p.1.step p.2).any fun s' => (s'.Procs i).HartToDecodeID != (p.1.Procs i).HartToDecodeID

/-- Threads that get a hart of the core leave the other harts alone. -/
theorem UpdateThreadAssignments_keeps {i : ℕ} (hs : s.Wf) (hi : i < s.numCores)
    (hok : s.UpdateThreadAssignments i = .ok s') :
    (s'.Procs i).numHarts = (s.Procs i).numHarts ∧
      (s'.Procs i).HartToDecodeID = (s.Procs i).HartToDecodeID ∧
        ∀ h t, (s.Procs i).Harts h = some t → (s'.Procs i).Harts h = some t := by
  cases UpdateThreadAssignments_cases hok with
  | stay => exact ⟨rfl, rfl, fun _ _ ht => ht⟩
  | @assign t rest h _ hlt hidle =>
    simp only [Function.update_self]
    refine ⟨trivial, trivial, fun g u hu => ?_⟩
    have hne : g ≠ h := by
      rintro rfl
      rw [((hs.sound.cores i hi).idle g hlt).mp hidle] at hu
      cases hu
    rw [Function.update_of_ne hne]
    exact hu

/-- The hart of core `i` that decodes after the core's turn. -/
theorem Live.turn_decodeID {inp : TickInput} {done : Bool} (hs : s.Live) (hi : s.next < s.numCores)
    (hok : s.turn s.next inp done = .ok s') :
    (s'.Procs s.next).numHarts = (s.Procs s.next).numHarts ∧
      ∃ s₁, s.UpdateThreadAssignments s.next = .ok s₁ ∧
        (s₁.Enabled s.next = false ∧
            (s'.Procs s.next).HartToDecodeID = (s₁.Procs s.next).HartToDecodeID ∨
          s₁.Enabled s.next = true ∧ (s'.Procs s.next).HartToDecodeID =
            (s₁.core s.next).updateClear.proc.GetNextHartToDecodeID) := by
  obtain ⟨s₁, s₂, s₃, hassign, hclock, -, heq, hs₁, -, -, hnum₁, -, -, hprocs⟩ :=
    turn_parts hs.wf.sound hi hok
  have hnum := (UpdateThreadAssignments_keeps hs.wf hi hassign).1
  have hsame : (s'.Procs s.next).numHarts = (s₂.Procs s.next).numHarts ∧
      (s'.Procs s.next).HartToDecodeID = (s₂.Procs s.next).HartToDecodeID := by
    have hlast : s'.Procs = s₃.Procs := by
      rw [heq]
      split
      · rfl
      · rfl
    rw [hlast, hprocs, Function.update_self]
    exact ⟨rfl, rfl⟩
  cases clockCore_cases hclock with
  | off hoff => exact ⟨hsame.1.trans hnum, s₁, hassign, .inl ⟨hoff, hsame.2⟩⟩
  | @tick c hon htick =>
    have hcore := hs₁.cores s.next (by omega)
    have hlt := hcore.decodeID (hcore.enabled hon)
    have hticked := CoreState.ClockTick_ticked (c := s₁.core s.next) hcore.exec hlt htick
    have hdecodeID := CoreState.ClockTick_decodeID (c := s₁.core s.next) hcore.exec hlt
      (hs.any_clear hi hassign hon) htick
    simp only [setCore, Function.update_self] at hsame
    refine ⟨?_, s₁, hassign, .inr ⟨hon, hsame.2.trans hdecodeID⟩⟩
    rw [hsame.1, ← hnum]
    exact hticked.outcome.harts.1

/-- What a step does with the hart of core `i` that decodes, seen from a hart `g`
    with a thread: it goes on by `d` places, at most up to `g`, and not at all
    while its own thread is there. -/
theorem Live.next_hart {ev : Event} {i : ℕ} (hs : s.Live) (hi : i < s.numCores)
    (hstep : s.step ev = some s') :
    s'.numCores = s.numCores ∧ (s'.Procs i).numHarts = (s.Procs i).numHarts ∧
      ∀ g < (s.Procs i).numHarts, (s.Procs i).Harts g ≠ none → ∃ d ≤ s.wait i g,
        (s'.Procs i).HartToDecodeID =
          ((s.Procs i).HartToDecodeID + d) % (s.Procs i).numHarts ∧
        (0 < d → (s.Procs i).Harts (s.Procs i).HartToDecodeID = none) := by
  have hcore := hs.wf.sound.cores i hi
  have hstay : (s'.Procs i).HartToDecodeID = (s.Procs i).HartToDecodeID →
      ∀ g < (s.Procs i).numHarts, (s.Procs i).Harts g ≠ none → ∃ d ≤ s.wait i g,
        (s'.Procs i).HartToDecodeID =
          ((s.Procs i).HartToDecodeID + d) % (s.Procs i).numHarts ∧
        (0 < d → (s.Procs i).Harts (s.Procs i).HartToDecodeID = none) := by
    intro heq g hg _
    refine ⟨0, Nat.zero_le _, ?_, fun h => absurd h (by omega)⟩
    rw [heq, Nat.add_zero, Nat.mod_eq_of_lt (hcore.decodeID (by omega))]
  cases step_cases hstep with
  | @finish net hended hnext =>
    obtain ⟨hprocs, -, hnum⟩ := finish_frame s net
    have hsame : (s.finish net).1.Procs i = s.Procs i := congrFun hprocs i
    exact ⟨hnum, congrArg RevProc.numHarts hsame,
      hstay (congrArg RevProc.HartToDecodeID hsame)⟩
  | @loadComplete k req c hended hnext hk hc =>
    have hbooked := CoreState.MarkLoadComplete_booked hc
    have hnum : c.proc.numHarts = (s.Procs k).numHarts := congrArg View.numHarts hbooked.view
    by_cases hik : i = k
    · subst hik
      refine ⟨rfl, ?_, hstay ?_⟩
      · simp only [setCore, Function.update_self]
        exact hnum
      · simp only [setCore, Function.update_self]
        exact hbooked.still.decodeID
    · have hsame : (s.setCore k c).Procs i = s.Procs i := Function.update_of_ne hik ..
      exact ⟨rfl, congrArg RevProc.numHarts hsame,
        hstay (congrArg RevProc.HartToDecodeID hsame)⟩
  | @turn inp done s₁ hended hnext hturn =>
    have hnumCores := (hs.wf.quiet.turn hs.wf.sound hnext hturn).2
    by_cases hik : i = s.next
    swap
    · obtain ⟨s₂, s₃, s₄, hassign, hclock, -, heq, -, -, -, -, -, -, hprocs⟩ :=
        turn_parts hs.wf.sound hnext hturn
      have hsame : s₁.Procs i = s.Procs i := by
        have hlast : s₁.Procs = s₄.Procs := by
          rw [heq]
          split
          · rfl
          · rfl
        rw [hlast, hprocs, Function.update_of_ne hik, clockCore_other hclock hik,
          UpdateThreadAssignments_other hassign hik]
      exact ⟨hnumCores, congrArg RevProc.numHarts hsame,
        hstay (congrArg RevProc.HartToDecodeID hsame)⟩
    subst hik
    obtain ⟨hnum, s₂, hassign, hcase⟩ := hs.turn_decodeID hnext hturn
    obtain ⟨hnum₂, hdecodeID, hkeeps⟩ := UpdateThreadAssignments_keeps hs.wf hnext hassign
    refine ⟨hnumCores, hnum, ?_⟩
    rcases hcase with ⟨-, hsame⟩ | ⟨hon, hsame⟩
    · exact hstay (hsame.trans hdecodeID)
    intro g hg hheld
    obtain ⟨hdrained, -⟩ := hs.assigned hnext hassign
    have hs₂ := hs.wf.sound.UpdateThreadAssignments hnext hassign
    have hcores₂ : s₂.numCores = s.numCores := UpdateThreadAssignments_numCores hassign
    have hcore₂ := hs₂.cores s.next (by omega)
    have hcur := hcore₂.decodeID (hcore₂.enabled hon)
    obtain ⟨t, ht⟩ := Option.ne_none_iff_exists'.mp hheld
    have hclear : (s₂.core s.next).updateClear.proc.HartsClearToDecode g = true :=
      (hdrained.clear_iff (hcore₂.idle g (by omega))).mpr (by
        change (s₂.Procs s.next).Harts g ≠ none
        rw [hkeeps g t ht]
        exact Option.some_ne_none t)
    obtain ⟨d, hd, hnext', hfree⟩ := RevProc.GetNextHartToDecodeID_first
      (p := (s₂.core s.next).updateClear.proc) hcur (g := g) (by
        change g < (s₂.Procs s.next).numHarts
        omega) hclear
    change d ≤ ahead (s₂.Procs s.next).numHarts (s₂.Procs s.next).HartToDecodeID g at hd
    change _ = ((s₂.Procs s.next).HartToDecodeID + d) % (s₂.Procs s.next).numHarts at hnext'
    rw [hnum₂, hdecodeID] at hd hnext'
    refine ⟨d, hd, hsame.trans hnext', fun hpos => ?_⟩
    have hnone := hfree hpos
    change (s₂.core s.next).updateClear.proc.HartsClearToDecode (s₂.Procs s.next).HartToDecodeID =
      false at hnone
    rw [hdecodeID] at hnone
    by_contra hthread
    obtain ⟨u, hu⟩ := Option.ne_none_iff_exists'.mp hthread
    have hbusy := (hdrained.clear_iff (hcore₂.idle _ (hdecodeID ▸ hcur))).mpr (by
      change (s₂.Procs s.next).Harts (s.Procs s.next).HartToDecodeID ≠ none
      rw [hkeeps _ u hu]
      exact Option.some_ne_none u)
    rw [hnone] at hbusy
    cases hbusy

/-- The hart that a core executes an instruction for is the one that decodes. -/
theorem Live.executes_decodeID {inp : TickInput} {done : Bool} {h r : ℕ} (hs : s.Live)
    (hexec : s.executes inp = some (h, r)) (hstep : s.step (.turn inp done) = some s') :
    h = (s'.Procs s.next).HartToDecodeID := by
  cases step_cases hstep with
  | @turn _ _ s₁ hended hnext hturn =>
    obtain ⟨c, hfront, htriggers⟩ := executes_eq_some hexec
    obtain ⟨s₂, hassign, hon, hdec⟩ := front_eq_ok hfront
    obtain ⟨t, f, -, -, htarget, -⟩ := hdec.triggers (hs.any_clear hnext hassign hon) htriggers
    obtain ⟨-, s₂', hassign', hcase⟩ := hs.turn_decodeID hnext hturn
    obtain rfl := Except.ok.inj (hassign.symm.trans hassign')
    rcases hcase with ⟨hoff, -⟩ | ⟨-, hsame⟩
    · rw [hon] at hoff
      cases hoff
    · exact (congrArg Prod.fst htarget).trans hsame.symm

/-- What the rounds of core `i` rest on, with the number of its harts. -/
def Turns (i n : ℕ) (s : CPU) : Prop := s.Live ∧ i < s.numCores ∧ (s.Procs i).numHarts = n

theorem Turns.step {i n : ℕ} {ev : Event} (hs : s.Turns i n) (hcost : CostOne ev)
    (hstep : s.step ev = some s') : s'.Turns i n := by
  obtain ⟨hlive, hi, hn⟩ := hs
  obtain ⟨hcores, hharts, -⟩ := hlive.next_hart hi hstep
  exact ⟨hlive.step hcost hstep, by omega, hharts.trans hn⟩

/-- A step that hands the core over to another hart brings a hart with a thread
    one place nearer, and it leaves an empty hart behind. -/
theorem Turns.handsOver {i n g : ℕ} {ev : Event} (hs : s.Turns i n) (hg : g < n)
    (hheld : (s.Procs i).Harts g ≠ none) (hstep : s.step ev = some s') :
    s'.wait i g + (if CPU.handsOver i (s, ev) then 1 else 0) ≤ s.wait i g ∧
      (CPU.handsOver i (s, ev) = true →
        (s.Procs i).Harts (s.Procs i).HartToDecodeID = none) := by
  obtain ⟨hlive, hi, rfl⟩ := hs
  obtain ⟨-, hharts, hnext⟩ := hlive.next_hart hi hstep
  obtain ⟨d, hd, hdecodeID, hfree⟩ := hnext g hg hheld
  have hcur := (hlive.wf.sound.cores i hi).decodeID (by omega)
  have hwait : s'.wait i g = s.wait i g - d := by
    unfold wait
    rw [hharts, hdecodeID]
    exact ahead_add hcur hg hd
  have hmoved : CPU.handsOver i (s, ev) = true → 0 < d := by
    intro hover
    by_contra hzero
    rw [show d = 0 by omega, Nat.add_zero, Nat.mod_eq_of_lt hcur] at hdecodeID
    simp [CPU.handsOver, hstep, hdecodeID] at hover
  refine ⟨?_, fun hover => hfree (hmoved hover)⟩
  split
  · rename_i hover
    have hpos := hmoved hover
    omega
  · omega

/-- When every instruction has the cost one, a core is handed over to another hart
    only when the hart it was with has no thread left, instructions execute for
    the hart it is with, and a hart that keeps its thread is reached after no more
    hand-overs than there are harts on the way to it. -/
theorem run_to_completion {numCores numHarts MainThreadID StartAddr i g : ℕ}
    {tr tr' : List (CPU × Event)}
    (hrun : Run step (init numCores numHarts MainThreadID StartAddr) tr s)
    (hcost : ∀ p ∈ tr, CostOne p.2) (hrun' : Run step s tr' s') (hcost' : ∀ p ∈ tr', CostOne p.2)
    (hi : i < s.numCores) (hg : g < (s.Procs i).numHarts)
    (hheld : ∀ p ∈ tr', (p.1.Procs i).Harts g ≠ none) :
    tr'.countP (CPU.handsOver i) + s'.wait i g ≤ s.wait i g ∧
      ∀ p ∈ tr', (CPU.handsOver i p = true →
          (p.1.Procs i).Harts (p.1.Procs i).HartToDecodeID = none) ∧
        ∀ inp done h r s₁, p.2 = .turn inp done → p.1.next = i → p.1.executes inp = some (h, r) →
          p.1.step p.2 = some s₁ → h = (s₁.Procs i).HartToDecodeID := by
  have hlive := (hrun.invariant Live (fun _ ev => CostOne ev) (init_live ..)
    (fun _ _ _ hs hone hstep => hs.step hone hstep) hcost).1
  have hall := (hrun'.invariant (Turns i (s.Procs i).numHarts) (fun _ ev => CostOne ev)
    ⟨hlive, hi, rfl⟩ (fun _ _ _ hs hone hstep => hs.step hone hstep) hcost').2
  refine ⟨?_, ?_⟩
  · refine hrun'.count_le (CPU.handsOver i) (wait i g) (fun _ => s.wait i g) (Nat.le_refl _) ?_
    intro p hp s₁ hstep
    have hpay : s₁.wait i g + (if CPU.handsOver i p then 1 else 0) ≤ p.1.wait i g :=
      ((hall p hp).handsOver hg (hheld p hp) hstep).1
    omega
  · intro p hp
    obtain ⟨s₁, hstep⟩ := hrun'.step_mem p hp
    refine ⟨((hall p hp).handsOver hg (hheld p hp) hstep).2, ?_⟩
    intro inp done h r s₂ hev hnext hexecutes hstep₂
    rw [hev] at hstep₂
    rw [← hnext]
    exact (hall p hp).1.executes_decodeID hexecutes hstep₂

/-- The main thread creates a second one, which gets the other hart. -/
def creates : List Event :=
  [.turn (ecallTick 4096 (.create 7 8192)) true, .finish false,
    .turn (ecallTick 4100 (.other [] true)) true, .finish false]

/-- The main thread returns, and the second one goes on. -/
def returns : List Event :=
  [.turn retTick true, .finish false, .turn (ecallTick 8192 (.other [] true)) true]

theorem costOne_ret (done : Bool) : CostOne (.turn retTick done) := by
  intro f hf
  rw [← Option.some.inj hf]
  rfl

theorem costOne_ecall (PC : ℕ) (e : Ecall) (done : Bool) :
    CostOne (.turn (ecallTick PC e) done) := by
  intro f hf
  rw [← Option.some.inj hf]
  rfl

/-- The core is handed over to the second thread when the main thread is done. -/
theorem returns_run_to_completion :
    ∃ tr tr' s s', Run step (init 1 2 1 4096) tr s ∧ (∀ p ∈ tr, CostOne p.2) ∧
      Run step s tr' s' ∧ (∀ p ∈ tr', CostOne p.2) ∧ 0 < s.numCores ∧
      1 < (s.Procs 0).numHarts ∧ (∀ p ∈ tr', (p.1.Procs 0).Harts 1 ≠ none) ∧
      tr'.countP (CPU.handsOver 0) = 1 ∧
      tr'.countP (CPU.handsOver 0) + s'.wait 0 1 ≤ s.wait 0 1 := by
  have hsome : ((exec step (init 1 2 1 4096) creates).bind fun s =>
      (exec step s returns).map fun _ =>
        (decide (0 < s.numCores ∧ 1 < (s.Procs 0).numHarts),
          (trace step s returns).all fun p => ((p.1.Procs 0).Harts 1).isSome,
          (trace step s returns).countP (CPU.handsOver 0))) = some (true, true, 1) := by decide
  obtain ⟨s, hexec, hstate⟩ := Option.bind_eq_some_iff.mp hsome
  obtain ⟨s', hexec', hstate⟩ := Option.map_eq_some_iff.mp hstate
  obtain ⟨hbounds, hall, hcount⟩ : (0 < s.numCores ∧ 1 < (s.Procs 0).numHarts) ∧
      ((trace step s returns).all fun p => ((p.1.Procs 0).Harts 1).isSome) = true ∧
      (trace step s returns).countP (CPU.handsOver 0) = 1 := by
    simpa only [Prod.mk.injEq, decide_eq_true_eq] using hstate
  have hheld : ∀ p ∈ trace step s returns, (p.1.Procs 0).Harts 1 ≠ none := fun p hp =>
    Option.isSome_iff_ne_none.mp (List.all_eq_true.mp hall p hp)
  have hcost : ∀ p ∈ trace step (init 1 2 1 4096) creates, CostOne p.2 := by
    intro p hp
    have hev := trace_label hp
    simp only [creates, List.mem_cons, List.not_mem_nil, or_false] at hev
    rcases hev with hev | hev | hev | hev
    · exact hev ▸ costOne_ecall _ _ _
    · exact hev ▸ trivial
    · exact hev ▸ costOne_ecall _ _ _
    · exact hev ▸ trivial
  have hcost' : ∀ p ∈ trace step s returns, CostOne p.2 := by
    intro p hp
    have hev := trace_label hp
    simp only [returns, List.mem_cons, List.not_mem_nil, or_false] at hev
    rcases hev with hev | hev | hev
    · exact hev ▸ costOne_ret _
    · exact hev ▸ trivial
    · exact hev ▸ costOne_ecall _ _ _
  have hrun := run_of_exec _ hexec
  have hrun' := run_of_exec _ hexec'
  exact ⟨_, _, s, s', hrun, hcost, hrun', hcost', hbounds.1, hbounds.2, hheld, hcount,
    (run_to_completion hrun hcost hrun' hcost' hbounds.1 hbounds.2 hheld).1⟩

end CPU

end RevCPU.Sched
