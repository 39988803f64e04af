import RevCPU.Sched.IssueInst

namespace RevCPU.Sched

open Lib

namespace CoProcCore

variable {e : CoProcSetup} {s s' : CoProcCore}

section Marks

variable {r : ℕ} {marks : List Mark} {m : Mark}

theorem since_snoc (r : ℕ) (kind : Mark → Bool) (marks : List Mark) (m : Mark) :
    since r kind (marks ++ [m]) =
      if m = .Execute r then 0 else if kind m then since r kind marks + 1 else since r kind marks := by
  simp [since, List.foldl_append]

@[simp] theorem issues_IssueInst (r r' Inst : ℕ) (marks : List Mark) :
    issues r (marks ++ [.IssueInst r' Inst]) = if r' = r then issues r marks + 1 else issues r marks := by
  rw [issues, since_snoc]
  simp [issues, Mark.issueFor]

@[simp] theorem issues_hazard (r r' : ℕ) (marks : List Mark) :
    issues r (marks ++ [.hazard r']) = issues r marks := by
  rw [issues, since_snoc]
  simp [issues, Mark.issueFor]

@[simp] theorem issues_Execute (r r' : ℕ) (marks : List Mark) :
    issues r (marks ++ [.Execute r']) = if r' = r then 0 else issues r marks := by
  rw [issues, since_snoc]
  simp [issues, Mark.issueFor]

@[simp] theorem hazards_IssueInst (r r' Inst : ℕ) (marks : List Mark) :
    hazards r (marks ++ [.IssueInst r' Inst]) = hazards r marks := by
  rw [hazards, since_snoc]
  simp [hazards]

@[simp] theorem hazards_hazard (r r' : ℕ) (marks : List Mark) :
    hazards r (marks ++ [.hazard r']) =
      if r' = r then hazards r marks + 1 else hazards r marks := by
  rw [hazards, since_snoc]
  simp [hazards]

@[simp] theorem hazards_Execute (r r' : ℕ) (marks : List Mark) :
    hazards r (marks ++ [.Execute r']) = if r' = r then 0 else hazards r marks := by
  rw [hazards, since_snoc]
  simp [hazards]

end Marks

/-- The step executes the word, which is not in the tables and which the coprocessor
    takes, for the register file at `r`. -/
structure Executes (e : CoProcSetup) (s : CoProcCore) (t : WordTick) (h r : ℕ) (f : Fetched) :
    Prop where
  fetches : s.core.fetches t.avail t.stallReq = some (h, r)
  fetched : fetchAndDecode e t = some f
  asked : Isa.asksCoProc e.f t.Inst = true
  takes : e.coProc t.Inst = true
  free : s.core.updateClear.DependencyCheck h r f = false

/-- `IssueInst` has been called once, the registers and the memory are as before,
    and the PC is behind the word. -/
structure OnceNoOp (s s' : CoProcCore) (r Inst : ℕ) : Prop where
  once : issues r s'.marks.dropLast = 1
  x : ∀ k, (s'.files r).GetX k = (s.files r).GetX k
  FP : (s'.files r).FP = (s.files r).FP
  others : ∀ k, k ≠ r → s'.files k = s.files k
  M : s'.M = s.M
  PC : (s'.core.regs r).PC = ((s.core.regs r).PC + Isa.wordSize Inst) % 2 ^ Isa.xlen (s.files r)

/-- What a step can leave: no mark, a hazard after a call of `IssueInst`, or an
    execution. -/
inductive Marked (e : CoProcSetup) (s s' : CoProcCore) : Prop
  | quiet (h : s'.marks = s.marks)
  | hazard {r Inst : ℕ} (h : s'.marks = s.marks ++ [.IssueInst r Inst] ++ [.hazard r])
  | execute {r Inst : ℕ} (h : s'.marks = s.marks ++ issued e r Inst ++ [.Execute r])

theorem step_marked {ev : CoProcEvent} (h : step e s ev = some s') : Marked e s s' := by
  cases ev with
  | other core files M =>
    obtain rfl := Option.some.inj h
    exact .quiet rfl
  | tick t =>
    unfold step at h
    simp only at h
    cases hfetches : s.core.fetches t.avail t.stallReq with
    | none =>
      simp only [hfetches] at h
      obtain ⟨core, -, rfl⟩ := Option.map_eq_some_iff.mp h
      exact .quiet rfl
    | some hart =>
    obtain ⟨h₀, r⟩ := hart
    simp only [hfetches, decodeTick] at h
    obtain ⟨f, hf, h⟩ := Option.bind_eq_some_iff.mp h
    split at h
    · obtain ⟨core, -, rfl⟩ := Option.map_eq_some_iff.mp h
      by_cases hask : Isa.asksCoProc e.f t.Inst = true
      · have hmarks : s.marks ++ [Mark.IssueInst r t.Inst, .hazard r] =
            s.marks ++ [.IssueInst r t.Inst] ++ [.hazard r] := by simp
        refine .hazard (Eq.trans ?_ hmarks)
        rw [if_pos hask]
      · exact .quiet (by simp [hask])
    · split at h
      · obtain ⟨g, -, h⟩ := Option.bind_eq_some_iff.mp h
        obtain ⟨core, -, rfl⟩ := Option.map_eq_some_iff.mp h
        exact .execute rfl
      · obtain ⟨core, -, rfl⟩ := Option.map_eq_some_iff.mp h
        exact .execute rfl

/-- Between two executions `IssueInst` is called once for each hazard. -/
theorem Marked.balanced (h : Marked e s s') (hs : ∀ r, issues r s.marks = hazards r s.marks) (r : ℕ) :
    issues r s'.marks = hazards r s'.marks := by
  cases h with
  | quiet h =>
    rw [h]
    exact hs r
  | hazard h =>
    rw [h, issues_hazard, hazards_hazard, issues_IssueInst, hazards_IssueInst, hs r]
  | execute h =>
    rw [h]
    unfold issued
    split
    · rw [issues_Execute, hazards_Execute, issues_IssueInst, hazards_IssueInst, hs r]
      split
      · rfl
      · rfl
    · rw [List.append_nil, issues_Execute, hazards_Execute, hs r]

/-- What a step that executes a word of the coprocessor does. -/
theorem Executes.step {t : WordTick} {h r : ℕ} {f : Fetched} (hex : Executes e s t h r f)
    (hstep : step e s (.tick t) = some s') :
    s'.marks = s.marks ++ [.IssueInst r t.Inst] ++ [.Execute r] ∧ s'.M = s.M ∧
      ∃ g, Isa.implFunc e.f f.inst = some g ∧
        s'.files = Function.update s.files r (g (s.file r) f.inst) ∧
        (s'.core.regs r).PC = (g (s.file r) f.inst).PC := by
  obtain ⟨inst, hinst, hentry⟩ := Option.bind_eq_some_iff.mp hex.fetched
  obtain ⟨entry, -, rfl⟩ := Option.map_eq_some_iff.mp hentry
  have hco : inst.isCoProcInst = true := by rw [(Isa.isCoProcInst_eq hinst).1, hex.asked]
  simp only [CoProcCore.step, hex.fetches, decodeTick, hex.fetched, Option.bind_some, hex.free, hco,
    Bool.false_eq_true, if_false, if_true] at hstep
  obtain ⟨g, hg, hstep⟩ := Option.bind_eq_some_iff.mp hstep
  obtain ⟨core, hclock, rfl⟩ := Option.map_eq_some_iff.mp hstep
  obtain ⟨⟨c, rtn⟩, htick, rfl⟩ := Option.map_eq_some_iff.mp hclock
  refine ⟨?_, rfl, g, hg, rfl, ?_⟩
  · simp [issued, hex.asked]
  · exact CoreState.ClockTick_PC hex.fetches rfl rfl hex.free (toOption_eq_some.mp htick)

/-- A core RV64 with the C extension, whose coprocessor takes every word. -/
def takesAll : CoProcSetup := { f := { IsRV64 := true, RV_C := true }, coProc := fun _ => true }

/-- Register files of RV64 with zeros. -/
def zeroFile : RevRegFile :=
  { IsRV32 := false, HasD := false, X := fun _ => 0, FP := fun _ => 0, PC := 0 }

/-- A core whose hart 0 is at address 4096. -/
def atWord (LSQueue : List MemReq) (marks : List Mark) : CoProcCore :=
  { core := { CPU.booted.core 0 with proc := { (CPU.booted.core 0).proc with LSQueue } }
    files := fun _ => zeroFile
    M := { memSize := 0, maxHeapSize := 0, ThreadMemSize := 0, NextThreadMemAddr := 0 }
    marks }

/-- The tick that finds the word. -/
def wordTick (Inst : ℕ) : WordTick :=
  { Inst, files := fun _ => zeroFile,
    M := { memSize := 0, maxHeapSize := 0, ThreadMemSize := 0, NextThreadMemAddr := 0 } }

/-- Without outstanding loads the word passes. -/
theorem executes_atWord (Inst : ℕ) (marks : List Mark)
    (hdecoded : (fetchAndDecode takesAll (wordTick Inst)).isSome = true)
    (hasked : Isa.asksCoProc takesAll.f Inst = true) :
    ∃ f, Executes takesAll (atWord [] marks) (wordTick Inst) 0 0 f := by
  obtain ⟨f, hf⟩ := Option.isSome_iff_exists.mp hdecoded
  exact ⟨f, rfl, hf, hasked, rfl, CoreState.DependencyCheck_free _ _ rfl (fun _ => rfl) fun _ => rfl⟩

end CoProcCore

end RevCPU.Sched
