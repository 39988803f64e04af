import Mathlib.Data.List.Basic

namespace RevCPU.Lib

variable {S L : Type}

/-- A finite run of a deterministic labelled system. The trace lists every
    step with the state it was taken in, in the order of the steps. -/
inductive Run (step : S → L → Option S) (s₀ : S) : List (S × L) → S → Prop
  | nil : Run step s₀ [] s₀
  | snoc {tr : List (S × L)} {s s' : S} {l : L} :
      Run step s₀ tr s → step s l = some s' → Run step s₀ (tr ++ [(s, l)]) s'

/-- Execution of a list of labels; `none` as soon as one label is refused. -/
def exec (step : S → L → Option S) : S → List L → Option S
  | s, [] => some s
  | s, l :: ls => (step s l).bind fun s' => exec step s' ls

/-- The trace that `exec` goes through. -/
def trace (step : S → L → Option S) : S → List L → List (S × L)
  | _, [] => []
  | s, l :: ls =>
    match step s l with
    | some s' => (s, l) :: trace step s' ls
    | none => []

section
variable {step : S → L → Option S} {s₀ : S}

/-- The induction rule for runs: an invariant that the initial state has and
    that every step meeting `ok` preserves holds in all states of a run whose
    steps all meet `ok`. -/
theorem Run.invariant (I : S → Prop) (ok : S → L → Prop) {tr : List (S × L)} {s : S}
    (hinit : I s₀) (hstep : ∀ s l s', I s → ok s l → step s l = some s' → I s')
    (hrun : Run step s₀ tr s) (hok : ∀ p ∈ tr, ok p.1 p.2) :
    I s ∧ ∀ p ∈ tr, I p.1 := by
  induction hrun with
  | nil => exact ⟨hinit, by simp⟩
  | @snoc tr s s' l _ hs ih =>
    obtain ⟨hI, hall⟩ := ih fun p hp => hok p (by simp [hp])
    refine ⟨hstep s l s' hI (hok (s, l) (by simp)) hs, ?_⟩
    intro p hp
    rcases List.mem_append.mp hp with hp | hp
    · exact hall p hp
    · rw [List.mem_singleton.mp hp]
      exact hI

/-- The run rule for an invariant that needs no condition on the steps. -/
theorem Run.invariant_of_step (I : S → Prop) {tr : List (S × L)} {s : S}
    (hinit : I s₀) (hstep : ∀ s l s', I s → step s l = some s' → I s')
    (hrun : Run step s₀ tr s) : I s ∧ ∀ p ∈ tr, I p.1 :=
  hrun.invariant I (fun _ _ => True) hinit (fun s l s' hI _ => hstep s l s' hI) (by simp)

/-- Every step of a run was taken: its label is accepted in its state. -/
theorem Run.step_mem {tr : List (S × L)} {s : S} (hrun : Run step s₀ tr s) :
    ∀ p ∈ tr, ∃ s', step p.1 p.2 = some s' := by
  induction hrun with
  | nil => simp
  | @snoc tr s s' l _ hs ih =>
    intro p hp
    rcases List.mem_append.mp hp with hp | hp
    · exact ih p hp
    · rw [List.mem_singleton.mp hp]
      exact ⟨s', hs⟩

/-- The state after a step of a run is the state of a later step or the last
    state. -/
theorem Run.next_mem {tr : List (S × L)} {s : S} (hrun : Run step s₀ tr s) {p : S × L}
    (hp : p ∈ tr) {s' : S} (hstep : step p.1 p.2 = some s') : s' = s ∨ ∃ q ∈ tr, q.1 = s' := by
  induction hrun with
  | nil => simp at hp
  | @snoc tr s₁ s₂ l _ hs ih =>
    rcases List.mem_append.mp hp with hp | hp
    · right
      rcases ih hp with rfl | ⟨q, hq, rfl⟩
      · exact ⟨(s', l), by simp, rfl⟩
      · exact ⟨q, by simp [hq], rfl⟩
    · rw [List.mem_singleton.mp hp] at hstep
      left
      simpa [hs] using hstep.symm

/-- A measure that no step decreases is at most its last value. -/
theorem Run.le_last (f : S → ℕ) (hstep : ∀ s l s', step s l = some s' → f s ≤ f s')
    {tr : List (S × L)} {s : S} (hrun : Run step s₀ tr s) : ∀ p ∈ tr, f p.1 ≤ f s := by
  induction hrun with
  | nil => simp
  | @snoc tr s₁ s₂ l _ hs ih =>
    intro p hp
    have hle := hstep s₁ l s₂ hs
    rcases List.mem_append.mp hp with hp | hp
    · exact Nat.le_trans (ih p hp) hle
    · rw [List.mem_singleton.mp hp]
      exact hle

/-- A step can be put in front of a run. -/
theorem Run.cons {s₁ s : S} {l : L} {tr : List (S × L)} (hs : step s₀ l = some s₁)
    (hrun : Run step s₁ tr s) : Run step s₀ ((s₀, l) :: tr) s := by
  induction hrun with
  | nil => exact Run.snoc Run.nil hs
  | snoc _ hlast ih => exact Run.snoc ih hlast

/-- The labels of a trace are those that were to be executed. -/
theorem trace_label {s : S} {ls : List L} {p : S × L} (hp : p ∈ trace step s ls) : p.2 ∈ ls := by
  induction ls generalizing s with
  | nil => simp [trace] at hp
  | cons l ls ih =>
    unfold trace at hp
    split at hp
    · rcases List.mem_cons.mp hp with rfl | hp
      · exact List.mem_cons_self
      · exact List.mem_cons_of_mem _ (ih hp)
    · simp at hp

/-- Execution produces a run along its own trace. -/
theorem run_of_exec (ls : List L) {s : S} (hexec : exec step s₀ ls = some s) :
    Run step s₀ (trace step s₀ ls) s := by
  induction ls generalizing s₀ with
  | nil =>
    simp only [exec, Option.some.injEq] at hexec
    subst hexec
    exact Run.nil
  | cons l ls ih =>
    simp only [exec, Option.bind_eq_some_iff] at hexec
    obtain ⟨s₁, hs, hexec⟩ := hexec
    simp only [trace, hs]
    exact (ih hexec).cons hs

end

end RevCPU.Lib
