import RevCPU.Lib.Fallible

namespace RevCPU.Lib

variable {ε σ α : Type}

/-- A loop over a list that ends at the first element that `entry` refuses; it
    returns whether there was none. -/
def untilRefused (entry : σ → α → Except ε (σ × Bool)) : List α → σ → Except ε (σ × Bool)
  | [], o => .ok (o, true)
  | s :: rest, o => do
    let (o, ok) ← entry o s
    if ok then untilRefused entry rest o else .ok (o, false)

/-- The elements before the first one that is not accepted, and that one. -/
def FirstRefused (accepts : α → Prop) (l pre : List α) (s : α) : Prop :=
  ∃ post, l = pre ++ s :: post ∧ (∀ t ∈ pre, accepts t) ∧ ¬accepts s

section

variable {entry : σ → α → Except ε (σ × Bool)} {accepts : α → Prop}

theorem untilRefused_cons (s : α) (rest : List α) (o : σ) :
    untilRefused entry (s :: rest) o =
      entry o s >>= fun r => if r.2 then untilRefused entry rest r.1 else .ok (r.1, false) := rfl

/-- What follows elements that are not refused is done from the state after
    them. -/
theorem untilRefused_append {pre post : List α} {o o₁ : σ}
    (h : untilRefused entry pre o = .ok (o₁, true)) :
    untilRefused entry (pre ++ post) o = untilRefused entry post o₁ := by
  induction pre generalizing o with
  | nil =>
    simp only [untilRefused, Except.ok.injEq, Prod.mk.injEq, and_true] at h
    rw [h, List.nil_append]
  | cons s pre ih =>
    rw [untilRefused_cons, bind_eq_ok] at h
    obtain ⟨⟨o₂, ok⟩, hentry, hrest⟩ := h
    rw [List.cons_append, untilRefused_cons, hentry]
    cases ok with
    | false => simp at hrest
    | true => exact ih hrest

/-- What is done up to a refused element is all that is done. -/
theorem untilRefused_refused {pre post : List α} {s : α} {o o₁ o₂ : σ}
    (h : untilRefused entry pre o = .ok (o₁, true)) (hs : entry o₁ s = .ok (o₂, false)) :
    untilRefused entry (pre ++ s :: post) o = .ok (o₂, false) := by
  rw [untilRefused_append h, untilRefused_cons, hs]
  rfl

/-- The last element decides when none before it is refused. -/
theorem untilRefused_snoc {pre : List α} {s : α} {o o₁ : σ}
    (h : untilRefused entry pre o = .ok (o₁, true)) :
    untilRefused entry (pre ++ [s]) o = entry o₁ s := by
  rw [untilRefused_append h, untilRefused_cons]
  cases hs : entry o₁ s with
  | error e => rfl
  | ok r =>
    obtain ⟨o₂, ok⟩ := r
    cases ok <;> rfl

theorem accepted_or_firstRefused (accepts : α → Prop) (l : List α) :
    (∀ t ∈ l, accepts t) ∨ ∃ pre s, FirstRefused accepts l pre s := by
  induction l with
  | nil => simp
  | cons t l ih =>
    by_cases ht : accepts t
    · rcases ih with hall | ⟨pre, s, post, rfl, hpre, hs⟩
      · left
        simpa using ⟨ht, hall⟩
      · exact .inr ⟨t :: pre, s, post, rfl, by simpa using ⟨ht, hpre⟩, hs⟩
    · exact .inr ⟨[], t, l, rfl, by simp, ht⟩

/-- The first element that is not accepted stays the first one of a longer
    list. -/
theorem FirstRefused.append {l pre : List α} {s : α} (h : FirstRefused accepts l pre s)
    (post : List α) : FirstRefused accepts (l ++ post) pre s := by
  obtain ⟨post', rfl, hpre, hs⟩ := h
  exact ⟨post' ++ post, by simp, hpre, hs⟩

/-- What every pass preserves, refusing or not, holds after the loop. -/
theorem untilRefused_invariant (I : σ → Prop)
    (hentry : ∀ o t o' ok, I o → entry o t = .ok (o', ok) → I o') {l : List α} {o o' : σ} {ok : Bool}
    (hI : I o) (h : untilRefused entry l o = .ok (o', ok)) : I o' := by
  induction l generalizing o with
  | nil =>
    simp only [untilRefused, Except.ok.injEq, Prod.mk.injEq] at h
    rwa [← h.1]
  | cons s l ih =>
    rw [untilRefused_cons, bind_eq_ok] at h
    obtain ⟨⟨o₁, ok₁⟩, hs, hrest⟩ := h
    have hI₁ : I o₁ := hentry o s o₁ ok₁ hI hs
    cases ok₁ with
    | true => exact ih hI₁ hrest
    | false =>
      obtain ⟨rfl, -⟩ := Prod.mk.inj (Except.ok.inj hrest)
      exact hI₁

/-- The rule of the loop over accepted elements: none is refused, and an
    invariant of the passes over them holds after it. -/
theorem untilRefused_accepted (accepts : α → Prop) (I : List α → σ → Prop)
    (hentry : ∀ pre t o, I pre o → accepts t → ∃ o', entry o t = .ok (o', true) ∧ I (pre ++ [t]) o')
    {l pre : List α} {o : σ} (hI : I pre o) (hl : ∀ t ∈ l, accepts t) :
    ∃ o', untilRefused entry l o = .ok (o', true) ∧ I (pre ++ l) o' := by
  induction l generalizing pre o with
  | nil => exact ⟨o, rfl, by simpa using hI⟩
  | cons t l ih =>
    obtain ⟨o₁, ht, hI₁⟩ := hentry pre t o hI (hl t List.mem_cons_self)
    obtain ⟨o', hrest, hI'⟩ := ih hI₁ fun t ht => hl t (List.mem_cons_of_mem _ ht)
    refine ⟨o', ?_, by simpa using hI'⟩
    rw [untilRefused_cons, ht]
    exact hrest

end

end RevCPU.Lib
