import RevCPU.Lib.Run

namespace RevCPU.Lib

variable {S L A : Type}

/-- The steps that meet `ok` follow the sequence `a`: from a state that is
    related to an element a step is accepted, and it either lowers the measure
    or goes on to the next element. -/
structure Follows (step : S → L → Option S) (ok : S → L → Prop) (Rel : S → A → Prop)
    (measure : S → ℕ) (bound : ℕ) (a : ℕ → A) (N : ℕ) : Prop where
  measure_le : ∀ k ≤ N, ∀ s, Rel s (a k) → measure s ≤ bound
  next : ∀ k < N, ∀ s, Rel s (a k) → ∀ l, ok s l → ∃ s', step s l = some s' ∧
    (Rel s' (a k) ∧ measure s' < measure s ∨ Rel s' (a (k + 1)))

section

variable {step : S → L → Option S} {ok : S → L → Prop} {Rel : S → A → Prop} {measure : S → ℕ}
  {bound : ℕ} {a : ℕ → A} {N : ℕ}

/-- A run of at most `N` steps is at an element of the sequence, and it has come
    at least one element further in every `bound + 1` steps. -/
theorem Follows.run (h : Follows step ok Rel measure bound a N) {s₀ s : S}
    {tr : List (S × L)} (hinit : Rel s₀ (a 0)) (hrun : Run step s₀ tr s)
    (hok : ∀ p ∈ tr, ok p.1 p.2) (hlen : tr.length ≤ N) :
    ∃ k ≤ tr.length, Rel s (a k) ∧ tr.length + measure s ≤ (bound + 1) * k + bound := by
  induction hrun with
  | nil =>
    refine ⟨0, Nat.le_refl _, hinit, ?_⟩
    have hle := h.measure_le 0 (Nat.zero_le _) s₀ hinit
    simpa using hle
  | @snoc tr s s' l _ hs ih =>
    rw [List.length_append, List.length_singleton] at hlen
    obtain ⟨k, hk, hrel, hcount⟩ := ih (fun p hp => hok p (List.mem_append_left _ hp)) (by omega)
    obtain ⟨s₁, hs₁, hcase⟩ := h.next k (by omega) s hrel l
      (hok (s, l) (List.mem_append_right _ (List.mem_singleton.mpr rfl)))
    obtain rfl : s' = s₁ := by
      rw [hs] at hs₁
      exact Option.some.inj hs₁
    rw [List.length_append, List.length_singleton]
    rcases hcase with ⟨hsame, hlt⟩ | hnext
    · exact ⟨k, by omega, hsame, by omega⟩
    · have hle := h.measure_le (k + 1) (by omega) s' hnext
      refine ⟨k + 1, by omega, hnext, ?_⟩
      rw [Nat.mul_add, Nat.mul_one]
      omega

/-- After such a run the next step that meets `ok` is accepted too. -/
theorem Follows.accepts (h : Follows step ok Rel measure bound a N) {s₀ s : S}
    {tr : List (S × L)} (hinit : Rel s₀ (a 0)) (hrun : Run step s₀ tr s)
    (hok : ∀ p ∈ tr, ok p.1 p.2) (hlen : tr.length < N) {l : L} (hl : ok s l) :
    (step s l).isSome = true := by
  obtain ⟨k, hk, hrel, -⟩ := h.run hinit hrun hok (Nat.le_of_lt hlen)
  obtain ⟨s', hs', -⟩ := h.next k (by omega) s hrel l hl
  rw [hs']
  rfl

end

section

variable {step : S → L → Option S} {s₀ s : S} {tr : List (S × L)}

/-- The steps that `mark` picks are paid for from `work`: a run that begins with
    no more work than its budget has at most as many of them as the budget. -/
theorem Run.count_le (mark : S × L → Bool) (work budget : S → ℕ) (hinit : work s₀ ≤ budget s₀)
    (hrun : Run step s₀ tr s) (hpay : ∀ p ∈ tr, ∀ s', step p.1 p.2 = some s' →
      work s' + budget p.1 + (if mark p then 1 else 0) ≤ work p.1 + budget s') :
    tr.countP mark + work s ≤ budget s := by
  induction hrun with
  | nil => simpa using hinit
  | @snoc tr s s' l _ hs ih =>
    have hle := ih fun p hp => hpay p (List.mem_append_left _ hp)
    have hlast := hpay (s, l) (List.mem_append_right _ (List.mem_singleton.mpr rfl)) s' hs
    rw [List.countP_append, List.countP_singleton]
    dsimp only at hlast
    omega

/-- What the steps of a run keep holds at its end if it has held before. -/
theorem Run.persists (Q : S → Prop) (hrun : Run step s₀ tr s)
    (hkeep : ∀ p ∈ tr, ∀ s', Q p.1 → step p.1 p.2 = some s' → Q s') : ∀ p ∈ tr, Q p.1 → Q s := by
  induction hrun with
  | nil => simp
  | @snoc tr s s' l _ hs ih =>
    have hlast := hkeep (s, l) (List.mem_append_right _ (List.mem_singleton.mpr rfl)) s'
    intro p hp hQ
    rcases List.mem_append.mp hp with hp | hp
    · exact hlast (ih (fun p hp => hkeep p (List.mem_append_left _ hp)) p hp hQ) hs
    · rw [List.mem_singleton.mp hp] at hQ
      exact hlast hQ hs

/-- A queue that the steps that `pops` picks take the first element of, and to
    which elements are put only at its end. -/
theorem Run.queue_drop {α : Type} (queue : S → List α) (pops : S × L → Bool)
    (hrun : Run step s₀ tr s)
    (hqueue : ∀ p ∈ tr, ∀ s', step p.1 p.2 = some s' → ∃ added,
      queue s' = (if pops p then (queue p.1).tail else queue p.1) ++ added)
    (hle : tr.countP pops ≤ (queue s₀).length) :
    ∃ added, queue s = (queue s₀).drop (tr.countP pops) ++ added := by
  induction hrun with
  | nil => exact ⟨[], by simp⟩
  | @snoc tr s s' l _ hs ih =>
    rw [List.countP_append, List.countP_singleton] at hle ⊢
    obtain ⟨before, hbefore⟩ := ih (fun p hp => hqueue p (List.mem_append_left _ hp)) (by omega)
    obtain ⟨added, hadded⟩ :=
      hqueue (s, l) (List.mem_append_right _ (List.mem_singleton.mpr rfl)) s' hs
    refine ⟨before ++ added, ?_⟩
    dsimp only at hadded
    rw [hadded, hbefore]
    split
    · rename_i hpop
      rw [if_pos hpop] at hle
      have hne : (queue s₀).drop (tr.countP pops) ≠ [] := by
        rw [ne_eq, List.drop_eq_nil_iff]
        omega
      rw [List.tail_append_of_ne_nil hne, List.tail_drop, List.append_assoc]
    · rw [Nat.add_zero, List.append_assoc]

/-- The steps of a run up to the one that `mark` picks after `j` others. -/
theorem Run.nth_marked (mark : S × L → Bool) (hrun : Run step s₀ tr s) {j : ℕ}
    (hj : j < tr.countP mark) :
    ∃ before p, before ++ [p] <+: tr ∧ Run step s₀ before p.1 ∧ before.countP mark = j ∧
      mark p = true := by
  induction hrun with
  | nil => simp at hj
  | @snoc tr s s' l hrun hs ih =>
    rw [List.countP_append, List.countP_singleton] at hj
    by_cases hlt : j < tr.countP mark
    · obtain ⟨before, p, hinit, hp⟩ := ih hlt
      exact ⟨before, p, hinit.trans (List.prefix_append ..), hp⟩
    · by_cases hmark : mark (s, l) = true
      · rw [if_pos hmark] at hj
        exact ⟨tr, (s, l), List.prefix_refl _, hrun, by omega, hmark⟩
      · rw [if_neg hmark] at hj
        omega

end

end RevCPU.Lib
