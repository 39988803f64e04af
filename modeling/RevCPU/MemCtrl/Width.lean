import RevCPU.MemCtrl.Processed

namespace RevCPU

namespace RevBasicMemCtrl

/-- The `while` loop of `clockTick`, call by call and without a bound on the
    calls; `none` is a fatal error. -/
inductive LoopRuns (P : Params) : RevBasicMemCtrl → TMax → Option RevBasicMemCtrl → Prop
  | fatal {s : RevBasicMemCtrl} {t : TMax} (h : processNextRqst P s t = none) : LoopRuns P s t none
  | done {s s' : RevBasicMemCtrl} {t t' : TMax} (h : processNextRqst P s t = some (s', t'))
      (hops : t'.t_max_ops = P.max_ops) : LoopRuns P s t (some s')
  | next {s s' : RevBasicMemCtrl} {t t' : TMax} {r : Option RevBasicMemCtrl}
      (h : processNextRqst P s t = some (s', t')) (hops : t'.t_max_ops ≠ P.max_ops)
      (hrest : LoopRuns P s' t' r) : LoopRuns P s t r

theorem isMemOpAvail_ops {P : Params} {op : RevMemOp} {t t' : TMax} {b : Bool}
    (h : isMemOpAvail P op t = some (b, t')) : t'.t_max_ops = t.t_max_ops := by
  unfold isMemOpAvail at h
  cases hop : op.Op <;> simp only [hop] at h <;> (try split at h) <;>
    simp only [Option.some.injEq, Prod.mk.injEq, reduceCtorEq] at h <;> rw [← h.2]

theorem nextCandidate_ops {P : Params} {q : List RevMemOp} {k i : ℕ} {t t' : TMax} {op : RevMemOp}
    (h : nextCandidate P q k t = some (some (i, op, t'))) : t'.t_max_ops = t.t_max_ops := by
  induction q generalizing k t with
  | nil => simp [nextCandidate] at h
  | cons o q ih =>
    unfold nextCandidate at h
    split at h
    · simp at h
    · rename_i t₁ havail
      simp only [Option.some.injEq, Prod.mk.injEq] at h
      rw [← h.2.2]
      exact isMemOpAvail_ops havail
    · rename_i t₁ havail
      rw [ih h]
      exact isMemOpAvail_ops havail

/-- What one call of `processNextRqst` does to the queue and to the counter of
    operations: it ends the loop and removes at most one operation, or it removes
    one and counts it. -/
theorem processNextRqst_queue {P : Params} {s s' : RevBasicMemCtrl} {t t' : TMax}
    (h : processNextRqst P s t = some (s', t')) :
    s'.rqstQ.Sublist s.rqstQ ∧
      (t'.t_max_ops = P.max_ops ∧ s.rqstQ.length ≤ s'.rqstQ.length + 1 ∨
        t'.t_max_ops = t.t_max_ops + 1 ∧ s.rqstQ.length = s'.rqstQ.length + 1) := by
  have hidle : ∀ {u : TMax}, u.t_max_ops = P.max_ops →
      s.rqstQ.Sublist s.rqstQ ∧ (u.t_max_ops = P.max_ops ∧ s.rqstQ.length ≤ s.rqstQ.length + 1 ∨
        u.t_max_ops = t.t_max_ops + 1 ∧ s.rqstQ.length = s.rqstQ.length + 1) :=
    fun hops => ⟨List.Sublist.refl _, .inl ⟨hops, by omega⟩⟩
  unfold processNextRqst at h
  split at h
  · simp only [Option.some.injEq, Prod.mk.injEq] at h
    rw [← h.1, ← h.2]
    exact hidle rfl
  split at h
  · simp at h
  · simp only [Option.some.injEq, Prod.mk.injEq] at h
    rw [← h.1, ← h.2]
    exact hidle rfl
  rename_i i op t₁ hnext
  have hops := nextCandidate_ops hnext
  have hslot : i < s.rqstQ.length := (List.getElem?_eq_some_iff.mp (nextCandidate_spec hnext).2.slot).1
  have hlen := List.length_eraseIdx_of_lt hslot
  split at h
  · simp only [Option.some.injEq, Prod.mk.injEq] at h
    rw [← h.1, ← h.2]
    refine ⟨List.eraseIdx_sublist _ _, .inl ⟨rfl, ?_⟩⟩
    simp only
    omega
  split at h
  · simp only [Option.some.injEq, Prod.mk.injEq] at h
    rw [← h.1, ← h.2]
    exact hidle rfl
  split at h
  · simp at h
  · rename_i s₁ hbuild
    obtain ⟨hf, -⟩ | ⟨-, -, -, rfl⟩ := buildStandardMemRqst_cases hbuild
    · simp at hf
    simp only [Option.some.injEq, Prod.mk.injEq, sendParts_rqstQ] at h
    rw [← h.1, ← h.2]
    refine ⟨List.eraseIdx_sublist _ _, .inr ⟨?_, ?_⟩⟩
    · simp only [hops]
    · simp only
      omega
  · rename_i s₁ hbuild
    obtain ⟨-, hsame⟩ | ⟨hf, -⟩ := buildStandardMemRqst_cases hbuild
    · simp only [Option.some.injEq, Prod.mk.injEq] at h
      rw [← h.1, ← h.2, hsame]
      exact hidle rfl
    · simp at hf

/-- The loop ends: a call that does not end it removes an operation. The bounded
    loop of the model computes the same result. -/
theorem tickLoop_runs (P : Params) (s : RevBasicMemCtrl) (t : TMax) {fuel : ℕ}
    (hfuel : s.rqstQ.length < fuel) : LoopRuns P s t (tickLoop P fuel s t) := by
  induction fuel generalizing s t with
  | zero => omega
  | succ fuel ih =>
    rw [tickLoop]
    cases hcall : processNextRqst P s t with
    | none => exact .fatal hcall
    | some r =>
      obtain ⟨s', t'⟩ := r
      by_cases hops : t'.t_max_ops = P.max_ops
      · simp only [hops, if_true]
        exact .done hcall hops
      · obtain ⟨-, ⟨hdone, -⟩ | ⟨-, hlen⟩⟩ := processNextRqst_queue hcall
        · exact absurd hdone hops
        · simp only [hops, if_false]
          exact .next hcall hops (ih s' t' (by omega))

/-- What a run of the loop removes, with a counter that has not reached the
    width. -/
theorem LoopRuns.width {P : Params} {s s' : RevBasicMemCtrl} {t : TMax} {r : Option RevBasicMemCtrl}
    (h : LoopRuns P s t r) (hr : r = some s') (hops : t.t_max_ops < P.max_ops) :
    s'.rqstQ.Sublist s.rqstQ ∧ s.rqstQ.length + t.t_max_ops ≤ s'.rqstQ.length + P.max_ops := by
  induction h with
  | fatal _ => simp at hr
  | done hcall hdone =>
    simp only [Option.some.injEq] at hr
    subst hr
    obtain ⟨hsub, ⟨-, hlen⟩ | ⟨-, hlen⟩⟩ := processNextRqst_queue hcall
    · exact ⟨hsub, by omega⟩
    · exact ⟨hsub, by omega⟩
  | next hcall hne _ ih =>
    obtain ⟨hsub, ⟨hdone, -⟩ | ⟨hcount, hlen⟩⟩ := processNextRqst_queue hcall
    · exact absurd hdone hne
    · obtain ⟨hrest, hle⟩ := ih hr (by omega)
      exact ⟨hrest.trans hsub, by omega⟩

/-- `clockTick` ends for every queue and every width, 0 included: its result is
    that of a run of its loop, or the queue is left alone behind a fence. With a
    width of at least 1 it removes at most so many operations and keeps the
    others in their order. -/
theorem clockTick_ends (P : Params) (s : RevBasicMemCtrl) :
    ((s.passFence = none ∧ clockTick P s = some s) ∨
      ∃ s₁, s.passFence = some s₁ ∧ LoopRuns P s₁ {} (clockTick P s)) ∧
    (1 ≤ P.max_ops → ∀ s', clockTick P s = some s' →
      s'.rqstQ.Sublist s.rqstQ ∧ s.rqstQ.length ≤ s'.rqstQ.length + P.max_ops) := by
  cases hfence : s.passFence with
  | none =>
    have htick : clockTick P s = some s := by rw [clockTick, hfence]
    refine ⟨.inl ⟨rfl, htick⟩, ?_⟩
    intro _ s' hs'
    rw [htick, Option.some.injEq] at hs'
    rw [← hs']
    exact ⟨List.Sublist.refl _, by omega⟩
  | some s₁ =>
    have htick : clockTick P s = tickLoop P (s₁.rqstQ.length + 1) s₁ {} := by rw [clockTick, hfence]
    have hruns : LoopRuns P s₁ {} (clockTick P s) := by
      rw [htick]
      exact tickLoop_runs P s₁ {} (by omega)
    refine ⟨.inr ⟨s₁, rfl, hruns⟩, ?_⟩
    intro hwidth s' hs'
    have hqueue : s₁.rqstQ = s.rqstQ := by
      unfold passFence at hfence
      split at hfence
      · split at hfence
        · simp at hfence
        · simp only [Option.some.injEq] at hfence
          rw [← hfence]
      · simp only [Option.some.injEq] at hfence
        rw [← hfence]
    obtain ⟨hsub, hlen⟩ := hruns.width hs' (show (0 : ℕ) < P.max_ops by omega)
    rw [hqueue] at hsub hlen
    exact ⟨hsub, hlen⟩

/-- Three reads and a width of 2: one read stays in the queue. -/
theorem clockTick_ends_reads :
    ∃ s' : RevBasicMemCtrl, clockTick {} ((((({} : RevBasicMemCtrl).sendREADRequest 0 0 0 4 (some 0)
        {} 0).sendREADRequest 0 8 8 4 (some 1) {} 0).sendREADRequest 1 16 16 4 (some 2) {} 0)) =
        some s' ∧ s'.rqstQ.length = 1 ∧ 3 ≤ s'.rqstQ.length + 2 := by
  have hsome : ((clockTick {} ((((({} : RevBasicMemCtrl).sendREADRequest 0 0 0 4 (some 0)
      {} 0).sendREADRequest 0 8 8 4 (some 1) {} 0).sendREADRequest 1 16 16 4 (some 2)
      {} 0))).map fun s' => s'.rqstQ.length) = some 1 := by decide +kernel
  obtain ⟨s', htick, hlen⟩ := Option.map_eq_some_iff.mp hsome
  exact ⟨s', htick, hlen, ((clockTick_ends {} _).2 (by decide) s' htick).2⟩

end RevBasicMemCtrl

end RevCPU
