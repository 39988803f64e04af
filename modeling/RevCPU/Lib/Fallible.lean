import Mathlib.Data.Nat.Notation
import Mathlib.Tactic.Basic

namespace RevCPU.Lib

variable {ε α β : Type}

/-- A computation in two parts succeeds when both do. -/
theorem bind_eq_ok {x : Except ε α} {f : α → Except ε β} {b : β} :
    (x >>= f) = .ok b ↔ ∃ a, x = .ok a ∧ f a = .ok b := by
  cases x <;> simp [bind, Except.bind]

/-- It does not fail in a way in which neither part does. -/
theorem bind_ne_error {x : Except ε α} {f : α → Except ε β} {e : ε} (hx : x ≠ .error e)
    (hf : ∀ a, x = .ok a → f a ≠ .error e) : (x >>= f) ≠ .error e := by
  cases x with
  | error e' => simpa [bind, Except.bind] using hx
  | ok a => simpa [bind, Except.bind] using hf a rfl

theorem toOption_eq_some {x : Except ε α} {a : α} : x.toOption = some a ↔ x = .ok a := by
  cases x <;> simp [Except.toOption]

/-- A counting loop: `body` for the indices `i`, `i + 1`, ... `n` times. -/
def loop (body : ℕ → α → Except ε α) : ℕ → ℕ → α → Except ε α
  | _, 0, a => .ok a
  | i, n + 1, a => body i a >>= loop body (i + 1) n

section Loop

variable {body : ℕ → α → Except ε α}

theorem loop_succ (i n : ℕ) (a : α) :
    loop body i (n + 1) a = body i a >>= loop body (i + 1) n := rfl

theorem loop_eq_foldlM (i n : ℕ) (a : α) :
    loop body i n a = (List.range' i n).foldlM (fun a i => body i a) a := by
  induction n generalizing i a with
  | zero => rfl
  | succ n ih =>
    rw [loop_succ, List.range'_succ, List.foldlM_cons]
    congr 1
    funext b
    exact ih (i + 1) b

/-- The loop rule: what every pass through the body preserves holds after the
    loop. -/
theorem loop_invariant (I : ℕ → α → Prop)
    (hbody : ∀ i a a', I i a → body i a = .ok a' → I (i + 1) a') {i n : ℕ} {a a' : α}
    (hI : I i a) (hloop : loop body i n a = .ok a') : I (i + n) a' := by
  induction n generalizing i a with
  | zero =>
    simp only [loop, Except.ok.injEq] at hloop
    rw [← hloop]
    exact hI
  | succ n ih =>
    rw [loop_succ, bind_eq_ok] at hloop
    obtain ⟨a₁, hstep, hrest⟩ := hloop
    have hlast := ih (hbody i a a₁ hI hstep) hrest
    rwa [Nat.add_assoc, Nat.add_comm 1 n] at hlast

/-- A loop that succeeds has a first part that succeeds and a pass after it. -/
theorem loop_prefix {i n k : ℕ} {a a' : α} (hk : k < n) (hloop : loop body i n a = .ok a') :
    ∃ b b', loop body i k a = .ok b ∧ body (i + k) b = .ok b' ∧
      loop body (i + k + 1) (n - k - 1) b' = .ok a' := by
  induction k generalizing i n a with
  | zero =>
    obtain ⟨n, rfl⟩ := Nat.exists_eq_add_of_lt hk
    rw [show 0 + n + 1 = n + 1 by omega, loop_succ, bind_eq_ok] at hloop
    obtain ⟨b', hstep, hrest⟩ := hloop
    exact ⟨a, b', rfl, hstep, by simpa using hrest⟩
  | succ k ih =>
    obtain ⟨n, rfl⟩ : ∃ n', n = n' + 1 := ⟨n - 1, by omega⟩
    rw [loop_succ, bind_eq_ok] at hloop
    obtain ⟨a₁, hstep, hrest⟩ := hloop
    obtain ⟨b, b', hfirst, hpass, hlast⟩ := ih (by omega) hrest
    refine ⟨b, b', ?_, ?_, ?_⟩
    · rw [loop_succ, bind_eq_ok]
      exact ⟨a₁, hstep, hfirst⟩
    · rwa [show i + (k + 1) = i + 1 + k by omega]
    · rwa [show i + (k + 1) + 1 = i + 1 + k + 1 by omega,
        show n + 1 - (k + 1) - 1 = n - k - 1 by omega]

end Loop

/-- The computation does not end with a bad fault. -/
def Avoids (bad : ε → Prop) (x : Except ε α) : Prop := ∀ e, x = .error e → ¬bad e

section Avoids

variable {bad : ε → Prop}

@[simp] theorem avoids_ok (a : α) : Avoids bad (.ok a : Except ε α) := by
  intro e h
  simp at h

@[simp] theorem avoids_error (e : ε) : Avoids bad (.error e : Except ε α) ↔ ¬bad e := by
  simp [Avoids]

/-- The rule for two parts. -/
theorem avoids_bind {x : Except ε α} {f : α → Except ε β} :
    Avoids bad (x >>= f) ↔ Avoids bad x ∧ ∀ a, x = .ok a → Avoids bad (f a) := by
  cases x with
  | error e => simp [Avoids, bind, Except.bind]
  | ok a => simp [Avoids, bind, Except.bind]

theorem avoids_ite {c : Prop} [Decidable c] {x y : Except ε α} :
    Avoids bad (if c then x else y) ↔ (c → Avoids bad x) ∧ (¬c → Avoids bad y) := by
  by_cases h : c <;> simp [h]

/-- The rule for a loop: every pass that is reached avoids the fault. -/
theorem avoids_loop {body : ℕ → α → Except ε α} {i n : ℕ} {a : α} :
    Avoids bad (loop body i n a) ↔
      ∀ k < n, ∀ b, loop body i k a = .ok b → Avoids bad (body (i + k) b) := by
  induction n generalizing i a with
  | zero => simp [loop]
  | succ n ih =>
    rw [loop_succ, avoids_bind]
    constructor
    · rintro ⟨hfirst, hrest⟩ k hk b hb
      cases k with
      | zero =>
        simp only [loop, Except.ok.injEq] at hb
        rw [← hb]
        exact hfirst
      | succ k =>
        rw [loop_succ, bind_eq_ok] at hb
        obtain ⟨a₁, hstep, hb⟩ := hb
        have hpass := ih.mp (hrest a₁ hstep) k (by omega) b hb
        rwa [show i + 1 + k = i + (k + 1) by omega] at hpass
    · intro h
      refine ⟨h 0 (by omega) a rfl, ?_⟩
      intro a₁ hstep
      rw [ih]
      intro k hk b hb
      have hpass := h (k + 1) (by omega) b (by
        rw [loop_succ, bind_eq_ok]
        exact ⟨a₁, hstep, hb⟩)
      rwa [show i + (k + 1) = i + 1 + k by omega] at hpass

/-- The rule for a loop whose passes fail in no other way. -/
theorem avoids_loop_guard {body : ℕ → α → Except ε α} {c : ℕ → Prop}
    (hpass : ∀ i a, Avoids bad (body i a) → c i) (hok : ∀ i a, c i → ∃ a', body i a = .ok a')
    {i n : ℕ} {a : α} : Avoids bad (loop body i n a) ↔ ∀ k < n, c (i + k) := by
  induction n generalizing i a with
  | zero => simp [loop]
  | succ n ih =>
    rw [loop_succ, avoids_bind]
    constructor
    · rintro ⟨hfirst, hrest⟩ k hk
      have hc := hpass i a hfirst
      obtain ⟨a', hstep⟩ := hok i a hc
      cases k with
      | zero => exact hc
      | succ k =>
        have hnext := ih.mp (hrest a' hstep) k (by omega)
        rwa [show i + 1 + k = i + (k + 1) by omega] at hnext
    · intro h
      obtain ⟨a', hstep⟩ := hok i a (h 0 (by omega))
      rw [hstep]
      refine ⟨avoids_ok a', ?_⟩
      intro a₁ _
      rw [ih]
      intro k hk
      have hnext := h (k + 1) (by omega)
      rwa [show i + (k + 1) = i + 1 + k by omega] at hnext

end Avoids

end RevCPU.Lib
