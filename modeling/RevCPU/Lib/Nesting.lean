import Mathlib.Data.List.Basic

namespace RevCPU.Lib

/-- What an element of a sequence does to the nesting. -/
inductive Bracket
  | opens | closes | plain
  deriving DecidableEq, Repr

variable {α V σ : Type} (kind : α → Bracket)

/-- The number of open brackets after a sequence that starts under `n` of them;
    `none` when it closes one that is not there. -/
def climb : ℕ → List α → Option ℕ
  | n, [] => some n
  | n, a :: s =>
    match kind a, n with
    | .opens, n => climb (n + 1) s
    | .closes, 0 => none
    | .closes, n + 1 => climb n s
    | .plain, n => climb n s

/-- The greatest number of open brackets on the way. -/
def peak : ℕ → List α → ℕ
  | n, [] => n
  | n, a :: s =>
    match kind a with
    | .opens => max n (peak (n + 1) s)
    | .closes => max n (peak (n - 1) s)
    | .plain => peak n s

/-- Every bracket is closed, and none that has not been opened. -/
def Balanced (s : List α) : Prop := climb kind 0 s = some 0

instance (s : List α) : Decidable (Balanced kind s) := inferInstanceAs (Decidable (_ = _))

/-- A stack of the values before the open brackets: an opening bracket saves the
    value, and the closing one takes it back. -/
def stackStep (f : V → α → V) (p : V × List V) (a : α) : V × List V :=
  match kind a with
  | .opens => (f p.1 a, p.1 :: p.2)
  | .closes => (p.2.headD p.1, p.2.tail)
  | .plain => (f p.1 a, p.2)

/-- The stack after a sequence. -/
def stackRun (f : V → α → V) (p : V × List V) (s : List α) : V × List V :=
  s.foldl (stackStep kind f) p

section

variable {kind} {n m : ℕ} {a b : α} {s t : List α}

theorem climb_opens (h : kind a = .opens) : climb kind n (a :: s) = climb kind (n + 1) s := by
  simp only [climb, h]

theorem climb_closes (h : kind a = .closes) :
    climb kind (n + 1) (a :: s) = climb kind n s := by
  simp only [climb, h]

theorem climb_closes_zero (h : kind a = .closes) : climb kind 0 (a :: s) = none := by
  simp only [climb, h]

theorem climb_plain (h : kind a = .plain) : climb kind n (a :: s) = climb kind n s := by
  simp only [climb, h]

theorem climb_append (n : ℕ) (s t : List α) :
    climb kind n (s ++ t) = (climb kind n s).bind fun m => climb kind m t := by
  induction s generalizing n with
  | nil => rfl
  | cons a s ih =>
    rw [List.cons_append]
    cases h : kind a with
    | opens => rw [climb_opens h, climb_opens h, ih]
    | plain => rw [climb_plain h, climb_plain h, ih]
    | closes =>
      cases n with
      | zero => rw [climb_closes_zero h, climb_closes_zero h, Option.bind_none]
      | succ n => rw [climb_closes h, climb_closes h, ih]

theorem le_peak (n : ℕ) (s : List α) : n ≤ peak kind n s := by
  induction s generalizing n with
  | nil => exact Nat.le_refl n
  | cons a s ih =>
    simp only [peak]
    cases kind a with
    | opens => exact Nat.le_max_left _ _
    | closes => exact Nat.le_max_left _ _
    | plain => exact ih n

/-- The first part of a sequence climbs no higher than the whole. -/
theorem peak_append_le (n : ℕ) (s t : List α) : peak kind n s ≤ peak kind n (s ++ t) := by
  induction s generalizing n with
  | nil => exact le_peak n t
  | cons a s ih =>
    simp only [List.cons_append, peak]
    cases kind a with
    | opens =>
      have hle := ih (n + 1)
      simp only
      omega
    | closes =>
      have hle := ih (n - 1)
      simp only
      omega
    | plain => exact ih n

/-- What lies on the stack before a sequence stays under what the sequence puts
    there. -/
theorem stackRun_under (f : V → α → V) (h : climb kind n s = some m) (v : V) {xs : List V}
    (hxs : xs.length = n) (st : List V) :
    ∃ v' ys, stackRun kind f (v, xs ++ st) s = (v', ys ++ st) ∧ ys.length = m := by
  induction s generalizing n v xs with
  | nil =>
    obtain rfl : n = m := Option.some.inj h
    exact ⟨v, xs, rfl, hxs⟩
  | cons a s ih =>
    simp only [stackRun, List.foldl_cons] at ih ⊢
    cases hk : kind a with
    | opens =>
      rw [climb_opens hk] at h
      have hstep : stackStep kind f (v, xs ++ st) a = (f v a, (v :: xs) ++ st) := by
        simp only [stackStep, hk, List.cons_append]
      rw [hstep]
      exact ih h (f v a) (by rw [List.length_cons, hxs])
    | plain =>
      rw [climb_plain hk] at h
      have hstep : stackStep kind f (v, xs ++ st) a = (f v a, xs ++ st) := by
        simp only [stackStep, hk]
      rw [hstep]
      exact ih h (f v a) hxs
    | closes =>
      cases xs with
      | nil =>
        rw [← hxs, List.length_nil, climb_closes_zero hk] at h
        simp at h
      | cons x xs =>
        obtain rfl : xs.length + 1 = n := hxs
        rw [climb_closes hk] at h
        have hstep : stackStep kind f (v, x :: xs ++ st) a = (x, xs ++ st) := by
          simp only [stackStep, hk, List.cons_append, List.headD_cons, List.tail_cons]
        rw [hstep]
        exact ih h x rfl

/-- A closing bracket brings back the value and the stack before the opening
    bracket that it matches. -/
theorem stackRun_matching (f : V → α → V) (ha : kind a = .opens) (hb : kind b = .closes)
    (hs : Balanced kind s) (p : V × List V) : stackRun kind f p (a :: s ++ [b]) = p := by
  obtain ⟨v', ys, hrun, hys⟩ := stackRun_under f hs (f p.1 a) List.length_nil (p.1 :: p.2)
  obtain rfl := List.length_eq_zero_iff.mp hys
  have hopen : stackStep kind f p a = (f p.1 a, p.1 :: p.2) := by
    simp only [stackStep, ha]
  simp only [stackRun, List.nil_append] at hrun
  simp only [stackRun, List.foldl_append, List.foldl_cons, List.foldl_nil, hopen, hrun]
  simp only [stackStep, hb, List.headD_cons, List.tail_cons]

/-- The run rule for a system that keeps such a stack: a relation that every step
    preserves while the stack holds at most `d` values relates the runs. -/
theorem stackRun_simulates {f : V → α → V} {R : σ → V × List V → Prop} {tick : σ → α → σ}
    {ok : α → Prop} {d : ℕ}
    (hstep : ∀ t p a, R t p → ok a → (kind a = .opens → p.2.length < d) →
      (kind a = .closes → p.2 ≠ []) → R (tick t a) (stackStep kind f p a))
    {t : σ} {p : V × List V} (hR : R t p) (hclimb : climb kind p.2.length s = some m)
    (hpeak : peak kind p.2.length s ≤ d) (hok : ∀ a ∈ s, ok a) :
    R (s.foldl tick t) (stackRun kind f p s) := by
  induction s generalizing t p with
  | nil => exact hR
  | cons a s ih =>
    have hrest : ∀ b ∈ s, ok b := fun b hb => hok b (List.mem_cons_of_mem a hb)
    have ha := hok a List.mem_cons_self
    rw [List.foldl_cons, stackRun, List.foldl_cons]
    simp only [peak] at hpeak
    cases hk : kind a with
    | opens =>
      simp only [hk] at hpeak
      rw [climb_opens hk] at hclimb
      have hlen : (stackStep kind f p a).2.length = p.2.length + 1 := by
        simp only [stackStep, hk, List.length_cons]
      have hle : p.2.length + 1 ≤ peak kind (p.2.length + 1) s := le_peak _ s
      refine ih (hstep t p a hR ha (fun _ => by omega) (by simp [hk])) ?_ ?_ hrest
      · rw [hlen]
        exact hclimb
      · rw [hlen]
        omega
    | plain =>
      simp only [hk] at hpeak
      rw [climb_plain hk] at hclimb
      have hlen : (stackStep kind f p a).2.length = p.2.length := by
        simp only [stackStep, hk]
      refine ih (hstep t p a hR ha (by simp [hk]) (by simp [hk])) ?_ ?_ hrest
      · rw [hlen]
        exact hclimb
      · rw [hlen]
        exact hpeak
    | closes =>
      simp only [hk] at hpeak
      have hne : p.2 ≠ [] := by
        intro hnil
        rw [hnil, List.length_nil, climb_closes_zero hk] at hclimb
        simp at hclimb
      have hlen : (stackStep kind f p a).2.length = p.2.length - 1 := by
        simp only [stackStep, hk, List.length_tail]
      have hpos := List.length_pos_iff.mpr hne
      refine ih (hstep t p a hR ha (by simp [hk]) fun _ => hne) ?_ ?_ hrest
      · rw [hlen]
        rw [show p.2.length = p.2.length - 1 + 1 by omega, climb_closes hk] at hclimb
        exact hclimb
      · rw [hlen]
        omega

end

end RevCPU.Lib
