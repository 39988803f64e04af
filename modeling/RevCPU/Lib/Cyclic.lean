import Mathlib.Algebra.Order.Ring.Nat
import Mathlib.Data.Set.Finite.List
import Mathlib.Order.WellFounded

namespace RevCPU.Lib

/-- The number of places from `a` on to `b` on a ring of `n` places. -/
def ahead (n a b : ℕ) : ℕ := (b + n - a) % n

variable {n a b d : ℕ}

theorem ahead_lt (ha : a < n) : ahead n a b < n := Nat.mod_lt _ (by omega)

theorem ahead_of_le (hb : b < n) (hle : a ≤ b) : ahead n a b = b - a := by
  unfold ahead
  rw [show b + n - a = b - a + n by omega, Nat.add_mod_right, Nat.mod_eq_of_lt (by omega)]

theorem ahead_of_lt (ha : a < n) (hlt : b < a) : ahead n a b = b + n - a :=
  Nat.mod_eq_of_lt (by omega)

theorem add_ahead (ha : a < n) (hb : b < n) : (a + ahead n a b) % n = b := by
  by_cases hle : a ≤ b
  · rw [ahead_of_le hb hle, show a + (b - a) = b by omega, Nat.mod_eq_of_lt hb]
  · rw [ahead_of_lt ha (by omega), show a + (b + n - a) = b + n by omega, Nat.add_mod_right,
      Nat.mod_eq_of_lt hb]

/-- Going on towards `b` shortens the way by as much. -/
theorem ahead_add (ha : a < n) (hb : b < n) (hd : d ≤ ahead n a b) :
    ahead n ((a + d) % n) b = ahead n a b - d := by
  by_cases hle : a ≤ b
  · rw [ahead_of_le hb hle] at hd ⊢
    rw [Nat.mod_eq_of_lt (by omega), ahead_of_le hb (by omega)]
    omega
  · rw [ahead_of_lt ha (by omega)] at hd ⊢
    by_cases hwrap : a + d < n
    · rw [Nat.mod_eq_of_lt hwrap, ahead_of_lt hwrap (by omega)]
      omega
    · rw [show a + d = a + d - n + n by omega, Nat.add_mod_right, Nat.mod_eq_of_lt (by omega),
        ahead_of_le hb (by omega)]
      omega

/-- When each member of a list is related to another one, some of them go round in
    a circle. -/
theorem exists_circle {α : Type} {r : α → α → Prop} {xs : List α} (hne : xs ≠ [])
    (hnext : ∀ x ∈ xs, ∃ y ∈ xs, r x y) : ∃ x ∈ xs, Relation.TransGen r x x := by
  by_contra hno
  let member := { x // x ∈ xs }
  let later : member → member → Prop := fun y x => Relation.TransGen r x.1 y.1
  have : Finite member := xs.finite_toSet
  have : IsTrans member later := ⟨fun _ _ _ hyx hzy => hzy.trans hyx⟩
  have : Std.Irrefl later := ⟨fun x hx => hno ⟨x.1, x.2, hx⟩⟩
  obtain ⟨x₀, hx₀⟩ := List.exists_mem_of_ne_nil xs hne
  obtain ⟨x, -, hlast⟩ := (Finite.wellFounded_of_trans_of_irrefl later).has_min Set.univ
    ⟨⟨x₀, hx₀⟩, trivial⟩
  obtain ⟨y, hy, hxy⟩ := hnext x.1 x.2
  exact hlast ⟨y, hy⟩ trivial (.single hxy)

end RevCPU.Lib
