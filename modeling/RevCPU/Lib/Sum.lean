import Mathlib.Algebra.BigOperators.Group.Finset.Piecewise
import Mathlib.Algebra.Order.BigOperators.Group.Finset
import Mathlib.Algebra.Order.Ring.Nat

namespace RevCPU.Lib

/-- One summand is replaced. -/
theorem sum_range_update {n i : ℕ} (hi : i < n) (f : ℕ → ℕ) (x : ℕ) :
    (∑ k ∈ Finset.range n, Function.update f i x k) + f i = (∑ k ∈ Finset.range n, f k) + x := by
  have hmem : i ∈ Finset.range n := Finset.mem_range.mpr hi
  rw [Finset.sum_update_of_mem hmem, ← Finset.sum_sdiff (Finset.singleton_subset_iff.mpr hmem),
    Finset.sum_singleton]
  omega

/-- Of a sum of at most one, at most one summand counts. -/
theorem add_le_sum_range {n i j : ℕ} (hi : i < n) (hj : j < n) (hij : i ≠ j) (f : ℕ → ℕ) :
    f i + f j ≤ ∑ k ∈ Finset.range n, f k := by
  have hsub : ({i, j} : Finset ℕ) ⊆ Finset.range n := by
    intro k hk
    rcases Finset.mem_insert.mp hk with rfl | hk
    · exact Finset.mem_range.mpr hi
    · rw [Finset.mem_singleton.mp hk]
      exact Finset.mem_range.mpr hj
  rw [← Finset.sum_pair hij]
  exact Finset.sum_le_sum_of_subset hsub

theorem le_sum_range {n i : ℕ} (hi : i < n) (f : ℕ → ℕ) : f i ≤ ∑ k ∈ Finset.range n, f k :=
  Finset.single_le_sum (fun _ _ => Nat.zero_le _) (Finset.mem_range.mpr hi)

end RevCPU.Lib
