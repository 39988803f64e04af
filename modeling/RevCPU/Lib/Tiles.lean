import Mathlib.Data.Nat.Notation

namespace RevCPU.Lib

/-- The ranges, each given by its start and its size, follow one another from `lo`
    to `hi`, and none is empty. -/
def Tiles : ℕ → List (ℕ × ℕ) → ℕ → Prop
  | lo, [], hi => lo = hi
  | lo, r :: rs, hi => r.1 = lo ∧ 0 < r.2 ∧ Tiles (lo + r.2) rs hi

instance decidableTiles : (lo : ℕ) → (rs : List (ℕ × ℕ)) → (hi : ℕ) → Decidable (Tiles lo rs hi)
  | lo, [], hi => inferInstanceAs (Decidable (lo = hi))
  | lo, r :: rs, hi =>
    let _ := decidableTiles (lo + r.2) rs hi
    inferInstanceAs (Decidable (r.1 = lo ∧ 0 < r.2 ∧ Tiles (lo + r.2) rs hi))

theorem Tiles.le {lo hi : ℕ} {rs : List (ℕ × ℕ)} (h : Tiles lo rs hi) : lo ≤ hi := by
  induction rs generalizing lo with
  | nil => exact Nat.le_of_eq h
  | cons r rs ih =>
    have hrest := ih h.2.2
    omega

/-- Each of the ranges lies between the ends. -/
theorem Tiles.bounds {lo hi : ℕ} {rs : List (ℕ × ℕ)} (h : Tiles lo rs hi) {r : ℕ × ℕ}
    (hr : r ∈ rs) : lo ≤ r.1 ∧ r.1 + r.2 ≤ hi := by
  induction rs generalizing lo with
  | nil => exact absurd hr List.not_mem_nil
  | cons r' rs ih =>
    obtain ⟨hstart, -, hrest⟩ := h
    have hle := hrest.le
    rcases List.mem_cons.mp hr with rfl | hr
    · omega
    · have hin := ih hrest hr
      omega

end RevCPU.Lib
