import Mathlib.Data.List.Basic
import Mathlib.Data.List.Nodup

namespace RevCPU.Lib

variable {α : Type} [DecidableEq α]

/-- A use of an element puts it in front. -/
def touch (q : List α) (v : α) : List α := v :: q.erase v

/-- The elements of a history, which lists the uses from the latest on, by the
    time of their last use. -/
def recent : List α → List α
  | [] => []
  | v :: h => touch (recent h) v

theorem mem_recent {h : List α} {a : α} : a ∈ recent h ↔ a ∈ h := by
  induction h with
  | nil => simp [recent]
  | cons v h ih =>
    by_cases ha : a = v
    · simp [recent, touch, ha]
    · simp [recent, touch, ha, List.mem_erase_of_ne, ih]

theorem touch_nodup {q : List α} (hq : q.Nodup) (v : α) : (touch q v).Nodup := by
  refine List.nodup_cons.mpr ⟨?_, hq.erase v⟩
  rw [hq.mem_erase_iff]
  exact fun h => h.1 rfl

theorem recent_nodup (h : List α) : (recent h).Nodup := by
  induction h with
  | nil => exact List.nodup_nil
  | cons v h ih => exact touch_nodup ih v

/-- Earlier in the list means used later. -/
theorem recent_pairwise (h : List α) :
    (recent h).Pairwise fun a b => h.idxOf a < h.idxOf b := by
  induction h with
  | nil => exact List.Pairwise.nil
  | cons v h ih =>
    have hne : ∀ a ∈ (recent h).erase v, a ≠ v := fun a ha =>
      ((recent_nodup h).mem_erase_iff.mp ha).1
    refine List.pairwise_cons.mpr ⟨?_, ?_⟩
    · intro a ha
      rw [List.idxOf_cons_self, List.idxOf_cons_ne _ (hne a ha).symm]
      omega
    · refine (ih.sublist List.erase_sublist).imp_of_mem ?_
      intro a b ha hb hab
      rw [List.idxOf_cons_ne _ (hne a ha).symm, List.idxOf_cons_ne _ (hne b hb).symm]
      omega

section
variable {q : List α} {v : α} {n : ℕ}

/-- A hit in a list of the `n` most recent elements. -/
theorem take_touch_hit (hv : v ∈ q.take n) : (touch q v).take n = touch (q.take n) v := by
  induction n generalizing q with
  | zero => simp at hv
  | succ n ih =>
    cases q with
    | nil => simp at hv
    | cons a q =>
      by_cases ha : a = v
      · simp [touch, ha]
      · have hmem : v ∈ q.take n := by
          rw [List.take_succ_cons, List.mem_cons] at hv
          exact hv.resolve_left fun h => ha h.symm
        cases n with
        | zero => simp at hmem
        | succ n =>
          have htail := ih hmem
          simp only [touch, List.take_succ_cons, List.cons.injEq, true_and] at htail ⊢
          rw [List.erase_cons_tail (by simpa using ha), List.erase_cons_tail (by simpa using ha),
            List.take_succ_cons, htail]

/-- A miss keeps all but the last one. -/
theorem take_touch_miss (hv : v ∉ q.take (n + 1)) : (touch q v).take (n + 1) = v :: q.take n := by
  have hsame : (q.erase v).take n = q.take n := by
    induction n generalizing q with
    | zero => simp
    | succ n ih =>
      cases q with
      | nil => simp
      | cons a q =>
        rw [List.take_succ_cons, List.mem_cons, not_or] at hv
        rw [List.erase_cons_tail (by simpa using fun h => hv.1 h.symm), List.take_succ_cons,
          List.take_succ_cons, ih hv.2]
  rw [touch, List.take_succ_cons, hsame]

/-- What leaves the `n` most recent elements is the last of them. -/
theorem eq_last_of_gone {u : α} (hu : u ∈ q.take n) (hgone : u ∉ (touch q v).take n) :
    ∃ l, q.take n = l ++ [u] := by
  by_cases hv : v ∈ q.take n
  · rw [take_touch_hit hv] at hgone
    refine absurd ?_ hgone
    by_cases huv : u = v
    · simp [touch, huv]
    · simp [touch, huv, List.mem_erase_of_ne, hu]
  · cases n with
    | zero => simp at hu
    | succ n =>
      rw [take_touch_miss hv, List.mem_cons, not_or] at hgone
      rw [List.take_add_one, List.mem_append] at hu
      obtain hu := hu.resolve_left hgone.2
      rw [Option.mem_toList] at hu
      exact ⟨q.take n, by rw [List.take_add_one, hu]; rfl⟩

end

end RevCPU.Lib
