import Mathlib.Data.List.Basic

namespace RevCPU.Lib

variable {α : Type} {Q Q' P P' : α → Prop}

/-- On a history with the newest event first: an event with `P` happened, and
    every event since then has `Q`. -/
def Since (Q P : α → Prop) : List α → Prop
  | [] => False
  | x :: l => P x ∨ Q x ∧ Since Q P l

instance Since.decidable (Q P : α → Prop) [DecidablePred Q] [DecidablePred P] :
    DecidablePred (Since Q P)
  | [] => inferInstanceAs (Decidable False)
  | x :: l => @instDecidableOr (P x) (Q x ∧ Since Q P l) _
      (@instDecidableAnd _ _ _ (Since.decidable Q P l))

theorem Since.now {x : α} (l : List α) (hx : P x) : Since Q P (x :: l) := Or.inl hx

theorem Since.later {x : α} {l : List α} (hx : Q x) (h : Since Q P l) : Since Q P (x :: l) :=
  Or.inr ⟨hx, h⟩

theorem Since.mono (hQ : ∀ x, Q x → Q' x) (hP : ∀ x, P x → P' x) {l : List α}
    (h : Since Q P l) : Since Q' P' l := by
  induction l with
  | nil => exact h
  | cons x l ih =>
    rcases h with hx | ⟨hx, h⟩
    · exact Since.now l (hP x hx)
    · exact Since.later (hQ x hx) (ih h)

end RevCPU.Lib
