import Mathlib.Data.List.Infix
import Mathlib.Data.List.TakeWhile

namespace RevCPU.Lib

variable {α β γ : Type}

/-- One pass over a table of names: a name that the word begins with, up to `norm`,
    is taken off together with the separators after it, and its value is added.
    The word is accepted once nothing of it is left. -/
def scan [DecidableEq α] (norm : α → α) (sep : α → Bool) (add : γ → β → γ) :
    List (List α × β) → List α → γ → Option γ
  | [], _, _ => none
  | e :: tab, word, acc =>
    if e.1.map norm <+: word.map norm then
      let rest := (word.drop e.1.length).dropWhile sep
      if rest = [] then some (add acc e.2) else scan norm sep add tab rest (add acc e.2)
    else scan norm sep add tab word acc

/-- A word is made of names, each up to `norm` and with separators after it. -/
inductive Spells (norm : α → α) (sep : α → Bool) : List (List α × β) → List α → Prop
  | nil : Spells norm sep [] []
  | cons {e : List α × β} {es : List (List α × β)} {name seps rest : List α}
      (hname : name.map norm = e.1.map norm) (hseps : ∀ a ∈ seps, sep a = true)
      (hrest : Spells norm sep es rest) : Spells norm sep (e :: es) (name ++ (seps ++ rest))

/-- No name of the table is a beginning of another one, and none begins with a
    separator. -/
structure PrefixFree (norm : α → α) (sep : α → Bool) (tab : List (List α × β)) : Prop where
  free : tab.Pairwise fun e e' => ¬e.1.map norm <+: e'.1.map norm ∧ ¬e'.1.map norm <+: e.1.map norm
  head : ∀ e ∈ tab, ∃ a as, e.1 = a :: as ∧ ∀ b, norm b = norm a → sep b = false

section
variable {norm : α → α} {sep : α → Bool} {add : γ → β → γ}

/-- A word made of names begins with the first one. -/
theorem Spells.begins {e : List α × β} {es : List (List α × β)} {word : List α}
    (h : Spells norm sep (e :: es) word) : e.1.map norm <+: word.map norm := by
  cases h with
  | @cons _ _ name seps rest hname _ _ =>
    rw [List.map_append, hname]
    exact List.prefix_append _ _

/-- A word made of names of a table does not begin with a separator. -/
theorem Spells.dropWhile_eq {tab es : List (List α × β)} {word : List α}
    (htab : PrefixFree norm sep tab) (hes : ∀ e ∈ es, e ∈ tab) (h : Spells norm sep es word) :
    word.dropWhile sep = word := by
  cases h with
  | nil => rfl
  | @cons e _ name seps rest hname _ _ =>
    obtain ⟨a, as, heq, hsep⟩ := htab.head e (hes e List.mem_cons_self)
    cases name with
    | nil => simp [heq] at hname
    | cons b bs =>
      rw [heq, List.map_cons, List.map_cons] at hname
      have hb := hsep b (List.cons.inj hname).1
      simp [hb]

/-- What is left of a word after its first name and the separators. -/
theorem Spells.rest {tab es : List (List α × β)} {e : List α × β} {word : List α}
    (htab : PrefixFree norm sep tab) (hes : ∀ e' ∈ es, e' ∈ tab)
    (h : Spells norm sep (e :: es) word) :
    Spells norm sep es ((word.drop e.1.length).dropWhile sep) := by
  cases h with
  | @cons _ _ name seps rest hname hseps hrest =>
    have hlength : name.length = e.1.length := by simpa using congrArg List.length hname
    rw [← hlength, List.drop_left, List.dropWhile_append_of_pos hseps,
      hrest.dropWhile_eq htab hes]
    exact hrest

/-- A word that begins with a name and goes on with names is made of names. -/
theorem Spells.of_begins {es : List (List α × β)} {e : List α × β} {word : List α}
    (hbegins : e.1.map norm <+: word.map norm)
    (hrest : Spells norm sep es ((word.drop e.1.length).dropWhile sep)) :
    Spells norm sep (e :: es) word := by
  have hname : (word.take e.1.length).map norm = e.1.map norm := by
    have htake := List.prefix_iff_eq_take.mp hbegins
    rw [List.length_map, ← List.map_take] at htake
    exact htake.symm
  have hsplit : word = word.take e.1.length ++ ((word.drop e.1.length).takeWhile sep ++
      (word.drop e.1.length).dropWhile sep) := by
    rw [List.takeWhile_append_dropWhile, List.take_append_drop]
  rw [hsplit]
  exact .cons hname (fun _ ha => List.mem_takeWhile_imp ha) hrest

/-- A word that begins with the first name of the table and is made of names of it
    starts with that one. -/
theorem PrefixFree.first {tab es : List (List α × β)} {e : List α × β} {word : List α}
    (htab : PrefixFree norm sep (e :: tab)) (hbegins : e.1.map norm <+: word.map norm)
    (hne : es ≠ []) (hes : es.Sublist (e :: tab)) (hspells : Spells norm sep es word) :
    ∃ es', es = e :: es' ∧ es'.Sublist tab := by
  rcases List.sublist_cons_iff.mp hes with hes | ⟨es', rfl, hes'⟩
  · obtain ⟨e', es', rfl⟩ := List.exists_cons_of_ne_nil hne
    have hmem : e' ∈ tab := hes.subset List.mem_cons_self
    obtain ⟨hfree, hfree'⟩ := (List.pairwise_cons.mp htab.free).1 e' hmem
    rcases List.prefix_or_prefix_of_prefix hbegins hspells.begins with h | h
    · exact absurd h hfree
    · exact absurd h hfree'
  · exact ⟨es', rfl, hes'⟩

/-- The pass accepts exactly the words made of names in the order of the table. -/
theorem scan_eq_some_iff [DecidableEq α] {tab : List (List α × β)} (htab : PrefixFree norm sep tab)
    {word : List α} {acc acc' : γ} :
    scan norm sep add tab word acc = some acc' ↔
      ∃ es, es ≠ [] ∧ es.Sublist tab ∧ Spells norm sep es word ∧
        acc' = es.foldl (fun acc e => add acc e.2) acc := by
  induction tab generalizing word acc with
  | nil =>
    constructor
    · intro h
      cases h
    · rintro ⟨es, hne, hes, -⟩
      exact absurd (List.sublist_nil.mp hes) hne
  | cons e tab ih =>
    have htab' : PrefixFree norm sep tab :=
      ⟨(List.pairwise_cons.mp htab.free).2, fun e he => htab.head e (List.mem_cons_of_mem _ he)⟩
    unfold scan
    split
    · rename_i hbegins
      simp only []
      split
      · rename_i hdone
        constructor
        · intro h
          obtain rfl := Option.some.inj h
          refine ⟨[e], by simp, List.singleton_sublist.mpr List.mem_cons_self, ?_, rfl⟩
          refine .of_begins hbegins ?_
          rw [hdone]
          exact .nil
        · rintro ⟨es, hne, hes, hspells, rfl⟩
          obtain ⟨es', rfl, hes'⟩ := htab.first hbegins hne hes hspells
          have hrest := hspells.rest htab' fun e' he' => hes'.subset he'
          rw [hdone] at hrest
          cases es' with
          | nil => rfl
          | cons e' es'' =>
            obtain ⟨a, as, heq, -⟩ := htab'.head e' (hes'.subset List.mem_cons_self)
            have hbegins' := hrest.begins
            simp [heq] at hbegins'
      · rename_i hmore
        rw [ih htab']
        constructor
        · rintro ⟨es, hne, hes, hspells, rfl⟩
          exact ⟨e :: es, by simp, hes.cons_cons e, .of_begins hbegins hspells, rfl⟩
        · rintro ⟨es, hne, hes, hspells, rfl⟩
          obtain ⟨es', rfl, hes'⟩ := htab.first hbegins hne hes hspells
          have hrest := hspells.rest htab' fun e' he' => hes'.subset he'
          refine ⟨es', ?_, hes', hrest, rfl⟩
          rintro rfl
          cases hrest' : (word.drop e.1.length).dropWhile sep with
          | nil => exact hmore hrest'
          | cons a as =>
            rw [hrest'] at hrest
            cases hrest
    · rename_i hnot
      rw [ih htab']
      constructor
      · rintro ⟨es, hne, hes, hspells, rfl⟩
        exact ⟨es, hne, hes.cons e, hspells, rfl⟩
      · rintro ⟨es, hne, hes, hspells, rfl⟩
        rcases List.sublist_cons_iff.mp hes with hes | ⟨es', rfl, -⟩
        · exact ⟨es, hne, hes, hspells, rfl⟩
        · exact absurd hspells.begins hnot

end

end RevCPU.Lib
