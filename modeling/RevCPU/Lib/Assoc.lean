import Mathlib.Data.List.Basic
import Mathlib.Data.List.Nodup

namespace RevCPU.Lib

variable {α β : Type} [DecidableEq α]

/-- A successful lookup splits the association list at its entry, and erasing
    the key leaves the two sides. -/
theorem lookup_split {l : List (α × β)} {k : α} {v : β} (h : l.lookup k = some v) :
    ∃ l₁ l₂, l = l₁ ++ (k, v) :: l₂ ∧ l.eraseP (fun n => n.1 == k) = l₁ ++ l₂ := by
  obtain ⟨l₁, l₂, rfl, hne⟩ := List.lookup_eq_some_iff.mp h
  refine ⟨l₁, l₂, rfl, ?_⟩
  rw [List.eraseP_append_right]
  · rw [List.eraseP_cons_of_pos (by simp)]
  · intro n hn
    have hkey := hne n hn
    simp only [bne_iff_ne, ne_eq] at hkey
    simpa using fun heq : n.1 = k => hkey heq.symm

theorem mem_of_lookup {l : List (α × β)} {k : α} {v : β} (h : l.lookup k = some v) :
    (k, v) ∈ l := by
  obtain ⟨l₁, l₂, rfl, -⟩ := lookup_split h
  simp

/-- With distinct keys an entry of the list is what a lookup of its key finds. -/
theorem lookup_of_mem {l : List (α × β)} {k : α} {v : β} (hnodup : (l.map Prod.fst).Nodup)
    (h : (k, v) ∈ l) : l.lookup k = some v := by
  obtain ⟨l₁, l₂, rfl⟩ := List.append_of_mem h
  rw [List.lookup_eq_some_iff]
  refine ⟨l₁, l₂, rfl, ?_⟩
  intro n hn
  simp only [List.map_append, List.map_cons, List.nodup_append, List.mem_map] at hnodup
  simp only [bne_iff_ne, ne_eq]
  intro heq
  exact hnodup.2.2 n.1 ⟨n, hn, rfl⟩ k (by simp) heq.symm

/-- Erasing a key from a list with distinct keys keeps exactly the others. -/
theorem mem_eraseP_key {l : List (α × β)} {k : α} (hnodup : (l.map Prod.fst).Nodup)
    {n : α × β} : n ∈ l.eraseP (fun n => n.1 == k) ↔ n ∈ l ∧ n.1 ≠ k := by
  constructor
  · intro hn
    refine ⟨List.mem_of_mem_eraseP hn, ?_⟩
    rintro rfl
    have hsome : l.lookup n.1 = some n.2 := lookup_of_mem hnodup (List.mem_of_mem_eraseP hn)
    obtain ⟨l₁, l₂, rfl, herase⟩ := lookup_split hsome
    rw [herase, List.mem_append] at hn
    simp only [List.map_append, List.map_cons, List.nodup_append, List.nodup_cons,
      List.mem_map] at hnodup
    rcases hn with hn | hn
    · exact hnodup.2.2 n.1 ⟨n, hn, rfl⟩ n.1 (by simp) rfl
    · exact hnodup.2.1.1 ⟨n, hn, rfl⟩
  · rintro ⟨hn, hne⟩
    exact (List.mem_eraseP_of_neg (by simpa using hne)).mpr hn

theorem lookup_eraseP_ne {l : List (α × β)} {k k' : α} (hne : k' ≠ k) :
    (l.eraseP fun n => n.1 == k).lookup k' = l.lookup k' := by
  induction l with
  | nil => rfl
  | cons n l ih =>
    by_cases hn : n.1 = k
    · have hbeq : (k' == n.1) = false := by simpa [hn] using hne
      rw [List.eraseP_cons_of_pos (by simpa using hn), List.lookup_cons, hbeq]
    · rw [List.eraseP_cons_of_neg (by simpa using hn), List.lookup_cons, List.lookup_cons, ih]

theorem map_fst_eraseP_key (l : List (α × β)) (k : α) :
    (l.eraseP fun n => n.1 == k).map Prod.fst = (l.map Prod.fst).erase k := by
  rw [List.erase_eq_eraseP', List.eraseP_map]
  rfl

theorem countP_eraseP_key {l : List (α × β)} {k : α} {v : β} (p : α × β → Bool)
    (h : l.lookup k = some v) :
    l.countP p = (l.eraseP fun n => n.1 == k).countP p + if p (k, v) then 1 else 0 := by
  obtain ⟨l₁, l₂, rfl, herase⟩ := lookup_split h
  rw [herase, List.countP_append, List.countP_append, List.countP_cons]
  omega

/-- In a list sorted by a key, the key tells the elements apart. -/
theorem eq_of_pairwise_lt {γ : Type} {f : γ → ℕ} {l : List γ}
    (h : l.Pairwise fun a b => f a < f b) {a b : γ} (ha : a ∈ l) (hb : b ∈ l)
    (heq : f a = f b) : a = b := by
  have hnodup : (l.map f).Nodup := (List.pairwise_map.mpr h).imp Nat.ne_of_lt
  exact List.inj_on_of_nodup_map hnodup ha hb heq

/-- A slot splits the list, and erasing the slot leaves the two sides. -/
theorem getElem?_split {γ : Type} {l : List γ} {i : ℕ} {a : γ} (h : l[i]? = some a) :
    ∃ l₁ l₂, l = l₁ ++ a :: l₂ ∧ l₁.length = i ∧ l.eraseIdx i = l₁ ++ l₂ := by
  obtain ⟨hlt, rfl⟩ := List.getElem?_eq_some_iff.mp h
  refine ⟨l.take i, l.drop (i + 1), by simp, by simp; omega, ?_⟩
  exact List.eraseIdx_eq_take_drop_succ l i

/-- An element of a pairwise related list can be replaced by one that is
    related to whatever it was related to. -/
theorem pairwise_replace {γ : Type} {R : γ → γ → Prop} {l₁ l₂ : List γ} {a b : γ}
    (h : (l₁ ++ a :: l₂).Pairwise R) (hleft : ∀ x ∈ l₁, R x a → R x b)
    (hright : ∀ x ∈ l₂, R a x → R b x) : (l₁ ++ b :: l₂).Pairwise R := by
  rw [List.pairwise_append, List.pairwise_cons] at h ⊢
  obtain ⟨h₁, ⟨ha, h₂⟩, hcross⟩ := h
  refine ⟨h₁, ⟨fun x hx => hright x hx (ha x hx), h₂⟩, ?_⟩
  intro x hx y hy
  rcases List.mem_cons.mp hy with rfl | hy
  · exact hleft x hx (hcross x hx a (by simp))
  · exact hcross x hx y (by simp [hy])

omit [DecidableEq α] in
/-- Keys that all occur in a list can be completed to entries of it. -/
theorem exists_entries {l : List (α × β)} {keys : List α} (h : ∀ k ∈ keys, ∃ v, (k, v) ∈ l) :
    ∃ l' : List (α × β), l'.map Prod.fst = keys ∧ ∀ q ∈ l', q ∈ l := by
  induction keys with
  | nil => exact ⟨[], rfl, by simp⟩
  | cons k keys ih =>
    obtain ⟨v, hv⟩ := h k (by simp)
    obtain ⟨l', hkeys, hmem⟩ := ih fun k' hk' => h k' (by simp [hk'])
    refine ⟨(k, v) :: l', by simp [hkeys], ?_⟩
    intro q hq
    rcases List.mem_cons.mp hq with rfl | hq
    · exact hv
    · exact hmem q hq

/-- A list stored under its positions, counted from `n`: the lookup of a
    position finds what stands there. -/
theorem lookup_zipIdx {γ δ : Type} (f : γ → δ) (l : List γ) (n i : ℕ) :
    ((l.zipIdx n).map fun y => (y.2, f y.1)).lookup (n + i) = l[i]?.map f := by
  induction l generalizing n i with
  | nil => rfl
  | cons a l ih =>
    rw [List.zipIdx_cons, List.map_cons, List.lookup_cons]
    cases i with
    | zero => simp
    | succ i =>
      have hadd : n + (i + 1) = n + 1 + i := by omega
      have hne : (n + 1 + i == n) = false := beq_false_of_ne (by omega)
      rw [hadd, hne, List.getElem?_cons_succ]
      exact ih (n + 1) i

/-- Overwrites the value of a key, which must be there. -/
def assign (k : α) (v : β) : List (α × β) → Option (List (α × β))
  | [] => none
  | n :: l => if n.1 = k then some ((k, v) :: l) else (assign k v l).map (n :: ·)

theorem lookup_assign {k : α} {v : β} {l l' : List (α × β)} (h : assign k v l = some l') (k' : α) :
    l'.lookup k' = if k' = k then some v else l.lookup k' := by
  induction l generalizing l' with
  | nil => simp [assign] at h
  | cons n l ih =>
    rw [assign] at h
    split at h
    · rename_i heq
      rw [← Option.some.inj h, List.lookup_cons, List.lookup_cons, heq]
      by_cases hk : k' = k
      · simp [hk]
      · have hbeq : (k' == k) = false := beq_false_of_ne hk
        simp only [hbeq, if_neg hk]
    · rename_i hne
      obtain ⟨l₁, hl₁, rfl⟩ := Option.map_eq_some_iff.mp h
      rw [List.lookup_cons, List.lookup_cons, ih hl₁]
      by_cases hk : k' = k
      · have hbeq : (k' == n.1) = false := beq_false_of_ne fun heq => hne (heq.symm.trans hk)
        simp only [hbeq]
      · simp only [if_neg hk]

theorem assign_isSome (k : α) (v : β) (l : List (α × β)) :
    (assign k v l).isSome = (l.lookup k).isSome := by
  induction l with
  | nil => rfl
  | cons n l ih =>
    rw [assign, List.lookup_cons]
    by_cases heq : n.1 = k
    · have hbeq : (k == n.1) = true := by simp [heq]
      simp [heq]
    · have hbeq : (k == n.1) = false := beq_false_of_ne fun h => heq h.symm
      rw [if_neg heq, Option.isSome_map, ih, hbeq]

/-- Adds an entry for a key that is not there yet. -/
def insertNew (k : α) (v : β) (l : List (α × β)) : List (α × β) :=
  if (l.lookup k).isSome then l else l ++ [(k, v)]

theorem lookup_insertNew_ne {k k' : α} (hne : k' ≠ k) (v : β) (l : List (α × β)) :
    (insertNew k v l).lookup k' = l.lookup k' := by
  unfold insertNew
  split
  · rfl
  · have hbeq : (k' == k) = false := beq_false_of_ne hne
    rw [List.lookup_append, List.lookup_cons, hbeq]
    simp

end RevCPU.Lib
