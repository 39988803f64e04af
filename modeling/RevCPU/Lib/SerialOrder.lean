import Mathlib.Data.List.Basic
import RevCPU.Lib.Serial

namespace RevCPU.Lib

variable {ι α β : Type} [DecidableEq ι]

/-- The operations of a log in the order of their first accesses. -/
def firsts (log : List (Access ι α β)) : List ι :=
  log.foldl (fun ks e => if e.op ∈ ks then ks else ks ++ [e.op]) []

theorem firsts_concat (log : List (Access ι α β)) (e : Access ι α β) :
    firsts (log ++ [e]) = if e.op ∈ firsts log then firsts log else firsts log ++ [e.op] := by
  rw [firsts, List.foldl_append]
  rfl

theorem mem_firsts {log : List (Access ι α β)} {k : ι} : k ∈ firsts log ↔ ∃ e ∈ log, e.op = k := by
  induction log using List.reverseRecOn with
  | nil => simp [firsts]
  | append_singleton log e ih =>
    rw [firsts_concat]
    split
    · rename_i hmem
      rw [ih]
      constructor
      · rintro ⟨e', he', rfl⟩
        exact ⟨e', by simp [he'], rfl⟩
      · rintro ⟨e', he', rfl⟩
        rcases List.mem_append.mp he' with he' | he'
        · exact ⟨e', he', rfl⟩
        · rw [List.mem_singleton.mp he'] at ih ⊢
          exact ih.mp hmem
    · rw [List.mem_append, List.mem_singleton, ih]
      constructor
      · rintro (⟨e', he', rfl⟩ | rfl)
        · exact ⟨e', by simp [he'], rfl⟩
        · exact ⟨e, by simp, rfl⟩
      · rintro ⟨e', he', rfl⟩
        rcases List.mem_append.mp he' with he' | he'
        · exact .inl ⟨e', he', rfl⟩
        · exact .inr (by rw [List.mem_singleton.mp he'])

theorem firsts_nodup (log : List (Access ι α β)) : (firsts log).Nodup := by
  induction log using List.reverseRecOn with
  | nil => simp [firsts]
  | append_singleton log e ih =>
    rw [firsts_concat]
    split
    · exact ih
    · rename_i hnew
      rw [List.nodup_append]
      refine ⟨ih, by simp, ?_⟩
      rintro a ha b hb rfl
      rw [List.mem_singleton.mp hb] at ha
      exact hnew ha

/-- More accesses put operations only behind. -/
theorem firsts_append (log log' : List (Access ι α β)) : ∃ ks, firsts (log ++ log') = firsts log ++ ks := by
  induction log' using List.reverseRecOn with
  | nil => exact ⟨[], by simp⟩
  | append_singleton log' e ih =>
    obtain ⟨ks, hks⟩ := ih
    rw [← List.append_assoc, firsts_concat, hks]
    split
    · exact ⟨ks, rfl⟩
    · exact ⟨ks ++ [e.op], by simp⟩

/-- The first access of an operation that occurs in a log. -/
theorem exists_first {log : List (Access ι α β)} {k : ι} (h : ∃ e ∈ log, e.op = k) :
    ∃ p e q, log = p ++ e :: q ∧ e.op = k ∧ ∀ e' ∈ p, e'.op ≠ k := by
  obtain ⟨e, he, hop⟩ := h
  have hsome : (log.find? fun e => decide (e.op = k)).isSome := by
    rw [List.find?_isSome]
    exact ⟨e, he, by simpa using hop⟩
  obtain ⟨f, hf⟩ := Option.isSome_iff_exists.mp hsome
  obtain ⟨hfk, p, q, hsplit, hp⟩ := List.find?_eq_some_iff_append.mp hf
  exact ⟨p, f, q, hsplit, by simpa using hfk, fun e' he' => by simpa using hp e' he'⟩

/-- Accesses make a serial log when an operation begins only after the others
    that meet it and have begun are finished. -/
theorem SeqSpec.serial_of_exclusive (S : SeqSpec ι α β) {m : α → β} {log : List (Access ι α β)}
    (hplace : ∀ l₁ e l₂, log = l₁ ++ e :: l₂ → ∀ ord : List ι, e.op ∈ ord →
      (∀ k₁ k₂, ord = k₁ ++ e.op :: k₂ → ∀ j ∈ k₁, ∀ a, e.dom a = true → S.range j a = true →
        S.FinishedAt l₁ j a) → S.InPlace m ord l₁ e)
    (hdom : ∀ e ∈ log, ∀ a, e.dom a = true → S.range e.op a = true)
    (hexcl : ∀ l₁ e l₂, log = l₁ ++ e :: l₂ → (∀ e' ∈ l₁, e'.op ≠ e.op) → ∀ e' ∈ l₁, ∀ a,
      S.range e.op a = true → S.range e'.op a = true → S.FinishedAt l₁ e'.op a) :
    S.Serial m (firsts log) log := by
  intro l₁ e l₂ hlog
  refine hplace l₁ e l₂ hlog _ (mem_firsts.mpr ⟨e, by simp [hlog], rfl⟩) ?_
  intro k₁ k₂ hord j hj a hda hrange
  have hhas : ∃ x ∈ l₁ ++ [e], x.op = e.op := ⟨e, by simp, rfl⟩
  obtain ⟨p, f, q, hsplit, hfop, hnone⟩ := exists_first hhas
  have hwhole : log = p ++ f :: (q ++ l₂) := by
    rw [← List.cons_append, ← List.append_assoc, ← hsplit, hlog]
    simp
  have hnew : e.op ∉ firsts p := by
    rw [mem_firsts]
    rintro ⟨x, hx, hop⟩
    exact hnone x hx hop
  have hhead : k₁ = firsts p := by
    obtain ⟨ks, hks⟩ := firsts_append (p ++ [f]) (q ++ l₂)
    rw [List.append_assoc, List.singleton_append, ← hwhole, firsts_concat, hfop, if_neg hnew, hord,
      List.append_assoc, List.singleton_append] at hks
    have hnodup := firsts_nodup log
    rw [hord, List.nodup_append, List.nodup_cons] at hnodup
    refine ((List.append_cons_inj_of_notMem ?_ hnodup.2.1.1).mp hks).1
    intro hk₁
    exact hnodup.2.2 _ hk₁ _ (by simp) rfl
  rw [hhead] at hj
  obtain ⟨x, hx, rfl⟩ := mem_firsts.mp hj
  have hfin := hexcl p f (q ++ l₂) hwhole (by rwa [hfop]) x hx a
    (by rw [hfop]; exact hdom e (by simp [hlog]) a hda) hrange
  have hsub : ∀ y ∈ p, y ∈ l₁ := by
    rcases List.eq_nil_or_concat q with rfl | ⟨q', y, rfl⟩
    · obtain ⟨rfl, -⟩ := List.append_inj' hsplit rfl
      exact fun _ h => h
    · rw [List.concat_eq_append, ← List.cons_append, ← List.append_assoc] at hsplit
      obtain ⟨rfl, -⟩ := List.append_inj' hsplit rfl
      exact fun y h => by simp [h]
  obtain ⟨y, hy, h⟩ := hfin
  exact ⟨y, hsub y hy, h⟩

end RevCPU.Lib
