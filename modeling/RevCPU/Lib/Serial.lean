import Mathlib.Data.List.Induction
import Mathlib.Data.List.TakeWhile

namespace RevCPU.Lib

variable {ι α β : Type}

/-- One atomic access of an operation to a memory: the addresses it touches and
    the values that it reads or writes there. -/
structure Access (ι α β : Type) where
  op : ι
  write : Bool
  dom : α → Bool
  val : α → β

/-- The memory after an access. -/
def Access.apply (m : α → β) (e : Access ι α β) : α → β :=
  fun a => if e.write && e.dom a then e.val a else m a

/-- The memory after a log of accesses. -/
def after (m : α → β) (log : List (Access ι α β)) : α → β := log.foldl Access.apply m

theorem after_concat (m : α → β) (log : List (Access ι α β)) (e : Access ι α β) :
    after m (log ++ [e]) = e.apply (after m log) := by
  simp [after]

/-- What the operations are meant to do, each in one step: `new` gives the values
    that an operation writes to its range when it finds a memory. -/
structure SeqSpec (ι α β : Type) where
  range : ι → α → Bool
  writes : ι → Bool
  new : ι → (α → β) → α → β

namespace SeqSpec

variable (S : SeqSpec ι α β)

def step (m : α → β) (k : ι) : α → β :=
  fun a => if S.writes k && S.range k a then S.new k m a else m a

/-- The memory after operations one after another. -/
def mem (m : α → β) (ks : List ι) : α → β := ks.foldl S.step m

theorem mem_append (m : α → β) (ks ks' : List ι) : S.mem m (ks ++ ks') = S.mem (S.mem m ks) ks' := by
  simp [mem]

theorem mem_untouched {m : α → β} {ks : List ι} {a : α} (h : ∀ k ∈ ks, S.range k a = false) :
    S.mem m ks a = m a := by
  induction ks generalizing m with
  | nil => rfl
  | cons k ks ih =>
    have hstep : S.step m k a = m a := by simp [step, h k (by simp)]
    calc S.mem m (k :: ks) a = S.mem (S.step m k) ks a := rfl
      _ = S.step m k a := ih fun j hj => h j (by simp [hj])
      _ = m a := hstep

/-- The operation has made its last access to an address: the write of one that
    writes, the read of one that only reads. -/
def FinishedAt (log : List (Access ι α β)) (k : ι) (a : α) : Prop :=
  ∃ e ∈ log, e.op = k ∧ e.write = S.writes k ∧ e.dom a = true

instance [DecidableEq ι] (log : List (Access ι α β)) (k : ι) (a : α) :
    Decidable (S.FinishedAt log k a) :=
  inferInstanceAs (Decidable (∃ e ∈ log, e.op = k ∧ e.write = S.writes k ∧ e.dom a = true))

theorem finishedAt_concat {log : List (Access ι α β)} {e : Access ι α β} {k : ι} {a : α} :
    S.FinishedAt (log ++ [e]) k a ↔
      S.FinishedAt log k a ∨ e.op = k ∧ e.write = S.writes k ∧ e.dom a = true := by
  constructor
  · rintro ⟨e', he', h⟩
    rcases List.mem_append.mp he' with he' | he'
    · exact .inl ⟨e', he', h⟩
    · rw [List.mem_singleton.mp he'] at h
      exact .inr h
  · rintro (⟨e', he', h⟩ | h)
    · exact ⟨e', by simp [he'], h⟩
    · exact ⟨e, by simp, h⟩

/-- An access that comes when a log has been made is in its place in a serial
    order: it stays in the range of its operation, which has not finished there;
    a read finds the memory, a write follows from what its operation has read;
    and every operation before it in the order has finished at its addresses. -/
structure InPlace (m : α → β) (ord : List ι) (log : List (Access ι α β)) (e : Access ι α β) :
    Prop where
  mem : e.op ∈ ord
  inRange : ∀ a, e.dom a = true → S.range e.op a = true
  fresh : ∀ a, e.dom a = true → ¬S.FinishedAt log e.op a
  read : e.write = false → ∀ a, e.dom a = true → e.val a = after m log a
  write : e.write = true → S.writes e.op = true ∧ ∀ ρ : α → β,
    (∀ e' ∈ log, e'.op = e.op → e'.write = false → ∀ a, e'.dom a = true → ρ a = e'.val a) →
    ∀ a, e.dom a = true → e.val a = S.new e.op ρ a
  older : ∀ l₁ l₂, ord = l₁ ++ e.op :: l₂ → ∀ j ∈ l₁, ∀ a, e.dom a = true → S.range j a = true →
    S.FinishedAt log j a

/-- Every access of a log is in its place. -/
def Serial (m : α → β) (ord : List ι) (log : List (Access ι α β)) : Prop :=
  ∀ l₁ e l₂, log = l₁ ++ e :: l₂ → S.InPlace m ord l₁ e

theorem Serial.of_concat {m : α → β} {ord : List ι} {log : List (Access ι α β)}
    {e : Access ι α β} (h : S.Serial m ord (log ++ [e])) :
    S.Serial m ord log ∧ S.InPlace m ord log e := by
  refine ⟨?_, h log e [] rfl⟩
  rintro l₁ e' l₂ rfl
  exact h l₁ e' (l₂ ++ [e]) (by simp)

theorem Serial.concat {m : α → β} {ord : List ι} {log : List (Access ι α β)}
    {e : Access ι α β} (h : S.Serial m ord log) (he : S.InPlace m ord log e) :
    S.Serial m ord (log ++ [e]) := by
  intro l₁ e' l₂ heq
  rcases List.eq_nil_or_concat l₂ with rfl | ⟨l, x, rfl⟩
  · obtain ⟨rfl, hlast⟩ := List.append_inj' heq rfl
    obtain rfl : e = e' := by simpa using hlast
    exact he
  · rw [List.concat_eq_append, ← List.cons_append, ← List.append_assoc] at heq
    obtain ⟨rfl, -⟩ := List.append_inj' heq rfl
    exact h l₁ e' l rfl

/-- The operations at the head of the order that are done with an address. -/
def settled [DecidableEq ι] (ord : List ι) (log : List (Access ι α β)) (a : α) : List ι :=
  ord.takeWhile fun k => !S.range k a || decide (S.FinishedAt log k a)

section
variable [DecidableEq ι] {S} {m : α → β} {ord l₁ l₂ : List ι} {log : List (Access ι α β)} {k : ι} {a : α}

/-- The settled operations stop at the first that is not done. -/
theorem settled_eq (hord : ord = l₁ ++ k :: l₂)
    (hdone : ∀ j ∈ l₁, S.range j a = true → S.FinishedAt log j a) (hk : S.range k a = true)
    (hopen : ¬S.FinishedAt log k a) : S.settled ord log a = l₁ := by
  have hhead : ∀ j ∈ l₁, (!S.range j a || decide (S.FinishedAt log j a)) = true := by
    intro j hj
    cases hr : S.range j a with
    | false => rfl
    | true => simp [hdone j hj hr]
  unfold settled
  rw [hord, List.takeWhile_append_of_pos hhead, List.takeWhile_cons_of_neg (by simp [hk, hopen]),
    List.append_nil]

/-- Past an operation that is done come only operations that do not touch the
    address. -/
theorem settled_past (hord : ord = l₁ ++ k :: l₂)
    (hdone : ∀ j ∈ l₁, S.range j a = true → S.FinishedAt log j a) (hk : S.FinishedAt log k a)
    (hlater : ∀ j ∈ l₂, S.range j a = true → ¬S.FinishedAt log j a) :
    ∃ t, S.settled ord log a = l₁ ++ k :: t ∧ ∀ j ∈ t, S.range j a = false := by
  have hhead : ∀ j ∈ l₁, (!S.range j a || decide (S.FinishedAt log j a)) = true := by
    intro j hj
    cases hr : S.range j a with
    | false => rfl
    | true => simp [hdone j hj hr]
  unfold settled
  rw [hord, List.takeWhile_append_of_pos hhead, List.takeWhile_cons_of_pos (by simp [hk])]
  refine ⟨_, rfl, ?_⟩
  intro j hj
  have hmem : j ∈ l₂ := (List.takeWhile_sublist _).subset hj
  have hcond := List.mem_takeWhile_imp hj
  cases hr : S.range j a with
  | false => rfl
  | true =>
    have hnot := hlater j hmem hr
    simp [hr, hnot] at hcond

theorem settled_concat_of_not_dom {e : Access ι α β} (h : e.dom a = false) :
    S.settled ord (log ++ [e]) a = S.settled ord log a := by
  unfold settled
  congr 1
  funext j
  have hiff : S.FinishedAt (log ++ [e]) j a ↔ S.FinishedAt log j a := by
    rw [finishedAt_concat]
    simp [h]
  simp [hiff]

omit [DecidableEq ι] in
/-- An operation that comes later in the order cannot have finished where an
    earlier one has not. -/
theorem Serial.not_finished_later (hs : S.Serial m ord log)
    (hord : ord = l₁ ++ k :: l₂) (hk : S.range k a = true) (hopen : ¬S.FinishedAt log k a) :
    ∀ j ∈ l₂, ¬S.FinishedAt log j a := by
  rintro j hj ⟨e, he, rfl, -, hdom⟩
  obtain ⟨l, l', rfl⟩ := List.append_of_mem he
  obtain ⟨t, t', rfl⟩ := List.append_of_mem hj
  have hplace := hs l e l' rfl
  have hsplit : ord = (l₁ ++ k :: t) ++ e.op :: t' := by simp [hord]
  obtain ⟨e', he', h⟩ := hplace.older _ _ hsplit k (by simp) a hdom hk
  exact hopen ⟨e', by simp [he'], h⟩

end

/-- The memory after a serial log is, at every address, that after the
    operations that are done with the address, one after another in the order. -/
theorem Serial.after_eq [DecidableEq ι] {m : α → β} {ord : List ι} {log : List (Access ι α β)}
    (hs : S.Serial m ord log) (hnodup : ord.Nodup) :
    (∀ a, after m log a = S.mem m (S.settled ord log a) a) ∧
      ∀ e ∈ log, e.write = false → ∀ l₁ l₂, ord = l₁ ++ e.op :: l₂ → ∀ a, e.dom a = true →
        e.val a = S.mem m l₁ a := by
  induction log using List.reverseRecOn with
  | nil =>
    refine ⟨?_, by simp⟩
    intro a
    rw [mem_untouched]
    · rfl
    · intro k hk
      have hcond := List.mem_takeWhile_imp hk
      simpa [FinishedAt] using hcond
  | append_singleton log e ih =>
    obtain ⟨hlog, hplace⟩ := Serial.of_concat S hs
    obtain ⟨hmem, hreads⟩ := ih hlog
    have hbefore : ∀ l₁ l₂, ord = l₁ ++ e.op :: l₂ → ∀ a, e.dom a = true →
        after m log a = S.mem m l₁ a := by
      intro l₁ l₂ hord a hdom
      rw [hmem a, settled_eq hord (fun j hj => hplace.older l₁ l₂ hord j hj a hdom)
        (hplace.inRange a hdom) (hplace.fresh a hdom)]
    refine ⟨?_, ?_⟩
    · intro a
      rw [after_concat]
      cases hdom : e.dom a with
      | false =>
        rw [settled_concat_of_not_dom hdom, ← hmem a]
        simp [Access.apply, hdom]
      | true =>
        obtain ⟨l₁, l₂, hord⟩ := List.append_of_mem hplace.mem
        have hdone : ∀ j ∈ l₁, S.range j a = true → S.FinishedAt (log ++ [e]) j a := fun j hj hr =>
          S.finishedAt_concat.mpr (.inl (hplace.older l₁ l₂ hord j hj a hdom hr))
        have hrange := hplace.inRange a hdom
        have hval : e.apply (after m log) a =
            if e.write then S.step (S.mem m l₁) e.op a else S.mem m l₁ a := by
          cases hwrite : e.write with
          | false => simp [Access.apply, hwrite, hbefore l₁ l₂ hord a hdom]
          | true =>
            obtain ⟨hwrites, hnew⟩ := hplace.write hwrite
            have hagree := hnew (S.mem m l₁) (by
              intro e' he' hop hread b hb
              exact (hreads e' he' hread l₁ l₂ (by rw [hop]; exact hord) b hb).symm) a hdom
            simp [Access.apply, hwrite, hdom, step, hwrites, hrange, hagree]
        rw [hval]
        by_cases hfinal : e.write = S.writes e.op
        · have hfin : S.FinishedAt (log ++ [e]) e.op a :=
            S.finishedAt_concat.mpr (.inr ⟨rfl, hfinal, hdom⟩)
          have hlater : ∀ j ∈ l₂, S.range j a = true → ¬S.FinishedAt (log ++ [e]) j a := by
            intro j hj _ hfinj
            rcases S.finishedAt_concat.mp hfinj with hfinj | ⟨heq, -, -⟩
            · exact Serial.not_finished_later hlog hord hrange (hplace.fresh a hdom) j hj hfinj
            · rw [hord, List.nodup_append, List.nodup_cons] at hnodup
              exact hnodup.2.1.1 (heq ▸ hj)
          obtain ⟨t, ht, htouch⟩ := settled_past hord hdone hfin hlater
          have hmemk : S.mem m (l₁ ++ e.op :: t) a = S.step (S.mem m l₁) e.op a := by
            rw [mem_append]
            exact S.mem_untouched htouch
          rw [ht, hmemk, hfinal]
          cases hwrites : S.writes e.op with
          | false => simp [step, hwrites]
          | true => rfl
        · have hopen : ¬S.FinishedAt (log ++ [e]) e.op a := by
            intro hfin
            rcases S.finishedAt_concat.mp hfin with hfin | ⟨-, heq, -⟩
            · exact hplace.fresh a hdom hfin
            · exact hfinal heq
          rw [settled_eq hord hdone hrange hopen]
          cases hwrite : e.write with
          | false => rfl
          | true => exact absurd (hwrite.trans (hplace.write hwrite).1.symm) hfinal
    · intro e' he' hread l₁ l₂ hord a hdom
      rcases List.mem_append.mp he' with he' | he'
      · exact hreads e' he' hread l₁ l₂ hord a hdom
      · obtain rfl := List.mem_singleton.mp he'
        rw [hplace.read hread a hdom, hbefore l₁ l₂ hord a hdom]

/-- When every operation has finished wherever it has to, the memory is that
    after all of them. -/
theorem Serial.after_finished [DecidableEq ι] {m : α → β} {ord : List ι}
    {log : List (Access ι α β)} (hs : S.Serial m ord log) (hnodup : ord.Nodup)
    (hfin : ∀ k ∈ ord, ∀ a, S.range k a = true → S.FinishedAt log k a) (a : α) :
    after m log a = S.mem m ord a := by
  have hall : S.settled ord log a = ord := by
    unfold settled
    rw [List.takeWhile_eq_self_iff]
    intro k hk
    cases hr : S.range k a with
    | false => rfl
    | true => simp [hfin k hk a hr]
  rw [(Serial.after_eq S hs hnodup).1 a, hall]

end SeqSpec

end RevCPU.Lib
