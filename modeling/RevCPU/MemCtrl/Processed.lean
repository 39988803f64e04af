import RevCPU.MemCtrl.Parts

namespace RevCPU

namespace RevBasicMemCtrl

/-- `buildStandardMemRqst` either leaves the operation alone or sends all its
    parts. -/
theorem buildStandardMemRqst_cases {P : Params} {s s' : RevBasicMemCtrl} {op : RevMemOp}
    {Success : Bool} (h : buildStandardMemRqst P s op = some (s', Success)) :
    (Success = false ∧ s' = s) ∨
      (Success = true ∧ op.Op ≠ .MemOpFENCE ∧ op.Op ≠ .MemOpAMO ∧
        s' = s.sendParts (splitOp P op) (dispatchFlags P op) (dispatchParts P op)) := by
  unfold buildStandardMemRqst at h
  by_cases hc : P.hasCache
  · by_cases hop : op.isCacheable
    · simp only [hc, hop, Bool.and_true, if_true, buildCacheMemRqst] at h
      have hkind : op.Op ≠ .MemOpFENCE ∧ op.Op ≠ .MemOpAMO := by
        constructor <;> intro hk <;> simp [hk, freeSlots] at h
      cases hslots : freeSlots P s op.Op with
      | none => simp [hslots] at h
      | some slots =>
        simp only [hslots] at h
        split at h
        · simp only [Option.some.injEq, Prod.mk.injEq] at h
          exact .inl ⟨h.2.symm, h.1.symm⟩
        · simp only [Option.some.injEq, Prod.mk.injEq] at h
          refine .inr ⟨h.2.symm, hkind.1, hkind.2, ?_⟩
          rw [← h.1, sendLines_eq_sendParts]
          simp [splitOp, dispatchParts, dispatchFlags, hc, hop, sendParts]
    · simp only [hc, hop, Bool.and_false, if_false, Bool.not_false, Bool.and_true, if_true,
        Option.map_eq_some_iff, Prod.mk.injEq, Bool.false_eq_true] at h
      obtain ⟨s₁, h, rfl, rfl⟩ := h
      unfold buildRawMemRqst at h
      split at h
      · simp at h
      · simp at h
      · simp only [Option.some.injEq] at h
        refine .inr ⟨rfl, ‹_›, ‹_›, ?_⟩
        simp [← h, splitOp, dispatchParts, dispatchFlags, hc, hop, sendParts]
  · simp only [hc, Bool.false_and, if_false, Option.map_eq_some_iff, Prod.mk.injEq,
      Bool.false_eq_true] at h
    obtain ⟨s₁, h, rfl, rfl⟩ := h
    unfold buildRawMemRqst at h
    split at h
    · simp at h
    · simp at h
    · simp only [Option.some.injEq] at h
      refine .inr ⟨rfl, ‹_›, ‹_›, ?_⟩
      simp [← h, splitOp, dispatchParts, dispatchFlags, hc, sendParts]

/-- The scan of `processNextRqst` stops at slot `i`: the operation there is
    available and every earlier one is not. -/
structure Candidate (P : Params) (q : List RevMemOp) (t : TMax) (i : ℕ) (op : RevMemOp) : Prop where
  slot : q[i]? = some op
  avail : ∃ t', isMemOpAvail P op t = some (true, t')
  skipped : ∀ j < i, ∀ o, q[j]? = some o → isMemOpAvail P o t = some (false, t)

theorem isMemOpAvail_false {P : Params} {op : RevMemOp} {t t' : TMax}
    (h : isMemOpAvail P op t = some (false, t')) : t' = t := by
  unfold isMemOpAvail at h
  cases hop : op.Op <;> simp only [hop] at h <;> (try split at h) <;> simp_all

theorem nextCandidate_spec {P : Params} {q : List RevMemOp} {k i : ℕ} {t t' : TMax} {op : RevMemOp}
    (h : nextCandidate P q k t = some (some (i, op, t'))) :
    k ≤ i ∧ Candidate P q t (i - k) op := by
  induction q generalizing k with
  | nil => simp [nextCandidate] at h
  | cons o q ih =>
    unfold nextCandidate at h
    split at h
    · simp at h
    · rename_i t₁ havail
      simp only [Option.some.injEq, Prod.mk.injEq] at h
      obtain ⟨rfl, rfl, rfl⟩ := h
      exact ⟨Nat.le_refl _, by simp, ⟨_, havail⟩, by simp⟩
    · rename_i t₁ havail
      obtain rfl := isMemOpAvail_false havail
      obtain ⟨hle, hslot, hav, hskip⟩ := ih h
      have hidx : i - k = (i - (k + 1)) + 1 := by omega
      refine ⟨by omega, by rw [hidx]; exact hslot, hav, ?_⟩
      intro j hj o' ho'
      cases j with
      | zero =>
        simp only [List.getElem?_cons_zero, Option.some.injEq] at ho'
        subst ho'
        exact havail
      | succ j => exact hskip j (by omega) o' (by simpa using ho')

/-- The controller once the operation in slot `i` has been sent and removed
    from the queue. -/
def dispatchSlot (P : Params) (s : RevBasicMemCtrl) (i : ℕ) (op : RevMemOp) : RevBasicMemCtrl :=
  { s.sendParts (splitOp P op) (dispatchFlags P op) (dispatchParts P op) with
    rqstQ := s.rqstQ.eraseIdx i }

section
variable (P : Params) (s : RevBasicMemCtrl) (i : ℕ) (op : RevMemOp)

@[simp] theorem dispatchSlot_rqstQ : (dispatchSlot P s i op).rqstQ = s.rqstQ.eraseIdx i := rfl
@[simp] theorem dispatchSlot_AMOTable : (dispatchSlot P s i op).AMOTable = s.AMOTable := by
  simp [dispatchSlot]
@[simp] theorem dispatchSlot_nextPtr : (dispatchSlot P s i op).nextPtr = s.nextPtr := by
  simp [dispatchSlot]
@[simp] theorem dispatchSlot_num_fence : (dispatchSlot P s i op).num_fence = s.num_fence := by
  simp [dispatchSlot]
@[simp] theorem dispatchSlot_nextId :
    (dispatchSlot P s i op).nextId = s.nextId + (dispatchParts P op).length := by
  simp [dispatchSlot]
@[simp] theorem dispatchSlot_outstanding :
    (dispatchSlot P s i op).outstanding =
      s.outstanding ++ (List.range' s.nextId (dispatchParts P op).length).map fun id =>
        (id, splitOp P op) := by
  simp [dispatchSlot]

end

/-- The three things one call of `processNextRqst` can do. -/
inductive Processed (P : Params) (s : RevBasicMemCtrl) (t : TMax) : RevBasicMemCtrl → Prop
  | idle : Processed P s t s
  | fence {i : ℕ} {op : RevMemOp} (hcand : Candidate P s.rqstQ t i op)
      (hop : op.Op = .MemOpFENCE) :
      Processed P s t { s with rqstQ := s.rqstQ.eraseIdx i, num_fence := s.num_fence + 1 }
  | dispatch {i : ℕ} {op : RevMemOp} (hcand : Candidate P s.rqstQ t i op)
      (hfence : op.Op ≠ .MemOpFENCE) (hamo : op.Op ≠ .MemOpAMO)
      (hpend : s.isPendingAMO i op = false) :
      Processed P s t (dispatchSlot P s i op)

theorem processNextRqst_cases {P : Params} {s s' : RevBasicMemCtrl} {t t' : TMax}
    (h : processNextRqst P s t = some (s', t')) :
    Processed P s t s' ∧ (s'.num_fence ≠ s.num_fence → t'.t_max_ops = P.max_ops) := by
  unfold processNextRqst at h
  split at h
  · simp only [Option.some.injEq, Prod.mk.injEq] at h
    rw [← h.1]
    exact ⟨.idle, by simp⟩
  split at h
  · simp at h
  · simp only [Option.some.injEq, Prod.mk.injEq] at h
    rw [← h.1]
    exact ⟨.idle, by simp⟩
  rename_i i op t₁ hnext
  have hcand : Candidate P s.rqstQ t i op := (nextCandidate_spec hnext).2
  split at h
  · rename_i hop
    simp only [Option.some.injEq, Prod.mk.injEq] at h
    rw [← h.1, ← h.2]
    exact ⟨.fence hcand hop, fun _ => rfl⟩
  split at h
  · simp only [Option.some.injEq, Prod.mk.injEq] at h
    rw [← h.1]
    exact ⟨.idle, by simp⟩
  rename_i hfence hpend
  split at h
  · simp at h
  · rename_i s₁ hbuild
    obtain ⟨hf, -⟩ | ⟨-, -, hamo, rfl⟩ := buildStandardMemRqst_cases hbuild
    · simp at hf
    simp only [Option.some.injEq, Prod.mk.injEq, sendParts_rqstQ] at h
    rw [← h.1]
    exact ⟨.dispatch hcand hfence hamo (by simpa using hpend), by simp⟩
  · rename_i s₁ hbuild
    obtain ⟨-, rfl⟩ | ⟨hf, -⟩ := buildStandardMemRqst_cases hbuild
    · simp only [Option.some.injEq, Prod.mk.injEq] at h
      rw [← h.1]
      exact ⟨.idle, by simp⟩
    · simp at hf

end RevBasicMemCtrl

end RevCPU
