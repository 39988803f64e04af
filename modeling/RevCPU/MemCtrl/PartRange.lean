import RevCPU.MemCtrl.Parts

namespace RevCPU.RevBasicMemCtrl

/-- The parts after the first line follow one another inside the bytes that are
    left. -/
theorem lineParts_spec (P : Params) (n newBase bytesLeft curByte : ℕ) :
    (lineParts P n newBase bytesLeft curByte).Pairwise (fun p q => p.cur + p.size ≤ q.cur) ∧
      ∀ p ∈ lineParts P n newBase bytesLeft curByte, curByte ≤ p.cur ∧
        p.addr + curByte = newBase + p.cur ∧ p.cur + p.size ≤ curByte + bytesLeft := by
  induction n generalizing newBase bytesLeft curByte with
  | zero => simp [lineParts]
  | succ n ih =>
    simp only [lineParts]
    generalize hsize : (if bytesLeft < P.lineSize then bytesLeft else P.lineSize) = newSize
    have hle : newSize ≤ bytesLeft := by
      rw [← hsize]
      split <;> omega
    obtain ⟨hpairs, hparts⟩ := ih (newBase + newSize) (bytesLeft - newSize) (curByte + newSize)
    refine ⟨List.pairwise_cons.mpr ⟨?_, hpairs⟩, ?_⟩
    · intro q hq
      exact (hparts q hq).1
    · intro p hp
      rcases List.mem_cons.mp hp with rfl | hp
      · refine ⟨Nat.le_refl _, rfl, ?_⟩
        simp only
        omega
      · obtain ⟨hcur, haddr, hend⟩ := hparts p hp
        omega

theorem getBaseCacheLineSize_le (P : Params) (Addr Size : ℕ) :
    getBaseCacheLineSize P Addr Size ≤ Size := by
  unfold getBaseCacheLineSize
  simp only
  split
  · split <;> omega
  · split <;> omega

theorem baseSize_le (P : Params) (op : RevMemOp) : baseSize P op ≤ op.Size := by
  unfold baseSize
  split
  · exact getBaseCacheLineSize_le P op.Addr op.Size
  · exact Nat.le_refl _

/-- Where the parts of an operation lie. -/
theorem dispatchParts_range (P : Params) (op : RevMemOp) {p : Part} (hp : p ∈ dispatchParts P op) :
    p.addr = op.Addr + p.cur ∧ p.cur + p.size ≤ op.Size := by
  have hbase := baseSize_le P op
  unfold dispatchParts at hp
  split at hp
  · rcases List.mem_cons.mp hp with rfl | hp
    · exact ⟨rfl, by simpa using hbase⟩
    · obtain ⟨hcur, haddr, hend⟩ := (lineParts_spec P _ _ _ _).2 p hp
      omega
  · obtain rfl := List.mem_singleton.mp hp
    exact ⟨rfl, by simp⟩

theorem dispatchParts_pairwise (P : Params) (op : RevMemOp) :
    (dispatchParts P op).Pairwise fun p q => p.cur + p.size ≤ q.cur := by
  unfold dispatchParts
  split
  · obtain ⟨hpairs, hparts⟩ := lineParts_spec P (getNumCacheLines P op.Addr op.Size - 1)
      (op.Addr + baseSize P op) (op.Size - baseSize P op) (baseSize P op)
    refine List.pairwise_cons.mpr ⟨?_, hpairs⟩
    intro q hq
    simpa using (hparts q hq).1
  · exact List.pairwise_singleton _ _

/-- An operation that is not split is sent as a whole. -/
theorem dispatchParts_whole {P : Params} {op : RevMemOp} (h : (splitOp P op).SplitRqst ≤ 1) :
    dispatchParts P op = [⟨op.Addr, op.Size, 0⟩] := by
  unfold dispatchParts
  unfold splitOp at h
  split
  · rename_i hcache
    rw [if_pos hcache] at h
    have hlines : getNumCacheLines P op.Addr op.Size ≤ 1 := h
    have hbase : baseSize P op = op.Size := by
      unfold baseSize
      rw [if_neg (by omega)]
    rw [hbase, Nat.sub_eq_zero_of_le hlines]
    rfl
  · rfl

/-- The parts of an operation leave out none of its bytes. -/
def Covered (P : Params) (op : RevMemOp) : Prop :=
  ∀ i < op.Size, ∃ p ∈ dispatchParts P op, p.cur ≤ i ∧ i < p.cur + p.size

instance (P : Params) (op : RevMemOp) : Decidable (Covered P op) :=
  inferInstanceAs (Decidable (∀ i < op.Size, ∃ p ∈ dispatchParts P op, p.cur ≤ i ∧ i < p.cur + p.size))

/-- The parts depend only on the range and the flags of an operation. -/
theorem dispatchParts_congr {P : Params} {op op' : RevMemOp} (haddr : op.Addr = op'.Addr)
    (hsize : op.Size = op'.Size) (hflags : op.flags = op'.flags) :
    dispatchParts P op = dispatchParts P op' := by
  unfold dispatchParts baseSize RevMemOp.isCacheable
  rw [haddr, hsize, hflags]

theorem Covered.congr {P : Params} {op op' : RevMemOp} (h : Covered P op)
    (haddr : op.Addr = op'.Addr) (hsize : op.Size = op'.Size) (hflags : op.flags = op'.flags) :
    Covered P op' := by
  unfold Covered
  rw [← hsize, ← dispatchParts_congr haddr hsize hflags]
  exact h

end RevCPU.RevBasicMemCtrl
