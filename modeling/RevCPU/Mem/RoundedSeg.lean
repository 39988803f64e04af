import RevCPU.Mem.ProtectionRun

namespace RevCPU

namespace MemSegment

/-- A segment as the constructor and the setters leave it: two 64-bit fields and
    the top address that they give. -/
structure Wf (s : MemSegment) : Prop where
  base : s.BaseAddr < W64
  size : s.Size < W64
  sized : s.Sized

/-- A segment that runs over the end of the address space contains nothing. -/
theorem Wf.fits {s : MemSegment} (h : s.Wf) {a : ℕ} (hc : s.contains a = true) : s.Fits := by
  obtain ⟨hbase, hsize, hsized⟩ := h
  refine hsized.fits ?_
  simp only [contains, Bool.and_eq_true, decide_eq_true_eq] at hc
  unfold Sized at hsized
  unfold W64 at *
  omega

theorem Wf.contains_iff {s : MemSegment} (h : s.Wf) {a : ℕ} (hc : s.contains a = true) (b : ℕ) :
    s.contains b = true ↔ s.BaseAddr ≤ b ∧ b < s.BaseAddr + s.Size := (h.fits hc).contains_iff

end MemSegment

namespace RevMem

open MemSegment

/-- `SegSize` rounded up to a multiple of `RoundUpSize`. -/
def roundUp (SegSize RoundUpSize : ℕ) : ℕ :=
  (SegSize + RoundUpSize - 1) / RoundUpSize * RoundUpSize

theorem le_roundUp {n r : ℕ} (hr : 1 ≤ r) : n ≤ roundUp n r := by
  have hmod := Nat.mod_lt (n + r - 1) (by omega : 0 < r)
  have hsplit := Nat.div_add_mod (n + r - 1) r
  rw [Nat.mul_comm] at hsplit
  unfold roundUp
  omega

/-- The size that `AddRoundedMemSeg` computes, where it does not wrap around. -/
theorem roundedSize_eq {n r : ℕ} (hr : 1 ≤ r) (hlt : roundUp n r < W64) :
    roundedSize n r = roundUp n r := by
  have hmod := Nat.mod_lt n (by omega : 0 < r)
  have hsplit := Nat.div_add_mod n r
  rw [Nat.mul_comm] at hsplit
  unfold roundedSize
  simp only
  by_cases hzero : n % r = 0
  · have hdiv : (n + r - 1) / r = n / r := by
      refine Nat.div_eq_of_lt_le ?_ ?_
      · omega
      · rw [Nat.succ_mul]
        omega
    rw [if_pos hzero, roundUp, hdiv]
    omega
  · have hdiv : (n + r - 1) / r = n / r + 1 := by
      refine Nat.div_eq_of_lt_le ?_ ?_
      · rw [Nat.succ_mul]
        omega
      · rw [Nat.succ_mul, Nat.succ_mul]
        omega
    have hup : roundUp n r = n + r - n % r := by
      rw [roundUp, hdiv, Nat.succ_mul]
      omega
    rw [if_neg hzero, ← hup, Nat.mod_eq_of_lt hlt]

/-- `AddRoundedMemSeg` keeps every address valid and makes its range valid. -/
def AddRoundedGrows (m : RevMem) (BaseAddr SegSize RoundUpSize : ℕ) : Prop :=
  ∃ r m', m.AddRoundedMemSeg BaseAddr SegSize RoundUpSize = some (r, m') ∧
    ∀ a, m.isValidVirtAddr a = true ∨
        (BaseAddr ≤ a ∧ a < BaseAddr + roundUp SegSize RoundUpSize) →
      m'.isValidVirtAddr a = true

/-- The tail that is lost when the first segment that touches the range contains
    its top and not its base (the code moves that segment down to the base and
    keeps its size) lies in other segments. -/
def TailKept (m : RevMem) (BaseAddr top : ℕ) : Prop :=
  ∀ l₁ s l₂, m.MemSegs = l₁ ++ s :: l₂ →
    (∀ x ∈ l₁, x.contains BaseAddr = false ∧ x.contains top = false) →
    s.contains BaseAddr = false → s.contains top = true →
    ∀ a, BaseAddr + s.Size ≤ a → a < s.BaseAddr + s.Size →
      ∃ x ∈ l₁ ++ l₂ ++ m.ThreadMemSegs, x.contains a = true

section

variable {m : RevMem} {b top : ℕ}

theorem growSegs_none {l : List MemSegment} (h : growSegs b top l = none) :
    ∀ x ∈ l, x.contains b = false ∧ x.contains top = false := by
  induction l with
  | nil => simp
  | cons x rest ih =>
    simp only [growSegs] at h
    split at h
    · simp at h
    · rename_i hb
      split at h
      · simp at h
      · rename_i htop
        intro y hy
        rcases List.mem_cons.mp hy with rfl | hy
        · exact ⟨by simpa using hb, by simpa using htop⟩
        · exact ih (by simpa using h) y hy

/-- The first segment that touches the range contains its top only. -/
theorem growSegs_moved {l₁ l₂ : List MemSegment} {s : MemSegment}
    (hfirst : ∀ x ∈ l₁, x.contains b = false ∧ x.contains top = false)
    (hb : s.contains b = false) (htop : s.contains top = true) :
    growSegs b top (l₁ ++ s :: l₂) =
      some (b, l₁ ++ (s.setBaseAddr b).setSize ((s.Size + (b + W64 - b) % W64) % W64) :: l₂) := by
  induction l₁ with
  | nil =>
    simp only [List.nil_append, growSegs, hb, htop, Bool.false_eq_true, if_false, if_true]
    rfl
  | cons x rest ih =>
    obtain ⟨hxb, hxtop⟩ := hfirst x (by simp)
    have hrest := ih fun y hy => hfirst y (by simp [hy])
    simp only [List.cons_append, growSegs, hxb, hxtop, Bool.false_eq_true, if_false, hrest,
      Option.map_some]

/-- A segment that contains the top of a range and not its base starts inside
    the range. -/
theorem base_lt_of_top {s : MemSegment} (hlt : b < top) (hb : s.contains b = false)
    (htop : s.contains top = true) : b < s.BaseAddr := by
  by_contra hle
  simp only [contains, Bool.and_eq_true, decide_eq_true_eq, Bool.and_eq_false_iff,
    decide_eq_false_iff_not] at hb htop
  omega

/-- The segment moved down to the base of the range. -/
theorem moved_contains {s : MemSegment} (hwf : s.Wf) (hlt : b < top) (hb : s.contains b = false)
    (htop : s.contains top = true) (a : ℕ) :
    ((s.setBaseAddr b).setSize ((s.Size + (b + W64 - b) % W64) % W64)).contains a = true ↔
      b ≤ a ∧ a < b + s.Size := by
  have hbase := base_lt_of_top hlt hb htop
  have hfits := (hwf.fits htop).1
  rw [MemSys.shift_contains, Nat.mod_eq_of_lt (by omega)]

end

/-- `AddRoundedMemSeg` only grows the valid addresses exactly when the tail of a
    segment that it moves down is not lost. -/
theorem addRounded_grows_iff {m : RevMem} {BaseAddr SegSize RoundUpSize : ℕ}
    (hsegs : ∀ s ∈ m.MemSegs, s.Wf) (hsize : 1 ≤ SegSize) (hround : 1 ≤ RoundUpSize)
    (hwrap : BaseAddr + roundUp SegSize RoundUpSize < W64) :
    m.AddRoundedGrows BaseAddr SegSize RoundUpSize ↔
      m.TailKept BaseAddr (BaseAddr + roundUp SegSize RoundUpSize) := by
  have hpos := Nat.lt_of_lt_of_le hsize (le_roundUp (n := SegSize) hround)
  have hrounded : roundedSize SegSize RoundUpSize = roundUp SegSize RoundUpSize :=
    roundedSize_eq hround (by omega)
  unfold AddRoundedGrows AddRoundedMemSeg
  rw [if_neg (by omega)]
  simp only [hrounded, Nat.mod_eq_of_lt hwrap]
  generalize roundUp SegSize RoundUpSize = n at *
  have hlt : BaseAddr < BaseAddr + n := by omega
  constructor
  · rintro ⟨r, m', hm', hgrows⟩ l₁ s l₂ hsplit hfirst hb htop a hlow hhigh
    rw [hsplit, growSegs_moved hfirst hb htop] at hm'
    simp only [Option.some.injEq, Prod.mk.injEq] at hm'
    obtain ⟨-, rfl⟩ := hm'
    have hwf := hsegs s (by simp [hsplit])
    have hbase := base_lt_of_top hlt hb htop
    have htop' := (hwf.contains_iff htop (BaseAddr + n)).mp htop
    have hcovered : m.isValidVirtAddr a = true ∨ (BaseAddr ≤ a ∧ a < BaseAddr + n) := by
      by_cases hin : s.BaseAddr ≤ a
      · exact .inl (MemSys.valid_iff.mpr
          ⟨s, by simp [hsplit], (hwf.contains_iff htop a).mpr ⟨hin, hhigh⟩⟩)
      · exact .inr (by omega)
    obtain ⟨x, hx, hc⟩ := MemSys.valid_iff.mp (hgrows a hcovered)
    simp only [List.mem_append, List.mem_cons] at hx ⊢
    rcases hx with (hx | rfl | hx) | hx
    · exact ⟨x, .inl (.inl hx), hc⟩
    · rw [moved_contains hwf hlt hb htop] at hc
      omega
    · exact ⟨x, .inl (.inr hx), hc⟩
    · exact ⟨x, .inr hx, hc⟩
  · intro hkept
    cases hgrow : growSegs BaseAddr (BaseAddr + n) m.MemSegs with
    | none =>
      refine ⟨_, _, rfl, fun a ha => ?_⟩
      rw [MemSys.valid_iff]
      rcases ha with hold | hin
      · obtain ⟨x, hx, hc⟩ := MemSys.valid_iff.mp hold
        refine ⟨x, ?_, hc⟩
        simp only [List.mem_append] at hx ⊢
        tauto
      · have hnew := (new_sized BaseAddr n false).fits hwrap
        exact ⟨_, by simp, hnew.contains_iff.mpr hin⟩
    | some g =>
      obtain ⟨r, segs⟩ := g
      obtain ⟨l₁, x, l₂, x', hsplit, rfl, hfirst, hcase⟩ := MemSys.growSegs_spec hgrow
      have hwf := hsegs x (by simp [hsplit])
      have hnew : ∀ a, x.contains a = true ∨ (BaseAddr ≤ a ∧ a < BaseAddr + n) →
          ∃ y ∈ l₁ ++ x' :: l₂ ++ m.ThreadMemSegs, y.contains a = true := by
        intro a ha
        have hmem : x' ∈ l₁ ++ x' :: l₂ ++ m.ThreadMemSegs := by simp
        rcases hcase with ⟨hb, htop, rfl⟩ | ⟨hb, htop, rfl⟩ | ⟨hb, htop, rfl⟩
        · have hb' := (hwf.contains_iff hb BaseAddr).mp hb
          have htop' := (hwf.contains_iff hb (BaseAddr + n)).mp htop
          refine ⟨x', hmem, (hwf.contains_iff hb a).mpr ?_⟩
          rw [hwf.contains_iff hb] at ha
          omega
        · refine ⟨_, hmem, (MemSys.grow_contains _ a hwrap).mpr ?_⟩
          have hout : ¬(x.BaseAddr ≤ BaseAddr + n ∧ BaseAddr + n < x.BaseAddr + x.Size) := by
            rw [← hwf.contains_iff hb, htop]
            simp
          have hb' := (hwf.contains_iff hb BaseAddr).mp hb
          rw [hwf.contains_iff hb] at ha
          omega
        · have hbase := base_lt_of_top hlt hb htop
          by_cases hin : a < BaseAddr + x.Size
          · refine ⟨_, hmem, (moved_contains hwf hlt hb htop a).mpr ?_⟩
            rw [hwf.contains_iff htop] at ha
            omega
          · have htop' := (hwf.contains_iff htop (BaseAddr + n)).mp htop
            rw [hwf.contains_iff htop] at ha
            obtain ⟨y, hy, hc⟩ := hkept l₁ x l₂ hsplit hfirst hb htop a (by omega) (by omega)
            simp only [List.mem_append] at hy
            refine ⟨y, ?_, hc⟩
            simp only [List.mem_append, List.mem_cons]
            tauto
      refine ⟨_, _, rfl, fun a ha => MemSys.valid_iff.mpr ?_⟩
      by_cases hx : x.contains a = true ∨ (BaseAddr ≤ a ∧ a < BaseAddr + n)
      · exact hnew a hx
      · obtain ⟨y, hy, hc⟩ := MemSys.valid_iff.mp (ha.resolve_right (not_or.mp hx).2)
        have hne : y ≠ x := by
          rintro rfl
          exact hx (.inl hc)
        refine ⟨y, ?_, hc⟩
        simp only [hsplit, List.mem_append, List.mem_cons] at hy ⊢
        tauto

/-- A memory with the segment [8192, 12288). -/
def oneSegMem : RevMem :=
  { memSize := 2 ^ 20, maxHeapSize := 0, ThreadMemSize := STACK_SIZE, NextThreadMemAddr := 0,
    MemSegs := [MemSegment.new 8192 4096 false] }

theorem oneSegMem_wf : ∀ s ∈ oneSegMem.MemSegs, s.Wf := by
  intro s hs
  rw [List.mem_singleton.mp hs]
  exact ⟨by decide, by decide, rfl⟩

theorem addRounded_above_grows : oneSegMem.AddRoundedGrows 10000 5000 4096 := by
  refine (addRounded_grows_iff oneSegMem_wf (by decide) (by decide) (by decide)).mpr ?_
  intro l₁ s l₂ hsplit _ hb htop
  have hs : s ∈ oneSegMem.MemSegs := by simp [hsplit]
  rw [List.mem_singleton.mp hs] at hb
  exact absurd hb (by decide)

/-- A range of 4096 bytes at 7000 ends in the segment: the segment is moved down
    and its last bytes are no longer valid. -/
theorem addRounded_loses_tail :
    (∀ s ∈ oneSegMem.MemSegs, s.Wf) ∧ ¬oneSegMem.AddRoundedGrows 7000 4096 4096 := by
  refine ⟨oneSegMem_wf, ?_⟩
  rintro ⟨r, m', hm', hgrows⟩
  have hlast := hgrows 12287 (.inl (by decide))
  have hmoved : m'.isValidVirtAddr 12287 = false := by
    obtain ⟨-, rfl⟩ := Prod.mk.inj (Option.some.inj hm')
    rfl
  rw [hmoved] at hlast
  exact absurd hlast (by decide)

end RevMem

end RevCPU
