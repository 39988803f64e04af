import RevCPU.Mem.RoundedSeg

namespace RevCPU

namespace MemSegment

/-- What `AllocMemAt` leaves of a free segment: the part below and the part above
    the range, the part above as it moves it, the part below, or nothing. -/
def pieces (f : MemSegment) (BaseAddr SegSize : ℕ) : List MemSegment :=
  let top := (BaseAddr + SegSize) % W64
  if f.getBaseAddr ≠ BaseAddr ∧ f.getTopAddr ≠ top then
    [f.setSize ((BaseAddr + W64 - f.getBaseAddr) % W64),
      new top ((f.getTopAddr + W64 - top) % W64) false]
  else if f.getBaseAddr = BaseAddr ∧ f.getTopAddr ≠ top then [f.setBaseAddr top]
  else if f.getBaseAddr ≠ BaseAddr ∧ f.getTopAddr = top then
    [f.setSize ((f.getSize + W64 - SegSize) % W64)]
  else []

/-- Both ends of a range are in a segment exactly when all of it is. -/
theorem Wf.containsRange_iff {f : MemSegment} (h : f.Wf) {b n : ℕ} (hn : 1 ≤ n)
    (hwrap : b + n ≤ W64) :
    f.containsRange b n = true ↔ ∀ a, b ≤ a → a < b + n → f.contains a = true := by
  have hlast : (b + n + (W64 - 1)) % W64 = b + n - 1 := by
    unfold W64 at *
    omega
  rw [containsRange, hlast, Bool.and_eq_true]
  constructor
  · rintro ⟨hb, htop⟩ a hlow hhigh
    have hfirst := (h.contains_iff hb b).mp hb
    have hend := (h.contains_iff hb (b + n - 1)).mp htop
    exact (h.contains_iff hb a).mpr (by omega)
  · intro hall
    exact ⟨hall b (by omega) (by omega), hall (b + n - 1) (by omega) (by omega)⟩

section

variable {f : MemSegment} {b n : ℕ}

/-- Where a free segment lies that contains a range. -/
theorem Wf.range_le (h : f.Wf) (hn : 1 ≤ n)
    (hin : ∀ a, b ≤ a → a < b + n → f.contains a = true) :
    f.Fits ∧ f.BaseAddr ≤ b ∧ b + n ≤ f.BaseAddr + f.Size := by
  have hb := hin b (by omega) (by omega)
  have hfirst := (h.contains_iff hb b).mp hb
  have hend := (h.contains_iff hb (b + n - 1)).mp (hin (b + n - 1) (by omega) (by omega))
  exact ⟨h.fits hb, by omega, by omega⟩

/-- The front of a free segment, cut off at an address. -/
theorem Fits.setSize_fits (h : f.Fits) {k : ℕ} (hk : k ≤ f.Size) : (f.setSize k).Fits := by
  refine (setSize_sized f k).fits ?_
  have hlt := h.1
  simp only [setSize]
  omega

theorem pieces_whole (hbase : f.BaseAddr = b) (htop : f.getTopAddr = (b + n) % W64) :
    f.pieces b n = [] := by
  simp [pieces, getBaseAddr, hbase, htop]

theorem pieces_front (hbase : f.BaseAddr = b) (htop : f.getTopAddr ≠ (b + n) % W64) :
    f.pieces b n = [f.setBaseAddr ((b + n) % W64)] := by
  simp [pieces, getBaseAddr, hbase, htop]

theorem pieces_back (hbase : f.BaseAddr ≠ b) (htop : f.getTopAddr = (b + n) % W64) :
    f.pieces b n = [f.setSize ((f.Size + W64 - n) % W64)] := by
  simp [pieces, getBaseAddr, getSize, hbase, htop]

theorem pieces_middle (hbase : f.BaseAddr ≠ b) (htop : f.getTopAddr ≠ (b + n) % W64) :
    f.pieces b n = [f.setSize ((b + W64 - f.BaseAddr) % W64),
      new ((b + n) % W64) ((f.getTopAddr + W64 - (b + n) % W64) % W64) false] := by
  simp [pieces, getBaseAddr, hbase, htop]

/-- The pieces of a segment, unless the range is at its front and does not fill
    it. -/
theorem Fits.pieces_contains (h : f.Fits) (hn : 1 ≤ n) (hlow : f.BaseAddr ≤ b)
    (hhigh : b + n ≤ f.BaseAddr + f.Size) (hfront : f.BaseAddr = b → f.Size = n) :
    (f.pieces b n).Pairwise Disj ∧ ∀ a, (∃ p ∈ f.pieces b n, p.contains a = true) ↔
      f.contains a = true ∧ ¬(b ≤ a ∧ a < b + n) := by
  have hlt := h.1
  have htop : (b + n) % W64 = b + n := Nat.mod_eq_of_lt (by omega)
  have hend : f.getTopAddr = f.BaseAddr + f.Size := Nat.mod_eq_of_lt hlt
  by_cases hbase : f.BaseAddr = b
  · have hsize := hfront hbase
    rw [pieces_whole hbase (by omega)]
    refine ⟨.nil, fun a => ?_⟩
    rw [h.contains_iff]
    simp only [List.not_mem_nil, false_and, exists_false, false_iff]
    omega
  · by_cases hfill : f.BaseAddr + f.Size = b + n
    · have hsize : (f.Size + W64 - n) % W64 = f.Size - n := by
        unfold W64 at *
        omega
      rw [pieces_back hbase (by omega), hsize]
      refine ⟨List.pairwise_singleton _ _, fun a => ?_⟩
      have hcut := (h.setSize_fits (k := f.Size - n) (by omega)).contains_iff (a := a)
      simp only [List.mem_singleton, exists_eq_left, hcut, h.contains_iff]
      simp only [setSize]
      omega
    · have hsize : (b + W64 - f.BaseAddr) % W64 = b - f.BaseAddr := by
        unfold W64 at *
        omega
      have hrest : (f.BaseAddr + f.Size + W64 - (b + n)) % W64 = f.BaseAddr + f.Size - (b + n) := by
        unfold W64 at *
        omega
      rw [pieces_middle hbase (by omega), hsize, htop, hend, hrest]
      have hfirst : ∀ a, (f.setSize (b - f.BaseAddr)).contains a = true ↔
          f.BaseAddr ≤ a ∧ a < b := by
        intro a
        rw [(h.setSize_fits (by omega)).contains_iff]
        simp only [setSize]
        omega
      have hsecond : ∀ a, (new (b + n) (f.BaseAddr + f.Size - (b + n)) false).contains a = true ↔
          b + n ≤ a ∧ a < f.BaseAddr + f.Size := by
        intro a
        have hfits := (new_sized (b + n) (f.BaseAddr + f.Size - (b + n)) false).fits
          (by simp only [new]; omega)
        rw [hfits.contains_iff]
        simp only [new]
        omega
      refine ⟨List.pairwise_pair.mpr ?_, fun a => ?_⟩
      · intro a ha
        rw [hfirst, hsecond] at ha
        omega
      · simp only [List.mem_cons, List.not_mem_nil, or_false, exists_eq_or_imp, exists_eq_left,
          hfirst, hsecond, h.contains_iff]
        omega

end

end MemSegment

namespace RevMem

open MemSegment

theorem carveFree_none {b n : ℕ} {l : List MemSegment} (h : carveFree b n l = none) :
    ∀ f ∈ l, f.containsRange b n = false := by
  induction l with
  | nil => simp
  | cons f rest ih =>
    simp only [carveFree] at h
    split at h
    · split at h
      · simp at h
      · split at h
        · simp at h
        · split at h <;> simp at h
    · rename_i hf
      intro g hg
      rcases List.mem_cons.mp hg with rfl | hg
      · simpa using hf
      · exact ih (by simpa using h) g hg

/-- `AllocMemAt` carves the range out of the first free segment that contains
    it. -/
theorem carveFree_spec {b n : ℕ} {l l' added : List MemSegment}
    (h : carveFree b n l = some (l', added)) :
    ∃ l₁ f l₂, l = l₁ ++ f :: l₂ ∧ f.containsRange b n = true ∧
      (l' ++ added).Perm (f.pieces b n ++ (l₁ ++ l₂)) := by
  induction l generalizing l' with
  | nil => simp [carveFree] at h
  | cons f rest ih =>
    simp only [carveFree] at h
    split at h
    · rename_i hf
      refine ⟨[], f, rest, rfl, hf, ?_⟩
      simp only [pieces, List.nil_append]
      split at h
      · rename_i hmiddle
        simp only [Option.some.injEq, Prod.mk.injEq] at h
        obtain ⟨rfl, rfl⟩ := h
        rw [if_pos hmiddle]
        exact List.perm_append_comm.cons _ |>.trans (List.Perm.refl _)
      · rename_i hmiddle
        rw [if_neg hmiddle]
        split at h
        · rename_i hfront
          simp only [Option.some.injEq, Prod.mk.injEq] at h
          obtain ⟨rfl, rfl⟩ := h
          rw [if_pos hfront]
          simp
        · rename_i hfront
          rw [if_neg hfront]
          split at h
          · rename_i hback
            simp only [Option.some.injEq, Prod.mk.injEq] at h
            obtain ⟨rfl, rfl⟩ := h
            rw [if_pos hback]
            simp
          · rename_i hback
            simp only [Option.some.injEq, Prod.mk.injEq] at h
            obtain ⟨rfl, rfl⟩ := h
            rw [if_neg hback]
            simp
    · simp only [Option.map_eq_some_iff, Prod.exists, Prod.mk.injEq] at h
      obtain ⟨l'', added', hrec, rfl, rfl⟩ := h
      obtain ⟨l₁, g, l₂, rfl, hg, hperm⟩ := ih hrec
      refine ⟨f :: l₁, g, l₂, rfl, hg, ?_⟩
      exact (hperm.cons f).trans List.perm_middle.symm

/-- The `int` of `AllocMemAt` keeps an address exactly when it is the extension
    of 32 bits by their sign. -/
theorem intRet_eq_iff {b : ℕ} (hlt : b < W64) :
    intRet b = b ↔ b < 2 ^ 31 ∨ W64 - 2 ^ 31 ≤ b := by
  unfold intRet W64 at *
  simp only
  split <;> omega

/-- The range lies in one free segment. -/
def InOneFree (m : RevMem) (BaseAddr SegSize : ℕ) : Prop :=
  ∃ f ∈ m.FreeMemSegs, ∀ a, BaseAddr ≤ a → a < BaseAddr + SegSize → f.contains a = true

/-- `AllocMemAt` takes exactly its range out of the free segments and adds
    exactly that segment, or changes nothing and returns 0. -/
def AllocAtExact (m : RevMem) (BaseAddr SegSize : ℕ) : Prop :=
  (m.InOneFree BaseAddr SegSize →
    ∃ m', m.AllocMemAt BaseAddr SegSize = some (BaseAddr, m') ∧
      (∀ a, (∃ f ∈ m'.FreeMemSegs, f.contains a = true) ↔
        (∃ f ∈ m.FreeMemSegs, f.contains a = true) ∧
          ¬(BaseAddr ≤ a ∧ a < BaseAddr + SegSize)) ∧
      m'.MemSegs = m.MemSegs ++ [MemSegment.new BaseAddr SegSize false] ∧
      (m'.FreeMemSegs ++ m'.MemSegs).Pairwise Disj) ∧
  (¬m.InOneFree BaseAddr SegSize → m.AllocMemAt BaseAddr SegSize = some (0, m))

/-- The address is the sign extension of its low 32 bits, the range is not a
    proper front of its free segment, and the address after the range is not
    allocated. -/
def Placeable (m : RevMem) (BaseAddr SegSize : ℕ) : Prop :=
  ∀ f ∈ m.FreeMemSegs, (∀ a, BaseAddr ≤ a → a < BaseAddr + SegSize → f.contains a = true) →
    (BaseAddr < 2 ^ 31 ∨ W64 - 2 ^ 31 ≤ BaseAddr) ∧ (f.BaseAddr = BaseAddr → f.Size = SegSize) ∧
      ∀ s ∈ m.MemSegs, s.contains (BaseAddr + SegSize) = false

/-- Disjoint parts of a segment in its place. -/
theorem pairwise_parts {f : MemSegment} {l ps : List MemSegment} (h : (f :: l).Pairwise Disj)
    (hps : ps.Pairwise Disj) (hsub : ∀ p ∈ ps, ∀ a, p.contains a = true → f.contains a = true) :
    (ps ++ l).Pairwise Disj := by
  obtain ⟨hf, hl⟩ := List.pairwise_cons.mp h
  exact List.pairwise_append.mpr ⟨hps, hl, fun p hp x hx => (hf x hx).mono (hsub p hp)⟩

/-- The free segments of a state with a segment in front. -/
theorem pairwise_front {l₁ l₂ ms : List MemSegment} {f : MemSegment}
    (h : (l₁ ++ f :: l₂ ++ ms).Pairwise Disj) : (f :: (l₁ ++ l₂ ++ ms)).Pairwise Disj := by
  refine (List.Perm.pairwise_iff (fun h => h.symm) ?_).mp h
  exact List.perm_middle.append_right ms

section

variable {m : RevMem} {b n : ℕ}

/-- The result of `AllocMemAt` where the range is carved out of a segment. -/
theorem AllocMemAt_eq {free added : List MemSegment} (hlt : b + n < W64)
    (hcarve : carveFree b n m.FreeMemSegs = some (free, added)) :
    m.AllocMemAt b n =
      if intRet b = 0 then some (0, { m with FreeMemSegs := free ++ added })
      else if m.MemSegs.any fun s => s.contains b || s.contains (b + n) then none
      else some (intRet b, { m with
        FreeMemSegs := free ++ added
        MemSegs := m.MemSegs ++ [MemSegment.new b n false] }) := by
  simp only [AllocMemAt, hcarve, Nat.mod_eq_of_lt hlt]

/-- An allocation at the front of a larger free segment moves that segment up
    with its size unchanged. Its old top is free afterwards and lies in another
    free segment, or it runs over the end of the address space and is empty. -/
theorem front_not_exact {l₁ l₂ ms free : List MemSegment} {f : MemSegment} (hf : f.Wf)
    (hdisj : (f :: (l₁ ++ l₂ ++ ms)).Pairwise Disj) (hn : 1 ≤ n)
    (hin : ∀ a, b ≤ a → a < b + n → f.contains a = true) (hbase : f.BaseAddr = b)
    (hsize : f.Size ≠ n) (hperm : free.Perm (f.pieces b n ++ (l₁ ++ l₂)))
    (hexact : ∀ a, (∃ g ∈ free, g.contains a = true) ↔
      (∃ g ∈ l₁ ++ f :: l₂, g.contains a = true) ∧ ¬(b ≤ a ∧ a < b + n)) :
    ¬free.Pairwise Disj := by
  intro hafter
  obtain ⟨hfits, -, hhigh⟩ := hf.range_le hn hin
  have hlt := hfits.1
  have hbound := hf.size
  have htop : (b + n) % W64 = b + n := Nat.mod_eq_of_lt (by omega)
  have hend : f.getTopAddr = f.BaseAddr + f.Size := Nat.mod_eq_of_lt hlt
  rw [pieces_front hbase (by omega), htop, List.singleton_append] at hperm
  rw [hperm.pairwise_iff fun h => h.symm] at hafter
  obtain ⟨hmoved, -⟩ := List.pairwise_cons.mp hafter
  obtain ⟨hothers, -⟩ := List.pairwise_cons.mp hdisj
  have hcontains : ∀ a, (f.setBaseAddr (b + n)).contains a = true ↔
      b + n ≤ a ∧ a < (f.Size + (b + n)) % W64 := by
    intro a
    simp only [setBaseAddr, contains, if_pos (show f.Size ≠ 0 by omega), Bool.and_eq_true,
      decide_eq_true_eq]
  by_cases hwrap : f.Size + (b + n) < W64
  · have hfree : ∃ g ∈ free, g.contains (f.BaseAddr + f.Size) = true := by
      refine ⟨_, hperm.mem_iff.mpr (List.mem_cons_self ..), (hcontains _).mpr ?_⟩
      rw [Nat.mod_eq_of_lt hwrap]
      omega
    obtain ⟨⟨g, hg, hc⟩, -⟩ := (hexact _).mp hfree
    have hne : ¬f.contains (f.BaseAddr + f.Size) = true := by
      rw [hfits.contains_iff]
      omega
    have hrest : g ∈ l₁ ++ l₂ := by
      simp only [List.mem_append, List.mem_cons] at hg ⊢
      rcases hg with hg | rfl | hg
      · exact .inl hg
      · exact absurd hc hne
      · exact .inr hg
    refine hmoved g hrest (f.BaseAddr + f.Size) ⟨(hcontains _).mpr ?_, hc⟩
    rw [Nat.mod_eq_of_lt hwrap]
    omega
  · have hold : f.contains (b + n) = true := hfits.contains_iff.mpr (by omega)
    have hfree := (hexact (b + n)).mpr ⟨⟨f, by simp, hold⟩, by omega⟩
    obtain ⟨g, hg, hc⟩ := hfree
    rcases List.mem_cons.mp (hperm.mem_iff.mp hg) with rfl | hg
    · rw [hcontains] at hc
      unfold W64 at *
      omega
    · exact hothers g (List.mem_append_left _ hg) (b + n) ⟨hold, hc⟩

theorem placeable_of_exact {free added l₁ l₂ : List MemSegment} {f : MemSegment}
    (hwf : f.Wf) (hdisj : (f :: (l₁ ++ l₂ ++ m.MemSegs)).Pairwise Disj) (hn : 1 ≤ n)
    (hin : ∀ a, b ≤ a → a < b + n → f.contains a = true) (hzero : b ≠ 0)
    (hcarve : carveFree b n m.FreeMemSegs = some (free, added))
    (hsplit : m.FreeMemSegs = l₁ ++ f :: l₂)
    (hperm : (free ++ added).Perm (f.pieces b n ++ (l₁ ++ l₂))) (hexact : m.AllocAtExact b n) :
    (b < 2 ^ 31 ∨ W64 - 2 ^ 31 ≤ b) ∧ (f.BaseAddr = b → f.Size = n) ∧
      ∀ s ∈ m.MemSegs, s.contains (b + n) = false := by
  obtain ⟨hfits, hlow, hhigh⟩ := hwf.range_le hn hin
  have hlt : b + n < W64 := by
    have := hfits.1
    omega
  obtain ⟨m', hm', hfree, -, hafter⟩ := hexact.1 ⟨f, by simp [hsplit], hin⟩
  rw [AllocMemAt_eq hlt hcarve] at hm'
  split at hm'
  · simp only [Option.some.injEq, Prod.mk.injEq] at hm'
    exact absurd hm'.1.symm hzero
  · split at hm'
    · simp at hm'
    · rename_i hany
      simp only [Option.some.injEq, Prod.mk.injEq] at hm'
      obtain ⟨hret, rfl⟩ := hm'
      refine ⟨(intRet_eq_iff (by omega)).mp hret, ?_, ?_⟩
      · intro hbase
        by_contra hsize
        refine front_not_exact hwf hdisj hn hin hbase hsize hperm ?_ (List.pairwise_append.mp hafter).1
        rw [← hsplit]
        exact hfree
      · intro s hs
        simp only [List.any_eq_true, Bool.or_eq_true, not_exists, not_and, not_or] at hany
        simpa using (hany s hs).2

theorem exact_of_placeable {free added l₁ l₂ : List MemSegment} {f : MemSegment}
    (hwf : f.Wf) (hdisj : (f :: (l₁ ++ l₂ ++ m.MemSegs)).Pairwise Disj) (hn : 1 ≤ n)
    (hin : ∀ a, b ≤ a → a < b + n → f.contains a = true) (hzero : b ≠ 0)
    (hcarve : carveFree b n m.FreeMemSegs = some (free, added))
    (hsplit : m.FreeMemSegs = l₁ ++ f :: l₂)
    (hperm : (free ++ added).Perm (f.pieces b n ++ (l₁ ++ l₂)))
    (hret : b < 2 ^ 31 ∨ W64 - 2 ^ 31 ≤ b) (hfront : f.BaseAddr = b → f.Size = n)
    (habove : ∀ s ∈ m.MemSegs, s.contains (b + n) = false) : m.AllocAtExact b n := by
  obtain ⟨hfits, hlow, hhigh⟩ := hwf.range_le hn hin
  have hlt : b + n < W64 := by
    have := hfits.1
    omega
  have hint : intRet b = b := (intRet_eq_iff (by omega)).mpr hret
  obtain ⟨hothers, -⟩ := List.pairwise_cons.mp hdisj
  have hfirst : f.contains b = true := hin b (by omega) (by omega)
  have hany : (m.MemSegs.any fun s => s.contains b || s.contains (b + n)) = false := by
    rw [List.any_eq_false]
    intro s hs hor
    rw [habove s hs, Bool.or_false] at hor
    exact hothers s (List.mem_append_right _ hs) b ⟨hfirst, hor⟩
  have hres := AllocMemAt_eq hlt hcarve
  rw [hint, if_neg hzero, hany, if_neg (by simp)] at hres
  obtain ⟨hpieces, hcontains⟩ := hfits.pieces_contains hn hlow hhigh hfront
  have hnew : ∀ a, (MemSegment.new b n false).contains a = true ↔ b ≤ a ∧ a < b + n := fun a =>
    ((new_sized b n false).fits hlt).contains_iff
  refine ⟨fun _ => ⟨_, hres, fun a => ?_, rfl, ?_⟩, fun hnot => ?_⟩
  · rw [hsplit]
    simp only [hperm.mem_iff]
    have hrange : ∀ g ∈ l₁ ++ l₂, g.contains a = true → ¬(b ≤ a ∧ a < b + n) := by
      rintro g hg hc ⟨hbelow, hless⟩
      exact hothers g (List.mem_append_left _ hg) a ⟨hin a hbelow hless, hc⟩
    constructor
    · rintro ⟨g, hg, hc⟩
      rcases List.mem_append.mp hg with hp | hg
      · obtain ⟨hf, hout⟩ := (hcontains a).mp ⟨g, hp, hc⟩
        exact ⟨⟨f, by simp, hf⟩, hout⟩
      · refine ⟨⟨g, ?_, hc⟩, hrange g hg hc⟩
        simp only [List.mem_append, List.mem_cons] at hg ⊢
        tauto
    · rintro ⟨⟨g, hg, hc⟩, hout⟩
      simp only [List.mem_append, List.mem_cons] at hg
      by_cases hgf : g = f
      · rw [hgf] at hc
        obtain ⟨p, hp, hcp⟩ := (hcontains a).mpr ⟨hc, hout⟩
        exact ⟨p, List.mem_append_left _ hp, hcp⟩
      · refine ⟨g, ?_, hc⟩
        simp only [List.mem_append]
        tauto
  · have hparts : (MemSegment.new b n false :: f.pieces b n).Pairwise Disj := by
      refine List.pairwise_cons.mpr ⟨?_, hpieces⟩
      intro p hp a ha
      exact ((hcontains a).mp ⟨p, hp, ha.2⟩).2 ((hnew a).mp ha.1)
    have hsub : ∀ p ∈ MemSegment.new b n false :: f.pieces b n, ∀ a, p.contains a = true →
        f.contains a = true := by
      intro p hp a ha
      rcases List.mem_cons.mp hp with rfl | hp
      · have hrange := (hnew a).mp ha
        exact hin a hrange.1 hrange.2
      · exact ((hcontains a).mp ⟨p, hp, ha⟩).1
    refine (List.Perm.pairwise_iff (fun h => h.symm) ?_).mp (pairwise_parts hdisj hparts hsub)
    have hfree : (f.pieces b n ++ (l₁ ++ l₂) ++ m.MemSegs).Perm (free ++ added ++ m.MemSegs) :=
      (hperm.append_right m.MemSegs).symm
    rw [List.append_assoc] at hfree
    refine (hfree.cons _).trans ?_
    rw [← List.append_assoc]
    exact (List.perm_append_singleton _ _).symm
  · exact absurd ⟨f, by simp [hsplit], hin⟩ hnot

end

/-- `AllocMemAt` is exact and atomic exactly when the address survives the `int`
    it passes through, the range is not a proper front of its free segment and
    the address after the range is not allocated. -/
theorem allocAt_exact_iff {m : RevMem} {BaseAddr SegSize : ℕ}
    (hwf : ∀ s ∈ m.FreeMemSegs ++ m.MemSegs, s.Wf)
    (hdisj : (m.FreeMemSegs ++ m.MemSegs).Pairwise Disj) (hzero : BaseAddr ≠ 0)
    (hsize : 1 ≤ SegSize) (hwrap : BaseAddr + SegSize ≤ W64) :
    m.AllocAtExact BaseAddr SegSize ↔ m.Placeable BaseAddr SegSize := by
  cases hcarve : carveFree BaseAddr SegSize m.FreeMemSegs with
  | none =>
    have hnone : ∀ f ∈ m.FreeMemSegs,
        ¬∀ a, BaseAddr ≤ a → a < BaseAddr + SegSize → f.contains a = true := by
      intro f hf hin
      have hrange := ((hwf f (List.mem_append_left _ hf)).containsRange_iff hsize hwrap).mpr hin
      rw [carveFree_none hcarve f hf] at hrange
      exact absurd hrange (by simp)
    have hres : m.AllocMemAt BaseAddr SegSize = some (0, m) := by
      simp only [AllocMemAt, hcarve]
    refine iff_of_true ⟨?_, fun _ => hres⟩ fun f hf hin => absurd hin (hnone f hf)
    rintro ⟨f, hf, hin⟩
    exact absurd hin (hnone f hf)
  | some r =>
    obtain ⟨free, added⟩ := r
    obtain ⟨l₁, f, l₂, hsplit, hrange, hperm⟩ := carveFree_spec hcarve
    have hf : f ∈ m.FreeMemSegs := by simp [hsplit]
    have hfwf := hwf f (List.mem_append_left _ hf)
    have hin := (hfwf.containsRange_iff hsize hwrap).mp hrange
    have hfdisj := hdisj
    rw [hsplit] at hfdisj
    have hfdisj := pairwise_front hfdisj
    constructor
    · intro hexact g hg hgin
      have hgf : g = f := by
        by_contra hne
        have hother : g ∈ l₁ ++ l₂ ++ m.MemSegs := by
          simp only [hsplit, List.mem_append, List.mem_cons] at hg ⊢
          tauto
        exact (List.pairwise_cons.mp hfdisj).1 g hother BaseAddr
          ⟨hin _ le_rfl (by omega), hgin _ le_rfl (by omega)⟩
      rw [hgf]
      exact placeable_of_exact hfwf hfdisj hsize hin hzero hcarve hsplit hperm hexact
    · intro hplace
      obtain ⟨hret, hfront, habove⟩ := hplace f hf hin
      exact exact_of_placeable hfwf hfdisj hsize hin hzero hcarve hsplit hperm hret hfront habove

/-- A memory with the free segment [4096, 12288) and an allocated segment at its
    top. -/
def freeBelowMem : RevMem :=
  { memSize := 2 ^ 20, maxHeapSize := 0, ThreadMemSize := STACK_SIZE, NextThreadMemAddr := 0,
    FreeMemSegs := [MemSegment.new 4096 8192 false], MemSegs := [MemSegment.new 12288 4096 false] }

theorem freeBelowMem_wf : ∀ s ∈ freeBelowMem.FreeMemSegs ++ freeBelowMem.MemSegs, s.Wf := by
  intro s hs
  simp only [freeBelowMem, List.singleton_append, List.mem_cons, List.not_mem_nil, or_false] at hs
  rcases hs with rfl | rfl
  · exact ⟨by decide, by decide, rfl⟩
  · exact ⟨by decide, by decide, rfl⟩

theorem freeBelowMem_disj : (freeBelowMem.FreeMemSegs ++ freeBelowMem.MemSegs).Pairwise Disj := by
  refine List.pairwise_pair.mpr fun a ha => ?_
  have hfree := ((new_sized 4096 8192 false).fits (by decide)).contains_iff.mp ha.1
  have halloc := ((new_sized 12288 4096 false).fits (by decide)).contains_iff.mp ha.2
  simp only [MemSegment.new] at hfree halloc
  omega

theorem allocAt_middle_exact : freeBelowMem.AllocAtExact 8000 1000 := by
  refine (allocAt_exact_iff freeBelowMem_wf freeBelowMem_disj (by decide) (by decide)
    (by decide)).mpr ?_
  intro f hf _
  rw [List.mem_singleton.mp hf]
  refine ⟨.inl (by decide), fun h => absurd h (by decide), fun s hs => ?_⟩
  rw [List.mem_singleton.mp hs]
  decide

/-- An allocation that fills the free segment up to the allocated one ends in the
    fatal error. -/
theorem allocAt_back_aborts :
    (∀ s ∈ freeBelowMem.FreeMemSegs ++ freeBelowMem.MemSegs, s.Wf) ∧
      (freeBelowMem.FreeMemSegs ++ freeBelowMem.MemSegs).Pairwise Disj ∧
      ¬freeBelowMem.AllocAtExact 8192 4096 := by
  refine ⟨freeBelowMem_wf, freeBelowMem_disj, ?_⟩
  rintro ⟨hin, -⟩
  have hfree : freeBelowMem.InOneFree 8192 4096 := by
    refine ⟨MemSegment.new 4096 8192 false, List.mem_singleton_self _, fun a hlow hhigh => ?_⟩
    refine ((new_sized 4096 8192 false).fits (by decide)).contains_iff.mpr ?_
    simp only [MemSegment.new]
    omega
  obtain ⟨m', hm', -⟩ := hin hfree
  have hnone : (freeBelowMem.AllocMemAt 8192 4096).isSome = false := rfl
  rw [hm'] at hnone
  exact absurd hnone (by simp)

end RevMem

end RevCPU
