import RevCPU.Mem.Heap

namespace RevCPU

namespace MemSegment

/-- `TopAddr = BaseAddr + Size`, in the arithmetic of the source. -/
def Sized (s : MemSegment) : Prop := s.TopAddr = (s.BaseAddr + s.Size) % W64

/-- The segment does not reach past the end of the address space. -/
def Fits (s : MemSegment) : Prop := s.BaseAddr + s.Size < W64 ∧ s.TopAddr = s.BaseAddr + s.Size

/-- No address is in both segments. -/
def Disj (s t : MemSegment) : Prop := ∀ a, ¬(s.contains a = true ∧ t.contains a = true)

theorem Disj.symm {s t : MemSegment} (h : s.Disj t) : t.Disj s := fun a ha => h a ⟨ha.2, ha.1⟩

/-- A segment inside one of two disjoint segments. -/
theorem Disj.mono {s s' t : MemSegment} (h : s.Disj t)
    (hsub : ∀ a, s'.contains a = true → s.contains a = true) : s'.Disj t :=
  fun a ha => h a ⟨hsub a ha.1, ha.2⟩

theorem Fits.contains_iff {s : MemSegment} (h : s.Fits) {a : ℕ} :
    s.contains a = true ↔ s.BaseAddr ≤ a ∧ a < s.BaseAddr + s.Size := by
  simp [contains, h.2]

theorem Fits.sized {s : MemSegment} (h : s.Fits) : s.Sized := by
  rw [Sized, h.2, Nat.mod_eq_of_lt h.1]

theorem Sized.fits {s : MemSegment} (h : s.Sized) (hlt : s.BaseAddr + s.Size < W64) : s.Fits :=
  ⟨hlt, by rw [h, Nat.mod_eq_of_lt hlt]⟩

theorem new_sized (b n : ℕ) (f : Bool) : (new b n f).Sized := rfl

theorem setSize_sized (s : MemSegment) (n : ℕ) : (s.setSize n).Sized := rfl

/-- What is left of a segment when its first `n` bytes are taken. -/
def drop (s : MemSegment) (n : ℕ) : MemSegment :=
  (s.setBaseAddr ((s.BaseAddr + n) % W64)).setSize (s.Size - n)

@[simp] theorem drop_alloced (s : MemSegment) (n : ℕ) : (s.drop n).alloced = s.alloced := rfl

theorem drop_sized (s : MemSegment) (n : ℕ) : (s.drop n).Sized := rfl

theorem Fits.drop {s : MemSegment} (h : s.Fits) {n : ℕ} (hn : n ≤ s.Size) : (s.drop n).Fits := by
  obtain ⟨hlt, -⟩ := h
  have hbase : (s.BaseAddr + n) % W64 = s.BaseAddr + n := Nat.mod_eq_of_lt (by omega)
  refine (drop_sized s n).fits ?_
  simp only [MemSegment.drop, setSize, setBaseAddr, hbase]
  omega

theorem Fits.drop_contains {s : MemSegment} (h : s.Fits) {n : ℕ} (hn : n ≤ s.Size) {a : ℕ} :
    (s.drop n).contains a = true ↔ s.BaseAddr + n ≤ a ∧ a < s.BaseAddr + s.Size := by
  have hbase : (s.BaseAddr + n) % W64 = s.BaseAddr + n := Nat.mod_eq_of_lt (by have := h.1; omega)
  rw [(h.drop hn).contains_iff]
  simp only [MemSegment.drop, setSize, setBaseAddr, hbase]
  omega

/-- The first `n` bytes of a segment, as a segment of their own. -/
theorem Fits.front {s : MemSegment} (h : s.Fits) {n : ℕ} (hn : n ≤ s.Size) (f : Bool) :
    (new s.BaseAddr n f).Fits := by
  refine (new_sized _ _ _).fits ?_
  have hlt := h.1
  simp only [new]
  omega

end MemSegment

namespace RevMem

open MemSegment

/-- `takeFree` gives the front of one free segment away. -/
theorem takeFree_spec {n b : ℕ} {l l' : List MemSegment} (h : takeFree n l = some (b, l')) :
    ∃ l₁ f l₂, l = l₁ ++ f :: l₂ ∧ b = f.BaseAddr ∧
      (n < f.Size ∧ l' = l₁ ++ f.drop n :: l₂ ∨ n = f.Size ∧ l' = l₁ ++ l₂) := by
  induction l generalizing b l' with
  | nil => simp [takeFree] at h
  | cons f rest ih =>
    simp only [takeFree] at h
    split at h
    · rename_i hlt
      simp only [Option.some.injEq, Prod.mk.injEq] at h
      exact ⟨[], f, rest, rfl, h.1.symm, .inl ⟨hlt, h.2.symm⟩⟩
    · split at h
      · rename_i heq
        simp only [Option.some.injEq, Prod.mk.injEq] at h
        exact ⟨[], f, rest, rfl, h.1.symm, .inr ⟨heq.symm, h.2.symm⟩⟩
      · simp only [Option.map_eq_some_iff, Prod.exists, Prod.mk.injEq] at h
        obtain ⟨b', l'', hrec, rfl, rfl⟩ := h
        obtain ⟨l₁, g, l₂, rfl, hb, hcase⟩ := ih hrec
        refine ⟨f :: l₁, g, l₂, rfl, hb, ?_⟩
        rcases hcase with ⟨hlt, rfl⟩ | ⟨heq, rfl⟩
        · exact .inl ⟨hlt, rfl⟩
        · exact .inr ⟨heq, rfl⟩

theorem takeFree_of_fit {n : ℕ} {l : List MemSegment} (h : ∃ f ∈ l, n ≤ f.Size) :
    takeFree n l ≠ none := by
  induction l with
  | nil => simp at h
  | cons f rest ih =>
    simp only [takeFree]
    split
    · simp
    · split
      · simp
      · rename_i hgt hne
        simp only [getSize] at hgt hne
        obtain ⟨g, hg, hle⟩ := h
        rcases List.mem_cons.mp hg with rfl | hg
        · omega
        · simpa using ih ⟨g, hg, hle⟩

/-- `releaseSeg` takes the front of the first segment at the address. -/
theorem releaseSeg_spec {B n : ℕ} {l l' : List MemSegment}
    (h : releaseSeg B n l = some (some l')) :
    ∃ l₁ e l₂, l = l₁ ++ e :: l₂ ∧ (∀ x ∈ l₁, x.BaseAddr ≠ B) ∧ e.BaseAddr = B ∧
      (n < e.Size ∧ l' = l₁ ++ e.drop n :: l₂ ∨ n = e.Size ∧ l' = l₁ ++ l₂) := by
  induction l generalizing l' with
  | nil => simp [releaseSeg] at h
  | cons e rest ih =>
    simp only [releaseSeg] at h
    split at h
    · rename_i hne
      simp only [Option.map_eq_some_iff] at h
      obtain ⟨r, hrec, l'', rfl, rfl⟩ := h
      obtain ⟨l₁, g, l₂, rfl, hfirst, hb, hcase⟩ := ih hrec
      refine ⟨e :: l₁, g, l₂, rfl, ?_, hb, ?_⟩
      · intro x hx
        rcases List.mem_cons.mp hx with rfl | hx
        · exact hne
        · exact hfirst x hx
      · rcases hcase with ⟨hlt, rfl⟩ | ⟨heq, rfl⟩
        · exact .inl ⟨hlt, rfl⟩
        · exact .inr ⟨heq, rfl⟩
    · rename_i heq
      have hbase : e.BaseAddr = B := by simpa [getBaseAddr] using heq
      split at h
      · simp at h
      · split at h
        · rename_i hlt
          simp only [Option.some.injEq] at h
          refine ⟨[], e, rest, rfl, by simp, hbase, .inl ⟨hlt, ?_⟩⟩
          rw [← h, ← hbase]
          rfl
        · rename_i hle hge
          simp only [getSize] at hle hge
          simp only [Option.some.injEq] at h
          exact ⟨[], e, rest, rfl, by simp, hbase, .inr ⟨by omega, h.symm⟩⟩

theorem mergeFree_spec {B n : ℕ} {l l' : List MemSegment} (h : mergeFree B n l = some l') :
    ∃ l₁ f l₂, l = l₁ ++ f :: l₂ ∧ f.contains ((B + W64 - 1) % W64) = true ∧
      l' = l₁ ++ f.setSize ((f.Size + n) % W64) :: l₂ := by
  induction l generalizing l' with
  | nil => simp [mergeFree] at h
  | cons f rest ih =>
    simp only [mergeFree] at h
    split at h
    · rename_i hcontains
      simp only [Option.some.injEq] at h
      exact ⟨[], f, rest, rfl, hcontains, h.symm⟩
    · simp only [Option.map_eq_some_iff] at h
      obtain ⟨l'', hrec, rfl⟩ := h
      obtain ⟨l₁, g, l₂, rfl, hcontains, rfl⟩ := ih hrec
      exact ⟨f :: l₁, g, l₂, rfl, hcontains, rfl⟩

end RevMem

end RevCPU
