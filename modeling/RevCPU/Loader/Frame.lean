import RevCPU.Loader.Args
import RevCPU.Mem.PageTable

namespace RevCPU

open Lib

namespace RevMem

/-- What the layout of the memory consists of: everything but the stored bytes,
    the translations, the reservations and the state of the controller. -/
def layout (m : RevMem) : RevMem :=
  { m with
    physMem := fun _ => 0
    ctrl := none
    TLB := []
    LRUQueue := []
    pageMap := []
    nextPage := 0
    FutureRes := []
    LRSC := [] }

theorem AddToTLB_layout (m : RevMem) (v p : ℕ) : (m.AddToTLB v p).layout = m.layout := by
  obtain ⟨T, Q, heq, -⟩ := AddToTLB_spec m v p
  rw [heq]
  rfl

theorem SearchTLB_layout (m : RevMem) (v : ℕ) : (m.SearchTLB v).2.layout = m.layout := by
  unfold SearchTLB
  split <;> rfl

theorem CalcPhysAddr_layout {m m' : RevMem} {page v r : ℕ}
    (h : m.CalcPhysAddr page v = some (r, m')) : m'.layout = m.layout := by
  have hsearch := SearchTLB_layout m v
  unfold CalcPhysAddr at h
  simp only at h
  split at h
  · split at h
    · split at h
      · simp only [Option.some.injEq, Prod.mk.injEq] at h
        rw [← h.2, AddToTLB_layout, ← hsearch]
        rfl
      · simp only [Option.some.injEq, Prod.mk.injEq] at h
        rw [← h.2, AddToTLB_layout, hsearch]
    · simp at h
  · simp only [Option.some.injEq, Prod.mk.injEq] at h
    rw [← h.2, hsearch]

theorem pageAt_layout (m : RevMem) (p : ℕ) : (m.pageAt p).2.layout = m.layout := by
  unfold pageAt
  split <;> rfl

theorem translate_layout {m m' : RevMem} {A L r : ℕ} {adj : Option (ℕ × ℕ)}
    (h : m.translate A L = some (r, adj, m')) : m'.layout = m.layout := by
  unfold translate at h
  simp only at h
  split at h
  · simp at h
  · rename_i phys m₁ hcalc
    have hfirst := CalcPhysAddr_layout hcalc
    have hpage := pageAt_layout m₁ (A / pageSize)
    split at h
    · split at h
      · simp at h
      · rename_i phys₂ m₂ hadj
        simp only [Option.some.injEq, Prod.mk.injEq] at h
        rw [← h.2.2, CalcPhysAddr_layout hadj, hpage, hfirst]
    · simp only [Option.some.injEq, Prod.mk.injEq] at h
      rw [← h.2.2, hpage, hfirst]

theorem physWrite_layout {m m' : RevMem} {p : ℕ} {bytes : List UInt8}
    (h : m.physWrite p bytes = some m') : m'.layout = m.layout := by
  unfold physWrite at h
  split at h
  · simp only [Option.some.injEq] at h
    rw [← h]
    rfl
  · simp at h

/-- `WriteMem` keeps the layout. -/
theorem WriteMem_layout {m m' : RevMem} {Hart A L : ℕ} {Data : List UInt8}
    (h : m.WriteMem Hart A L Data = some m') : m'.layout = m.layout := by
  unfold WriteMem WriteMemFlags at h
  have hrevoke : (m.RevokeFuture A).layout = m.layout := rfl
  split at h
  · simp at h
  · rename_i r span adj m₁ htr
    have hlayout := (translate_layout htr).trans hrevoke
    simp only at h
    split at h
    · simp only [Option.some.injEq] at h
      rw [← h, ← hlayout]
      rfl
    · split at h
      · simp at h
      · rename_i m₂ hfront
        rw [physWrite_layout h, physWrite_layout hfront, hlayout]
  · rename_i r m₁ htr
    have hlayout := (translate_layout htr).trans hrevoke
    split at h
    · simp only [Option.some.injEq] at h
      rw [← h, ← hlayout]
      rfl
    · rw [physWrite_layout h, hlayout]

theorem writeFrom_ok {m m' : RevMem} {A L Total : ℕ} {Data : ℕ → ℕ → Load (List UInt8)}
    (h : m.writeFrom A L Data Total = .ok m') :
    ∃ r adj m₁ bytes, (m.RevokeFuture A).translate A L = some (r, adj, m₁) ∧
      Data Total (m.bytesTaken L adj) = .ok bytes ∧ m.WriteMem 0 A L bytes = some m' := by
  unfold writeFrom at h
  split at h
  · simp at h
  · rename_i r adj m₁ htr
    rw [bind_eq_ok] at h
    obtain ⟨bytes, hdata, h⟩ := h
    split at h
    · simp at h
    · rename_i m₂ hwrite
      simp only [Except.ok.injEq] at h
      exact ⟨r, adj, m₁, bytes, htr, hdata, h ▸ hwrite⟩

theorem writeFrom_layout {m m' : RevMem} {A L Total : ℕ} {Data : ℕ → ℕ → Load (List UInt8)}
    (h : m.writeFrom A L Data Total = .ok m') : m'.layout = m.layout := by
  obtain ⟨_, _, _, _, -, -, hwrite⟩ := writeFrom_ok h
  exact WriteMem_layout hwrite

theorem writeLines_layout {lineSize Len : ℕ} {Data : ℕ → ℕ → Load (List UInt8)} {fuel : ℕ}
    {m m' : RevMem} {A Total : ℕ} (h : writeLines lineSize Len Data fuel m A Total = .ok m') :
    m'.layout = m.layout := by
  induction fuel generalizing m A Total with
  | zero =>
    simp only [writeLines, Except.ok.injEq] at h
    rw [h]
  | succ fuel ih =>
    simp only [writeLines, bind_eq_ok] at h
    obtain ⟨m₁, hline, h⟩ := h
    split at h
    · rw [ih h, writeFrom_layout hline]
    · simp only [Except.ok.injEq] at h
      rw [← h, writeFrom_layout hline]

/-- `WriteCacheLine` keeps the layout. -/
theorem WriteCacheLine_layout {lineSize A Len : ℕ} {Data : ℕ → ℕ → Load (List UInt8)}
    {m m' : RevMem} (h : WriteCacheLine lineSize m A Len Data = .ok m') : m'.layout = m.layout := by
  unfold WriteCacheLine at h
  split at h
  · simp only [Except.ok.injEq] at h
    rw [h]
  · simp only at h
    split at h
    · exact writeFrom_layout h
    · rw [bind_eq_ok] at h
      obtain ⟨m₁, hfirst, hrest⟩ := h
      rw [writeLines_layout hrest, writeFrom_layout hfirst]

end RevMem

end RevCPU
