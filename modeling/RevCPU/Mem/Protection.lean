import RevCPU.Lib.Assoc
import RevCPU.Lib.Run
import RevCPU.Mem.Access
import RevCPU.Mem.HeapSpec

namespace RevCPU

open Lib

namespace RevMem

/-- What an access leaves: the segments, and in the TLB only addresses that
    were there or that are valid. -/
structure Kept (m m' : RevMem) : Prop where
  segs : m'.MemSegs = m.MemSegs
  threads : m'.ThreadMemSegs = m.ThreadMemSegs
  cached : ∀ e ∈ m'.TLB, (∃ e' ∈ m.TLB, e'.1 = e.1) ∨ m.isValidVirtAddr e.1 = true

namespace Kept

theorem valid_eq {m m' : RevMem} (h : Kept m m') (v : ℕ) :
    m'.isValidVirtAddr v = m.isValidVirtAddr v := by
  unfold isValidVirtAddr
  rw [h.segs, h.threads]

theorem of_TLB {m m' : RevMem} (hsegs : m'.MemSegs = m.MemSegs)
    (hthreads : m'.ThreadMemSegs = m.ThreadMemSegs) (htlb : m'.TLB = m.TLB) : Kept m m' :=
  ⟨hsegs, hthreads, fun e he => .inl ⟨e, by rw [← htlb]; exact he, rfl⟩⟩

theorem trans {m₁ m₂ m₃ : RevMem} (h₁ : Kept m₁ m₂) (h₂ : Kept m₂ m₃) : Kept m₁ m₃ := by
  refine ⟨h₂.segs.trans h₁.segs, h₂.threads.trans h₁.threads, ?_⟩
  intro e he
  rcases h₂.cached e he with ⟨e', he', heq⟩ | hvalid
  · rcases h₁.cached e' he' with ⟨e'', he'', heq'⟩ | hvalid
    · exact .inl ⟨e'', he'', heq'.trans heq⟩
    · rw [heq] at hvalid
      exact .inr hvalid
  · rw [h₁.valid_eq] at hvalid
    exact .inr hvalid

end Kept

theorem AddToTLB_kept {m m' : RevMem} {v p : ℕ} (h : Kept m m') (hv : m.isValidVirtAddr v = true) :
    Kept m (m'.AddToTLB v p) := by
  unfold AddToTLB
  split
  · refine ⟨h.segs, h.threads, ?_⟩
    intro e he
    obtain ⟨e', he', heq⟩ := List.mem_map.mp he
    split at heq
    · rw [← heq]
      exact .inr hv
    · rw [← heq]
      exact h.cached e' he'
  · split
    · refine ⟨h.segs, h.threads, ?_⟩
      intro e he
      rcases List.mem_append.mp he with he | he
      · exact h.cached e (List.mem_of_mem_eraseP he)
      · rw [List.mem_singleton.mp he]
        exact .inr hv
    · refine ⟨h.segs, h.threads, ?_⟩
      intro e he
      rcases List.mem_append.mp he with he | he
      · exact h.cached e he
      · rw [List.mem_singleton.mp he]
        exact .inr hv

/-- A search changes at most the LRU list. -/
theorem SearchTLB_kept (m : RevMem) (v : ℕ) : Kept m (m.SearchTLB v).2 := by
  unfold SearchTLB
  split <;> exact .of_TLB rfl rfl rfl

/-- `CalcPhysAddr` translates an address that the TLB holds or that is valid. -/
theorem CalcPhysAddr_spec {m m' : RevMem} {page v r : ℕ}
    (h : m.CalcPhysAddr page v = some (r, m')) :
    Kept m m' ∧ ((∃ e ∈ m.TLB, e.1 = v) ∨ m.isValidVirtAddr v = true) := by
  unfold CalcPhysAddr at h
  have hsearch := SearchTLB_kept m v
  have hhit : (m.SearchTLB v).1 ≠ INVALID_ADDR → ∃ e ∈ m.TLB, e.1 = v := by
    unfold SearchTLB
    split
    · simp
    · rename_i p hp
      exact fun _ => ⟨(v, p), mem_of_lookup hp, rfl⟩
  cases hs : m.SearchTLB v with
  | mk r₁ m₁ =>
    rw [hs] at hsearch hhit
    simp only [hs] at h
    split at h
    · split at h
      · rename_i hvalid
        rw [hsearch.valid_eq] at hvalid
        split at h
        · simp only [Option.some.injEq, Prod.mk.injEq] at h
          obtain ⟨-, rfl⟩ := h
          have hpage : Kept m { m₁ with
              pageMap := m₁.pageMap ++ [(page, m₁.nextPage)]
              nextPage := (m₁.nextPage + 1) % 2 ^ 32 } := hsearch.trans (.of_TLB rfl rfl rfl)
          exact ⟨AddToTLB_kept hpage hvalid, .inr hvalid⟩
        · simp only [Option.some.injEq, Prod.mk.injEq] at h
          obtain ⟨-, rfl⟩ := h
          exact ⟨AddToTLB_kept hsearch hvalid, .inr hvalid⟩
      · simp at h
    · rename_i hne
      simp only [Option.some.injEq, Prod.mk.injEq] at h
      obtain ⟨-, rfl⟩ := h
      exact ⟨hsearch, .inl (hhit hne)⟩

theorem pageAt_kept (m : RevMem) (page : ℕ) : Kept m (m.pageAt page).2 := by
  unfold pageAt
  split <;> exact .of_TLB rfl rfl rfl

/-- The accesses fault together with `translate`. -/
theorem translate_spec {m m' : RevMem} {Addr Len p : ℕ} {adj : Option (ℕ × ℕ)}
    (h : m.translate Addr Len = some (p, adj, m')) :
    Kept m m' ∧ ∃ r m₁, m.CalcPhysAddr (Addr / pageSize) Addr = some (r, m₁) := by
  simp only [translate] at h
  cases hcalc : m.CalcPhysAddr (Addr / pageSize) Addr with
  | none => simp [hcalc] at h
  | some r =>
    obtain ⟨p₁, m₁⟩ := r
    refine ⟨?_, p₁, m₁, rfl⟩
    have h₁ := (CalcPhysAddr_spec hcalc).1.trans (pageAt_kept m₁ (Addr / pageSize))
    simp only [hcalc] at h
    split at h
    · split at h
      · simp at h
      · rename_i p₂ m₂ hcalc₂
        simp only [Option.some.injEq, Prod.mk.injEq] at h
        obtain ⟨-, -, rfl⟩ := h
        exact h₁.trans (CalcPhysAddr_spec hcalc₂).1
    · simp only [Option.some.injEq, Prod.mk.injEq] at h
      obtain ⟨-, -, rfl⟩ := h
      exact h₁

theorem physWrite_kept {m m' : RevMem} {p : ℕ} {bytes : List UInt8}
    (h : m.physWrite p bytes = some m') : Kept m m' := by
  unfold physWrite at h
  split at h
  · simp only [Option.some.injEq] at h
    subst h
    exact .of_TLB rfl rfl rfl
  · simp at h

theorem WriteMemFlags_spec {m m' : RevMem} {Hart Addr Len : ℕ} {Data : List UInt8}
    {flags : RevFlag} (h : m.WriteMemFlags Hart Addr Len Data flags = some m') :
    Kept m m' ∧ ∃ page r m₁, (m.RevokeFuture Addr).CalcPhysAddr page Addr = some (r, m₁) := by
  unfold WriteMemFlags at h
  have hrevoke : Kept m (m.RevokeFuture Addr) := .of_TLB rfl rfl rfl
  cases htr : (m.RevokeFuture Addr).translate Addr Len with
  | none => simp [htr] at h
  | some t =>
    obtain ⟨p, adj, m₁⟩ := t
    obtain ⟨hkept, r, m₂, hcalc⟩ := translate_spec htr
    refine ⟨?_, _, r, m₂, hcalc⟩
    refine (hrevoke.trans hkept).trans ?_
    cases hadj : adj with
    | some sp =>
      simp only [htr, hadj] at h
      split at h
      · simp only [Option.some.injEq] at h
        subst h
        exact .of_TLB rfl rfl rfl
      · split at h
        · simp at h
        · rename_i m₃ hfront
          exact (physWrite_kept hfront).trans (physWrite_kept h)
    | none =>
      simp only [htr, hadj] at h
      split at h
      · simp only [Option.some.injEq] at h
        subst h
        exact .of_TLB rfl rfl rfl
      · exact physWrite_kept h

theorem ReadMemOld_translate {m m' : RevMem} {Addr Len : ℕ} {Data bytes : List UInt8}
    (h : m.ReadMemOld Addr Len Data = some (bytes, m')) :
    ∃ p adj, m.translate Addr Len = some (p, adj, m') := by
  unfold ReadMemOld at h
  cases htr : m.translate Addr Len with
  | none => simp [htr] at h
  | some t =>
    obtain ⟨p, adj, m₁⟩ := t
    have hm : m' = m₁ := by
      cases hadj : adj with
      | some sp =>
        simp only [htr, hadj] at h
        split at h
        · split at h
          · exact (Prod.mk.inj (Option.some.inj h)).2.symm
          · exact (Prod.mk.inj (Option.some.inj h)).2.symm
        · simp at h
      | none =>
        simp only [htr, hadj, Option.map_eq_some_iff, Prod.mk.injEq] at h
        obtain ⟨-, -, -, rfl⟩ := h
        rfl
    rw [hm]
    exact ⟨p, adj, rfl⟩

theorem ReadMemOld_spec {m m' : RevMem} {Addr Len : ℕ} {Data bytes : List UInt8}
    (h : m.ReadMemOld Addr Len Data = some (bytes, m')) :
    Kept m m' ∧ ∃ page r m₁, m.CalcPhysAddr page Addr = some (r, m₁) := by
  obtain ⟨p, adj, htr⟩ := ReadMemOld_translate h
  obtain ⟨hkept, r, m₂, hcalc⟩ := translate_spec htr
  exact ⟨hkept, _, r, m₂, hcalc⟩

theorem ReadMem_spec {m m' : RevMem} {h h' : Host} {Hart Addr Len Target : ℕ} {req : MemReq}
    {flags : RevFlag} (hread : m.ReadMem h Hart Addr Len Target req flags = some (m', h')) :
    Kept m m' ∧ ∃ page r m₁, m.CalcPhysAddr page Addr = some (r, m₁) := by
  unfold ReadMem at hread
  cases htr : m.translate Addr Len with
  | none => simp [htr] at hread
  | some t =>
    obtain ⟨p, adj, m₁⟩ := t
    obtain ⟨hkept, r, m₂, hcalc⟩ := translate_spec htr
    refine ⟨hkept.trans ?_, _, r, m₂, hcalc⟩
    cases hadj : adj with
    | some sp =>
      simp only [htr, hadj] at hread
      cases hctrl : m₁.ctrl with
      | some ctrl =>
        simp only [hctrl, Option.map_eq_some_iff, Prod.mk.injEq] at hread
        obtain ⟨-, -, rfl, -⟩ := hread
        exact .of_TLB rfl rfl rfl
      | none =>
        simp only [hctrl] at hread
        split at hread
        · simp at hread
        · rename_i m₃ h₃ hfront
          simp only [Option.map_eq_some_iff, Prod.mk.injEq] at hread hfront
          obtain ⟨-, -, rfl, -⟩ := hfront
          obtain ⟨-, -, rfl, -⟩ := hread
          exact .of_TLB rfl rfl rfl
    | none =>
      simp only [htr, hadj] at hread
      split at hread
      · simp only [Option.some.injEq, Prod.mk.injEq] at hread
        obtain ⟨rfl, -⟩ := hread
        exact .of_TLB rfl rfl rfl
      · simp only [Option.map_eq_some_iff, Prod.mk.injEq] at hread
        obtain ⟨-, -, rfl, -⟩ := hread
        exact .of_TLB rfl rfl rfl

end RevMem

end RevCPU
