import RevCPU.Mem.ProtectionRun
import RevCPU.Mem.ReadAfterWrite

namespace RevCPU

open Lib

namespace RevMem

/-- The two memories have the same pages and the same bytes in them. -/
structure SamePages (m m' : RevMem) : Prop where
  ctrl : m'.ctrl = m.ctrl
  memSize : m'.memSize = m.memSize
  physMem : m'.physMem = m.physMem
  pageMap : m'.pageMap = m.pageMap
  nextPage : m'.nextPage = m.nextPage
  TLB : m'.TLB = m.TLB

/-- A change of the segments alone. -/
theorem PageTableOk.samePages {m m' : RevMem} (h : m.PageTableOk) (hsame : SamePages m m')
    (hsegs : ∀ x ∈ m'.MemSegs, x ∈ m.MemSegs ∨ x.Sized)
    (hthreads : ∀ x ∈ m'.ThreadMemSegs, x ∈ m.ThreadMemSegs ∨ x.Sized) : m'.PageTableOk := by
  obtain ⟨hctrl, hsize, hphys, hmap, hnext, htlb⟩ := hsame
  have htop : ∀ x : MemSegment, x.Sized → x.TopAddr < W64 := by
    intro x hx
    rw [hx]
    exact Nat.mod_lt _ (by decide)
  refine ⟨hctrl.trans h.ctrl, ?_, ?_, ?_, ?_, ?_, ?_⟩
  · intro x hx
    rcases List.mem_append.mp hx with hx | hx
    · rcases hsegs x hx with hx | hx
      · exact h.tops x (by simp [hx])
      · exact htop x hx
    · rcases hthreads x hx with hx | hx
      · exact h.tops x (by simp [hx])
      · exact htop x hx
  · rw [hmap, hnext]
    exact h.frame_lt
  · rw [hmap]
    exact h.frame_inj
  · rw [hmap, htlb]
    exact h.tlb
  · rw [hnext, hphys]
    exact h.fresh
  · rw [hnext, hsize]
    exact h.inside

theorem AllocMem_pages {m m' : RevMem} {b n : ℕ} (h : m.AllocMem n = some (b, m')) :
    SamePages m m' := by
  unfold AllocMem at h
  split at h
  · simp only [Option.some.injEq, Prod.mk.injEq] at h
    obtain ⟨rfl, rfl⟩ := h
    exact ⟨rfl, rfl, rfl, rfl, rfl, rfl⟩
  · simp only [ExpandHeap, Option.map_eq_some_iff, Prod.exists, Prod.mk.injEq] at h
    obtain ⟨top, m₁, hexpand, rfl, rfl⟩ := h
    split at hexpand
    · simp at hexpand
    · simp only [Option.some.injEq, Prod.mk.injEq] at hexpand
      obtain ⟨-, rfl⟩ := hexpand
      exact ⟨rfl, rfl, rfl, rfl, rfl, rfl⟩

theorem AllocMemAt_pages {m m' : RevMem} {b n r : ℕ} (h : m.AllocMemAt b n = some (r, m')) :
    SamePages m m' := by
  unfold AllocMemAt at h
  cases hcarve : carveFree b n m.FreeMemSegs with
  | none =>
    simp only [hcarve, Option.some.injEq, Prod.mk.injEq] at h
    obtain ⟨-, rfl⟩ := h
    exact ⟨rfl, rfl, rfl, rfl, rfl, rfl⟩
  | some g =>
    simp only [hcarve] at h
    split at h
    · simp only [Option.some.injEq, Prod.mk.injEq] at h
      obtain ⟨-, rfl⟩ := h
      exact ⟨rfl, rfl, rfl, rfl, rfl, rfl⟩
    · split at h
      · simp at h
      · simp only [Option.some.injEq, Prod.mk.injEq] at h
        obtain ⟨-, rfl⟩ := h
        exact ⟨rfl, rfl, rfl, rfl, rfl, rfl⟩

theorem DeallocMem_pages {m m' : RevMem} {b n r : ℕ} (h : m.DeallocMem b n = some (r, m')) :
    SamePages m m' := by
  unfold DeallocMem at h
  split at h
  · simp at h
  · simp only [Option.some.injEq, Prod.mk.injEq] at h
    obtain ⟨-, rfl⟩ := h
    exact ⟨rfl, rfl, rfl, rfl, rfl, rfl⟩
  · simp only at h
    split at h
    · simp only [Option.some.injEq, Prod.mk.injEq] at h
      obtain ⟨-, rfl⟩ := h
      exact ⟨rfl, rfl, rfl, rfl, rfl, rfl⟩
    · simp only [Option.some.injEq, Prod.mk.injEq] at h
      obtain ⟨-, rfl⟩ := h
      exact ⟨rfl, rfl, rfl, rfl, rfl, rfl⟩

theorem AddRoundedMemSeg_pages {m m' : RevMem} {b n r a : ℕ}
    (h : m.AddRoundedMemSeg b n r = some (a, m')) :
    SamePages m m' ∧ m'.ThreadMemSegs = m.ThreadMemSegs ∧
      ∀ x ∈ m'.MemSegs, x ∈ m.MemSegs ∨ x.Sized := by
  unfold AddRoundedMemSeg at h
  split at h
  · simp at h
  · cases hgrow : growSegs b ((b + roundedSize n r) % W64) m.MemSegs with
    | none =>
      simp only [hgrow, Option.some.injEq, Prod.mk.injEq] at h
      obtain ⟨-, rfl⟩ := h
      refine ⟨⟨rfl, rfl, rfl, rfl, rfl, rfl⟩, rfl, ?_⟩
      intro x hx
      rcases List.mem_append.mp hx with hx | hx
      · exact .inl hx
      · rw [List.mem_singleton.mp hx]
        exact .inr (MemSegment.new_sized _ _ _)
    | some g =>
      obtain ⟨c, segs⟩ := g
      simp only [hgrow, Option.some.injEq, Prod.mk.injEq] at h
      obtain ⟨-, rfl⟩ := h
      refine ⟨⟨rfl, rfl, rfl, rfl, rfl, rfl⟩, rfl, ?_⟩
      obtain ⟨l₁, x, l₂, x', hold, rfl, -, hcase⟩ := MemSys.growSegs_spec hgrow
      have hx' : x' = x ∨ x'.Sized := by
        rcases hcase with ⟨-, -, rfl⟩ | ⟨-, -, rfl⟩ | ⟨-, -, rfl⟩
        · exact .inl rfl
        · exact .inr (MemSegment.setSize_sized _ _)
        · exact .inr (MemSegment.setSize_sized _ _)
      intro y hy
      simp only [hold, List.mem_append, List.mem_cons] at hy ⊢
      rcases hy with hy | rfl | hy
      · exact .inl (.inl hy)
      · rcases hx' with rfl | hx'
        · exact .inl (.inr (.inl rfl))
        · exact .inr hx'
      · exact .inl (.inr (.inr hy))

theorem releaseSeg_sized {b n : ℕ} {l l' : List MemSegment}
    (h : releaseSeg b n l = some (some l')) : ∀ x ∈ l', x ∈ l ∨ x.Sized := by
  obtain ⟨l₁, e, l₂, rfl, -, -, hcase⟩ := releaseSeg_spec h
  intro x hx
  rcases hcase with ⟨-, rfl⟩ | ⟨-, rfl⟩
  · simp only [List.mem_append, List.mem_cons] at hx ⊢
    rcases hx with hx | rfl | hx
    · exact .inl (.inl hx)
    · exact .inr (MemSegment.drop_sized e n)
    · exact .inl (.inr (.inr hx))
  · simp only [List.mem_append, List.mem_cons] at hx ⊢
    tauto

end RevMem

namespace MemSys

/-- The condition under which an access keeps the page table: the routines can
    serve its range and there are frames for its pages. -/
def Served (s : MemSys) : MemCall → Prop
  | .WriteMemFlags _ A L _ _ => s.mem.RangeOk A L ∧ s.mem.HasRoom (RevMem.rangePages A L)
  | .WriteMem _ A L _ => s.mem.RangeOk A L ∧ s.mem.HasRoom (RevMem.rangePages A L)
  | .ReadMemOld A L _ => s.mem.RangeOk A L ∧ s.mem.HasRoom (RevMem.rangePages A L)
  | .ReadMem _ A L _ _ _ => s.mem.RangeOk A L ∧ s.mem.HasRoom (RevMem.rangePages A L)
  | _ => True

theorem pageTableOk_step {s s' : MemSys} {c : MemCall} (h : s.mem.PageTableOk) (hok : s.Served c)
    (hstep : s.step c = some s') : s'.mem.PageTableOk := by
  have hwrite : ∀ {hart A L d f mem}, s.mem.RangeOk A L ∧ s.mem.HasRoom (RevMem.rangePages A L) →
      s.mem.WriteMemFlags hart A L d f = some mem → mem.PageTableOk := by
    intro hart A L d f mem hserved heq
    obtain ⟨m', heq', hok', -⟩ :=
      RevMem.WriteMemFlags_view h hserved.2 hserved.1 (Finset.Subset.refl _) hart d f
    have hsame : m' = mem := by simpa [heq'] using heq
    rw [← hsame]
    exact hok'
  cases c with
  | AddMemSegAt b n =>
    simp only [step, Option.some.injEq] at hstep
    subst hstep
    refine h.samePages ⟨rfl, rfl, rfl, rfl, rfl, rfl⟩ ?_ fun x hx => .inl hx
    intro x hx
    rcases List.mem_append.mp hx with hx | hx
    · exact .inl hx
    · rw [List.mem_singleton.mp hx]
      exact .inr (MemSegment.new_sized _ _ _)
  | AddRoundedMemSeg b n r =>
    simp only [step, Option.map_eq_some_iff, Prod.exists] at hstep
    obtain ⟨a, mem, hadd, rfl⟩ := hstep
    obtain ⟨hsame, hthreads, hsegs⟩ := RevMem.AddRoundedMemSeg_pages hadd
    refine h.samePages hsame hsegs fun x hx => .inl ?_
    rw [← hthreads]
    exact hx
  | AddThreadMem =>
    simp only [step, Option.some.injEq] at hstep
    subst hstep
    refine h.samePages ⟨rfl, rfl, rfl, rfl, rfl, rfl⟩ (fun x hx => .inl hx) ?_
    intro x hx
    rcases List.mem_append.mp hx with hx | hx
    · exact .inl hx
    · rw [List.mem_singleton.mp hx]
      exact .inr (MemSegment.new_sized _ _ _)
  | InitHeap e =>
    simp only [step, Option.map_eq_some_iff] at hstep
    obtain ⟨mem, hinit, rfl⟩ := hstep
    unfold RevMem.InitHeap at hinit
    split at hinit
    · simp at hinit
    · simp only [Option.some.injEq] at hinit
      subst hinit
      exact h.samePages ⟨rfl, rfl, rfl, rfl, rfl, rfl⟩ (fun x hx => .inl hx) fun x hx => .inl hx
  | AllocMem n =>
    simp only [step, Option.map_eq_some_iff, Prod.exists] at hstep
    obtain ⟨b, mem, halloc, rfl⟩ := hstep
    obtain ⟨-, hsegs, hthreads⟩ := AllocMem_adds halloc
    refine h.samePages (RevMem.AllocMem_pages halloc) ?_ ?_
    · intro x hx
      simp only [next, hsegs, List.mem_append, List.mem_singleton] at hx
      rcases hx with hx | rfl
      · exact .inl hx
      · exact .inr (MemSegment.new_sized _ _ _)
    · intro x hx
      rw [← hthreads]
      exact .inl hx
  | AllocMemAt b n =>
    simp only [step, Option.map_eq_some_iff, Prod.exists] at hstep
    obtain ⟨r, mem, halloc, rfl⟩ := hstep
    obtain ⟨segs, -, hsegs, hthreads, hsized⟩ := AllocMemAt_adds halloc
    refine h.samePages (RevMem.AllocMemAt_pages halloc) ?_ ?_
    · intro x hx
      simp only [next, hsegs, List.mem_append] at hx
      exact hx.imp id (hsized x)
    · intro x hx
      rw [← hthreads]
      exact .inl hx
  | DeallocMem b n =>
    simp only [step, Option.map_eq_some_iff, Prod.exists] at hstep
    obtain ⟨ret, mem, hdealloc, rfl⟩ := hstep
    rcases DeallocMem_cases hdealloc with ⟨-, rfl⟩ | ⟨-, -, hthreads, hrel⟩
    · exact h
    · refine h.samePages (RevMem.DeallocMem_pages hdealloc) (RevMem.releaseSeg_sized hrel) ?_
      intro x hx
      rw [← hthreads]
      exact .inl hx
  | WriteMemFlags hart a n d f =>
    simp only [step, Option.map_eq_some_iff] at hstep
    obtain ⟨mem, heq, rfl⟩ := hstep
    exact hwrite hok heq
  | WriteMem hart a n d =>
    simp only [step, Option.map_eq_some_iff] at hstep
    obtain ⟨mem, heq, rfl⟩ := hstep
    exact hwrite hok heq
  | ReadMemOld a n d =>
    simp only [step, Option.map_eq_some_iff, Prod.exists] at hstep
    obtain ⟨bytes, mem, hread, rfl⟩ := hstep
    obtain ⟨p, adj, htr⟩ := RevMem.ReadMemOld_translate hread
    obtain ⟨f, adj', m', htr', -, hmapped, -⟩ :=
      RevMem.translate_mapped h hok.2 hok.1 (Finset.Subset.refl _)
    rw [htr'] at htr
    simp only [Option.some.injEq, Prod.mk.injEq] at htr
    rw [next, ← htr.2.2]
    exact hmapped.ok
  | ReadMem hart a n t q f =>
    simp only [step, Option.map_eq_some_iff, Prod.exists] at hstep
    obtain ⟨mem, host, hread, rfl⟩ := hstep
    obtain ⟨m', host', hread', hmapped, -⟩ :=
      RevMem.ReadMem_view h hok.2 hok.1 (Finset.Subset.refl _) s.host hart t q f
    rw [hread'] at hread
    simp only [Option.some.injEq, Prod.mk.injEq] at hread
    rw [next, ← hread.1]
    exact hmapped.ok

/-- Every state that served accesses and changes of the segments lead to from a
    fresh memory meets the assumption of the read-after-write law. -/
theorem pageTableOk_of_run {m : RevMem} {host : Host} (hctrl : m.ctrl = none)
    (hfresh : m.pageMap = [] ∧ m.nextPage = 0 ∧ m.TLB = [] ∧ ∀ a, m.physMem a = 0)
    (htops : ∀ x ∈ m.MemSegs ++ m.ThreadMemSegs, x.TopAddr < W64)
    {tr : List (MemSys × MemCall)} {s : MemSys}
    (hrun : Run step ⟨m, host, fun _ => false⟩ tr s) (hok : ∀ p ∈ tr, p.1.Served p.2) :
    s.mem.PageTableOk := by
  obtain ⟨hmap, hnext, htlb, hzero⟩ := hfresh
  have hinit : m.PageTableOk := by
    refine ⟨hctrl, htops, ?_, ?_, ?_, fun a _ => hzero a, ?_⟩
    · simp [hmap]
    · simp [hmap]
    · simp [htlb]
    · simp [hnext]
  exact (hrun.invariant (fun s => s.mem.PageTableOk) Served hinit
    (fun s c s' hI hok hstep => pageTableOk_step hI hok hstep) hok).1

end MemSys

end RevCPU
