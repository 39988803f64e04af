import RevCPU.Fetch.Faults
import RevCPU.Loader.Writable

namespace RevCPU.RevMem

open Lib

section

variable {m : RevMem} {V : ℕ → Prop} {A L : ℕ}

/-- A range of accessible addresses can be served, and its pages are among those
    that have frames or can be given them. -/
theorem Writable.range (h : m.Writable V) (hctrl : m.ctrl = none) (hL : 0 < L)
    (hrange : ∀ v, A ≤ v → v < A + L → V v) (htwo : A % pageSize + L ≤ 2 * pageSize) :
    m.PageTableOk ∧ m.RangeOk A L ∧ ∃ pages, m.HasRoom pages ∧ rangePages A L ⊆ pages ∧
      ∀ v, V v → v / pageSize ∈ pages := by
  have hnone : { m with ctrl := none } = m := by
    rw [← hctrl]
  obtain ⟨htable, ⟨pages, hroom, hpages⟩, hvalid, hpage⟩ := h
  rw [hnone] at htable
  have hA : V A := hrange A (Nat.le_refl A) (by omega)
  have hlast : V (A + (L - 1)) := hrange _ (by omega) (by omega)
  refine ⟨htable, ⟨hvalid A hA, fun v hlow hhigh => hvalid v (hrange v hlow hhigh), htwo, ?_⟩,
    pages, hroom, ?_, hpages⟩
  · intro hcross
    have hlt := hpage _ hlast
    simp only [pageSize] at *
    omega
  · intro p hp
    rw [rangePages, Finset.mem_insert, Finset.mem_singleton] at hp
    rcases hp with rfl | rfl
    · exact hpages A hA
    · exact hpages _ hlast

/-- What a translation leaves is accessible as before. -/
theorem Writable.mapped (h : m.Writable V) {m' : RevMem} (hmapped : Mapped m m')
    {pages : Finset ℕ} (hroom : m'.HasRoom pages) (hpages : ∀ v, V v → v / pageSize ∈ pages) :
    m'.Writable V := by
  refine ⟨hmapped.ok.noCtrl, ⟨pages, hroom, hpages⟩, ?_, h.pageNum⟩
  intro v hv
  rw [hmapped.valid_eq]
  exact h.valid v hv

/-- The translation of an accessible range. -/
theorem Writable.translate (h : m.Writable V) (hctrl : m.ctrl = none) (hL : 0 < L)
    (hrange : ∀ v, A ≤ v → v < A + L → V v) (htwo : A % pageSize + L ≤ 2 * pageSize) :
    ∃ r adj m', m.translate A L = some (r, adj, m') ∧ m'.ctrl = none ∧ m'.Writable V ∧
      m'.view = m.view := by
  obtain ⟨htable, hok, pages, hroom, hsub, hpages⟩ := h.range hctrl hL hrange htwo
  obtain ⟨f, adj, m', htr, -, hmapped, hroom', -⟩ := translate_mapped htable hroom hok hsub
  exact ⟨_, adj, m', htr, hmapped.ok.ctrl, h.mapped hmapped hroom' hpages,
    funext (hmapped.view_eq htable)⟩

/-- The reads of accessible aligned words are translated. -/
theorem Writable.readWords (h : m.Writable V) (hctrl : m.ctrl = none) {vs : List ℕ}
    (haligned : ∀ v ∈ vs, v % 4 = 0) (hrange : ∀ v ∈ vs, ∀ i < 4, V (v + i)) :
    ∃ m', m.readWords vs = some m' ∧ m'.ctrl = none ∧ m'.Writable V ∧ m'.view = m.view := by
  induction vs generalizing m with
  | nil => exact ⟨m, rfl, hctrl, h, rfl⟩
  | cons v vs ih =>
    have htwo : v % pageSize + 4 ≤ 2 * pageSize := by
      simp only [pageSize]
      omega
    obtain ⟨r, adj, m₁, htr, hctrl₁, h₁, hview₁⟩ := h.translate hctrl (by decide)
      (fun a hlow hhigh => by
        have hv := hrange v List.mem_cons_self (a - v) (by omega)
        rwa [Nat.add_sub_cancel' hlow] at hv) htwo
    obtain ⟨m', hread, hctrl', h', hview'⟩ := ih h₁ hctrl₁
      (fun v hv => haligned v (List.mem_cons_of_mem _ hv))
      fun v hv => hrange v (List.mem_cons_of_mem _ hv)
    refine ⟨m', ?_, hctrl', h', hview'.trans hview₁⟩
    unfold RevMem.readWords
    rw [List.foldlM_cons, htr]
    exact hread

/-- A read of local memory leaves what its translation leaves. -/
theorem ReadMem_memory {m' : RevMem} {r : ℕ} {adj : Option (ℕ × ℕ)} (hctrl : m'.ctrl = none)
    (htr : m.translate A L = some (r, adj, m')) {host host' : Host} {Hart Target : ℕ}
    {req : MemReq} {flags : RevFlag} {m₁ : RevMem}
    (h : m.ReadMem host Hart A L Target req flags = some (m₁, host')) : m₁ = m' := by
  unfold ReadMem at h
  rw [htr] at h
  cases adj with
  | none =>
    simp only [hctrl] at h
    obtain ⟨bytes, -, heq⟩ := Option.map_eq_some_iff.mp h
    exact (Prod.mk.inj heq).1.symm
  | some t =>
    obtain ⟨span, q⟩ := t
    simp only [hctrl] at h
    split at h
    · cases h
    · rename_i m₂ host₂ hfront
      obtain ⟨bytes, -, heq⟩ := Option.map_eq_some_iff.mp hfront
      obtain ⟨bytes', -, heq'⟩ := Option.map_eq_some_iff.mp h
      rw [← (Prod.mk.inj heq').1, ← (Prod.mk.inj heq).1]

/-- `ReadMem` brings the bytes of an accessible range. -/
theorem Writable.ReadMem (h : m.Writable V) (hctrl : m.ctrl = none) (hL : 0 < L)
    (hrange : ∀ v, A ≤ v → v < A + L → V v) (htwo : A % pageSize + L ≤ 2 * pageSize) (host : Host)
    (Hart Target : ℕ) (req : MemReq) (flags : RevFlag) :
    ∃ m' host', m.ReadMem host Hart A L Target req flags = some (m', host') ∧ m'.ctrl = none ∧
      m'.Writable V ∧ m'.view = m.view ∧ host'.read Target L = getBytes m.view A L := by
  obtain ⟨htable, hok, pages, hroom, hsub, -⟩ := h.range hctrl hL hrange htwo
  obtain ⟨m', host', hread, hmapped, hbytes⟩ :=
    ReadMem_view htable hroom hok hsub host Hart Target req flags
  obtain ⟨r, adj, m₁, htr, hctrl₁, h₁, hview₁⟩ := h.translate hctrl hL hrange htwo
  obtain rfl := ReadMem_memory hctrl₁ htr hread
  refine ⟨m', host', hread, hctrl₁, h₁, hview₁, ?_⟩
  exact List.map_congr_left fun i hi => hbytes i (List.mem_range.mp hi)

/-- `WriteMem` stores its bytes in an accessible range. -/
theorem Writable.WriteMem (h : m.Writable V) (hctrl : m.ctrl = none) (hL : 0 < L)
    (hrange : ∀ v, A ≤ v → v < A + L → V v) (htwo : A % pageSize + L ≤ 2 * pageSize) (Hart : ℕ)
    {Data : List UInt8} (hlen : Data.length = L) :
    ∃ m', m.WriteMem Hart A L Data = some m' ∧ m'.ctrl = none ∧ m'.Writable V ∧
      m'.view = setBytes m.view A Data := by
  obtain ⟨htable, hok, pages, hroom, hsub, hpages⟩ := h.range hctrl hL hrange htwo
  obtain ⟨m', hwrite, htable', hroom', hvalid', hview⟩ :=
    WriteMemFlags_view htable hroom hok hsub Hart Data .F_NONE
  refine ⟨m', hwrite, htable'.ctrl, ⟨htable'.noCtrl, ⟨pages, hroom', hpages⟩, ?_, h.pageNum⟩, ?_⟩
  · intro v hv
    rw [hvalid']
    exact h.valid v hv
  · funext v
    rw [hview, setBytes, hlen]

end

end RevCPU.RevMem
