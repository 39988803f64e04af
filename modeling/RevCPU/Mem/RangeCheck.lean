import RevCPU.Mem.PageTable
import RevCPU.Mem.Protection
import RevCPU.Mem.Reserve

namespace RevCPU

/-- An access of the memory, with what it gets besides its address and length. -/
inductive MemAccess
  | ReadMemOld (Data : List UInt8)
  | ReadMem (h : Host) (Hart Target : ℕ) (req : MemReq) (flags : RevFlag)
  | WriteMem (Hart : ℕ) (Data : List UInt8)
  | WriteMemFlags (Hart : ℕ) (Data : List UInt8) (flags : RevFlag)
  | LRBase (h : Host) (Hart Target aq rl : ℕ) (req : MemReq) (flags : RevFlag)
  | AMOMem (h : Host) (Hart Data Target : ℕ) (req : MemReq) (flags : RevFlag)

namespace MemAccess

/-- The memory after an access that completes. An `LRBase` that finds a
    reservation of its address makes no access. -/
def run (m : RevMem) (Addr Len : ℕ) : MemAccess → Option RevMem
  | ReadMemOld Data => (m.ReadMemOld Addr Len Data).map Prod.snd
  | ReadMem h Hart Target req flags => (m.ReadMem h Hart Addr Len Target req flags).map Prod.fst
  | WriteMem Hart Data => m.WriteMem Hart Addr Len Data
  | WriteMemFlags Hart Data flags => m.WriteMemFlags Hart Addr Len Data flags
  | LRBase h Hart Target aq rl req flags =>
    match m.LRBase h Hart Addr Len Target aq rl req flags with
    | some (true, m, _) => some m
    | _ => none
  | AMOMem h Hart Data Target req flags =>
    (m.AMOMem h Hart Addr Len Data Target req flags).map Prod.fst

/-- The access translates the start of the next page too where it reaches it: the
    reads and writes, and an AMO in local memory. -/
def translatesNext (m : RevMem) : MemAccess → Prop
  | LRBase .. => False
  | AMOMem .. => m.ctrl = none
  | _ => True

end MemAccess

namespace RevMem

/-- The frame of a page, the next free one for a page that has none. -/
def frameOf (m : RevMem) (page : ℕ) : ℕ := (m.pageMap.lookup page).getD m.nextPage

/-- The start of the page after the page of an address. -/
def nextStart (Addr : ℕ) : ℕ := (Addr / pageSize + 1) * pageSize % W64

section

variable {m m' m₁ : RevMem} {A L p f : ℕ} {adj : Option (ℕ × ℕ)}

/-- The first translation of an address. -/
theorem CalcPhysAddr_empty (htlb : m.TLB = [])
    (h : m.CalcPhysAddr (A / pageSize) A = some (p, m₁)) :
    p = frameBase (m.frameOf (A / pageSize)) + A % pageSize ∧
      m₁.pageMap.lookup (A / pageSize) = some (m.frameOf (A / pageSize)) ∧
      m₁.TLB = [(A, p)] ∧ m₁.ctrl = m.ctrl := by
  have hlookup : m.TLB.lookup A = none := by rw [htlb]; rfl
  have hvalid : m.isValidVirtAddr A = true := by
    rcases (CalcPhysAddr_spec h).2 with ⟨e, he, -⟩ | hvalid
    · rw [htlb] at he
      exact absurd he List.not_mem_nil
    · exact hvalid
  rw [CalcPhysAddr_miss hlookup hvalid] at h
  have hcache : ∀ m₀ : RevMem, m₀.TLB = [] → ∀ q, (m₀.AddToTLB A q).TLB = [(A, q)] := by
    intro m₀ hempty q
    unfold AddToTLB
    simp only [hempty, List.lookup_nil]
    split <;> simp
  unfold frameOf
  cases hmap : m.pageMap.lookup (A / pageSize) with
  | none =>
    simp only [hmap, Option.some.injEq, Prod.mk.injEq] at h
    obtain ⟨rfl, rfl⟩ := h
    have hfound : (m.mapNext (A / pageSize)).pageMap.lookup (A / pageSize) = some m.nextPage := by
      simp only [mapNext, lookup_concat hmap, if_true]
    obtain ⟨T, Q, heq, -⟩ := AddToTLB_spec (m.mapNext (A / pageSize)) A
      (frameBase m.nextPage + A % pageSize)
    refine ⟨rfl, ?_, hcache (m.mapNext (A / pageSize)) htlb _, ?_⟩
    · rw [AddToTLB_pageMap]
      exact hfound
    · rw [heq]
      rfl
  | some f =>
    simp only [hmap, Option.some.injEq, Prod.mk.injEq] at h
    obtain ⟨rfl, rfl⟩ := h
    obtain ⟨T, Q, heq, -⟩ := AddToTLB_spec m A (frameBase f + A % pageSize)
    refine ⟨rfl, ?_, hcache _ htlb _, ?_⟩
    · rw [AddToTLB_pageMap]
      exact hmap
    · rw [heq]

/-- What a translation finds was valid when the TLB was empty. -/
theorem valid_of_calc (htlb : m.TLB = []) (hkept : Kept m m₁) {page v r : ℕ}
    (h : m₁.CalcPhysAddr page v = some (r, m')) : m.isValidVirtAddr v = true := by
  rcases (CalcPhysAddr_spec h).2 with ⟨e, he, rfl⟩ | hvalid
  · rcases hkept.cached e he with ⟨e', he', -⟩ | hvalid
    · rw [htlb] at he'
      exact absurd he' List.not_mem_nil
    · exact hvalid
  · rwa [hkept.valid_eq] at hvalid

/-- An access past the end of its page translates the start of the next page. -/
theorem translate_next (hcalc : m.CalcPhysAddr (A / pageSize) A = some (frameBase f + A % pageSize, m₁))
    (hmap : m₁.pageMap.lookup (A / pageSize) = some f) (hf : (f + 1) * pageSize < 2 ^ 32)
    (hL : L ≤ 2 ^ 32) (hcross : pageSize < A % pageSize + L)
    (h : m.translate A L = some (p, adj, m')) :
    ∃ page r m₂, m₁.CalcPhysAddr page (nextStart A) = some (r, m₂) := by
  have hbase : frameBase f = f * pageSize := by
    unfold frameBase
    refine Nat.mod_eq_of_lt ?_
    rw [Nat.succ_mul] at hf
    omega
  have hpage : m₁.pageAt (A / pageSize) = (f, m₁) := by
    unfold pageAt
    rw [hmap]
  have hoff := Nat.mod_lt A (by decide : 0 < pageSize)
  rw [Nat.succ_mul] at hf
  simp only [translate, hcalc, hpage, hbase, Nat.mod_eq_of_lt hf] at h
  rw [Nat.mod_eq_of_lt (by unfold W64; omega), if_pos (by omega)] at h
  have hspan : (f * pageSize + A % pageSize + L - (f * pageSize + pageSize)) % 2 ^ 32 =
      A % pageSize + L - pageSize := by
    rw [Nat.mod_eq_of_lt (by omega)]
    omega
  have hnext : ((A + L) % W64 + W64 - (A % pageSize + L - pageSize)) % W64 = nextStart A := by
    have hsplit := Nat.div_add_mod A pageSize
    rw [Nat.mul_comm] at hsplit
    unfold nextStart
    rw [Nat.succ_mul]
    unfold W64 pageSize at *
    omega
  rw [hspan, hnext] at h
  split at h
  · simp at h
  · rename_i q m₂ hcalc₂
    exact ⟨_, q, m₂, hcalc₂⟩

theorem ReadMem_translate {h h' : Host} {Hart Target : ℕ} {req : MemReq} {flags : RevFlag}
    (hread : m.ReadMem h Hart A L Target req flags = some (m', h')) :
    ∃ p adj m₁, m.translate A L = some (p, adj, m₁) := by
  unfold ReadMem at hread
  cases htr : m.translate A L with
  | none => simp [htr] at hread
  | some t => exact ⟨t.1, t.2.1, t.2.2, rfl⟩

theorem WriteMemFlags_translate {Hart : ℕ} {Data : List UInt8} {flags : RevFlag}
    (h : m.WriteMemFlags Hart A L Data flags = some m') :
    ∃ p adj m₁, (m.RevokeFuture A).translate A L = some (p, adj, m₁) := by
  unfold WriteMemFlags at h
  cases htr : (m.RevokeFuture A).translate A L with
  | none => simp [htr] at h
  | some t => exact ⟨t.1, t.2.1, t.2.2, rfl⟩

/-- The addresses that an access on an empty TLB translates are valid. -/
theorem translate_checks (htlb : m.TLB = []) (h : m.translate A L = some (p, adj, m')) :
    m.isValidVirtAddr A = true ∧
      ((m.frameOf (A / pageSize) + 1) * pageSize < 2 ^ 32 → L ≤ 2 ^ 32 →
        pageSize < A % pageSize + L → m.isValidVirtAddr (nextStart A) = true) := by
  obtain ⟨-, r, m₁, hcalc⟩ := translate_spec h
  obtain ⟨hkept, -⟩ := CalcPhysAddr_spec hcalc
  obtain ⟨rfl, hmap, -⟩ := CalcPhysAddr_empty htlb hcalc
  refine ⟨valid_of_calc htlb (.of_TLB rfl rfl rfl) hcalc, fun hf hL hcross => ?_⟩
  obtain ⟨page, r₂, m₂, hcalc₂⟩ := translate_next hcalc hmap hf hL hcross h
  exact valid_of_calc htlb hkept hcalc₂

theorem WriteMemFlags_checks {Hart : ℕ} {Data : List UInt8} {flags : RevFlag}
    (htlb : m.TLB = []) (h : m.WriteMemFlags Hart A L Data flags = some m') :
    m.isValidVirtAddr A = true ∧
      ((m.frameOf (A / pageSize) + 1) * pageSize < 2 ^ 32 → L ≤ 2 ^ 32 →
        pageSize < A % pageSize + L → m.isValidVirtAddr (nextStart A) = true) := by
  obtain ⟨p, adj, m₁, htr⟩ := WriteMemFlags_translate h
  exact translate_checks (m := m.RevokeFuture A) htlb htr

theorem LRBase_checks {h h' : Host} {Hart Target aq rl : ℕ} {req : MemReq} {flags : RevFlag}
    (htlb : m.TLB = [])
    (hlr : m.LRBase h Hart A L Target aq rl req flags = some (true, m', h')) :
    m.isValidVirtAddr A = true := by
  unfold LRBase at hlr
  split at hlr
  · simp at hlr
  · simp only at hlr
    split at hlr
    · simp at hlr
    · rename_i r m₁ hcalc
      have hkept : Kept m { m with LRSC := m.LRSC ++ [⟨Hart, A, aq ||| rl <<< 1, Target⟩] } :=
        .of_TLB rfl rfl rfl
      exact valid_of_calc htlb hkept hcalc

/-- A local AMO, whose read finds the translation of the address in the TLB. -/
theorem AMOMem_checks {h h' : Host} {Hart Data Target : ℕ} {req : MemReq} {flags : RevFlag}
    (htlb : m.TLB = []) (hamo : m.AMOMem h Hart A L Data Target req flags = some (m', h')) :
    m.isValidVirtAddr A = true ∧
      (m.ctrl = none → (m.frameOf (A / pageSize) + 1) * pageSize < 2 ^ 32 → L ≤ 2 ^ 32 →
        pageSize < A % pageSize + L → m.isValidVirtAddr (nextStart A) = true) := by
  unfold AMOMem at hamo
  cases hcalc : m.CalcPhysAddr (A / pageSize) A with
  | none => simp [hcalc] at hamo
  | some r =>
    obtain ⟨p, m₁⟩ := r
    obtain ⟨hkept, -⟩ := CalcPhysAddr_spec hcalc
    obtain ⟨hp, hmap, htlb₁, hctrl⟩ := CalcPhysAddr_empty htlb hcalc
    refine ⟨valid_of_calc htlb (.of_TLB rfl rfl rfl) hcalc, fun hlocal hf hL hcross => ?_⟩
    simp only [hcalc, hctrl, hlocal] at hamo
    cases hread : m₁.ReadMem h Hart A L Target req flags with
    | none => simp [hread] at hamo
    | some s =>
      obtain ⟨q, adj, m₂, htr⟩ := ReadMem_translate hread
      have hlookup : m₁.TLB.lookup A = some p := by simp [htlb₁]
      have hne : p ≠ INVALID_ADDR := by
        have hoff := Nat.mod_lt A (by decide : 0 < pageSize)
        have hframe := Nat.mod_lt (m.frameOf (A / pageSize) * pageSize) (by decide : 0 < 2 ^ 32)
        unfold frameBase at hp
        unfold pageSize at hoff hp hframe
        unfold INVALID_ADDR W64
        unfold pageSize at *
        omega
      have hhit := CalcPhysAddr_hit (p := A / pageSize) hlookup hne
      rw [hp] at hhit
      obtain ⟨page, r₂, m₃, hcalc₂⟩ := translate_next hhit hmap hf hL hcross htr
      exact valid_of_calc htlb (hkept.trans (CalcPhysAddr_spec hhit).1) hcalc₂

end

/-- An access on an empty TLB that completes starts at a valid address, and where
    it translates the start of the next page that one is valid too. -/
theorem access_checks {m m' : RevMem} {a : MemAccess} {Addr Len : ℕ} (htlb : m.TLB = [])
    (h : a.run m Addr Len = some m') :
    m.isValidVirtAddr Addr = true ∧
      (a.translatesNext m → (m.frameOf (Addr / pageSize) + 1) * pageSize < 2 ^ 32 →
        Len ≤ 2 ^ 32 → pageSize < Addr % pageSize + Len →
          m.isValidVirtAddr (nextStart Addr) = true) := by
  cases a with
  | ReadMemOld Data =>
    obtain ⟨⟨bytes, m₁⟩, hread, -⟩ := Option.map_eq_some_iff.mp h
    obtain ⟨p, adj, htr⟩ := ReadMemOld_translate hread
    exact (translate_checks htlb htr).imp_right fun hnext _ => hnext
  | ReadMem h Hart Target req flags =>
    obtain ⟨⟨m₁, h₁⟩, hread, -⟩ := Option.map_eq_some_iff.mp h
    obtain ⟨p, adj, m₂, htr⟩ := ReadMem_translate hread
    exact (translate_checks htlb htr).imp_right fun hnext _ => hnext
  | WriteMem Hart Data => exact (WriteMemFlags_checks htlb h).imp_right fun hnext _ => hnext
  | WriteMemFlags Hart Data flags =>
    exact (WriteMemFlags_checks htlb h).imp_right fun hnext _ => hnext
  | LRBase host Hart Target aq rl req flags =>
    refine ⟨?_, fun hnext => hnext.elim⟩
    simp only [MemAccess.run] at h
    split at h
    · rename_i m₁ h₁ hlr
      exact LRBase_checks htlb hlr
    · simp at h
  | AMOMem h Hart Data Target req flags =>
    obtain ⟨⟨m₁, h₁⟩, hamo, -⟩ := Option.map_eq_some_iff.mp h
    exact AMOMem_checks htlb hamo

/-- A memory with the segment [8192, 12288) in its first page. -/
def smallSegMem : RevMem :=
  { memSize := 2 ^ 20, maxHeapSize := 0, ThreadMemSize := STACK_SIZE, NextThreadMemAddr := 0,
    MemSegs := [MemSegment.new 8192 4096 false] }

theorem write_inside_checked : smallSegMem.isValidVirtAddr 9000 = true :=
  have hrun : ((MemAccess.WriteMem 0 [1, 2, 3, 4]).run smallSegMem 9000 4).isSome = true := rfl
  (access_checks rfl (Option.some_get hrun).symm).1

/-- A write of four bytes at the last byte of the segment completes. -/
theorem write_past_segment :
    ∃ m', smallSegMem.TLB = [] ∧
      (MemAccess.WriteMem 0 [1, 2, 3, 4]).run smallSegMem 12287 4 = some m' ∧
      ¬∀ a, 12287 ≤ a → a < 12287 + 4 → smallSegMem.isValidVirtAddr a = true := by
  have hrun : ((MemAccess.WriteMem 0 [1, 2, 3, 4]).run smallSegMem 12287 4).isSome = true := rfl
  refine ⟨_, rfl, (Option.some_get hrun).symm, fun hall => ?_⟩
  exact absurd (hall 12288 (by decide) (by decide)) (by decide)

end RevMem

end RevCPU
