import RevCPU.Mem.HeapRun
import RevCPU.Mem.Protection

namespace RevCPU

open Lib

/-- A call of `RevMem` that a program can cause. -/
inductive MemCall
  | AddMemSegAt (BaseAddr SegSize : ℕ)
  | AddRoundedMemSeg (BaseAddr SegSize RoundUpSize : ℕ)
  | AddThreadMem
  | InitHeap (EndOfStaticData : ℕ)
  | AllocMem (SegSize : ℕ)
  | AllocMemAt (BaseAddr SegSize : ℕ)
  | DeallocMem (BaseAddr Size : ℕ)
  | WriteMemFlags (Hart Addr Len : ℕ) (Data : List UInt8) (flags : RevFlag)
  | WriteMem (Hart Addr Len : ℕ) (Data : List UInt8)
  | ReadMemOld (Addr Len : ℕ) (Data : List UInt8)
  | ReadMem (Hart Addr Len Target : ℕ) (req : MemReq) (flags : RevFlag)

/-- The memory with the host and the set of the addresses that `DeallocMem`
    released and that were in no segment at any time since. -/
structure MemSys where
  mem : RevMem
  host : Host
  released : ℕ → Bool

namespace MemSys

/-- A call that changes the memory to `mem` and the host to `host`. -/
def next (s : MemSys) (mem : RevMem) (host : Host) : MemSys :=
  { mem, host, released := fun a => s.released a && !mem.isValidVirtAddr a }

def step (s : MemSys) : MemCall → Option MemSys
  | .AddMemSegAt b n => some (s.next (s.mem.AddMemSegAt b n).2 s.host)
  | .AddRoundedMemSeg b n r => (s.mem.AddRoundedMemSeg b n r).map fun (_, mem) => s.next mem s.host
  | .AddThreadMem => some (s.next s.mem.AddThreadMem.2 s.host)
  | .InitHeap e => (s.mem.InitHeap e).map fun mem => s.next mem s.host
  | .AllocMem n => (s.mem.AllocMem n).map fun (_, mem) => s.next mem s.host
  | .AllocMemAt b n => (s.mem.AllocMemAt b n).map fun (_, mem) => s.next mem s.host
  | .DeallocMem b n =>
    (s.mem.DeallocMem b n).map fun (ret, mem) =>
      { s with
        mem
        released := fun a =>
          (s.released a || (ret == 0 && decide (b ≤ a) && decide (a < b + n))) &&
            !mem.isValidVirtAddr a }
  | .WriteMemFlags h a n d f => (s.mem.WriteMemFlags h a n d f).map fun mem => s.next mem s.host
  | .WriteMem h a n d => (s.mem.WriteMem h a n d).map fun mem => s.next mem s.host
  | .ReadMemOld a n d => (s.mem.ReadMemOld a n d).map fun (_, mem) => s.next mem s.host
  | .ReadMem h a n t q f =>
    (s.mem.ReadMem s.host h a n t q f).map fun (mem, host) => s.next mem host

/-- The protection law of a state: only addresses of a segment are translated,
    and every access that starts at a released address faults. -/
structure Protected (s : MemSys) : Prop where
  translated : ∀ p v r mem, s.mem.CalcPhysAddr p v = some (r, mem) → s.mem.isValidVirtAddr v = true
  write : ∀ a, s.released a = true → ∀ h n d f, s.mem.WriteMemFlags h a n d f = none
  writePlain : ∀ a, s.released a = true → ∀ h n d, s.mem.WriteMem h a n d = none
  readOld : ∀ a, s.released a = true → ∀ n d, s.mem.ReadMemOld a n d = none
  read : ∀ a, s.released a = true → ∀ h n t q f, s.mem.ReadMem s.host h a n t q f = none

/-- `v` is in one of the segments `segs` or in a thread's segment. -/
def Covered (s : MemSys) (segs : List MemSegment) (v : ℕ) : Prop :=
  ∃ x ∈ segs ++ s.mem.ThreadMemSegs, x.contains v = true

/-- The condition on the memory before a call. When `DeallocMem` releases the
    front of a segment, and when `AddRoundedMemSeg` moves one of the ends of a
    segment inwards, the TLB holds no address that this takes out of the last
    segment it is in. -/
def Uncached (s : MemSys) : MemCall → Prop
  | .DeallocMem b n => ∀ l₁ x l₂, s.mem.MemSegs = l₁ ++ x :: l₂ → (∀ y ∈ l₁, y.BaseAddr ≠ b) →
      x.BaseAddr = b → ∀ e ∈ s.mem.TLB, x.contains e.1 = true → e.1 < b + n →
        s.Covered (l₁ ++ l₂) e.1
  | .AddRoundedMemSeg b n r => ∀ l₁ x l₂, s.mem.MemSegs = l₁ ++ x :: l₂ →
      ∀ top, top = (b + RevMem.roundedSize n r) % W64 →
      (∀ y ∈ l₁, y.contains b = false ∧ y.contains top = false) →
      ∀ e ∈ s.mem.TLB, x.contains e.1 = true →
        (x.contains b = true → x.contains top = false → top ≤ e.1 → s.Covered (l₁ ++ l₂) e.1) ∧
        (x.contains b = false → x.contains top = true → ¬(b ≤ e.1 ∧ e.1 < (b + x.Size) % W64) →
          s.Covered (l₁ ++ l₂) e.1)
  | _ => True

/-- The invariant behind `Protected`: the TLB holds only valid addresses. -/
structure Cached (s : MemSys) : Prop where
  sized : ∀ x ∈ s.mem.MemSegs, x.Sized
  valid : ∀ e ∈ s.mem.TLB, s.mem.isValidVirtAddr e.1 = true
  released : ∀ a, s.released a = true → s.mem.isValidVirtAddr a = false

theorem Cached.protected {s : MemSys} (h : s.Cached) : s.Protected := by
  have htranslated : ∀ p v r mem, s.mem.CalcPhysAddr p v = some (r, mem) →
      s.mem.isValidVirtAddr v = true := by
    intro p v r mem hcalc
    rcases (RevMem.CalcPhysAddr_spec hcalc).2 with ⟨e, he, rfl⟩ | hvalid
    · exact h.valid e he
    · exact hvalid
  have hwrite : ∀ a, s.released a = true → ∀ h n d f, s.mem.WriteMemFlags h a n d f = none := by
    intro a ha hart n d f
    by_contra hne
    obtain ⟨m', hm'⟩ := Option.ne_none_iff_exists'.mp hne
    obtain ⟨-, page, r, m₁, hcalc⟩ := RevMem.WriteMemFlags_spec hm'
    have hinvalid := h.released a ha
    rcases (RevMem.CalcPhysAddr_spec hcalc).2 with ⟨e, he, rfl⟩ | hvalid
    · simp [h.valid e he] at hinvalid
    · have hsame : s.mem.isValidVirtAddr a = true := hvalid
      simp [hsame] at hinvalid
  refine ⟨htranslated, hwrite, fun a ha hart n d => hwrite a ha hart n d _, ?_, ?_⟩
  · intro a ha n d
    by_contra hne
    obtain ⟨⟨bytes, m'⟩, hm'⟩ := Option.ne_none_iff_exists'.mp hne
    obtain ⟨-, page, r, m₁, hcalc⟩ := RevMem.ReadMemOld_spec hm'
    have hinvalid := h.released a ha
    simp [htranslated _ _ _ _ hcalc] at hinvalid
  · intro a ha hart n t q f
    by_contra hne
    obtain ⟨⟨m', host'⟩, hm'⟩ := Option.ne_none_iff_exists'.mp hne
    obtain ⟨-, page, r, m₁, hcalc⟩ := RevMem.ReadMem_spec hm'
    have hinvalid := h.released a ha
    simp [htranslated _ _ _ _ hcalc] at hinvalid

theorem valid_iff {m : RevMem} {v : ℕ} :
    m.isValidVirtAddr v = true ↔ ∃ x ∈ m.MemSegs ++ m.ThreadMemSegs, x.contains v = true := by
  simp [RevMem.isValidVirtAddr, or_and_right, exists_or]

/-- An access leaves the invariant. -/
theorem Cached.kept {s : MemSys} (h : s.Cached) {mem : RevMem} (hkept : RevMem.Kept s.mem mem)
    (host : Host) : (s.next mem host).Cached := by
  constructor
  case sized =>
    intro x hx
    exact h.sized x (by simpa [next, hkept.segs] using hx)
  case valid =>
    intro e he
    simp only [next, hkept.valid_eq]
    rcases hkept.cached e he with ⟨e', he', heq⟩ | hvalid
    · rw [← heq]
      exact h.valid e' he'
    · exact hvalid
  case released =>
    intro a ha
    simp only [next, Bool.and_eq_true, Bool.not_eq_true'] at ha
    exact ha.2

/-- A change of the segments leaves the invariant when the addresses of the TLB
    stay valid. -/
theorem Cached.change {s s' : MemSys} (h : s.Cached) (htlb : s'.mem.TLB = s.mem.TLB)
    (hsized : ∀ x ∈ s'.mem.MemSegs, x ∈ s.mem.MemSegs ∨ x.Sized)
    (hvalid : ∀ e ∈ s.mem.TLB, s.mem.isValidVirtAddr e.1 = true → s'.mem.isValidVirtAddr e.1 = true)
    (hreleased : ∀ a, s'.released a = true → s'.mem.isValidVirtAddr a = false) : s'.Cached := by
  constructor
  case sized =>
    intro x hx
    rcases hsized x hx with hx | hx
    · exact h.sized x hx
    · exact hx
  case valid =>
    intro e he
    rw [htlb] at he
    exact hvalid e he (h.valid e he)
  case released => exact hreleased

theorem next_released (s : MemSys) (mem : RevMem) (host : Host) (a : ℕ)
    (ha : (s.next mem host).released a = true) : mem.isValidVirtAddr a = false := by
  simp only [next, Bool.and_eq_true, Bool.not_eq_true'] at ha
  exact ha.2

/-- A new segment at the end of either list makes no address invalid. -/
theorem Cached.push {s : MemSys} (h : s.Cached) {mem : RevMem} (segs threads : List MemSegment)
    (htlb : mem.TLB = s.mem.TLB) (hsegs : mem.MemSegs = s.mem.MemSegs ++ segs)
    (hthreads : mem.ThreadMemSegs = s.mem.ThreadMemSegs ++ threads) (hsized : ∀ x ∈ segs, x.Sized)
    (host : Host) : (s.next mem host).Cached := by
  refine h.change htlb ?_ ?_ (next_released s mem host)
  · intro x hx
    simp only [next, hsegs, List.mem_append] at hx
    exact hx.imp id (hsized x)
  · intro e _ hvalid
    rw [valid_iff] at hvalid ⊢
    obtain ⟨x, hx, hc⟩ := hvalid
    refine ⟨x, ?_, hc⟩
    simp only [next, hsegs, hthreads, List.mem_append] at hx ⊢
    tauto

/-- One segment is replaced: the addresses of the TLB stay valid when those of
    the old segment are in the new one or in another one. -/
theorem Cached.replace {s s' : MemSys} (h : s.Cached) {l₁ l₂ : List MemSegment}
    {x : MemSegment} (new : List MemSegment) (htlb : s'.mem.TLB = s.mem.TLB) (hold : s.mem.MemSegs = l₁ ++ x :: l₂)
    (hsegs : s'.mem.MemSegs = l₁ ++ (new ++ l₂))
    (hthreads : s'.mem.ThreadMemSegs = s.mem.ThreadMemSegs) (hsized : ∀ y ∈ new, y.Sized)
    (hkeep : ∀ e ∈ s.mem.TLB, x.contains e.1 = true →
      (∃ y ∈ new, y.contains e.1 = true) ∨ s.Covered (l₁ ++ l₂) e.1)
    (hreleased : ∀ a, s'.released a = true → s'.mem.isValidVirtAddr a = false) : s'.Cached := by
  refine h.change htlb ?_ ?_ hreleased
  · intro y hy
    simp only [hsegs, hold, List.mem_append, List.mem_cons] at hy ⊢
    rcases hy with hy | hy | hy
    · exact .inl (.inl hy)
    · exact .inr (hsized y hy)
    · exact .inl (.inr (.inr hy))
  · intro e he hvalid
    rw [valid_iff] at hvalid ⊢
    simp only [Covered, hsegs, hthreads, hold, List.mem_append, List.mem_cons] at hvalid hkeep ⊢
    obtain ⟨y, hy, hc⟩ := hvalid
    by_cases hyx : y = x
    · rw [hyx] at hc
      rcases hkeep e he hc with ⟨z, hz, hcz⟩ | ⟨z, hz, hcz⟩
      · exact ⟨z, by tauto, hcz⟩
      · exact ⟨z, by tauto, hcz⟩
    · exact ⟨y, by tauto, hc⟩

theorem growSegs_spec {b top a : ℕ} {l l' : List MemSegment}
    (h : RevMem.growSegs b top l = some (a, l')) :
    ∃ l₁ x l₂ x', l = l₁ ++ x :: l₂ ∧ l' = l₁ ++ x' :: l₂ ∧
      (∀ y ∈ l₁, y.contains b = false ∧ y.contains top = false) ∧
      ((x.contains b = true ∧ x.contains top = true ∧ x' = x) ∨
       (x.contains b = true ∧ x.contains top = false ∧
          x' = x.setSize ((x.Size + (top + W64 - x.getTopAddr) % W64) % W64)) ∨
       (x.contains b = false ∧ x.contains top = true ∧
          x' = (x.setBaseAddr b).setSize ((x.Size + (b + W64 - b) % W64) % W64))) := by
  induction l generalizing a l' with
  | nil => simp [RevMem.growSegs] at h
  | cons x rest ih =>
    simp only [RevMem.growSegs] at h
    by_cases hb : x.contains b = true
    · rw [if_pos hb] at h
      simp only [Option.some.injEq, Prod.mk.injEq] at h
      obtain ⟨-, rfl⟩ := h
      refine ⟨[], x, rest, _, rfl, rfl, by simp, ?_⟩
      by_cases htop : x.contains top = true
      · exact .inl ⟨hb, htop, by simp [htop]⟩
      · exact .inr (.inl ⟨hb, by simpa using htop, by simp [htop, MemSegment.getSize]⟩)
    · rw [if_neg hb] at h
      by_cases htop : x.contains top = true
      · rw [if_pos htop] at h
        simp only [Option.some.injEq, Prod.mk.injEq] at h
        obtain ⟨-, rfl⟩ := h
        exact ⟨[], x, rest, _, rfl, rfl, by simp, .inr (.inr ⟨by simpa using hb, htop, rfl⟩)⟩
      · rw [if_neg htop] at h
        simp only [Option.map_eq_some_iff, Prod.exists, Prod.mk.injEq] at h
        obtain ⟨a', l'', hrec, rfl, rfl⟩ := h
        obtain ⟨l₁, y, l₂, y', rfl, rfl, hfirst, hcase⟩ := ih hrec
        refine ⟨x :: l₁, y, l₂, y', rfl, rfl, ?_, hcase⟩
        intro z hz
        rcases List.mem_cons.mp hz with rfl | hz
        · exact ⟨by simpa using hb, by simpa using htop⟩
        · exact hfirst z hz

/-- Where the segment that `AddRoundedMemSeg` changes ends: at the new top, or,
    when it is moved to the new base, after its old size. -/
theorem grow_contains {x : MemSegment} (top v : ℕ) (htop : top < W64) :
    (x.setSize ((x.Size + (top + W64 - x.getTopAddr) % W64) % W64)).contains v = true ↔
      x.BaseAddr ≤ v ∧ v < top := by
  have hend : (x.BaseAddr + (x.Size + (top + W64 - (x.BaseAddr + x.Size) % W64) % W64) % W64) % W64
      = top := by
    unfold W64 at *
    omega
  simp only [MemSegment.contains, MemSegment.setSize, MemSegment.getTopAddr, hend,
    Bool.and_eq_true, decide_eq_true_eq]

theorem shift_contains {x : MemSegment} (b v : ℕ) :
    ((x.setBaseAddr b).setSize ((x.Size + (b + W64 - b) % W64) % W64)).contains v = true ↔
      b ≤ v ∧ v < (b + x.Size) % W64 := by
  have hend : (b + (x.Size + (b + W64 - b) % W64) % W64) % W64 = (b + x.Size) % W64 := by
    unfold W64
    omega
  simp only [MemSegment.contains, MemSegment.setSize, MemSegment.setBaseAddr, hend,
    Bool.and_eq_true, decide_eq_true_eq]

theorem Cached.addRounded {s s' : MemSys} (h : s.Cached) {b n r : ℕ}
    (hok : s.Uncached (.AddRoundedMemSeg b n r))
    (hstep : s.step (.AddRoundedMemSeg b n r) = some s') : s'.Cached := by
  simp only [step, RevMem.AddRoundedMemSeg] at hstep
  split at hstep
  · simp at hstep
  · cases hgrow : RevMem.growSegs b ((b + RevMem.roundedSize n r) % W64) s.mem.MemSegs with
    | none =>
      simp only [hgrow, Option.map_some, Option.some.injEq] at hstep
      subst hstep
      exact h.push [MemSegment.new b (RevMem.roundedSize n r) false] [] (by rfl) (by rfl) (by simp)
        (by simp [MemSegment.new_sized]) s.host
    | some g =>
      obtain ⟨a, segs⟩ := g
      simp only [hgrow, Option.map_some, Option.some.injEq] at hstep
      subst hstep
      obtain ⟨l₁, x, l₂, x', hold, rfl, hfirst, hcase⟩ := growSegs_spec hgrow
      have hx : x ∈ s.mem.MemSegs := by simp [hold]
      refine h.replace [x'] rfl hold rfl rfl ?_ ?_ (next_released s _ _)
      · intro y hy
        rw [List.mem_singleton.mp hy]
        rcases hcase with ⟨-, -, rfl⟩ | ⟨-, -, rfl⟩ | ⟨-, -, rfl⟩
        · exact h.sized x' hx
        · exact MemSegment.setSize_sized _ _
        · exact MemSegment.setSize_sized _ _
      · intro e he hc
        obtain ⟨hshort, hmoved⟩ := hok l₁ x l₂ hold _ rfl hfirst e he hc
        have hbase : x.BaseAddr ≤ e.1 := by
          simp only [MemSegment.contains, Bool.and_eq_true, decide_eq_true_eq] at hc
          exact hc.1
        rcases hcase with ⟨-, -, rfl⟩ | ⟨hb, htop, rfl⟩ | ⟨hb, htop, rfl⟩
        · exact .inl ⟨x', by simp, hc⟩
        · by_cases hle : (b + RevMem.roundedSize n r) % W64 ≤ e.1
          · exact .inr (hshort hb htop hle)
          · have hlt := Nat.mod_lt (b + RevMem.roundedSize n r) (by decide : 0 < W64)
            have hnew := (grow_contains (x := x) _ e.1 hlt).mpr ⟨hbase, by omega⟩
            exact .inl ⟨_, List.mem_singleton_self _, hnew⟩
        · by_cases hin : b ≤ e.1 ∧ e.1 < (b + x.Size) % W64
          · exact .inl ⟨_, List.mem_singleton_self _, (shift_contains b e.1).mpr hin⟩
          · exact .inr (hmoved hb htop hin)

/-- The two results of `DeallocMem` that do not end the program. -/
theorem DeallocMem_cases {m m' : RevMem} {b n ret : ℕ} (h : m.DeallocMem b n = some (ret, m')) :
    (ret = W64 - 1 ∧ m' = m) ∨
    ret = 0 ∧ m'.TLB = m.TLB ∧ m'.ThreadMemSegs = m.ThreadMemSegs ∧
      RevMem.releaseSeg b n m.MemSegs = some (some m'.MemSegs) := by
  unfold RevMem.DeallocMem at h
  cases hrel : RevMem.releaseSeg b n m.MemSegs with
  | none => simp [hrel] at h
  | some r =>
    cases r with
    | none =>
      simp only [hrel, Option.some.injEq, Prod.mk.injEq] at h
      exact .inl ⟨h.1.symm, h.2.symm⟩
    | some segs =>
      right
      simp only [hrel] at h
      split at h
      · simp only [Option.some.injEq, Prod.mk.injEq] at h
        obtain ⟨rfl, rfl⟩ := h
        exact ⟨rfl, rfl, rfl, rfl⟩
      · simp only [Option.some.injEq, Prod.mk.injEq] at h
        obtain ⟨rfl, rfl⟩ := h
        exact ⟨rfl, rfl, rfl, rfl⟩

/-- What is left of a segment contains its addresses from `n` bytes on. -/
theorem drop_contains {x : MemSegment} (hsized : x.Sized) {n v : ℕ} (hn : n ≤ x.Size)
    (hc : x.contains v = true) (hv : x.BaseAddr + n ≤ v) : (x.drop n).contains v = true := by
  simp only [MemSegment.contains, Bool.and_eq_true, decide_eq_true_eq] at hc ⊢
  rw [hsized] at hc
  have hbase : (x.BaseAddr + n) % W64 ≤ v := Nat.le_trans (Nat.mod_le _ _) hv
  have hend : ((x.BaseAddr + n) % W64 + (x.Size - n)) % W64 = (x.BaseAddr + x.Size) % W64 := by
    rw [Nat.mod_add_mod]
    congr 1
    omega
  exact ⟨hbase, by simpa [MemSegment.drop, MemSegment.setSize, MemSegment.setBaseAddr, hend] using hc.2⟩

theorem AllocMem_adds {m m' : RevMem} {b n : ℕ} (h : m.AllocMem n = some (b, m')) :
    m'.TLB = m.TLB ∧ m'.MemSegs = m.MemSegs ++ [MemSegment.new b n true] ∧
      m'.ThreadMemSegs = m.ThreadMemSegs := by
  unfold RevMem.AllocMem at h
  split at h
  · simp only [Option.some.injEq, Prod.mk.injEq] at h
    obtain ⟨rfl, rfl⟩ := h
    exact ⟨rfl, rfl, rfl⟩
  · simp only [RevMem.ExpandHeap, Option.map_eq_some_iff, Prod.exists, Prod.mk.injEq] at h
    obtain ⟨top, m₁, hexpand, rfl, rfl⟩ := h
    split at hexpand
    · simp at hexpand
    · simp only [Option.some.injEq, Prod.mk.injEq] at hexpand
      obtain ⟨-, rfl⟩ := hexpand
      exact ⟨rfl, rfl, rfl⟩

theorem AllocMemAt_adds {m m' : RevMem} {b n r : ℕ} (h : m.AllocMemAt b n = some (r, m')) :
    ∃ segs, m'.TLB = m.TLB ∧ m'.MemSegs = m.MemSegs ++ segs ∧
      m'.ThreadMemSegs = m.ThreadMemSegs ∧ ∀ x ∈ segs, x.Sized := by
  unfold RevMem.AllocMemAt at h
  cases hcarve : RevMem.carveFree b n m.FreeMemSegs with
  | none =>
    simp only [hcarve, Option.some.injEq, Prod.mk.injEq] at h
    obtain ⟨-, rfl⟩ := h
    exact ⟨[], rfl, by simp, rfl, by simp⟩
  | some g =>
    simp only [hcarve] at h
    split at h
    · simp only [Option.some.injEq, Prod.mk.injEq] at h
      obtain ⟨-, rfl⟩ := h
      exact ⟨[], rfl, by simp, rfl, by simp⟩
    · split at h
      · simp at h
      · simp only [Option.some.injEq, Prod.mk.injEq] at h
        obtain ⟨-, rfl⟩ := h
        exact ⟨[MemSegment.new b n false], rfl, rfl, rfl, by simp [MemSegment.new_sized]⟩

theorem Cached.dealloc {s s' : MemSys} (h : s.Cached) {b n : ℕ}
    (hok : s.Uncached (.DeallocMem b n)) (hstep : s.step (.DeallocMem b n) = some s') :
    s'.Cached := by
  simp only [step, Option.map_eq_some_iff, Prod.exists] at hstep
  obtain ⟨ret, mem, hdealloc, rfl⟩ := hstep
  rcases DeallocMem_cases hdealloc with ⟨-, rfl⟩ | ⟨-, htlb, hthreads, hrel⟩
  · refine h.change rfl (fun x hx => .inl hx) (fun _ _ hvalid => hvalid) ?_
    intro a ha
    simp only [Bool.and_eq_true, Bool.not_eq_true'] at ha
    exact ha.2
  · obtain ⟨l₁, x, l₂, hold, hfirst, hbase, hsegs⟩ := RevMem.releaseSeg_spec hrel
    have hx : x ∈ s.mem.MemSegs := by simp [hold]
    have hn : n ≤ x.Size := by rcases hsegs with ⟨hlt, -⟩ | ⟨heq, -⟩ <;> omega
    have hsized := h.sized x hx
    have htop : ∀ v, x.contains v = true → v < x.BaseAddr + x.Size := by
      intro v hc
      simp only [MemSegment.contains, Bool.and_eq_true, decide_eq_true_eq] at hc
      rw [hsized] at hc
      exact Nat.lt_of_lt_of_le hc.2 (Nat.mod_le _ _)
    obtain ⟨new, hnew, hkept⟩ : ∃ new, mem.MemSegs = l₁ ++ (new ++ l₂) ∧ (∀ y ∈ new, y.Sized) ∧
        ∀ v, x.contains v = true → b + n ≤ v → ∃ y ∈ new, y.contains v = true := by
      rcases hsegs with ⟨-, hsegs⟩ | ⟨heq, hsegs⟩
      · refine ⟨[x.drop n], hsegs, by simp [MemSegment.drop_sized], ?_⟩
        intro v hc hle
        exact ⟨_, List.mem_singleton_self _, drop_contains hsized hn hc (by omega)⟩
      · refine ⟨[], hsegs, by simp, ?_⟩
        intro v hc hle
        have hlt := htop v hc
        omega
    refine h.replace new htlb hold hnew hthreads hkept.1 ?_ ?_
    · intro e he hc
      by_cases hlt : e.1 < b + n
      · exact .inr (hok l₁ x l₂ hold hfirst hbase e he hc hlt)
      · exact .inl (hkept.2 e.1 hc (by omega))
    · intro a ha
      simp only [Bool.and_eq_true, Bool.not_eq_true'] at ha
      exact ha.2

theorem Cached.step {s s' : MemSys} (h : s.Cached) {c : MemCall} (hok : s.Uncached c)
    (hstep : s.step c = some s') : s'.Cached := by
  cases c with
  | AddMemSegAt b n =>
    simp only [MemSys.step, Option.some.injEq] at hstep
    subst hstep
    exact h.push [MemSegment.new b n false] [] (by rfl) (by rfl) (by simp [RevMem.AddMemSegAt])
      (by simp [MemSegment.new_sized]) s.host
  | AddRoundedMemSeg b n r => exact h.addRounded hok hstep
  | AddThreadMem =>
    simp only [MemSys.step, Option.some.injEq] at hstep
    subst hstep
    exact h.push [] [s.mem.AddThreadMem.1] (by rfl) (by simp [RevMem.AddThreadMem]) (by rfl)
      (by simp) s.host
  | InitHeap e =>
    simp only [MemSys.step, Option.map_eq_some_iff] at hstep
    obtain ⟨mem, hinit, rfl⟩ := hstep
    refine h.kept ?_ s.host
    unfold RevMem.InitHeap at hinit
    split at hinit
    · simp at hinit
    · simp only [Option.some.injEq] at hinit
      subst hinit
      exact .of_TLB rfl rfl rfl
  | AllocMem n =>
    simp only [MemSys.step, Option.map_eq_some_iff, Prod.exists] at hstep
    obtain ⟨b, mem, halloc, rfl⟩ := hstep
    obtain ⟨htlb, hsegs, hthreads⟩ := AllocMem_adds halloc
    exact h.push [MemSegment.new b n true] [] htlb hsegs (by simp [hthreads])
      (by simp [MemSegment.new_sized]) s.host
  | AllocMemAt b n =>
    simp only [MemSys.step, Option.map_eq_some_iff, Prod.exists] at hstep
    obtain ⟨r, mem, halloc, rfl⟩ := hstep
    obtain ⟨segs, htlb, hsegs, hthreads, hsized⟩ := AllocMemAt_adds halloc
    exact h.push segs [] htlb hsegs (by simp [hthreads]) hsized s.host
  | DeallocMem b n => exact h.dealloc hok hstep
  | WriteMemFlags hart a n d f =>
    simp only [MemSys.step, Option.map_eq_some_iff] at hstep
    obtain ⟨mem, hwrite, rfl⟩ := hstep
    exact h.kept (RevMem.WriteMemFlags_spec hwrite).1 s.host
  | WriteMem hart a n d =>
    simp only [MemSys.step, Option.map_eq_some_iff] at hstep
    obtain ⟨mem, hwrite, rfl⟩ := hstep
    exact h.kept (RevMem.WriteMemFlags_spec hwrite).1 s.host
  | ReadMemOld a n d =>
    simp only [MemSys.step, Option.map_eq_some_iff, Prod.exists] at hstep
    obtain ⟨bytes, mem, hread, rfl⟩ := hstep
    exact h.kept (RevMem.ReadMemOld_spec hread).1 s.host
  | ReadMem hart a n t q f =>
    simp only [MemSys.step, Option.map_eq_some_iff, Prod.exists] at hstep
    obtain ⟨mem, host, hread, rfl⟩ := hstep
    exact h.kept (RevMem.ReadMem_spec hread).1 host

/-- Along every run from an empty TLB whose calls are all `Uncached`, only
    addresses of a segment are translated and the released ones fault. -/
theorem protected_of_run {m : RevMem} {host : Host} (htlb : m.TLB = [])
    (hsized : ∀ x ∈ m.MemSegs, x.Sized) {tr : List (MemSys × MemCall)} {s : MemSys}
    (hrun : Run step ⟨m, host, fun _ => false⟩ tr s) (hok : ∀ p ∈ tr, p.1.Uncached p.2) :
    s.Protected ∧ ∀ p ∈ tr, p.1.Protected := by
  have hinit : Cached ⟨m, host, fun _ => false⟩ := ⟨hsized, by simp [htlb], by simp⟩
  obtain ⟨hlast, hall⟩ := hrun.invariant Cached Uncached hinit
    (fun s c s' hI hok hstep => hI.step hok hstep) hok
  exact ⟨hlast.protected, fun p hp => (hall p hp).protected⟩

/-- `DeallocMem` releases the bytes it is given, when no other segment has
    them. -/
theorem released_of_dealloc {s s' : MemSys} (h : s.Cached) {b n : ℕ} {mem : RevMem}
    (hdealloc : s.mem.DeallocMem b n = some (0, mem)) (hstep : s.step (.DeallocMem b n) = some s')
    {v : ℕ} (hlow : b ≤ v) (hhigh : v < b + n)
    (hother : ∀ l₁ x l₂, s.mem.MemSegs = l₁ ++ x :: l₂ → x.BaseAddr = b →
      x.BaseAddr + x.Size < W64 ∧ ¬s.Covered (l₁ ++ l₂) v) : s'.released v = true := by
  simp only [step, hdealloc, Option.map_some, Option.some.injEq] at hstep
  subst hstep
  have hinvalid : mem.isValidVirtAddr v = false := by
    rw [Bool.eq_false_iff]
    intro hvalid
    rcases DeallocMem_cases hdealloc with ⟨habs, -⟩ | ⟨-, -, hthreads, hrel⟩
    · exact absurd habs (by decide)
    obtain ⟨l₁, x, l₂, hold, -, rfl, hsegs⟩ := RevMem.releaseSeg_spec hrel
    obtain ⟨hlt, hnot⟩ := hother l₁ x l₂ hold rfl
    obtain ⟨y, hy, hc⟩ := valid_iff.mp hvalid
    rw [hthreads] at hy
    rcases hsegs with ⟨hn, hsegs⟩ | ⟨-, hsegs⟩
    · simp only [hsegs, List.mem_append, List.mem_cons] at hy
      by_cases hyx : y = x.drop n
      · have hfits := (h.sized x (by simp [hold])).fits hlt
        rw [hyx, hfits.drop_contains (by omega)] at hc
        omega
      · exact hnot ⟨y, by simp only [List.mem_append]; tauto, hc⟩
    · rw [hsegs] at hy
      exact hnot ⟨y, hy, hc⟩
  simp [hinvalid, hlow, hhigh]

/-- The memory of `HeapSys.smallMem` after `InitHeap`. -/
def heapMem : MemSys :=
  ⟨(HeapSys.smallMem.InitHeap 1000).get HeapSys.smallMem_init, ⟨fun _ _ => 0, []⟩, fun _ => false⟩

/-- The write leaves address 1001 in the TLB; after the release the TLB still
    translates it. -/
theorem released_translated :
    ∃ tr s, Run step heapMem tr s ∧ heapMem.mem.TLB = [] ∧
      (∀ x ∈ heapMem.mem.MemSegs, x.Sized) ∧ s.released 1001 = true ∧
      (s.mem.WriteMem 0 1001 1 [0]).isSome = true ∧ ¬s.Protected := by
  refine ⟨_, _, run_of_exec [.AllocMem 1000, .WriteMem 0 1001 1 [5], .DeallocMem 1001 1000] rfl,
    rfl, ?_, by decide, by decide, ?_⟩
  · unfold MemSegment.Sized
    decide
  · intro h
    have hvalid := h.translated 0 1001 1001 _ rfl
    exact absurd hvalid (by decide)

/-- A check of `Uncached`: no address of the released range is in the TLB. -/
def uncachedCheck (s : MemSys) : MemCall → Bool
  | .DeallocMem b n => s.mem.TLB.all fun e => decide (e.1 < b) || decide (b + n ≤ e.1)
  | .AddRoundedMemSeg _ _ _ => s.mem.TLB.isEmpty
  | _ => true

theorem uncached_of_check {s : MemSys} {c : MemCall} (h : s.uncachedCheck c = true) :
    s.Uncached c := by
  cases c with
  | DeallocMem b n =>
    intro l₁ x l₂ _ _ hbase e he hc hlt
    simp only [uncachedCheck, List.all_eq_true, Bool.or_eq_true, decide_eq_true_eq] at h
    simp only [MemSegment.contains, Bool.and_eq_true, decide_eq_true_eq] at hc
    have hout := h e he
    omega
  | AddRoundedMemSeg b n r =>
    intro l₁ x l₂ _ top _ _ e he
    simp only [uncachedCheck, List.isEmpty_iff] at h
    simp [h] at he
  | _ => trivial

/-- A write past the part that is released later. -/
def memCalls : List MemCall :=
  [.AllocMem 1000, .WriteMem 0 1500 4 [1, 2, 3, 4], .DeallocMem 1001 100]

theorem memCalls_protected :
    ∃ tr s, Run step heapMem tr s ∧ s.released 1001 = true ∧
      (s.mem.CalcPhysAddr 0 1500).isSome = true ∧ s.Protected := by
  have hrun : Run step heapMem (trace step heapMem memCalls) _ := run_of_exec memCalls rfl
  have hall : (trace step heapMem memCalls).all (fun p => p.1.uncachedCheck p.2) = true := by
    decide
  refine ⟨_, _, hrun, by decide, by decide, (protected_of_run rfl ?_ hrun fun p hp =>
    uncached_of_check (List.all_eq_true.mp hall p hp)).1⟩
  unfold MemSegment.Sized
  decide

end MemSys

end RevCPU
