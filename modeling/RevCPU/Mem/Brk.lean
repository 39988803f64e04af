import RevCPU.Mem.HeapRun

namespace RevCPU

open Lib

namespace RevMem

/-- `ECALL_brk` with the value of `a0`; `none` is a fatal error, its own or
    that of `ExpandHeap`. -/
def ECALL_brk (mem : RevMem) (Addr : ℕ) : Option RevMem :=
  let heapend := mem.heapend
  if Addr > 0 ∧ Addr > heapend then
    let Size := Addr - heapend
    (mem.ExpandHeap Size).map (·.2)
  else none

/-- `ECALL_munmap` with the values of `a0` and `a1`: the new value of `a0`.
    `rc` is the result of a comparison, so that it is never `-1`. -/
def ECALL_munmap (mem : RevMem) (Addr Size : ℕ) : Option (ℕ × RevMem) :=
  (mem.DeallocMem Addr Size).map fun (ret, mem) => (if ret = W64 - 1 then 1 else 0, mem)

/-- `ECALL_mmap` with the values of `a0` and `a1`: the new value of `a0`. -/
def ECALL_mmap (mem : RevMem) (addr size : ℕ) : Option (ℕ × RevMem) :=
  if addr = 0 then mem.AllocMem size
  else
    match mem.AllocMemAt addr size with
    | none => none
    | some (ret, mem) => if ret = 0 then none else some (addr, mem)

/-- `AllocMem` when a free segment is large enough. -/
theorem AllocMem_of_fit {m m' : RevMem} {n b : ℕ} (hfit : ∃ f ∈ m.FreeMemSegs, n ≤ f.Size)
    (h : m.AllocMem n = some (b, m')) :
    ∃ f ∈ m.FreeMemSegs, b = f.BaseAddr ∧ n ≤ f.Size ∧
      m'.MemSegs = m.MemSegs ++ [MemSegment.new b n true] ∧
      m'.ThreadMemSegs = m.ThreadMemSegs ∧ m'.heapend = m.heapend ∧
      m'.maxHeapSize = m.maxHeapSize := by
  unfold AllocMem at h
  cases htake : takeFree n m.FreeMemSegs with
  | none => exact absurd htake (takeFree_of_fit hfit)
  | some r =>
    obtain ⟨base, free⟩ := r
    simp only [htake, Option.some.injEq, Prod.mk.injEq] at h
    obtain ⟨rfl, rfl⟩ := h
    obtain ⟨l₁, f, l₂, hsplit, rfl, hcase⟩ := takeFree_spec htake
    refine ⟨f, by simp [hsplit], rfl, ?_, rfl, rfl, rfl, rfl⟩
    rcases hcase with ⟨hlt, -⟩ | ⟨heq, -⟩ <;> omega

/-- `DeallocMem` either finds no segment and changes nothing, or it takes the
    front of the first segment at the address. -/
theorem DeallocMem_cases {m m' : RevMem} {b n ret : ℕ} (h : m.DeallocMem b n = some (ret, m')) :
    ret = W64 - 1 ∧ m' = m ∨
    ret = 0 ∧ m'.ThreadMemSegs = m.ThreadMemSegs ∧ m'.heapend = m.heapend ∧
      m'.maxHeapSize = m.maxHeapSize ∧
      ∃ l₁ e l₂, m.MemSegs = l₁ ++ e :: l₂ ∧ (∀ x ∈ l₁, x.BaseAddr ≠ b) ∧ e.BaseAddr = b ∧
        (n < e.Size ∧ m'.MemSegs = l₁ ++ e.drop n :: l₂ ∨
          n = e.Size ∧ m'.MemSegs = l₁ ++ l₂) := by
  unfold DeallocMem at h
  cases hrel : releaseSeg b n m.MemSegs with
  | none => simp [hrel] at h
  | some r =>
    cases r with
    | none =>
      simp only [hrel, Option.some.injEq, Prod.mk.injEq] at h
      exact .inl ⟨h.1.symm, h.2.symm⟩
    | some segs =>
      right
      have hspec := releaseSeg_spec hrel
      cases hmerge : mergeFree b n m.FreeMemSegs with
      | some free =>
        simp only [hrel, hmerge, Option.some.injEq, Prod.mk.injEq] at h
        obtain ⟨rfl, rfl⟩ := h
        exact ⟨rfl, rfl, rfl, rfl, hspec⟩
      | none =>
        simp only [hrel, hmerge, Option.some.injEq, Prod.mk.injEq] at h
        obtain ⟨rfl, rfl⟩ := h
        exact ⟨rfl, rfl, rfl, rfl, hspec⟩

end RevMem

/-- A system call on the heap with the registers it reads; `mmap` is called
    without an address. -/
inductive HeapEcall
  | brk (Addr : BitVec 64)
  | mmap (size : BitVec 64)
  | munmap (Addr Size : BitVec 64)
  deriving DecidableEq, Repr

/-- The addresses from `b` up to `t`, without `t`. -/
def addrRange (b t : ℕ) (a : ℕ) : Bool := b ≤ a && a < t

/-- The memory with the ranges that `brk` has granted and what is live of the
    ranges that `mmap` has granted. -/
structure GrantSys where
  mem : RevMem
  brks : List (ℕ → Bool) := []
  maps : List (ℕ → Bool) := []

namespace GrantSys

/-- One system call that succeeds. `munmap` ends the life of the bytes that it
    releases. -/
def step (s : GrantSys) : HeapEcall → Option GrantSys
  | .brk Addr =>
    (s.mem.ECALL_brk Addr.toNat).map fun mem =>
      { s with mem, brks := s.brks ++ [addrRange s.mem.heapend mem.heapend] }
  | .mmap size =>
    (s.mem.ECALL_mmap 0 size.toNat).map fun (addr, mem) =>
      { s with mem, maps := s.maps ++ [addrRange addr (addr + size.toNat)] }
  | .munmap Addr Size =>
    (s.mem.ECALL_munmap Addr.toNat Size.toNat).map fun (rc, mem) =>
      { s with
        mem
        maps :=
          if rc = 0 then
            s.maps.map fun r a => r a && !addrRange Addr.toNat (Addr.toNat + Size.toNat) a
          else s.maps }

/-- No address is in two of the granted ranges, and every address in one of
    them is valid. -/
structure Consistent (s : GrantSys) : Prop where
  disjoint : (s.brks ++ s.maps).Pairwise fun r t => ∀ a, ¬(r a = true ∧ t a = true)
  valid : ∀ r ∈ s.brks ++ s.maps, ∀ a, r a = true → s.mem.isValidVirtAddr a = true

/-- The condition on the memory before a call of `mmap` or `munmap`, that of
    `AllocMem` and `DeallocMem`. -/
def Guarded (s : GrantSys) : HeapEcall → Prop
  | .brk _ => True
  | .mmap size => HeapSys.Guarded ⟨s.mem, fun _ => false⟩ (.AllocMem size.toNat)
  | .munmap Addr Size =>
    HeapSys.Guarded ⟨s.mem, fun _ => false⟩ (.DeallocMem Addr.toNat Size.toNat)

/-- The state of a run without `brk`. The live bytes are in the segments, and
    the bytes of the heap region `[E + 1, E + 1 + H)` that are in a segment are
    live. -/
structure Shared (E H : ℕ) (T : List MemSegment) (s : GrantSys) : Prop where
  heap : HeapSys.HeapInv ⟨s.mem, fun _ => false⟩
  noBrk : s.brks = []
  heapend : s.mem.heapend = E + 1
  heapSize : s.mem.maxHeapSize = H
  threads : s.mem.ThreadMemSegs = T
  disjoint : s.maps.Pairwise fun r t => ∀ a, ¬(r a = true ∧ t a = true)
  held : ∀ r ∈ s.maps, ∀ a, r a = true → ∃ x ∈ s.mem.MemSegs, x.contains a = true
  live : ∀ a, E + 1 ≤ a → a < E + 1 + H → ∀ x ∈ s.mem.MemSegs, x.contains a = true →
    ∃ r ∈ s.maps, r a = true

theorem Shared.consistent {E H : ℕ} {T : List MemSegment} {s : GrantSys} (h : Shared E H T s) :
    s.Consistent := by
  constructor
  · rw [h.noBrk]
    exact h.disjoint
  · intro r hr a ha
    rw [h.noBrk] at hr
    obtain ⟨x, hx, hc⟩ := h.held r hr a ha
    simp only [RevMem.isValidVirtAddr, Bool.or_eq_true, List.any_eq_true]
    exact .inl ⟨x, hx, hc⟩

theorem heapInv_forget {m : RevMem} {r : ℕ → Bool} (h : HeapSys.HeapInv ⟨m, r⟩) :
    HeapSys.HeapInv ⟨m, fun _ => false⟩ :=
  ⟨h.handed, h.mem_free, h.free, h.mem_sized, h.free_fits, by simp⟩

theorem Shared.mmap {E H : ℕ} {T : List MemSegment} {s s' : GrantSys} {size : BitVec 64}
    (h : Shared E H T s) (hok : s.Guarded (.mmap size)) (hstep : s.step (.mmap size) = some s') :
    Shared E H T s' := by
  simp only [step, RevMem.ECALL_mmap, if_true, Option.map_eq_some_iff, Prod.exists] at hstep
  obtain ⟨addr, mem, halloc, rfl⟩ := hstep
  obtain ⟨f, hf, rfl, hsize, hsegs, hthreads, hend, hmax⟩ := RevMem.AllocMem_of_fit hok halloc
  have hheap : HeapSys.HeapInv ⟨mem, _⟩ := h.heap.alloc hok (by rw [HeapSys.step, halloc]; rfl)
  have hnew : ∀ a, (MemSegment.new f.BaseAddr size.toNat true).contains a = true ↔
      addrRange f.BaseAddr (f.BaseAddr + size.toNat) a = true := by
    intro a
    rw [((h.heap.free_fits f hf).front hsize true).contains_iff]
    simp [addrRange, MemSegment.new]
  have hfree : ∀ a, addrRange f.BaseAddr (f.BaseAddr + size.toNat) a = true → f.contains a = true := by
    intro a ha
    simp only [addrRange, Bool.and_eq_true, decide_eq_true_eq] at ha
    exact (h.heap.free_fits f hf).contains_iff.mpr (by omega)
  constructor
  case heap => exact heapInv_forget hheap
  case noBrk => exact h.noBrk
  case heapend => exact hend.trans h.heapend
  case heapSize => exact hmax.trans h.heapSize
  case threads => exact hthreads.trans h.threads
  case disjoint =>
    rw [List.pairwise_append]
    refine ⟨h.disjoint, List.pairwise_singleton _ _, ?_⟩
    intro r hr t ht a ha
    rw [List.mem_singleton.mp ht] at ha
    obtain ⟨x, hx, hc⟩ := h.held r hr a ha.1
    exact h.heap.mem_free x hx f hf a ⟨hc, hfree a ha.2⟩
  case held =>
    intro r hr a ha
    simp only [hsegs]
    rcases List.mem_append.mp hr with hr | hr
    · obtain ⟨x, hx, hc⟩ := h.held r hr a ha
      exact ⟨x, by simp [hx], hc⟩
    · rw [List.mem_singleton.mp hr] at ha
      exact ⟨_, by simp, (hnew a).mpr ha⟩
  case live =>
    intro a hlo hhi x hx hc
    simp only [hsegs] at hx
    rcases List.mem_append.mp hx with hx | hx
    · obtain ⟨r, hr, ha⟩ := h.live a hlo hhi x hx hc
      exact ⟨r, by simp [hr], ha⟩
    · rw [List.mem_singleton.mp hx] at hc
      exact ⟨_, by simp, (hnew a).mp hc⟩

/-- The bytes of the segments after a release of the front of `e`. -/
theorem released_bytes {l₁ l₂ segs : List MemSegment} {e : MemSegment} {n : ℕ} (hfits : e.Fits)
    (hothers : ∀ x ∈ l₁ ++ l₂, x.Disj e)
    (hsegs : n < e.Size ∧ segs = l₁ ++ e.drop n :: l₂ ∨ n = e.Size ∧ segs = l₁ ++ l₂) (a : ℕ) :
    (∃ x ∈ segs, x.contains a = true) ↔
      (∃ x ∈ l₁ ++ e :: l₂, x.contains a = true) ∧
        addrRange e.BaseAddr (e.BaseAddr + n) a = false := by
  have hn : n ≤ e.Size := by rcases hsegs with ⟨hlt, -⟩ | ⟨heq, -⟩ <;> omega
  have houter : ∀ x ∈ l₁ ++ l₂, x.contains a = true →
      addrRange e.BaseAddr (e.BaseAddr + n) a = false := by
    intro x hx hc
    cases hr : addrRange e.BaseAddr (e.BaseAddr + n) a with
    | false => rfl
    | true =>
      simp only [addrRange, Bool.and_eq_true, decide_eq_true_eq] at hr
      exact absurd ⟨hc, hfits.contains_iff.mpr (by omega)⟩ (hothers x hx a)
  have hdrop : (e.drop n).contains a = true ↔
      e.contains a = true ∧ addrRange e.BaseAddr (e.BaseAddr + n) a = false := by
    rw [hfits.drop_contains hn, hfits.contains_iff]
    simp only [addrRange, Bool.and_eq_false_iff, decide_eq_false_iff_not]
    omega
  have hempty : n = e.Size → ¬(e.contains a = true ∧
      addrRange e.BaseAddr (e.BaseAddr + n) a = false) := by
    intro heq hboth
    rw [hfits.contains_iff] at hboth
    simp only [addrRange, Bool.and_eq_false_iff, decide_eq_false_iff_not] at hboth
    omega
  rcases hsegs with ⟨-, rfl⟩ | ⟨heq, rfl⟩
  · constructor
    · rintro ⟨x, hx, hc⟩
      rcases List.mem_append.mp hx with hx | hx
      · exact ⟨⟨x, by simp [hx], hc⟩, houter x (by simp [hx]) hc⟩
      · rcases List.mem_cons.mp hx with rfl | hx
        · exact ⟨⟨e, by simp, (hdrop.mp hc).1⟩, (hdrop.mp hc).2⟩
        · exact ⟨⟨x, by simp [hx], hc⟩, houter x (by simp [hx]) hc⟩
    · rintro ⟨⟨x, hx, hc⟩, hr⟩
      rcases List.mem_append.mp hx with hx | hx
      · exact ⟨x, by simp [hx], hc⟩
      · rcases List.mem_cons.mp hx with rfl | hx
        · exact ⟨_, by simp, hdrop.mpr ⟨hc, hr⟩⟩
        · exact ⟨x, by simp [hx], hc⟩
  · constructor
    · rintro ⟨x, hx, hc⟩
      refine ⟨⟨x, ?_, hc⟩, houter x hx hc⟩
      rcases List.mem_append.mp hx with hx | hx <;> simp [hx]
    · rintro ⟨⟨x, hx, hc⟩, hr⟩
      rcases List.mem_append.mp hx with hx | hx
      · exact ⟨x, by simp [hx], hc⟩
      · rcases List.mem_cons.mp hx with rfl | hx
        · exact absurd ⟨hc, hr⟩ (hempty heq)
        · exact ⟨x, by simp [hx], hc⟩

theorem Shared.munmap {E H : ℕ} {T : List MemSegment} {s s' : GrantSys} {b n : BitVec 64}
    (h : Shared E H T s) (hok : s.Guarded (.munmap b n))
    (hstep : s.step (.munmap b n) = some s') : Shared E H T s' := by
  simp only [step, RevMem.ECALL_munmap, Option.map_map, Option.map_eq_some_iff, Prod.exists,
    Function.comp_apply] at hstep
  obtain ⟨ret, mem, hdealloc, rfl⟩ := hstep
  have hheap : HeapSys.HeapInv ⟨mem, _⟩ :=
    h.heap.dealloc hok (by rw [HeapSys.step, hdealloc]; rfl)
  rcases RevMem.DeallocMem_cases hdealloc with
    ⟨rfl, rfl⟩ | ⟨rfl, hthreads, hend, hmax, l₁, e, l₂, hsplit, hfirst, hbase, hsegs⟩
  · exact h
  · obtain ⟨hlt, hothers⟩ := hok l₁ e l₂ hsplit hfirst hbase
    have hfits : e.Fits := (h.heap.mem_sized e (by simp [hsplit])).fits hlt
    have hbytes := released_bytes hfits hothers hsegs
    rw [← hsplit, hbase] at hbytes
    rw [if_neg (by decide : ¬0 = W64 - 1), if_pos rfl]
    constructor
    case heap => exact heapInv_forget hheap
    case noBrk => exact h.noBrk
    case heapend => exact hend.trans h.heapend
    case heapSize => exact hmax.trans h.heapSize
    case threads => exact hthreads.trans h.threads
    case disjoint =>
      rw [List.pairwise_map]
      refine h.disjoint.imp ?_
      intro r t hd a ha
      simp only [Bool.and_eq_true] at ha
      exact hd a ⟨ha.1.1, ha.2.1⟩
    case held =>
      intro r hr a ha
      obtain ⟨r₀, hr₀, rfl⟩ := List.mem_map.mp hr
      simp only [Bool.and_eq_true, Bool.not_eq_true'] at ha
      exact (hbytes a).mpr ⟨h.held r₀ hr₀ a ha.1, ha.2⟩
    case live =>
      intro a hlo hhi x hx hc
      obtain ⟨⟨y, hy, hyc⟩, hr⟩ := (hbytes a).mp ⟨x, hx, hc⟩
      obtain ⟨r, hmem, hra⟩ := h.live a hlo hhi y hy hyc
      exact ⟨_, List.mem_map_of_mem hmem, by simp [hra, hr]⟩

/-- A `brk` that succeeds breaks a state in which the heap is shared: the first
    byte that it grants is live already or not valid at all. -/
theorem Shared.brk_breaks {E H : ℕ} {T : List MemSegment} {s s' : GrantSys} {Addr : BitVec 64}
    (h : Shared E H T s)
    (hthreads : ∀ x ∈ T, ∀ a, x.contains a = true → ¬(E + 1 ≤ a ∧ a < E + 1 + H))
    (hstep : s.step (.brk Addr) = some s') : ¬s'.Consistent := by
  simp only [step, RevMem.ECALL_brk, RevMem.ExpandHeap, Option.map_eq_some_iff] at hstep
  obtain ⟨mem, hbrk, rfl⟩ := hstep
  split at hbrk
  case isFalse => simp at hbrk
  case isTrue hgt =>
    simp only [Option.map_eq_some_iff, Prod.exists] at hbrk
    obtain ⟨e, m, hexpand, rfl⟩ := hbrk
    split at hexpand
    · simp at hexpand
    · simp only [Option.some.injEq, Prod.mk.injEq] at hexpand
      obtain ⟨-, rfl⟩ := hexpand
      rename_i hmax
      have hnew : (s.mem.heapend + (Addr.toNat - s.mem.heapend)) % W64 = Addr.toNat := by
        rw [Nat.add_sub_cancel' (by omega), Nat.mod_eq_of_lt Addr.isLt]
      rw [hnew, h.heapSize] at hmax
      rw [h.heapend] at hgt
      intro hcons
      have hfirst : addrRange s.mem.heapend ((s.mem.heapend + (Addr.toNat - s.mem.heapend)) % W64)
          (E + 1) = true := by
        rw [hnew, h.heapend]
        simp only [addrRange, Bool.and_eq_true, decide_eq_true_eq]
        omega
      have hvalid := hcons.valid _ (by simp) (E + 1) hfirst
      simp only [RevMem.isValidVirtAddr, Bool.or_eq_true, List.any_eq_true] at hvalid
      rcases hvalid with ⟨x, hx, hc⟩ | ⟨x, hx, hc⟩
      · obtain ⟨r, hr, ha⟩ := h.live (E + 1) (by omega) (by omega) x hx hc
        have hdisj := (List.pairwise_append.mp hcons.disjoint).2.2 _
          (by simp only [List.mem_append, List.mem_singleton]; exact .inr rfl) r hr (E + 1)
        exact hdisj ⟨hfirst, ha⟩
      · rw [h.threads] at hx
        exact hthreads x hx (E + 1) hc (by omega)

/-- The state after `InitHeap`. -/
theorem Shared.init {m m₀ : RevMem} {E : ℕ} (hfree : m.FreeMemSegs = [])
    (hsegs : ∀ x ∈ m.MemSegs, x.Sized ∧ x.alloced = false)
    (hregion : E + 1 + m.maxHeapSize < W64)
    (hdisj : ∀ x ∈ m.MemSegs, ∀ a, x.contains a = true →
      ¬(E + 1 ≤ a ∧ a < E + 1 + m.maxHeapSize))
    (hinit : m.InitHeap E = some m₀) : Shared E m.maxHeapSize m.ThreadMemSegs ⟨m₀, [], []⟩ := by
  have hheap := HeapSys.HeapInv.init hfree hsegs hregion hdisj hinit
  unfold RevMem.InitHeap at hinit
  split at hinit
  · simp at hinit
  · simp only [Option.some.injEq] at hinit
    subst hinit
    refine ⟨hheap, rfl, Nat.mod_eq_of_lt (by omega), rfl, rfl, List.Pairwise.nil, by simp, ?_⟩
    intro a hlo hhi x hx hc
    exact absurd ⟨hlo, hhi⟩ (hdisj x hx a hc)

/-- In every run of `brk`, `mmap` and `munmap` calls from `InitHeap` on in which
    `mmap` and `munmap` are `Guarded`, the granted ranges stay disjoint and valid
    if and only if `brk` is never called. -/
theorem consistent_iff_no_brk {m m₀ : RevMem} {E : ℕ} (hfree : m.FreeMemSegs = [])
    (hsegs : ∀ x ∈ m.MemSegs, x.Sized ∧ x.alloced = false)
    (hregion : E + 1 + m.maxHeapSize < W64)
    (hdisj : ∀ x ∈ m.MemSegs ++ m.ThreadMemSegs, ∀ a, x.contains a = true →
      ¬(E + 1 ≤ a ∧ a < E + 1 + m.maxHeapSize))
    (hinit : m.InitHeap E = some m₀) {tr : List (GrantSys × HeapEcall)} {s : GrantSys}
    (hrun : Run step ⟨m₀, [], []⟩ tr s) (hok : ∀ p ∈ tr, p.1.Guarded p.2) :
    (s.Consistent ∧ ∀ p ∈ tr, p.1.Consistent) ↔ ∀ p ∈ tr, ∀ Addr, p.2 ≠ .brk Addr := by
  have hstart := Shared.init hfree hsegs hregion (fun x hx => hdisj x (by simp [hx])) hinit
  have hkeep : ∀ s l s', Shared E m.maxHeapSize m.ThreadMemSegs s →
      (s.Guarded l ∧ ∀ Addr, l ≠ .brk Addr) → step s l = some s' →
      Shared E m.maxHeapSize m.ThreadMemSegs s' := by
    intro s l s' hI hl hs
    cases l with
    | brk Addr => exact absurd rfl (hl.2 Addr)
    | mmap size => exact hI.mmap hl.1 hs
    | munmap Addr Size => exact hI.munmap hl.1 hs
  have hall : ∀ {tr s}, Run step ⟨m₀, [], []⟩ tr s → (∀ p ∈ tr, p.1.Guarded p.2) →
      (∀ p ∈ tr, ∀ Addr, p.2 ≠ .brk Addr) →
      Shared E m.maxHeapSize m.ThreadMemSegs s ∧
        ∀ p ∈ tr, Shared E m.maxHeapSize m.ThreadMemSegs p.1 := by
    intro tr s hr hg hb
    exact hr.invariant _ _ hstart hkeep fun p hp => ⟨hg p hp, hb p hp⟩
  constructor
  · rintro ⟨hlast, hcons⟩
    induction hrun with
    | nil => simp
    | @snoc tr s s' l hr hs ih =>
      have hg : ∀ p ∈ tr, p.1.Guarded p.2 := fun p hp => hok p (by simp [hp])
      have hbefore := ih hg (hcons (s, l) (by simp)) fun p hp => hcons p (by simp [hp])
      have hshared := (hall hr hg hbefore).1
      intro p hp Addr hbrk
      rcases List.mem_append.mp hp with hp | hp
      · exact hbefore p hp Addr hbrk
      · rw [List.mem_singleton.mp hp] at hbrk
        simp only at hbrk
        subst hbrk
        exact hshared.brk_breaks (fun x hx => hdisj x (by simp [hx])) hs hlast
  · intro hb
    obtain ⟨hlast, hstates⟩ := hall hrun hok hb
    exact ⟨hlast.consistent, fun p hp => (hstates p hp).consistent⟩

/-- A check of `Guarded`. -/
def guardedCheck (s : GrantSys) : HeapEcall → Bool
  | .brk _ => true
  | .mmap size => HeapSys.guardedCheck ⟨s.mem, fun _ => false⟩ (.AllocMem size.toNat)
  | .munmap Addr Size =>
    HeapSys.guardedCheck ⟨s.mem, fun _ => false⟩ (.DeallocMem Addr.toNat Size.toNat)

theorem guarded_of_check {s : GrantSys} {c : HeapEcall} (h : s.guardedCheck c = true) :
    s.Guarded c := by
  cases c with
  | brk Addr => trivial
  | mmap size =>
    exact HeapSys.guarded_of_check (s := ⟨s.mem, fun _ => false⟩) (c := .AllocMem size.toNat) h
  | munmap Addr Size =>
    exact HeapSys.guarded_of_check (s := ⟨s.mem, fun _ => false⟩)
      (c := .DeallocMem Addr.toNat Size.toNat) h

/-- The memory of `smallMem` after `InitHeap`, with nothing granted. -/
def smallGrants : GrantSys := { mem := (HeapSys.smallMem.InitHeap 1000).get HeapSys.smallMem_init }

/-- Two allocations and the release of a part of the first one. -/
theorem mmap_calls_consistent :
    ∃ tr s, Run step smallGrants tr s ∧ s.maps.length = 2 ∧
      s.Consistent ∧ ∀ p ∈ tr, p.1.Consistent := by
  have hrun : Run step smallGrants (trace step smallGrants [.mmap 4000, .mmap 500, .munmap 1001 3000])
      _ := run_of_exec _ rfl
  have hall : (trace step smallGrants [.mmap 4000, .mmap 500, .munmap 1001 3000]).all
      (fun p => p.1.guardedCheck p.2) = true := by decide
  have hlabels : ∀ p ∈ trace step smallGrants [.mmap 4000, .mmap 500, .munmap 1001 3000],
      ∀ Addr, p.2 ≠ .brk Addr := by
    intro p hp Addr hbrk
    have hmem := trace_label hp
    rw [hbrk] at hmem
    simp at hmem
  refine ⟨_, _, hrun, rfl, (consistent_iff_no_brk (m := HeapSys.smallMem) (E := 1000) rfl ?_
    (by decide) ?_ rfl hrun fun p hp => guarded_of_check (List.all_eq_true.mp hall p hp)).mpr
    hlabels⟩
  · unfold MemSegment.Sized
    decide
  · intro x hx
    exact HeapSys.smallMem_disj x (by simpa [HeapSys.smallMem] using hx)

/-- `brk` to 2001 grants `[1001, 2001)`, which stays free; `mmap` of 1000 bytes
    then grants the same range. -/
theorem brk_overlaps_mmap :
    ∃ m₀ tr s, HeapSys.smallMem.InitHeap 1000 = some m₀ ∧ Run step ⟨m₀, [], []⟩ tr s ∧
      tr.map (·.2) = [.brk 2001, .mmap 1000] ∧ ¬s.Consistent ∧
      ∃ p ∈ tr, ¬p.1.Consistent := by
  refine ⟨_, _, _, rfl, run_of_exec [.brk 2001, .mmap 1000] rfl, rfl, ?_, ?_⟩
  · intro hcons
    exact (List.pairwise_cons.mp hcons.disjoint).1 _ (List.mem_singleton.mpr rfl) 1001 (by decide)
  · refine ⟨_, List.mem_cons_of_mem _ (List.mem_singleton.mpr rfl), ?_⟩
    intro hcons
    have hvalid := hcons.valid _ (List.mem_singleton.mpr rfl) 1001 (by decide)
    revert hvalid
    decide

end GrantSys

end RevCPU
