import RevCPU.Loader.Loaded
import RevCPU.Mem.HeapSpec

namespace RevCPU

open Lib

namespace RevMem

/-- The memory after `n` calls of `AddThreadMem`. -/
def addThreads : ℕ → RevMem → RevMem
  | 0, m => m
  | n + 1, m => (addThreads n m).AddThreadMem.2

/-- The thread segments, in the order of their creation, are inside the memory,
    below each other with unmapped addresses between them, and apart from the
    segments and the heap. An address that has wrapped around is not below the
    top of the memory. -/
structure ThreadsApart (m : RevMem) : Prop where
  inside : ∀ x ∈ m.ThreadMemSegs, x.BaseAddr + x.Size ≤ m.memSize
  below : m.ThreadMemSegs.Pairwise fun x y => y.TopAddr < x.BaseAddr
  gap : ∀ i : ℕ, ∀ x y : MemSegment, m.ThreadMemSegs[i]? = some x →
    m.ThreadMemSegs[i + 1]? = some y → ∀ a, y.TopAddr ≤ a → a < x.BaseAddr →
    m.isValidVirtAddr a = false
  segs : ∀ x ∈ m.ThreadMemSegs, ∀ s ∈ m.MemSegs, x.Disj s
  heap : ∀ x ∈ m.ThreadMemSegs, ∀ a, x.contains a = true →
    ¬(m.heapstart ≤ a ∧ a < m.heapstart + m.maxHeapSize)

/-- The distance of the top of the memory of a thread from the top of the memory,
    by the number of the thread. `S` is the size of a thread's memory and `D` the
    distance that the loader keeps for the first thread. -/
def threadOff (D S : ℕ) : ℕ → ℕ
  | 0 => 1024
  | i + 1 => D + Elf.PAGE_SIZE + i * (S + pageSize + 1)

/-- The memory of a thread when no address wraps around. -/
def threadSeg (MemSize D S i : ℕ) : MemSegment :=
  MemSegment.new (MemSize - threadOff D S i - S) S false

section

variable {D S : ℕ}

theorem threadOff_succ (hD : S ≤ D) (i : ℕ) : threadOff D S i + S < threadOff D S (i + 1) := by
  cases i with
  | zero =>
    simp only [threadOff, Elf.PAGE_SIZE]
    omega
  | succ i =>
    simp only [threadOff, Nat.succ_mul]
    omega

theorem threadOff_lt (hD : S ≤ D) {i j : ℕ} (h : i < j) :
    threadOff D S i + S < threadOff D S j := by
  induction j with
  | zero => omega
  | succ j ih =>
    have hstep := threadOff_succ hD j
    by_cases hij : i = j
    · rw [hij]
      exact hstep
    · have hlt := ih (by omega)
      omega

theorem threadOff_le (hD : S ≤ D) {i j : ℕ} (h : i ≤ j) : threadOff D S i ≤ threadOff D S j := by
  by_cases hij : i = j
  · rw [hij]
  · have hlt := threadOff_lt hD (show i < j by omega)
    omega

/-- Every address of the area of the first threads is in the memory of one of
    them or between the memories of two of them. -/
theorem thread_or_gap (hD : S ≤ D) {MemSize n a : ℕ} (hfit : threadOff D S n + S ≤ MemSize)
    (hlow : MemSize - threadOff D S n - S ≤ a) (hhigh : a < MemSize - 1024) :
    (∃ i ≤ n, MemSize - threadOff D S i - S ≤ a ∧ a < MemSize - threadOff D S i) ∨
      ∃ i < n, MemSize - threadOff D S (i + 1) ≤ a ∧ a < MemSize - threadOff D S i - S := by
  induction n with
  | zero => exact .inl ⟨0, by omega, hlow, hhigh⟩
  | succ n ih =>
    have hstep := threadOff_succ hD n
    by_cases htop : a < MemSize - threadOff D S (n + 1)
    · exact .inl ⟨n + 1, by omega, hlow, htop⟩
    · by_cases hgap : a < MemSize - threadOff D S n - S
      · exact .inr ⟨n, by omega, by omega, hgap⟩
      · rcases ih (by omega) (by omega) with ⟨i, hi, hin⟩ | ⟨i, hi, hin⟩
        · exact .inl ⟨i, by omega, hin⟩
        · exact .inr ⟨i, by omega, hin⟩

theorem le_threadOff (hD : S ≤ D) (i : ℕ) : 1024 ≤ threadOff D S i :=
  threadOff_le hD (Nat.zero_le i)

theorem threadSeg_fits {MemSize i : ℕ} (hsize : MemSize < W64)
    (hfit : threadOff D S i + S ≤ MemSize) : (threadSeg MemSize D S i).Fits := by
  refine (MemSegment.new_sized _ _ _).fits ?_
  simp only [MemSegment.new]
  omega

theorem threadSeg_contains {MemSize i a : ℕ} (hsize : MemSize < W64)
    (hfit : threadOff D S i + S ≤ MemSize) :
    (threadSeg MemSize D S i).contains a = true ↔
      MemSize - threadOff D S i - S ≤ a ∧ a < MemSize - threadOff D S i := by
  rw [(threadSeg_fits hsize hfit).contains_iff]
  simp only [threadSeg, MemSegment.new]
  omega

theorem threadSeg_top {MemSize i : ℕ} (hsize : MemSize < W64)
    (hfit : threadOff D S i + S ≤ MemSize) :
    (threadSeg MemSize D S i).TopAddr = MemSize - threadOff D S i := by
  rw [(threadSeg_fits hsize hfit).2]
  simp only [threadSeg, MemSegment.new]
  omega

end

end RevMem

namespace RevLoader

open RevMem

/-- The distance from the top of the memory that the loader keeps for the stack
    and the TLS of the first thread. -/
def keptBytes (m : RevMem) : ℕ := (STACK_SIZE + m.TLSSize) % W64

/-- The fields that `AddThreadMem` keeps. -/
theorem addThreads_frame (n : ℕ) (m : RevMem) :
    (addThreads n m).memSize = m.memSize ∧ (addThreads n m).ThreadMemSize = m.ThreadMemSize ∧
      (addThreads n m).MemSegs = m.MemSegs ∧ (addThreads n m).heapstart = m.heapstart ∧
      (addThreads n m).maxHeapSize = m.maxHeapSize := by
  induction n with
  | zero => exact ⟨rfl, rfl, rfl, rfl, rfl⟩
  | succ n ih => exact ih

section

variable {MemSize H : ℕ} {m : RevMem}

theorem FirstThread.size_le (h : FirstThread MemSize H m) : m.ThreadMemSize ≤ keptBytes m := by
  unfold keptBytes
  rcases h.size with ⟨hsize, htls⟩ | hsize
  · rw [hsize, htls]
    decide
  · omega

theorem FirstThread.kept_le (h : FirstThread MemSize H m) : keptBytes m ≤ m.ThreadMemSize + 4 := by
  unfold keptBytes
  rcases h.size with ⟨hsize, htls⟩ | hsize
  · rw [hsize, htls]
    decide
  · omega

theorem FirstThread.size_lt (h : FirstThread MemSize H m) : m.ThreadMemSize < W64 := by
  have hle := h.size_le
  have hlt : keptBytes m < W64 := Nat.mod_lt _ (by decide)
  omega

/-- The top of the memory of the next thread, in the distances of `threadOff`. -/
theorem next_eq (h : FirstThread MemSize H m)
    (hnext : m.NextThreadMemAddr =
      (MemSize + 4 * W64 - STACK_SIZE - m.TLSSize - Elf.PAGE_SIZE) % W64) :
    m.NextThreadMemAddr = (MemSize + 2 * W64 - keptBytes m - Elf.PAGE_SIZE) % W64 := by
  have htls := h.tlsSize
  rw [hnext]
  unfold keptBytes STACK_SIZE Elf.PAGE_SIZE W64 at *
  omega

variable (h : FirstThread MemSize H m) (hsize : MemSize < W64)
  (hnext : m.NextThreadMemAddr =
    (MemSize + 4 * W64 - STACK_SIZE - m.TLSSize - Elf.PAGE_SIZE) % W64)

include h hsize hnext

/-- The thread segments after `n` calls when the memory is large enough. -/
theorem addThreads_segs {n : ℕ}
    (hfit : threadOff (keptBytes m) m.ThreadMemSize n + m.ThreadMemSize ≤ MemSize) :
    (addThreads n m).ThreadMemSegs =
        (List.range (n + 1)).map (threadSeg MemSize (keptBytes m) m.ThreadMemSize) ∧
      (n ≠ 0 → (addThreads n m).NextThreadMemAddr =
        (MemSize - threadOff (keptBytes m) m.ThreadMemSize n - m.ThreadMemSize + W64 -
          pageSize - 1) % W64) := by
  have hS := h.size_lt
  have hle := h.size_le
  induction n with
  | zero =>
    refine ⟨?_, fun hne => absurd rfl hne⟩
    simp only [threadOff] at hfit
    have hbase : ((MemSize + W64 - 1024) % W64 + W64 - m.ThreadMemSize) % W64 =
        MemSize - 1024 - m.ThreadMemSize := by
      unfold W64 at *
      omega
    simp only [addThreads, h.threads, hbase]
    rfl
  | succ n ih =>
    have hstep := threadOff_succ hle n
    obtain ⟨hsegs, htop⟩ := ih (by omega)
    have hframe := (addThreads_frame n m).2.1
    have hbase : ((addThreads n m).NextThreadMemAddr + W64 - m.ThreadMemSize) % W64 =
        MemSize - threadOff (keptBytes m) m.ThreadMemSize (n + 1) - m.ThreadMemSize := by
      cases n with
      | zero =>
        have hn := next_eq h hnext
        have hkept : keptBytes m < W64 := Nat.mod_lt _ (by decide)
        simp only [addThreads]
        rw [hn]
        simp only [threadOff, Nat.zero_mul, Nat.add_zero] at hfit ⊢
        unfold Elf.PAGE_SIZE W64 at *
        omega
      | succ i =>
        rw [htop (by omega)]
        simp only [threadOff, Nat.succ_mul] at hfit hstep ⊢
        generalize i * (m.ThreadMemSize + pageSize + 1) = x at hfit hstep ⊢
        unfold pageSize W64 at *
        omega
    refine ⟨?_, fun _ => ?_⟩
    · simp only [addThreads, AddThreadMem, hframe, hbase, hsegs]
      rw [List.range_succ (n := n + 1), List.map_append, List.map_singleton]
      rfl
    · simp only [addThreads, AddThreadMem, hframe, hbase]

/-- Thread segments that are inside the memory and below each other have not
    wrapped around. -/
theorem fits_of_inside {n : ℕ}
    (hinside : ∀ x ∈ (addThreads n m).ThreadMemSegs, x.BaseAddr + x.Size ≤ MemSize)
    (hbelow : (addThreads n m).ThreadMemSegs.Pairwise fun x y => y.TopAddr < x.BaseAddr) :
    threadOff (keptBytes m) m.ThreadMemSize n + m.ThreadMemSize ≤ MemSize := by
  have hS := h.size_lt
  have hle := h.size_le
  induction n with
  | zero =>
    have hfirst := hinside (MemSegment.new
      (((MemSize + W64 - 1024) % W64 + W64 - m.ThreadMemSize) % W64) m.ThreadMemSize false)
      (by simp [addThreads, h.threads])
    simp only [MemSegment.new] at hfirst
    simp only [threadOff]
    unfold W64 at *
    omega
  | succ n ih =>
    have hframe := (addThreads_frame n m).2.1
    simp only [addThreads, AddThreadMem, hframe] at hinside hbelow
    rw [List.pairwise_append] at hbelow
    have hfit := ih (fun x hx => hinside x (by simp [hx])) hbelow.1
    obtain ⟨hsegs, htop⟩ := addThreads_segs h hsize hnext hfit
    have hlast := hinside _ (List.mem_append_right _ (List.mem_singleton.mpr rfl))
    have hprev := hbelow.2.2 (threadSeg MemSize (keptBytes m) m.ThreadMemSize n)
      (by rw [hsegs]; exact List.mem_map_of_mem (by simp)) _ (List.mem_singleton.mpr rfl)
    simp only [MemSegment.new, threadSeg] at hlast hprev
    cases n with
    | zero =>
      have hn := next_eq h hnext
      have hkept := h.kept_le
      simp only [addThreads, hn] at hlast hprev
      simp only [threadOff, Nat.zero_mul, Nat.add_zero] at hfit hprev ⊢
      unfold Elf.PAGE_SIZE W64 at *
      omega
    | succ i =>
      rw [htop (by omega)] at hlast hprev
      simp only [threadOff, Nat.succ_mul] at hfit hlast hprev ⊢
      generalize i * (m.ThreadMemSize + pageSize + 1) = x at hfit hlast hprev ⊢
      unfold pageSize W64 at *
      omega

/-- The part of `ThreadsApart` that the sizes decide. -/
theorem addThreads_below {n : ℕ}
    (hfit : threadOff (keptBytes m) m.ThreadMemSize n + m.ThreadMemSize ≤ MemSize) :
    (∀ x ∈ (addThreads n m).ThreadMemSegs, x.BaseAddr + x.Size ≤ MemSize) ∧
      (addThreads n m).ThreadMemSegs.Pairwise fun x y => y.TopAddr < x.BaseAddr := by
  have hle := h.size_le
  have hfits : ∀ i ≤ n,
      threadOff (keptBytes m) m.ThreadMemSize i + m.ThreadMemSize ≤ MemSize := by
    intro i hi
    have hmono := threadOff_le hle hi
    omega
  rw [(addThreads_segs h hsize hnext hfit).1]
  constructor
  · intro x hx
    obtain ⟨i, hi, rfl⟩ := List.mem_map.mp hx
    have hroom := hfits i (by have := List.mem_range.mp hi; omega)
    simp only [threadSeg, MemSegment.new]
    omega
  · rw [List.pairwise_map]
    refine List.pairwise_lt_range.imp_of_mem ?_
    intro i j hi hj hij
    have hroom := hfits j (by have := List.mem_range.mp hj; omega)
    have hlt := threadOff_lt hle hij
    rw [threadSeg_top hsize hroom]
    simp only [threadSeg, MemSegment.new]
    omega

/-- The addresses between two thread segments that follow each other are in no
    thread segment. -/
theorem gap_unmapped {n : ℕ}
    (hfit : threadOff (keptBytes m) m.ThreadMemSize n + m.ThreadMemSize ≤ MemSize) {i a : ℕ}
    (hlow : MemSize - threadOff (keptBytes m) m.ThreadMemSize (i + 1) ≤ a)
    (hhigh : a < MemSize - threadOff (keptBytes m) m.ThreadMemSize i - m.ThreadMemSize) :
    ∀ x ∈ (addThreads n m).ThreadMemSegs, x.contains a = false := by
  have hle := h.size_le
  rw [(addThreads_segs h hsize hnext hfit).1]
  intro x hx
  obtain ⟨j, hj, rfl⟩ := List.mem_map.mp hx
  rw [List.mem_range] at hj
  have hmono := threadOff_le hle (show j ≤ n by omega)
  rw [← Bool.not_eq_true, threadSeg_contains hsize (by omega)]
  intro hin
  by_cases hij : j ≤ i
  · have hle' := threadOff_le hle hij
    omega
  · have hle' := threadOff_le hle (show i + 1 ≤ j by omega)
    omega

end

/-- For every file, configuration and number of threads that the loader accepts,
    the memory of the threads is apart if and only if the memory is large enough
    for it, no segment reaches into the area of the threads and the heap does not
    reach into the memory of a thread. -/
theorem threads_apart_iff {f exe args : List UInt8} {lineSize : ℕ} {MemSize H tlbSize : UInt64}
    {ctrl : Option RevBasicMemCtrl} {L : RevLoader}
    (hload : LoadElf f (new exe args lineSize MemSize H tlbSize ctrl) = .ok L) (n : ℕ) :
    ThreadsApart (addThreads n L.mem) ↔
      threadOff (keptBytes L.mem) L.mem.ThreadMemSize n + L.mem.ThreadMemSize ≤ MemSize.toNat ∧
      (∀ s ∈ L.mem.MemSegs, ∀ a, s.contains a = true →
        ¬(MemSize.toNat - threadOff (keptBytes L.mem) L.mem.ThreadMemSize n -
          L.mem.ThreadMemSize ≤ a ∧ a < MemSize.toNat - 1024)) ∧
      ∀ i ≤ n, ∀ a, MemSize.toNat - threadOff (keptBytes L.mem) L.mem.ThreadMemSize i -
          L.mem.ThreadMemSize ≤ a →
        a < MemSize.toNat - threadOff (keptBytes L.mem) L.mem.ThreadMemSize i →
        ¬(L.mem.heapstart ≤ a ∧ a < L.mem.heapstart + H.toNat % 2 ^ 32) := by
  obtain ⟨h, hnext⟩ := LoadElf_ready hload
  have hsize : MemSize.toNat < W64 := MemSize.toNat_lt
  have hle := h.size_le
  obtain ⟨hmem, -, hmemsegs, hstart, hheap⟩ := addThreads_frame n L.mem
  rw [h.heapSize] at hheap
  rw [h.memSize] at hmem
  constructor
  · intro hapart
    have hinside := hapart.inside
    rw [hmem] at hinside
    have hfit := fits_of_inside h hsize hnext hinside hapart.below
    have hsegs := (addThreads_segs h hsize hnext hfit).1
    have hin : ∀ i ≤ n, threadSeg MemSize.toNat (keptBytes L.mem) L.mem.ThreadMemSize i ∈
        (addThreads n L.mem).ThreadMemSegs := by
      intro i hi
      rw [hsegs]
      exact List.mem_map_of_mem (List.mem_range.mpr (by omega))
    refine ⟨hfit, ?_, ?_⟩
    · rintro s hs a hc ⟨hlow, hhigh⟩
      rcases thread_or_gap hle hfit hlow hhigh with ⟨i, hi, hin'⟩ | ⟨i, hi, hlo, hhi⟩
      · have hmono := threadOff_le hle hi
        exact hapart.segs _ (hin i hi) s (by rw [hmemsegs]; exact hs) a
          ⟨(threadSeg_contains hsize (by omega)).mpr hin', hc⟩
      · have hmono := threadOff_le hle (show i + 1 ≤ n by omega)
        have hget : ∀ j ≤ n, (addThreads n L.mem).ThreadMemSegs[j]? =
            some (threadSeg MemSize.toNat (keptBytes L.mem) L.mem.ThreadMemSize j) := by
          intro j hj
          rw [hsegs, List.getElem?_map, List.getElem?_range (by omega), Option.map_some]
        have hvalid := hapart.gap i _ _ (hget i (by omega)) (hget (i + 1) (by omega)) a
          (by rw [threadSeg_top hsize (by omega)]; exact hlo) hhi
        simp only [isValidVirtAddr, Bool.or_eq_false_iff, List.any_eq_false, hmemsegs] at hvalid
        exact hvalid.1 s hs hc
    · intro i hi a hlo hhi
      have hmono := threadOff_le hle hi
      have hout := hapart.heap _ (hin i hi) a
        ((threadSeg_contains hsize (by omega)).mpr ⟨hlo, hhi⟩)
      rwa [hstart, hheap] at hout
  · rintro ⟨hfit, hsegs, hout⟩
    have hlist := (addThreads_segs h hsize hnext hfit).1
    obtain ⟨hinside, hbelow⟩ := addThreads_below h hsize hnext hfit
    have hcontains : ∀ x ∈ (addThreads n L.mem).ThreadMemSegs, ∀ a, x.contains a = true →
        ∃ i ≤ n, MemSize.toNat - threadOff (keptBytes L.mem) L.mem.ThreadMemSize i -
            L.mem.ThreadMemSize ≤ a ∧
          a < MemSize.toNat - threadOff (keptBytes L.mem) L.mem.ThreadMemSize i := by
      intro x hx a hc
      rw [hlist] at hx
      obtain ⟨i, hi, rfl⟩ := List.mem_map.mp hx
      have hi' := List.mem_range.mp hi
      have hmono := threadOff_le hle (show i ≤ n by omega)
      exact ⟨i, by omega, (threadSeg_contains hsize (by omega)).mp hc⟩
    constructor
    case inside =>
      rw [hmem]
      exact hinside
    case below => exact hbelow
    case gap =>
      intro i x y hx hy a hlo hhi
      have hin : i + 1 < n + 1 := by
        have hlen := (List.getElem?_eq_some_iff.mp hy).1
        simpa [hlist] using hlen
      rw [hlist, List.getElem?_map, List.getElem?_range (by omega), Option.map_some,
        Option.some.injEq] at hx hy
      subst hx hy
      have hmono := threadOff_le hle (show i + 1 ≤ n by omega)
      have hzero := le_threadOff hle i
      rw [threadSeg_top hsize (by omega)] at hlo
      simp only [threadSeg, MemSegment.new] at hhi
      have hthreads := gap_unmapped h hsize hnext hfit hlo hhi
      simp only [isValidVirtAddr, Bool.or_eq_false_iff, List.any_eq_false, hmemsegs,
        Bool.not_eq_true]
      refine ⟨?_, hthreads⟩
      intro s hs
      rw [← Bool.not_eq_true]
      intro hc
      exact hsegs s hs a hc ⟨by omega, by omega⟩
    case segs =>
      rintro x hx s hs a ⟨hx', hs'⟩
      rw [hmemsegs] at hs
      obtain ⟨i, hi, hlo, hhi⟩ := hcontains x hx a hx'
      have hmono := threadOff_le hle hi
      have hzero := le_threadOff hle i
      exact hsegs s hs a hs' ⟨by omega, by omega⟩
    case heap =>
      intro x hx a hc
      obtain ⟨i, hi, hlo, hhi⟩ := hcontains x hx a hc
      rw [hstart, hheap]
      exact hout i hi a hlo hhi

/-- A program of one segment on a memory of the given size. -/
def loadOne (MemSize : UInt64) : Load RevLoader :=
  LoadElf Elf.oneSegmentFile (new [97] [] 0 MemSize (MemSize / 4) 512 none)

/-- 4 MiB hold the memory of two threads. -/
theorem two_threads_apart :
    ∃ L, loadOne (4 * 1024 * 1024) = .ok L ∧ ThreadsApart (addThreads 1 L.mem) := by
  have hsome : ((loadOne (4 * 1024 * 1024)).toOption.map fun L =>
      (L.mem.MemSegs, L.mem.ThreadMemSize, L.mem.TLSSize, L.mem.heapstart)) =
      some ([MemSegment.new (4 * 1024 * 1024 - 1024) 1024 false, MemSegment.new 0x10000 4096 false],
        STACK_SIZE, 4, 0x10011) := by decide +kernel
  obtain ⟨L, hload, hfacts⟩ := Option.map_eq_some_iff.mp hsome
  rw [toOption_eq_some] at hload
  simp only [Prod.mk.injEq] at hfacts
  obtain ⟨hsegs, hsize, htls, hheap⟩ := hfacts
  refine ⟨L, hload, (threads_apart_iff hload 1).mpr ?_⟩
  have hkept : keptBytes L.mem = 1048580 := by
    rw [keptBytes, htls]
    decide
  have hfirst : threadOff 1048580 STACK_SIZE 0 = 1024 := rfl
  have hsecond : threadOff 1048580 STACK_SIZE 1 = 1052676 := by decide
  have hmem : (4 * 1024 * 1024 : UInt64).toNat = 4194304 := by decide
  have hlimit : (4 * 1024 * 1024 / 4 : UInt64).toNat % 2 ^ 32 = 1048576 := by decide
  rw [hsegs, hsize, hheap, hkept, hsecond, hmem, hlimit]
  unfold STACK_SIZE at *
  refine ⟨by omega, ?_, ?_⟩
  · intro s hs a hc
    simp only [List.mem_cons, List.not_mem_nil, or_false] at hs
    rcases hs with rfl | rfl
    · have hfits := (MemSegment.new_sized (4 * 1024 * 1024 - 1024) 1024 false).fits (by decide)
      have hrange := hfits.contains_iff.mp hc
      simp only [MemSegment.new] at hrange
      omega
    · have hfits := (MemSegment.new_sized 0x10000 4096 false).fits (by decide)
      have hrange := hfits.contains_iff.mp hc
      simp only [MemSegment.new] at hrange
      omega
  · intro i hi a hlo hhi
    rcases (show i = 0 ∨ i = 1 by omega) with rfl | rfl
    · rw [hfirst] at hlo
      omega
    · rw [hsecond] at hlo
      omega

/-- On 2 MiB the memory of the second thread wraps around. -/
theorem second_thread_wraps :
    ∃ L, loadOne (2 * 1024 * 1024) = .ok L ∧ ¬ThreadsApart (addThreads 1 L.mem) := by
  have hsome : ((loadOne (2 * 1024 * 1024)).toOption.map fun L =>
      ((addThreads 1 L.mem).ThreadMemSegs.all fun x =>
        x.BaseAddr + x.Size ≤ (addThreads 1 L.mem).memSize)) = some false := by decide +kernel
  obtain ⟨L, hload, hfact⟩ := Option.map_eq_some_iff.mp hsome
  rw [toOption_eq_some] at hload
  refine ⟨L, hload, fun hapart => ?_⟩
  have hall : ((addThreads 1 L.mem).ThreadMemSegs.all fun x =>
      x.BaseAddr + x.Size ≤ (addThreads 1 L.mem).memSize) = true := by
    rw [List.all_eq_true]
    intro x hx
    exact decide_eq_true (hapart.inside x hx)
  rw [hall] at hfact
  simp at hfact

end RevLoader

end RevCPU
