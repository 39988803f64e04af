import RevCPU.Lib.Assoc
import RevCPU.Lib.Run
import RevCPU.Mem.HeapSpec

namespace RevCPU

open Lib

/-- A call of the heap allocator. -/
inductive HeapCall
  | AllocMem (SegSize : ℕ)
  | DeallocMem (BaseAddr Size : ℕ)
  deriving DecidableEq, Repr

/-- The memory with the set of the bytes that were released and have not been
    handed out since. -/
structure HeapSys where
  mem : RevMem
  released : ℕ → Bool

namespace HeapSys

def step (s : HeapSys) : HeapCall → Option HeapSys
  | .AllocMem n =>
    (s.mem.AllocMem n).map fun (b, mem) =>
      { mem, released := fun a => s.released a && !(b ≤ a && a < b + n) }
  | .DeallocMem b n =>
    (s.mem.DeallocMem b n).map fun (ret, mem) =>
      { mem, released := if ret = 0 then fun a => s.released a || (b ≤ a && a < b + n)
                         else s.released }

/-- The allocator invariant. -/
structure HeapOk (s : HeapSys) : Prop where
  handed : (s.mem.MemSegs.filter (·.alloced)).Pairwise MemSegment.Disj
  handed_free : ∀ x ∈ s.mem.MemSegs, x.alloced = true → ∀ f ∈ s.mem.FreeMemSegs, x.Disj f
  free : s.mem.FreeMemSegs.Pairwise MemSegment.Disj
  sized : ∀ x ∈ s.mem.MemSegs ++ s.mem.FreeMemSegs, x.Sized
  released : ∀ a, s.released a = true →
    ∃ i : ℕ, ∃ f : MemSegment, s.mem.FreeMemSegs[i]? = some f ∧ f.contains a = true ∧
      ∀ j : ℕ, ∀ g : MemSegment, s.mem.FreeMemSegs[j]? = some g → g.contains a = true → j = i

/-- The condition on the memory before a call. `AllocMem` finds a free segment
    that is large enough; the segment that `DeallocMem` finds lies below the end
    of the address space and no other segment overlaps it. -/
def Guarded (s : HeapSys) : HeapCall → Prop
  | .AllocMem n => ∃ f ∈ s.mem.FreeMemSegs, n ≤ f.Size
  | .DeallocMem b _ => ∀ l₁ e l₂, s.mem.MemSegs = l₁ ++ e :: l₂ → (∀ x ∈ l₁, x.BaseAddr ≠ b) →
      e.BaseAddr = b → e.BaseAddr + e.Size < W64 ∧ ∀ x ∈ l₁ ++ l₂, x.Disj e

/-- A check of `Guarded`: before a release no two segments overlap. -/
def guardedCheck (s : HeapSys) : HeapCall → Bool
  | .AllocMem n => s.mem.FreeMemSegs.any fun f => n ≤ f.Size
  | .DeallocMem _ _ =>
    decide (s.mem.MemSegs.Pairwise fun x y => x.TopAddr ≤ y.BaseAddr ∨ y.TopAddr ≤ x.BaseAddr) &&
      s.mem.MemSegs.all fun x => x.BaseAddr + x.Size < W64

theorem guarded_of_check {s : HeapSys} {c : HeapCall} (h : s.guardedCheck c = true) :
    s.Guarded c := by
  cases c with
  | AllocMem n => simpa [guardedCheck, Guarded] using h
  | DeallocMem b n =>
    intro l₁ e l₂ hsplit _ _
    simp only [guardedCheck, hsplit, Bool.and_eq_true, decide_eq_true_eq, List.all_eq_true] at h
    obtain ⟨hpair, hfits⟩ := h
    refine ⟨hfits e (by simp), ?_⟩
    rw [List.pairwise_append, List.pairwise_cons] at hpair
    intro x hx a ha
    simp only [MemSegment.contains, Bool.and_eq_true, decide_eq_true_eq] at ha
    rcases List.mem_append.mp hx with hx | hx
    · have hle := hpair.2.2 x hx e (by simp)
      omega
    · have hle := hpair.2.1.1 x hx
      omega

/-- The invariant that carries `HeapOk` along a run: no segment, handed out or
    not, shares a byte with a free segment. -/
structure HeapInv (s : HeapSys) : Prop where
  handed : s.mem.MemSegs.Pairwise fun x y => x.alloced = true → y.alloced = true → x.Disj y
  mem_free : ∀ x ∈ s.mem.MemSegs, ∀ f ∈ s.mem.FreeMemSegs, x.Disj f
  free : s.mem.FreeMemSegs.Pairwise MemSegment.Disj
  mem_sized : ∀ x ∈ s.mem.MemSegs, x.Sized
  free_fits : ∀ f ∈ s.mem.FreeMemSegs, f.Fits
  released : ∀ a, s.released a = true → ∃ f ∈ s.mem.FreeMemSegs, f.contains a = true

theorem HeapInv.heapOk {s : HeapSys} (h : s.HeapInv) : s.HeapOk := by
  refine ⟨?_, fun x hx _ => h.mem_free x hx, h.free, ?_, ?_⟩
  · rw [List.pairwise_filter]
    exact h.handed
  · intro x hx
    rcases List.mem_append.mp hx with hx | hx
    · exact h.mem_sized x hx
    · exact (h.free_fits x hx).sized
  · intro a ha
    obtain ⟨f, hf, hcontains⟩ := h.released a ha
    obtain ⟨i, hi⟩ := List.mem_iff_getElem?.mp hf
    refine ⟨i, f, hi, hcontains, ?_⟩
    intro j g hj hg
    obtain ⟨hjlt, rfl⟩ := List.getElem?_eq_some_iff.mp hj
    obtain ⟨hilt, rfl⟩ := List.getElem?_eq_some_iff.mp hi
    rcases Nat.lt_trichotomy j i with hji | rfl | hij
    · exact absurd ⟨hg, hcontains⟩ (List.pairwise_iff_getElem.mp h.free j i hjlt hilt hji a)
    · rfl
    · exact absurd ⟨hcontains, hg⟩ (List.pairwise_iff_getElem.mp h.free i j hilt hjlt hij a)

theorem HeapInv.alloc {s s' : HeapSys} (h : s.HeapInv) {n : ℕ}
    (hok : s.Guarded (.AllocMem n)) (hstep : s.step (.AllocMem n) = some s') : s'.HeapInv := by
  simp only [step, RevMem.AllocMem] at hstep
  cases htake : RevMem.takeFree n s.mem.FreeMemSegs with
  | none => exact absurd htake (RevMem.takeFree_of_fit hok)
  | some r =>
    obtain ⟨b, free⟩ := r
    simp only [htake, Option.map_some, Option.some.injEq] at hstep
    subst hstep
    obtain ⟨l₁, f, l₂, hsplit, rfl, hfree⟩ := RevMem.takeFree_spec htake
    have hfmem : f ∈ s.mem.FreeMemSegs := by simp [hsplit]
    have hffits := h.free_fits f hfmem
    have hn : n ≤ f.Size := by rcases hfree with ⟨hlt, -⟩ | ⟨heq, -⟩ <;> omega
    have hnew : ∀ a, (MemSegment.new f.BaseAddr n true).contains a = true ↔
        f.BaseAddr ≤ a ∧ a < f.BaseAddr + n := fun a => (hffits.front hn true).contains_iff
    have hnewsub : ∀ a, (MemSegment.new f.BaseAddr n true).contains a = true →
        f.contains a = true := by
      intro a ha
      have hrange := (hnew a).mp ha
      exact hffits.contains_iff.mpr (by omega)
    have hdropsub : ∀ a, (f.drop n).contains a = true → f.contains a = true := by
      intro a ha
      have hrange := (hffits.drop_contains hn).mp ha
      exact hffits.contains_iff.mpr (by omega)
    have hfreedisj := h.free
    rw [hsplit] at hfreedisj
    have hothers : ∀ g ∈ l₁ ++ l₂, f.Disj g := by
      rw [List.pairwise_append, List.pairwise_cons] at hfreedisj
      intro g hg
      rcases List.mem_append.mp hg with hg | hg
      · exact (hfreedisj.2.2 g hg f (by simp)).symm
      · exact hfreedisj.2.1.1 g hg
    have hold : ∀ g ∈ l₁ ++ l₂, g ∈ s.mem.FreeMemSegs := by
      intro g hg
      rw [hsplit]
      rcases List.mem_append.mp hg with hg | hg <;> simp [hg]
    have hmem : ∀ g ∈ free, g ∈ l₁ ++ l₂ ∨ g = f.drop n := by
      intro g hg
      rcases hfree with ⟨-, rfl⟩ | ⟨-, rfl⟩
      · simp only [List.mem_append, List.mem_cons] at hg ⊢
        tauto
      · exact .inl hg
    constructor
    case handed =>
      rw [List.pairwise_append]
      refine ⟨h.handed, List.pairwise_singleton _ _, ?_⟩
      intro x hx y hy _ _
      rw [List.mem_singleton.mp hy]
      exact ((h.mem_free x hx f hfmem).symm.mono hnewsub).symm
    case mem_free =>
      intro x hx g hg
      rcases List.mem_append.mp hx with hx | hx
      · rcases hmem g hg with hg | rfl
        · exact h.mem_free x hx g (hold g hg)
        · exact ((h.mem_free x hx f hfmem).symm.mono hdropsub).symm
      · rw [List.mem_singleton.mp hx]
        rcases hmem g hg with hg | rfl
        · exact (hothers g hg).mono hnewsub
        · intro a ha
          have h₁ := (hnew a).mp ha.1
          have h₂ := (hffits.drop_contains hn).mp ha.2
          omega
    case free =>
      rcases hfree with ⟨-, rfl⟩ | ⟨-, rfl⟩
      · exact pairwise_replace hfreedisj (fun x _ hd => (hd.symm.mono hdropsub).symm)
          (fun x _ hd => hd.mono hdropsub)
      · exact hfreedisj.sublist (List.Sublist.append_left (List.sublist_cons_self f l₂) l₁)
    case mem_sized =>
      intro x hx
      rcases List.mem_append.mp hx with hx | hx
      · exact h.mem_sized x hx
      · rw [List.mem_singleton.mp hx]
        exact MemSegment.new_sized _ _ _
    case free_fits =>
      intro g hg
      rcases hmem g hg with hg | rfl
      · exact h.free_fits g (hold g hg)
      · exact hffits.drop hn
    case released =>
      intro a ha
      simp only [Bool.and_eq_true, Bool.not_eq_true', Bool.and_eq_false_iff,
        decide_eq_false_iff_not] at ha
      obtain ⟨g, hg, hcontains⟩ := h.released a ha.1
      rw [hsplit, List.mem_append, List.mem_cons] at hg
      have hkeep : ∀ g ∈ l₁ ++ l₂, g ∈ free := by
        intro g hg
        rcases hfree with ⟨-, rfl⟩ | ⟨-, rfl⟩
        · simp only [List.mem_append, List.mem_cons] at hg ⊢
          tauto
        · exact hg
      rcases hg with hg | rfl | hg
      · exact ⟨g, hkeep g (by simp [hg]), hcontains⟩
      · have hrange := hffits.contains_iff.mp hcontains
        rcases hfree with ⟨hlt, rfl⟩ | ⟨heq, -⟩
        · exact ⟨g.drop n, by simp, (hffits.drop_contains hn).mpr (by omega)⟩
        · omega
      · exact ⟨g, hkeep g (by simp [hg]), hcontains⟩

/-- The free segments after the bytes `[b, b + n)` have joined them: the old
    ones, one of them perhaps extended over these bytes, or a new one. -/
theorem HeapInv.addFree {s : HeapSys} (h : s.HeapInv) {e : MemSegment} {n : ℕ} (hfits : e.Fits)
    (hn : n ≤ e.Size) (hfree : ∀ f ∈ s.mem.FreeMemSegs, e.Disj f) {free : List MemSegment}
    (hadd : RevMem.mergeFree e.BaseAddr n s.mem.FreeMemSegs = some free ∨
      free = s.mem.FreeMemSegs ++ [MemSegment.new e.BaseAddr n false]) :
    free.Pairwise MemSegment.Disj ∧ (∀ f ∈ free, f.Fits) ∧
      ∀ a, (∃ f ∈ free, f.contains a = true) ↔
        (∃ f ∈ s.mem.FreeMemSegs, f.contains a = true) ∨ e.BaseAddr ≤ a ∧ a < e.BaseAddr + n := by
  have hin : ∀ a, e.BaseAddr ≤ a ∧ a < e.BaseAddr + n → e.contains a = true := fun a ha =>
    hfits.contains_iff.mpr (by omega)
  rcases hadd with hmerge | rfl
  · obtain ⟨l₁, f, l₂, hsplit, hprev, rfl⟩ := RevMem.mergeFree_spec hmerge
    have hfmem : f ∈ s.mem.FreeMemSegs := by simp [hsplit]
    have hffits := h.free_fits f hfmem
    have hlt := hfits.1
    have hends : n = 0 ∨ f.BaseAddr + f.Size = e.BaseAddr := by
      by_cases hzero : n = 0
      · exact .inl hzero
      · right
        have hrange := hffits.contains_iff.mp hprev
        have hflt := hffits.1
        have hnot : ¬f.contains e.BaseAddr = true := fun hc =>
          hfree f hfmem e.BaseAddr ⟨hin _ (by omega), hc⟩
        rw [hffits.contains_iff] at hnot
        unfold W64 at *
        omega
    have hsize : (f.Size + n) % W64 = f.Size + n := Nat.mod_eq_of_lt (by have := hffits.1; omega)
    have hnewfits : (f.setSize ((f.Size + n) % W64)).Fits := by
      refine (MemSegment.setSize_sized _ _).fits ?_
      have hflt := hffits.1
      simp only [MemSegment.setSize, hsize]
      omega
    have hnew : ∀ a, (f.setSize ((f.Size + n) % W64)).contains a = true ↔
        f.contains a = true ∨ e.BaseAddr ≤ a ∧ a < e.BaseAddr + n := by
      intro a
      rw [hnewfits.contains_iff, hffits.contains_iff]
      simp only [MemSegment.setSize, hsize]
      omega
    have hgrow : ∀ x ∈ s.mem.FreeMemSegs, x.Disj f → x.Disj (f.setSize ((f.Size + n) % W64)) := by
      intro x hx hd a ha
      rcases (hnew a).mp ha.2 with hc | hc
      · exact hd a ⟨ha.1, hc⟩
      · exact hfree x hx a ⟨hin a hc, ha.1⟩
    have hfreedisj := h.free
    rw [hsplit] at hfreedisj
    refine ⟨pairwise_replace hfreedisj (fun x hx => hgrow x (by simp [hsplit, hx]))
      (fun x hx hd => (hgrow x (by simp [hsplit, hx]) hd.symm).symm), ?_, ?_⟩
    · intro g hg
      rcases List.mem_append.mp hg with hg | hg
      · exact h.free_fits g (by simp [hsplit, hg])
      · rcases List.mem_cons.mp hg with rfl | hg
        · exact hnewfits
        · exact h.free_fits g (by simp [hsplit, hg])
    · intro a
      simp only [hsplit, List.mem_append, List.mem_cons]
      constructor
      · rintro ⟨g, hg | rfl | hg, hc⟩
        · exact .inl ⟨g, .inl hg, hc⟩
        · exact ((hnew a).mp hc).imp (fun hc => ⟨f, .inr (.inl rfl), hc⟩) id
        · exact .inl ⟨g, .inr (.inr hg), hc⟩
      · rintro (⟨g, hg | rfl | hg, hc⟩ | hc)
        · exact ⟨g, .inl hg, hc⟩
        · exact ⟨_, .inr (.inl rfl), (hnew a).mpr (.inl hc)⟩
        · exact ⟨g, .inr (.inr hg), hc⟩
        · exact ⟨_, .inr (.inl rfl), (hnew a).mpr (.inr hc)⟩
  · have hnewfits := hfits.front hn false
    refine ⟨?_, ?_, ?_⟩
    · rw [List.pairwise_append]
      refine ⟨h.free, List.pairwise_singleton _ _, ?_⟩
      intro x hx y hy a ha
      rw [List.mem_singleton.mp hy, hnewfits.contains_iff] at ha
      exact hfree x hx a ⟨hin a ha.2, ha.1⟩
    · intro g hg
      rcases List.mem_append.mp hg with hg | hg
      · exact h.free_fits g hg
      · rw [List.mem_singleton.mp hg]
        exact hnewfits
    · intro a
      simp only [List.mem_append, List.mem_singleton]
      constructor
      · rintro ⟨g, hg | rfl, hc⟩
        · exact .inl ⟨g, hg, hc⟩
        · exact .inr (hnewfits.contains_iff.mp hc)
      · rintro (⟨g, hg, hc⟩ | hc)
        · exact ⟨g, .inl hg, hc⟩
        · exact ⟨_, .inr rfl, hnewfits.contains_iff.mpr hc⟩

theorem HeapInv.dealloc {s s' : HeapSys} (h : s.HeapInv) {b n : ℕ}
    (hok : s.Guarded (.DeallocMem b n)) (hstep : s.step (.DeallocMem b n) = some s') :
    s'.HeapInv := by
  simp only [step, RevMem.DeallocMem] at hstep
  cases hrel : RevMem.releaseSeg b n s.mem.MemSegs with
  | none => simp [hrel] at hstep
  | some r =>
    cases r with
    | none =>
      simp only [hrel, Option.map_some, Option.some.injEq] at hstep
      have hsame : s' = s := by
        rw [← hstep, if_neg (by decide)]
      rw [hsame]
      exact h
    | some segs =>
      obtain ⟨l₁, e, l₂, hsplit, hfirst, rfl, hsegs⟩ := RevMem.releaseSeg_spec hrel
      obtain ⟨hlt, hothers⟩ := hok l₁ e l₂ hsplit hfirst rfl
      have hemem : e ∈ s.mem.MemSegs := by simp [hsplit]
      have hefits : e.Fits := (h.mem_sized e hemem).fits hlt
      have hn : n ≤ e.Size := by rcases hsegs with ⟨hlt, -⟩ | ⟨heq, -⟩ <;> omega
      have hdropsub : ∀ a, (e.drop n).contains a = true → e.contains a = true := by
        intro a ha
        have hrange := (hefits.drop_contains hn).mp ha
        exact hefits.contains_iff.mpr (by omega)
      obtain ⟨free, hs', hadd⟩ : ∃ free, s' = ⟨{ s.mem with MemSegs := segs, FreeMemSegs := free },
          fun a => s.released a || (e.BaseAddr ≤ a && a < e.BaseAddr + n)⟩ ∧
          (RevMem.mergeFree e.BaseAddr n s.mem.FreeMemSegs = some free ∨
            free = s.mem.FreeMemSegs ++ [MemSegment.new e.BaseAddr n false]) := by
        cases hmerge : RevMem.mergeFree e.BaseAddr n s.mem.FreeMemSegs with
        | some free =>
          simp only [hrel, hmerge, Option.map_some, Option.some.injEq, if_true] at hstep
          exact ⟨free, hstep.symm, .inl rfl⟩
        | none =>
          simp only [hrel, hmerge, Option.map_some, Option.some.injEq, if_true] at hstep
          exact ⟨_, hstep.symm, .inr rfl⟩
      obtain ⟨hpair, hfits, hbytes⟩ := h.addFree hefits hn (h.mem_free e hemem) hadd
      have hmem : ∀ x ∈ segs, x ∈ l₁ ++ l₂ ∨ x = e.drop n := by
        intro x hx
        rcases hsegs with ⟨-, rfl⟩ | ⟨-, rfl⟩
        · simp only [List.mem_append, List.mem_cons] at hx ⊢
          tauto
        · exact .inl hx
      have hold : ∀ x ∈ l₁ ++ l₂, x ∈ s.mem.MemSegs := by
        intro x hx
        rw [hsplit]
        rcases List.mem_append.mp hx with hx | hx <;> simp [hx]
      subst hs'
      constructor
      case handed =>
        have hhanded := h.handed
        rw [hsplit] at hhanded
        rcases hsegs with ⟨-, rfl⟩ | ⟨-, rfl⟩
        · refine pairwise_replace hhanded ?_ ?_
          · exact fun x _ hd hx he => ((hd hx he).symm.mono hdropsub).symm
          · exact fun x _ hd he hx => (hd he hx).mono hdropsub
        · exact hhanded.sublist (List.Sublist.append_left (List.sublist_cons_self e l₂) l₁)
      case mem_free =>
        intro x hx g hg a ha
        rcases (hbytes a).mp ⟨g, hg, ha.2⟩ with ⟨f, hf, hc⟩ | hc
        · rcases hmem x hx with hx | rfl
          · exact h.mem_free x (hold x hx) f hf a ⟨ha.1, hc⟩
          · exact h.mem_free e hemem f hf a ⟨hdropsub a ha.1, hc⟩
        · rcases hmem x hx with hx | rfl
          · exact hothers x hx a ⟨ha.1, hefits.contains_iff.mpr (by omega)⟩
          · have hrange := (hefits.drop_contains hn).mp ha.1
            omega
      case free => exact hpair
      case mem_sized =>
        intro x hx
        rcases hmem x hx with hx | rfl
        · exact h.mem_sized x (hold x hx)
        · exact MemSegment.drop_sized e n
      case free_fits => exact hfits
      case released =>
        intro a ha
        simp only [Bool.or_eq_true, Bool.and_eq_true, decide_eq_true_eq] at ha
        exact (hbytes a).mpr (ha.imp (h.released a) id)

/-- The allocator after `InitHeap`. -/
theorem HeapInv.init {m m₀ : RevMem} {E : ℕ} (hfree : m.FreeMemSegs = [])
    (hsegs : ∀ x ∈ m.MemSegs, x.Sized ∧ x.alloced = false)
    (hregion : E + 1 + m.maxHeapSize < W64)
    (hdisj : ∀ x ∈ m.MemSegs, ∀ a, x.contains a = true →
      ¬(E + 1 ≤ a ∧ a < E + 1 + m.maxHeapSize))
    (hinit : m.InitHeap E = some m₀) : HeapInv ⟨m₀, fun _ => false⟩ := by
  unfold RevMem.InitHeap at hinit
  split at hinit
  · simp at hinit
  · simp only [Option.some.injEq] at hinit
    subst hinit
    have hstart : (E + 1) % W64 = E + 1 := Nat.mod_eq_of_lt (by omega)
    have hheap : (MemSegment.new (E + 1) m.maxHeapSize false).Fits :=
      (MemSegment.new_sized _ _ _).fits hregion
    simp only [hfree, hstart, List.nil_append]
    constructor
    case handed =>
      refine List.Pairwise.imp_of_mem ?_ (List.pairwise_of_forall fun _ _ => trivial)
      intro x y hx _ _ halloc
      rw [(hsegs x hx).2] at halloc
      simp at halloc
    case mem_free =>
      intro x hx f hf a ha
      rw [List.mem_singleton.mp hf, hheap.contains_iff] at ha
      exact hdisj x hx a ha.1 ha.2
    case free => exact List.pairwise_singleton _ _
    case mem_sized => exact fun x hx => (hsegs x hx).1
    case free_fits =>
      intro f hf
      rw [List.mem_singleton.mp hf]
      exact hheap
    case released => simp

/-- Every run of `AllocMem` and `DeallocMem` calls from `InitHeap` on that are
    all `Guarded` keeps the allocator invariant. -/
theorem heapOk_of_run {m m₀ : RevMem} {E : ℕ} (hfree : m.FreeMemSegs = [])
    (hsegs : ∀ x ∈ m.MemSegs, x.Sized ∧ x.alloced = false)
    (hregion : E + 1 + m.maxHeapSize < W64)
    (hdisj : ∀ x ∈ m.MemSegs, ∀ a, x.contains a = true →
      ¬(E + 1 ≤ a ∧ a < E + 1 + m.maxHeapSize))
    (hinit : m.InitHeap E = some m₀) {tr : List (HeapSys × HeapCall)} {s : HeapSys}
    (hrun : Run step ⟨m₀, fun _ => false⟩ tr s) (hok : ∀ p ∈ tr, p.1.Guarded p.2) :
    s.HeapOk ∧ ∀ p ∈ tr, p.1.HeapOk := by
  obtain ⟨hlast, hall⟩ := hrun.invariant HeapInv Guarded
    (HeapInv.init hfree hsegs hregion hdisj hinit)
    (fun s c s' hI hok hstep => by
      cases c with
      | AllocMem n => exact hI.alloc hok hstep
      | DeallocMem b n => exact hI.dealloc hok hstep)
    hok
  exact ⟨hlast.heapOk, fun p hp => (hall p hp).heapOk⟩

/-- A memory of 400000 bytes with 1000 bytes of static data. -/
def smallMem : RevMem :=
  { memSize := 400000, maxHeapSize := 100000, ThreadMemSize := RevMem.STACK_SIZE,
    NextThreadMemAddr := 398976, MemSegs := [MemSegment.new 398976 1024 false,
      MemSegment.new 1 1000 false] }

theorem smallMem_disj :
    ∀ x ∈ smallMem.MemSegs, ∀ a, x.contains a = true → ¬(1001 ≤ a ∧ a < 1001 + 100000) := by
  intro x hx a ha
  simp only [smallMem, List.mem_cons, List.not_mem_nil, or_false] at hx
  rcases hx with rfl | rfl
  · have hfits := (MemSegment.new_sized 398976 1024 false).fits (by decide)
    have hrange := hfits.contains_iff.mp ha
    simp only [MemSegment.new] at hrange
    omega
  · have hfits := (MemSegment.new_sized 1 1000 false).fits (by decide)
    have hrange := hfits.contains_iff.mp ha
    simp only [MemSegment.new] at hrange
    omega

/-- The second of two allocations of 60000 bytes does not fit in what is left
    of the free heap and is placed at `heapend`, which the first one has not
    moved: both calls return the same address. -/
theorem alloc_overlaps :
    ∃ m₀ tr s, smallMem.InitHeap 1000 = some m₀ ∧ Run step ⟨m₀, fun _ => false⟩ tr s ∧
      (∀ x ∈ smallMem.MemSegs, ∀ a, x.contains a = true → ¬(1001 ≤ a ∧ a < 1001 + 100000)) ∧
      ¬s.HeapOk := by
  refine ⟨_, _, _, rfl, run_of_exec [.AllocMem 60000, .AllocMem 60000] rfl, smallMem_disj, ?_⟩
  · intro hok
    have hpair : [MemSegment.new 1001 60000 true, MemSegment.new 1001 60000 true].Pairwise
        MemSegment.Disj := hok.handed
    exact (List.pairwise_cons.mp hpair).1 (MemSegment.new 1001 60000 true) (by simp) 1001 (by decide)

theorem smallMem_init : (smallMem.InitHeap 1000).isSome = true := rfl

/-- The same memory after `InitHeap`. -/
def smallHeap : HeapSys := ⟨(smallMem.InitHeap 1000).get smallMem_init, fun _ => false⟩

/-- Two allocations that use the heap up, a release in two parts of the first
    one, which are merged, and an allocation from them. -/
def heapCalls : List HeapCall :=
  [.AllocMem 60000, .AllocMem 40000, .DeallocMem 1001 20000, .DeallocMem 21001 40000,
    .AllocMem 50000]

theorem heapCalls_heapOk :
    ∃ m₀ tr s, smallMem.InitHeap 1000 = some m₀ ∧ Run step ⟨m₀, fun _ => false⟩ tr s ∧
      s.mem.FreeMemSegs.map (·.Size) = [10000] ∧ s.HeapOk := by
  have hrun : Run step smallHeap (trace step smallHeap heapCalls) _ := run_of_exec heapCalls rfl
  have hall : (trace step smallHeap heapCalls).all (fun p => p.1.guardedCheck p.2) = true := by
    decide
  refine ⟨_, _, _, rfl, hrun, by decide, (heapOk_of_run (m := smallMem) (E := 1000) rfl ?_
    (by decide) ?_ rfl hrun fun p hp => guarded_of_check (List.all_eq_true.mp hall p hp)).1⟩
  · unfold MemSegment.Sized
    decide
  · exact smallMem_disj

end HeapSys

end RevCPU
