import RevCPU.Fetch.FetchRun
import RevCPU.Mem.ReadAfterWrite
import RevCPU.Mem.Translation

namespace RevCPU

open Lib

namespace RevMem

/-- The TLB has only valid addresses and agrees with the page table, which has
    only frames below `maxFrames`. -/
structure Walked (m : RevMem) : Prop where
  valid : ∀ e ∈ m.TLB, m.isValidVirtAddr e.1 = true
  tlb : ∀ e ∈ m.TLB, ∃ f, m.pageMap.lookup (e.1 / pageSize) = some f ∧
    e.2 = f * pageSize + e.1 % pageSize
  frame_lt : ∀ p f, m.pageMap.lookup p = some f → f < m.nextPage
  next_le : m.nextPage ≤ maxFrames

/-- A translation that keeps `Walked` and maps at most one page. -/
structure Walk (m m' : RevMem) : Prop where
  walked : m'.Walked
  valid_eq : ∀ v, m'.isValidVirtAddr v = m.isValidVirtAddr v
  next_le : m'.nextPage ≤ m.nextPage + 1

theorem Walk.cache {m m' : RevMem} (h : Walk m m') {v f : ℕ} (hv : m.isValidVirtAddr v = true)
    (hf : m'.pageMap.lookup (v / pageSize) = some f) :
    Walk m (m'.AddToTLB v (f * pageSize + v % pageSize)) := by
  obtain ⟨T, Q, heq, hmem⟩ := AddToTLB_spec m' v (f * pageSize + v % pageSize)
  rw [heq]
  refine ⟨⟨?_, ?_, h.walked.frame_lt, h.walked.next_le⟩, h.valid_eq, h.next_le⟩
  · intro e he
    rcases hmem e he with he | rfl
    · exact h.walked.valid e he
    · exact (h.valid_eq v).trans hv
  · intro e he
    rcases hmem e he with he | rfl
    · exact h.walked.tlb e he
    · exact ⟨f, hf, rfl⟩

theorem Walked.mapNext {m : RevMem} (h : m.Walked) (hroom : m.nextPage < maxFrames) {p : ℕ}
    (hmap : m.pageMap.lookup p = none) : Walk m (m.mapNext p) := by
  have hnext : (m.mapNext p).nextPage = m.nextPage + 1 := by
    refine Nat.mod_eq_of_lt ?_
    unfold maxFrames at hroom
    omega
  refine ⟨⟨h.valid, ?_, ?_, by omega⟩, fun _ => rfl, by omega⟩
  · intro e he
    obtain ⟨f, hf, heq⟩ := h.tlb e he
    refine ⟨f, ?_, heq⟩
    change (m.pageMap ++ [(p, m.nextPage)]).lookup _ = _
    rw [lookup_concat hmap]
    split
    · rename_i hsame
      rw [hsame, hmap] at hf
      cases hf
    · exact hf
  · intro q f hf
    change (m.pageMap ++ [(p, m.nextPage)]).lookup _ = _ at hf
    rw [lookup_concat hmap] at hf
    rw [hnext]
    split at hf
    · cases hf
      omega
    · have := h.frame_lt q f hf
      omega

/-- The translation of an address that is in a segment. -/
theorem Walked.calc_valid {m : RevMem} (h : m.Walked) (hroom : m.nextPage < maxFrames) {v : ℕ}
    (hv : m.isValidVirtAddr v = true) :
    ∃ f m', m.CalcPhysAddr (v / pageSize) v = some (f * pageSize + v % pageSize, m') ∧
      m'.pageMap.lookup (v / pageSize) = some f ∧ f < maxFrames ∧ Walk m m' := by
  have hsame : Walk m m := ⟨h, fun _ => rfl, by omega⟩
  cases htlb : m.TLB.lookup v with
  | some r =>
    obtain ⟨f, hf, heq : r = f * pageSize + v % pageSize⟩ := h.tlb (v, r) (mem_of_lookup htlb)
    have hlt := h.frame_lt _ _ hf
    have hne : r ≠ INVALID_ADDR := by
      simp only [maxFrames, pageSize, INVALID_ADDR, W64] at *
      omega
    refine ⟨f, { m with LRUQueue := v :: m.LRUQueue.erase v }, ?_, hf, by omega, ?_⟩
    · rw [CalcPhysAddr_hit htlb hne, heq]
    · exact ⟨⟨h.valid, h.tlb, h.frame_lt, h.next_le⟩, fun _ => rfl, by dsimp only; omega⟩
  | none =>
    rw [CalcPhysAddr_miss htlb hv]
    cases hmap : m.pageMap.lookup (v / pageSize) with
    | none =>
      have hfound : (m.mapNext (v / pageSize)).pageMap.lookup (v / pageSize) = some m.nextPage := by
        simp only [RevMem.mapNext, lookup_concat hmap, if_true]
      simp only [frameBase_eq hroom]
      refine ⟨m.nextPage, _, rfl, ?_, hroom, (h.mapNext hroom hmap).cache hv hfound⟩
      rw [AddToTLB_pageMap]
      exact hfound
    | some f =>
      have hlt : f < maxFrames := by
        have := h.frame_lt _ _ hmap
        omega
      simp only [frameBase_eq hlt]
      refine ⟨f, _, rfl, ?_, hlt, hsame.cache hv hmap⟩
      rw [AddToTLB_pageMap]
      exact hmap

/-- An address in no segment reaches the segmentation fault. -/
theorem Walked.calc_invalid {m : RevMem} (h : m.Walked) {p v : ℕ}
    (hv : m.isValidVirtAddr v = false) : m.CalcPhysAddr p v = none := by
  have htlb : m.TLB.lookup v = none := by
    by_contra hne
    obtain ⟨r, hr⟩ := Option.ne_none_iff_exists'.mp hne
    have hvalid := h.valid (v, r) (mem_of_lookup hr)
    rw [hv] at hvalid
    cases hvalid
  unfold CalcPhysAddr SearchTLB
  simp [htlb, hv]

/-- The translation of an aligned word, which is in one page. -/
theorem Walked.translate_word {m : RevMem} (h : m.Walked) (hroom : m.nextPage < maxFrames) {v : ℕ}
    (haligned : v % 4 = 0) (hv : m.isValidVirtAddr v = true) :
    ∃ r m', m.translate v 4 = some (r, none, m') ∧ Walk m m' := by
  obtain ⟨f, m', hcalc, hf, hlt, hwalk⟩ := h.calc_valid hroom hv
  refine ⟨f * pageSize + v % pageSize, m', ?_, hwalk⟩
  have hbase : frameBase f = f * pageSize := frameBase_eq hlt
  have hend : (frameBase f + pageSize) % 2 ^ 32 = f * pageSize + pageSize := by
    rw [hbase]
    refine Nat.mod_eq_of_lt ?_
    simp only [maxFrames, pageSize] at *
    omega
  have hsum : (f * pageSize + v % pageSize + 4) % W64 = f * pageSize + v % pageSize + 4 := by
    refine Nat.mod_eq_of_lt ?_
    simp only [maxFrames, pageSize, W64] at *
    omega
  have hnot : ¬f * pageSize + v % pageSize + 4 > f * pageSize + pageSize := by
    simp only [pageSize]
    omega
  simp only [translate, hcalc, pageAt_of_lookup hf, hend, hsum, if_neg hnot]

theorem Walked.translate_invalid {m : RevMem} (h : m.Walked) {v n : ℕ}
    (hv : m.isValidVirtAddr v = false) : m.translate v n = none := by
  simp only [translate, h.calc_invalid hv]

/-- The translations of words that are read one after the other; `none` is a
    segmentation fault. -/
def readWords (m : RevMem) (vs : List ℕ) : Option RevMem :=
  vs.foldlM (fun m v => (m.translate v 4).map fun t => t.2.2) m

/-- Words that are read one after the other fault if and only if one of them is
    in no segment. -/
theorem Walked.readWords_iff {m : RevMem} (vs : List ℕ) (h : m.Walked)
    (hroom : m.nextPage + vs.length ≤ maxFrames) (haligned : ∀ v ∈ vs, v % 4 = 0) :
    (m.readWords vs = none ↔ ∃ v ∈ vs, m.isValidVirtAddr v = false) ∧
    ∀ m', m.readWords vs = some m' →
      m'.Walked ∧ (∀ v, m'.isValidVirtAddr v = m.isValidVirtAddr v) := by
  induction vs generalizing m with
  | nil =>
    refine ⟨by simp [readWords], ?_⟩
    intro m' hm'
    cases hm'
    exact ⟨h, fun _ => rfl⟩
  | cons v vs ih =>
    rw [List.length_cons] at hroom
    unfold readWords
    rw [List.foldlM_cons]
    cases hv : m.isValidVirtAddr v with
    | false =>
      rw [h.translate_invalid hv]
      exact ⟨⟨fun _ => ⟨v, by simp, hv⟩, fun _ => rfl⟩, fun m' hm' => by cases hm'⟩
    | true =>
      obtain ⟨r, m₁, htr, hwalk⟩ := h.translate_word (by omega) (haligned v (by simp)) hv
      have hnext := hwalk.next_le
      obtain ⟨hiff, hkeep⟩ := ih hwalk.walked (by omega) fun v hv => haligned v (by simp [hv])
      rw [htr]
      change (m₁.readWords vs = none ↔ _) ∧ ∀ m', m₁.readWords vs = some m' → _
      constructor
      · rw [hiff]
        simp only [hwalk.valid_eq, List.mem_cons, exists_eq_or_imp, hv, Bool.true_eq_false, false_or]
      · intro m' hm'
        obtain ⟨hw, hvalid⟩ := hkeep m' hm'
        exact ⟨hw, fun v => (hvalid v).trans (hwalk.valid_eq v)⟩

end RevMem

namespace RevPrefetcher

/-- The address from which a call fills a stream, if it does. -/
def fillOf (s : RevPrefetcher) : FetchEvent → Option ℕ
  | .IsAvail _ _ PC =>
    match s.lookup PC with
    | none => some PC
    | some st =>
      if st.off PC > s.depth - 1 ∨ st.word PC = REVPREF_INIT_ADDR then none
      else if st.lastAddr s.depth - PC < 4 ∨ PC &&& 3 ≠ 0 then
        if findUpper s.depth ((PC + 2) % W64) s.streams = .miss then some ((PC + 2) % W64) else none
      else none
  | .InstFetch _ _ PC =>
    match s.lookup PC with
    | none => some PC
    | some st =>
      if st.off PC > s.depth - 1 ∨ st.word PC = REVPREF_INIT_ADDR then none
      else
        let next := if st.off PC = s.depth - 1 then some ((PC + 2) % W64) else none
        if PC = (st.baseAddr + st.off PC * 4 % 2 ^ 32) % W64 then next
        else
          match findUpper s.depth ((PC + 2) % W64) s.streams with
          | .error => none
          | .stall => none
          | .found _ => next
          | .miss => some ((PC + 2) % W64)
  | .respond _ => none

/-- The words that `Fill` reads. -/
def fillWords (depth Addr : ℕ) : List ℕ :=
  (List.range depth).map fun y => ((Addr &&& 0xFFFFFFFFFFFFFFFC) + y * 4) % W64

theorem fillWords_aligned {depth Addr v : ℕ} (hv : v ∈ fillWords depth Addr) : v % 4 = 0 := by
  obtain ⟨y, -, rfl⟩ := List.mem_map.mp hv
  have haligned := align_mod Addr
  simp only [W64]
  omega

theorem fillWords_length (depth Addr : ℕ) : (fillWords depth Addr).length = depth := by
  simp [fillWords]

/-- A call of the prefetcher ends with the `Fill` that `fillOf` names, and leaves
    the prefetcher alone when there is none. -/
def FillsFrom (mem : ℕ → BitVec 8) (s s' : RevPrefetcher) (a : Option ℕ) : Prop :=
  match a with
  | none => s' = s
  | some a => ∃ (s₀ : RevPrefetcher) (hart buf : ℕ), s₀.depth = s.depth ∧
      s₀.Fill mem hart buf a = some s'

theorem IsAvail_fillOf {mem : ℕ → BitVec 8} {s s' : RevPrefetcher} {hart buf PC : ℕ}
    {avail : Bool} (hs : s.IsAvail mem hart buf PC = some (avail, s')) :
    FillsFrom mem s s' (s.fillOf (.IsAvail hart buf PC)) := by
  unfold IsAvail at hs
  unfold fillOf lookup
  cases hfind : s.streams.find? fun st => st.contains s.depth PC with
  | none =>
    simp only [hfind] at hs ⊢
    obtain ⟨s₁, hfill, heq⟩ := Option.map_eq_some_iff.mp hs
    cases heq
    exact ⟨s, hart, buf, rfl, hfill⟩
  | some st =>
    simp only [hfind] at hs ⊢
    by_cases hoff : st.off PC > s.depth - 1
    · rw [if_pos hoff] at hs
      cases hs
      rw [if_pos (Or.inl hoff)]
      rfl
    · by_cases hinit : st.word PC = REVPREF_INIT_ADDR
      · rw [if_neg hoff, if_pos hinit] at hs
        cases hs
        rw [if_pos (Or.inr hinit)]
        rfl
      · rw [if_neg hoff, if_neg hinit] at hs
        rw [if_neg (not_or.mpr ⟨hoff, hinit⟩)]
        by_cases hcond : st.lastAddr s.depth - PC < 4 ∨ PC &&& 3 ≠ 0
        · rw [if_pos hcond] at hs ⊢
          unfold FetchUpper at hs
          cases hupper : findUpper s.depth ((PC + 2) % W64) s.streams with
          | error =>
            simp only [hupper, Bool.false_and, Bool.false_eq_true, if_false] at hs
            cases hs
            rfl
          | stall =>
            simp only [hupper, Option.isSome_none, Bool.and_false, Bool.false_eq_true,
              if_false] at hs
            cases hs
            rfl
          | found UInst =>
            simp only [hupper, Option.isSome_some, Bool.and_self, if_true] at hs
            cases hs
            rfl
          | miss =>
            simp only [hupper] at hs
            cases hfill : s.Fill mem hart buf ((PC + 2) % W64) with
            | none => simp [hfill] at hs
            | some s₁ =>
              simp only [hfill, Option.map_some, Option.isSome_none, Bool.and_false,
                Bool.false_eq_true, if_false] at hs
              cases hs
              exact ⟨s, hart, buf, rfl, hfill⟩
        · rw [if_neg hcond] at hs ⊢
          cases hs
          rfl

theorem advance_fillOf {mem : ℕ → BitVec 8} {s s' : RevPrefetcher} {hart buf PC i : ℕ} {st : Stream}
    (hs : s.advance mem hart buf PC i st = some s') :
    FillsFrom mem s s' (if st.off PC = s.depth - 1 then some ((PC + 2) % W64) else none) := by
  unfold advance at hs
  split at hs
  · rename_i hlast
    rw [if_pos hlast]
    exact ⟨{ s with streams := s.streams.eraseIdx i }, hart, buf, rfl, hs⟩
  · rename_i hlast
    rw [if_neg hlast]
    cases hs
    rfl

theorem InstFetch_fillOf {mem : ℕ → BitVec 8} {s s' : RevPrefetcher} {hart buf PC : ℕ}
    {res : FetchResult} (hs : s.InstFetch mem hart buf PC = some (res, s')) :
    FillsFrom mem s s' (s.fillOf (.InstFetch hart buf PC)) := by
  unfold InstFetch at hs
  unfold fillOf lookup
  dsimp only at hs
  rw [← List.find?_eq_getElem?_findIdx] at hs
  cases hfind : s.streams.find? fun st => st.contains s.depth PC with
  | none =>
    simp only [hfind] at hs ⊢
    obtain ⟨s₁, hfill, heq⟩ := Option.map_eq_some_iff.mp hs
    cases heq
    exact ⟨s, hart, buf, rfl, hfill⟩
  | some st =>
    simp only [hfind] at hs ⊢
    by_cases hoff : st.off PC > s.depth - 1
    · rw [if_pos hoff] at hs
      cases hs
      rw [if_pos (Or.inl hoff)]
      rfl
    · by_cases hinit : st.word PC = REVPREF_INIT_ADDR
      · rw [if_neg hoff, if_pos hinit] at hs
        cases hs
        rw [if_pos (Or.inr hinit)]
        rfl
      · rw [if_neg hoff, if_neg hinit] at hs
        rw [if_neg (not_or.mpr ⟨hoff, hinit⟩)]
        by_cases hstart : PC = (st.baseAddr + st.off PC * 4 % 2 ^ 32) % W64
        · rw [if_pos hstart] at hs ⊢
          obtain ⟨s₁, hadv, heq⟩ := Option.map_eq_some_iff.mp hs
          cases heq
          exact advance_fillOf hadv
        · rw [if_neg hstart] at hs ⊢
          unfold FetchUpper at hs
          cases hupper : findUpper s.depth ((PC + 2) % W64) s.streams with
          | error =>
            simp only [hupper] at hs
            cases hs
            rfl
          | stall =>
            simp only [hupper] at hs
            cases hs
            rfl
          | found UInst =>
            simp only [hupper] at hs
            obtain ⟨s₁, hadv, heq⟩ := Option.map_eq_some_iff.mp hs
            cases heq
            exact advance_fillOf hadv
          | miss =>
            simp only [hupper] at hs
            cases hfill : s.Fill mem hart buf ((PC + 2) % W64) with
            | none => simp [hfill] at hs
            | some s₁ =>
              simp only [hfill, Option.map_some] at hs
              cases hs
              exact ⟨s, hart, buf, rfl, hfill⟩

end RevPrefetcher

/-- A prefetcher and the memory that translates the addresses of its fills. -/
structure MappedFetch where
  pref : RevPrefetcher
  mem : RevMem

namespace MappedFetch

/-- A call together with the translations of the words that it reads. The bytes
    that come back are those of `bytes`. -/
def step (bytes : ℕ → BitVec 8) (s : MappedFetch) (e : FetchEvent) : Option MappedFetch :=
  match s.pref.fillOf e with
  | none => (s.pref.step bytes e).map fun pref => { s with pref }
  | some a =>
    match s.pref.step bytes e, s.mem.readWords (RevPrefetcher.fillWords s.pref.depth a) with
    | some pref, some mem => some ⟨pref, mem⟩
    | _, _ => none

/-- The call reaches the segmentation fault of `CalcPhysAddr`. -/
def Faults (s : MappedFetch) (e : FetchEvent) : Prop :=
  ∃ a, s.pref.fillOf e = some a ∧
    s.mem.readWords (RevPrefetcher.fillWords s.pref.depth a) = none

/-- The words that the call reads ahead are all in segments. -/
def Ahead (s : MappedFetch) (e : FetchEvent) : Prop :=
  ∀ a, s.pref.fillOf e = some a → ∀ v ∈ RevPrefetcher.fillWords s.pref.depth a,
    s.mem.isValidVirtAddr v = true

/-- There are frames for the pages that the call may touch. -/
def Room (s : MappedFetch) (e : FetchEvent) : Prop :=
  (s.pref.fillOf e).isSome = true → s.mem.nextPage + s.pref.depth ≤ RevMem.maxFrames

theorem step_walked {bytes : ℕ → BitVec 8} {s s' : MappedFetch} {e : FetchEvent}
    (h : s.mem.Walked) (hroom : s.Room e) (hs : step bytes s e = some s') : s'.mem.Walked := by
  unfold step at hs
  cases ha : s.pref.fillOf e with
  | none =>
    simp only [ha] at hs
    obtain ⟨pref, -, rfl⟩ := Option.map_eq_some_iff.mp hs
    exact h
  | some a =>
    simp only [ha] at hs
    split at hs
    · rename_i pref mem _ hmem
      cases hs
      refine ((h.readWords_iff _ ?_ fun v hv => RevPrefetcher.fillWords_aligned hv).2 mem hmem).1
      rw [RevPrefetcher.fillWords_length]
      exact hroom (by rw [ha]; rfl)
    · cases hs

/-- In every state of a run that stays below `maxFrames`, a call faults if and
    only if one of the words that it reads ahead is in no segment. -/
theorem faults_iff {bytes : ℕ → BitVec 8} {depth : ℕ} {ctrl : Bool} {mem : RevMem}
    {tr : List (MappedFetch × FetchEvent)} {s : MappedFetch} (hmem : mem.Walked)
    (hrun : Run (step bytes) ⟨RevPrefetcher.init depth ctrl, mem⟩ tr s)
    (hroom : ∀ p ∈ tr, p.1.Room p.2) (e : FetchEvent) (he : s.Room e) :
    ¬s.Faults e ↔ s.Ahead e := by
  have hinv := hrun.invariant (fun s => s.mem.Walked) Room hmem
    (fun _ _ _ h hok hs => step_walked h hok hs) hroom
  have hwalked := hinv.1
  have hwords : ∀ a, s.pref.fillOf e = some a →
      (s.mem.readWords (RevPrefetcher.fillWords s.pref.depth a) = none ↔
        ∃ v ∈ RevPrefetcher.fillWords s.pref.depth a, s.mem.isValidVirtAddr v = false) := by
    intro a ha
    refine (hwalked.readWords_iff _ ?_ fun v hv => RevPrefetcher.fillWords_aligned hv).1
    rw [RevPrefetcher.fillWords_length]
    exact he (by rw [ha]; rfl)
  constructor
  · intro hnot a ha v hv
    by_contra hinvalid
    exact hnot ⟨a, ha, (hwords a ha).mpr ⟨v, hv, by simpa using hinvalid⟩⟩
  · rintro hahead ⟨a, ha, hnone⟩
    obtain ⟨v, hv, hinvalid⟩ := (hwords a ha).mp hnone
    rw [hahead a ha v hv] at hinvalid
    cases hinvalid

/-- The bytes of the instruction at `PC` are in segments: two, or four when the
    lowest two bits are ones. -/
def Executable (bytes : ℕ → BitVec 8) (mem : RevMem) (PC : ℕ) : Prop :=
  ∀ i < if bytes PC &&& 3 = 3 then 4 else 2, mem.isValidVirtAddr (PC + i) = true

/-- A `nop` in every word. -/
def nopBytes (a : ℕ) : BitVec 8 := if a % 4 = 0 then 0x13 else 0

theorem oneSegment_walked (memSize : ℕ) : (RevMem.oneSegment memSize).Walked := by
  refine ⟨?_, ?_, ?_, Nat.zero_le _⟩
  · intro e he
    cases he
  · intro e he
    cases he
  · intro p f hf
    cases hf

/-- The instruction at 12 is the last one of its segment. With the default depth
    the fill for it reads past the end. -/
theorem last_instruction_faults :
    (RevMem.oneSegment 16).Walked ∧ Executable nopBytes (RevMem.oneSegment 16) 12 ∧
      Faults ⟨RevPrefetcher.init 16 true, RevMem.oneSegment 16⟩ (.IsAvail 0 1 12) := by
  refine ⟨oneSegment_walked 16, ?_, 12, rfl, ?_⟩
  · unfold Executable
    decide +kernel
  · rw [← Option.isNone_iff_eq_none]
    decide +kernel

/-- The calls of a fetch of the words at 8 and 12. -/
def fetchTwo : List FetchEvent := [.IsAvail 0 1 8, .respond 0, .respond 0, .InstFetch 0 2 8]

/-- The fetch at 12 reads the words at 12 and 16 ahead. -/
theorem fetchTwo_ahead :
    ∃ s, exec (step nopBytes) ⟨RevPrefetcher.init 2 true, RevMem.oneSegment 20⟩ fetchTwo = some s ∧
      s.pref.fillOf (.InstFetch 0 2 12) = some 14 ∧ ¬s.Faults (.InstFetch 0 2 12) := by
  have hsome : (exec (step nopBytes) ⟨RevPrefetcher.init 2 true, RevMem.oneSegment 20⟩
      fetchTwo).map (fun s => (s.pref.fillOf (.InstFetch 0 2 12), s.mem.nextPage, s.pref.depth,
        (RevPrefetcher.fillWords 2 14).all s.mem.isValidVirtAddr)) = some (some 14, 1, 2, true) := by
    decide +kernel
  obtain ⟨s, hexec, hs⟩ := Option.map_eq_some_iff.mp hsome
  simp only [Prod.mk.injEq] at hs
  obtain ⟨hfill, hnext, hdepth, hvalid⟩ := hs
  have hroom : (trace (step nopBytes) ⟨RevPrefetcher.init 2 true, RevMem.oneSegment 20⟩
      fetchTwo).all (fun p => p.1.mem.nextPage + p.1.pref.depth ≤ RevMem.maxFrames) = true := by
    decide +kernel
  refine ⟨s, hexec, hfill, (faults_iff (oneSegment_walked 20) (run_of_exec fetchTwo hexec)
    (fun p hp _ => ?_) (.InstFetch 0 2 12) fun _ => ?_).mpr ?_⟩
  · simpa using List.all_eq_true.mp hroom p hp
  · rw [hnext, hdepth]
    decide
  · intro a ha v hv
    rw [hfill, Option.some.injEq] at ha
    rw [hdepth, ← ha] at hv
    exact List.all_eq_true.mp hvalid v hv

end MappedFetch

end RevCPU
