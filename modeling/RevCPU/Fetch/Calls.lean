import RevCPU.Fetch.Sound

namespace RevCPU

/-- A word at an address that is not aligned is two halves of words that are. -/
theorem memWord_halves (mem : ℕ → BitVec 8) (a : ℕ) :
    memWord mem a >>> 16 ||| memWord mem (a + 4) <<< 16 = memWord mem (a + 2) := by
  have hjoin : ∀ x y z w : BitVec 16,
      (x ++ y : BitVec 32) >>> 16 ||| (z ++ w : BitVec 32) <<< 16 = (w ++ x : BitVec 32) := by
    intro x y z w
    ext i hi
    simp only [BitVec.getElem_or, BitVec.getElem_ushiftRight, BitVec.getElem_shiftLeft,
      BitVec.getLsbD_append, BitVec.getElem_append]
    by_cases h16 : i < 16
    · simp [h16, BitVec.getLsbD_eq_getElem]
    · have hzero : x.getLsbD i = false := BitVec.getLsbD_of_ge x i (by omega)
      have hlow : i - 16 < 16 := by omega
      simp [h16, hzero, hlow]
  exact hjoin _ _ _ _

namespace Stream

theorem put_baseAddr (st : Stream) (buf slot : ℕ) (w : BitVec 32) :
    (st.put buf slot w).baseAddr = st.baseAddr := by
  unfold put
  split <;> rfl

theorem contains_congr {st st' : Stream} (h : st'.baseAddr = st.baseAddr) (depth Addr : ℕ) :
    st'.contains depth Addr = st.contains depth Addr := by
  unfold contains lastAddr
  rw [h]

/-- Where an address is in a stream that has it. -/
theorem off_of_contains {st : Stream} {depth Addr : ℕ} (hbase : st.baseAddr % 4 = 0)
    (hc : st.contains depth Addr = true) :
    st.off Addr < depth ∧ st.baseAddr + st.off Addr * 4 = Addr - Addr % 4 ∧
      st.off Addr * 4 % 2 ^ 32 = st.off Addr * 4 ∧ Addr < W64 ∧
      (Addr % 4 = 0 → 4 ≤ st.lastAddr depth - Addr) := by
  simp only [contains, Bool.and_eq_true, decide_eq_true_eq] at hc
  obtain ⟨hle, hlt⟩ := hc
  have hlast : st.lastAddr depth ≤ st.baseAddr + depth * 4 % 2 ^ 32 := Nat.mod_le _ _
  have hW : st.lastAddr depth < W64 := Nat.mod_lt _ (by decide)
  have haligned : st.lastAddr depth % 4 = 0 := by
    simp only [lastAddr, W64]
    omega
  have hoff : st.off Addr = (Addr - st.baseAddr) / 4 := by
    unfold off
    exact Nat.mod_eq_of_lt (by omega)
  refine ⟨by omega, by omega, Nat.mod_eq_of_lt (by omega), by omega, ?_⟩
  intro hstart
  omega

/-- The test of whether a word starts at the address. -/
theorem starts_iff {st : Stream} {depth Addr : ℕ} (hbase : st.baseAddr % 4 = 0)
    (hc : st.contains depth Addr = true) :
    Addr = (st.baseAddr + st.off Addr * 4 % 2 ^ 32) % W64 ↔ Addr % 4 = 0 := by
  obtain ⟨-, hoff, hmod, hlt, -⟩ := off_of_contains hbase hc
  rw [hmod, hoff, Nat.mod_eq_of_lt (by omega)]
  omega

end Stream

namespace RevPrefetcher

variable {mem : ℕ → BitVec 8} {s s' : RevPrefetcher}

/-- The first stream that has the address. -/
def lookup (s : RevPrefetcher) (Addr : ℕ) : Option Stream :=
  s.streams.find? fun st => st.contains s.depth Addr

/-- The first stream that has the address has its word. -/
def Has (s : RevPrefetcher) (Addr : ℕ) : Prop :=
  ∃ st, s.lookup Addr = some st ∧ st.word Addr ≠ REVPREF_INIT_ADDR

/-- The addresses at which the words of an instruction are looked up. -/
def halves (Addr : ℕ) : List ℕ :=
  if Addr % 4 = 0 then [Addr] else [Addr, (Addr + 2) % W64]

theorem mem_halves_self (Addr : ℕ) : Addr ∈ halves Addr := by
  unfold halves
  split <;> simp

/-- All words of the instruction at the address are there. -/
def Ready (s : RevPrefetcher) (Addr : ℕ) : Prop := ∀ a ∈ halves Addr, s.Has a

theorem Sound.lookup_spec {ex : ℕ → ℕ → Prop} (h : s.Sound mem ex) {Addr : ℕ} {st : Stream}
    (hst : s.lookup Addr = some st) :
    st ∈ s.streams ∧ st.contains s.depth Addr = true ∧ st.baseAddr % 4 = 0 := by
  unfold lookup at hst
  have hmem := List.mem_of_find?_eq_some hst
  have hc := List.find?_some hst
  exact ⟨hmem, hc, (h.shape st hmem).1⟩

/-- A word that is not the sentinel is the word of the memory. -/
theorem Sound.word_eq {ex : ℕ → ℕ → Prop} (h : s.Sound mem ex) {Addr : ℕ} {st : Stream}
    (hst : s.lookup Addr = some st) (hne : st.word Addr ≠ REVPREF_INIT_ADDR) :
    st.word Addr = memWord mem (Addr - Addr % 4) := by
  obtain ⟨hmem, hc, hbase⟩ := h.lookup_spec hst
  obtain ⟨hoff, haddr, -, -, -⟩ := Stream.off_of_contains hbase hc
  have hlen := (h.shape st hmem).2.2
  have hget : st.words[st.off Addr]? = some (st.word Addr) := by
    rw [Stream.word, List.getD_eq_getElem?_getD, List.getElem?_eq_getElem (by omega)]
    rfl
  rcases h.words st hmem _ _ hget with hinit | hword
  · exact absurd hinit hne
  · rw [hword, haddr]

/-- The loop of `FetchUpper` at the start of a word is the lookup. -/
theorem findUpper_eq {depth Addr : ℕ} (haligned : Addr % 4 = 0) (sts : List Stream)
    (hbase : ∀ st ∈ sts, st.baseAddr % 4 = 0) :
    findUpper depth Addr sts = match sts.find? fun st => st.contains depth Addr with
      | none => .miss
      | some st => if st.word Addr = REVPREF_INIT_ADDR then .stall else .found (st.word Addr <<< 16) := by
  induction sts with
  | nil => rfl
  | cons st sts ih =>
    by_cases hc : st.contains depth Addr = true
    · have hst := hbase st (by simp)
      have hoff := (Stream.off_of_contains hst hc).1
      have hnot : ¬st.off Addr > depth - 1 := by omega
      have hstarts := (Stream.starts_iff hst hc).mpr haligned
      simp only [findUpper, hc, if_true, hnot, if_false, if_pos hstarts, List.find?_cons_of_pos]
    · rw [List.find?_cons_of_neg (by simpa using hc)]
      simp only [findUpper, hc]
      exact ih fun st' hst' => hbase st' (by simp [hst'])

theorem Sound.FetchUpper_eq (h : s.Sound mem Whole) {Addr : ℕ} (haligned : Addr % 4 = 0)
    (hart buf : ℕ) :
    s.FetchUpper mem hart buf Addr = match s.lookup Addr with
      | none => (s.Fill mem hart buf Addr).map fun s => (true, none, s)
      | some st => if st.word Addr = REVPREF_INIT_ADDR then some (true, none, s)
          else some (true, some (st.word Addr <<< 16), s) := by
  unfold FetchUpper lookup
  rw [findUpper_eq haligned _ fun st hst => (h.shape st hst).1]
  cases s.streams.find? fun st => st.contains s.depth Addr with
  | none => rfl
  | some st =>
    by_cases hinit : st.word Addr = REVPREF_INIT_ADDR
    · simp [hinit]
    · simp [hinit]

theorem upper_aligned {Addr : ℕ} (heven : Addr % 2 = 0) (hodd : Addr % 4 ≠ 0) :
    (Addr + 2) % W64 % 4 = 0 := by
  simp only [W64]
  omega

theorem and_three (Addr : ℕ) : Addr &&& 3 = Addr % 4 :=
  Nat.and_two_pow_sub_one_eq_mod Addr 2

/-- Why `IsAvail` returns false without a new stream. -/
def Stalls (s : RevPrefetcher) (Addr : ℕ) : Prop :=
  s.newestOutstanding = true ∨
    ∃ a ∈ halves Addr, ∃ st, s.lookup a = some st ∧ st.word a = REVPREF_INIT_ADDR

/-- `IsAvail` on a sound state. -/
theorem Sound.IsAvail_cases (h : s.Sound mem Whole) {Addr : ℕ} (heven : Addr % 2 = 0)
    {hart buf : ℕ} {avail : Bool} (hs : s.IsAvail mem hart buf Addr = some (avail, s')) :
    (avail = true ∧ s' = s ∧ s.Ready Addr) ∨
    (avail = false ∧ s' = s ∧ s.Stalls Addr) ∨
    (avail = false ∧ ∃ a ∈ halves Addr, s.lookup a = none ∧ s.Fill mem hart buf a = some s') := by
  unfold IsAvail at hs
  change (match s.lookup Addr with | none => _ | some st => _) = _ at hs
  have hself := mem_halves_self Addr
  cases hlook : s.lookup Addr with
  | none =>
    rw [hlook] at hs
    obtain ⟨s₁, hfill, heq⟩ := Option.map_eq_some_iff.mp hs
    cases heq
    exact Or.inr (Or.inr ⟨rfl, Addr, hself, hlook, hfill⟩)
  | some st =>
    obtain ⟨hmem, hc, hbase⟩ := h.lookup_spec hlook
    obtain ⟨hoff, -, -, -, hroom⟩ := Stream.off_of_contains hbase hc
    have hnot : ¬st.off Addr > s.depth - 1 := by omega
    simp only [hlook, hnot, if_false] at hs
    by_cases hinit : st.word Addr = REVPREF_INIT_ADDR
    · rw [if_pos hinit] at hs
      cases hs
      exact Or.inr (Or.inl ⟨rfl, rfl, Or.inr ⟨Addr, hself, st, hlook, hinit⟩⟩)
    · rw [if_neg hinit, and_three] at hs
      have hhas : s.Has Addr := ⟨st, hlook, hinit⟩
      by_cases haligned : Addr % 4 = 0
      · have hcond : ¬(st.lastAddr s.depth - Addr < 4 ∨ Addr % 4 ≠ 0) := by
          have := hroom haligned
          omega
        rw [if_neg hcond] at hs
        cases hs
        have hready : s.Ready Addr := by
          intro a ha
          simp only [halves, haligned, if_true, List.mem_singleton] at ha
          rw [ha]
          exact hhas
        cases hnew : s.newestOutstanding with
        | true => exact Or.inr (Or.inl ⟨rfl, rfl, Or.inl hnew⟩)
        | false => exact Or.inl ⟨rfl, rfl, hready⟩
      · have hupper : (Addr + 2) % W64 ∈ halves Addr := by simp [halves, haligned]
        rw [if_pos (Or.inr haligned), h.FetchUpper_eq (upper_aligned heven haligned)] at hs
        cases hlook' : s.lookup ((Addr + 2) % W64) with
        | none =>
          simp only [hlook'] at hs
          cases hfill : s.Fill mem hart buf ((Addr + 2) % W64) with
          | none => simp [hfill] at hs
          | some s₁ =>
            simp only [hfill, Option.map_some, Option.isSome_none, Bool.and_false,
              Bool.false_eq_true, if_false, Option.some.injEq, Prod.mk.injEq] at hs
            obtain ⟨rfl, rfl⟩ := hs
            exact Or.inr (Or.inr ⟨rfl, _, hupper, hlook', hfill⟩)
        | some st' =>
          simp only [hlook'] at hs
          by_cases hinit' : st'.word ((Addr + 2) % W64) = REVPREF_INIT_ADDR
          · simp only [hinit', if_true, Option.isSome_none, Bool.and_false, Bool.false_eq_true,
              if_false, Option.some.injEq, Prod.mk.injEq] at hs
            obtain ⟨rfl, rfl⟩ := hs
            exact Or.inr (Or.inl ⟨rfl, rfl, Or.inr ⟨_, hupper, st', hlook', hinit'⟩⟩)
          · simp only [hinit', if_false, Option.isSome_some, Bool.and_self, if_true,
              Option.some.injEq, Prod.mk.injEq] at hs
            obtain ⟨rfl, rfl⟩ := hs
            have hready : s.Ready Addr := by
              intro a ha
              simp only [halves, haligned, if_false, List.mem_cons, List.not_mem_nil,
                or_false] at ha
              rcases ha with rfl | rfl
              · exact hhas
              · exact ⟨st', hlook', hinit'⟩
            cases hnew : s.newestOutstanding with
            | true => exact Or.inr (Or.inl ⟨rfl, rfl, Or.inl hnew⟩)
            | false => exact Or.inl ⟨rfl, rfl, hready⟩

/-- `InstFetch` on a sound state. -/
theorem Sound.InstFetch_cases (h : s.Sound mem Whole) {Addr : ℕ} (heven : Addr % 2 = 0)
    {hart buf : ℕ} {res : FetchResult} (hs : s.InstFetch mem hart buf Addr = some (res, s')) :
    (s.Ready Addr ∧ res = ⟨true, true, memWord mem Addr⟩ ∧ ∃ i st, s.lookup Addr = some st ∧
      s.streams[i]? = some st ∧ s.advance mem hart buf Addr i st = some s') ∨
    (res.Fetched = false ∧ s' = s ∧ ¬s.Ready Addr) ∨
    (res.Fetched = false ∧ ∃ a ∈ halves Addr, s.lookup a = none ∧
      s.Fill mem hart buf a = some s') := by
  have hself := mem_halves_self Addr
  have hidx : s.streams[s.streams.findIdx fun st => st.contains s.depth Addr]? = s.lookup Addr :=
    List.find?_eq_getElem?_findIdx.symm
  unfold InstFetch at hs
  dsimp only at hs
  cases hlook : s.lookup Addr with
  | none =>
    rw [hidx, hlook] at hs
    obtain ⟨s₁, hfill, heq⟩ := Option.map_eq_some_iff.mp hs
    cases heq
    exact Or.inr (Or.inr ⟨rfl, Addr, hself, hlook, hfill⟩)
  | some st =>
    obtain ⟨hmem, hc, hbase⟩ := h.lookup_spec hlook
    obtain ⟨hoff, -, -, hlt, -⟩ := Stream.off_of_contains hbase hc
    have hnot : ¬st.off Addr > s.depth - 1 := by omega
    simp only [hidx, hlook, hnot, if_false, Stream.starts_iff hbase hc] at hs
    rw [hlook] at hidx
    by_cases hinit : st.word Addr = REVPREF_INIT_ADDR
    · rw [if_pos hinit] at hs
      cases hs
      refine Or.inr (Or.inl ⟨rfl, rfl, fun hready => ?_⟩)
      obtain ⟨st₁, hst₁, hne⟩ := hready Addr hself
      rw [hlook, Option.some.injEq] at hst₁
      rw [← hst₁] at hne
      exact hne hinit
    · rw [if_neg hinit] at hs
      have hword := h.word_eq hlook hinit
      by_cases haligned : Addr % 4 = 0
      · rw [if_pos haligned] at hs
        obtain ⟨s₁, hadv, heq⟩ := Option.map_eq_some_iff.mp hs
        cases heq
        refine Or.inl ⟨?_, ?_, _, st, rfl, hidx, hadv⟩
        · intro a ha
          simp only [halves, haligned, if_true, List.mem_singleton] at ha
          rw [ha]
          exact ⟨st, hlook, hinit⟩
        · rw [hword, haligned, Nat.sub_zero]
      · have haligned' := upper_aligned heven haligned
        have hupper : (Addr + 2) % W64 ∈ halves Addr := by simp [halves, haligned]
        rw [if_neg haligned, h.FetchUpper_eq haligned'] at hs
        cases hlook' : s.lookup ((Addr + 2) % W64) with
        | none =>
          simp only [hlook'] at hs
          cases hfill : s.Fill mem hart buf ((Addr + 2) % W64) with
          | none => simp [hfill] at hs
          | some s₁ =>
            simp only [hfill, Option.map_some, Option.some.injEq, Prod.mk.injEq] at hs
            obtain ⟨rfl, rfl⟩ := hs
            exact Or.inr (Or.inr ⟨rfl, _, hupper, hlook', hfill⟩)
        | some st' =>
          simp only [hlook'] at hs
          by_cases hinit' : st'.word ((Addr + 2) % W64) = REVPREF_INIT_ADDR
          · simp only [hinit', if_true, Option.some.injEq, Prod.mk.injEq] at hs
            obtain ⟨rfl, rfl⟩ := hs
            refine Or.inr (Or.inl ⟨rfl, rfl, fun hready => ?_⟩)
            obtain ⟨st₁, hst₁, hne⟩ := hready _ hupper
            rw [hlook', Option.some.injEq] at hst₁
            rw [← hst₁] at hne
            exact hne hinit'
          · simp only [hinit', if_false] at hs
            obtain ⟨s₁, hadv, heq⟩ := Option.map_eq_some_iff.mp hs
            cases heq
            refine Or.inl ⟨?_, ?_, _, st, rfl, hidx, hadv⟩
            · intro a ha
              simp only [halves, haligned, if_false, List.mem_cons, List.not_mem_nil,
                or_false] at ha
              rcases ha with rfl | rfl
              · exact ⟨st, hlook, hinit⟩
              · exact ⟨st', hlook', hinit'⟩
            · have hword' := h.word_eq hlook' hinit'
              rw [haligned', Nat.sub_zero, memWord_mod] at hword'
              have hhalves := memWord_halves mem (Addr - 2)
              have htwo : Addr - Addr % 4 = Addr - 2 := by omega
              have hfour : Addr - 2 + 4 = Addr + 2 := by omega
              have hback : Addr - 2 + 2 = Addr := by omega
              rw [hfour, hback] at hhalves
              rw [hword, hword', htwo, hhalves]

end RevPrefetcher

end RevCPU
