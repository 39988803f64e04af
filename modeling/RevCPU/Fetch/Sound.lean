import Mathlib.Data.List.Nodup
import RevCPU.Fetch.Prefetcher

namespace RevCPU

theorem memHalf_mod (mem : ℕ → BitVec 8) (a : ℕ) : memHalf mem (a % W64) = memHalf mem a := by
  simp only [memHalf, Nat.mod_add_mod, Nat.mod_mod]

theorem memWord_mod (mem : ℕ → BitVec 8) (a : ℕ) : memWord mem (a % W64) = memWord mem a := by
  have hupper : memHalf mem (a % W64 + 2) = memHalf mem (a + 2) := by
    rw [← memHalf_mod, Nat.mod_add_mod, memHalf_mod]
  rw [memWord, memWord, hupper, memHalf_mod]

namespace RevPrefetcher

def entryKey (e : ℕ × MemReq) : ℕ × ℕ := (e.1, e.2.Addr)

def reqKey (req : MemReq) : ℕ × ℕ := (req.LSQHash, req.Addr)

/-- What is true of the streams of a prefetcher over a memory that is not
    modified. A word is the sentinel or the word of the memory, it is filled or
    being read unless it is in `ex`, every read goes to a word of a stream, and
    `LSQueue` has the reads. -/
structure Sound (mem : ℕ → BitVec 8) (ex : ℕ → ℕ → Prop) (s : RevPrefetcher) : Prop where
  bufs : (s.streams.map Stream.buf).Nodup
  shape : ∀ st ∈ s.streams, st.baseAddr % 4 = 0 ∧ st.baseAddr < W64 ∧ st.words.length = s.depth
  words : ∀ st ∈ s.streams, ∀ j w, st.words[j]? = some w →
    w = REVPREF_INIT_ADDR ∨ w = memWord mem (st.baseAddr + j * 4)
  filled : ∀ st ∈ s.streams, ∀ j < s.depth, ¬ex st.buf j →
    st.words[j]? = some (memWord mem (st.baseAddr + j * 4)) ∨
      ∃ r ∈ s.reads, r.buf = st.buf ∧ r.slot = j
  reads : ∀ r ∈ s.reads, ∃ st ∈ s.streams, st.buf = r.buf ∧
    r.req.Addr = (st.baseAddr + r.slot * 4) % W64
  queued : (s.LSQueue.map entryKey).Perm (s.reads.map fun r => reqKey r.req)

/-- No word is left out. -/
def Whole (_ _ : ℕ) : Prop := False

theorem isEntryOf_iff {req : MemReq} {e : ℕ × MemReq} :
    isEntryOf req e = true ↔ entryKey e = reqKey req := by
  simp [isEntryOf, entryKey, reqKey]

theorem any_isEntryOf {req : MemReq} {l : List (ℕ × MemReq)} :
    l.any (isEntryOf req) = true ↔ reqKey req ∈ l.map entryKey := by
  simp [List.any_eq_true, isEntryOf_iff]

theorem map_eraseP_isEntryOf (req : MemReq) (l : List (ℕ × MemReq)) :
    (l.eraseP (isEntryOf req)).map entryKey = (l.map entryKey).erase (reqKey req) := by
  induction l with
  | nil => rfl
  | cons e l ih =>
    by_cases he : entryKey e = reqKey req
    · rw [List.eraseP_cons_of_pos (isEntryOf_iff.mpr he), List.map_cons, he, List.erase_cons_head]
    · rw [List.eraseP_cons_of_neg (by rwa [isEntryOf_iff]), List.map_cons, List.map_cons,
        List.erase_cons_tail (by simpa using he), ih]

/-- Reads split at the one that is answered. -/
theorem eraseIdx_split {α : Type} {l : List α} {k : ℕ} {x : α} (h : l[k]? = some x) :
    ∃ l₁ l₂, l = l₁ ++ x :: l₂ ∧ l.eraseIdx k = l₁ ++ l₂ := by
  obtain ⟨hk, hx⟩ := List.getElem?_eq_some_iff.mp h
  refine ⟨l.take k, l.drop (k + 1), ?_, List.eraseIdx_eq_take_drop_succ ..⟩
  rw [← hx, ← List.drop_eq_getElem_cons hk, List.take_append_drop]

/-- The entry of an outstanding read is in `LSQueue`. -/
theorem Sound.respond_isSome {mem : ℕ → BitVec 8} {ex : ℕ → ℕ → Prop} {s : RevPrefetcher}
    (h : s.Sound mem ex) {k : ℕ} (hk : k < s.reads.length) : (s.respond mem k).isSome = true := by
  have hr : s.reads[k]? = some s.reads[k] := List.getElem?_eq_getElem hk
  have hmem : reqKey s.reads[k].req ∈ s.LSQueue.map entryKey := by
    rw [h.queued.mem_iff]
    exact List.mem_map.mpr ⟨_, List.getElem_mem hk, rfl⟩
  have hany : (s.LSQueue.any (isEntryOf s.reads[k].req)) = true := any_isEntryOf.mpr hmem
  simp [respond, hr, MarkLoadComplete, setWord, hany]

/-- What an answer does. -/
theorem respond_cases {mem : ℕ → BitVec 8} {s s' : RevPrefetcher} {k : ℕ}
    (hs : s.respond mem k = some s') :
    ∃ r, s.reads[k]? = some r ∧ s'.depth = s.depth ∧ s'.ctrl = s.ctrl ∧
      s'.reads = s.reads.eraseIdx k ∧
      s'.streams = (s.setWord r.buf r.slot (memWord mem r.req.Addr)).streams ∧
      s'.LSQueue = s.LSQueue.eraseP (isEntryOf r.req) := by
  unfold respond at hs
  split at hs
  · cases hs
  · rename_i r hr
    dsimp only at hs
    unfold MarkLoadComplete at hs
    split at hs
    · cases hs
      exact ⟨r, hr, rfl, rfl, rfl, rfl, rfl⟩
    · cases hs

theorem mem_setWord {s : RevPrefetcher} {buf slot : ℕ} {w : BitVec 32} {st' : Stream}
    (h : st' ∈ (s.setWord buf slot w).streams) :
    ∃ st ∈ s.streams, st'.baseAddr = st.baseAddr ∧ st'.buf = st.buf ∧
      st'.words = if st.buf = buf then st.words.set slot w else st.words := by
  obtain ⟨st, hst, rfl⟩ := List.mem_map.mp h
  refine ⟨st, hst, ?_⟩
  unfold Stream.put
  split <;> simp

theorem map_setWord {β : Type} (s : RevPrefetcher) (buf slot : ℕ) (w : BitVec 32) (f : Stream → β)
    (hf : ∀ st ws, f { st with words := ws } = f st) :
    (s.setWord buf slot w).streams.map f = s.streams.map f := by
  simp only [setWord, List.map_map]
  refine List.map_congr_left fun st _ => ?_
  simp only [Function.comp_apply, Stream.put]
  split
  · exact hf st _
  · rfl

/-- The stream that a read goes to. -/
theorem Sound.target {mem : ℕ → BitVec 8} {ex : ℕ → ℕ → Prop} {s : RevPrefetcher}
    (h : s.Sound mem ex) {r : FillRead} (hr : r ∈ s.reads) {st : Stream} (hst : st ∈ s.streams)
    (hbuf : st.buf = r.buf) :
    memWord mem r.req.Addr = memWord mem (st.baseAddr + r.slot * 4) := by
  obtain ⟨st', hst', hbuf', haddr⟩ := h.reads r hr
  have hsame : st' = st := List.inj_on_of_nodup_map h.bufs hst' hst (hbuf'.trans hbuf.symm)
  rw [haddr, memWord_mod, hsame]

theorem perm_erase_reads {l : List (ℕ × ℕ)} {l₁ l₂ : List FillRead} {r : FillRead}
    (h : l.Perm ((l₁ ++ r :: l₂).map fun r => reqKey r.req)) :
    (l.erase (reqKey r.req)).Perm ((l₁ ++ l₂).map fun r => reqKey r.req) := by
  refine (h.erase (reqKey r.req)).trans ?_
  rw [List.map_append, List.map_cons, List.map_append]
  have hmid : ((l₁.map fun r => reqKey r.req) ++ reqKey r.req :: l₂.map fun r => reqKey r.req).Perm
      (reqKey r.req :: ((l₁.map fun r => reqKey r.req) ++ l₂.map fun r => reqKey r.req)) :=
    List.perm_middle
  have herase := hmid.erase (reqKey r.req)
  rwa [List.erase_cons_head] at herase

theorem Sound.respond {mem : ℕ → BitVec 8} {ex : ℕ → ℕ → Prop} {s s' : RevPrefetcher} {k : ℕ}
    (h : s.Sound mem ex) (hs : s.respond mem k = some s') : s'.Sound mem ex := by
  obtain ⟨r, hr, hdepth, -, hreads, hstreams, hqueue⟩ := respond_cases hs
  obtain ⟨l₁, l₂, hsplit, herase⟩ := eraseIdx_split hr
  rw [herase] at hreads
  have hrmem : r ∈ s.reads := by simp [hsplit]
  have hother : ∀ r' ∈ s.reads, r' ≠ r → r' ∈ s'.reads := by
    intro r' hr' hne
    rw [hsplit] at hr'
    rw [hreads]
    simp only [List.mem_append, List.mem_cons] at hr' ⊢
    tauto
  constructor
  case bufs =>
    rw [hstreams, map_setWord _ _ _ _ _ fun _ _ => rfl]
    exact h.bufs
  case shape =>
    intro st' hst'
    rw [hstreams] at hst'
    obtain ⟨st, hst, hbase, -, hwords⟩ := mem_setWord hst'
    have hshape := h.shape st hst
    rw [hbase, hwords, hdepth]
    refine ⟨hshape.1, hshape.2.1, ?_⟩
    split <;> simp [hshape.2.2]
  case words =>
    intro st' hst' j w hw
    rw [hstreams] at hst'
    obtain ⟨st, hst, hbase, hbuf, hwords⟩ := mem_setWord hst'
    rw [hbase]
    rw [hwords] at hw
    split at hw
    · rename_i hsame
      rw [List.getElem?_set] at hw
      split at hw
      · rename_i hslot
        split at hw
        · rw [← Option.some.inj hw, h.target hrmem hst hsame, hslot]
          exact Or.inr rfl
        · cases hw
      · exact h.words st hst j w hw
    · exact h.words st hst j w hw
  case filled =>
    intro st' hst' j hj hex
    rw [hstreams] at hst'
    obtain ⟨st, hst, hbase, hbuf, hwords⟩ := mem_setWord hst'
    rw [hdepth] at hj
    rw [hbuf] at hex
    rw [hbase, hbuf, hwords]
    by_cases hthis : st.buf = r.buf ∧ r.slot = j
    · left
      rw [if_pos hthis.1, hthis.2, List.getElem?_set_self (by rw [(h.shape st hst).2.2]; exact hj),
        h.target hrmem hst hthis.1, hthis.2]
    · rcases h.filled st hst j hj hex with hfilled | ⟨r', hr', hbuf', hslot'⟩
      · left
        split
        · rename_i hsame
          rw [List.getElem?_set_ne (fun heq => hthis ⟨hsame, heq⟩)]
          exact hfilled
        · exact hfilled
      · right
        refine ⟨r', hother r' hr' ?_, hbuf', hslot'⟩
        rintro rfl
        exact hthis ⟨hbuf'.symm, hslot'⟩
  case reads =>
    intro r' hr'
    have hr'mem : r' ∈ s.reads := by
      rw [hreads] at hr'
      rw [hsplit]
      simp only [List.mem_append, List.mem_cons] at hr' ⊢
      tauto
    obtain ⟨st, hst, hbuf, haddr⟩ := h.reads r' hr'mem
    rw [hstreams]
    refine ⟨_, List.mem_map.mpr ⟨st, hst, rfl⟩, ?_, ?_⟩ <;> unfold Stream.put <;> split <;> simpa
  case queued =>
    rw [hqueue, map_eraseP_isEntryOf, hreads]
    exact perm_erase_reads (by rw [← hsplit]; exact h.queued)

/-- A read of word `r.slot` of a stream: the word is no longer left out. -/
theorem Sound.push {mem : ℕ → BitVec 8} {ex : ℕ → ℕ → Prop} {s : RevPrefetcher}
    (h : s.Sound mem ex) {r : FillRead}
    (htarget : ∃ st ∈ s.streams, st.buf = r.buf ∧ r.req.Addr = (st.baseAddr + r.slot * 4) % W64) :
    (s.push r).Sound mem fun b j => ex b j ∧ ¬(b = r.buf ∧ j = r.slot) := by
  constructor
  case bufs => exact h.bufs
  case shape => exact h.shape
  case words => exact h.words
  case filled =>
    intro st hst j hj hex
    by_cases hthis : st.buf = r.buf ∧ j = r.slot
    · exact Or.inr ⟨r, by simp [RevPrefetcher.push], hthis.1.symm, hthis.2.symm⟩
    · rcases h.filled st hst j hj fun he => hex ⟨he, hthis⟩ with hfilled | ⟨r', hr', hbuf', hslot'⟩
      · exact Or.inl hfilled
      · exact Or.inr ⟨r', by simp [RevPrefetcher.push, hr'], hbuf', hslot'⟩
  case reads =>
    intro r' hr'
    rcases List.mem_append.mp hr' with hr' | hr'
    · exact h.reads r' hr'
    · rw [List.mem_singleton.mp hr']
      exact htarget
  case queued =>
    simp only [RevPrefetcher.push, List.map_append, List.map_cons, List.map_nil]
    exact h.queued.append_right _

theorem push_last (s : RevPrefetcher) (r : FillRead) :
    s.reads.length < (s.push r).reads.length := by
  simp [push]

/-- What stays of a prefetcher over calls and answers. -/
structure Kept (s s' : RevPrefetcher) : Prop where
  depth : s'.depth = s.depth
  ctrl : s'.ctrl = s.ctrl
  keys : (s'.streams.map fun st => (st.baseAddr, st.buf)) =
    s.streams.map fun st => (st.baseAddr, st.buf)

theorem Kept.trans {s₁ s₂ s₃ : RevPrefetcher} (h : Kept s₁ s₂) (h' : Kept s₂ s₃) : Kept s₁ s₃ :=
  ⟨h'.depth.trans h.depth, h'.ctrl.trans h.ctrl, h'.keys.trans h.keys⟩

theorem Kept.mem {s s' : RevPrefetcher} (h : Kept s s') {st : Stream} (hst : st ∈ s.streams) :
    ∃ st' ∈ s'.streams, st'.baseAddr = st.baseAddr ∧ st'.buf = st.buf := by
  have hmem : (st.baseAddr, st.buf) ∈ s'.streams.map fun st => (st.baseAddr, st.buf) := by
    rw [h.keys]
    exact List.mem_map.mpr ⟨st, hst, rfl⟩
  obtain ⟨st', hst', heq⟩ := List.mem_map.mp hmem
  exact ⟨st', hst', (Prod.mk.inj heq).1, (Prod.mk.inj heq).2⟩

theorem respond_kept {mem : ℕ → BitVec 8} {s s' : RevPrefetcher} {k : ℕ}
    (hs : s.respond mem k = some s') : Kept s s' := by
  obtain ⟨r, -, hdepth, hctrl, -, hstreams, -⟩ := respond_cases hs
  refine ⟨hdepth, hctrl, ?_⟩
  rw [hstreams, map_setWord _ _ _ _ _ fun _ _ => rfl]

/-- One turn of the loop of `Fill` succeeds and leaves out one word less. -/
theorem Sound.issue {mem : ℕ → BitVec 8} {ex : ℕ → ℕ → Prop} {s : RevPrefetcher}
    (h : s.Sound mem ex) {r : FillRead}
    (htarget : ∃ st ∈ s.streams, st.buf = r.buf ∧ r.req.Addr = (st.baseAddr + r.slot * 4) % W64) :
    ∃ s', s.issue mem r = some s' ∧ Kept s s' ∧
      s'.Sound mem fun b j => ex b j ∧ ¬(b = r.buf ∧ j = r.slot) := by
  have hpush := h.push htarget
  unfold RevPrefetcher.issue
  split
  · exact ⟨_, rfl, ⟨rfl, rfl, rfl⟩, hpush⟩
  · obtain ⟨s', hs'⟩ := Option.isSome_iff_exists.mp (hpush.respond_isSome (push_last s r))
    have hkept := respond_kept hs'
    exact ⟨s', hs', ⟨hkept.depth, hkept.ctrl, hkept.keys⟩, hpush.respond hs'⟩

/-- The loop of `Fill` from word `y` on. -/
theorem Sound.issueAll {mem : ℕ → BitVec 8} (hart buf base : ℕ) (n : ℕ) :
    ∀ (y : ℕ) {s : RevPrefetcher}, (s.Sound mem fun b j => b = buf ∧ y ≤ j) →
      (∃ st ∈ s.streams, st.buf = buf ∧ st.baseAddr = base) →
      ∃ s', (List.range' y n).foldlM (fun s y => s.issue mem ⟨fillReq hart base y, buf, y⟩) s =
        some s' ∧ Kept s s' ∧ s'.Sound mem fun b j => b = buf ∧ y + n ≤ j := by
  induction n with
  | zero =>
    intro y s h _
    exact ⟨s, rfl, ⟨rfl, rfl, rfl⟩, h⟩
  | succ n ih =>
    intro y s h hst
    obtain ⟨st, hst, hbuf, hbase⟩ := hst
    obtain ⟨s₁, hs₁, hkept₁, h₁⟩ := h.issue (r := ⟨fillReq hart base y, buf, y⟩)
      ⟨st, hst, hbuf, by rw [hbase]; rfl⟩
    have h₁' : s₁.Sound mem fun b j => b = buf ∧ y + 1 ≤ j := by
      have heq : (fun b j => (b = buf ∧ y ≤ j) ∧ ¬(b = buf ∧ j = y)) =
          fun b j => b = buf ∧ y + 1 ≤ j := by
        funext b j
        apply propext
        constructor
        · rintro ⟨⟨hb, hle⟩, hne⟩
          exact ⟨hb, by have : j ≠ y := fun hj => hne ⟨hb, hj⟩; omega⟩
        · rintro ⟨hb, hle⟩
          exact ⟨⟨hb, by omega⟩, by omega⟩
      rwa [heq] at h₁
    obtain ⟨st₁, hst₁, hbase₁, hbuf₁⟩ := hkept₁.mem hst
    obtain ⟨s₂, hs₂, hkept₂, h₂⟩ := ih (y + 1) h₁' ⟨st₁, hst₁, hbuf₁.trans hbuf, hbase₁.trans hbase⟩
    refine ⟨s₂, ?_, hkept₁.trans hkept₂, ?_⟩
    · rw [List.range'_succ, List.foldlM_cons, hs₁]
      exact hs₂
    · rwa [Nat.add_assoc, Nat.add_comm 1 n] at h₂

/-- `Addr &= 0xFFFFFFFFFFFFFFFC`. -/
theorem align_eq (Addr : ℕ) : Addr &&& 0xFFFFFFFFFFFFFFFC = Addr / 4 % 2 ^ 62 * 4 := by
  have hmask : 0xFFFFFFFFFFFFFFFC = (2 ^ 62 - 1) <<< 2 := by decide
  rw [hmask, show 4 = 2 ^ 2 from rfl, ← Nat.shiftLeft_eq, ← Nat.shiftRight_eq_div_pow,
    ← Nat.and_two_pow_sub_one_eq_mod]
  apply Nat.eq_of_testBit_eq
  intro i
  simp only [Nat.testBit_and, Nat.testBit_shiftLeft, Nat.testBit_shiftRight]
  by_cases hi : 2 ≤ i
  · simp [hi]
  · simp [hi]

theorem align_mod (Addr : ℕ) : (Addr &&& 0xFFFFFFFFFFFFFFFC) % 4 = 0 := by
  rw [align_eq, Nat.mul_mod_left]

theorem align_lt (Addr : ℕ) : Addr &&& 0xFFFFFFFFFFFFFFFC < W64 := by
  rw [align_eq]
  simp only [W64]
  omega

theorem align_of_lt {Addr : ℕ} (h : Addr < W64) :
    Addr &&& 0xFFFFFFFFFFFFFFFC = Addr - Addr % 4 := by
  rw [align_eq]
  simp only [W64] at h
  omega

/-- A new stream: all its words are left out. -/
theorem Sound.addStream {mem : ℕ → BitVec 8} {s : RevPrefetcher} (h : s.Sound mem Whole)
    {buf : ℕ} (hfresh : ∀ st ∈ s.streams, st.buf ≠ buf) (Addr : ℕ) :
    Sound mem (fun b j => b = buf ∧ 0 ≤ j) { s with streams := s.streams ++
      [⟨Addr &&& 0xFFFFFFFFFFFFFFFC, buf, List.replicate s.depth REVPREF_INIT_ADDR⟩] } := by
  constructor
  case bufs =>
    simp only [List.map_append, List.map_cons, List.map_nil]
    refine List.Nodup.append h.bufs (List.nodup_singleton _) ?_
    intro b hb hb'
    obtain ⟨st, hst, rfl⟩ := List.mem_map.mp hb
    exact hfresh st hst (List.mem_singleton.mp hb')
  case shape =>
    intro st hst
    rcases List.mem_append.mp hst with hst | hst
    · exact h.shape st hst
    · rw [List.mem_singleton.mp hst]
      exact ⟨align_mod Addr, align_lt Addr, List.length_replicate⟩
  case words =>
    intro st hst j w hw
    rcases List.mem_append.mp hst with hst | hst
    · exact h.words st hst j w hw
    · rw [List.mem_singleton.mp hst, List.getElem?_replicate, Option.ite_none_right_eq_some,
        Option.some.injEq] at hw
      exact Or.inl hw.2.symm
  case filled =>
    intro st hst j hj hex
    rcases List.mem_append.mp hst with hst | hst
    · exact h.filled st hst j hj id
    · rw [List.mem_singleton.mp hst] at hex
      exact absurd ⟨rfl, Nat.zero_le j⟩ hex
  case reads =>
    intro r hr
    obtain ⟨st, hst, hbuf, haddr⟩ := h.reads r hr
    exact ⟨st, List.mem_append_left _ hst, hbuf, haddr⟩
  case queued => exact h.queued

/-- A state after calls that deleted no stream: the streams of before are its
    first ones, and no word is left out. -/
structure Grown (mem : ℕ → BitVec 8) (s s' : RevPrefetcher) : Prop where
  sound : s'.Sound mem Whole
  depth : s'.depth = s.depth
  ctrl : s'.ctrl = s.ctrl
  keys : (s.streams.map fun st => (st.baseAddr, st.buf)) <+:
    s'.streams.map fun st => (st.baseAddr, st.buf)

theorem Grown.refl {mem : ℕ → BitVec 8} {s : RevPrefetcher} (h : s.Sound mem Whole) :
    Grown mem s s := ⟨h, rfl, rfl, List.prefix_refl _⟩

theorem Grown.trans {mem : ℕ → BitVec 8} {s₁ s₂ s₃ : RevPrefetcher} (h : Grown mem s₁ s₂)
    (h' : Grown mem s₂ s₃) : Grown mem s₁ s₃ :=
  ⟨h'.sound, h'.depth.trans h.depth, h'.ctrl.trans h.ctrl, h.keys.trans h'.keys⟩

/-- `Fill` adds a stream. It succeeds when the allocator gives it memory that
    no stream has. -/
theorem Sound.fill {mem : ℕ → BitVec 8} {s : RevPrefetcher} (h : s.Sound mem Whole)
    {buf : ℕ} (hfresh : ∀ st ∈ s.streams, st.buf ≠ buf) (hart Addr : ℕ) :
    ∃ s', s.Fill mem hart buf Addr = some s' ∧ Grown mem s s' ∧
      ∃ st ∈ s'.streams, st.baseAddr = Addr &&& 0xFFFFFFFFFFFFFFFC := by
  have hnot : (s.streams.any fun st => st.buf == buf) = false := by
    simpa [List.any_eq_false] using hfresh
  obtain ⟨s', hs', hkept, hsound⟩ := Sound.issueAll hart buf (Addr &&& 0xFFFFFFFFFFFFFFFC) s.depth 0
    (h.addStream hfresh Addr) ⟨_, List.mem_append_right _ (List.mem_singleton.mpr rfl), rfl, rfl⟩
  have hwhole : s'.Sound mem Whole := by
    refine ⟨hsound.bufs, hsound.shape, hsound.words, ?_, hsound.reads, hsound.queued⟩
    intro st hst j hj _
    have hdepth : s'.depth = s.depth := hkept.depth
    exact hsound.filled st hst j hj (by omega)
  refine ⟨s', ?_, ⟨hwhole, hkept.depth, hkept.ctrl, ?_⟩, ?_⟩
  · simp only [Fill, hnot, Bool.false_eq_true, if_false]
    rw [List.range_eq_range']
    exact hs'
  · rw [hkept.keys]
    simp only [List.map_append]
    exact List.prefix_append _ _
  · obtain ⟨st, hst, hbase, -⟩ := hkept.mem (List.mem_append_right _ (List.mem_singleton.mpr rfl))
    exact ⟨st, hst, hbase⟩

/-- The allocator's choice is the only thing that `Fill` refuses. -/
theorem fresh_of_fill {mem : ℕ → BitVec 8} {s s' : RevPrefetcher} {hart buf Addr : ℕ}
    (hs : s.Fill mem hart buf Addr = some s') : ∀ st ∈ s.streams, st.buf ≠ buf := by
  unfold Fill at hs
  split at hs
  · cases hs
  · rename_i hany
    simpa using hany

end RevPrefetcher

end RevCPU
