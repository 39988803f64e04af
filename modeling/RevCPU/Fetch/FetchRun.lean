import RevCPU.Fetch.Calls
import RevCPU.Lib.Run

namespace RevCPU

open Lib

/-- A call of the prefetcher, with the hart that makes it and the memory that
    the allocator gives to a stream that the call fills, or the answer to one of
    the outstanding reads. -/
inductive FetchEvent
  | IsAvail (hart buf PC : ℕ)
  | InstFetch (hart buf PC : ℕ)
  | respond (k : ℕ)
  deriving DecidableEq, Repr

/-- The address of a call is that of an instruction. -/
def FetchEvent.Even : FetchEvent → Prop
  | .IsAvail _ _ PC => PC % 2 = 0
  | .InstFetch _ _ PC => PC % 2 = 0
  | .respond _ => True

namespace RevPrefetcher

variable {mem : ℕ → BitVec 8} {s s' : RevPrefetcher}

def init (depth : ℕ) (ctrl : Bool) : RevPrefetcher := { depth, ctrl }

def step (mem : ℕ → BitVec 8) (s : RevPrefetcher) : FetchEvent → Option RevPrefetcher
  | .IsAvail hart buf PC => (s.IsAvail mem hart buf PC).map Prod.snd
  | .InstFetch hart buf PC => (s.InstFetch mem hart buf PC).map Prod.snd
  | .respond k => s.respond mem k

/-- The condition on a call of `InstFetch`: no read is outstanding for the
    stream that it deletes. -/
def Intact (s : RevPrefetcher) : FetchEvent → Prop
  | .InstFetch _ _ PC => s.Ready PC → ∀ st, s.lookup PC = some st → st.off PC = s.depth - 1 →
      ∀ r ∈ s.reads, r.buf ≠ st.buf
  | _ => True

theorem Sound.init (mem : ℕ → BitVec 8) (depth : ℕ) (ctrl : Bool) :
    (init depth ctrl).Sound mem Whole := by
  constructor <;> simp [RevPrefetcher.init]

/-- The deletion of a stream that no read goes to. -/
theorem Sound.delete (h : s.Sound mem Whole) {i : ℕ} {st : Stream}
    (hst : s.streams[i]? = some st) (hfree : ∀ r ∈ s.reads, r.buf ≠ st.buf) :
    Sound mem Whole { s with streams := s.streams.eraseIdx i } := by
  have hsub : List.Sublist (s.streams.eraseIdx i) s.streams := List.eraseIdx_sublist ..
  constructor
  case bufs => exact h.bufs.sublist (hsub.map _)
  case shape => exact fun st' hst' => h.shape st' (hsub.subset hst')
  case words => exact fun st' hst' => h.words st' (hsub.subset hst')
  case filled => exact fun st' hst' => h.filled st' (hsub.subset hst')
  case reads =>
    intro r hr
    obtain ⟨st', hst', hbuf, haddr⟩ := h.reads r hr
    obtain ⟨l₁, l₂, hsplit, herase⟩ := eraseIdx_split hst
    refine ⟨st', ?_, hbuf, haddr⟩
    have hne : st' ≠ st := by
      rintro rfl
      exact hfree r hr hbuf.symm
    rw [hsplit] at hst'
    dsimp only
    rw [herase]
    simp only [List.mem_append, List.mem_cons] at hst' ⊢
    tauto
  case queued => exact h.queued

theorem Sound.fill_grown (h : s.Sound mem Whole) {hart buf Addr : ℕ}
    (hs : s.Fill mem hart buf Addr = some s') : Grown mem s s' := by
  obtain ⟨s₁, hs₁, hgrown, -⟩ := h.fill (fresh_of_fill hs) hart Addr
  rw [hs, Option.some.injEq] at hs₁
  rwa [hs₁]

theorem Sound.respond_grown (h : s.Sound mem Whole) {k : ℕ} (hs : s.respond mem k = some s') :
    Grown mem s s' := by
  have hkept := respond_kept hs
  exact ⟨h.respond hs, hkept.depth, hkept.ctrl, hkept.keys ▸ List.prefix_refl _⟩

theorem Sound.IsAvail_grown (h : s.Sound mem Whole) {hart buf PC : ℕ} {avail : Bool}
    (heven : PC % 2 = 0) (hs : s.IsAvail mem hart buf PC = some (avail, s')) : Grown mem s s' := by
  rcases h.IsAvail_cases heven hs with ⟨-, rfl, -⟩ | ⟨-, rfl, -⟩ | ⟨-, a, -, -, hfill⟩
  · exact Grown.refl h
  · exact Grown.refl h
  · exact h.fill_grown hfill

theorem Sound.advance (h : s.Sound mem Whole) {hart buf Addr i : ℕ} {st : Stream}
    (hst : s.streams[i]? = some st)
    (hfree : st.off Addr = s.depth - 1 → ∀ r ∈ s.reads, r.buf ≠ st.buf)
    (hs : s.advance mem hart buf Addr i st = some s') :
    s'.Sound mem Whole ∧ s'.depth = s.depth := by
  unfold RevPrefetcher.advance at hs
  split at hs
  · rename_i hlast
    have hgrown := (h.delete hst (hfree hlast)).fill_grown hs
    exact ⟨hgrown.sound, hgrown.depth⟩
  · cases hs
    exact ⟨h, rfl⟩

theorem Sound.step (h : s.Sound mem Whole) {e : FetchEvent} (hok : s.Intact e) (heven : e.Even)
    (hs : step mem s e = some s') : s'.Sound mem Whole ∧ s'.depth = s.depth := by
  cases e with
  | IsAvail hart buf PC =>
    obtain ⟨⟨avail, s₁⟩, hcall, rfl⟩ := Option.map_eq_some_iff.mp hs
    have hgrown := h.IsAvail_grown heven hcall
    exact ⟨hgrown.sound, hgrown.depth⟩
  | InstFetch hart buf PC =>
    obtain ⟨⟨res, s₁⟩, hcall, rfl⟩ := Option.map_eq_some_iff.mp hs
    rcases h.InstFetch_cases heven hcall with
      ⟨hready, -, i, st, hlook, hst, hadv⟩ | ⟨-, hsame, -⟩ | ⟨-, a, -, -, hfill⟩
    · exact h.advance hst (hok hready st hlook) hadv
    · dsimp only
      rw [hsame]
      exact ⟨h, rfl⟩
    · have hgrown := h.fill_grown hfill
      exact ⟨hgrown.sound, hgrown.depth⟩
  | respond k => exact ⟨h.respond hs, (respond_kept hs).depth⟩

/-- An answer leaves what is ready. -/
theorem Sound.has_respond (h : s.Sound mem Whole) {k : ℕ} (hs : s.respond mem k = some s')
    {a : ℕ} (hhas : s.Has a) : s'.Has a := by
  obtain ⟨r, hr, hdepth, -, -, hstreams, -⟩ := respond_cases hs
  have hrmem := List.mem_of_getElem? hr
  obtain ⟨st, hst, hne⟩ := hhas
  obtain ⟨hmem, hc, hbase⟩ := h.lookup_spec hst
  have hword := h.word_eq hst hne
  obtain ⟨-, haddr, -, -, -⟩ := Stream.off_of_contains hbase hc
  let w := memWord mem r.req.Addr
  have hpred : ((fun st : Stream => st.contains s.depth a) ∘ fun st : Stream => st.put r.buf r.slot w) =
      fun st : Stream => st.contains s.depth a := by
    funext st
    exact Stream.contains_congr (st.put_baseAddr r.buf r.slot w) s.depth a
  have hlook : s'.lookup a = some (st.put r.buf r.slot w) := by
    unfold lookup at hst ⊢
    rw [hstreams, hdepth, setWord, List.find?_map, hpred, hst]
    rfl
  refine ⟨_, hlook, ?_⟩
  have hoff : (st.put r.buf r.slot w).off a = st.off a := by
    rw [Stream.off, Stream.put_baseAddr, Stream.off]
  have hsame : (st.put r.buf r.slot w).word a = st.word a := by
    rw [Stream.word, hoff]
    unfold Stream.put
    split
    · rename_i hbuf
      dsimp only
      rw [List.getD_eq_getElem?_getD, List.getElem?_set]
      split
      · rename_i hslot
        split
        · rw [Option.getD_some, hword, ← haddr, ← hslot]
          exact h.target hrmem hmem hbuf
        · rename_i hlen
          have := (h.shape st hmem).2.2
          have := (Stream.off_of_contains hbase hc).1
          omega
      · rw [← List.getD_eq_getElem?_getD]
        rfl
    · rfl
  rw [hsame]
  exact hne

/-- What `InstFetch` delivers from a state that is ready. -/
theorem Sound.InstFetch_ready (h : s.Sound mem Whole) {PC : ℕ} (heven : PC % 2 = 0)
    (hready : s.Ready PC) {hart buf : ℕ} {res : FetchResult}
    (hs : s.InstFetch mem hart buf PC = some (res, s')) : res = ⟨true, true, memWord mem PC⟩ := by
  rcases h.InstFetch_cases heven hs with ⟨-, hres, -⟩ | ⟨-, -, hnot⟩ | ⟨-, a, ha, hnone, -⟩
  · exact hres
  · exact absurd hready hnot
  · obtain ⟨st, hst, -⟩ := hready a ha
    rw [hnone] at hst
    cases hst

/-- The reads of the words of the instruction have been answered. -/
def Settled (s : RevPrefetcher) (PC : ℕ) : Prop :=
  ∀ a ∈ halves PC, ∀ r ∈ s.reads, r.req.Addr ≠ a - a % 4

/-- The words of the instruction are not the sentinel, and a stream that starts
    at one of them ends at a 64-bit address above it. -/
def Fetchable (mem : ℕ → BitVec 8) (depth PC : ℕ) : Prop :=
  ∀ a ∈ halves PC, memWord mem (a - a % 4) ≠ REVPREF_INIT_ADDR ∧ 0 < depth * 4 % 2 ^ 32 ∧
    a - a % 4 + depth * 4 % 2 ^ 32 < W64

theorem Grown.lookup_isSome (h : Grown mem s s') {a : ℕ} (hlook : (s.lookup a).isSome = true) :
    (s'.lookup a).isSome = true := by
  unfold lookup at hlook ⊢
  rw [List.find?_isSome] at hlook ⊢
  obtain ⟨st, hst, hc⟩ := hlook
  have hkey : (st.baseAddr, st.buf) ∈ s'.streams.map fun st => (st.baseAddr, st.buf) :=
    h.keys.subset (List.mem_map.mpr ⟨st, hst, rfl⟩)
  obtain ⟨st', hst', heq⟩ := List.mem_map.mp hkey
  refine ⟨st', hst', ?_⟩
  rw [h.depth, Stream.contains_congr (Prod.mk.inj heq).1]
  exact hc

/-- A settled word that a stream has is there. -/
theorem Sound.has_of_settled (h : s.Sound mem Whole) {PC a : ℕ} (ha : a ∈ halves PC)
    (hsettled : s.Settled PC) (hfetch : Fetchable mem s.depth PC) {st : Stream}
    (hlook : s.lookup a = some st) : st.word a ≠ REVPREF_INIT_ADDR := by
  obtain ⟨hmem, hc, hbase⟩ := h.lookup_spec hlook
  obtain ⟨hoff, haddr, -, hlt, -⟩ := Stream.off_of_contains hbase hc
  rcases h.filled st hmem _ hoff id with hfilled | ⟨r, hr, hbuf, hslot⟩
  · rw [Stream.word, List.getD_eq_getElem?_getD, hfilled, Option.getD_some, haddr]
    exact (hfetch a ha).1
  · obtain ⟨st', hst', hbuf', haddr'⟩ := h.reads r hr
    have hsame : st' = st := List.inj_on_of_nodup_map h.bufs hst' hmem (hbuf'.trans hbuf)
    rw [hsame, hslot, haddr, Nat.mod_eq_of_lt (by omega)] at haddr'
    exact absurd haddr' (hsettled a ha r hr)

theorem halves_lt {PC a : ℕ} {depth : ℕ} (hfetch : Fetchable mem depth PC) (ha : a ∈ halves PC) :
    a < W64 := by
  have := hfetch a ha
  simp only [W64] at *
  omega

/-- After a fill a stream has the word. -/
theorem Sound.lookup_fill (h : s.Sound mem Whole) {hart buf PC a : ℕ} (ha : a ∈ halves PC)
    (hfetch : Fetchable mem s.depth PC) (hs : s.Fill mem hart buf a = some s') :
    (s'.lookup a).isSome = true := by
  obtain ⟨s₁, hs₁, hgrown, st, hst, hbase⟩ := h.fill (fresh_of_fill hs) hart a
  rw [hs, Option.some.injEq] at hs₁
  rw [← hs₁] at hgrown hst
  rw [align_of_lt (halves_lt hfetch ha)] at hbase
  obtain ⟨-, hpos, hlt⟩ := hfetch a ha
  have hlast : st.lastAddr s.depth = a - a % 4 + s.depth * 4 % 2 ^ 32 := by
    rw [Stream.lastAddr, hbase, Nat.mod_eq_of_lt hlt]
  unfold lookup
  rw [List.find?_isSome]
  refine ⟨st, hst, ?_⟩
  rw [hgrown.depth, Stream.contains, hlast, hbase, Bool.and_eq_true, decide_eq_true_eq,
    decide_eq_true_eq]
  omega

/-- How many words of the instruction no stream has. -/
def missing (s : RevPrefetcher) (PC : ℕ) : ℕ := (halves PC).countP fun a => (s.lookup a).isNone

theorem missing_le (s : RevPrefetcher) (PC : ℕ) : s.missing PC ≤ 2 := by
  refine Nat.le_trans List.countP_le_length ?_
  unfold halves
  split <;> simp

theorem Grown.isNone_of (h : Grown mem s s') {a : ℕ} (hnone : (s'.lookup a).isNone = true) :
    (s.lookup a).isNone = true := by
  rw [Option.isNone_iff_eq_none] at hnone ⊢
  by_contra hsome
  have hsome' := h.lookup_isSome (Option.isSome_iff_ne_none.mpr hsome)
  simp [hnone] at hsome'

theorem Grown.missing_le (h : Grown mem s s') (PC : ℕ) : s'.missing PC ≤ s.missing PC :=
  List.countP_mono_left fun _ _ hnone => h.isNone_of hnone

theorem Grown.missing_lt (h : Grown mem s s') {PC a : ℕ} (ha : a ∈ halves PC)
    (hnone : s.lookup a = none) (hsome : (s'.lookup a).isSome = true) :
    s'.missing PC < s.missing PC := by
  have hmono : ∀ l : List ℕ, l.countP (fun a => (s'.lookup a).isNone) ≤
      l.countP fun a => (s.lookup a).isNone :=
    fun l => List.countP_mono_left fun a _ ha => h.isNone_of ha
  obtain ⟨l₁, l₂, hsplit⟩ := List.append_of_mem ha
  have hnone' : (s.lookup a).isNone = true := by rw [hnone, Option.isNone_none]
  have hsome' : (s'.lookup a).isNone = false := by simpa using hsome
  unfold missing
  rw [hsplit, List.countP_append, List.countP_append, List.countP_cons, List.countP_cons, hnone',
    hsome']
  simp only [Bool.false_eq_true, if_false, if_true]
  have h₁ := hmono l₁
  have h₂ := hmono l₂
  omega

/-- A settled call of `IsAvail` returns true, or one more word of the
    instruction gets a stream. -/
theorem Sound.IsAvail_settled (h : s.Sound mem Whole) {hart buf PC : ℕ} (heven : PC % 2 = 0)
    (hfetch : Fetchable mem s.depth PC) (hsettled : s.Settled PC)
    (hnewest : s.newestOutstanding = false) {avail : Bool}
    (hs : s.IsAvail mem hart buf PC = some (avail, s')) :
    avail = true ∨ s'.missing PC < s.missing PC := by
  rcases h.IsAvail_cases heven hs with ⟨hav, -, -⟩ | ⟨-, -, hstall⟩ | ⟨-, a, ha, hnone, hfill⟩
  · exact Or.inl hav
  · rcases hstall with hnew | ⟨a, ha, st, hlook, hinit⟩
    · rw [hnewest] at hnew
      cases hnew
    · exact absurd hinit (h.has_of_settled ha hsettled hfetch hlook)
  · exact Or.inr ((h.fill_grown hfill).missing_lt ha hnone (h.lookup_fill ha hfetch hfill))

instance (s : RevPrefetcher) (PC : ℕ) : Decidable (s.Settled PC) :=
  inferInstanceAs (Decidable (∀ a ∈ halves PC, ∀ r ∈ s.reads, r.req.Addr ≠ a - a % 4))

/-- A call of `IsAvail` for the instruction once its reads are answered. -/
def asks (PC : ℕ) (p : RevPrefetcher × FetchEvent) : Bool :=
  match p.2 with
  | .IsAvail _ _ a => a == PC && decide (p.1.Settled PC)
  | _ => false

/-- The call returns true. -/
def available (mem : ℕ → BitVec 8) (p : RevPrefetcher × FetchEvent) : Bool :=
  match p.2 with
  | .IsAvail hart buf PC => (p.1.IsAvail mem hart buf PC).any Prod.fst
  | _ => false

def FetchEvent.isInstFetch : FetchEvent → Bool
  | .InstFetch _ _ _ => true
  | _ => false

/-- Along a run without `InstFetch` every settled call that does not return true
    uses up a missing word. -/
theorem asks_le_missing {tr : List (RevPrefetcher × FetchEvent)} {PC : ℕ}
    (h : s.Sound mem Whole) (hfetch : Fetchable mem s.depth PC)
    (hrun : Run (step mem) s tr s')
    (hcalls : ∀ p ∈ tr, p.2.Even ∧ FetchEvent.isInstFetch p.2 = false)
    (hnewest : ∀ p ∈ tr, asks PC p = true → p.1.newestOutstanding = false)
    (hnever : ∀ p ∈ tr, asks PC p = true → available mem p = false) :
    Grown mem s s' ∧ tr.countP (asks PC) + s'.missing PC ≤ s.missing PC := by
  induction hrun with
  | nil => exact ⟨Grown.refl h, by simp⟩
  | @snoc tr s₁ s₂ e _ hstep ih =>
    obtain ⟨hgrown, hcount⟩ := ih (fun p hp => hcalls p (by simp [hp]))
      (fun p hp => hnewest p (by simp [hp])) (fun p hp => hnever p (by simp [hp]))
    have hlast : (s₁, e) ∈ tr ++ [(s₁, e)] := by simp
    rw [List.countP_append, List.countP_singleton]
    cases e with
    | IsAvail hart buf a =>
      obtain ⟨⟨avail, s₃⟩, hcall, rfl⟩ := Option.map_eq_some_iff.mp hstep
      have hgrown' := hgrown.sound.IsAvail_grown (hcalls _ hlast).1 hcall
      refine ⟨hgrown.trans hgrown', ?_⟩
      have hle := hgrown'.missing_le PC
      dsimp only at hle ⊢
      split
      · rename_i hasks
        have hpc : a = PC ∧ s₁.Settled PC := by simpa [asks] using hasks
        have hav : avail = false := by
          have := hnever _ hlast hasks
          simpa [available, hcall] using this
        have hlt := hgrown.sound.IsAvail_settled (hcalls _ hlast).1
          (by rw [hgrown.depth, hpc.1]; exact hfetch) (by rw [hpc.1]; exact hpc.2)
          (hnewest _ hlast hasks) hcall
        rw [hav, hpc.1] at hlt
        have hlt' : s₃.missing PC < s₁.missing PC := by simpa using hlt
        omega
      · omega
    | InstFetch hart buf a => exact absurd (hcalls _ hlast).2 (by simp [FetchEvent.isInstFetch])
    | respond k =>
      have hgrown' := hgrown.sound.respond_grown hstep
      refine ⟨hgrown.trans hgrown', ?_⟩
      have hle := hgrown'.missing_le PC
      simp only [asks, Bool.false_eq_true, if_false]
      omega

/-- After any answers the next `InstFetch` sets `Fetched` and returns the word
    at the address; it is accepted with memory that no stream has. -/
def Delivers (mem : ℕ → BitVec 8) (s : RevPrefetcher) (PC : ℕ) : Prop :=
  ∀ ks s₁, exec (respond mem) s ks = some s₁ →
    (∀ hart buf res s₂, s₁.InstFetch mem hart buf PC = some (res, s₂) →
      res = ⟨true, true, memWord mem PC⟩) ∧
    ∀ hart buf, (∀ st ∈ s₁.streams, st.buf ≠ buf) → s₁.Intact (.InstFetch hart buf PC) →
      (s₁.InstFetch mem hart buf PC).isSome = true

/-- Of three calls of `IsAvail` that are made when the reads for the instruction
    are answered, with other such calls and answers in between, one returns
    true. -/
def Live (mem : ℕ → BitVec 8) (s : RevPrefetcher) (PC : ℕ) : Prop :=
  ∀ tr s', Run (step mem) s tr s' →
    (∀ p ∈ tr, p.2.Even ∧ FetchEvent.isInstFetch p.2 = false) →
    (∀ p ∈ tr, asks PC p = true → p.1.newestOutstanding = false) →
    3 ≤ tr.countP (asks PC) → ∃ p ∈ tr, asks PC p = true ∧ available mem p = true

/-- Calls that get fresh memory and answers to outstanding reads are accepted. -/
def Accepts (mem : ℕ → BitVec 8) (s : RevPrefetcher) : Prop :=
  (∀ k < s.reads.length, (s.respond mem k).isSome = true) ∧
  ∀ hart buf PC, PC % 2 = 0 → (∀ st ∈ s.streams, st.buf ≠ buf) →
    (s.IsAvail mem hart buf PC).isSome = true

theorem Sound.fill_isSome (h : s.Sound mem Whole) {buf : ℕ}
    (hfresh : ∀ st ∈ s.streams, st.buf ≠ buf) (hart Addr : ℕ) :
    (s.Fill mem hart buf Addr).isSome = true := by
  obtain ⟨s', hs', -⟩ := h.fill hfresh hart Addr
  rw [hs']
  rfl

theorem Sound.FetchUpper_isSome (h : s.Sound mem Whole) {buf : ℕ}
    (hfresh : ∀ st ∈ s.streams, st.buf ≠ buf) (hart Addr : ℕ) :
    (s.FetchUpper mem hart buf Addr).isSome = true := by
  unfold FetchUpper
  split
  · rfl
  · rfl
  · rfl
  · rw [Option.isSome_map]
    exact h.fill_isSome hfresh hart Addr

theorem Sound.accepts (h : s.Sound mem Whole) : s.Accepts mem := by
  refine ⟨fun k hk => h.respond_isSome hk, ?_⟩
  intro hart buf PC _ hfresh
  unfold RevPrefetcher.IsAvail
  split
  · rw [Option.isSome_map]
    exact h.fill_isSome hfresh hart PC
  · split
    · rfl
    · split
      · rfl
      · split
        · have hupper := h.FetchUpper_isSome hfresh hart ((PC + 2) % W64)
          split
          · rename_i hnone
            rw [hnone] at hupper
            cases hupper
          · split <;> rfl
        · rfl

theorem Sound.advance_isSome (h : s.Sound mem Whole) {buf Addr i : ℕ} {st : Stream}
    (hfresh : ∀ st ∈ s.streams, st.buf ≠ buf) (hst : s.streams[i]? = some st)
    (hfree : st.off Addr = s.depth - 1 → ∀ r ∈ s.reads, r.buf ≠ st.buf) (hart : ℕ) :
    (s.advance mem hart buf Addr i st).isSome = true := by
  unfold RevPrefetcher.advance
  split
  · rename_i hlast
    refine (h.delete hst (hfree hlast)).fill_isSome ?_ hart _
    exact fun st' hst' => hfresh st' (List.mem_of_mem_eraseIdx hst')
  · rfl

theorem Sound.InstFetch_isSome (h : s.Sound mem Whole) {buf PC : ℕ} (heven : PC % 2 = 0)
    (hready : s.Ready PC) (hfresh : ∀ st ∈ s.streams, st.buf ≠ buf) (hart : ℕ)
    (hok : s.Intact (.InstFetch hart buf PC)) : (s.InstFetch mem hart buf PC).isSome = true := by
  obtain ⟨st, hlook, hword⟩ := hready PC (mem_halves_self PC)
  have hidx : s.streams[s.streams.findIdx fun st => st.contains s.depth PC]? = some st := by
    rw [← List.find?_eq_getElem?_findIdx]
    exact hlook
  have hadv := h.advance_isSome hfresh hidx (hok hready st hlook) hart
  obtain ⟨-, hc, hbase⟩ := h.lookup_spec hlook
  have hoff := (Stream.off_of_contains hbase hc).1
  have hnot : ¬st.off PC > s.depth - 1 := by omega
  unfold RevPrefetcher.InstFetch
  simp only [hidx, hnot, if_false, hword]
  split
  · rwa [Option.isSome_map]
  · rename_i hodd
    rw [Stream.starts_iff hbase hc] at hodd
    obtain ⟨st', hlook', hword'⟩ := hready ((PC + 2) % W64) (by simp [halves, hodd])
    rw [h.FetchUpper_eq (upper_aligned heven hodd)]
    simp only [hlook', hword', if_false]
    rwa [Option.isSome_map]

/-- Answers leave a sound state that is ready. -/
theorem Sound.respond_ready {PC : ℕ} (ks : List ℕ) {s₁ : RevPrefetcher} (h : s.Sound mem Whole)
    (hready : s.Ready PC) (hexec : exec (RevPrefetcher.respond mem) s ks = some s₁) :
    s₁.Sound mem Whole ∧ s₁.Ready PC := by
  induction ks generalizing s with
  | nil =>
    cases hexec
    exact ⟨h, hready⟩
  | cons k ks ih =>
    simp only [exec, Option.bind_eq_some_iff] at hexec
    obtain ⟨s₂, hs₂, hexec⟩ := hexec
    exact ih (h.respond hs₂) (fun a ha => h.has_respond hs₂ (hready a ha)) hexec

theorem Sound.delivers (h : s.Sound mem Whole) {hart buf PC : ℕ} (heven : PC % 2 = 0)
    (hs : s.IsAvail mem hart buf PC = some (true, s')) : s'.Delivers mem PC := by
  rcases h.IsAvail_cases heven hs with ⟨-, rfl, hready⟩ | ⟨hfalse, -⟩ | ⟨hfalse, -⟩
  · intro ks s₁ hexec
    obtain ⟨h₁, hready₁⟩ := h.respond_ready ks hready hexec
    exact ⟨fun hart' buf' res s₂ hcall => h₁.InstFetch_ready heven hready₁ hcall,
      fun hart' buf' hfresh hok => h₁.InstFetch_isSome heven hready₁ hfresh hart' hok⟩
  · cases hfalse
  · cases hfalse

theorem Sound.live (h : s.Sound mem Whole) {PC : ℕ} (hfetch : Fetchable mem s.depth PC) :
    s.Live mem PC := by
  intro tr s₁ hrun hcalls hnewest hthree
  by_contra hnever
  have hcount := (asks_le_missing h hfetch hrun hcalls hnewest fun p hp hasks => by
    by_contra hav
    exact hnever ⟨p, hp, hasks, by simpa using hav⟩).2
  have htwo := s.missing_le PC
  omega

/-- The fetch of instructions in every run of calls at even addresses that all
    meet `Intact`, over a memory that is not modified. -/
theorem fetch_correct (mem : ℕ → BitVec 8) (depth : ℕ) (ctrl : Bool)
    {tr : List (RevPrefetcher × FetchEvent)} (hrun : Run (step mem) (init depth ctrl) tr s)
    (heven : ∀ p ∈ tr, p.2.Even) (hok : ∀ p ∈ tr, p.1.Intact p.2) :
    s.Accepts mem ∧
    (∀ hart buf PC s₁, PC % 2 = 0 → s.IsAvail mem hart buf PC = some (true, s₁) →
      s₁.Delivers mem PC) ∧
    ∀ PC, Fetchable mem depth PC → s.Live mem PC := by
  have hinv := hrun.invariant (fun s => s.Sound mem Whole ∧ s.depth = depth)
    (fun s e => e.Even ∧ s.Intact e) ⟨Sound.init mem depth ctrl, rfl⟩
    (fun s e s' h hok hs => by
      obtain ⟨hsound, hdepth⟩ := h.1.step hok.2 hok.1 hs
      exact ⟨hsound, hdepth.trans h.2⟩)
    fun p hp => ⟨heven p hp, hok p hp⟩
  obtain ⟨⟨hsound, hdepth⟩, -⟩ := hinv
  refine ⟨hsound.accepts, fun hart buf PC s₁ hPC hs => hsound.delivers hPC hs, ?_⟩
  intro PC hfetch
  exact hsound.live (by rwa [hdepth])

/-- A memory that holds its own addresses, and one with the sentinel at 64. -/
def countMem (a : ℕ) : BitVec 8 := BitVec.ofNat 8 a

def sentinelMem (a : ℕ) : BitVec 8 :=
  if a = 64 then 0xEF else if a = 65 then 0xBE else if a = 66 then 0xAD else if a = 67 then 0xDE
  else 0

/-- The stream at 8 is deleted while its first word is outstanding, and the next
    stream gets its memory. The late answer then overwrites the word at 12. -/
def lateAnswer : List FetchEvent :=
  [.IsAvail 0 1 8, .respond 1, .InstFetch 0 1 12, .respond 1, .respond 1, .respond 0]

def lateState : RevPrefetcher :=
  { depth := 2, ctrl := true, streams := [⟨12, 1, [0x0b0a0908, 0x13121110]⟩] }

def sentinelState : RevPrefetcher :=
  { depth := 1, ctrl := false, streams := [⟨64, 1, [0xdeadbeef]⟩] }

/-- Calls for an instruction that is the sentinel. -/
theorem sentinel_run (n : ℕ) :
    ∃ tr, Run (step sentinelMem) (init 1 false) tr sentinelState ∧
      tr.countP (asks 64) = n + 1 ∧ ∀ p ∈ tr, available sentinelMem p = false := by
  induction n with
  | zero =>
    have hstep : step sentinelMem (init 1 false) (.IsAvail 0 1 64) = some sentinelState := by
      decide +kernel
    refine ⟨_, Run.nil.snoc hstep, by decide +kernel, ?_⟩
    decide +kernel
  | succ n ih =>
    obtain ⟨tr, hrun, hcount, hfalse⟩ := ih
    have hstep : step sentinelMem sentinelState (.IsAvail 0 1 64) = some sentinelState := by
      decide +kernel
    have hasks : asks 64 (sentinelState, .IsAvail 0 1 64) = true := by decide +kernel
    have hnot : available sentinelMem (sentinelState, .IsAvail 0 1 64) = false := by decide +kernel
    refine ⟨_, hrun.snoc hstep, ?_, ?_⟩
    · rw [List.countP_append, hcount, List.countP_singleton, if_pos hasks]
    · intro p hp
      rcases List.mem_append.mp hp with hp | hp
      · exact hfalse p hp
      · rw [List.mem_singleton.mp hp]
        exact hnot

/-- `InstFetch` after `IsAvail` returns the word at 8 for the instruction at 12;
    and an instruction that is the sentinel is never available, although its
    reads are answered at every call. -/
theorem fetch_wrong :
    (exec (step countMem) (init 2 true) lateAnswer = some lateState ∧
      lateState.IsAvail countMem 0 2 12 = some (true, lateState) ∧
      (lateState.InstFetch countMem 0 2 12).map Prod.fst = some ⟨true, true, memWord countMem 8⟩ ∧
      memWord countMem 8 ≠ memWord countMem 12 ∧ ¬lateState.Delivers countMem 12) ∧
    ∀ n, ∃ tr s, Run (step sentinelMem) (init 1 false) tr s ∧
      tr.countP (asks 64) = n + 1 ∧ ∀ p ∈ tr, available sentinelMem p = false := by
  have hne : memWord countMem 8 ≠ memWord countMem 12 := by decide +kernel
  have hfetch : (lateState.InstFetch countMem 0 2 12).map Prod.fst =
      some ⟨true, true, memWord countMem 8⟩ := by decide +kernel
  refine ⟨⟨by decide +kernel, by decide +kernel, hfetch, hne, ?_⟩, ?_⟩
  · intro hdelivers
    obtain ⟨⟨res, s₂⟩, hcall, hres⟩ := Option.map_eq_some_iff.mp hfetch
    have hright := (hdelivers [] lateState rfl).1 0 2 res s₂ hcall
    dsimp only at hres
    rw [hright, FetchResult.mk.injEq] at hres
    exact hne hres.2.2.symm
  · intro n
    obtain ⟨tr, hrun⟩ := sentinel_run n
    exact ⟨tr, sentinelState, hrun⟩

/-- The instruction at 8 is filled before it is fetched, and so is the one at 12
    before its stream is deleted. -/
def wholeFetch : List FetchEvent :=
  [.IsAvail 0 1 8, .respond 1, .respond 0, .IsAvail 0 2 8, .InstFetch 0 2 8, .InstFetch 0 2 12,
    .respond 0, .respond 0]

/-- The calls of `InstFetch` in it come when no read is outstanding. -/
theorem wholeFetch_intact :
    ∀ p ∈ trace (step countMem) (init 2 true) wholeFetch, p.2.Even ∧ p.1.Intact p.2 := by
  have hcheck : (trace (step countMem) (init 2 true) wholeFetch).all (fun p =>
      match p.2 with
      | .IsAvail _ _ PC => PC % 2 == 0
      | .InstFetch _ _ PC => PC % 2 == 0 && p.1.reads.isEmpty
      | .respond _ => true) = true := by decide +kernel
  intro p hp
  have hp' := List.all_eq_true.mp hcheck p hp
  obtain ⟨s, e⟩ := p
  cases e with
  | IsAvail hart buf PC => exact ⟨beq_iff_eq.mp hp', trivial⟩
  | InstFetch hart buf PC =>
    simp only [Bool.and_eq_true, beq_iff_eq, List.isEmpty_iff] at hp'
    refine ⟨hp'.1, ?_⟩
    intro _ st _ _ r hr
    rw [hp'.2] at hr
    cases hr
  | respond k => exact ⟨trivial, trivial⟩

theorem fetch_whole :
    ∃ s, exec (step countMem) (init 2 true) wholeFetch = some s ∧
      (∃ s₁, s.IsAvail countMem 0 3 12 = some (true, s₁) ∧ s₁.Delivers countMem 12) ∧
      Fetchable countMem 2 14 ∧ s.Live countMem 14 := by
  have hsome : (exec (step countMem) (init 2 true) wholeFetch).bind
      (fun s => (s.IsAvail countMem 0 3 12).map Prod.fst) = some true := by decide +kernel
  obtain ⟨s, hexec, havail⟩ := Option.bind_eq_some_iff.mp hsome
  obtain ⟨⟨avail, s₁⟩, hcall, rfl⟩ := Option.map_eq_some_iff.mp havail
  have hfetch : Fetchable countMem 2 14 := by
    unfold Fetchable
    decide +kernel
  have hrun := run_of_exec wholeFetch hexec
  obtain ⟨-, hdelivers, hlive⟩ := fetch_correct countMem 2 true hrun
    (fun p hp => (wholeFetch_intact p hp).1) (fun p hp => (wholeFetch_intact p hp).2)
  exact ⟨s, hexec, ⟨s₁, hcall, hdelivers 0 3 12 s₁ (by decide) hcall⟩, hfetch, hlive 14 hfetch⟩

end RevPrefetcher

end RevCPU
