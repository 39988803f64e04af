import RevCPU.Program.Execute
import RevCPU.Program.Memory

namespace RevCPU

open Lib

namespace RevPrefetcher

/-- A prefetcher of a core with local memory: its streams hold the words of
    `mem`, and no read is outstanding. -/
structure Idle (mem : ℕ → BitVec 8) (depth : ℕ) (s : RevPrefetcher) : Prop where
  sound : s.Sound mem Whole
  depth_eq : s.depth = depth
  ctrl : s.ctrl = false
  reads : s.reads = []

section Words

variable {mem mem' : ℕ → BitVec 8} {s s' : RevPrefetcher}

/-- A turn of the loop of `Fill` uses one word of the memory. -/
theorem issue_congr {r : FillRead} (h : memWord mem r.req.Addr = memWord mem' r.req.Addr) :
    s.issue mem r = s.issue mem' r := by
  have hlast : (s.push r).reads[s.reads.length]? = some r := by
    simp [push]
  unfold issue respond
  rw [hlast]
  dsimp only
  rw [h]

theorem foldlM_issue_congr {hart buf Addr : ℕ} {ys : List ℕ}
    (h : ∀ y ∈ ys, memWord mem (fillReq hart Addr y).Addr =
      memWord mem' (fillReq hart Addr y).Addr) :
    ys.foldlM (fun s y => s.issue mem ⟨fillReq hart Addr y, buf, y⟩) s =
      ys.foldlM (fun s y => s.issue mem' ⟨fillReq hart Addr y, buf, y⟩) s := by
  induction ys generalizing s with
  | nil => rw [List.foldlM_nil, List.foldlM_nil]
  | cons y ys ih =>
    have hword := h y List.mem_cons_self
    have hone := issue_congr (s := s) (r := ⟨fillReq hart Addr y, buf, y⟩) hword
    have hrest : ∀ s : RevPrefetcher, _ = _ :=
      fun s => ih (s := s) fun y hy => h y (List.mem_cons_of_mem _ hy)
    simp only [List.foldlM_cons, hone, hrest]

/-- The memories agree on the words that a fill at the address reads. -/
def SameWords (depth : ℕ) (mem mem' : ℕ → BitVec 8) (Addr : ℕ) : Prop :=
  ∀ v ∈ fillWords depth Addr, memWord mem v = memWord mem' v

theorem Fill_congr {hart buf Addr : ℕ} (h : SameWords s.depth mem mem' Addr) :
    s.Fill mem hart buf Addr = s.Fill mem' hart buf Addr := by
  have hwords : ∀ y ∈ List.range s.depth,
      memWord mem (fillReq hart (Addr &&& 0xFFFFFFFFFFFFFFFC) y).Addr =
        memWord mem' (fillReq hart (Addr &&& 0xFFFFFFFFFFFFFFFC) y).Addr :=
    fun y hy => h _ (List.mem_map_of_mem hy)
  unfold Fill
  split
  · rfl
  · exact foldlM_issue_congr hwords

theorem FetchUpper_congr {hart buf Addr : ℕ} (h : SameWords s.depth mem mem' Addr) :
    s.FetchUpper mem hart buf Addr = s.FetchUpper mem' hart buf Addr := by
  unfold FetchUpper
  rw [Fill_congr h]

theorem IsAvail_congr {hart buf PC : ℕ} (h : SameWords s.depth mem mem' PC)
    (hnext : SameWords s.depth mem mem' ((PC + 2) % W64)) :
    s.IsAvail mem hart buf PC = s.IsAvail mem' hart buf PC := by
  unfold IsAvail
  rw [Fill_congr h, FetchUpper_congr hnext]

theorem advance_congr {hart buf PC i : ℕ} {st : Stream}
    (hnext : SameWords s.depth mem mem' ((PC + 2) % W64)) :
    s.advance mem hart buf PC i st = s.advance mem' hart buf PC i st := by
  unfold advance
  rw [Fill_congr (s := { s with streams := s.streams.eraseIdx i }) hnext]

/-- What the new stream leaves and every turn of the loop keeps holds after
    `Fill`. -/
theorem Fill_invariant (I : RevPrefetcher → Prop)
    (hinit : ∀ streams, I { s with streams := streams })
    (hstep : ∀ s r s', I s → s.issue mem r = some s' → I s') {hart buf Addr : ℕ}
    (hs : s.Fill mem hart buf Addr = some s') : I s' := by
  have hfold : ∀ (ys : List ℕ) (base : ℕ) (s₀ : RevPrefetcher), I s₀ →
      ys.foldlM (fun s y => s.issue mem ⟨fillReq hart base y, buf, y⟩) s₀ = some s' → I s' := by
    intro ys base
    induction ys with
    | nil =>
      intro s₀ h₀ hs₀
      rw [List.foldlM_nil] at hs₀
      rwa [← Option.some.inj hs₀]
    | cons y ys ih =>
      intro s₀ h₀ hs₀
      rw [List.foldlM_cons] at hs₀
      obtain ⟨s₁, hone, hrest⟩ := Option.bind_eq_some_iff.mp hs₀
      exact ih s₁ (hstep s₀ _ s₁ h₀ hone) hrest
  unfold Fill at hs
  split at hs
  · cases hs
  · exact hfold _ _ _ (hinit _) hs

theorem Fill_depth {hart buf Addr : ℕ} (hs : s.Fill mem hart buf Addr = some s') :
    s'.depth = s.depth := by
  refine Fill_invariant (fun s₀ => s₀.depth = s.depth) ?_ ?_ hs
  · exact fun _ => rfl
  · intro s₀ r s₁ h₀ hone
    unfold issue at hone
    split at hone
    · rw [← Option.some.inj hone]
      exact h₀
    · exact (respond_kept hone).depth.trans h₀

theorem FetchUpper_depth {hart buf Addr : ℕ} {ret : Bool} {upper : Option (BitVec 32)}
    (hs : s.FetchUpper mem hart buf Addr = some (ret, upper, s')) : s'.depth = s.depth := by
  unfold FetchUpper at hs
  split at hs
  · cases hs
    rfl
  · cases hs
    rfl
  · cases hs
    rfl
  · obtain ⟨s₁, hfill, heq⟩ := Option.map_eq_some_iff.mp hs
    cases heq
    exact Fill_depth hfill

theorem InstFetch_congr {hart buf PC : ℕ} (h : SameWords s.depth mem mem' PC)
    (hnext : SameWords s.depth mem mem' ((PC + 2) % W64)) :
    s.InstFetch mem hart buf PC = s.InstFetch mem' hart buf PC := by
  unfold InstFetch
  rw [Fill_congr h, FetchUpper_congr hnext]
  dsimp only
  split
  · rfl
  · simp only [advance_congr hnext]
    split
    · rfl
    · split
      · rfl
      · split
        · rfl
        · cases hupper : s.FetchUpper mem' hart buf ((PC + 2) % W64) with
          | none => rfl
          | some t =>
            obtain ⟨ret, upper, s₁⟩ := t
            have hdepth : s₁.depth = s.depth := FetchUpper_depth hupper
            cases ret with
            | false => rfl
            | true =>
              cases upper with
              | none => rfl
              | some UInst => simp only [advance_congr (s := s₁) (hdepth ▸ hnext)]

end Words

section Calls

variable {mem : ℕ → BitVec 8} {depth : ℕ} {s s' : RevPrefetcher}

/-- Without a controller a read is answered in the turn that makes it. -/
theorem issue_idle {r : FillRead} (hctrl : s.ctrl = false) (hreads : s.reads = [])
    (hs : s.issue mem r = some s') : s'.ctrl = false ∧ s'.reads = [] := by
  unfold issue at hs
  rw [hctrl, if_neg (by decide)] at hs
  obtain ⟨r', -, -, hctrl', hreads', -⟩ := respond_cases hs
  refine ⟨hctrl'.trans hctrl, ?_⟩
  rw [hreads', hreads]
  simp [push, hreads]

theorem fill_idle {hart buf Addr : ℕ} (hctrl : s.ctrl = false) (hreads : s.reads = [])
    (hs : s.Fill mem hart buf Addr = some s') : s'.ctrl = false ∧ s'.reads = [] :=
  Fill_invariant (fun s => s.ctrl = false ∧ s.reads = []) (fun _ => ⟨hctrl, hreads⟩)
    (fun _ _ _ h hone => issue_idle h.1 h.2 hone) hs

theorem Idle.fill (h : s.Idle mem depth) {hart buf Addr : ℕ}
    (hs : s.Fill mem hart buf Addr = some s') : s'.Idle mem depth := by
  have hgrown := h.sound.fill_grown hs
  obtain ⟨hctrl, hreads⟩ := fill_idle h.ctrl h.reads hs
  exact ⟨hgrown.sound, hgrown.depth.trans h.depth_eq, hctrl, hreads⟩

theorem Idle.newest (h : s.Idle mem depth) : s.newestOutstanding = false := by
  have hqueue : s.LSQueue = [] := by
    have hperm := h.sound.queued
    rw [h.reads] at hperm
    simpa using hperm.length_eq
  unfold newestOutstanding
  rw [hqueue]
  cases s.OutstandingFetchQ.getLast? with
  | none => rfl
  | some req => rfl

theorem Idle.settled (h : s.Idle mem depth) (PC : ℕ) : s.Settled PC := by
  intro a _ r hr
  rw [h.reads] at hr
  cases hr

theorem Idle.intact (h : s.Idle mem depth) (e : FetchEvent) : s.Intact e := by
  cases e with
  | InstFetch hart buf PC =>
    intro _ st _ _ r hr
    rw [h.reads] at hr
    cases hr
  | IsAvail hart buf PC => trivial
  | respond k => trivial

/-- `IsAvail` on an idle prefetcher: the words are ready, or it has begun a stream
    for one of them that it did not have. -/
theorem Idle.IsAvail (h : s.Idle mem depth) {PC : ℕ} (heven : PC % 2 = 0)
    (hfetch : Fetchable mem depth PC) {buf : ℕ} (hfresh : ∀ st ∈ s.streams, st.buf ≠ buf)
    (hart : ℕ) :
    ∃ avail s', s.IsAvail mem hart buf PC = some (avail, s') ∧ s'.Idle mem depth ∧
      (avail = true ∧ s' = s ∧ s.Ready PC ∨ avail = false ∧ s'.missing PC < s.missing PC) := by
  obtain ⟨⟨avail, s'⟩, hs⟩ :=
    Option.isSome_iff_exists.mp (h.sound.accepts.2 hart buf PC heven hfresh)
  refine ⟨avail, s', hs, ?_⟩
  have hsettled := h.sound.IsAvail_settled heven (h.depth_eq ▸ hfetch) (h.settled PC) h.newest hs
  rcases h.sound.IsAvail_cases heven hs with ⟨rfl, rfl, hready⟩ | ⟨rfl, rfl, -⟩ |
    ⟨rfl, a, -, -, hfill⟩
  · exact ⟨h, .inl ⟨rfl, rfl, hready⟩⟩
  · rcases hsettled with habs | hlt
    · cases habs
    · exact absurd hlt (Nat.lt_irrefl _)
  · rcases hsettled with habs | hlt
    · cases habs
    · exact ⟨h.fill hfill, .inr ⟨rfl, hlt⟩⟩

/-- `InstFetch` of words that are ready. -/
theorem Idle.InstFetch (h : s.Idle mem depth) {PC : ℕ} (heven : PC % 2 = 0)
    (hready : s.Ready PC) {buf : ℕ} (hfresh : ∀ st ∈ s.streams, st.buf ≠ buf) (hart : ℕ) :
    ∃ s', s.InstFetch mem hart buf PC = some (⟨true, true, memWord mem PC⟩, s') ∧
      s'.Idle mem depth := by
  obtain ⟨⟨res, s'⟩, hs⟩ := Option.isSome_iff_exists.mp
    (h.sound.InstFetch_isSome heven hready hfresh hart (h.intact _))
  obtain rfl := h.sound.InstFetch_ready heven hready hs
  refine ⟨s', hs, ?_⟩
  rcases h.sound.InstFetch_cases heven hs with
    ⟨-, -, i, st, hlook, hst, hadv⟩ | ⟨habs, -⟩ | ⟨habs, -⟩
  · obtain ⟨hsound, hdepth⟩ :=
      h.sound.advance hst (h.intact (.InstFetch hart buf PC) hready st hlook) hadv
    unfold RevPrefetcher.advance at hadv
    split at hadv
    · obtain ⟨hctrl, hreads⟩ := fill_idle (s := { s with streams := s.streams.eraseIdx i })
        h.ctrl h.reads hadv
      exact ⟨hsound, hdepth.trans h.depth_eq, hctrl, hreads⟩
    · obtain rfl := Option.some.inj hadv
      exact h
  · cases habs
  · cases habs

/-- A call at `PC` fills from there or from the next half word. -/
theorem fillOf_cases {hart buf PC a : ℕ} {e : FetchEvent}
    (he : e = .IsAvail hart buf PC ∨ e = .InstFetch hart buf PC) (ha : s.fillOf e = some a) :
    a = PC ∨ a = (PC + 2) % W64 := by
  rcases he with rfl | rfl
  · unfold fillOf at ha
    dsimp only at ha
    split at ha
    · exact .inl (Option.some.inj ha).symm
    · split_ifs at ha
      · exact .inr (Option.some.inj ha).symm
  · unfold fillOf at ha
    dsimp only at ha
    split at ha
    · exact .inl (Option.some.inj ha).symm
    · split_ifs at ha
      · exact .inr (Option.some.inj ha).symm
      · split at ha
        · cases ha
        · cases ha
        · exact .inr (Option.some.inj ha).symm
        · exact .inr (Option.some.inj ha).symm
      · split at ha
        · cases ha
        · cases ha
        · cases ha
        · exact .inr (Option.some.inj ha).symm

end Calls

end RevPrefetcher

end RevCPU
