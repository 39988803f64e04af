import RevCPU.Fetch.FetchRun

namespace RevCPU

open Lib

namespace RevPrefetcher

variable {mem : ℕ → BitVec 8} {s s' : RevPrefetcher}

/-- The books of a prefetcher with a controller: both queues have the reads that
    are outstanding, and these go to streams that are there. -/
structure Booked (s : RevPrefetcher) : Prop where
  ctrl : s.ctrl = true
  queued : (s.LSQueue.map entryKey).Perm (s.reads.map fun r => reqKey r.req)
  fetching : (s.OutstandingFetchQ.map reqKey).Perm (s.reads.map fun r => reqKey r.req)
  live : ∀ r ∈ s.reads, ∃ st ∈ s.streams, st.buf = r.buf

/-- The loop of `Fill` with a controller. -/
theorem issueAll_ctrl {hart buf base : ℕ} (ys : List ℕ) (h : s.Booked)
    (hst : ∃ st ∈ s.streams, st.buf = buf)
    (hs : ys.foldlM (fun s y => s.issue mem ⟨fillReq hart base y, buf, y⟩) s = some s') :
    s'.Booked := by
  induction ys generalizing s with
  | nil =>
    cases hs
    exact h
  | cons y ys ih =>
    rw [List.foldlM_cons, issue, if_pos h.ctrl] at hs
    refine ih (s := s.push ⟨fillReq hart base y, buf, y⟩) ⟨h.ctrl, ?_, ?_, ?_⟩ hst hs
    · simp only [push, List.map_append, List.map_cons, List.map_nil]
      exact h.queued.append_right _
    · simp only [push, List.map_append, List.map_cons, List.map_nil]
      exact h.fetching.append_right _
    · intro r hr
      rcases List.mem_append.mp hr with hr | hr
      · exact h.live r hr
      · rw [List.mem_singleton.mp hr]
        exact hst

theorem Booked.fill {hart buf Addr : ℕ} (h : s.Booked)
    (hs : s.Fill mem hart buf Addr = some s') : s'.Booked := by
  unfold Fill at hs
  split at hs
  · cases hs
  · dsimp only at hs
    refine issueAll_ctrl (s := { s with streams := s.streams ++ [_] }) _
      ⟨h.ctrl, h.queued, h.fetching, ?_⟩ ?_ hs
    · intro r hr
      obtain ⟨st, hst, hbuf⟩ := h.live r hr
      exact ⟨st, List.mem_append_left _ hst, hbuf⟩
    · exact ⟨_, List.mem_append_right _ (List.mem_singleton.mpr rfl), rfl⟩

theorem Booked.FetchUpper {hart buf Addr : ℕ} {ret : Bool} {upper : Option (BitVec 32)}
    (h : s.Booked) (hs : s.FetchUpper mem hart buf Addr = some (ret, upper, s')) :
    s'.Booked ∧ (upper.isSome = true → s' = s) := by
  unfold RevPrefetcher.FetchUpper at hs
  split at hs
  · cases hs
    exact ⟨h, fun _ => rfl⟩
  · cases hs
    exact ⟨h, fun _ => rfl⟩
  · cases hs
    exact ⟨h, fun _ => rfl⟩
  · obtain ⟨s₁, hfill, heq⟩ := Option.map_eq_some_iff.mp hs
    cases heq
    exact ⟨h.fill hfill, fun hsome => by cases hsome⟩

/-- When `IsAvail` returns true, nothing was filled and the newest fetch is not
    outstanding. -/
theorem Booked.IsAvail {hart buf Addr : ℕ} {avail : Bool} (h : s.Booked)
    (hs : s.IsAvail mem hart buf Addr = some (avail, s')) :
    s'.Booked ∧ (avail = true → s'.newestOutstanding = false) := by
  unfold RevPrefetcher.IsAvail at hs
  split at hs
  · obtain ⟨s₁, hfill, heq⟩ := Option.map_eq_some_iff.mp hs
    cases heq
    exact ⟨h.fill hfill, fun htrue => by cases htrue⟩
  · split at hs
    · cases hs
      exact ⟨h, fun htrue => by cases htrue⟩
    · split at hs
      · cases hs
        exact ⟨h, fun htrue => by cases htrue⟩
      · split at hs
        · split at hs
          · cases hs
          · rename_i ret upper s₁ hupper
            have hbooked := (h.FetchUpper hupper).1
            split at hs
            · cases hs
              exact ⟨hbooked, fun htrue => by simpa using htrue⟩
            · cases hs
              exact ⟨hbooked, fun htrue => by cases htrue⟩
        · cases hs
          exact ⟨h, fun htrue => by simpa using htrue⟩

/-- With the books in order the newest fetch is always outstanding, if there is
    one. -/
theorem Booked.reads_nil (h : s.Booked) (hnewest : s.newestOutstanding = false) :
    s.reads = [] := by
  unfold newestOutstanding at hnewest
  split at hnewest
  · rename_i hlast
    rw [List.getLast?_eq_none_iff] at hlast
    have hperm := h.fetching
    rw [hlast, List.map_nil, List.nil_perm, List.map_eq_nil_iff] at hperm
    exact hperm
  · rename_i req hlast
    have hmem : req ∈ s.OutstandingFetchQ := List.mem_of_getLast? hlast
    have hkey : reqKey req ∈ s.LSQueue.map entryKey := by
      rw [h.queued.mem_iff, ← h.fetching.mem_iff]
      exact List.mem_map.mpr ⟨req, hmem, rfl⟩
    rw [any_isEntryOf.mpr hkey] at hnewest
    cases hnewest

theorem Booked.advance {hart buf Addr i : ℕ} {st : Stream} (h : s.Booked) (hreads : s.reads = [])
    (hs : s.advance mem hart buf Addr i st = some s') : s'.Booked := by
  unfold RevPrefetcher.advance at hs
  split at hs
  · refine Booked.fill (s := { s with streams := s.streams.eraseIdx i })
      ⟨h.ctrl, h.queued, h.fetching, ?_⟩ hs
    intro r hr
    simp [hreads] at hr
  · cases hs
    exact h

theorem Booked.InstFetch {hart buf Addr : ℕ} {res : FetchResult} (h : s.Booked)
    (hreads : s.reads = []) (hs : s.InstFetch mem hart buf Addr = some (res, s')) : s'.Booked := by
  unfold RevPrefetcher.InstFetch at hs
  dsimp only at hs
  split at hs
  · obtain ⟨s₁, hfill, heq⟩ := Option.map_eq_some_iff.mp hs
    cases heq
    exact h.fill hfill
  · split at hs
    · cases hs
      exact h
    · split at hs
      · cases hs
        exact h
      · split at hs
        · obtain ⟨s₁, hadv, heq⟩ := Option.map_eq_some_iff.mp hs
          cases heq
          exact h.advance hreads hadv
        · split at hs
          · cases hs
          · rename_i hupper
            cases hs
            exact (h.FetchUpper hupper).1
          · rename_i hupper
            cases hs
            exact (h.FetchUpper hupper).1
          · rename_i s₁ hupper
            obtain ⟨hbooked, hsame⟩ := h.FetchUpper hupper
            obtain ⟨s₂, hadv, heq⟩ := Option.map_eq_some_iff.mp hs
            cases heq
            refine hbooked.advance ?_ hadv
            rw [hsame rfl]
            exact hreads

/-- What an answer takes out of the fetch queue. -/
theorem respond_fetchQ {k : ℕ} {r : FillRead} (hr : s.reads[k]? = some r)
    (hs : s.respond mem k = some s') :
    s'.OutstandingFetchQ = s.OutstandingFetchQ.eraseP fun q => q.Addr == r.req.Addr := by
  unfold respond at hs
  rw [hr] at hs
  dsimp only at hs
  unfold MarkLoadComplete at hs
  split at hs
  · cases hs
    rfl
  · cases hs

/-- The fetch queue without the first entry of an address, if this is an entry
    of the request. -/
theorem map_eraseP_addr {req : MemReq} (l : List MemReq)
    (hown : ∀ q, (l.find? fun q => q.Addr == req.Addr) = some q → q.LSQHash = req.LSQHash) :
    (l.eraseP fun q => q.Addr == req.Addr).map reqKey = (l.map reqKey).erase (reqKey req) := by
  induction l with
  | nil => rfl
  | cons q l ih =>
    by_cases hq : q.Addr = req.Addr
    · have hkey : reqKey q = reqKey req := by
        have hhash := hown q (by simp [hq])
        rw [reqKey, reqKey, hq, hhash]
      rw [List.eraseP_cons_of_pos (by simpa using hq), List.map_cons, hkey, List.erase_cons_head]
    · have hkey : reqKey q ≠ reqKey req := fun heq => hq (Prod.mk.inj heq).2
      have hnext : ∀ q', (l.find? fun q => q.Addr == req.Addr) = some q' →
          q'.LSQHash = req.LSQHash := by
        intro q' hq'
        refine hown q' ?_
        rw [List.find?_cons_of_neg (by simpa using hq)]
        exact hq'
      rw [List.eraseP_cons_of_neg (by simpa using hq), List.map_cons, List.map_cons,
        List.erase_cons_tail (by simpa using hkey), ih hnext]

theorem Booked.respond {k : ℕ} (h : s.Booked)
    (hown : ∀ r q, s.reads[k]? = some r →
      (s.OutstandingFetchQ.find? fun q => q.Addr == r.req.Addr) = some q →
      q.LSQHash = r.req.LSQHash)
    (hs : s.respond mem k = some s') : s'.Booked := by
  have hkept := respond_kept hs
  obtain ⟨r, hr, -, -, hreads, -, hqueue⟩ := respond_cases hs
  have hfetchQ := respond_fetchQ hr hs
  obtain ⟨l₁, l₂, hsplit, herase⟩ := eraseIdx_split hr
  rw [herase] at hreads
  refine ⟨hkept.ctrl.trans h.ctrl, ?_, ?_, ?_⟩
  · rw [hqueue, map_eraseP_isEntryOf, hreads]
    exact perm_erase_reads (by rw [← hsplit]; exact h.queued)
  · rw [hfetchQ, map_eraseP_addr _ fun q hq => hown r q hr hq, hreads]
    exact perm_erase_reads (by rw [← hsplit]; exact h.fetching)
  · intro r' hr'
    have hr'mem : r' ∈ s.reads := by
      rw [hreads] at hr'
      rw [hsplit]
      simp only [List.mem_append, List.mem_cons] at hr' ⊢
      tauto
    obtain ⟨st, hst, hbuf⟩ := h.live r' hr'mem
    obtain ⟨st', hst', -, hbuf'⟩ := hkept.mem hst
    exact ⟨st', hst', hbuf'.trans hbuf⟩

end RevPrefetcher

/-- A prefetcher whose caller asks `IsAvail` before `InstFetch`: `avail` is the
    address for which the last call of `IsAvail` returned true, unless
    `InstFetch` was called since. -/
structure AskedFetch where
  pref : RevPrefetcher
  avail : Option ℕ

namespace AskedFetch

def init (depth : ℕ) : AskedFetch := ⟨RevPrefetcher.init depth true, none⟩

/-- `InstFetch` is refused for an address that is not available. -/
def step (mem : ℕ → BitVec 8) (s : AskedFetch) : FetchEvent → Option AskedFetch
  | .IsAvail hart buf PC =>
    (s.pref.IsAvail mem hart buf PC).map fun (avail, pref) => ⟨pref, if avail then some PC else none⟩
  | .InstFetch hart buf PC =>
    if s.avail = some PC then (s.pref.InstFetch mem hart buf PC).map fun (_, pref) => ⟨pref, none⟩
    else none
  | .respond k => (s.pref.respond mem k).map fun pref => { s with pref }

/-- No stream is deleted while one of its words is being read, and every read
    goes to a stream that is there. -/
def Undeleted (s : AskedFetch) (e : FetchEvent) : Prop :=
  (∀ r ∈ s.pref.reads, ∃ st ∈ s.pref.streams, st.buf = r.buf) ∧
  match e with
  | .InstFetch _ _ PC => ∀ st, s.pref.lookup PC = some st → st.off PC = s.pref.depth - 1 →
      ∀ r ∈ s.pref.reads, r.buf ≠ st.buf
  | _ => True

/-- The condition on an answer: the entry of `OutstandingFetchQ` that
    `MarkInstructionLoadComplete` removes, the first of the address, is of the
    hart of the answered read. -/
def OwnEntry (s : AskedFetch) : FetchEvent → Prop
  | .respond k => ∀ r q, s.pref.reads[k]? = some r →
      (s.pref.OutstandingFetchQ.find? fun q => q.Addr == r.req.Addr) = some q →
      q.LSQHash = r.req.LSQHash
  | _ => True

/-- The invariant: the books are in order, and nothing is outstanding when an
    instruction is available. -/
structure Ordered (s : AskedFetch) : Prop where
  booked : s.pref.Booked
  quiet : s.avail.isSome = true → s.pref.reads = []

theorem Ordered.init (depth : ℕ) : (init depth).Ordered := by
  refine ⟨⟨rfl, ?_, ?_, ?_⟩, fun h => by cases h⟩
  · exact List.Perm.refl _
  · exact List.Perm.refl _
  · intro r hr
    cases hr

theorem Ordered.step {mem : ℕ → BitVec 8} {s s' : AskedFetch} {e : FetchEvent} (h : s.Ordered)
    (hok : s.OwnEntry e) (hs : step mem s e = some s') : s'.Ordered := by
  cases e with
  | IsAvail hart buf PC =>
    obtain ⟨⟨avail, pref⟩, hcall, rfl⟩ := Option.map_eq_some_iff.mp hs
    obtain ⟨hbooked, hnewest⟩ := h.booked.IsAvail hcall
    refine ⟨hbooked, ?_⟩
    intro hsome
    cases avail with
    | false => cases hsome
    | true => exact hbooked.reads_nil (hnewest rfl)
  | InstFetch hart buf PC =>
    simp only [AskedFetch.step, Option.ite_none_right_eq_some] at hs
    obtain ⟨havail, hs⟩ := hs
    obtain ⟨⟨res, pref⟩, hcall, rfl⟩ := Option.map_eq_some_iff.mp hs
    have hreads := h.quiet (by rw [havail]; rfl)
    exact ⟨h.booked.InstFetch hreads hcall, fun hsome => by cases hsome⟩
  | respond k =>
    obtain ⟨pref, hcall, rfl⟩ := Option.map_eq_some_iff.mp hs
    refine ⟨h.booked.respond hok hcall, ?_⟩
    intro hsome
    have hreads := h.quiet hsome
    obtain ⟨r, hr, -⟩ := RevPrefetcher.respond_cases hcall
    simp [hreads] at hr

/-- In a run whose answers all meet `OwnEntry`, no stream is deleted while one of
    its words is being read. -/
theorem undeleted_of_run {mem : ℕ → BitVec 8} {depth : ℕ} {tr : List (AskedFetch × FetchEvent)}
    {s : AskedFetch} (hrun : Run (step mem) (init depth) tr s) (hok : ∀ p ∈ tr, p.1.OwnEntry p.2) :
    ∀ p ∈ tr, p.1.Undeleted p.2 := by
  have hinv := hrun.invariant Ordered OwnEntry (Ordered.init depth)
    (fun _ _ _ h hok hs => h.step hok hs) hok
  intro p hp
  have hordered := hinv.2 p hp
  refine ⟨hordered.booked.live, ?_⟩
  obtain ⟨s', hstep⟩ := hrun.step_mem p hp
  obtain ⟨s₀, e⟩ := p
  cases e with
  | InstFetch hart buf PC =>
    simp only [AskedFetch.step, Option.ite_none_right_eq_some] at hstep
    intro st _ _ r hr
    rw [hordered.quiet (by rw [hstep.1]; rfl)] at hr
    cases hr
  | _ => trivial

/-- Two harts read the word at 12. The answer to hart 1 takes the entry of hart 0
    out of the fetch queue, and the word at 16 becomes available. -/
def crossedCalls : List FetchEvent :=
  [.IsAvail 0 1 12, .IsAvail 1 2 8, .respond 1, .respond 2, .IsAvail 0 3 16]

/-- `InstFetch` at 16 then deletes the stream whose word at 12 is being read. -/
theorem deleted_while_read :
    ∃ tr s, Run (step RevPrefetcher.countMem) (init 2) tr s ∧ ∃ p ∈ tr, ¬p.1.Undeleted p.2 := by
  have hsome : (exec (step RevPrefetcher.countMem) (init 2) crossedCalls).map (fun s =>
      ((step RevPrefetcher.countMem s (.InstFetch 0 3 16)).isSome,
        s.pref.lookup 16, s.pref.depth, s.pref.reads.map FillRead.buf)) =
      some (true, some ⟨12, 1, [0xdeadbeef, 0x13121110]⟩, 2, [1, 2]) := by decide +kernel
  obtain ⟨s, hexec, hs⟩ := Option.map_eq_some_iff.mp hsome
  simp only [Prod.mk.injEq] at hs
  obtain ⟨hstep, hlook, hdepth, hbufs⟩ := hs
  obtain ⟨s', hs'⟩ := Option.isSome_iff_exists.mp hstep
  refine ⟨_, s', (run_of_exec crossedCalls hexec).snoc hs', (s, .InstFetch 0 3 16),
    List.mem_append_right _ (List.mem_singleton.mpr rfl), ?_⟩
  intro hundeleted
  have hread : 1 ∈ s.pref.reads.map FillRead.buf := by simp [hbufs]
  obtain ⟨r, hr, hbuf⟩ := List.mem_map.mp hread
  exact hundeleted.2 _ hlook (by rw [hdepth]; rfl) r hr hbuf

/-- One hart fetches the words at 8 and 12. -/
def askedCalls : List FetchEvent :=
  [.IsAvail 0 1 8, .respond 1, .respond 0, .IsAvail 0 2 8, .InstFetch 0 2 8, .IsAvail 0 2 12,
    .InstFetch 0 2 12, .respond 0]

theorem askedCalls_undeleted :
    ∃ s, exec (step RevPrefetcher.countMem) (init 2) askedCalls = some s ∧
      ∀ p ∈ trace (step RevPrefetcher.countMem) (init 2) askedCalls, p.1.Undeleted p.2 := by
  have hsome : (exec (step RevPrefetcher.countMem) (init 2) askedCalls).isSome = true := by
    decide +kernel
  obtain ⟨s, hexec⟩ := Option.isSome_iff_exists.mp hsome
  have hcheck : (trace (step RevPrefetcher.countMem) (init 2) askedCalls).all (fun p =>
      p.1.pref.reads.all fun r => p.1.pref.OutstandingFetchQ.all fun q =>
        q.LSQHash == r.req.LSQHash) = true := by decide +kernel
  refine ⟨s, hexec, undeleted_of_run (run_of_exec askedCalls hexec) ?_⟩
  intro p hp
  have hall := List.all_eq_true.mp hcheck p hp
  obtain ⟨s₀, e⟩ := p
  cases e with
  | respond k =>
    intro r q hr hq
    have hmem := List.all_eq_true.mp (List.all_eq_true.mp hall r (List.mem_of_getElem? hr)) q
      (List.mem_of_find?_eq_some hq)
    simpa using hmem
  | _ => trivial

end AskedFetch

end RevCPU
