import RevCPU.MemCtrl.Accounting

namespace RevCPU

open Lib RevBasicMemCtrl

/-- The limit of the requests of a kind. -/
def Params.limit (P : Params) : Counter → ℕ
  | .read => P.max_loads
  | .write => P.max_stores
  | .flush => P.max_flush
  | .llsc => P.max_llsc
  | .readlock => P.max_readlock
  | .writeunlock => P.max_writeunlock
  | .custom => P.max_custom

namespace RevBasicMemCtrl

/-- A cached operation was sent only if there are slots for its lines. -/
theorem buildStandardMemRqst_slots {P : Params} {s s' : RevBasicMemCtrl} {op : RevMemOp}
    (h : buildStandardMemRqst P s op = some (s', true))
    (hcached : (P.hasCache && op.isCacheable) = true) :
    ∃ slots, freeSlots P s op.Op = some slots ∧
      ¬slots < UInt64.ofNat (getNumCacheLines P op.Addr op.Size) := by
  unfold buildStandardMemRqst at h
  rw [if_pos hcached] at h
  unfold buildCacheMemRqst at h
  dsimp only at h
  split at h
  · cases h
  · rename_i slots hslots
    split at h
    · cases h
    · rename_i hnot
      exact ⟨slots, hslots, hnot⟩

/-- What `processNextRqst` sends: nothing, or the operation of a slot that it
    found slots for. -/
theorem processNextRqst_slots {P : Params} {s s' : RevBasicMemCtrl} {t t' : TMax}
    (h : processNextRqst P s t = some (s', t')) :
    s'.outstanding = s.outstanding ∨
    ∃ i op, Candidate P s.rqstQ t i op ∧ s.isPendingAMO i op = false ∧
      s' = dispatchSlot P s i op ∧
      ((P.hasCache && op.isCacheable) = true → ∃ slots, freeSlots P s op.Op = some slots ∧
        ¬slots < UInt64.ofNat (getNumCacheLines P op.Addr op.Size)) := by
  unfold processNextRqst at h
  split at h
  · cases h
    exact Or.inl rfl
  · split at h
    · cases h
    · cases h
      exact Or.inl rfl
    · rename_i i op t₁ hnext
      have hcand : Candidate P s.rqstQ t i op := (nextCandidate_spec hnext).2
      split at h
      · cases h
        exact Or.inl rfl
      · split at h
        · cases h
          exact Or.inl rfl
        · rename_i hfence hpend
          split at h
          · cases h
          · rename_i s₁ hbuild
            have hslots := buildStandardMemRqst_slots hbuild
            obtain ⟨hf, -⟩ | ⟨-, -, -, rfl⟩ := buildStandardMemRqst_cases hbuild
            · cases hf
            · simp only [Option.some.injEq, Prod.mk.injEq, sendParts_rqstQ] at h
              refine Or.inr ⟨i, op, hcand, by simpa using hpend, ?_, hslots⟩
              rw [← h.1]
              rfl
          · rename_i s₁ hbuild
            obtain ⟨-, rfl⟩ | ⟨hf, -⟩ := buildStandardMemRqst_cases hbuild
            · cases h
              exact Or.inl rfl
            · cases hf

/-- The slots of a kind, while its counter is right and within the limit. -/
theorem freeSlots_toNat {P : Params} {s : RevBasicMemCtrl} {o : MemOp} {slots : UInt64}
    {k : Counter} (hslots : freeSlots P s o = some slots) (hk : o.counter = some k)
    (hcount : (s.num k).toNat = s.inFlight k) (hle : s.inFlight k ≤ P.limit k)
    (hlimit : P.limit k < 2 ^ 64) : slots.toNat = P.limit k - s.inFlight k := by
  have heq : slots = UInt64.ofNat (P.limit k) - s.num k := by
    cases o <;> simp only [MemOp.counter, Option.some.injEq, reduceCtorEq] at hk <;>
      (subst hk; exact (Option.some.inj hslots).symm)
  have hofNat : (UInt64.ofNat (P.limit k)).toNat = P.limit k := by
    rw [UInt64.toNat_ofNat', Nat.mod_eq_of_lt hlimit]
  have hsub : s.num k ≤ UInt64.ofNat (P.limit k) := by
    rw [UInt64.le_iff_toNat_le, hofNat, hcount]
    exact hle
  rw [heq, UInt64.toNat_sub_of_le _ _ hsub, hofNat, hcount]

theorem getNumCacheLines_lt (P : Params) (Addr Size : ℕ) :
    getNumCacheLines P Addr Size < 2 ^ 32 := by
  unfold getNumCacheLines
  split
  · decide
  · split
    · split
      · decide
      · split
        · decide
        · exact Nat.mod_lt _ (by decide)
    · split
      · decide
      · exact Nat.mod_lt _ (by decide)

end RevBasicMemCtrl

namespace CtrlSys

/-- No kind has more requests outstanding than its limit. -/
def Limited (P : Params) (s : CtrlSys) : Prop := ∀ k, s.ctrl.inFlight k ≤ P.limit k

/-- The operation is sent without a look at the outstanding requests: it is not
    cached, or the number of its lines has wrapped to 0. -/
def unchecked (P : Params) (op : RevMemOp) : Bool :=
  !(P.hasCache && op.isCacheable) || getNumCacheLines P op.Addr op.Size == 0

/-- The condition on an event. A dispatch of an operation that is not checked
    finds its kind below the limit, and no request is answered whose handler
    decrements the counter of another kind. -/
def LimitOk (P : Params) (s : CtrlSys) : Event → Prop
  | .processNextRqst => ∀ t i op k, s.tick = some t → Candidate P s.ctrl.rqstQ t i op →
      s.ctrl.isPendingAMO i op = false → unchecked P op = true → op.Op.counter = some k →
      s.ctrl.inFlight k < P.limit k
  | ev => answersLocked s ev = false

theorem answersLocked_of_limitOk {P : Params} {s : CtrlSys} {ev : Event} (h : LimitOk P s ev) :
    answersLocked s ev = false := by
  cases ev with
  | processNextRqst => rfl
  | _ => exact h

/-- A dispatch stays within the limits. -/
theorem dispatch_limited {P : Params} {s : CtrlSys} {i : ℕ} {op : RevMemOp} {k : Counter}
    (h : Limited P s) (hlimit : P.limit k < 2 ^ 64)
    (hcount : (s.ctrl.num k).toNat = s.ctrl.inFlight k)
    (hraw : unchecked P op = true → op.Op.counter = some k → s.ctrl.inFlight k < P.limit k)
    (hslots : (P.hasCache && op.isCacheable) = true →
      ∃ slots, freeSlots P s.ctrl op.Op = some slots ∧
        ¬slots < UInt64.ofNat (getNumCacheLines P op.Addr op.Size)) :
    (dispatchSlot P s.ctrl i op).inFlight k ≤ P.limit k := by
  rw [dispatchSlot_inFlight]
  by_cases hk : op.Op.counter = some k
  · rw [if_pos hk, dispatchParts_length]
    by_cases hcached : (P.hasCache && op.isCacheable) = true
    · obtain ⟨slots, hfree, hnot⟩ := hslots hcached
      have hnat := freeSlots_toNat hfree hk hcount (h k) hlimit
      have hlines := getNumCacheLines_lt P op.Addr op.Size
      have hle : getNumCacheLines P op.Addr op.Size ≤ slots.toNat := by
        rw [UInt64.lt_iff_toNat_lt, UInt64.toNat_ofNat', Nat.mod_eq_of_lt (by omega)] at hnot
        omega
      have hsplit : (splitOp P op).SplitRqst = getNumCacheLines P op.Addr op.Size := by
        simp [splitOp, hcached]
      have hbelow := h k
      rw [if_pos hcached, hsplit]
      by_cases hzero : getNumCacheLines P op.Addr op.Size = 0
      · have hroom := hraw (by simp [unchecked, hzero]) hk
        omega
      · omega
    · have hroom := hraw (by simp [unchecked, hcached]) hk
      rw [if_neg hcached]
      omega
  · rw [if_neg hk]
    exact h k

/-- The limits and the counters hold together. -/
structure Within (P : Params) (s : CtrlSys) : Prop where
  book : s.ctrl.Bookkeeping
  counts : ∀ k, (s.ctrl.num k).toNat = s.ctrl.inFlight k
  limited : Limited P s

theorem Within.step {P : Params} {s s' : CtrlSys} {ev : Event} (h : Within P s)
    (hlimit : ∀ k, P.limit k < 2 ^ 64) (hok : LimitOk P s ev) (hs : step P s ev = some s') :
    Within P s' := by
  have hcases := step_cases hs
  have hlimited : Limited P s' := by
    intro k
    cases ev with
    | processNextRqst =>
      cases htick : s.tick with
      | none => simp [CtrlSys.step, htick] at hs
      | some t =>
        simp only [CtrlSys.step, htick] at hs
        obtain ⟨⟨ctrl, t'⟩, hproc, rfl⟩ := Option.map_eq_some_iff.mp hs
        rcases processNextRqst_slots hproc with hsame | ⟨i, op, hcand, hpend, rfl, hslots⟩
        · have heq : ctrl.inFlight k = s.ctrl.inFlight k := by
            unfold inFlight
            rw [hsame]
          dsimp only
          rw [heq]
          exact h.limited k
        · exact dispatch_limited h.limited (hlimit k) (h.counts k)
            (fun hraw hk => hok t i op k htick hcand hpend hraw hk) hslots
    | response id data =>
      cases hcases with
      | @response r _ ctrl host htick hr hresp =>
        have hfly := hresp.inFlight h.book hr k
        have hle := h.limited k
        dsimp only
        omega
    | _ => cases hcases <;> exact h.limited k
  refine ⟨hcases.bookkeeping h.book, ?_, hlimited⟩
  intro k
  exact hcases.counts h.book h.counts (answersLocked_of_limitOk hok) k
    (Nat.lt_of_le_of_lt (hlimited k) (hlimit k))

/-- The limits hold in every state of a run whose events all meet `LimitOk`. -/
theorem limited_of_run (P : Params) (host : Host) (hlimit : ∀ k, P.limit k < 2 ^ 64)
    {tr : List (CtrlSys × Event)} {s : CtrlSys} (hrun : Run (step P) (init host) tr s)
    (hok : ∀ p ∈ tr, LimitOk P p.1 p.2) : Limited P s ∧ ∀ p ∈ tr, Limited P p.1 := by
  have hinit : Within P (init host) := by
    refine ⟨init_bookkeeping host, ?_, ?_⟩
    · intro k
      cases k <;> rfl
    · intro k
      exact Nat.zero_le _
  have hinv := hrun.invariant (Within P) (LimitOk P) hinit
    (fun _ _ _ h hok hs => h.step hlimit hok hs) hok
  exact ⟨hinv.1.limited, fun p hp => (hinv.2 p hp).limited⟩

/-- Two loads over a controller without a cache that allows one. -/
def oneLoad : Params := { max_loads := 1 }

def twoLoads : List Event :=
  [.send (.READ 0 64 64 4 (some 1) {} .F_NONE), .send (.READ 0 128 128 4 (some 2) {} .F_NONE),
    .clockTick, .processNextRqst, .processNextRqst, .clockTick, .processNextRqst]

/-- The second tick sends the second load while the first is outstanding. -/
theorem two_outstanding :
    ∃ tr s, Run (step oneLoad) (init zeroHost) tr s ∧ s.ctrl.inFlight .read = 2 ∧
      ¬Limited oneLoad s := by
  have hrun : Run (step oneLoad) (init zeroHost) (trace (step oneLoad) (init zeroHost) twoLoads) _ :=
    run_of_exec twoLoads rfl
  refine ⟨_, _, hrun, by decide, ?_⟩
  intro hlimited
  have hread := hlimited .read
  revert hread
  decide

/-- A load over two lines of a cache. -/
def cachedLoad : List Event :=
  [.send (.READ 0 60 60 8 (some 1) {} .F_NONE), .clockTick, .processNextRqst]

theorem cachedLoad_limited :
    ∃ tr s, Run (step { lineSize := 64, max_loads := 2 }) (init zeroHost) tr s ∧
      s.ctrl.inFlight .read = 2 ∧ Limited { lineSize := 64, max_loads := 2 } s := by
  have hrun : Run (step { lineSize := 64, max_loads := 2 }) (init zeroHost)
      (trace (step { lineSize := 64, max_loads := 2 }) (init zeroHost) cachedLoad) _ :=
    run_of_exec cachedLoad rfl
  have hlimit : ∀ k, Params.limit { lineSize := 64, max_loads := 2 } k < 2 ^ 64 := by
    intro k
    cases k <;> decide
  have hchecked : (trace (step { lineSize := 64, max_loads := 2 }) (init zeroHost) cachedLoad).all
      (fun p => p.1.ctrl.rqstQ.all (fun op => !unchecked { lineSize := 64, max_loads := 2 } op) &&
        !answersLocked p.1 p.2) = true := by decide
  refine ⟨_, _, hrun, by decide, (limited_of_run _ zeroHost hlimit hrun fun p hp => ?_).1⟩
  have hp' := List.all_eq_true.mp hchecked p hp
  simp only [Bool.and_eq_true, List.all_eq_true, Bool.not_eq_true'] at hp'
  obtain ⟨s₀, ev⟩ := p
  cases ev with
  | processNextRqst =>
    intro t i op k _ hcand _ hraw _
    rw [hp'.1 op (List.mem_of_getElem? hcand.slot)] at hraw
    cases hraw
  | _ => exact hp'.2

end CtrlSys

end RevCPU
