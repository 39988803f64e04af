import Mathlib.Data.List.Permutation
import RevCPU.Lib.SerialOrder
import RevCPU.MemCtrl.SeqCalls

namespace RevCPU

open Lib RevBasicMemCtrl

/-- Two calls access a byte in common. -/
def Call.meets (c c' : Call) : Bool :=
  decide (c.Addr < c'.Addr + c'.Size) && decide (c'.Addr < c.Addr + c.Size)

theorem Call.meets_of_touches {c c' : Call} {a : ℕ} (h : c.touches a = true)
    (h' : c'.touches a = true) : c.meets c' = true := by
  rw [Call.touches_iff] at h h'
  simp only [Call.meets, Bool.and_eq_true, decide_eq_true_eq]
  omega

/-- The AMOs have been atomic: in some order, each has returned what it finds
    after the ones before it, and the memory is that after all of them. -/
def Atomic (m₀ : ℕ → UInt8) (s : Backed) : Prop :=
  ∃ calls : List (ℕ × Call), calls.Perm s.sys.issued ∧ s.mem = runCalls m₀ calls ∧
    ∀ l₁ k c l₂, calls = l₁ ++ (k, c) :: l₂ → ∀ v, (k, v) ∈ s.returned ↔
      v = getBytes (runCalls m₀ l₁) c.Addr c.Size

namespace Backed

/-- The call `q` has begun to take effect and has bytes left to write. -/
def Midway (log : List Effect) (q : ℕ × Call) : Prop :=
  (∃ e ∈ log, e.seq = q.1) ∧ ∃ i < q.2.Size, logAt log true q.1 (q.2.Addr + i) = none

instance (log : List Effect) (q : ℕ × Call) : Decidable (Midway log q) :=
  inferInstanceAs (Decidable (_ ∧ _))

/-- A call that meets the call `q` is midway. -/
def Blocked (s : Backed) (q : ℕ × Call) : Prop :=
  ∃ q' ∈ s.sys.issued, q'.1 ≠ q.1 ∧ q.2.meets q'.2 = true ∧ Midway s.log q'

/-- The steps of runs that keep AMOs atomic: all calls are AMOs, and a read of
    an AMO takes effect only while no other AMO that meets it is midway. -/
def AtomicOk (P : Params) (s : Backed) : BackedEvent → Prop
  | .send c => c.isAMO = true ∧ (c.enqueues = true → CallOk P c ∧ s.sys.FreeTarget c)
  | .effect id => ∀ op, s.sys.ctrl.outstanding.lookup id = some op → op.Op = .MemOpREAD →
      ∀ q ∈ s.sys.issued, q.1 = op.seq → ¬s.Blocked q
  | _ => True

instance (s : Backed) (q : ℕ × Call) : Decidable (s.Blocked q) :=
  inferInstanceAs (Decidable (∃ q' ∈ s.sys.issued, _ ∧ _ ∧ _))

instance (P : Params) (s : Backed) : (ev : BackedEvent) → Decidable (AtomicOk P s ev)
  | .send c => inferInstanceAs (Decidable (c.isAMO = true ∧ (_ → _ ∧ _)))
  | .effect id => decidable_of_iff (∀ op ∈ s.sys.ctrl.outstanding.lookup id, op.Op = .MemOpREAD →
      ∀ q ∈ s.sys.issued, q.1 = op.seq → ¬s.Blocked q) Iff.rfl
  | .clockTick | .processNextRqst | .respond _ => isTrue trivial

/-- What such runs keep: no AMO has begun while one that meets it was midway. -/
structure Exclusive (P : Params) (m₀ : ℕ → UInt8) (s : Backed) : Prop where
  traced : s.Traced P m₀
  returns : s.ReturnsRead
  amos : ∀ q ∈ s.sys.issued, q.2.isAMO = true
  apart : ∀ l₁ e l₂, s.log = l₁ ++ e :: l₂ → e.write = false → ∀ q ∈ s.sys.issued, q.1 = e.seq →
    ∀ q' ∈ s.sys.issued, q'.1 ≠ e.seq → q.2.meets q'.2 = true → ¬Midway l₁ q'

section
variable {P : Params} {m₀ : ℕ → UInt8} {s s' : Backed} {ev : BackedEvent}

theorem AtomicOk.sendOk (h : AtomicOk P s ev) : SendOk P s ev := by
  rintro c rfl henq
  exact h.2 henq

/-- More calls do not matter for effects that are in the log. -/
theorem Exclusive.issue (hs : s.Exclusive P m₀) {sys : CtrlSys} {ev : Event}
    (h : CtrlSys.Stepped P s.sys ev sys) (hamo : ∀ c, ev = .send c → c.isAMO = true)
    (htraced : Traced P m₀ { s with sys }) (hreturns : ReturnsRead { s with sys }) :
    Exclusive P m₀ { s with sys } := by
  have hissued : sys.issued = s.sys.issued ∨
      ∃ c, ev = .send c ∧ sys.issued = s.sys.issued ++ [(s.sys.ctrl.nextPtr, c)] := by
    cases h with
    | send => exact .inr ⟨_, rfl, rfl⟩
    | _ => exact .inl rfl
  have hold : ∀ e ∈ s.log, ∀ q ∈ sys.issued, e.seq = q.1 → q ∈ s.sys.issued := by
    intro e he q hq hseq
    rcases hissued with heq | ⟨c, -, heq⟩
    · rwa [heq] at hq
    · rw [heq, List.mem_append, List.mem_singleton] at hq
      rcases hq with hq | rfl
      · exact hq
      · exact absurd hseq (Nat.ne_of_lt (hs.traced.log_lt e he))
  refine ⟨htraced, hreturns, ?_, ?_⟩
  · intro q hq
    rcases hissued with heq | ⟨c, hev, heq⟩
    · exact hs.amos q (by rwa [heq] at hq)
    · simp only [heq, List.mem_append, List.mem_singleton] at hq
      rcases hq with hq | rfl
      · exact hs.amos q hq
      · exact hamo c hev
  · intro l₁ e l₂ hlog hread q hq hseq q' hq' hne hmeets hmid
    have hlog' : s.log = l₁ ++ e :: l₂ := hlog
    obtain ⟨e', he', hseq'⟩ := hmid.1
    exact hs.apart l₁ e l₂ hlog' hread q (hold e (by simp [hlog']) q hq hseq.symm) hseq q'
      (hold e' (by simp [hlog', he']) q' hq' hseq') hne hmeets hmid

/-- One more effect, of the request in flight with number `id`. -/
theorem Exclusive.effect (hs : s.Exclusive P m₀) (htraced : s'.Traced P m₀)
    (hreturns : s'.ReturnsRead) (hissued : s'.sys.issued = s.sys.issued) {e : Effect}
    (hlog : s'.log = s.log ++ [e])
    (hok : e.write = false → ∀ q ∈ s.sys.issued, q.1 = e.seq → ¬s.Blocked q) :
    s'.Exclusive P m₀ := by
  refine ⟨htraced, hreturns, by rw [hissued]; exact hs.amos, ?_⟩
  rw [hissued]
  intro l₁ e' l₂ hsplit hread q hq hseq q' hq' hne hmeets hmid
  rw [hlog] at hsplit
  rcases List.eq_nil_or_concat l₂ with rfl | ⟨l, x, rfl⟩
  · obtain ⟨rfl, hlast⟩ := List.append_inj' hsplit rfl
    obtain rfl : e = e' := by simpa using hlast
    exact hok hread q hq hseq ⟨q', hq', by rwa [hseq], hmeets, hmid⟩
  · rw [List.concat_eq_append, ← List.cons_append, ← List.append_assoc] at hsplit
    obtain ⟨heq, -⟩ := List.append_inj' hsplit rfl
    exact hs.apart l₁ e' l heq hread q hq hseq q' hq' hne hmeets hmid

theorem Exclusive.stepped (hs : s.Exclusive P m₀) (h : Stepped P s ev s') (hok : AtomicOk P s ev) :
    s'.Exclusive P m₀ := by
  have htraced := hs.traced.stepped h hok.sendOk
  have hreturns := hs.returns.stepped hs.traced h
  cases h with
  | send hplain hsys =>
    refine hs.issue hsys ?_ htraced hreturns
    intro c hc
    cases hc
    exact hok.1
  | clockTick hsys => exact hs.issue hsys (by simp) htraced hreturns
  | processNextRqst hsys => exact hs.issue hsys (by simp) htraced hreturns
  | read hr hop hdone hcls =>
    obtain ⟨hkind, -⟩ := hs.traced.op_kind hr hop
    refine hs.effect htraced hreturns rfl rfl ?_
    intro _ q hq hseq
    exact hok _ hop (hkind.symm.trans hcls) q hq hseq
  | write hr hop hdone hcls => exact hs.effect htraced hreturns rfl rfl (by simp)
  | respond hr hop hdone htick hresp => exact ⟨htraced, hreturns, hs.amos, hs.apart⟩

theorem Exclusive.init (P : Params) (host : Host) (mem : ℕ → UInt8) :
    (Backed.init host mem).Exclusive P mem := by
  refine ⟨Traced.init P host mem, ?_, ?_, ?_⟩ <;> simp [Backed.init, CtrlSys.init, ReturnsRead]

/-- The log of such a run is serial in the order of the first effects. -/
theorem Exclusive.serial (hs : s.Exclusive P m₀) :
    (callSpec s.sys.issued).Serial m₀ (firsts (s.log.map Effect.access))
      (s.log.map Effect.access) := by
  have hcall : ∀ {l₁ e l₂}, s.log.map Effect.access = l₁ ++ e :: l₂ → ∃ l f l' c,
      s.log = l ++ f :: l' ∧ l₁ = l.map Effect.access ∧ e = f.access ∧
      (f.seq, c) ∈ s.sys.issued ∧ Logged m₀ c l f := by
    intro l₁ e l₂ hsplit
    obtain ⟨l, t, hlog, rfl, ht⟩ := List.map_eq_append_iff.mp hsplit
    obtain ⟨f, l', rfl, rfl, -⟩ := List.map_eq_cons_iff.mp ht
    obtain ⟨c, hc, hlogged⟩ := hs.traced.logged l f l' hlog
    exact ⟨l, f, l', c, hlog, rfl, rfl, hc, hlogged⟩
  refine SeqSpec.serial_of_exclusive _ ?_ ?_ ?_
  · intro l₁ e l₂ hsplit ord hmem holder
    obtain ⟨l, f, l', c, hlog, rfl, rfl, hc, hlogged⟩ := hcall hsplit
    exact hlogged.inPlace (hs.traced.lookup_issued hc) (hs.traced.flight.calls _ hc).1 hmem holder
  · intro e he a ha
    obtain ⟨l₁, l₂, hsplit⟩ := List.append_of_mem he
    obtain ⟨l, f, l', c, hlog, rfl, rfl, hc, hlogged⟩ := hcall hsplit
    exact (callSpec_range (hs.traced.lookup_issued hc) a).trans
      (Call.touches_iff.mpr (hlogged.inside a ha))
  · intro l₁ e l₂ hsplit hfirst e' he' a ha ha'
    obtain ⟨l, f, l', c, hlog, rfl, rfl, hc, hlogged⟩ := hcall hsplit
    obtain ⟨f', hf', rfl⟩ := List.mem_map.mp he'
    obtain ⟨t, t', hsplit'⟩ := List.append_of_mem hf'
    obtain ⟨c', hc', -⟩ := hs.traced.logged t f' (t' ++ f :: l') (by simp [hlog, hsplit'])
    have hlook := hs.traced.lookup_issued hc
    have hlook' := hs.traced.lookup_issued hc'
    have hin : c.touches a = true := (callSpec_range hlook a).symm.trans ha
    have hin' : c'.touches a = true := (callSpec_range hlook' a).symm.trans ha'
    have hread : f.write = false := by
      by_contra hwrite
      obtain ⟨old, -, hold, -⟩ := hlogged.amo (by simpa using hwrite) (hs.amos _ hc)
      have hpos : 0 < c.Size := by
        have := Call.touches_iff.mp hin
        omega
      obtain ⟨x, hx, hseq, -⟩ := exists_of_logAt (hold 0 hpos)
      exact hfirst x.access (List.mem_map.mpr ⟨x, hx, rfl⟩) hseq
    have hne : f'.seq ≠ f.seq := hfirst f'.access he'
    have hdone := hs.apart l f l' hlog hread (f.seq, c) hc rfl (f'.seq, c') hc' hne
      (Call.meets_of_touches hin hin')
    refine (finishedAt_iff hlook' l a).mpr ?_
    have hwrites : c'.writes = true := by
      have hamo := hs.amos _ hc'
      cases c' <;> simp [Call.isAMO] at hamo
      rfl
    obtain ⟨hlow, hhigh⟩ := Call.touches_iff.mp hin'
    rw [hwrites]
    intro hnone
    have hlt : a - c'.Addr < c'.Size := by omega
    refine hdone ⟨⟨f', hf', rfl⟩, a - c'.Addr, hlt, ?_⟩
    rwa [Nat.add_sub_cancel' hlow]

/-- When everything is answered, the AMOs have been atomic. -/
theorem Exclusive.atomic (hs : s.Exclusive P m₀) (hdrained : s.Drained) : Atomic m₀ s := by
  have hord := hs.traced.flight.wf.ord
  have hfence : ∀ q ∈ s.sys.issued, q.2.isFence = false := by
    intro q hq
    have hamo := hs.amos q hq
    generalize q.2 = c at hamo
    cases c <;> simp [Call.isAMO] at hamo
    rfl
  have hpos : ∀ q ∈ s.sys.issued, 0 < q.2.Size := by
    intro q hq
    rcases (hs.traced.flight.calls q hq).2.amo (hs.amos q hq) with h | h <;> omega
  have hkeys : ∀ k ∈ firsts (s.log.map Effect.access), ∃ c, (k, c) ∈ s.sys.issued := by
    intro k hk
    obtain ⟨x, hx, rfl⟩ := mem_firsts.mp hk
    obtain ⟨e, he, rfl⟩ := List.mem_map.mp hx
    obtain ⟨l₁, l₂, hsplit⟩ := List.append_of_mem he
    obtain ⟨c, hc, -⟩ := hs.traced.logged l₁ e l₂ hsplit
    exact ⟨c, hc⟩
  obtain ⟨calls, hcalls, hsub⟩ := exists_entries hkeys
  have hnodup : (calls.map Prod.fst).Nodup := by
    rw [hcalls]
    exact firsts_nodup _
  have hserial := hs.serial
  rw [← hcalls] at hserial
  refine ⟨calls, ?_, ?_, ?_⟩
  · have hissued : (s.sys.issued.map Prod.fst).Nodup :=
      (List.pairwise_map.mpr hord.history).imp Nat.ne_of_lt
    refine (List.perm_ext_iff_of_nodup hnodup.of_map hissued.of_map).mpr ?_
    intro q
    refine ⟨hsub q, ?_⟩
    intro hq
    have hdone := (hs.traced.finished hdrained hq (hfence q hq)).final 0 (hpos q hq)
    obtain ⟨e, he, hseq, -⟩ := logAt_ne_none.mp hdone
    have hmem : q.1 ∈ calls.map Prod.fst := by
      rw [hcalls, mem_firsts]
      exact ⟨e.access, List.mem_map.mpr ⟨e, he, rfl⟩, hseq⟩
    obtain ⟨q', hq', hfst⟩ := List.mem_map.mp hmem
    obtain ⟨k, c⟩ := q
    obtain ⟨k', c'⟩ := q'
    obtain rfl : k' = k := hfst
    rwa [hord.history_unique hq (hsub _ hq')]
  · funext a
    rw [hs.traced.memory, SeqSpec.Serial.after_finished _ hserial hnodup, callSpec_mem]
    · intro q hq
      exact ⟨hs.traced.lookup_issued (hsub q hq), (hs.traced.flight.calls q (hsub q hq)).1⟩
    · intro k hk b hb
      obtain ⟨⟨k, c⟩, hq, rfl⟩ := List.mem_map.mp hk
      have hlook := hs.traced.lookup_issued (hsub _ hq)
      have hin : c.touches b = true := (callSpec_range hlook b).symm.trans hb
      obtain ⟨hlow, hhigh⟩ := Call.touches_iff.mp hin
      have hdone := (hs.traced.finished hdrained (hsub _ hq) (hfence _ (hsub _ hq))).final
        (b - c.Addr) (by omega)
      rw [Nat.add_sub_cancel' hlow] at hdone
      exact (finishedAt_iff hlook s.log b).mpr hdone
  · intro l₁ k c l₂ hsplit v
    have hreads : c.reads = true := by
      have hamo := hs.amos (k, c) (hsub _ (by simp [hsplit]))
      cases c <;> simp [Call.isAMO] at hamo
      rfl
    exact hs.traced.returned_iff hs.returns hdrained hsub hnodup (fun e he _ => he) hserial hsplit
      hreads v

end

/-- AMOs are atomic in every run in which a read of an AMO takes effect only
    while no other AMO on the same bytes is between its read and its write. -/
theorem atomic_of_run {P : Params} {host : Host} {mem : ℕ → UInt8}
    {tr : List (Backed × BackedEvent)} {s : Backed} (hrun : Run (step P) (init host mem) tr s)
    (hok : ∀ p ∈ tr, AtomicOk P p.1 p.2) (hdrained : s.Drained) : Atomic mem s := by
  have hinv := (hrun.invariant (Exclusive P mem) (AtomicOk P) (Exclusive.init P host mem)
    (fun s ev s' hs hok hstep => hs.stepped (step_cases hstep) hok) hok).1
  exact hinv.atomic hdrained

/-- `AMOADD` of one to the word at 64. -/
def amoAdd (Hart target : ℕ) : Call := .AMO Hart 64 64 4 [1, 0, 0, 0] (some target) {} .F_AMOADD

/-- The state that runs on an empty memory start in. -/
def zeroed : Backed := init ⟨fun _ _ => 0, []⟩ fun _ => 0

/-- Two harts add one; both reads take effect before the first write. -/
def lostUpdate : List BackedEvent :=
  [.send (amoAdd 0 0), .send (amoAdd 1 1), .clockTick, .processNextRqst, .processNextRqst,
    .effect 0, .effect 1, .respond 0, .respond 1, .clockTick, .processNextRqst, .processNextRqst,
    .effect 2, .respond 2, .effect 3, .respond 3]

/-- What is compared of the last state of such a run. -/
def outcome (s : Backed) : ℕ × ℕ × List (ℕ × Call) × UInt8 :=
  (s.sys.ctrl.rqstQ.length, s.sys.ctrl.outstanding.length, s.sys.issued, s.mem 64)

/-- One of the two updates is lost: the word is one afterwards. -/
theorem amo_update_lost :
    ∃ tr s, Run (step {}) zeroed tr s ∧ s.Drained ∧ (∀ p ∈ tr, SendOk {} p.1 p.2) ∧
      (∀ q ∈ s.sys.issued, q.2.isAMO = true) ∧ ¬Atomic (fun _ => 0) s := by
  have hexec : (exec (step {}) zeroed lostUpdate).map outcome =
      some (0, 0, [(0, amoAdd 0 0), (1, amoAdd 1 1)], 1) := by decide +kernel
  obtain ⟨s, hexec, hout⟩ := Option.map_eq_some_iff.mp hexec
  simp only [outcome, Prod.mk.injEq, List.length_eq_zero_iff] at hout
  obtain ⟨hqueue, hflight, hissued, hword⟩ := hout
  refine ⟨_, s, run_of_exec lostUpdate hexec, ⟨hqueue, hflight⟩, by decide +kernel,
    by rw [hissued]; decide, ?_⟩
  rintro ⟨calls, hperm, hmem, -⟩
  rw [hissued] at hperm
  have hall : ∀ cs ∈ List.permutations' [(0, amoAdd 0 0), (1, amoAdd 1 1)],
      runCalls (fun _ => 0) cs 64 = 2 := by decide +kernel
  rw [hmem, hall calls (List.mem_permutations'.mpr hperm)] at hword
  exact absurd hword (by decide)

/-- The two updates again; the second read waits for the first write. -/
def keptUpdates : List BackedEvent :=
  [.send (amoAdd 0 0), .clockTick, .processNextRqst, .processNextRqst, .effect 0,
    .send (amoAdd 1 1), .respond 0, .clockTick, .processNextRqst, .processNextRqst, .effect 2,
    .effect 1, .respond 2, .respond 1, .clockTick, .processNextRqst, .processNextRqst, .effect 3,
    .respond 3]

theorem amo_updates_kept :
    ∃ tr s, Run (step {}) zeroed tr s ∧ s.mem 64 = 2 ∧ Atomic (fun _ => 0) s := by
  have hexec : (exec (step {}) zeroed keptUpdates).map outcome =
      some (0, 0, [(0, amoAdd 0 0), (1, amoAdd 1 1)], 2) := by decide +kernel
  obtain ⟨s, hexec, hout⟩ := Option.map_eq_some_iff.mp hexec
  simp only [outcome, Prod.mk.injEq, List.length_eq_zero_iff] at hout
  have hrun := run_of_exec keptUpdates hexec
  exact ⟨_, s, hrun, hout.2.2.2, atomic_of_run hrun (by decide +kernel) ⟨hout.1, hout.2.1⟩⟩

end Backed

end RevCPU
