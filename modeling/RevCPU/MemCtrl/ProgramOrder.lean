import RevCPU.MemCtrl.Lane
import RevCPU.MemCtrl.SeqCalls

namespace RevCPU

open Lib RevBasicMemCtrl

namespace Call

/-- The call is a load, store or AMO at address `A`. -/
def isTo (A : ℕ) (c : Call) : Bool := !c.isFence && c.Addr == A

/-- The call touches none of the eight bytes from `A` on. -/
def clearOf (A : ℕ) (c : Call) : Bool :=
  c.isFence || decide (c.Addr + c.Size ≤ A) || decide (A + 8 ≤ c.Addr)

theorem isTo_iff {A : ℕ} {c : Call} : c.isTo A = true ↔ c.isFence = false ∧ c.Addr = A := by
  simp [isTo]

end Call

namespace Backed

/-- The calls at address `A` in the order in which they were made. -/
def callsTo (A : ℕ) (s : Backed) : List (ℕ × Call) := s.sys.issued.filter fun q => q.2.isTo A

/-- The calls at address `A` have worked in program order: each load and AMO has
    returned what the calls before it leave, and the memory holds what all of
    them leave. -/
def ProgramOrder (A : ℕ) (m₀ : ℕ → UInt8) (s : Backed) : Prop :=
  (∀ a, A ≤ a → a < A + 8 → s.mem a = runCalls m₀ (s.callsTo A) a) ∧
    ∀ l₁ k c l₂, s.callsTo A = l₁ ++ (k, c) :: l₂ → c.reads = true → ∀ v, (k, v) ∈ s.returned ↔
      v = getBytes (runCalls m₀ l₁) c.Addr c.Size

/-- What the memory is assumed to do: requests that share a byte take effect in
    the order of their dispatch. -/
def EffectOrder (s : Backed) : BackedEvent → Prop
  | .effect id => ∀ r ∈ s.sys.ctrl.memIface, r.id = id → ∀ r' ∈ s.sys.ctrl.memIface, r'.id < id →
      r.pAddr < r'.pAddr + r'.size → r'.pAddr < r.pAddr + r.size → (s.done.lookup r'.id).isSome = true
  | _ => True

/-- The calls of the run: at address `A` with at most eight bytes, or clear of
    these bytes. -/
def CallsOk (P : Params) (A : ℕ) (s : Backed) : BackedEvent → Prop
  | .send c => c.enqueues = true → CallOk P c ∧ s.sys.FreeTarget c ∧
      (c.isTo A = true ∧ c.Size ≤ 8 ∨ c.clearOf A = true)
  | _ => True

/-- The dispatches of the run: an operation at address `A` is dispatched in its
    turn. -/
def TurnOk (P : Params) (A : ℕ) (s : Backed) : BackedEvent → Prop
  | .processNextRqst => s.sys.LaneOk P A .processNextRqst
  | _ => True

instance (s : Backed) : (ev : BackedEvent) → Decidable (s.EffectOrder ev)
  | .effect id => inferInstanceAs (Decidable (∀ r ∈ s.sys.ctrl.memIface, r.id = id → _))
  | .send _ | .clockTick | .processNextRqst | .respond _ => isTrue trivial

instance (P : Params) (A : ℕ) (s : Backed) : (ev : BackedEvent) → Decidable (CallsOk P A s ev)
  | .send c => inferInstanceAs (Decidable (c.enqueues = true → _ ∧ _ ∧ (_ ∨ _)))
  | .effect _ | .clockTick | .processNextRqst | .respond _ => isTrue trivial

/-- What runs with such steps keep. -/
structure InOrder (P : Params) (A : ℕ) (m₀ : ℕ → UInt8) (s : Backed) : Prop where
  traced : s.Traced P m₀
  returns : s.ReturnsRead
  lane : s.sys.Lane A
  calls : ∀ q ∈ s.sys.issued, q.2.isTo A = true ∧ q.2.Size ≤ 8 ∨ q.2.clearOf A = true
  older : ∀ l₁ e l₂, s.log = l₁ ++ e :: l₂ → ∀ q ∈ s.sys.issued, q.1 = e.seq → q.2.isTo A = true →
    ∀ q' ∈ s.sys.issued, q'.2.isTo A = true → q'.1 < q.1 → ∀ a, e.covers a = true →
      q'.2.touches a = true → logAt l₁ q'.2.writes q'.1 a ≠ none

section
variable {P : Params} {A : ℕ} {m₀ : ℕ → UInt8} {s s' : Backed} {ev : BackedEvent}

theorem CallsOk.sendOk (h : CallsOk P A s ev) : SendOk P s ev := by
  rintro c rfl henq
  exact ⟨(h henq).1, (h henq).2.1⟩

/-- When a request at address `A` takes effect, the older operations there have
    finished at its bytes. -/
theorem InOrder.effect_older (hs : s.InOrder P A m₀) {r : StdRqst} {op : RevMemOp} {c : Call}
    (hr : r ∈ s.sys.ctrl.memIface) (hop : (r.id, op) ∈ s.sys.ctrl.outstanding)
    (horder : s.EffectOrder (.effect r.id)) (hc : (op.seq, c) ∈ s.sys.issued)
    (hto : c.isTo A = true) {q : ℕ × Call} (hq : q ∈ s.sys.issued) (hqto : q.2.isTo A = true)
    (hlt : q.1 < op.seq) {a : ℕ} (ha : r.pAddr ≤ a ∧ a < r.pAddr + r.size)
    (htouch : q.2.touches a = true) : logAt s.log q.2.writes q.1 a ≠ none := by
  obtain ⟨k, c'⟩ := q
  simp only at hqto hlt htouch ⊢
  have hoplive : op ∈ s.sys.ctrl.live := mem_live.mpr (.inr ⟨_, hop⟩)
  obtain ⟨hfence', haddr'⟩ := Call.isTo_iff.mp hqto
  obtain ⟨hlow, hhigh⟩ := Call.touches_iff.mp htouch
  have hopA : op.Addr = A := by
    obtain ⟨c₁, hc₁, hstem, -⟩ := hs.traced.flight.call hoplive
    obtain rfl := hs.traced.flight.wf.ord.history_unique hc hc₁
    exact hstem.fields.1.trans (Call.isTo_iff.mp hto).2
  by_cases hlive : ∃ o ∈ s.sys.ctrl.live, o.seq = k
  swap
  · have hretired := hs.traced.retired k c' hq hfence' (by simpa using hlive)
    have hfin := hretired.final (a - c'.Addr) (by omega)
    rwa [Nat.add_sub_cancel' hlow] at hfin
  obtain ⟨o, ho, rfl⟩ := hlive
  obtain ⟨c₁, hc₁, hstem, hplain, -⟩ := hs.traced.flight.call ho
  obtain rfl := hs.traced.flight.wf.ord.history_unique hq hc₁
  obtain ⟨hoaddr, hosize, -⟩ := hstem.fields
  have hoA : o.Addr = A := hoaddr.trans haddr'
  have hturn := hs.lane.turn _ hop hopA
  have hnofence : o.Op ≠ .MemOpFENCE := by
    rcases hstem.kind hplain hfence' with h | h | h <;> simp [h.1]
  have hnot : o ∉ s.sys.ctrl.rqstQ := by
    intro hqueue
    have hle := hturn.queued o hqueue hnofence hoA
    simp only at hle
    omega
  obtain ⟨id, hid⟩ := (mem_live.mp ho).resolve_left hnot
  have hkind : (o.Op == .MemOpWRITE) = c'.writes := by
    rcases hstem.kind hplain hfence' with ⟨hread, hreads, -⟩ | ⟨hwrite, hreads, hamo, -⟩ | ⟨hwrite, hamo⟩
    · have hplainRead : c'.isAMO = false :=
        hturn.reading (id, o) hid hoA hlt hread (o.seq, c') hq rfl
      rw [hread]
      cases c' <;> simp_all [Call.reads, Call.isAMO]
      rfl
    · rw [hwrite]
      cases c' <;> simp_all [Call.plain, Call.isFence, Call.reads]
      rfl
    · rw [hwrite]
      cases c' <;> simp_all [Call.isAMO]
      rfl
  have ht := hs.traced.tracks o ho c' hq hfence'
  intro hnone
  rw [← hkind] at hnone
  rcases (ht.final a).mp hnone with hout | hqueue | ⟨r', hr', hop', hlow', hhigh', hundone⟩
  · unfold RevMemOp.Touches at hout
    omega
  · exact hnot hqueue
  · have hids := hs.lane.ids _ hop' _ hop hoA hopA hlt
    have hdone := horder r hr rfl r' hr' hids (by omega) (by omega)
    rw [hundone] at hdone
    simp at hdone

/-- More calls do not matter for effects that are in the log. -/
theorem InOrder.issue (hs : s.InOrder P A m₀) {sys : CtrlSys} {ev : Event}
    (h : CtrlSys.Stepped P s.sys ev sys) (hlane : sys.Lane A)
    (hcall : ∀ c, ev = .send c → c.enqueues = true →
      c.isTo A = true ∧ c.Size ≤ 8 ∨ c.clearOf A = true)
    (htraced : Traced P m₀ { s with sys }) (hreturns : ReturnsRead { s with sys }) :
    InOrder P A m₀ { s with sys } := by
  have hissued : sys.issued = s.sys.issued ∨ ∃ c, ev = .send c ∧ c.enqueues = true ∧
      sys.issued = s.sys.issued ++ [(s.sys.ctrl.nextPtr, c)] := by
    cases h with
    | send htick henq => exact .inr ⟨_, rfl, henq, rfl⟩
    | _ => exact .inl rfl
  have hold : ∀ q ∈ sys.issued, q.1 < s.sys.ctrl.nextPtr → q ∈ s.sys.issued := by
    intro q hq hlt
    rcases hissued with heq | ⟨c, -, -, heq⟩
    · rwa [heq] at hq
    · rw [heq, List.mem_append, List.mem_singleton] at hq
      rcases hq with hq | rfl
      · exact hq
      · simp at hlt
  refine ⟨htraced, hreturns, hlane, ?_, ?_⟩
  · intro q hq
    rcases hissued with heq | ⟨c, hev, henq, heq⟩
    · exact hs.calls q (by rwa [heq] at hq)
    · simp only [heq, List.mem_append, List.mem_singleton] at hq
      rcases hq with hq | rfl
      · exact hs.calls q hq
      · exact hcall c hev henq
  · intro l₁ e l₂ hlog q hq hseq hto q' hq' hto' hlt
    have hlog' : s.log = l₁ ++ e :: l₂ := hlog
    have hltPtr := hs.traced.log_lt e (by simp [hlog'])
    exact hs.older l₁ e l₂ hlog' q (hold q hq (by omega)) hseq hto q' (hold q' hq' (by omega)) hto' hlt

/-- One more effect. -/
theorem InOrder.effect (hs : s.InOrder P A m₀) (htraced : s'.Traced P m₀)
    (hreturns : s'.ReturnsRead) (hsys : s'.sys = s.sys) {e : Effect} (hlog : s'.log = s.log ++ [e])
    (hnew : ∀ q ∈ s.sys.issued, q.1 = e.seq → q.2.isTo A = true → ∀ q' ∈ s.sys.issued,
      q'.2.isTo A = true → q'.1 < q.1 → ∀ a, e.covers a = true → q'.2.touches a = true →
      logAt s.log q'.2.writes q'.1 a ≠ none) : s'.InOrder P A m₀ := by
  refine ⟨htraced, hreturns, by rw [hsys]; exact hs.lane, by rw [hsys]; exact hs.calls, ?_⟩
  rw [hsys, hlog]
  intro l₁ e' l₂ hsplit
  rcases List.eq_nil_or_concat l₂ with rfl | ⟨l, x, rfl⟩
  · obtain ⟨rfl, hlast⟩ := List.append_inj' hsplit rfl
    obtain rfl : e = e' := by simpa using hlast
    exact hnew
  · rw [List.concat_eq_append, ← List.cons_append, ← List.append_assoc] at hsplit
    obtain ⟨heq, -⟩ := List.append_inj' hsplit rfl
    exact hs.older l₁ e' l heq

theorem InOrder.stepped (hs : s.InOrder P A m₀) (h : Stepped P s ev s') (hcalls : CallsOk P A s ev)
    (horder : s.EffectOrder ev) (hturn : TurnOk P A s ev) : s'.InOrder P A m₀ := by
  have htraced := hs.traced.stepped h hcalls.sendOk
  have hreturns := hs.returns.stepped hs.traced h
  have hwf := hs.traced.flight.wf
  cases h with
  | @send c sys hplain hsys =>
    refine hs.issue hsys (hs.lane.stepped hwf hsys trivial) ?_ htraced hreturns
    intro c' hc' henq
    cases hc'
    exact (hcalls henq).2.2
  | clockTick hsys =>
    exact hs.issue hsys (hs.lane.stepped hwf hsys trivial) (by simp) htraced hreturns
  | processNextRqst hsys =>
    exact hs.issue hsys (hs.lane.stepped hwf hsys hturn) (by simp) htraced hreturns
  | @read r op hr hop hdone hcls =>
    refine hs.effect htraced hreturns rfl rfl ?_
    rintro ⟨k, c⟩ hq hseq hto q' hq' hto' hlt a ha htouch
    obtain rfl : k = op.seq := hseq
    obtain ⟨hlow, hhigh⟩ := Effect.covers_iff.mp ha
    simp only [getBytes_length] at hlow hhigh
    exact hs.effect_older (List.mem_of_find?_eq_some hr) (mem_of_lookup hop) horder hq hto hq' hto'
      hlt ⟨hlow, hhigh⟩ htouch
  | @write r op hr hop hdone hcls =>
    have hmem := List.mem_of_find?_eq_some hr
    have hout := mem_of_lookup hop
    obtain ⟨hkind, -⟩ := hs.traced.op_kind hr hop
    have hlen := hs.traced.rqst_length hmem hout (hkind.symm.trans hcls)
    refine hs.effect htraced hreturns rfl rfl ?_
    rintro ⟨k, c⟩ hq hseq hto q' hq' hto' hlt a ha htouch
    obtain rfl : k = op.seq := hseq
    obtain ⟨hlow, hhigh⟩ := Effect.covers_iff.mp ha
    simp only [hlen] at hlow hhigh
    exact hs.effect_older hmem hout horder hq hto hq' hto' hlt ⟨hlow, hhigh⟩ htouch
  | respond hr hop hdone htick hresp =>
    exact ⟨htraced, hreturns, hs.lane.stepped (P := P) hwf (.response htick hr hresp) trivial,
      hs.calls, hs.older⟩

theorem InOrder.init (P : Params) (A : ℕ) (host : Host) (mem : ℕ → UInt8) :
    (Backed.init host mem).InOrder P A mem := by
  refine ⟨Traced.init P host mem, ?_, CtrlSys.Lane.init A host, ?_, ?_⟩ <;>
    simp [Backed.init, CtrlSys.init, ReturnsRead]

/-- The effects of the calls at address `A`. -/
def logTo (A : ℕ) (s : Backed) : List Effect :=
  s.log.filter fun e => (s.sys.issued.lookup e.seq).any fun c => c.isTo A

theorem logAt_filter {log : List Effect} {t : ℕ → Bool} {k : ℕ} (hk : t k = true) (write : Bool)
    (a : ℕ) : logAt (log.filter fun e => t e.seq) write k a = logAt log write k a := by
  unfold logAt
  congr 1
  rw [List.find?_filter]
  congr 1
  funext e
  by_cases hseq : e.seq = k
  · simp [hseq, hk, Bool.beq_eq_decide_eq]
  · simp [hseq]

/-- Effects elsewhere do not change the bytes of an address. -/
theorem after_filter {log : List Effect} {t : ℕ → Bool} {a : ℕ}
    (h : ∀ e ∈ log, t e.seq = false → e.covers a = false) (m : ℕ → UInt8) :
    after m ((log.filter fun e => t e.seq).map Effect.access) a = after m (log.map Effect.access) a := by
  induction log using List.reverseRecOn with
  | nil => rfl
  | append_singleton log e ih =>
    have hlog := ih fun e' he' => h e' (by simp [he'])
    rw [List.filter_append, List.map_append, List.map_append, List.map_singleton, after_concat]
    cases ht : t e.seq with
    | true =>
      rw [List.filter_cons_of_pos (by simpa using ht), List.filter_nil, List.map_singleton, after_concat]
      simp only [Lib.Access.apply, hlog]
    | false =>
      rw [List.filter_cons_of_neg (by simpa using ht), List.filter_nil, List.map_nil, List.append_nil,
        hlog]
      have hcov := h e (by simp) ht
      simp [Lib.Access.apply, Effect.access, hcov]

/-- An effect of its call is one among the effects of some calls, too. -/
theorem Logged.filter {c : Call} {l : List Effect} {e : Effect} (h : Logged m₀ c l e)
    {t : ℕ → Bool} (ht : t e.seq = true)
    (hclear : ∀ a, e.covers a = true → ∀ e' ∈ l, t e'.seq = false → e'.covers a = false) :
    Logged m₀ c (l.filter fun e => t e.seq) e := by
  refine ⟨h.fence, h.inside, ?_, h.kind, ?_, h.write, ?_⟩
  · intro a ha
    rw [logAt_filter ht, logAt_filter ht]
    exact h.fresh a ha
  · intro hread a ha
    rw [after_filter (hclear a ha)]
    exact h.read hread a ha
  · intro hwrite hamo
    obtain ⟨old, hlen, hold, hnew⟩ := h.amo hwrite hamo
    refine ⟨old, hlen, ?_, hnew⟩
    intro i hi
    rw [logAt_filter ht]
    exact hold i hi

/-- The calls of the effects in the log. -/
theorem InOrder.tracked (hs : s.InOrder P A m₀) {l l' : List Effect} {e : Effect}
    (hlog : s.log = l ++ e :: l') : ∃ c, (e.seq, c) ∈ s.sys.issued ∧ Logged m₀ c l e ∧
      s.sys.issued.lookup e.seq = some c := by
  obtain ⟨c, hc, hlogged⟩ := hs.traced.logged l e l' hlog
  exact ⟨c, hc, hlogged, hs.traced.lookup_issued hc⟩

/-- The other effects stay clear of the eight bytes from `A` on. -/
theorem InOrder.clear (hs : s.InOrder P A m₀) {e : Effect} (he : e ∈ s.log)
    (hnot : ((s.sys.issued.lookup e.seq).any fun c => c.isTo A) = false) {a : ℕ} (hlow : A ≤ a)
    (hhigh : a < A + 8) : e.covers a = false := by
  obtain ⟨l, l', hlog⟩ := List.append_of_mem he
  obtain ⟨c, hc, hlogged, hlook⟩ := hs.tracked hlog
  rw [hlook, Option.any_some] at hnot
  rcases hs.calls _ hc with ⟨hto, -⟩ | hclear
  · simp only [hnot, Bool.false_eq_true] at hto
  · by_contra hcov
    have hin := hlogged.inside a (by simpa using hcov)
    simp only [Call.clearOf, hlogged.fence, Bool.false_or, Bool.or_eq_true, decide_eq_true_eq] at hclear
    omega

/-- The effects at address `A` are serial in the order of the calls. -/
theorem InOrder.serial (hs : s.InOrder P A m₀) :
    (callSpec s.sys.issued).Serial m₀ ((s.callsTo A).map Prod.fst)
      ((s.logTo A).map Effect.access) := by
  intro l₁ x l₂ hsplit
  obtain ⟨l, r, hlogTo, rfl, hr⟩ := List.map_eq_append_iff.mp hsplit
  obtain ⟨e, r', rfl, rfl, -⟩ := List.map_eq_cons_iff.mp hr
  obtain ⟨t, u, hlog, rfl, hu⟩ := List.filter_eq_append_iff.mp hlogTo
  obtain ⟨u₁, u₂, rfl, hnone, hin, -⟩ := List.filter_eq_cons_iff.mp hu
  have hwhole : s.log = (t ++ u₁) ++ e :: u₂ := by rw [hlog, List.append_assoc]
  have hfilter : t.filter (fun e => (s.sys.issued.lookup e.seq).any fun c => c.isTo A) =
      (t ++ u₁).filter fun e => (s.sys.issued.lookup e.seq).any fun c => c.isTo A := by
    rw [List.filter_append, List.filter_eq_nil_iff.mpr hnone, List.append_nil]
  obtain ⟨c, hc, hlogged, hlook⟩ := hs.tracked hwhole
  have hto : c.isTo A = true := by simpa [hlook] using hin
  have haddr := (Call.isTo_iff.mp hto).2
  rw [hfilter]
  refine Logged.inPlace ?_ hlook (hs.traced.flight.calls _ hc).1 ?_ ?_
  · refine hlogged.filter (t := fun k => (s.sys.issued.lookup k).any fun c => c.isTo A) hin ?_
    intro a ha e' he' hnot
    have hsize : c.Size ≤ 8 := by
      rcases hs.calls _ hc with ⟨-, hle⟩ | hclear
      · exact hle
      · have hrange := hlogged.inside a ha
        simp only [Call.clearOf, hlogged.fence, Bool.false_or, Bool.or_eq_true, decide_eq_true_eq]
          at hclear
        omega
    obtain ⟨hlow, hhigh⟩ := hlogged.inside a ha
    exact hs.clear (by rw [hwhole]; exact List.mem_append.mpr (.inl he')) hnot (by omega) (by omega)
  · exact List.mem_map.mpr ⟨(e.seq, c), List.mem_filter.mpr ⟨hc, hto⟩, rfl⟩
  · intro k₁ k₂ hord j hj a ha hrange
    have hsorted : ((s.callsTo A).map Prod.fst).Pairwise (· < ·) :=
      List.pairwise_map.mpr (hs.traced.flight.wf.ord.history.filter _)
    rw [hord, List.pairwise_append] at hsorted
    have hlt := hsorted.2.2 j hj e.seq (by simp)
    have hmem : j ∈ (s.callsTo A).map Prod.fst := by simp [hord, hj]
    obtain ⟨⟨j', c'⟩, hq, rfl⟩ := List.mem_map.mp hmem
    obtain ⟨hc', hto'⟩ := List.mem_filter.mp hq
    have hlook' := hs.traced.lookup_issued hc'
    have htouch : c'.touches a = true := (callSpec_range hlook' a).symm.trans hrange
    refine (finishedAt_iff hlook' _ a).mpr ?_
    rw [logAt_filter (t := fun k => (s.sys.issued.lookup k).any fun c => c.isTo A)
      (by simpa [hlook'] using hto')]
    exact hs.older _ e u₂ hwhole (e.seq, c) hc rfl hto (j', c') hc' hto' hlt a ha htouch

theorem InOrder.programOrder (hs : s.InOrder P A m₀) (hdrained : s.Drained) :
    s.ProgramOrder A m₀ := by
  have hnodup : ((s.callsTo A).map Prod.fst).Nodup :=
    (List.pairwise_map.mpr (hs.traced.flight.wf.ord.history.filter _)).imp Nat.ne_of_lt
  have hsub : ∀ q ∈ s.callsTo A, q ∈ s.sys.issued := fun q hq => (List.mem_filter.mp hq).1
  refine ⟨?_, ?_⟩
  · intro a hlow hhigh
    have hclear : ∀ e ∈ s.log, ((s.sys.issued.lookup e.seq).any fun c => c.isTo A) = false →
        e.covers a = false := fun e he hnot => hs.clear he hnot hlow hhigh
    rw [hs.traced.memory,
      ← after_filter (t := fun k => (s.sys.issued.lookup k).any fun c => c.isTo A) hclear]
    have hafter := SeqSpec.Serial.after_finished _ hs.serial hnodup ?_ a
    · refine hafter.trans ?_
      rw [callSpec_mem]
      intro q hq
      exact ⟨hs.traced.lookup_issued (hsub q hq), (hs.traced.flight.calls q (hsub q hq)).1⟩
    · intro k hk b hb
      obtain ⟨⟨k, c⟩, hq, rfl⟩ := List.mem_map.mp hk
      obtain ⟨hc, hto⟩ := List.mem_filter.mp hq
      have hlook := hs.traced.lookup_issued hc
      have hin : c.touches b = true := (callSpec_range hlook b).symm.trans hb
      obtain ⟨hfrom, hupto⟩ := Call.touches_iff.mp hin
      have hdone := (hs.traced.finished hdrained hc (Call.isTo_iff.mp hto).1).final (b - c.Addr)
        (by omega)
      rw [Nat.add_sub_cancel' hfrom] at hdone
      refine (finishedAt_iff hlook (s.logTo A) b).mpr ?_
      rw [logTo, logAt_filter (t := fun k => (s.sys.issued.lookup k).any fun c => c.isTo A)
        (by simpa [hlook] using hto)]
      exact hdone
  · intro l₁ k c l₂ hsplit hreads v
    refine hs.traced.returned_iff hs.returns hdrained hsub hnodup ?_ hs.serial hsplit hreads v
    intro e he hmem
    obtain ⟨⟨k, c⟩, hq, hseq⟩ := List.mem_map.mp hmem
    obtain ⟨hc, hto⟩ := List.mem_filter.mp hq
    refine List.mem_filter.mpr ⟨he, ?_⟩
    rw [← hseq, hs.traced.lookup_issued hc]
    simpa using hto

end

/-- Program order holds on an address in every run that dispatches the
    operations at this address in their turn. -/
theorem programOrder_of_run {P : Params} {A : ℕ} {host : Host} {mem : ℕ → UInt8}
    {tr : List (Backed × BackedEvent)} {s : Backed} (hrun : Run (step P) (init host mem) tr s)
    (hcalls : ∀ p ∈ tr, CallsOk P A p.1 p.2) (horder : ∀ p ∈ tr, p.1.EffectOrder p.2)
    (hturn : ∀ p ∈ tr, TurnOk P A p.1 p.2) (hdrained : s.Drained) : s.ProgramOrder A mem := by
  have hinv := (hrun.invariant (InOrder P A mem)
    (fun s ev => CallsOk P A s ev ∧ s.EffectOrder ev ∧ TurnOk P A s ev) (InOrder.init P A host mem)
    (fun s ev s' hs hok hstep => hs.stepped (step_cases hstep) hok.1 hok.2.1 hok.2.2)
    (fun p hp => ⟨hcalls p hp, horder p hp, hturn p hp⟩)).1
  exact hinv.programOrder hdrained

/-- `AMOADD` of one to the word at 64, a store of seven there and a load. -/
def addWord : Call := .AMO 0 64 64 4 [1, 0, 0, 0] (some 0) {} .F_AMOADD

def storeWord : Call := .WRITE 0 64 64 4 [7, 0, 0, 0] .F_NONE

def loadWord : Call := .READ 0 64 64 4 (some 1) {} .F_NONE

/-- What is compared of the last state of a run. -/
def lastWord (s : Backed) : ℕ × ℕ × List (ℕ × Call) × UInt8 :=
  (s.sys.ctrl.rqstQ.length, s.sys.ctrl.outstanding.length, s.sys.issued, s.mem 64)

/-- The store is dispatched while the AMO waits for its read. -/
def storeOvertakes : List BackedEvent :=
  [.send addWord, .send storeWord, .clockTick, .processNextRqst, .processNextRqst, .effect 0,
    .effect 1, .respond 0, .respond 1, .clockTick, .processNextRqst, .processNextRqst, .effect 2,
    .respond 2]

/-- The write half of the AMO then overwrites the younger store. -/
theorem store_overwritten :
    ∃ tr s, Run (step {}) (init ⟨fun _ _ => 0, []⟩ fun _ => 0) tr s ∧ s.Drained ∧
      (∀ p ∈ tr, CallsOk {} 64 p.1 p.2) ∧ (∀ p ∈ tr, p.1.EffectOrder p.2) ∧
      (∀ q ∈ s.sys.issued, q.2.Hart = 0) ∧ ¬s.ProgramOrder 64 fun _ => 0 := by
  have hexec : (exec (step {}) (init ⟨fun _ _ => 0, []⟩ fun _ => 0) storeOvertakes).map lastWord =
      some (0, 0, [(0, addWord), (1, storeWord)], 1) := by decide +kernel
  obtain ⟨s, hexec, hout⟩ := Option.map_eq_some_iff.mp hexec
  simp only [lastWord, Prod.mk.injEq, List.length_eq_zero_iff] at hout
  obtain ⟨hqueue, hflight, hissued, hword⟩ := hout
  refine ⟨_, s, run_of_exec storeOvertakes hexec, ⟨hqueue, hflight⟩, by decide +kernel,
    by decide +kernel, by rw [hissued]; decide, ?_⟩
  rintro ⟨hmem, -⟩
  have hseven : runCalls (fun _ => 0) ([(0, addWord), (1, storeWord)].filter fun q => q.2.isTo 64) 64 =
      7 := by decide +kernel
  rw [hmem 64 (by omega) (by omega), callsTo, hissued, hseven] at hword
  exact absurd hword (by decide)

/-- The store comes when the write half has been dispatched. -/
def storeFollows : List BackedEvent :=
  [.send addWord, .clockTick, .processNextRqst, .processNextRqst, .effect 0, .respond 0, .clockTick,
    .processNextRqst, .processNextRqst, .send storeWord, .clockTick, .processNextRqst,
    .processNextRqst, .send loadWord, .clockTick, .processNextRqst, .processNextRqst, .effect 1,
    .effect 2, .effect 3, .respond 3, .respond 1, .respond 2]

theorem store_kept :
    ∃ tr s, Run (step {}) (init ⟨fun _ _ => 0, []⟩ fun _ => 0) tr s ∧ s.mem 64 = 7 ∧
      s.ProgramOrder 64 fun _ => 0 := by
  have hexec : (exec (step {}) (init ⟨fun _ _ => 0, []⟩ fun _ => 0) storeFollows).map lastWord =
      some (0, 0, [(0, addWord), (2, storeWord), (3, loadWord)], 7) := by decide +kernel
  obtain ⟨s, hexec, hout⟩ := Option.map_eq_some_iff.mp hexec
  simp only [lastWord, Prod.mk.injEq, List.length_eq_zero_iff] at hout
  have hrun := run_of_exec storeFollows hexec
  have hqueue : ∀ p ∈ trace (step {}) (init ⟨fun _ _ => 0, []⟩ fun _ => 0) storeFollows,
      ∀ op ∈ p.1.sys.ctrl.rqstQ, op.Op ≠ .MemOpFENCE → op.Addr = 64 → p.1.sys.InTurn 64 op := by
    decide +kernel
  refine ⟨_, s, hrun, hout.2.2.2, programOrder_of_run hrun (by decide +kernel) (by decide +kernel)
    ?_ ⟨hout.1, hout.2.1⟩⟩
  intro p hp
  cases hev : p.2 with
  | processNextRqst => exact CtrlSys.laneOk_of_queue (hqueue p hp)
  | _ => exact trivial

end Backed

end RevCPU
