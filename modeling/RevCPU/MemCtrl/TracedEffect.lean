import RevCPU.MemCtrl.Traced

namespace RevCPU

open Lib RevBasicMemCtrl

namespace RevBasicMemCtrl.Bookkeeping

variable {s : RevBasicMemCtrl}

theorem memIface_ids (hs : s.Bookkeeping) : s.memIface.map (fun r => r.id) = s.requests := by
  have h := congrArg (List.map Prod.fst) hs.iface
  rw [List.map_map, List.map_map] at h
  exact h.trans hs.ids

theorem rqst_unique (hs : s.Bookkeeping) {r r' : StdRqst} (hr : r ∈ s.memIface)
    (hr' : r' ∈ s.memIface) (hid : r.id = r'.id) : r = r' := by
  have hnodup := hs.nodup
  rw [← hs.memIface_ids] at hnodup
  exact List.inj_on_of_nodup_map hnodup hr hr' hid

theorem op_unique (hs : s.Bookkeeping) {id : ℕ} {op op' : RevMemOp} (h : (id, op) ∈ s.outstanding)
    (h' : (id, op') ∈ s.outstanding) : op = op' := by
  have hlookup := lookup_of_mem hs.keys_nodup h
  rw [lookup_of_mem hs.keys_nodup h', Option.some.injEq] at hlookup
  exact hlookup.symm

end RevBasicMemCtrl.Bookkeeping

namespace CtrlSys.InFlight

variable {P : Params} {s : CtrlSys}

/-- Two requests of one operation for one byte are the same. -/
theorem same_rqst (hs : s.InFlight P) {r r' : StdRqst} {op : RevMemOp} {a : ℕ}
    (hr : r ∈ s.ctrl.memIface) (hr' : r' ∈ s.ctrl.memIface) (hop : (r.id, op) ∈ s.ctrl.outstanding)
    (hop' : (r'.id, op) ∈ s.ctrl.outstanding) (ha : r.pAddr ≤ a ∧ a < r.pAddr + r.size)
    (ha' : r'.pAddr ≤ a ∧ a < r'.pAddr + r'.size) : r = r' := by
  have hpairs := hs.apart
  obtain ⟨l₁, l₂, hsplit⟩ := List.append_of_mem hr
  rw [hsplit, List.pairwise_append, List.pairwise_cons] at hpairs
  obtain ⟨-, ⟨hafter, -⟩, hbefore⟩ := hpairs
  rw [hsplit, List.mem_append, List.mem_cons] at hr'
  rcases hr' with hr' | rfl | hr'
  · have hle := hbefore r' hr' r (by simp) op hop' hop
    omega
  · rfl
  · have hle := hafter r' hr' op hop hop'
    omega

/-- A request lies inside the range of its operation. -/
theorem rqst_inside (hs : s.InFlight P) {r : StdRqst} {op : RevMemOp} (hr : r ∈ s.ctrl.memIface)
    (hop : (r.id, op) ∈ s.ctrl.outstanding) {a : ℕ} (ha : r.pAddr ≤ a ∧ a < r.pAddr + r.size) :
    op.Touches a := by
  obtain ⟨p, hp⟩ := hs.rqsts r hr op hop
  obtain ⟨haddr, hend⟩ := dispatchParts_range P op hp.part
  rw [hp.addr, hp.size, haddr] at ha
  unfold RevMemOp.Touches
  omega

/-- An operation that is in flight has left the queue. -/
theorem not_queued (hs : s.InFlight P) {id : ℕ} {op : RevMemOp}
    (hop : (id, op) ∈ s.ctrl.outstanding) : op ∉ s.ctrl.rqstQ :=
  fun hqueue => hs.wf.ord.dispatched _ hop op hqueue rfl

end CtrlSys.InFlight

namespace Backed

variable {P : Params} {m₀ : ℕ → UInt8} {s s' : Backed}

theorem Tracks.congr {log log' : List Effect} {h h' : Host} {u u' w w' : ℕ → Prop} {c : Call}
    {op : RevMemOp} (ht : Tracks log h u w c op) (hlog : ∀ b a, logAt log' b op.seq a = logAt log b op.seq a)
    (hu : ∀ a, u' a ↔ u a) (hw : ∀ a, w' a ↔ w a)
    (hcell : ∀ p, c.target = some p → h'.cell p = h.cell p) : Tracks log' h' u' w' c op := by
  have hread : ∀ p n, c.target = some p → h'.read p n = h.read p n := by
    intro p n hp
    simp only [Host.read, hcell p hp]
  refine ⟨?_, ?_, ?_, ?_⟩
  · intro a
    rw [hlog, hu]
    exact ht.final a
  · intro hop a
    rw [hlog]
    exact ht.unwritten hop a
  · intro hop p hp i hi hnot
    rw [hlog, hcell p hp]
    exact ht.arrived hop p hp i hi (fun h => hnot ((hw _).mpr h))
  · intro hop hamo p hp
    obtain ⟨hold, hbuf⟩ := ht.half hop hamo p hp
    refine ⟨?_, ?_⟩
    · intro i hi
      rw [hlog, hcell p hp]
      exact hold i hi
    · rw [hread p _ hp]
      exact hbuf

/-- The effect of a request as the log records it. -/
structure IsEffect (r : StdRqst) (op : RevMemOp) (e : Effect) : Prop where
  seq : e.seq = op.seq
  kind : e.write = (op.Op == .MemOpWRITE)
  addr : e.addr = r.pAddr
  size : e.data.length = r.size

theorem IsEffect.covers {r : StdRqst} {op : RevMemOp} {e : Effect} (he : IsEffect r op e) {a : ℕ} :
    e.covers a = true ↔ r.pAddr ≤ a ∧ a < r.pAddr + r.size := by
  rw [Effect.covers_iff, he.addr, he.size]

/-- A request that has not taken effect takes effect. -/
theorem Traced.effect (hs : s.Traced P m₀) {r : StdRqst} {op : RevMemOp} {data : List UInt8}
    {e : Effect} (hr : r ∈ s.sys.ctrl.memIface) (hop : (r.id, op) ∈ s.sys.ctrl.outstanding)
    (hnew : s.done.lookup r.id = none) (he : IsEffect r op e)
    (hdata : op.Op = .MemOpREAD → data = e.data)
    (hlogged : ∃ c, (e.seq, c) ∈ s.sys.issued ∧ Logged m₀ c s.log e)
    (hsys : s'.sys = s.sys) (hdone : s'.done = s.done ++ [(r.id, data)])
    (hlog : s'.log = s.log ++ [e]) (hret : s'.returned = s.returned)
    (hmem : s'.mem = e.access.apply s.mem) : s'.Traced P m₀ := by
  have hlive : op ∈ s.sys.ctrl.live := mem_live.mpr (.inr ⟨_, hop⟩)
  have hqueue := hs.flight.not_queued hop
  have hbook := hs.flight.wf.book
  have hlookup : ∀ {id}, s'.done.lookup id = (s.done.lookup id).or (if id = r.id then some data else none) := by
    intro id
    rw [hdone, List.lookup_append]
    congr 1
    by_cases hid : id = r.id
    · simp [hid]
    · have hbeq : (id == r.id) = false := by simpa using hid
      simp [List.lookup_cons, hbeq, hid]
  have hundone : ∀ a, s'.Undone op a ↔ s.Undone op a ∧ ¬(r.pAddr ≤ a ∧ a < r.pAddr + r.size) := by
    intro a
    unfold Undone
    rw [hsys]
    constructor
    · rintro ⟨r', hr', hop', hlow, hhigh, hnone⟩
      rw [hlookup, Option.or_eq_none_iff] at hnone
      refine ⟨⟨r', hr', hop', hlow, hhigh, hnone.1⟩, ?_⟩
      intro ha
      have heq := hs.flight.same_rqst hr hr' hop hop' ha ⟨hlow, hhigh⟩
      rw [← heq] at hnone
      simp at hnone
    · rintro ⟨⟨r', hr', hop', hlow, hhigh, hnone⟩, hnot⟩
      refine ⟨r', hr', hop', hlow, hhigh, ?_⟩
      have hid : r'.id ≠ r.id := by
        intro hid
        rw [hbook.rqst_unique hr' hr hid] at hlow hhigh
        exact hnot ⟨hlow, hhigh⟩
      rw [hlookup, hnone, if_neg hid]
      rfl
  have hother : ∀ o, o ≠ op → ∀ a, s'.Undone o a ↔ s.Undone o a := by
    intro o ho a
    unfold Undone
    rw [hsys]
    have hid : ∀ {id}, (id, o) ∈ s.sys.ctrl.outstanding → id ≠ r.id := by
      rintro id hid rfl
      exact ho (hbook.op_unique hid hop)
    constructor
    · rintro ⟨r', hr', hop', hlow, hhigh, hnone⟩
      rw [hlookup, Option.or_eq_none_iff] at hnone
      exact ⟨r', hr', hop', hlow, hhigh, hnone.1⟩
    · rintro ⟨r', hr', hop', hlow, hhigh, hnone⟩
      refine ⟨r', hr', hop', hlow, hhigh, ?_⟩
      rw [hlookup, hnone, if_neg (hid hop')]
      rfl
  have hcov : ∀ {a}, e.covers a = true ↔ r.pAddr ≤ a ∧ a < r.pAddr + r.size := he.covers
  have hfinal : ∀ c, (op.seq, c) ∈ s.sys.issued → c.isFence = false → ∀ a,
      e.covers a = true → logAt s.log e.write op.seq a = none := by
    intro c hc hfence a ha
    rw [he.kind]
    exact ((hs.tracks op hlive c hc hfence).final a).mpr (.inr (.inr ⟨r, hr, hop, (hcov.mp ha).1, (hcov.mp ha).2, hnew⟩))
  refine ⟨by rw [hsys]; exact hs.flight, ?_, ?_, ?_, ?_, ?_, ?_⟩
  · rw [hdone, hsys, List.map_append, List.nodup_append]
    refine ⟨⟨hs.doneIds.1, List.nodup_singleton _, ?_⟩, ?_⟩
    · intro a ha b hb
      rw [List.map_singleton, List.mem_singleton] at hb
      obtain ⟨d, hd, rfl⟩ := List.mem_map.mp ha
      rintro rfl
      have hsome := lookup_of_mem hs.doneIds.1 hd
      rw [hb, hnew] at hsome
      simp at hsome
    · intro d hd
      rcases List.mem_append.mp hd with hd | hd
      · exact hs.doneIds.2 d hd
      · rw [List.mem_singleton.mp hd, ← hbook.memIface_ids]
        exact List.mem_map.mpr ⟨r, hr, rfl⟩
  · intro r' hr' o ho hread d hd
    rw [hsys] at hr' ho
    rw [hlookup] at hd
    rw [hlog]
    by_cases hid : r'.id = r.id
    · obtain rfl := hbook.rqst_unique hr' hr hid
      obtain rfl := hbook.op_unique hop ho
      rw [hnew, if_pos rfl, Option.none_or, Option.some.injEq] at hd
      have hde := hdata hread
      rw [← hd, hde]
      obtain ⟨c, hc, hlogged⟩ := hlogged
      rw [he.seq] at hc
      refine ⟨he.size, ?_⟩
      intro j hj
      have ha : e.covers (r'.pAddr + j) = true := hcov.mpr ⟨by omega, by omega⟩
      have hw : e.write = false := by rw [he.kind, hread]; rfl
      have hnone := hfinal c hc hlogged.fence _ ha
      rw [hw] at hnone
      rw [logAt_concat, hnone, if_pos ⟨he.seq, hw, ha⟩, Option.none_or]
      simp [Effect.val, he.addr]
    · rw [if_neg hid, Option.or_none] at hd
      obtain ⟨hlen, hbytes⟩ := hs.doneData r' hr' o ho hread d hd
      exact ⟨hlen, fun j hj => logAt_concat_of_some e (hbytes j hj)⟩
  · intro o ho c hc hfence
    rw [hsys] at ho hc ⊢
    have hwaits : ∀ a, s'.NotAnswered o a ↔ s.NotAnswered o a := by
      intro a
      unfold NotAnswered Waits
      rw [hsys]
    have ht := hs.tracks o ho c hc hfence
    by_cases hoop : o = op
    · subst hoop
      rw [hlog]
      refine ⟨?_, ?_, ?_, ?_⟩
      · intro a
        have hnd : s'.NotDone o a ↔ s.Undone o a ∧ ¬(r.pAddr ≤ a ∧ a < r.pAddr + r.size) := by
          unfold NotDone
          rw [hsys, hundone]
          simp [hqueue]
        have hold : logAt s.log (o.Op == .MemOpWRITE) o.seq a = none ↔ ¬o.Touches a ∨ s.Undone o a := by
          rw [ht.final a]
          simp [NotDone, hqueue]
        rw [logAt_concat, Option.or_eq_none_iff, hold, hnd, ← hcov]
        have hin : e.covers a = true → o.Touches a := fun ha =>
          hs.flight.rqst_inside hr hop (hcov.mp ha)
        by_cases ha : e.covers a = true
        · rw [if_pos ⟨he.seq, he.kind, ha⟩]
          simp [ha, hin ha]
        · rw [if_neg (fun h => ha h.2.2)]
          simp [ha]
      · intro hread a
        rw [logAt_concat_of_ne (.inr (.inl (by rw [he.kind, hread]; simp)))]
        exact ht.unwritten hread a
      · intro hread p hp i hi hnot
        refine logAt_concat_of_some e (ht.arrived hread p hp i hi fun h => hnot ((hwaits _).mpr h))
      · intro hwrite hamo p hp
        obtain ⟨hold, hbuf⟩ := ht.half hwrite hamo p hp
        exact ⟨fun i hi => logAt_concat_of_some e (hold i hi), hbuf⟩
    · have hseq : e.seq ≠ o.seq := by
        rw [he.seq]
        exact fun heq => hoop (hs.flight.wf.ord.same_seq o ho op hlive heq.symm)
      refine ht.congr ?_ ?_ hwaits (fun _ _ => rfl)
      · intro b a
        rw [hlog, logAt_concat_of_ne (.inl hseq)]
      · intro a
        unfold NotDone
        rw [hsys, hother o hoop a]
  · intro k c hc hfence hnone
    rw [hsys] at hc hnone
    have hret' := hs.retired k c hc hfence hnone
    have hseq : e.seq ≠ k := by
      rw [he.seq]
      exact hnone op hlive
    rw [hlog, hret]
    refine ⟨?_, ?_⟩
    · intro i hi
      rw [logAt_concat_of_ne (.inl hseq)]
      exact hret'.final i hi
    · intro hreads
      obtain ⟨old, hmem', hlen, hbytes⟩ := hret'.value hreads
      exact ⟨old, hmem', hlen, fun i hi => logAt_concat_of_some e (hbytes i hi)⟩
  · rw [hmem, hlog, List.map_append, List.map_singleton, after_concat, ← hs.memory]
  · intro l₁ e' l₂ hsplit
    rw [hlog] at hsplit
    rw [hsys]
    rcases List.eq_nil_or_concat l₂ with rfl | ⟨l, x, rfl⟩
    · obtain ⟨rfl, hlast⟩ := List.append_inj' hsplit rfl
      obtain rfl : e = e' := by simpa using hlast
      exact hlogged
    · rw [List.concat_eq_append, ← List.cons_append, ← List.append_assoc] at hsplit
      obtain ⟨heq, -⟩ := List.append_inj' hsplit rfl
      exact hs.logged l₁ e' l heq

/-- The call of an operation in flight. -/
theorem Traced.call (hs : s.Traced P m₀) {op : RevMemOp} (hop : op ∈ s.sys.ctrl.live)
    (hkind : op.Op ≠ .MemOpFENCE) :
    ∃ c, (op.seq, c) ∈ s.sys.issued ∧ Stems c op ∧ c.plain = true ∧ CallOk P c ∧ c.isFence = false ∧
      Tracks s.log s.sys.host (s.NotDone op) (s.NotAnswered op) c op := by
  obtain ⟨c, hc, hstem, hplain, hok⟩ := hs.flight.call hop
  have hfence : c.isFence = false := by
    by_contra h
    exact hkind (hstem.fence (by simpa using h))
  exact ⟨c, hc, hstem, hplain, hok, hfence, hs.tracks op hop c hc hfence⟩

theorem Traced.read (hs : s.Traced P m₀) {r : StdRqst} {op : RevMemOp} (hr : r ∈ s.sys.ctrl.memIface)
    (hop : (r.id, op) ∈ s.sys.ctrl.outstanding) (hnew : s.done.lookup r.id = none)
    (hread : op.Op = .MemOpREAD) :
    Traced P m₀ { s with
      done := s.done ++ [(r.id, getBytes s.mem r.pAddr r.size)]
      log := s.log ++ [⟨op.seq, false, r.pAddr, getBytes s.mem r.pAddr r.size⟩] } := by
  have hlive : op ∈ s.sys.ctrl.live := mem_live.mpr (.inr ⟨_, hop⟩)
  obtain ⟨c, hc, hstem, hplain, hok, hfence, ht⟩ := hs.call hlive (by simp [hread])
  obtain ⟨haddr, hsize, -⟩ := hstem.fields
  have he : IsEffect r op ⟨op.seq, false, r.pAddr, getBytes s.mem r.pAddr r.size⟩ :=
    ⟨rfl, by simp [hread], rfl, by simp⟩
  refine hs.effect hr hop hnew he (fun _ => rfl) ⟨c, hc, ?_⟩ rfl rfl rfl rfl ?_
  · have hreads : c.reads = true := by
      rcases hstem.kind hplain hfence with h | h | h
      · exact h.2.1
      · simp [hread] at h
      · simp [hread] at h
    refine ⟨hfence, ?_, ?_, ⟨by simp, fun _ => hreads⟩, ?_, by simp, by simp⟩
    · intro a ha
      have hin := hs.flight.rqst_inside hr hop (he.covers.mp ha)
      rw [← haddr, ← hsize]
      exact hin
    · intro a ha
      obtain ⟨hlow, hhigh⟩ := he.covers.mp ha
      have hnone := (ht.final a).mpr (.inr (.inr ⟨r, hr, hop, hlow, hhigh, hnew⟩))
      rw [hread] at hnone
      exact ⟨hnone, ht.unwritten hread a⟩
    · intro _ a ha
      obtain ⟨hlow, hhigh⟩ := he.covers.mp ha
      rw [← hs.memory, Effect.val, getBytes_getD _ _ (by simp only; omega)]
      congr 1
      simp only
      omega
  · funext a
    simp [Lib.Access.apply, Effect.access]

/-- A write operation has as many bytes as it writes. -/
theorem Traced.membuf_length (hs : s.Traced P m₀) {op : RevMemOp} (hop : op ∈ s.sys.ctrl.live)
    (hwrite : op.Op = .MemOpWRITE) : op.membuf.length = op.Size := by
  obtain ⟨c, hc, hstem, hplain, hok, hfence, ht⟩ := hs.call hop (by simp [hwrite])
  obtain ⟨-, hsize, -⟩ := hstem.fields
  rcases hstem.kind hplain hfence with h | ⟨-, hreads, hamo, hbuf⟩ | ⟨-, hamo⟩
  · simp [hwrite] at h
  · rw [hbuf, hsize]
    cases c <;> simp_all [Call.plain, Call.isFence, Call.reads, Call.memOp, Call.Size]
  · have hreads : c.reads = true := by
      cases c <;> simp [Call.isAMO] at hamo
      rfl
    obtain ⟨p, hp⟩ := Option.isSome_iff_exists.mp (hok.target hreads)
    rw [(ht.half hwrite hamo p hp).2, amoNew, leBytes_length]

/-- A write request carries as many bytes as it says. -/
theorem Traced.rqst_length (hs : s.Traced P m₀) {r : StdRqst} {op : RevMemOp}
    (hr : r ∈ s.sys.ctrl.memIface) (hop : (r.id, op) ∈ s.sys.ctrl.outstanding)
    (hwrite : op.Op = .MemOpWRITE) : r.data.length = r.size := by
  obtain ⟨p, hp⟩ := hs.flight.rqsts r hr op hop
  obtain ⟨-, hpend⟩ := dispatchParts_range P op hp.part
  have hlen := hs.membuf_length (mem_live.mpr (.inr ⟨_, hop⟩)) hwrite
  rw [hp.data hwrite, hp.size, List.length_take, List.length_drop]
  omega

theorem Traced.write (hs : s.Traced P m₀) {r : StdRqst} {op : RevMemOp} (hr : r ∈ s.sys.ctrl.memIface)
    (hop : (r.id, op) ∈ s.sys.ctrl.outstanding) (hnew : s.done.lookup r.id = none)
    (hwrite : op.Op = .MemOpWRITE) :
    Traced P m₀ { s with
      mem := setBytes s.mem r.pAddr r.data
      done := s.done ++ [(r.id, [])]
      log := s.log ++ [⟨op.seq, true, r.pAddr, r.data⟩] } := by
  have hlive : op ∈ s.sys.ctrl.live := mem_live.mpr (.inr ⟨_, hop⟩)
  obtain ⟨c, hc, hstem, hplain, hok, hfence, ht⟩ := hs.call hlive (by simp [hwrite])
  obtain ⟨haddr, hsize, hflags⟩ := hstem.fields
  obtain ⟨p, hp⟩ := hs.flight.rqsts r hr op hop
  obtain ⟨hpaddr, hpend⟩ := dispatchParts_range P op hp.part
  have hdata := hp.data hwrite
  have hrlen := hs.rqst_length hr hop hwrite
  have he : IsEffect r op ⟨op.seq, true, r.pAddr, r.data⟩ := ⟨rfl, by simp [hwrite], rfl, hrlen⟩
  have hval : ∀ a, r.pAddr ≤ a ∧ a < r.pAddr + r.size →
      Effect.val ⟨op.seq, true, r.pAddr, r.data⟩ a = op.membuf.getD (a - c.Addr) 0 := by
    intro a ha
    have hlt : a - r.pAddr < p.size := by
      rw [← hp.size]
      omega
    have hidx : p.cur + (a - r.pAddr) = a - c.Addr := by
      rw [← haddr, hp.addr, hpaddr] at *
      omega
    simp only [Effect.val]
    rw [hdata, List.getD_eq_getElem?_getD, List.getElem?_take_of_lt hlt, List.getElem?_drop, hidx,
      List.getD_eq_getElem?_getD]
  refine hs.effect hr hop hnew he (by simp [hwrite]) ⟨c, hc, ?_⟩ rfl rfl rfl rfl ?_
  · refine ⟨hfence, ?_, ?_, ⟨?_, by simp⟩, by simp, ?_, ?_⟩
    · intro a ha
      have hin := hs.flight.rqst_inside hr hop (he.covers.mp ha)
      rw [← haddr, ← hsize]
      exact hin
    · intro a ha
      obtain ⟨hlow, hhigh⟩ := he.covers.mp ha
      have hnone := (ht.final a).mpr (.inr (.inr ⟨r, hr, hop, hlow, hhigh, hnew⟩))
      have htrue : logAt s.log true op.seq a = none := by simpa [hwrite] using hnone
      exact ⟨htrue, htrue⟩
    · intro _
      rcases hstem.kind hplain hfence with h | h | h
      · simp [hwrite] at h
      · cases c <;> simp_all [Call.plain, Call.isFence, Call.reads, Call.writes]
      · cases c <;> simp_all [Call.isAMO, Call.writes]
    · intro _ hamo a ha
      rw [hval a (he.covers.mp ha)]
      rcases hstem.kind hplain hfence with h | h | h
      · simp [hwrite] at h
      · rw [h.2.2.2]
        rfl
      · rw [h.2] at hamo
        simp at hamo
    · intro _ hamo
      have hreads : c.reads = true := by
        cases c <;> simp [Call.isAMO] at hamo
        rfl
      obtain ⟨q, hq⟩ := Option.isSome_iff_exists.mp (hok.target hreads)
      obtain ⟨hold, hbuf⟩ := ht.half hwrite hamo q hq
      refine ⟨s.sys.host.read q c.Size, by simp, ?_, ?_⟩
      · intro i hi
        rw [← haddr, hold i (by omega), Host.read_getD _ _ hi]
      · intro a ha
        rw [hval a (he.covers.mp ha), hbuf, hflags, hsize]
  · funext a
    simp only [setBytes, Lib.Access.apply, Effect.access, Bool.true_and, Effect.covers_iff, Effect.val]

end Backed

end RevCPU
