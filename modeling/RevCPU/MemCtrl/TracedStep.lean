import RevCPU.MemCtrl.TracedRun

namespace RevCPU

open Lib RevBasicMemCtrl

namespace Backed

variable {P : Params} {m₀ : ℕ → UInt8} {s : Backed} {r : StdRqst} {op : RevMemOp}
  {data : List UInt8}

/-- The last response of the read of an AMO: the write half enters the queue. -/
theorem Traced.respond_amo (hs : s.Traced P m₀) {s' : Backed} (hflight : s'.sys.InFlight P)
    (h : Answered s r s') (hr : r ∈ s.sys.ctrl.memIface)
    (hop : s.sys.ctrl.outstanding.lookup r.id = some op)
    (hdone : s.done.lookup r.id = some data) (hread : op.Op = .MemOpREAD) {p : ℕ}
    (htgt : op.target = some p) (hlast : s.sys.ctrl.lastResp op = true) {h' : Host}
    (hflag : handleFlagResp (copyResp s.sys.host op p (readResp r data)) op = some h')
    {e : AMOEntry} (hamo : s.sys.ctrl.AMOTable.find? (AMOEntry.isFor op) = some e) {q : ℕ}
    (hq : e.memop.target = some q)
    (hqueue : s'.sys.ctrl.rqstQ = s.sys.ctrl.rqstQ ++ [amoHalf s.sys.ctrl.nextPtr h' e.memop q])
    (hhost : s'.sys.host = amoHost h' e.memop q)
    (hret : ∀ x ∈ s.returned, x ∈ s'.returned) : s'.Traced P m₀ := by
  have hmem := mem_of_lookup hop
  have hord := hs.flight.wf.ord
  have hoplive : op ∈ s.sys.ctrl.live := mem_live.mpr (.inr ⟨_, hmem⟩)
  have he : e ∈ s.sys.ctrl.AMOTable := List.mem_of_find?_eq_some hamo
  have hfor : AMOEntry.isFor op e = true := List.find?_some hamo
  obtain ⟨n, hn⟩ := hord.entry_eq he hoplive ((hord.isFor_iff he hoplive).mp hfor)
  obtain ⟨c, hc, hstem, hfence, hreads, hp, hok, hbuf, hbound, -, -⟩ := hs.reading hoplive hread htgt
  obtain ⟨hval, hother⟩ := hs.last_arrived h hr hop hdone hread htgt hlast hflag
  have hunique : ∀ {c'}, (op.seq, c') ∈ s.sys.issued → c' = c := fun hc' =>
    hord.history_unique hc' hc
  have hpq : q = p := by
    rw [hn] at htgt
    simpa [hq] using htgt
  subst hpq
  obtain ⟨hseq, haddr, hsize, hflags, hmbuf⟩ : e.memop.seq = op.seq ∧ e.memop.Addr = op.Addr ∧
      e.memop.Size = op.Size ∧ e.memop.flags = op.flags ∧ e.memop.membuf = op.membuf := by
    rw [hn]
    exact ⟨rfl, rfl, rfl, rfl, rfl⟩
  have hisAMO : c.isAMO = true := by
    obtain ⟨c', hc', hisAMO⟩ := hord.entry_amo e he
    rw [hseq] at hc'
    rwa [← hunique hc']
  have hbytes : e.memop.Size = 4 ∨ e.memop.Size = 8 := by
    rw [hsize, hstem.fields.2.1]
    exact hok.amo hisAMO
  obtain ⟨hnew, hcell, -⟩ := amoTarget_spec h' hbytes q
  have hgone := hord.gone_of_lastResp hs.flight.wf.book hop hlast
  rw [← h.out] at hgone
  have hhalf : (amoHalf s.sys.ctrl.nextPtr h' e.memop q).seq = op.seq := hseq
  refine hs.answer hmem hdone hflight h ?_ ?_ hret ?_ ?_
  · intro o ho
    rw [hqueue, List.mem_append, List.mem_singleton]
    refine ⟨?_, .inl⟩
    rintro (hold | rfl)
    · exact hold
    · exact absurd hhalf ho
  · intro c' hc' x hx
    rw [hunique hc', hp] at hx
    rw [hhost, hcell]
    exact hother x fun heq => hx (by rw [heq])
  · intro o ho hoseq c' hc' _
    obtain rfl := hunique hc'
    have hin : amoHalf s.sys.ctrl.nextPtr h' e.memop q ∈ s'.sys.ctrl.rqstQ := by
      rw [hqueue]
      simp
    have hold : o = op → o = amoHalf s.sys.ctrl.nextPtr h' e.memop q := by
      rintro rfl
      rcases mem_live.mp ho with ho | ⟨id, ho⟩
      · rw [hqueue, List.mem_append, List.mem_singleton] at ho
        exact ho.resolve_left (hs.flight.not_queued hmem)
      · exact absurd rfl (hgone _ ho)
    obtain rfl : o = amoHalf s.sys.ctrl.nextPtr h' e.memop q := by
      rcases mem_live.mp ho with hqu | ⟨id, hout⟩
      · rw [hqueue, List.mem_append, List.mem_singleton] at hqu
        rcases hqu with hqu | hqu
        · exact hold (hord.same_seq o (mem_live.mpr (.inl hqu)) op hoplive hoseq)
        · exact hqu
      · rw [h.out] at hout
        exact hold (hord.same_seq o (mem_live.mpr (.inr ⟨id, List.mem_of_mem_eraseP hout⟩)) op
          hoplive hoseq)
    have ht := hs.tracks op hoplive c' hc hfence
    refine ⟨?_, by simp [amoHalf, amoWriteOp], by simp [amoHalf, amoWriteOp], ?_⟩
    · intro a
      rw [hhalf]
      exact ⟨fun _ => .inr (.inl hin), fun _ => ht.unwritten hread a⟩
    · intro _ _ x hx
      obtain rfl : q = x := by simpa [hp] using hx
      rw [hhost, hhalf]
      refine ⟨?_, ?_⟩
      · intro i hi
        simp only [amoHalf, amoWriteOp] at hi ⊢
        rw [haddr, hval i (by omega), hcell]
      · simp only [amoHalf, amoWriteOp, Host.read, hcell]
        rw [← Host.read, ← Host.read, hnew, hmbuf, hbuf]
  · intro hnone
    refine absurd hhalf (hnone _ (mem_live.mpr (.inl ?_)))
    rw [hqueue]
    simp

/-- A response to a write. -/
theorem Traced.respond_write (hs : s.Traced P m₀) {s' : Backed} (hflight : s'.sys.InFlight P)
    (h : Answered s r s') (hop : s.sys.ctrl.outstanding.lookup r.id = some op)
    (hdone : s.done.lookup r.id = some data) (hwrite : op.Op = .MemOpWRITE)
    (hq : s'.sys.ctrl.rqstQ = s.sys.ctrl.rqstQ) (hcell : s'.sys.host.cell = s.sys.host.cell)
    (hret : s'.returned = s.returned ++ s.answers op s'.sys.host) : s'.Traced P m₀ := by
  have hmem := mem_of_lookup hop
  have hoplive : op ∈ s.sys.ctrl.live := mem_live.mpr (.inr ⟨_, hmem⟩)
  obtain ⟨c, hc, hstem, hplain, hok, hfence, ht⟩ := hs.call hoplive (by simp [hwrite])
  obtain ⟨haddr, hsize, -⟩ := hstem.fields
  have hunique : ∀ {c'}, (op.seq, c') ∈ s.sys.issued → c' = c := fun hc' =>
    hs.flight.wf.ord.history_unique hc' hc
  have hkind : (op.Op == .MemOpWRITE) = true := by rw [hwrite]; rfl
  refine hs.answer hmem hdone hflight h (fun _ _ => by rw [hq]) (fun _ _ _ _ => by rw [hcell]) ?_ ?_ ?_
  · intro x hx
    rw [hret]
    exact List.mem_append.mpr (.inl hx)
  · intro o ho hseq c' hc' hfence'
    obtain ⟨rfl, hqueue, -⟩ := hs.self h hmem hq o ho hseq
    exact hs.tracks_self h hmem hdone hqueue hc' hfence' (by simp [hwrite]) (fun _ => hcell)
  · intro hgone c' hc' _
    obtain rfl := hunique hc'
    have hlast : s.sys.ctrl.lastResp op = true := by
      by_contra hnot
      exact absurd rfl (hgone op (hs.stays h hop (by simpa using hnot)))
    have hwrites : c'.writes = true := by
      rcases hstem.kind hplain hfence with hk | ⟨-, hreads, hamo, -⟩ | ⟨-, hamo⟩
      · simp [hwrite] at hk
      · cases c' <;> simp_all [Call.plain, Call.isFence, Call.reads, Call.writes]
      · cases c' <;> simp_all [Call.isAMO, Call.writes]
    refine ⟨?_, ?_⟩
    · intro i hi
      rw [hwrites, ← haddr, ← hkind]
      exact hs.complete h hop hdone hlast hc' hfence i (by omega)
    · intro hreads
      have hamo : c'.isAMO = true := by
        cases c' <;> simp_all [Call.reads, Call.writes, Call.isAMO]
      obtain ⟨p, hp⟩ := Option.isSome_iff_exists.mp (hok.target hreads)
      obtain ⟨hold, -⟩ := ht.half hwrite hamo p hp
      have hans : (op.seq, s'.sys.host.read p c'.Size) ∈ s'.returned := by
        rw [hret, answers, hs.lookup_issued hc']
        simp [hlast, hkind, hamo, hp]
      refine ⟨_, hans, by simp, ?_⟩
      intro i hi
      rw [← haddr, hold i (by omega), Host.read_getD _ _ hi, hcell]

/-- Whatever response comes, the invariant stays. -/
theorem Traced.respond (hs : s.Traced P m₀)
    (hr : s.sys.ctrl.memIface.find? (fun x => x.id == r.id) = some r)
    (hop : s.sys.ctrl.outstanding.lookup r.id = some op)
    (hdone : s.done.lookup r.id = some data) {ctrl : RevBasicMemCtrl} {host : Host}
    (hresp : Responded s.sys.ctrl s.sys.host r data ctrl host)
    (hflight : CtrlSys.InFlight P { s.sys with ctrl, host }) :
    (s.responded r op ctrl host).Traced P m₀ := by
  have hmem : r ∈ s.sys.ctrl.memIface := List.mem_of_find?_eq_some hr
  have hans : Answered s r (s.responded r op ctrl host) := responded_answered hresp
  obtain ⟨hcls, hkind⟩ := hs.op_kind hr hop
  have hret : ∀ x ∈ s.returned, x ∈ (s.responded r op ctrl host).returned := fun x hx =>
    List.mem_append.mpr (.inl hx)
  have hread : readsBack r.cls = true → op.Op = .MemOpREAD := by
    intro hback
    rw [hcls] at hback
    exact hkind.resolve_right fun hw => by simp [hw, readsBack] at hback
  cases hresp with
  | readPart hcls' hreq hop' htgt hlast =>
    obtain rfl := Option.some.inj (hop.symm.trans hop')
    exact hs.respond_part hflight hans hmem hop hdone (hread hcls') htgt hlast rfl rfl hret
  | readDone hcls' hreq hop' htgt hlast hflag hamo =>
    obtain rfl := Option.some.inj (hop.symm.trans hop')
    exact hs.respond_done hflight hans hmem hop hdone (hread hcls') htgt hlast hflag hamo rfl rfl rfl
  | readAMO hcls' hreq hop' htgt hlast hflag hamo hq =>
    obtain rfl := Option.some.inj (hop.symm.trans hop')
    exact hs.respond_amo hflight hans hmem hop hdone (hread hcls') htgt hlast hflag hamo hq rfl rfl hret
  | write hcls' hreq hop' =>
    obtain rfl := Option.some.inj (hop.symm.trans hop')
    have hwrite : op.Op = .MemOpWRITE := by
      rw [hcls] at hcls'
      exact hkind.resolve_left fun hw => by simp [hw, writesBack] at hcls'
    refine hs.respond_write hflight hans hop hdone hwrite rfl ?_ rfl
    simp only [responded]
    split <;> rfl
  | flush hcls' => rcases hkind with hk | hk <;> simp [hcls, hk] at hcls'
  | custom hcls' => rcases hkind with hk | hk <;> simp [hcls, hk] at hcls'

/-- What a call must meet when it is made. -/
def SendOk (P : Params) (s : Backed) (ev : BackedEvent) : Prop :=
  ∀ c, ev = .send c → c.enqueues = true → CallOk P c ∧ s.sys.FreeTarget c

instance (P : Params) (s : Backed) : (ev : BackedEvent) → Decidable (SendOk P s ev)
  | .send c => decidable_of_iff (c.enqueues = true → CallOk P c ∧ s.sys.FreeTarget c)
      ⟨fun h _ hc => by cases hc; exact h, fun h => h c rfl⟩
  | .clockTick | .processNextRqst | .effect _ | .respond _ => isTrue (by simp [SendOk])

/-- The invariant along a step of the controller itself. -/
theorem Traced.ctrl (hs : s.Traced P m₀) {ev : Event} {sys : CtrlSys}
    (h : CtrlSys.Stepped P s.sys ev sys) (hev : ∀ id data, ev ≠ .response id data)
    (hcall : ∀ c, ev = .send c → c.enqueues = true →
      c.plain = true ∧ CallOk P c ∧ s.sys.FreeTarget c) :
    Traced P m₀ { s with sys } := by
  have hflight := hs.flight.stepped h hcall
  have hkeep : ∀ {sys' : CtrlSys}, sys'.InFlight P → sys'.ctrl.rqstQ = s.sys.ctrl.rqstQ →
      sys'.ctrl.outstanding = s.sys.ctrl.outstanding →
      sys'.ctrl.memIface = s.sys.ctrl.memIface → sys'.ctrl.requests = s.sys.ctrl.requests →
      sys'.host = s.sys.host → sys'.issued = s.sys.issued → Traced P m₀ { s with sys := sys' } := by
    intro sys' hflight' hq hout hiface hreq hhost hissued
    have hlive : sys'.ctrl.live = s.sys.ctrl.live := by
      unfold live
      rw [hq, hout]
    refine hs.requeue hflight' hout hiface hreq hhost (by simp [hissued]) ?_ ?_
    · intro op hop c hc _
      rw [hlive] at hop
      rw [hissued] at hc
      exact .inl ⟨hop, hc, by rw [hq]⟩
    · intro k c hc _ hgone
      rw [hissued] at hc
      rw [hlive] at hgone
      exact ⟨hc, hgone⟩
  cases h with
  | skip | wait | start | clear => exact hkeep hflight rfl rfl rfl rfl rfl rfl
  | send htick henq => exact hs.enqueue hflight rfl rfl rfl
  | process htick hproc hfence =>
    cases hproc with
    | idle => exact hkeep hflight rfl rfl rfl rfl rfl rfl
    | fence hcand hop => exact hs.dropFence hflight hcand.slot hop rfl rfl rfl rfl rfl rfl
    | dispatch hcand hop hamo hpend => exact hs.dispatch hflight hcand.slot hop rfl rfl rfl
  | response htick hr hresp => exact absurd rfl (hev _ _)

/-- The invariant along a step. -/
theorem Traced.stepped (hs : s.Traced P m₀) {s' : Backed} {ev : BackedEvent}
    (h : Stepped P s ev s') (hok : SendOk P s ev) : s'.Traced P m₀ := by
  cases h with
  | send hplain hsys =>
    refine hs.ctrl hsys (by simp) ?_
    intro c hc henq
    cases hc
    exact ⟨hplain, hok _ rfl henq⟩
  | clockTick hsys => exact hs.ctrl hsys (by simp) (by simp)
  | processNextRqst hsys => exact hs.ctrl hsys (by simp) (by simp)
  | read hr hop hdone hcls =>
    obtain ⟨hcls', -⟩ := hs.op_kind hr hop
    exact hs.read (List.mem_of_find?_eq_some hr) (mem_of_lookup hop) hdone (hcls'.symm.trans hcls)
  | write hr hop hdone hcls =>
    obtain ⟨hcls', -⟩ := hs.op_kind hr hop
    exact hs.write (List.mem_of_find?_eq_some hr) (mem_of_lookup hop) hdone (hcls'.symm.trans hcls)
  | respond hr hop hdone htick hresp =>
    refine hs.respond hr hop hdone hresp ?_
    exact hs.flight.stepped (.response htick hr hresp) (by simp)

theorem Traced.init (P : Params) (host : Host) (mem : ℕ → UInt8) :
    (Backed.init host mem).Traced P mem := by
  refine ⟨CtrlSys.InFlight.init P host, ?_, ?_, ?_, ?_, rfl, ?_⟩ <;>
    simp [Backed.init, CtrlSys.init, live]

end Backed

end RevCPU
