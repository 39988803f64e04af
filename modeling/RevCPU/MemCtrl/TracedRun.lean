import RevCPU.MemCtrl.TracedResponse

namespace RevCPU

open Lib RevBasicMemCtrl

namespace Backed

variable {P : Params} {m₀ : ℕ → UInt8} {s : Backed} {r : StdRqst} {op : RevMemOp}
  {data : List UInt8}

/-- The state after a response. -/
def responded (s : Backed) (r : StdRqst) (op : RevMemOp) (ctrl : RevBasicMemCtrl) (host : Host) :
    Backed :=
  { s with
    sys := { s.sys with ctrl, host }
    done := s.done.eraseP fun d => d.1 == r.id
    returned := s.returned ++ s.answers op host }

theorem Traced.lookup_issued (hs : s.Traced P m₀) {k : ℕ} {c : Call} (hc : (k, c) ∈ s.sys.issued) :
    s.sys.issued.lookup k = some c := by
  refine lookup_of_mem ?_ hc
  exact (List.pairwise_map.mpr hs.flight.wf.ord.history).imp Nat.ne_of_lt

/-- The bytes that have arrived in the target once a response is copied. -/
theorem Traced.arrived (hs : s.Traced P m₀) {s' : Backed} (h : Answered s r s')
    (hr : r ∈ s.sys.ctrl.memIface) (hop : (r.id, op) ∈ s.sys.ctrl.outstanding)
    (hdone : s.done.lookup r.id = some data) (hread : op.Op = .MemOpREAD) {c : Call}
    (hc : (op.seq, c) ∈ s.sys.issued) (hfence : c.isFence = false) {p : ℕ}
    (hp : c.target = some p) :
    ∀ i < op.Size, ¬s'.Waits op (op.Addr + i) → logAt s.log false op.seq (op.Addr + i) =
      some ((copyResp s.sys.host op p (readResp r data)).cell p i) := by
  have hoplive : op ∈ s.sys.ctrl.live := mem_live.mpr (.inr ⟨_, hop⟩)
  have ht := hs.tracks op hoplive c hc hfence
  obtain ⟨c', hc', hstem, hplain, hok⟩ := hs.flight.call hoplive
  obtain rfl := hs.flight.wf.ord.history_unique hc hc'
  obtain ⟨-, hsize, -⟩ := hstem.fields
  have hreads : c.reads = true := by
    rcases hstem.kind hplain hfence with h | h | h
    · exact h.2.1
    · simp [hread] at h
    · simp [hread] at h
  have hbound : op.Size ≤ 8 := by
    rw [hsize]
    exact hok.bytes hreads
  obtain ⟨hlen, hbytes⟩ := hs.doneData r hr op hop hread data hdone
  have hcopy := (hs.flight.copyResp_spec data hr hop hbound s.sys.host p).1
  intro i hi hnot
  rw [hcopy i hi]
  by_cases hin : r.pAddr ≤ op.Addr + i ∧ op.Addr + i < r.pAddr + r.size
  · rw [if_pos hin]
    have hbyte := hbytes (op.Addr + i - r.pAddr) (by omega)
    rw [Nat.add_sub_cancel' hin.1] at hbyte
    exact hbyte
  · rw [if_neg hin]
    refine ht.arrived hread p hp i hi ?_
    rintro (hq | hw)
    · exact hs.flight.not_queued hop hq
    · exact hnot ((h.waits_self hs hr hop _).mpr ⟨hw, hin⟩)

/-- After the last response of an operation nothing of it is in flight. -/
theorem Traced.last (hs : s.Traced P m₀) {s' : Backed} (h : Answered s r s')
    (hop : s.sys.ctrl.outstanding.lookup r.id = some op) (hlast : s.sys.ctrl.lastResp op = true)
    (a : ℕ) : ¬s'.Waits op a ∧ ¬s'.Undone op a := by
  have hgone := hs.flight.wf.ord.gone_of_lastResp hs.flight.wf.book hop hlast
  rw [← h.out] at hgone
  refine ⟨?_, ?_⟩
  · rintro ⟨r', -, hop', -⟩
    exact hgone _ hop' rfl
  · rintro ⟨r', -, hop', -⟩
    exact hgone _ hop' rfl

/-- The operation of a request that is answered by a `ReadResp`, or by a
    `WriteResp`. -/
theorem Traced.op_kind (hs : s.Traced P m₀)
    (hr : s.sys.ctrl.memIface.find? (fun x => x.id == r.id) = some r)
    (hop : s.sys.ctrl.outstanding.lookup r.id = some op) :
    r.cls = op.Op ∧ (op.Op = .MemOpREAD ∨ op.Op = .MemOpWRITE) := by
  have hmem := mem_of_lookup hop
  refine ⟨hs.flight.wf.book.cls_eq hr hop, ?_⟩
  exact hs.flight.kind (mem_live.mpr (.inr ⟨_, hmem⟩)) (hs.flight.wf.book.kinds _ hmem).1

/-- While requests of an operation are in flight only the operation itself has
    its number. -/
theorem Traced.self (hs : s.Traced P m₀) {s' : Backed} (h : Answered s r s')
    (hop : (r.id, op) ∈ s.sys.ctrl.outstanding) (hq : s'.sys.ctrl.rqstQ = s.sys.ctrl.rqstQ) :
    ∀ o ∈ s'.sys.ctrl.live, o.seq = op.seq → o = op ∧ op ∉ s'.sys.ctrl.rqstQ ∧
      ∃ id, (id, op) ∈ s'.sys.ctrl.outstanding := by
  intro o ho hseq
  have hoplive : op ∈ s.sys.ctrl.live := mem_live.mpr (.inr ⟨_, hop⟩)
  have hnot := hs.flight.not_queued hop
  have hold : o ∈ s.sys.ctrl.live := by
    rw [mem_live, hq, h.out] at ho
    rw [mem_live]
    rcases ho with ho | ⟨id, ho⟩
    · exact .inl ho
    · exact .inr ⟨id, List.mem_of_mem_eraseP ho⟩
  obtain rfl := hs.flight.wf.ord.same_seq o hold op hoplive hseq
  refine ⟨rfl, by rwa [hq], ?_⟩
  rcases mem_live.mp ho with ho | ho
  · rw [hq] at ho
    exact absurd ho hnot
  · exact ho

/-- An operation that waits for more than this response stays. -/
theorem Traced.stays (hs : s.Traced P m₀) {s' : Backed} (h : Answered s r s')
    (hop : s.sys.ctrl.outstanding.lookup r.id = some op)
    (hlast : s.sys.ctrl.lastResp op = false) : op ∈ s'.sys.ctrl.live := by
  obtain ⟨id, hid⟩ := hs.flight.wf.ord.stays hop hlast
  exact mem_live.mpr (.inr ⟨id, by rw [h.out]; exact hid⟩)

/-- An operation in flight keeps its track when a response of it is handled and
    others are still to come. -/
theorem Traced.tracks_self (hs : s.Traced P m₀) {s' : Backed} (h : Answered s r s')
    (hop : (r.id, op) ∈ s.sys.ctrl.outstanding) (hdone : s.done.lookup r.id = some data)
    (hqueue : op ∉ s'.sys.ctrl.rqstQ) {c : Call} (hc : (op.seq, c) ∈ s.sys.issued)
    (hfence : c.isFence = false)
    (harrived : op.Op = .MemOpREAD → ∀ p, c.target = some p → ∀ i < op.Size,
      ¬s'.Waits op (op.Addr + i) →
      logAt s.log false op.seq (op.Addr + i) = some (s'.sys.host.cell p i))
    (hcell : op.Op = .MemOpWRITE → s'.sys.host.cell = s.sys.host.cell) :
    Tracks s.log s'.sys.host (s'.NotDone op) (s'.NotAnswered op) c op := by
  have ht := hs.tracks op (mem_live.mpr (.inr ⟨_, hop⟩)) c hc hfence
  have hnot := hs.flight.not_queued hop
  refine ⟨?_, ht.unwritten, ?_, ?_⟩
  · intro a
    rw [ht.final a]
    simp only [NotDone, hnot, hqueue, h.undone hs hdone]
  · intro hread p hp i hi hw
    exact harrived hread p hp i hi (fun h => hw (.inr h))
  · intro hwrite hamo p hp
    obtain ⟨hold, hbuf⟩ := ht.half hwrite hamo p hp
    refine ⟨?_, ?_⟩
    · rw [hcell hwrite]
      exact hold
    · simpa only [Host.read, hcell hwrite] using hbuf

/-- The last response of an operation leaves its effects complete. -/
theorem Traced.complete (hs : s.Traced P m₀) {s' : Backed} (h : Answered s r s')
    (hop : s.sys.ctrl.outstanding.lookup r.id = some op)
    (hdone : s.done.lookup r.id = some data) (hlast : s.sys.ctrl.lastResp op = true) {c : Call}
    (hc : (op.seq, c) ∈ s.sys.issued) (hfence : c.isFence = false) :
    ∀ i < op.Size, logAt s.log (op.Op == .MemOpWRITE) op.seq (op.Addr + i) ≠ none := by
  intro i hi hnone
  have hmem := mem_of_lookup hop
  have ht := hs.tracks op (mem_live.mpr (.inr ⟨_, hmem⟩)) c hc hfence
  rcases (ht.final _).mp hnone with hout | hq | hundone
  · unfold RevMemOp.Touches at hout
    omega
  · exact hs.flight.not_queued hmem hq
  · exact (hs.last h hop hlast _).2 ((h.undone hs hdone op _).mpr hundone)

theorem responded_answered {ctrl : RevBasicMemCtrl} {host : Host}
    (hresp : Responded s.sys.ctrl s.sys.host r data ctrl host) :
    Answered s r (s.responded r op ctrl host) := by
  cases hresp <;> exact ⟨rfl, rfl, rfl, rfl, rfl, rfl, rfl⟩

/-- What is known of an operation that reads into a target. -/
theorem Traced.reading (hs : s.Traced P m₀) (hop : op ∈ s.sys.ctrl.live)
    (hread : op.Op = .MemOpREAD) {p : ℕ} (htgt : op.target = some p) :
    ∃ c, (op.seq, c) ∈ s.sys.issued ∧ Stems c op ∧ c.isFence = false ∧ c.reads = true ∧
      c.target = some p ∧ CallOk P c ∧ op.membuf = c.operand ∧ op.Size ≤ 8 ∧
      ExtOk op.flags op.Size ∧ 0 < op.Size := by
  obtain ⟨c, hc, hstem, hplain, hok, hfence, -⟩ := hs.call hop (by simp [hread])
  obtain ⟨-, hsize, hflags⟩ := hstem.fields
  obtain ⟨hreads, htarget, hbuf⟩ : c.reads = true ∧ op.target = c.target ∧ op.membuf = c.operand := by
    rcases hstem.kind hplain hfence with h | h | h
    · exact ⟨h.2.1, h.2.2.1, h.2.2.2⟩
    · simp [hread] at h
    · simp [hread] at h
  have hpos : 0 < c.Size := by
    have henq := hs.flight.wf.ord.accepted _ hc
    cases c <;> simp [Call.reads] at hreads <;>
      simp [Call.enqueues, Call.memOp] at henq <;> simp [Call.Size, Call.memOp] <;> omega
  refine ⟨c, hc, hstem, hfence, hreads, htarget.symm.trans htgt, hok, hbuf, ?_, ?_, ?_⟩
  · rw [hsize]
    exact hok.bytes hreads
  · rw [hflags, hsize]
    exact hok.ext hreads
  · rw [hsize]
    exact hpos

/-- A response that is not the last one of its read. -/
theorem Traced.respond_part (hs : s.Traced P m₀) {s' : Backed} (hflight : s'.sys.InFlight P)
    (h : Answered s r s') (hr : r ∈ s.sys.ctrl.memIface)
    (hop : s.sys.ctrl.outstanding.lookup r.id = some op)
    (hdone : s.done.lookup r.id = some data) (hread : op.Op = .MemOpREAD) {p : ℕ}
    (htgt : op.target = some p) (hlast : s.sys.ctrl.lastResp op = false)
    (hq : s'.sys.ctrl.rqstQ = s.sys.ctrl.rqstQ)
    (hhost : s'.sys.host = copyResp s.sys.host op p (readResp r data))
    (hret : ∀ x ∈ s.returned, x ∈ s'.returned) : s'.Traced P m₀ := by
  have hmem := mem_of_lookup hop
  obtain ⟨c, hc, -, hfence, -, hp, -, -, hbound, -, -⟩ :=
    hs.reading (mem_live.mpr (.inr ⟨_, hmem⟩)) hread htgt
  have hunique : ∀ {c'}, (op.seq, c') ∈ s.sys.issued → c' = c := fun hc' =>
    hs.flight.wf.ord.history_unique hc' hc
  obtain ⟨-, hother, -⟩ := hs.flight.copyResp_spec data hr hmem hbound s.sys.host p
  refine hs.answer hmem hdone hflight h (fun _ _ => by rw [hq]) ?_ hret ?_ ?_
  · intro c' hc' x hx
    rw [hunique hc', hp] at hx
    rw [hhost]
    exact hother x fun heq => hx (by rw [heq])
  · intro o ho hseq c' hc' hfence'
    obtain ⟨rfl, hqueue, -⟩ := hs.self h hmem hq o ho hseq
    obtain rfl := hunique hc'
    refine hs.tracks_self h hmem hdone hqueue hc' hfence' ?_ (by simp [hread])
    intro _ x hx
    obtain rfl : p = x := by simpa [hp] using hx
    rw [hhost]
    exact hs.arrived h hr hmem hdone hread hc' hfence' hp
  · intro hgone
    exact absurd rfl (hgone op (hs.stays h hop hlast))

/-- The target after the last response of a read holds what the read found. -/
theorem Traced.last_arrived (hs : s.Traced P m₀) {s' : Backed} (h : Answered s r s')
    (hr : r ∈ s.sys.ctrl.memIface) (hop : s.sys.ctrl.outstanding.lookup r.id = some op)
    (hdone : s.done.lookup r.id = some data) (hread : op.Op = .MemOpREAD) {p : ℕ}
    (htgt : op.target = some p) (hlast : s.sys.ctrl.lastResp op = true) {h' : Host}
    (hflag : handleFlagResp (copyResp s.sys.host op p (readResp r data)) op = some h') :
    (∀ i < op.Size, logAt s.log false op.seq (op.Addr + i) = some (h'.cell p i)) ∧
      ∀ q, q ≠ p → h'.cell q = s.sys.host.cell q := by
  have hmem := mem_of_lookup hop
  obtain ⟨c, hc, -, hfence, -, hp, -, -, hbound, hext, hpos⟩ :=
    hs.reading (mem_live.mpr (.inr ⟨_, hmem⟩)) hread htgt
  obtain ⟨-, hother, -⟩ := hs.flight.copyResp_spec data hr hmem hbound s.sys.host p
  obtain ⟨hkeep, hother', -⟩ := handleFlagResp_spec hext hpos htgt hflag
  refine ⟨?_, ?_⟩
  · intro i hi
    rw [hkeep i hi]
    exact hs.arrived h hr hmem hdone hread hc hfence hp i hi (hs.last h hop hlast _).1
  · intro q hq
    rw [hother' q hq, hother q hq]

/-- The last response of a load. -/
theorem Traced.respond_done (hs : s.Traced P m₀) {s' : Backed} (hflight : s'.sys.InFlight P)
    (h : Answered s r s') (hr : r ∈ s.sys.ctrl.memIface)
    (hop : s.sys.ctrl.outstanding.lookup r.id = some op)
    (hdone : s.done.lookup r.id = some data) (hread : op.Op = .MemOpREAD) {p : ℕ}
    (htgt : op.target = some p) (hlast : s.sys.ctrl.lastResp op = true) {h' : Host}
    (hflag : handleFlagResp (copyResp s.sys.host op p (readResp r data)) op = some h')
    (hamo : s.sys.ctrl.AMOTable.any (AMOEntry.isFor op) = false)
    (hq : s'.sys.ctrl.rqstQ = s.sys.ctrl.rqstQ) (hcell : s'.sys.host.cell = h'.cell)
    (hret : s'.returned = s.returned ++ s.answers op s'.sys.host) : s'.Traced P m₀ := by
  have hmem := mem_of_lookup hop
  have hoplive : op ∈ s.sys.ctrl.live := mem_live.mpr (.inr ⟨_, hmem⟩)
  obtain ⟨c, hc, hstem, hfence, hreads, hp, -, -, -, -, -⟩ := hs.reading hoplive hread htgt
  obtain ⟨haddr, hsize, -⟩ := hstem.fields
  obtain ⟨hval, hother⟩ := hs.last_arrived h hr hop hdone hread htgt hlast hflag
  have hunique : ∀ {c'}, (op.seq, c') ∈ s.sys.issued → c' = c := fun hc' =>
    hs.flight.wf.ord.history_unique hc' hc
  have hplain : c.isAMO = false := by
    by_contra hnot
    obtain ⟨e, he, hptr⟩ := hs.flight.tabled op hoplive hread c hc (by simpa using hnot)
    rw [List.any_eq_false] at hamo
    exact hamo e he ((hs.flight.wf.ord.isFor_iff he hoplive).mpr hptr)
  have hkind : (op.Op == .MemOpWRITE) = false := by rw [hread]; rfl
  refine hs.answer hmem hdone hflight h (fun _ _ => by rw [hq]) ?_ ?_ ?_ ?_
  · intro c' hc' x hx
    rw [hunique hc', hp] at hx
    rw [hcell]
    exact hother x fun heq => hx (by rw [heq])
  · intro x hx
    rw [hret]
    exact List.mem_append.mpr (.inl hx)
  · intro o ho hseq
    obtain ⟨rfl, -, id, hid⟩ := hs.self h hmem hq o ho hseq
    have hgone := hs.flight.wf.ord.gone_of_lastResp hs.flight.wf.book hop hlast
    rw [← h.out] at hgone
    exact absurd rfl (hgone _ hid)
  · intro _ c' hc' _
    obtain rfl := hunique hc'
    have hwrites : c'.writes = false := by
      cases c' <;> simp_all [Call.reads, Call.isAMO, Call.writes]
    have hans : (op.seq, s'.sys.host.read p c'.Size) ∈ s'.returned := by
      rw [hret, answers, hs.lookup_issued hc']
      simp [hlast, hkind, hplain, hp]
    refine ⟨?_, ?_⟩
    · intro i hi
      rw [hwrites, ← haddr, ← hkind]
      exact hs.complete h hop hdone hlast hc' hfence i (by omega)
    · intro _
      refine ⟨_, hans, by simp, ?_⟩
      intro i hi
      rw [← haddr, hval i (by omega), Host.read_getD _ _ hi, hcell]

end Backed

end RevCPU
