import RevCPU.MemCtrl.ReadBack
import RevCPU.MemCtrl.Tickets
import RevCPU.MemCtrl.TracedResponse

namespace RevCPU

open Lib RevBasicMemCtrl

/-- A read of a few bytes from `A` on into the object `p`, which marks `req`
    complete. -/
structure Fetch where
  A : ℕ
  n : ℕ
  p : ℕ
  req : MemReq

/-- The call of `sendREADRequest` for it. -/
def Fetch.call (f : Fetch) (Hart PAddr : ℕ) : Call :=
  .READ Hart f.A PAddr f.n (some f.p) f.req .F_NONE

/-- A request of the operation is in flight for the address. -/
def RevBasicMemCtrl.Awaited (s : RevBasicMemCtrl) (op : RevMemOp) (a : ℕ) : Prop :=
  ∃ r ∈ s.memIface, (r.id, op) ∈ s.outstanding ∧ r.pAddr ≤ a ∧ a < r.pAddr + r.size

namespace CtrlSys

/-- The read has been sent under the number `k` and its last response has not
    come: no other operation has its target, its requests are parts of it, and
    the bytes that no request in flight brings are in the target. -/
structure Delivering (P : Params) (mem : ℕ → UInt8) (f : Fetch) (k : ℕ) (s : CtrlSys) : Prop where
  wf : s.Wf
  call : ∃ Hart PAddr, (k, f.call Hart PAddr) ∈ s.issued
  live : ∃ op ∈ s.ctrl.live, op.seq = k
  sole : ∀ op ∈ s.ctrl.live, op.target = some f.p → op.seq = k
  parts : ∀ r ∈ s.ctrl.memIface, ∀ op, (r.id, op) ∈ s.ctrl.outstanding → op.seq = k →
    ∃ q, Carries P op r q
  whole : ∀ n ∈ s.ctrl.outstanding, n.2.seq = k → n.2.SplitRqst ≤ 1 →
    dispatchParts P n.2 = [⟨n.2.Addr, n.2.Size, 0⟩]
  arrived : ∀ op ∈ s.ctrl.live, op.seq = k → op ∉ s.ctrl.rqstQ → ∀ i < f.n,
    s.ctrl.Awaited op (f.A + i) ∨ s.host.cell f.p i = mem (f.A + i)

/-- The read is over: its bytes are in the target, which no operation has. -/
structure Delivered (mem : ℕ → UInt8) (f : Fetch) (s : CtrlSys) : Prop where
  wf : s.Wf
  free : ∀ op ∈ s.ctrl.live, op.target ≠ some f.p
  bytes : ∀ i < f.n, s.host.cell f.p i = mem (f.A + i)

/-- A step of the surroundings that leaves the read alone: no call has its
    target, and the responses bring the bytes of the memory. -/
def Spares (mem : ℕ → UInt8) (f : Fetch) (s : CtrlSys) : Event → Prop
  | .send c => c.target ≠ some f.p
  | .response id data => ∀ r ∈ s.ctrl.memIface, r.id = id → r.cls = .MemOpREAD → ∀ j < r.size,
      f.A ≤ r.pAddr + j → r.pAddr + j < f.A + f.n → data.getD j 0 = mem (r.pAddr + j)
  | .clockTick | .processNextRqst => True

section
variable {P : Params} {mem : ℕ → UInt8} {f : Fetch} {k : ℕ} {s s' : CtrlSys} {ev : Event}

/-- The operation of the read. -/
theorem Delivering.op_eq (hs : s.Delivering P mem f k) {op : RevMemOp} (hop : op ∈ s.ctrl.live)
    (hseq : op.seq = k) :
    ∃ Hart PAddr n, op = { (f.call Hart PAddr).memOp k with SplitRqst := n } := by
  obtain ⟨Hart, PAddr, hcall⟩ := hs.call
  obtain ⟨c, hc, hstem⟩ := hs.wf.ord.stems op hop
  rw [hseq] at hc
  obtain rfl := hs.wf.ord.history_unique hc hcall
  cases hstem with
  | original seq n =>
    have hk : seq = k := by simpa using hseq
    exact ⟨Hart, PAddr, n, by rw [hk]⟩
  | half seq ptr n buffer tempT hamo hlt => simp [Fetch.call, Call.isAMO] at hamo

theorem Delivering.fields (hs : s.Delivering P mem f k) {op : RevMemOp} (hop : op ∈ s.ctrl.live)
    (hseq : op.seq = k) :
    op.ptr = k ∧ op.Addr = f.A ∧ op.Size = f.n ∧ op.Op = .MemOpREAD ∧ op.target = some f.p ∧
      op.procReq = f.req ∧ op.flags = .F_NONE := by
  obtain ⟨Hart, PAddr, n, rfl⟩ := hs.op_eq hop hseq
  exact ⟨rfl, rfl, rfl, rfl, rfl, rfl, rfl⟩

/-- The table of the AMOs has no entry for the read. -/
theorem Delivering.not_amo (hs : s.Delivering P mem f k) {op : RevMemOp} (hop : op ∈ s.ctrl.live)
    (hseq : op.seq = k) {e : AMOEntry} (he : e ∈ s.ctrl.AMOTable) : AMOEntry.isFor op e = false := by
  rw [Bool.eq_false_iff]
  intro hfor
  obtain ⟨n, hn⟩ := hs.wf.ord.entry_eq he hop ((hs.wf.ord.isFor_iff he hop).mp hfor)
  obtain ⟨c, hc, hamo⟩ := hs.wf.ord.entry_amo e he
  obtain ⟨Hart, PAddr, hcall⟩ := hs.call
  have heq : e.memop.seq = k := by
    rw [← hseq, hn]
  rw [heq] at hc
  obtain rfl := hs.wf.ord.history_unique hc hcall
  simp [Fetch.call, Call.isAMO] at hamo

/-- A step that leaves the operation of the read, its requests and its target
    alone. -/
theorem Delivering.frame (hs : s.Delivering P mem f k) (hwf : s'.Wf)
    (hissued : ∀ q ∈ s.issued, q ∈ s'.issued)
    (hlive : ∀ op, op.seq = k → (op ∈ s'.ctrl.live ↔ op ∈ s.ctrl.live))
    (hqueue : ∀ op, op.seq = k → (op ∈ s'.ctrl.rqstQ ↔ op ∈ s.ctrl.rqstQ))
    (hsole : ∀ op ∈ s'.ctrl.live, op.target = some f.p → op ∈ s.ctrl.live)
    (hflight : ∀ r op, op.seq = k → ((r ∈ s'.ctrl.memIface ∧ (r.id, op) ∈ s'.ctrl.outstanding) ↔
      r ∈ s.ctrl.memIface ∧ (r.id, op) ∈ s.ctrl.outstanding))
    (hout : ∀ n ∈ s'.ctrl.outstanding, n.2.seq = k → n ∈ s.ctrl.outstanding)
    (hcell : s'.host.cell f.p = s.host.cell f.p) : s'.Delivering P mem f k := by
  obtain ⟨Hart, PAddr, hcall⟩ := hs.call
  obtain ⟨op, hop, hseq⟩ := hs.live
  refine ⟨hwf, ⟨Hart, PAddr, hissued _ hcall⟩, ⟨op, (hlive op hseq).mpr hop, hseq⟩, ?_, ?_, ?_, ?_⟩
  · intro o ho htgt
    exact hs.sole o (hsole o ho htgt) htgt
  · intro r hr o ho hseq'
    obtain ⟨hr, ho⟩ := (hflight r o hseq').mp ⟨hr, ho⟩
    exact hs.parts r hr o ho hseq'
  · intro n hn hseq' hsplit
    exact hs.whole n (hout n hn hseq') hseq' hsplit
  · intro o ho hseq' hnot i hi
    rw [hlive o hseq'] at ho
    rw [hqueue o hseq'] at hnot
    rw [hcell]
    refine (hs.arrived o ho hseq' hnot i hi).imp_left ?_
    rintro ⟨r, hr, hout, hin⟩
    obtain ⟨hr, hout⟩ := (hflight r o hseq').mpr ⟨hr, hout⟩
    exact ⟨r, hr, hout, hin⟩

theorem Delivering.seq_lt (hs : s.Delivering P mem f k) : k < s.ctrl.nextPtr := by
  obtain ⟨Hart, PAddr, hcall⟩ := hs.call
  exact hs.wf.ord.history_lt _ hcall

theorem Delivering.enqueue (hs : s.Delivering P mem f k) {c : Call} (hc : c.target ≠ some f.p)
    (hwf : s'.Wf) (hctrl : s'.ctrl = c.enqueued s.ctrl) (hhost : s'.host = s.host)
    (hissued : s'.issued = s.issued ++ [(s.ctrl.nextPtr, c)]) : s'.Delivering P mem f k := by
  have hne : ∀ op : RevMemOp, op.seq = k → op ≠ c.memOp s.ctrl.nextPtr := by
    rintro op hseq rfl
    have hlt := hs.seq_lt
    rw [Call.memOp_seq] at hseq
    omega
  have hqueue : ∀ op, op ∈ s'.ctrl.rqstQ ↔ op ∈ s.ctrl.rqstQ ∨ op = c.memOp s.ctrl.nextPtr := by
    intro op
    rw [hctrl]
    simp [Call.enqueued]
  have hout : s'.ctrl.outstanding = s.ctrl.outstanding := by rw [hctrl]; rfl
  have hiface : s'.ctrl.memIface = s.ctrl.memIface := by rw [hctrl]; rfl
  have hq : ∀ op, op.seq = k → (op ∈ s'.ctrl.rqstQ ↔ op ∈ s.ctrl.rqstQ) := by
    intro op hseq
    rw [hqueue]
    exact or_iff_left (hne op hseq)
  refine hs.frame hwf (by simp +contextual [hissued]) ?_ hq ?_ (by simp [hout, hiface])
    (by simp +contextual [hout]) (by rw [hhost])
  · intro op hseq
    rw [mem_live, mem_live, hq op hseq, hout]
  · intro op hop htgt
    rw [mem_live, hqueue, hout] at hop
    rcases hop with (hop | rfl) | hop
    · exact mem_live.mpr (.inl hop)
    · have hsame : (c.memOp s.ctrl.nextPtr).target = c.target := by cases c <;> rfl
      exact absurd (hsame.symm.trans htgt) hc
    · exact mem_live.mpr (.inr hop)

theorem Delivering.dropFence (hs : s.Delivering P mem f k) {i : ℕ} {op : RevMemOp}
    (hslot : s.ctrl.rqstQ[i]? = some op) (hop : op.Op = .MemOpFENCE) (hwf : s'.Wf)
    (hq : s'.ctrl.rqstQ = s.ctrl.rqstQ.eraseIdx i)
    (hout : s'.ctrl.outstanding = s.ctrl.outstanding)
    (hiface : s'.ctrl.memIface = s.ctrl.memIface) (hhost : s'.host = s.host)
    (hissued : s'.issued = s.issued) : s'.Delivering P mem f k := by
  have hoplive : op ∈ s.ctrl.live := mem_live.mpr (.inl (List.mem_of_getElem? hslot))
  have hqueue : ∀ o, o.seq = k → (o ∈ s'.ctrl.rqstQ ↔ o ∈ s.ctrl.rqstQ) := by
    intro o hseq
    rw [hq, hs.wf.ord.mem_eraseIdx hslot]
    refine and_iff_left_of_imp ?_
    intro ho hptr
    have holive : o ∈ s.ctrl.live := mem_live.mpr (.inl ho)
    obtain rfl := hs.wf.ord.same_ptr o holive op hoplive hptr
    rw [(hs.fields holive hseq).2.2.2.1] at hop
    exact absurd hop (by simp)
  refine hs.frame hwf (by simp [hissued]) ?_ hqueue ?_ (by simp [hout, hiface])
    (by simp +contextual [hout]) (by rw [hhost])
  · intro o hseq
    rw [mem_live, mem_live, hqueue o hseq, hout]
  · intro o ho _
    rw [mem_live, hq, hout] at ho
    exact mem_live.mpr (ho.imp_left fun h => (List.eraseIdx_sublist _ _).subset h)

/-- The operation of another call is dispatched. -/
theorem Delivering.dispatch_other (hs : s.Delivering P mem f k) {i : ℕ} {op : RevMemOp}
    (hslot : s.ctrl.rqstQ[i]? = some op) (hne : op.seq ≠ k) (hwf : s'.Wf)
    (hctrl : s'.ctrl = dispatchSlot P s.ctrl i op) (hhost : s'.host = s.host)
    (hissued : s'.issued = s.issued) : s'.Delivering P mem f k := by
  have hoplive : op ∈ s.ctrl.live := mem_live.mpr (.inl (List.mem_of_getElem? hslot))
  have hptr : ∀ o ∈ s.ctrl.live, o.seq = k → o.ptr ≠ op.ptr := by
    intro o ho hseq hptr
    rw [hs.wf.ord.same_ptr o ho op hoplive hptr] at hseq
    exact hne hseq
  have hsplit : ∀ o : RevMemOp, o.seq = k → o ≠ splitOp P op := by
    rintro o hseq rfl
    rw [splitOp_seq] at hseq
    exact hne hseq
  have hmem : ∀ n : ℕ × RevMemOp, n.2.seq = k →
      (n ∈ s'.ctrl.outstanding ↔ n ∈ s.ctrl.outstanding) := by
    intro n hseq
    rw [hctrl, mem_outstanding_dispatch]
    exact or_iff_left fun h => hsplit n.2 hseq h.2.2
  have hqueue : ∀ o, o.seq = k → (o ∈ s'.ctrl.rqstQ ↔ o ∈ s.ctrl.rqstQ) := by
    intro o hseq
    rw [hctrl, dispatchSlot_rqstQ, hs.wf.ord.mem_eraseIdx hslot]
    exact and_iff_left_of_imp fun ho => hptr o (mem_live.mpr (.inl ho)) hseq
  refine hs.frame hwf (by simp [hissued]) ?_ hqueue ?_ ?_ (fun n hn hseq => (hmem n hseq).mp hn)
    (by rw [hhost])
  · intro o hseq
    rw [mem_live, mem_live, hqueue o hseq]
    exact or_congr_right (exists_congr fun id => hmem (id, o) hseq)
  · intro o ho htgt
    rw [hctrl, hs.wf.ord.mem_live_dispatch hslot] at ho
    rcases ho with ⟨ho, -⟩ | rfl
    · exact ho
    · rw [splitOp_target] at htgt
      exact absurd (hs.sole op hoplive htgt) hne
  · intro r o hseq
    rw [hmem (r.id, o) hseq]
    refine and_congr_left fun ho => ?_
    rw [hctrl, dispatchSlot_memIface, List.mem_append]
    refine or_iff_left ?_
    intro hr
    obtain ⟨⟨q, id⟩, hq, rfl⟩ := List.mem_map.mp hr
    have hlow := (List.mem_zipIdx hq).1
    have hlt := hs.wf.book.outstanding_lt _ ho
    simp only [mkRqst_id] at hlt
    omega

/-- The operation of the read is dispatched: its requests bring all its bytes. -/
theorem Delivering.dispatch_self (hs : s.Delivering P mem f k) (hreach : LinesReach P f.A f.n)
    {i : ℕ} {op : RevMemOp} (hslot : s.ctrl.rqstQ[i]? = some op) (hseq : op.seq = k) (hwf : s'.Wf)
    (hctrl : s'.ctrl = dispatchSlot P s.ctrl i op) (hissued : s'.issued = s.issued) :
    s'.Delivering P mem f k := by
  have hqueue : op ∈ s.ctrl.rqstQ := List.mem_of_getElem? hslot
  have hoplive : op ∈ s.ctrl.live := mem_live.mpr (.inl hqueue)
  obtain ⟨hptr, hA, hn, hread, htgt, -, hflags⟩ := hs.fields hoplive hseq
  have hkind : op.Op = .MemOpREAD ∨ op.Op = .MemOpWRITE := .inl hread
  have hcovered : Covered P op := by
    refine (covered_iff ?_).mpr ?_
    · rw [RevMemOp.isCacheable, hflags]
      rfl
    · rw [hA, hn]
      exact hreach
  have hlive : ∀ {o}, o ∈ s'.ctrl.live ↔ o ∈ s.ctrl.live ∧ o.ptr ≠ op.ptr ∨ o = splitOp P op := by
    rw [hctrl]
    exact hs.wf.ord.mem_live_dispatch hslot
  have hself : ∀ o ∈ s'.ctrl.live, o.seq = k → o = splitOp P op := by
    intro o ho hseq'
    rcases hlive.mp ho with ⟨ho, hne⟩ | ho
    · exact absurd (congrArg RevMemOp.ptr (hs.wf.ord.same_seq o ho op hoplive (hseq'.trans hseq.symm)))
        hne
    · exact ho
  have hout : ∀ n ∈ s'.ctrl.outstanding, n.2.seq = k → s.ctrl.nextId ≤ n.1 ∧ n.2 = splitOp P op := by
    intro n hn hseq'
    rw [hctrl, mem_outstanding_dispatch] at hn
    rcases hn with hn | ⟨hlow, -, heq⟩
    · have hnlive : n.2 ∈ s.ctrl.live := mem_live.mpr (.inr ⟨n.1, hn⟩)
      have heq := hs.wf.ord.same_seq n.2 hnlive op hoplive (hseq'.trans hseq.symm)
      exact absurd (congrArg RevMemOp.ptr heq) (hs.wf.ord.dispatched n hn op hqueue)
    · exact ⟨hlow, heq⟩
  obtain ⟨Hart, PAddr, hcall⟩ := hs.call
  refine ⟨hwf, ⟨Hart, PAddr, by rw [hissued]; exact hcall⟩,
    ⟨splitOp P op, hlive.mpr (.inr rfl), by simpa using hseq⟩, ?_, ?_, ?_, ?_⟩
  · intro o ho htgt'
    rcases hlive.mp ho with ⟨ho, -⟩ | rfl
    · exact hs.sole o ho htgt'
    · simpa using hseq
  · intro r hr o ho hseq'
    obtain ⟨hlow, rfl⟩ := hout _ ho hseq'
    rw [hctrl, dispatchSlot_memIface, List.mem_append] at hr
    rcases hr with hr | hr
    · have hlt := hs.wf.book.memIface_lt r hr
      simp only at hlow
      omega
    · exact (newRqsts_carries hkind hr).2.2
  · intro n hn hseq' hsplit
    obtain ⟨-, heq⟩ := hout n hn hseq'
    rw [heq] at hsplit ⊢
    rw [dispatchParts_splitOp, splitOp_Addr, splitOp_Size]
    exact dispatchParts_whole hsplit
  · intro o ho hseq' _ j hj
    obtain rfl := hself o ho hseq'
    obtain ⟨q, hq, hfrom, hto⟩ := hcovered j (by rw [hn]; exact hj)
    obtain ⟨haddr, -⟩ := dispatchParts_range P op hq
    obtain ⟨m, hm, hget⟩ := List.getElem_of_mem hq
    refine .inl ⟨mkRqst (s.ctrl.nextId + m) (splitOp P op) q.addr q.size q.cur (dispatchFlags P op),
      ?_, ?_, ?_⟩
    · rw [hctrl, dispatchSlot_memIface, List.mem_append]
      refine .inr (List.mem_map.mpr ⟨(q, s.ctrl.nextId + m), ?_, rfl⟩)
      rw [List.mem_zipIdx_iff_le_and_getElem?_sub]
      simp [hm, hget]
    · rw [hctrl, mem_outstanding_dispatch, mkRqst_id]
      exact .inr ⟨by simp, by simpa using hm, rfl⟩
    · have hcustom : (splitOp P op).Op ≠ .MemOpCUSTOM := by simp [hread]
      simp only [mkRqst, if_neg hcustom]
      omega

end

end CtrlSys

end RevCPU
