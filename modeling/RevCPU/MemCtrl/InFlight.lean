import RevCPU.MemCtrl.Backend
import RevCPU.MemCtrl.PartRange
import RevCPU.MemCtrl.TargetBytes

namespace RevCPU

open Lib RevBasicMemCtrl

namespace Call

/-- The call returns a value to a target. -/
def reads : Call → Bool
  | READ .. | AMO .. => true
  | _ => false

end Call

/-- The calls that the results are about: the parts of an operation cover it, a
    load or AMO has a target and asks for an extension that its size allows, and
    an AMO is of 4 or 8 bytes. -/
structure CallOk (P : Params) (c : Call) : Prop where
  covered : c.isFence = false → Covered P (c.memOp 0)
  ext : c.reads = true → ExtOk c.flags c.Size
  bytes : c.reads = true → c.Size ≤ 8
  amo : c.isAMO = true → c.Size = 4 ∨ c.Size = 8
  target : c.reads = true → c.target.isSome = true

instance (P : Params) (c : Call) : Decidable (CallOk P c) :=
  decidable_of_iff
    ((c.isFence = false → Covered P (c.memOp 0)) ∧ (c.reads = true → ExtOk c.flags c.Size) ∧
      (c.reads = true → c.Size ≤ 8) ∧ (c.isAMO = true → c.Size = 4 ∨ c.Size = 8) ∧
      (c.reads = true → c.target.isSome = true))
    ⟨fun h => ⟨h.1, h.2.1, h.2.2.1, h.2.2.2.1, h.2.2.2.2⟩,
      fun h => ⟨h.covered, h.ext, h.bytes, h.amo, h.target⟩⟩

namespace RevBasicMemCtrl

/-- What an operation has from its call. -/
theorem Stems.fields {c : Call} {op : RevMemOp} (h : Stems c op) :
    op.Addr = c.Addr ∧ op.Size = c.Size ∧ op.flags = c.flags := by
  cases h with
  | original seq n => cases c <;> exact ⟨rfl, rfl, rfl⟩
  | half seq ptr n buffer tempT hamo hlt => cases c <;> exact ⟨rfl, rfl, rfl⟩

/-- The operations of a plain call: a read, the write of a `WRITE`, the write
    half of an AMO, or a fence. -/
theorem Stems.kind {c : Call} {op : RevMemOp} (h : Stems c op) (hplain : c.plain = true)
    (hfence : c.isFence = false) :
    (op.Op = .MemOpREAD ∧ c.reads = true ∧ op.target = c.target ∧ op.membuf = (c.memOp 0).membuf) ∨
      (op.Op = .MemOpWRITE ∧ c.reads = false ∧ c.isAMO = false ∧ op.membuf = (c.memOp 0).membuf) ∨
      (op.Op = .MemOpWRITE ∧ c.isAMO = true) := by
  cases h with
  | original seq n =>
    cases c <;> simp [Call.plain, Call.isFence] at hplain hfence <;>
      simp [Call.memOp, Call.reads, Call.isAMO, Call.target]
  | half seq ptr n buffer tempT hamo hlt => exact .inr (.inr ⟨rfl, hamo⟩)

theorem Stems.fence {c : Call} {op : RevMemOp} (h : Stems c op) (hfence : c.isFence = true) :
    op.Op = .MemOpFENCE := by
  cases h with
  | original seq n =>
    cases c <;> simp [Call.isFence] at hfence
    rfl
  | half seq ptr n buffer tempT hamo hlt => cases c <;> simp [Call.isFence, Call.isAMO] at hfence hamo

theorem Stems.covered {P : Params} {c : Call} {op : RevMemOp} (h : Stems c op) (hok : CallOk P c)
    (hfence : c.isFence = false) : Covered P op := by
  obtain ⟨haddr, hsize, hflags⟩ := h.fields
  refine (hok.covered hfence).congr haddr.symm hsize.symm ?_
  rw [hflags, Call.memOp_flags]

/-- The requests that a dispatch hands to the memory. -/
def newRqsts (P : Params) (s : RevBasicMemCtrl) (op : RevMemOp) : List StdRqst :=
  ((dispatchParts P op).zipIdx s.nextId).map fun p =>
    mkRqst p.2 (splitOp P op) p.1.addr p.1.size p.1.cur (dispatchFlags P op)

theorem dispatchSlot_memIface (P : Params) (s : RevBasicMemCtrl) (i : ℕ) (op : RevMemOp) :
    (dispatchSlot P s i op).memIface = s.memIface ++ newRqsts P s op := by
  simp [dispatchSlot, newRqsts]

theorem mem_outstanding_dispatch {P : Params} {s : RevBasicMemCtrl} {i : ℕ} {op : RevMemOp}
    {n : ℕ × RevMemOp} :
    n ∈ (dispatchSlot P s i op).outstanding ↔ n ∈ s.outstanding ∨
      s.nextId ≤ n.1 ∧ n.1 < s.nextId + (dispatchParts P op).length ∧ n.2 = splitOp P op := by
  obtain ⟨id, o⟩ := n
  rw [dispatchSlot_outstanding, List.mem_append, List.mem_map]
  simp only [List.mem_range'_1, Prod.mk.injEq]
  constructor
  · rintro (h | ⟨id', h, rfl, rfl⟩)
    · exact .inl h
    · exact .inr ⟨h.1, h.2, rfl⟩
  · rintro (h | ⟨hlow, hhigh, rfl⟩)
    · exact .inl h
    · exact .inr ⟨id, ⟨hlow, hhigh⟩, rfl, rfl⟩

theorem Bookkeeping.outstanding_lt {s : RevBasicMemCtrl} (hs : s.Bookkeeping) :
    ∀ n ∈ s.outstanding, n.1 < s.nextId := by
  intro n hn
  refine hs.lt _ ?_
  rw [← hs.ids]
  exact List.mem_map.mpr ⟨n, hn, rfl⟩

/-- Every request in flight has its operation. -/
theorem Bookkeeping.rqst_op {s : RevBasicMemCtrl} (hs : s.Bookkeeping) {r : StdRqst}
    (hr : r ∈ s.memIface) : ∃ op, (r.id, op) ∈ s.outstanding ∧ r.cls = op.Op := by
  have hmem : (r.id, r.cls) ∈ s.outstanding.map fun n => (n.1, n.2.Op) := by
    rw [← hs.iface]
    exact List.mem_map.mpr ⟨r, hr, rfl⟩
  obtain ⟨n, hn, heq⟩ := List.mem_map.mp hmem
  simp only [Prod.mk.injEq] at heq
  rw [← heq.1, ← heq.2]
  exact ⟨n.2, hn, rfl⟩

theorem Bookkeeping.memIface_lt {s : RevBasicMemCtrl} (hs : s.Bookkeeping) :
    ∀ r ∈ s.memIface, r.id < s.nextId := by
  intro r hr
  obtain ⟨op, hop, -⟩ := hs.rqst_op hr
  exact hs.outstanding_lt _ hop

/-- A request carries a part of its operation. -/
structure Carries (P : Params) (op : RevMemOp) (r : StdRqst) (p : Part) : Prop where
  part : p ∈ dispatchParts P op
  addr : r.pAddr = p.addr
  size : r.size = p.size
  data : op.Op = .MemOpWRITE → r.data = (op.membuf.drop p.cur).take p.size

theorem dispatchParts_splitOp (P : Params) (op : RevMemOp) :
    dispatchParts P (splitOp P op) = dispatchParts P op :=
  dispatchParts_congr (splitOp_Addr P op) (splitOp_Size P op) (splitOp_flags P op)

theorem newRqsts_carries {P : Params} {s : RevBasicMemCtrl} {op : RevMemOp}
    (hkind : op.Op = .MemOpREAD ∨ op.Op = .MemOpWRITE) {r : StdRqst} (hr : r ∈ newRqsts P s op) :
    s.nextId ≤ r.id ∧ r.id < s.nextId + (dispatchParts P op).length ∧
      ∃ p, Carries P (splitOp P op) r p := by
  obtain ⟨⟨p, id⟩, hmem, rfl⟩ := List.mem_map.mp hr
  obtain ⟨hlow, hhigh, heq⟩ := List.mem_zipIdx hmem
  have hpart : p ∈ dispatchParts P op := by
    rw [heq]
    exact List.getElem_mem _
  have hcustom : op.Op ≠ .MemOpCUSTOM := by rcases hkind with h | h <;> simp [h]
  simp only [mkRqst_id]
  refine ⟨hlow, by omega, p, ?_⟩
  simp only [mkRqst, splitOp_Op, if_neg hcustom]
  refine ⟨by rwa [dispatchParts_splitOp], rfl, rfl, ?_⟩
  intro hwrite
  rw [splitOp_Op] at hwrite
  simp [rqstData, hwrite]

end RevBasicMemCtrl

namespace CtrlSys

/-- The invariant of the requests in flight when all calls are plain ones that
    meet `CallOk` and no two operations share a target: each request carries a
    part of its operation, the parts of one operation are apart, and the read of
    an AMO is in the table. -/
structure InFlight (P : Params) (s : CtrlSys) : Prop where
  wf : s.Wf
  calls : ∀ q ∈ s.issued, q.2.plain = true ∧ CallOk P q.2
  tabled : ∀ op ∈ s.ctrl.live, op.Op = .MemOpREAD → ∀ c, (op.seq, c) ∈ s.issued → c.isAMO = true →
    ∃ e ∈ s.ctrl.AMOTable, e.memop.ptr = op.ptr
  targets : ∀ op ∈ s.ctrl.live, ∀ op' ∈ s.ctrl.live, op.seq ≠ op'.seq → ∀ c c',
    (op.seq, c) ∈ s.issued → (op'.seq, c') ∈ s.issued → ∀ p, c.target = some p → c'.target ≠ some p
  rqsts : ∀ r ∈ s.ctrl.memIface, ∀ op, (r.id, op) ∈ s.ctrl.outstanding → ∃ p, Carries P op r p
  apart : s.ctrl.memIface.Pairwise fun r r' => ∀ op, (r.id, op) ∈ s.ctrl.outstanding →
    (r'.id, op) ∈ s.ctrl.outstanding → r.pAddr + r.size ≤ r'.pAddr
  whole : ∀ n ∈ s.ctrl.outstanding, n.2.SplitRqst ≤ 1 →
    dispatchParts P n.2 = [⟨n.2.Addr, n.2.Size, 0⟩]

/-- The target of a new call is not in use. -/
def FreeTarget (s : CtrlSys) (c : Call) : Prop :=
  ∀ op ∈ s.ctrl.live, ∀ c', (op.seq, c') ∈ s.issued → ∀ p, c.target = some p → c'.target ≠ some p

instance (s : CtrlSys) (c : Call) : Decidable (s.FreeTarget c) :=
  decidable_of_iff
    (∀ op ∈ s.ctrl.live, ∀ q ∈ s.issued, q.1 = op.seq → ∀ p ∈ c.target, q.2.target ≠ some p)
    ⟨fun h op hop c' hc' p hp => h op hop _ hc' rfl p hp,
      fun h op hop q hq hseq p hp => h op hop q.2 (by rw [← hseq]; exact hq) p hp⟩

namespace InFlight

variable {P : Params} {s : CtrlSys}

/-- The call of an operation. -/
theorem call (hs : s.InFlight P) {op : RevMemOp} (hop : op ∈ s.ctrl.live) :
    ∃ c, (op.seq, c) ∈ s.issued ∧ Stems c op ∧ c.plain = true ∧ CallOk P c := by
  obtain ⟨c, hc, hstem⟩ := hs.wf.ord.stems op hop
  exact ⟨c, hc, hstem, hs.calls _ hc⟩

/-- The requests and their operations may go away. -/
theorem shrink (hs : s.InFlight P) {s' : CtrlSys} (hwf : s'.Wf) (hissued : s'.issued = s.issued)
    (hlive : ∀ op ∈ s'.ctrl.live, op.Op = .MemOpREAD → op ∈ s.ctrl.live)
    (hseq : ∀ op ∈ s'.ctrl.live, ∃ op₀ ∈ s.ctrl.live, op₀.seq = op.seq)
    (hamo : ∀ op ∈ s'.ctrl.live, op.Op = .MemOpREAD → ∀ e ∈ s.ctrl.AMOTable,
      e.memop.ptr = op.ptr → e ∈ s'.ctrl.AMOTable)
    (hiface : s'.ctrl.memIface.Sublist s.ctrl.memIface)
    (hout : s'.ctrl.outstanding.Sublist s.ctrl.outstanding) : s'.InFlight P := by
  refine ⟨hwf, ?_, ?_, ?_, ?_, ?_, fun n hn => hs.whole n (hout.subset hn)⟩
  · rw [hissued]
    exact hs.calls
  · intro op hop hread c hc hisAMO
    rw [hissued] at hc
    obtain ⟨e, he, hptr⟩ := hs.tabled op (hlive op hop hread) hread c hc hisAMO
    exact ⟨e, hamo op hop hread e he hptr, hptr⟩
  · intro op hop op' hop' hne c c' hc hc'
    rw [hissued] at hc hc'
    obtain ⟨o, ho, heq⟩ := hseq op hop
    obtain ⟨o', ho', heq'⟩ := hseq op' hop'
    exact hs.targets o ho o' ho' (by omega) c c' (by rwa [heq]) (by rwa [heq'])
  · intro r hr op hop
    exact hs.rqsts r (hiface.subset hr) op (hout.subset hop)
  · refine (hs.apart.sublist hiface).imp ?_
    intro r r' h op hop hop'
    exact h op (hout.subset hop) (hout.subset hop')

theorem enqueue (hs : s.InFlight P) {c : Call} (hplain : c.plain = true) (hok : CallOk P c)
    (hfree : s.FreeTarget c) {s' : CtrlSys} (hwf : s'.Wf) (hctrl : s'.ctrl = c.enqueued s.ctrl)
    (hissued : s'.issued = s.issued ++ [(s.ctrl.nextPtr, c)]) : s'.InFlight P := by
  have hlive : ∀ {op}, op ∈ s'.ctrl.live ↔ op ∈ s.ctrl.live ∨ op = c.memOp s.ctrl.nextPtr := by
    intro op
    rw [hctrl, mem_live, mem_live]
    simp only [Call.enqueued, List.mem_append, List.mem_singleton]
    tauto
  have hold : ∀ {op c'}, op ∈ s.ctrl.live → (op.seq, c') ∈ s'.issued → (op.seq, c') ∈ s.issued := by
    intro op c' hop hc
    rw [hissued, List.mem_append, List.mem_singleton] at hc
    rcases hc with hc | hc
    · exact hc
    · have hle := hs.wf.ord.seq_le hop
      have hlt := hs.wf.ord.live_lt op hop
      have heq := (Prod.mk.inj hc).1
      omega
  have hnew : ∀ {c'}, ((c.memOp s.ctrl.nextPtr).seq, c') ∈ s'.issued → c' = c := by
    intro c' hc
    rw [Call.memOp_seq] at hc
    refine hwf.ord.history_unique hc ?_
    rw [hissued]
    simp
  refine ⟨hwf, ?_, ?_, ?_, ?_, ?_, ?_⟩
  · intro q hq
    rw [hissued, List.mem_append, List.mem_singleton] at hq
    rcases hq with hq | rfl
    · exact hs.calls q hq
    · exact ⟨hplain, hok⟩
  · intro op hop hread c' hc hisAMO
    rw [hctrl]
    simp only [Call.enqueued, List.mem_append]
    rcases hlive.mp hop with hop | rfl
    · obtain ⟨e, he, hptr⟩ := hs.tabled op hop hread c' (hold hop hc) hisAMO
      exact ⟨e, .inl he, hptr⟩
    · rw [hnew hc] at hisAMO
      exact ⟨_, .inr (by simp [Call.amoEntries, hisAMO]; rfl), rfl⟩
  · intro op hop op' hop' hne c₁ c₂ hc₁ hc₂ p hp
    rcases hlive.mp hop with hop | rfl <;> rcases hlive.mp hop' with hop' | rfl
    · exact hs.targets op hop op' hop' hne c₁ c₂ (hold hop hc₁) (hold hop' hc₂) p hp
    · intro hp'
      rw [hnew hc₂] at hp'
      exact hfree op hop c₁ (hold hop hc₁) p hp' hp
    · rw [hnew hc₁] at hp
      exact hfree op' hop' c₂ (hold hop' hc₂) p hp
    · exact absurd rfl hne
  · rw [hctrl]
    exact hs.rqsts
  · rw [hctrl]
    exact hs.apart
  · rw [hctrl]
    exact hs.whole

/-- A live operation that is not a fence reads or writes. -/
theorem kind (hs : s.InFlight P) {op : RevMemOp} (hop : op ∈ s.ctrl.live)
    (hfence : op.Op ≠ .MemOpFENCE) : op.Op = .MemOpREAD ∨ op.Op = .MemOpWRITE := by
  obtain ⟨c, hc, hstem, hplain, hok⟩ := hs.call hop
  have hnot : c.isFence = false := by
    by_contra h
    exact hfence (hstem.fence (by simpa using h))
  rcases hstem.kind hplain hnot with h | h | h
  · exact .inl h.1
  · exact .inr h.1
  · exact .inr h.1

theorem newRqsts_pairwise (P : Params) (s : RevBasicMemCtrl) {op : RevMemOp}
    (hkind : op.Op = .MemOpREAD ∨ op.Op = .MemOpWRITE) :
    (newRqsts P s op).Pairwise fun r r' => r.pAddr + r.size ≤ r'.pAddr := by
  have hcustom : op.Op ≠ .MemOpCUSTOM := by rcases hkind with h | h <;> simp [h]
  unfold newRqsts
  rw [List.pairwise_map]
  have hparts := dispatchParts_pairwise P op
  rw [← List.zipIdx_map_fst s.nextId (dispatchParts P op), List.pairwise_map] at hparts
  refine hparts.imp_of_mem ?_
  intro a b ha hb hab
  have hmem : ∀ {q : Part × ℕ}, q ∈ (dispatchParts P op).zipIdx s.nextId → q.1 ∈ dispatchParts P op := by
    intro q hq
    obtain ⟨-, -, heq⟩ := List.mem_zipIdx hq
    rw [heq]
    exact List.getElem_mem _
  have hra := dispatchParts_range P op (hmem ha)
  have hrb := dispatchParts_range P op (hmem hb)
  simp only [mkRqst, splitOp_Op, if_neg hcustom]
  omega

theorem dispatch (hs : s.InFlight P) {s' : CtrlSys} (hwf : s'.Wf) {i : ℕ} {op : RevMemOp}
    (hslot : s.ctrl.rqstQ[i]? = some op) (hfence : op.Op ≠ .MemOpFENCE)
    (hctrl : s'.ctrl = dispatchSlot P s.ctrl i op) (hissued : s'.issued = s.issued) :
    s'.InFlight P := by
  have hqueue : op ∈ s.ctrl.rqstQ := List.mem_of_getElem? hslot
  have hop : op ∈ s.ctrl.live := mem_live.mpr (.inl hqueue)
  have hkind := hs.kind hop hfence
  have hlive : ∀ {o}, o ∈ s'.ctrl.live ↔ o ∈ s.ctrl.live ∧ o.ptr ≠ op.ptr ∨ o = splitOp P op := by
    rw [hctrl]
    exact hs.wf.ord.mem_live_dispatch hslot
  have hout : ∀ {n}, n ∈ s'.ctrl.outstanding ↔ n ∈ s.ctrl.outstanding ∨
      s.ctrl.nextId ≤ n.1 ∧ n.1 < s.ctrl.nextId + (dispatchParts P op).length ∧ n.2 = splitOp P op := by
    rw [hctrl]
    exact mem_outstanding_dispatch
  have hid := hs.wf.book.memIface_lt
  have hidOut := hs.wf.book.outstanding_lt
  refine ⟨hwf, by rw [hissued]; exact hs.calls, ?_, ?_, ?_, ?_, ?_⟩
  · intro o ho hread c hc hisAMO
    rw [hissued] at hc
    rw [hctrl, dispatchSlot_AMOTable]
    rcases hlive.mp ho with ⟨ho, -⟩ | rfl
    · exact hs.tabled o ho hread c hc hisAMO
    · rw [splitOp_ptr]
      exact hs.tabled op hop (by simpa using hread) c (by simpa using hc) hisAMO
  · intro o ho o' ho' hne c c' hc hc'
    rw [hissued] at hc hc'
    have hseq : ∀ {x}, x ∈ s'.ctrl.live → ∃ x₀ ∈ s.ctrl.live, x₀.seq = x.seq := by
      intro x hx
      rcases hlive.mp hx with ⟨hx, -⟩ | rfl
      · exact ⟨x, hx, rfl⟩
      · exact ⟨op, hop, (splitOp_seq P op).symm⟩
    obtain ⟨x, hx, heq⟩ := hseq ho
    obtain ⟨x', hx', heq'⟩ := hseq ho'
    exact hs.targets x hx x' hx' (by omega) c c' (by rwa [heq]) (by rwa [heq'])
  · intro r hr o ho
    rw [hctrl, dispatchSlot_memIface, List.mem_append] at hr
    rcases hr with hr | hr
    · rcases hout.mp ho with ho | ⟨hlow, -, -⟩
      · exact hs.rqsts r hr o ho
      · have hlt := hid r hr
        simp only at hlow
        omega
    · obtain ⟨hlow, -, p, hp⟩ := newRqsts_carries hkind hr
      rcases hout.mp ho with ho | ⟨-, -, heq⟩
      · have hlt := hidOut _ ho
        simp only at hlt
        omega
      · simp only at heq
        rw [heq]
        exact ⟨p, hp⟩
  · rw [hctrl, dispatchSlot_memIface, List.pairwise_append, ← hctrl]
    refine ⟨?_, ?_, ?_⟩
    · refine hs.apart.imp_of_mem ?_
      intro r r' hr hr' h o ho ho'
      have hlt := hid r hr
      have hlt' := hid r' hr'
      rcases hout.mp ho with ho | ⟨hlow, -, -⟩
      · rcases hout.mp ho' with ho' | ⟨hlow, -, -⟩
        · exact h o ho ho'
        · simp only at hlow
          omega
      · simp only at hlow
        omega
    · exact (newRqsts_pairwise P s.ctrl hkind).imp fun h o _ _ => h
    · intro r hr r' hr' o ho ho'
      have hlt := hid r hr
      obtain ⟨hlow', -, -⟩ := newRqsts_carries hkind hr'
      rcases hout.mp ho with ho | ⟨hlow, -, -⟩
      · rcases hout.mp ho' with ho' | ⟨-, -, heq⟩
        · have hlt' := hidOut _ ho'
          simp only at hlt'
          omega
        · have hne := hs.wf.ord.dispatched _ ho op hqueue
          simp only at heq
          rw [heq, splitOp_ptr] at hne
          exact absurd rfl hne
      · simp only at hlow
        omega
  · intro n hn hsplit
    rcases hout.mp hn with hn | ⟨-, -, heq⟩
    · exact hs.whole n hn hsplit
    · rw [heq] at hsplit ⊢
      rw [dispatchParts_splitOp, splitOp_Addr, splitOp_Size]
      exact dispatchParts_whole hsplit

theorem responded (hs : s.InFlight P) {s' : CtrlSys} (hwf : s'.Wf) {r : StdRqst}
    {data : List UInt8} (hr : s.ctrl.memIface.find? (fun x => x.id == r.id) = some r)
    (hresp : Responded s.ctrl s.host r data s'.ctrl s'.host) (hissued : s'.issued = s.issued) :
    s'.InFlight P := by
  obtain ⟨ctrl, host, tick, issued⟩ := s'
  simp only at hresp hissued
  cases hresp with
  | readPart hcls hreq hop | readDone hcls hreq hop | flush hcls hreq hop | custom hcls hreq hop =>
    have hlive : ∀ o ∈ (s.ctrl.answered r.id).live, o ∈ s.ctrl.live := by
      intro o ho
      rw [mem_live] at ho ⊢
      rcases ho with ho | ⟨id, ho⟩
      · exact .inl ho
      · exact .inr ⟨id, List.mem_of_mem_eraseP ho⟩
    exact hs.shrink hwf hissued (fun o ho _ => hlive o ho) (fun o ho => ⟨o, hlive o ho, rfl⟩)
      (fun _ _ _ e he _ => he) List.eraseP_sublist List.eraseP_sublist
  | @write op hcls hreq hop =>
    have hlive : ∀ o ∈ (s.ctrl.answered r.id).live, o ∈ s.ctrl.live := by
      intro o ho
      rw [mem_live] at ho ⊢
      rcases ho with ho | ⟨id, ho⟩
      · exact .inl ho
      · exact .inr ⟨id, List.mem_of_mem_eraseP ho⟩
    refine hs.shrink hwf hissued (fun o ho _ => hlive o ho) (fun o ho => ⟨o, hlive o ho, rfl⟩)
      ?_ List.eraseP_sublist List.eraseP_sublist
    intro o ho hread e he hptr
    refine List.mem_filter.mpr ⟨he, ?_⟩
    have hoplive : op ∈ s.ctrl.live := mem_live.mpr (.inr ⟨r.id, mem_of_lookup hop⟩)
    have hcls' := hs.wf.book.cls_eq hr hop
    rw [Bool.not_eq_true', Bool.eq_false_iff]
    intro hfor
    have heq := hs.wf.ord.same_ptr o (hlive o ho) op hoplive
      (hptr.symm.trans ((hs.wf.ord.isFor_iff he hoplive).mp hfor))
    rw [hcls', ← heq, hread] at hcls
    simp [writesBack] at hcls
  | @readAMO op p q h' e hcls hreq hop htgt hlast hflag hamo hq =>
    have hoplive : op ∈ s.ctrl.live := mem_live.mpr (.inr ⟨r.id, mem_of_lookup hop⟩)
    have hmem : e ∈ s.ctrl.AMOTable := List.mem_of_find?_eq_some hamo
    have hfor : AMOEntry.isFor op e = true := List.find?_some hamo
    obtain ⟨n, hn⟩ := hs.wf.ord.entry_eq hmem hoplive ((hs.wf.ord.isFor_iff hmem hoplive).mp hfor)
    have hgone := hs.wf.ord.gone_of_lastResp hs.wf.book hop hlast
    refine hs.shrink hwf hissued ?_ ?_ ?_ List.eraseP_sublist List.eraseP_sublist
    · intro o ho hread
      rw [mem_live] at ho ⊢
      simp only [List.mem_append, List.mem_singleton] at ho
      rcases ho with (ho | rfl) | ⟨id, ho⟩
      · exact .inl ho
      · simp [amoHalf, amoWriteOp] at hread
      · exact .inr ⟨id, List.mem_of_mem_eraseP ho⟩
    · intro o ho
      rw [mem_live] at ho
      simp only [List.mem_append, List.mem_singleton] at ho
      rcases ho with (ho | rfl) | ⟨id, ho⟩
      · exact ⟨o, mem_live.mpr (.inl ho), rfl⟩
      · refine ⟨op, hoplive, ?_⟩
        rw [hn]
        rfl
      · exact ⟨o, mem_live.mpr (.inr ⟨id, List.mem_of_mem_eraseP ho⟩), rfl⟩
    · intro o ho hread e' he' hptr
      simp only
      rw [List.eraseP_append_left hfor _ hmem, List.mem_append]
      refine .inl ((List.mem_eraseP_of_neg ?_).mpr he')
      intro hfor'
      have hptr' := (hs.wf.ord.isFor_iff he' hoplive).mp hfor'
      rw [mem_live] at ho
      simp only [List.mem_append, List.mem_singleton] at ho
      rcases ho with (ho | rfl) | ⟨id, ho⟩
      · exact hs.wf.ord.dispatched _ (mem_of_lookup hop) o ho (hptr'.symm.trans hptr)
      · simp [amoHalf, amoWriteOp] at hread
      · exact hgone _ ho (hptr.symm.trans hptr')

/-- The invariant along a step; a call must meet `CallOk` and bring a target
    that is not in use. -/
theorem stepped (hs : s.InFlight P) {s' : CtrlSys} {ev : Event} (h : Stepped P s ev s')
    (hcall : ∀ c, ev = .send c → c.enqueues = true → c.plain = true ∧ CallOk P c ∧ s.FreeTarget c) :
    s'.InFlight P := by
  have hwf := h.wf hs.wf
  cases h with
  | skip | wait | start =>
    exact hs.shrink hwf rfl (fun _ h _ => h) (fun o h => ⟨o, h, rfl⟩) (fun _ _ _ _ h _ => h)
      (List.Sublist.refl _) (List.Sublist.refl _)
  | @send c htick henq =>
    obtain ⟨hplain, hok, hfree⟩ := hcall c rfl henq
    exact hs.enqueue hplain hok hfree hwf rfl rfl
  | clear =>
    exact hs.shrink hwf rfl (fun _ h _ => h) (fun o h => ⟨o, h, rfl⟩) (fun _ _ _ _ h _ => h)
      (List.Sublist.refl _) (List.Sublist.refl _)
  | process htick hproc hfence =>
    cases hproc with
    | idle =>
      exact hs.shrink hwf rfl (fun _ h _ => h) (fun o h => ⟨o, h, rfl⟩) (fun _ _ _ _ h _ => h)
        (List.Sublist.refl _) (List.Sublist.refl _)
    | @fence i op hcand hop =>
      have hlive : ∀ o : RevMemOp, o ∈ s.ctrl.rqstQ.eraseIdx i ++ s.ctrl.outstanding.map Prod.snd →
          o ∈ s.ctrl.live := by
        intro o ho
        rw [live]
        exact (((List.eraseIdx_sublist _ _).append (List.Sublist.refl _)).subset ho)
      exact hs.shrink hwf rfl (fun o h _ => hlive o h) (fun o h => ⟨o, hlive o h, rfl⟩)
        (fun _ _ _ _ h _ => h) (List.Sublist.refl _) (List.Sublist.refl _)
    | dispatch hcand hop hamo hpend => exact hs.dispatch hwf hcand.slot hop rfl rfl
  | response htick hr hresp => exact hs.responded hwf hr hresp rfl

theorem init (P : Params) (host : Host) : (CtrlSys.init host).InFlight P := by
  refine ⟨init_wf host, ?_, ?_, ?_, ?_, ?_, ?_⟩ <;> simp [CtrlSys.init, live]

end InFlight

end CtrlSys

end RevCPU
