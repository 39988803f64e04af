import RevCPU.MemCtrl.System

namespace RevCPU.RevBasicMemCtrl

open Lib

/-- The controller once the request `id` is answered and forgotten. -/
def answered (s : RevBasicMemCtrl) (id : ℕ) : RevBasicMemCtrl :=
  { s with
    requests := s.requests.erase id
    outstanding := s.outstanding.eraseP fun n => n.1 == id
    memIface := s.memIface.eraseP fun r => r.id == id }

/-- The response is the last one that its operation waits for. -/
def lastResp (s : RevBasicMemCtrl) (op : RevMemOp) : Bool :=
  op.SplitRqst ≤ 1 || s.getNumSplitRqsts op == 1

/-- The requests that are answered by a `ReadResp`. -/
def readsBack : MemOp → Bool
  | .MemOpREAD | .MemOpREADLOCK | .MemOpLOADLINK => true
  | _ => false

/-- The requests that are answered by a `WriteResp`. -/
def writesBack : MemOp → Bool
  | .MemOpWRITE | .MemOpWRITEUNLOCK | .MemOpSTORECOND => true
  | _ => false

/-- The `ReadResp` that answers a request. -/
def readResp (r : StdRqst) (data : List UInt8) : ReadResp :=
  { id := r.id, pAddr := r.pAddr, size := r.size, data }

/-- The host after `performAMO`, and the write half that it enqueues. -/
def amoHost (h : Host) (Tmp : RevMemOp) (p : ℕ) : Host :=
  (amoTarget h Tmp p).write p 0 (h.read p Tmp.Size)

def amoHalf (ptr : ℕ) (h : Host) (Tmp : RevMemOp) (p : ℕ) : RevMemOp :=
  amoWriteOp ptr Tmp ((amoTarget h Tmp p).read p Tmp.Size) (h.read p Tmp.Size)

/-- Everything that the response to the request `r` can do. -/
inductive Responded (s : RevBasicMemCtrl) (h : Host) (r : StdRqst) (data : List UInt8) :
    RevBasicMemCtrl → Host → Prop
  | readPart {op : RevMemOp} {p : ℕ} (hcls : readsBack r.cls) (hreq : r.id ∈ s.requests)
      (hop : s.outstanding.lookup r.id = some op) (htgt : op.target = some p)
      (hlast : s.lastResp op = false) :
      Responded s h r data { s.answered r.id with num_read := s.num_read - 1 }
        (copyResp h op p (readResp r data))
  | readDone {op : RevMemOp} {p : ℕ} {h' : Host} (hcls : readsBack r.cls)
      (hreq : r.id ∈ s.requests) (hop : s.outstanding.lookup r.id = some op)
      (htgt : op.target = some p) (hlast : s.lastResp op = true)
      (hflag : handleFlagResp (copyResp h op p (readResp r data)) op = some h')
      (hamo : s.AMOTable.any (AMOEntry.isFor op) = false) :
      Responded s h r data { s.answered r.id with num_read := s.num_read - 1 }
        (h'.MarkLoadComplete op.procReq)
  | readAMO {op : RevMemOp} {p q : ℕ} {h' : Host} {e : AMOEntry} (hcls : readsBack r.cls)
      (hreq : r.id ∈ s.requests) (hop : s.outstanding.lookup r.id = some op)
      (htgt : op.target = some p) (hlast : s.lastResp op = true)
      (hflag : handleFlagResp (copyResp h op p (readResp r data)) op = some h')
      (hamo : s.AMOTable.find? (AMOEntry.isFor op) = some e) (hq : e.memop.target = some q) :
      Responded s h r data
        { s.answered r.id with
          num_read := s.num_read - 1
          AMOTable := (s.AMOTable ++ [amoWriteEntry (amoHalf s.nextPtr h' e.memop q)]).eraseP
            (AMOEntry.isFor op)
          rqstQ := s.rqstQ ++ [amoHalf s.nextPtr h' e.memop q]
          nextPtr := s.nextPtr + 1 }
        (amoHost h' e.memop q)
  | write {op : RevMemOp} (hcls : writesBack r.cls) (hreq : r.id ∈ s.requests)
      (hop : s.outstanding.lookup r.id = some op) :
      Responded s h r data
        { s.answered r.id with
          num_write := s.num_write - 1
          AMOTable := s.AMOTable.filter fun e => !AMOEntry.isFor op e }
        (if s.lastResp op && s.AMOTable.any (AMOEntry.isFor op) then h.MarkLoadComplete op.procReq
         else h)
  | flush {op : RevMemOp} (hcls : r.cls = .MemOpFLUSH) (hreq : r.id ∈ s.requests)
      (hop : s.outstanding.lookup r.id = some op) :
      Responded s h r data { s.answered r.id with num_flush := s.num_flush - 1 } h
  | custom {op : RevMemOp} (hcls : r.cls = .MemOpCUSTOM) (hreq : r.id ∈ s.requests)
      (hop : s.outstanding.lookup r.id = some op) :
      Responded s h r data { s.answered r.id with num_custom := s.num_custom - 1 } h

theorem handleReadResp_cases {s s' : RevBasicMemCtrl} {h h' : Host} {r : StdRqst}
    {data : List UInt8} (hcls : readsBack r.cls)
    (hresp : handleReadResp { s with memIface := s.memIface.eraseP fun x => x.id == r.id } h
      (readResp r data) = some (s', h')) :
    Responded s h r data s' h' := by
  unfold handleReadResp at hresp
  split at hresp
  swap
  · simp at hresp
  rename_i hreq
  simp only [readResp] at hreq hresp
  split at hresp
  · simp at hresp
  rename_i op hop
  split at hresp
  · simp at hresp
  rename_i p htgt
  simp only [Option.map_eq_some_iff, Prod.exists, Prod.mk.injEq] at hresp
  obtain ⟨s₁, h₁, hfin, rfl, rfl⟩ := hresp
  have hcond : (decide (op.SplitRqst > 1) && s.getNumSplitRqsts op != 1) = !s.lastResp op := by
    simp only [lastResp, Bool.not_or, bne, ← decide_not, Nat.not_le, gt_iff_lt]
  change (if (decide (op.SplitRqst > 1) && s.getNumSplitRqsts op != 1) = true then _ else _) = _
    at hfin
  rw [hcond] at hfin
  cases hlast : s.lastResp op with
  | false =>
    simp only [hlast, Bool.not_false, if_true, Option.some.injEq, Prod.mk.injEq] at hfin
    obtain ⟨rfl, rfl⟩ := hfin
    exact .readPart hcls hreq hop htgt hlast
  | true =>
  simp only [hlast, Bool.not_true, Bool.false_eq_true, if_false] at hfin
  unfold finishRead at hfin
  split at hfin
  · simp at hfin
  rename_i h₂ hflag
  split at hfin
  swap
  · rename_i hamo
    simp only [Option.some.injEq, Prod.mk.injEq] at hfin
    obtain ⟨rfl, rfl⟩ := hfin
    exact .readDone hcls hreq hop htgt hlast hflag (by simpa using hamo)
  rename_i hany
  unfold handleAMO at hfin
  split at hfin
  · rename_i hnone
    rw [List.find?_eq_none] at hnone
    rw [List.any_eq_true] at hany
    obtain ⟨e, he, hfor⟩ := hany
    exact absurd hfor (hnone e he)
  rename_i e hfind
  simp only [Option.map_eq_some_iff, Prod.exists, Prod.mk.injEq, performAMO] at hfin
  obtain ⟨s₂, h₃, ⟨q, hq, hs₂, hh₃⟩, rfl, rfl⟩ := hfin
  subst hs₂
  subst hh₃
  exact .readAMO hcls hreq hop htgt hlast hflag hfind hq

theorem handleWriteResp_cases {s s' : RevBasicMemCtrl} {h h' : Host} {r : StdRqst}
    {data : List UInt8} (hcls : writesBack r.cls)
    (hresp : handleWriteResp { s with memIface := s.memIface.eraseP fun x => x.id == r.id } h r.id =
      some (s', h')) :
    Responded s h r data s' h' := by
  unfold handleWriteResp at hresp
  split at hresp
  swap
  · simp at hresp
  rename_i hreq
  simp only at hreq hresp
  split at hresp
  · simp at hresp
  rename_i op hop
  simp only [Option.some.injEq, Prod.mk.injEq] at hresp
  obtain ⟨rfl, rfl⟩ := hresp
  refine Eq.subst (motive := fun x => Responded s h r data _ x) ?_ (Responded.write hcls hreq hop)
  by_cases hsplit : op.SplitRqst ≤ 1
  · simp only [lastResp, hsplit, gt_iff_lt, Nat.not_lt.mpr hsplit, if_false, decide_true,
      Bool.true_or, Bool.true_and]
  · simp only [lastResp, hsplit, gt_iff_lt, Nat.not_le.mp hsplit, if_true, decide_false,
      Bool.false_or]
    rfl

theorem handleResp_cases {s s' : RevBasicMemCtrl} {h h' : Host} {r : StdRqst} {data : List UInt8}
    (hresp : handleResp { s with memIface := s.memIface.eraseP fun x => x.id == r.id } h r data =
      some (s', h')) :
    Responded s h r data s' h' := by
  unfold handleResp at hresp
  cases hcls : r.cls <;> simp only [hcls, reduceCtorEq] at hresp
  case MemOpREAD => exact handleReadResp_cases (by rw [hcls]; rfl) hresp
  case MemOpREADLOCK => exact handleReadResp_cases (by rw [hcls]; rfl) hresp
  case MemOpLOADLINK => exact handleReadResp_cases (by rw [hcls]; rfl) hresp
  case MemOpWRITE => exact handleWriteResp_cases (by rw [hcls]; rfl) hresp
  case MemOpWRITEUNLOCK => exact handleWriteResp_cases (by rw [hcls]; rfl) hresp
  case MemOpSTORECOND => exact handleWriteResp_cases (by rw [hcls]; rfl) hresp
  case MemOpFLUSH =>
    simp only [Option.map_eq_some_iff, Prod.mk.injEq, handleFlushResp] at hresp
    obtain ⟨s₁, hresp, rfl, rfl⟩ := hresp
    split at hresp
    swap
    · simp at hresp
    rename_i hreq
    simp only [Option.map_eq_some_iff] at hresp
    obtain ⟨op, hop, rfl⟩ := hresp
    exact .flush hcls hreq hop
  case MemOpCUSTOM =>
    simp only [Option.map_eq_some_iff, Prod.mk.injEq, handleCustomResp] at hresp
    obtain ⟨s₁, hresp, rfl, rfl⟩ := hresp
    split at hresp
    swap
    · simp at hresp
    rename_i hreq
    simp only [Option.map_eq_some_iff] at hresp
    obtain ⟨op, hop, rfl⟩ := hresp
    exact .custom hcls hreq hop

end RevCPU.RevBasicMemCtrl
