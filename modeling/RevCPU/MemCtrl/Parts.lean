import RevCPU.MemCtrl.Dispatch

namespace RevCPU

/-- One `StandardMem` request of an operation: `size` bytes at `addr`, which
    are the bytes of the operation from `cur` on. -/
structure Part where
  addr : ℕ
  size : ℕ
  cur : ℕ
  deriving DecidableEq, Repr

namespace RevBasicMemCtrl

/-- The parts after the first line, as the loop of `buildCacheMemRqst` walks
    them. -/
def lineParts (P : Params) : ℕ → ℕ → ℕ → ℕ → List Part
  | 0, _, _, _ => []
  | n + 1, newBase, bytesLeft, curByte =>
    let newSize := if bytesLeft < P.lineSize then bytesLeft else P.lineSize
    ⟨newBase, newSize, curByte⟩ ::
      lineParts P n (newBase + newSize) (bytesLeft - newSize) (curByte + newSize)

/-- The parts in which a dispatch sends an operation. -/
def dispatchParts (P : Params) (op : RevMemOp) : List Part :=
  if P.hasCache && op.isCacheable then
    ⟨op.Addr, baseSize P op, 0⟩ ::
      lineParts P (getNumCacheLines P op.Addr op.Size - 1) (op.Addr + baseSize P op)
        (op.Size - baseSize P op) (baseSize P op)
  else [⟨op.Addr, op.Size, 0⟩]

def dispatchFlags (P : Params) (op : RevMemOp) : RevFlag :=
  if P.hasCache then op.getStdFlags else op.getNonCacheFlags

/-- The operation as `setSplitRqst` leaves it at its dispatch. -/
def splitOp (P : Params) (op : RevMemOp) : RevMemOp :=
  if P.hasCache && op.isCacheable then
    { op with SplitRqst := getNumCacheLines P op.Addr op.Size }
  else op

def sendParts (s : RevBasicMemCtrl) (op : RevMemOp) (flags : RevFlag) (ps : List Part) :
    RevBasicMemCtrl :=
  ps.foldl (fun s p => s.sendRqst op p.addr p.size p.cur flags) s

theorem sendLines_eq_sendParts (P : Params) (op : RevMemOp) (flags : RevFlag) (n : ℕ)
    (s : RevBasicMemCtrl) (newBase bytesLeft curByte : ℕ) :
    sendLines P op flags n s newBase bytesLeft curByte =
      s.sendParts op flags (lineParts P n newBase bytesLeft curByte) := by
  induction n generalizing s newBase bytesLeft curByte with
  | zero => rfl
  | succ n ih =>
    simp only [sendLines, lineParts]
    rw [ih]
    rfl

section
variable (P : Params) (op : RevMemOp)

@[simp] theorem splitOp_ptr : (splitOp P op).ptr = op.ptr := by unfold splitOp; split <;> rfl
@[simp] theorem splitOp_seq : (splitOp P op).seq = op.seq := by unfold splitOp; split <;> rfl
@[simp] theorem splitOp_Hart : (splitOp P op).Hart = op.Hart := by unfold splitOp; split <;> rfl
@[simp] theorem splitOp_Addr : (splitOp P op).Addr = op.Addr := by unfold splitOp; split <;> rfl
@[simp] theorem splitOp_Size : (splitOp P op).Size = op.Size := by unfold splitOp; split <;> rfl
@[simp] theorem splitOp_Op : (splitOp P op).Op = op.Op := by unfold splitOp; split <;> rfl
@[simp] theorem splitOp_flags : (splitOp P op).flags = op.flags := by unfold splitOp; split <;> rfl
@[simp] theorem splitOp_membuf : (splitOp P op).membuf = op.membuf := by
  unfold splitOp; split <;> rfl
@[simp] theorem splitOp_target : (splitOp P op).target = op.target := by
  unfold splitOp; split <;> rfl
@[simp] theorem splitOp_procReq : (splitOp P op).procReq = op.procReq := by
  unfold splitOp; split <;> rfl

theorem splitOp_eq : splitOp P op = { op with SplitRqst := (splitOp P op).SplitRqst } := by
  unfold splitOp
  split <;> rfl

theorem lineParts_length (n newBase bytesLeft curByte : ℕ) :
    (lineParts P n newBase bytesLeft curByte).length = n := by
  induction n generalizing newBase bytesLeft curByte with
  | zero => rfl
  | succ n ih => simp [lineParts, ih]

/-- `SplitRqst` is the number of parts of a cached operation. -/
theorem dispatchParts_length :
    (dispatchParts P op).length =
      if P.hasCache && op.isCacheable then max 1 (splitOp P op).SplitRqst else 1 := by
  unfold dispatchParts splitOp
  split
  · simp only [List.length_cons, lineParts_length]
    omega
  · rfl

theorem dispatchParts_ne_nil : dispatchParts P op ≠ [] := by
  unfold dispatchParts
  split <;> simp

end

section
variable (s : RevBasicMemCtrl) (op : RevMemOp) (flags : RevFlag)

@[simp] theorem countRqst_requests (k : MemOp) : (s.countRqst k).requests = s.requests := by
  cases k <;> rfl
@[simp] theorem countRqst_rqstQ (k : MemOp) : (s.countRqst k).rqstQ = s.rqstQ := by
  cases k <;> rfl
@[simp] theorem countRqst_outstanding (k : MemOp) :
    (s.countRqst k).outstanding = s.outstanding := by
  cases k <;> rfl
@[simp] theorem countRqst_AMOTable (k : MemOp) : (s.countRqst k).AMOTable = s.AMOTable := by
  cases k <;> rfl
@[simp] theorem countRqst_memIface (k : MemOp) : (s.countRqst k).memIface = s.memIface := by
  cases k <;> rfl
@[simp] theorem countRqst_nextId (k : MemOp) : (s.countRqst k).nextId = s.nextId := by
  cases k <;> rfl
@[simp] theorem countRqst_nextPtr (k : MemOp) : (s.countRqst k).nextPtr = s.nextPtr := by
  cases k <;> rfl
@[simp] theorem countRqst_num_fence (k : MemOp) : (s.countRqst k).num_fence = s.num_fence := by
  cases k <;> rfl

@[simp] theorem mkRqst_id (id addr size cur : ℕ) : (mkRqst id op addr size cur flags).id = id := by
  unfold mkRqst
  split <;> rfl
@[simp] theorem mkRqst_cls (id addr size cur : ℕ) :
    (mkRqst id op addr size cur flags).cls = op.Op := by
  unfold mkRqst
  split <;> rfl

/-- The fields that a dispatch leaves alone. -/
theorem sendParts_frame (ps : List Part) :
    (s.sendParts op flags ps).rqstQ = s.rqstQ ∧ (s.sendParts op flags ps).AMOTable = s.AMOTable ∧
      (s.sendParts op flags ps).nextPtr = s.nextPtr ∧
      (s.sendParts op flags ps).num_fence = s.num_fence := by
  induction ps generalizing s with
  | nil => exact ⟨rfl, rfl, rfl, rfl⟩
  | cons p ps ih =>
    have h := ih (s.sendRqst op p.addr p.size p.cur flags)
    simp only [sendRqst, countRqst_rqstQ, countRqst_AMOTable, countRqst_nextPtr,
      countRqst_num_fence] at h
    exact h

@[simp] theorem sendParts_rqstQ (ps : List Part) : (s.sendParts op flags ps).rqstQ = s.rqstQ :=
  (s.sendParts_frame op flags ps).1
@[simp] theorem sendParts_AMOTable (ps : List Part) :
    (s.sendParts op flags ps).AMOTable = s.AMOTable := (s.sendParts_frame op flags ps).2.1
@[simp] theorem sendParts_nextPtr (ps : List Part) :
    (s.sendParts op flags ps).nextPtr = s.nextPtr := (s.sendParts_frame op flags ps).2.2.1
@[simp] theorem sendParts_num_fence (ps : List Part) :
    (s.sendParts op flags ps).num_fence = s.num_fence := (s.sendParts_frame op flags ps).2.2.2

@[simp] theorem sendParts_nextId (ps : List Part) :
    (s.sendParts op flags ps).nextId = s.nextId + ps.length := by
  induction ps generalizing s with
  | nil => rfl
  | cons p ps ih =>
    have h := ih (s.sendRqst op p.addr p.size p.cur flags)
    simp only [sendRqst, countRqst_nextId] at h
    rw [List.length_cons]
    exact h.trans (by omega)

/-- A dispatch hands out consecutive ids, all for the one operation. -/
@[simp] theorem sendParts_outstanding (ps : List Part) :
    (s.sendParts op flags ps).outstanding =
      s.outstanding ++ (List.range' s.nextId ps.length).map fun id => (id, op) := by
  induction ps generalizing s with
  | nil => simp [sendParts]
  | cons p ps ih =>
    have h := ih (s.sendRqst op p.addr p.size p.cur flags)
    simp only [sendRqst, countRqst_nextId, countRqst_outstanding] at h
    rw [List.length_cons, List.range'_succ, List.map_cons]
    exact h.trans (by rw [List.append_assoc]; rfl)

@[simp] theorem sendParts_requests (ps : List Part) :
    (s.sendParts op flags ps).requests = s.requests ++ List.range' s.nextId ps.length := by
  induction ps generalizing s with
  | nil => simp [sendParts]
  | cons p ps ih =>
    have h := ih (s.sendRqst op p.addr p.size p.cur flags)
    simp only [sendRqst, countRqst_nextId, countRqst_requests] at h
    rw [List.length_cons, List.range'_succ]
    exact h.trans (by rw [List.append_assoc]; rfl)

@[simp] theorem sendParts_memIface (ps : List Part) :
    (s.sendParts op flags ps).memIface =
      s.memIface ++ (ps.zipIdx s.nextId).map fun p =>
        mkRqst p.2 op p.1.addr p.1.size p.1.cur flags := by
  induction ps generalizing s with
  | nil => simp [sendParts]
  | cons p ps ih =>
    have h := ih (s.sendRqst op p.addr p.size p.cur flags)
    simp only [sendRqst, countRqst_nextId, countRqst_memIface] at h
    rw [List.zipIdx_cons, List.map_cons]
    exact h.trans (by rw [List.append_assoc]; rfl)

end

end RevBasicMemCtrl

end RevCPU
