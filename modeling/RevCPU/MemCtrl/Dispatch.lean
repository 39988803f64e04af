import RevCPU.MemCtrl.State

namespace RevCPU

/-- The issue counters that one `clockTick` passes by reference. -/
structure TMax where
  t_max_loads : ℕ := 0
  t_max_stores : ℕ := 0
  t_max_flush : ℕ := 0
  t_max_llsc : ℕ := 0
  t_max_readlock : ℕ := 0
  t_max_writeunlock : ℕ := 0
  t_max_custom : ℕ := 0
  t_max_ops : ℕ := 0
  deriving DecidableEq, Repr

namespace RevBasicMemCtrl

/-- `isMemOpAvail`; `none` is the fatal default branch. -/
def isMemOpAvail (P : Params) (op : RevMemOp) (t : TMax) : Option (Bool × TMax) :=
  match op.Op with
  | .MemOpREAD =>
    if t.t_max_loads < P.max_loads then some (true, { t with t_max_loads := t.t_max_loads + 1 })
    else some (false, t)
  | .MemOpWRITE =>
    if t.t_max_stores < P.max_stores then some (true, { t with t_max_stores := t.t_max_stores + 1 })
    else some (false, t)
  | .MemOpFLUSH =>
    if t.t_max_flush < P.max_flush then some (true, { t with t_max_flush := t.t_max_flush + 1 })
    else some (false, t)
  | .MemOpREADLOCK =>
    if t.t_max_readlock < P.max_readlock then
      some (true, { t with t_max_readlock := t.t_max_readlock + 1 })
    else some (false, t)
  | .MemOpWRITEUNLOCK =>
    if t.t_max_writeunlock < P.max_writeunlock then
      some (true, { t with t_max_writeunlock := t.t_max_writeunlock + 1 })
    else some (false, t)
  | .MemOpLOADLINK =>
    if t.t_max_llsc < P.max_llsc then some (true, { t with t_max_llsc := t.t_max_llsc + 1 })
    else some (false, t)
  | .MemOpSTORECOND =>
    if t.t_max_llsc < P.max_llsc then some (true, { t with t_max_llsc := t.t_max_llsc + 1 })
    else some (false, t)
  | .MemOpCUSTOM =>
    if t.t_max_custom < P.max_custom then some (true, { t with t_max_custom := t.t_max_custom + 1 })
    else some (false, t)
  | .MemOpFENCE => some (true, t)
  | .MemOpAMO => none

/-- The loop of `getBaseCacheLineSize` that walks down to a line boundary. -/
def baseCacheAddr (lineSize : ℕ) : ℕ → ℕ
  | 0 => 0
  | a + 1 => if (a + 1) % lineSize = 0 then a + 1 else baseCacheAddr lineSize a

def getBaseCacheLineSize (P : Params) (Addr Size : ℕ) : ℕ :=
  let BaseCacheAddr := baseCacheAddr P.lineSize Addr
  if Addr = BaseCacheAddr then
    if Size < P.lineSize then Size else P.lineSize
  else if Addr + Size ≤ BaseCacheAddr + P.lineSize then Size
  else (BaseCacheAddr + P.lineSize) - Addr

def getNumCacheLines (P : Params) (Addr Size : ℕ) : ℕ :=
  if !P.hasCache then 1
  else if Addr % P.lineSize ≠ 0 then
    if Size ≤ P.lineSize - Addr % P.lineSize then 1
    else if Size < P.lineSize then 2
    else (Size / P.lineSize + if Addr % P.lineSize > 1 then 1 else 0) % 2 ^ 32
  else if Size ≤ P.lineSize then 1
  else (Size / P.lineSize + 1) % 2 ^ 32

/-- Increment the counter of outstanding requests that a dispatch of this kind
    increments. -/
def countRqst (s : RevBasicMemCtrl) : MemOp → RevBasicMemCtrl
  | .MemOpREAD => { s with num_read := s.num_read + 1 }
  | .MemOpWRITE => { s with num_write := s.num_write + 1 }
  | .MemOpFLUSH => { s with num_flush := s.num_flush + 1 }
  | .MemOpREADLOCK => { s with num_readlock := s.num_readlock + 1 }
  | .MemOpWRITEUNLOCK => { s with num_writeunlock := s.num_writeunlock + 1 }
  | .MemOpLOADLINK => { s with num_llsc := s.num_llsc + 1 }
  | .MemOpSTORECOND => { s with num_llsc := s.num_llsc + 1 }
  | .MemOpCUSTOM => { s with num_custom := s.num_custom + 1 }
  | .MemOpFENCE => s
  | .MemOpAMO => s

/-- The bytes `[cur, cur + n)` of the operation's buffer, for the classes of
    request that carry data. -/
def rqstData (op : RevMemOp) (cur n : ℕ) : List UInt8 :=
  match op.Op with
  | .MemOpWRITE | .MemOpWRITEUNLOCK | .MemOpSTORECOND => (op.membuf.drop cur).take n
  | _ => []

/-- The `StandardMem` request for `size` bytes at `addr`; a `CustomReq` has
    neither. -/
def mkRqst (id : ℕ) (op : RevMemOp) (addr size cur : ℕ) (flags : RevFlag) : StdRqst :=
  if op.Op = .MemOpCUSTOM then
    { id, cls := op.Op, pAddr := 0, size := 0, data := [], inv := false, flags }
  else
    { id, cls := op.Op, pAddr := addr, size, data := rqstData op cur size, inv := op.Inv, flags }

/-- The code shared by every dispatch branch: record the request id and the
    operation, hand the request to `memIface` and count it. -/
def sendRqst (s : RevBasicMemCtrl) (op : RevMemOp) (addr size cur : ℕ) (flags : RevFlag) :
    RevBasicMemCtrl :=
  { s with
    requests := s.requests ++ [s.nextId]
    outstanding := s.outstanding ++ [(s.nextId, op)]
    memIface := s.memIface ++ [mkRqst s.nextId op addr size cur flags]
    nextId := s.nextId + 1 }.countRqst op.Op

/-- The loop of `buildCacheMemRqst` over the lines after the first. -/
def sendLines (P : Params) (op : RevMemOp) (flags : RevFlag) :
    ℕ → RevBasicMemCtrl → ℕ → ℕ → ℕ → RevBasicMemCtrl
  | 0, s, _, _, _ => s
  | n + 1, s, newBase, bytesLeft, curByte =>
    let newSize := if bytesLeft < P.lineSize then bytesLeft else P.lineSize
    sendLines P op flags n (s.sendRqst op newBase newSize curByte flags)
      (newBase + newSize) (bytesLeft - newSize) (curByte + newSize)

/-- `max_X - num_X` for the kind of the operation, in 64-bit arithmetic. -/
def freeSlots (P : Params) (s : RevBasicMemCtrl) : MemOp → Option UInt64
  | .MemOpREAD => some (UInt64.ofNat P.max_loads - s.num_read)
  | .MemOpWRITE => some (UInt64.ofNat P.max_stores - s.num_write)
  | .MemOpFLUSH => some (UInt64.ofNat P.max_flush - s.num_flush)
  | .MemOpREADLOCK => some (UInt64.ofNat P.max_readlock - s.num_readlock)
  | .MemOpWRITEUNLOCK => some (UInt64.ofNat P.max_writeunlock - s.num_writeunlock)
  | .MemOpLOADLINK => some (UInt64.ofNat P.max_llsc - s.num_llsc)
  | .MemOpSTORECOND => some (UInt64.ofNat P.max_llsc - s.num_llsc)
  | .MemOpCUSTOM => some (UInt64.ofNat P.max_custom - s.num_custom)
  | .MemOpFENCE => none
  | .MemOpAMO => none

/-- The size of the base request of `buildCacheMemRqst`. -/
def baseSize (P : Params) (op : RevMemOp) : ℕ :=
  if getNumCacheLines P op.Addr op.Size > 1 then getBaseCacheLineSize P op.Addr op.Size else op.Size

/-- `buildCacheMemRqst`; the second component is `Success`. -/
def buildCacheMemRqst (P : Params) (s : RevBasicMemCtrl) (op : RevMemOp) :
    Option (RevBasicMemCtrl × Bool) :=
  let NumLines := getNumCacheLines P op.Addr op.Size
  let TmpFlags := op.getStdFlags
  match freeSlots P s op.Op with
  | none => none
  | some slots =>
    if slots < UInt64.ofNat NumLines then some (s, false)
    else
      let op' := { op with SplitRqst := NumLines }
      let base := baseSize P op
      let s' := s.sendRqst op' op.Addr base 0 TmpFlags
      some (sendLines P op' TmpFlags (NumLines - 1) s' (op.Addr + base) (op.Size - base) base, true)

def buildRawMemRqst (s : RevBasicMemCtrl) (op : RevMemOp) (TmpFlags : RevFlag) :
    Option RevBasicMemCtrl :=
  match op.Op with
  | .MemOpFENCE => none
  | .MemOpAMO => none
  | _ => some (s.sendRqst op op.Addr op.Size 0 TmpFlags)

/-- `buildStandardMemRqst`; the second component is `Success`. -/
def buildStandardMemRqst (P : Params) (s : RevBasicMemCtrl) (op : RevMemOp) :
    Option (RevBasicMemCtrl × Bool) :=
  if P.hasCache && op.isCacheable then buildCacheMemRqst P s op
  else if P.hasCache && !op.isCacheable then
    (buildRawMemRqst s op op.getStdFlags).map fun s' => (s', true)
  else (buildRawMemRqst s op op.getNonCacheFlags).map fun s' => (s', true)

/-- `isAQ` for the operation `op` in slot `Slot`. -/
def isAQ (s : RevBasicMemCtrl) (Slot : ℕ) (op : RevMemOp) : Bool :=
  if s.AMOTable.length = 0 then false
  else if Slot = 0 then false
  else (s.rqstQ.take Slot).any fun o =>
    RevFlagHas o.flags .F_ATOMIC && o.Hart == op.Hart && RevFlagHas o.flags .F_AQ

/-- `isRL` for the operation `op` in slot `Slot`. -/
def isRL (s : RevBasicMemCtrl) (Slot : ℕ) (op : RevMemOp) : Bool :=
  if s.AMOTable.length = 0 then false
  else if Slot = 0 then false
  else if RevFlagHas op.flags .F_ATOMIC && RevFlagHas op.flags .F_RL then
    (s.rqstQ.take Slot).any fun o => o.Hart == op.Hart
  else false

def isPendingAMO (s : RevBasicMemCtrl) (Slot : ℕ) (op : RevMemOp) : Bool :=
  s.isAQ Slot op || s.isRL Slot op

/-- The loop of `processNextRqst` up to the first operation that is available:
    its slot, the operation and the counters after `isMemOpAvail`. -/
def nextCandidate (P : Params) : List RevMemOp → ℕ → TMax → Option (Option (ℕ × RevMemOp × TMax))
  | [], _, _ => some none
  | op :: q, i, t =>
    match isMemOpAvail P op t with
    | none => none
    | some (true, t') => some (some (i, op, t'))
    | some (false, t') => nextCandidate P q (i + 1) t'

/-- `processNextRqst`; `none` is a fatal error. -/
def processNextRqst (P : Params) (s : RevBasicMemCtrl) (t : TMax) :
    Option (RevBasicMemCtrl × TMax) :=
  if s.rqstQ = [] then some (s, { t with t_max_ops := P.max_ops })
  else
    match nextCandidate P s.rqstQ 0 t with
    | none => none
    | some none => some (s, { t with t_max_ops := P.max_ops })
    | some (some (i, op, t')) =>
      if op.Op = .MemOpFENCE then
        some ({ s with rqstQ := s.rqstQ.eraseIdx i, num_fence := s.num_fence + 1 },
          { t' with t_max_ops := P.max_ops })
      else if s.isPendingAMO i op then some (s, { t' with t_max_ops := P.max_ops })
      else
        match buildStandardMemRqst P s op with
        | none => none
        | some (s', true) =>
          some ({ s' with rqstQ := s'.rqstQ.eraseIdx i }, { t' with t_max_ops := t'.t_max_ops + 1 })
        | some (s', false) => some (s', { t' with t_max_ops := P.max_ops })

/-- The requests that a pending fence waits for, as `clockTick` sums them. -/
def fenceSum (s : RevBasicMemCtrl) : UInt64 :=
  s.num_read + s.num_write + s.num_llsc + s.num_readlock + s.num_writeunlock + s.num_custom

/-- The head of `clockTick`: `none` when a fence still waits. -/
def passFence (s : RevBasicMemCtrl) : Option RevBasicMemCtrl :=
  if s.num_fence > 0 then
    if s.fenceSum ≠ 0 then none else some { s with num_fence := s.num_fence - 1 }
  else some s

/-- The `while` loop of `clockTick`, for at most `fuel` calls. -/
def tickLoop (P : Params) : ℕ → RevBasicMemCtrl → TMax → Option RevBasicMemCtrl
  | 0, _, _ => none
  | fuel + 1, s, t =>
    match processNextRqst P s t with
    | none => none
    | some (s', t') => if t'.t_max_ops = P.max_ops then some s' else tickLoop P fuel s' t'

/-- `clockTick`. Every call of `processNextRqst` that does not end the loop
    removes an operation, so the length of the queue bounds the calls. -/
def clockTick (P : Params) (s : RevBasicMemCtrl) : Option RevBasicMemCtrl :=
  match s.passFence with
  | none => some s
  | some s' => tickLoop P (s'.rqstQ.length + 1) s' {}

end RevBasicMemCtrl

end RevCPU
