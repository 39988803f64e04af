import RevCPU.Common

namespace RevCPU

/-- `RevMemOp` of `RevMemCtrl.h`. `ptr` stands for the address of the object,
    which the controller compares; `seq` is the address of the object that the
    `send*Request` call created, so the write half of an AMO carries the `seq`
    of its read half. No modelled function branches on `seq`. -/
structure RevMemOp where
  ptr : ℕ
  seq : ℕ
  Hart : ℕ
  Addr : ℕ
  PAddr : ℕ
  Size : ℕ
  Op : MemOp
  flags : RevFlag
  Inv : Bool := false
  CustomOpc : ℕ := 0
  SplitRqst : ℕ := 1
  membuf : List UInt8 := []
  tempT : List UInt8 := []
  target : Option ℕ := none
  procReq : MemReq := {}
  deriving DecidableEq, Repr

namespace RevMemOp

def getStdFlags (op : RevMemOp) : RevFlag := op.flags &&& 0xFFFF

def getNonCacheFlags (op : RevMemOp) : RevFlag := op.flags &&& 0xFFFD

def isCacheable (op : RevMemOp) : Bool := op.flags &&& 0b10 == 0

end RevMemOp

/-- The `membuf` a constructor fills from a caller's buffer. -/
def copyBuf (buffer : List UInt8) (Size : ℕ) : List UInt8 :=
  (List.range Size).map fun i => buffer.getD i 0

@[simp] theorem copyBuf_length (buffer : List UInt8) (Size : ℕ) :
    (copyBuf buffer Size).length = Size := by
  simp [copyBuf]

theorem copyBuf_of_length {buffer : List UInt8} {n : ℕ} (h : buffer.length = n) :
    copyBuf buffer n = buffer := by
  refine List.ext_getElem (by simp [h]) ?_
  intro i hi hi'
  simp [copyBuf, hi']

theorem copyBuf_getD {buffer : List UInt8} {n i : ℕ} (hi : i < n) :
    (copyBuf buffer n).getD i 0 = buffer.getD i 0 := by
  simp [copyBuf, hi]

/-- A request handed to the `StandardMem` interface. `cls` names the class of
    the request by the operation it was built from: `Read`, `Write`,
    `FlushAddr`, `ReadLock`, `WriteUnlock`, `LoadLink`, `StoreConditional` or
    `CustomReq`. -/
structure StdRqst where
  id : ℕ
  cls : MemOp
  pAddr : ℕ
  size : ℕ
  data : List UInt8
  inv : Bool
  flags : RevFlag
  deriving DecidableEq, Repr

/-- A value of the multimap `AMOTable` with its key. The buffer pointer of the
    tuple is never read and is left out. -/
structure AMOEntry where
  key : ℕ
  hart : ℕ
  target : Option ℕ
  flags : RevFlag
  memop : RevMemOp
  isIn : Bool
  deriving DecidableEq, Repr

/-- The parameters of the controller; `lineSize` is what the memory interface
    reports in `init`. -/
structure Params where
  lineSize : ℕ := 0
  max_loads : ℕ := 64
  max_stores : ℕ := 64
  max_flush : ℕ := 64
  max_llsc : ℕ := 64
  max_readlock : ℕ := 64
  max_writeunlock : ℕ := 64
  max_custom : ℕ := 64
  max_ops : ℕ := 2
  deriving DecidableEq, Repr

/-- `hasCache` as `RevBasicMemCtrl::init` sets it. -/
def Params.hasCache (P : Params) : Bool := 0 < P.lineSize

/-- The state of `RevBasicMemCtrl`. `memIface` holds the requests sent and not
    yet answered; `nextId` and `nextPtr` are the next request id and the next
    address of an operation. -/
structure RevBasicMemCtrl where
  num_read : UInt64 := 0
  num_write : UInt64 := 0
  num_flush : UInt64 := 0
  num_llsc : UInt64 := 0
  num_readlock : UInt64 := 0
  num_writeunlock : UInt64 := 0
  num_custom : UInt64 := 0
  num_fence : UInt64 := 0
  requests : List ℕ := []
  rqstQ : List RevMemOp := []
  outstanding : List (ℕ × RevMemOp) := []
  AMOTable : List AMOEntry := []
  memIface : List StdRqst := []
  nextId : ℕ := 0
  nextPtr : ℕ := 0
  deriving DecidableEq, Repr

namespace RevBasicMemCtrl

/-- Append a fresh operation to the request queue. -/
def push (s : RevBasicMemCtrl) (op : RevMemOp) : RevBasicMemCtrl :=
  { s with rqstQ := s.rqstQ ++ [op], nextPtr := s.nextPtr + 1 }

def sendFLUSHRequest (s : RevBasicMemCtrl) (Hart Addr PAddr Size : ℕ) (Inv : Bool)
    (flags : RevFlag) : RevBasicMemCtrl :=
  if Size = 0 then s
  else s.push { ptr := s.nextPtr, seq := s.nextPtr, Hart, Addr, PAddr, Size,
                Op := .MemOpFLUSH, flags, Inv }

def sendREADRequest (s : RevBasicMemCtrl) (Hart Addr PAddr Size : ℕ) (target : Option ℕ)
    (req : MemReq) (flags : RevFlag) : RevBasicMemCtrl :=
  if Size = 0 then s
  else s.push { ptr := s.nextPtr, seq := s.nextPtr, Hart, Addr, PAddr, Size,
                Op := .MemOpREAD, flags, target, procReq := req }

def sendWRITERequest (s : RevBasicMemCtrl) (Hart Addr PAddr Size : ℕ) (buffer : List UInt8)
    (flags : RevFlag) : RevBasicMemCtrl :=
  if Size = 0 then s
  else s.push { ptr := s.nextPtr, seq := s.nextPtr, Hart, Addr, PAddr, Size,
                Op := .MemOpWRITE, flags, membuf := copyBuf buffer Size }

def sendAMORequest (s : RevBasicMemCtrl) (Hart Addr PAddr Size : ℕ) (buffer : List UInt8)
    (target : Option ℕ) (req : MemReq) (flags : RevFlag) : RevBasicMemCtrl :=
  if Size = 0 then s
  else if !RevFlagHas flags .F_ATOMIC then s
  else
    let Op : RevMemOp :=
      { ptr := s.nextPtr, seq := s.nextPtr, Hart, Addr, PAddr, Size,
        Op := .MemOpREAD, flags, membuf := copyBuf buffer Size, target, procReq := req }
    let tmp : AMOEntry := { key := Addr, hart := Hart, target, flags, memop := Op, isIn := false }
    { s with AMOTable := s.AMOTable ++ [tmp] }.push Op

def sendREADLOCKRequest (s : RevBasicMemCtrl) (Hart Addr PAddr Size : ℕ) (target : Option ℕ)
    (req : MemReq) (flags : RevFlag) : RevBasicMemCtrl :=
  if Size = 0 then s
  else s.push { ptr := s.nextPtr, seq := s.nextPtr, Hart, Addr, PAddr, Size,
                Op := .MemOpREADLOCK, flags, target, procReq := req }

def sendWRITELOCKRequest (s : RevBasicMemCtrl) (Hart Addr PAddr Size : ℕ) (buffer : List UInt8)
    (flags : RevFlag) : RevBasicMemCtrl :=
  if Size = 0 then s
  else s.push { ptr := s.nextPtr, seq := s.nextPtr, Hart, Addr, PAddr, Size,
                Op := .MemOpWRITEUNLOCK, flags, membuf := copyBuf buffer Size }

def sendLOADLINKRequest (s : RevBasicMemCtrl) (Hart Addr PAddr Size : ℕ) (flags : RevFlag) :
    RevBasicMemCtrl :=
  if Size = 0 then s
  else s.push { ptr := s.nextPtr, seq := s.nextPtr, Hart, Addr, PAddr, Size,
                Op := .MemOpLOADLINK, flags }

def sendSTORECONDRequest (s : RevBasicMemCtrl) (Hart Addr PAddr Size : ℕ) (buffer : List UInt8)
    (flags : RevFlag) : RevBasicMemCtrl :=
  if Size = 0 then s
  else s.push { ptr := s.nextPtr, seq := s.nextPtr, Hart, Addr, PAddr, Size,
                Op := .MemOpSTORECOND, flags, membuf := copyBuf buffer Size }

def sendCUSTOMREADRequest (s : RevBasicMemCtrl) (Hart Addr PAddr Size : ℕ) (target : Option ℕ)
    (Opc : ℕ) (flags : RevFlag) : RevBasicMemCtrl :=
  if Size = 0 then s
  else s.push { ptr := s.nextPtr, seq := s.nextPtr, Hart, Addr, PAddr, Size,
                Op := .MemOpCUSTOM, flags, CustomOpc := Opc, target }

def sendCUSTOMWRITERequest (s : RevBasicMemCtrl) (Hart Addr PAddr Size : ℕ) (buffer : List UInt8)
    (Opc : ℕ) (flags : RevFlag) : RevBasicMemCtrl :=
  if Size = 0 then s
  else s.push { ptr := s.nextPtr, seq := s.nextPtr, Hart, Addr, PAddr, Size,
                Op := .MemOpCUSTOM, flags, CustomOpc := Opc, membuf := copyBuf buffer Size }

def sendFENCE (s : RevBasicMemCtrl) (Hart : ℕ) : RevBasicMemCtrl :=
  s.push { ptr := s.nextPtr, seq := s.nextPtr, Hart, Addr := 0, PAddr := 0, Size := 0,
           Op := .MemOpFENCE, flags := .F_NONE }

end RevBasicMemCtrl

end RevCPU
