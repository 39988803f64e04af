import RevCPU.Lib.Bytes
import RevCPU.MemCtrl.State

namespace RevCPU

open Lib

/-- The operation `ApplyAMO` performs on a value of `w` bits: the first entry of
    its table whose flag is set. -/
def ApplyAMO {w : ℕ} (flags : RevFlag) (target value : BitVec w) : BitVec w :=
  if RevFlagHas flags .F_AMOADD then target + value
  else if RevFlagHas flags .F_AMOXOR then target ^^^ value
  else if RevFlagHas flags .F_AMOAND then target &&& value
  else if RevFlagHas flags .F_AMOOR then target ||| value
  else if RevFlagHas flags .F_AMOSWAP then value
  else if RevFlagHas flags .F_AMOMIN then if value.slt target then value else target
  else if RevFlagHas flags .F_AMOMAX then if target.slt value then value else target
  else if RevFlagHas flags .F_AMOMINU then if value < target then value else target
  else if RevFlagHas flags .F_AMOMAXU then if target < value then value else target
  else target

namespace Host

/-- The little-endian value of the first `n` bytes of an object. -/
def load (h : Host) (p n : ℕ) : BitVec (8 * n) := BitVec.ofNat (8 * n) (leNat (h.read p n))

/-- Store a value over the first `n` bytes of an object. -/
def store (h : Host) (p n : ℕ) (v : BitVec (8 * n)) : Host := h.write p 0 (leBytes n v.toNat)

/-- `BoxNaN(target, target)` on the 8 bytes of a double. -/
def boxNaN (h : Host) (p : ℕ) : Host :=
  h.store p 8 ((h.load p 4).setWidth 64 ||| ((~~~(0 : BitVec 64)) <<< 32))

end Host

/-- A `ReadResp` event. -/
structure ReadResp where
  id : ℕ
  pAddr : ℕ
  size : ℕ
  data : List UInt8
  deriving DecidableEq, Repr

namespace RevBasicMemCtrl

/-- An extension of the value in a target of `n` bytes. A shift by the width of
    the target is undefined: the value has to be narrower. -/
def extendTarget (h : Host) (op : RevMemOp) (n : ℕ) (ext : BitVec (8 * n) → ℕ → BitVec (8 * n)) :
    Option Host :=
  if op.Size < n then op.target.map fun p => h.store p n (ext (h.load p n) (8 * op.Size)) else none

/-- `handleFlagResp`; a null target is dereferenced only under one of the
    flags. -/
def handleFlagResp (h : Host) (op : RevMemOp) : Option Host :=
  if RevFlagHas op.flags .F_SEXT32 then extendTarget h op 4 SignExt
  else if RevFlagHas op.flags .F_SEXT64 then extendTarget h op 8 SignExt
  else if RevFlagHas op.flags .F_ZEXT32 then extendTarget h op 4 ZeroExt
  else if RevFlagHas op.flags .F_ZEXT64 then extendTarget h op 8 ZeroExt
  else if RevFlagHas op.flags .F_BOXNAN then op.target.map fun p => h.boxNaN p
  else some h

/-- `getNumSplitRqsts`: the outstanding requests of one operation. -/
def getNumSplitRqsts (s : RevBasicMemCtrl) (op : RevMemOp) : ℕ :=
  s.outstanding.countP fun n => n.2.ptr == op.ptr

/-- The entry of `AMOTable` belongs to the operation. -/
def AMOEntry.isFor (op : RevMemOp) (e : AMOEntry) : Bool :=
  e.key == op.Addr && e.memop.ptr == op.ptr

/-- The value `performAMO` computes in the target object: it reads the operand
    from the buffer and applies the operation at the width of the AMO. -/
def amoTarget (h : Host) (op : RevMemOp) (p : ℕ) : Host :=
  if op.Size = 4 then
    h.store p 4 (ApplyAMO op.flags (h.load p 4) (BitVec.ofNat 32 (leNat op.membuf)))
  else h.store p 8 (ApplyAMO op.flags (h.load p 8) (BitVec.ofNat 64 (leNat op.membuf)))

/-- The write operation that `performAMO` builds from the read operation
    `Tmp`. -/
def amoWriteOp (ptr : ℕ) (Tmp : RevMemOp) (buffer tempT : List UInt8) : RevMemOp :=
  { ptr, seq := Tmp.seq, Hart := Tmp.Hart, Addr := Tmp.Addr, PAddr := Tmp.PAddr, Size := Tmp.Size,
    Op := .MemOpWRITE, flags := Tmp.flags, membuf := buffer, tempT, procReq := Tmp.procReq }

/-- The entry of `AMOTable` for the write operation of an AMO. -/
def amoWriteEntry (Op : RevMemOp) : AMOEntry :=
  { key := Op.Addr, hart := Op.Hart, target := Op.target, flags := Op.flags, memop := Op,
    isIn := true }

/-- `performAMO` on the entry of the operation `Tmp`: the modified bytes go
    into a new write operation, the target gets its old bytes back. -/
def performAMO (s : RevBasicMemCtrl) (h : Host) (Tmp : RevMemOp) :
    Option (RevBasicMemCtrl × Host) :=
  Tmp.target.map fun p =>
    let tempT := h.read p Tmp.Size
    let h' := amoTarget h Tmp p
    let Op := amoWriteOp s.nextPtr Tmp (h'.read p Tmp.Size) tempT
    ({ s with AMOTable := s.AMOTable ++ [amoWriteEntry Op] }.push Op, h'.write p 0 tempT)

/-- `handleAMO`: perform the AMO of the first entry of the operation and erase
    that entry. -/
def handleAMO (s : RevBasicMemCtrl) (h : Host) (op : RevMemOp) : Option (RevBasicMemCtrl × Host) :=
  match s.AMOTable.find? (AMOEntry.isFor op) with
  | none => some (s, h)
  | some e =>
    (performAMO s h e.memop).map fun (s', h') =>
      ({ s' with AMOTable := s'.AMOTable.eraseP (AMOEntry.isFor op) }, h')

/-- Remove a request id from the map `outstanding`. -/
def eraseOutstanding (s : RevBasicMemCtrl) (id : ℕ) : RevBasicMemCtrl :=
  { s with outstanding := s.outstanding.eraseP fun n => n.1 == id }

/-- What `handleReadResp` does once all bytes of the operation have arrived:
    extend the value, then start the write half of an AMO or complete the
    load. -/
def finishRead (s : RevBasicMemCtrl) (h : Host) (op : RevMemOp) (isAMO : Bool) :
    Option (RevBasicMemCtrl × Host) :=
  match handleFlagResp h op with
  | none => none
  | some h => if isAMO then handleAMO s h op else some (s, h.MarkLoadComplete op.procReq)

/-- The host after `handleReadResp` has copied the bytes of a response into the
    target `p`. -/
def copyResp (h : Host) (op : RevMemOp) (p : ℕ) (ev : ReadResp) : Host :=
  if op.SplitRqst > 1 then
    h.write p ((ev.pAddr - op.Addr) % 2 ^ 32 % 2 ^ 8) (copyBuf ev.data ev.size)
  else h.write p 0 (copyBuf ev.data op.Size)

/-- `handleReadResp`; `none` is a fatal error or a null target. -/
def handleReadResp (s : RevBasicMemCtrl) (h : Host) (ev : ReadResp) :
    Option (RevBasicMemCtrl × Host) :=
  if ev.id ∈ s.requests then
    let s := { s with requests := s.requests.erase ev.id }
    match s.outstanding.lookup ev.id with
    | none => none
    | some op =>
      match op.target with
      | none => none
      | some p =>
        let isAMO := s.AMOTable.any (AMOEntry.isFor op)
        let h := copyResp h op p ev
        let finished :=
          if op.SplitRqst > 1 && s.getNumSplitRqsts op != 1 then some (s, h)
          else finishRead s h op isAMO
        finished.map fun (s, h) => ({ s.eraseOutstanding ev.id with num_read := s.num_read - 1 }, h)
  else none

/-- `handleWriteResp`; `none` is a fatal error. -/
def handleWriteResp (s : RevBasicMemCtrl) (h : Host) (id : ℕ) : Option (RevBasicMemCtrl × Host) :=
  if id ∈ s.requests then
    let s := { s with requests := s.requests.erase id }
    match s.outstanding.lookup id with
    | none => none
    | some op =>
      let isAMO := s.AMOTable.any (AMOEntry.isFor op)
      let s := { s with AMOTable := s.AMOTable.filter fun e => !AMOEntry.isFor op e }
      let h :=
        if op.SplitRqst > 1 then
          if s.getNumSplitRqsts op == 1 && isAMO then h.MarkLoadComplete op.procReq else h
        else if isAMO then h.MarkLoadComplete op.procReq else h
      some ({ s.eraseOutstanding id with num_write := s.num_write - 1 }, h)
  else none

/-- `handleFlushResp`. -/
def handleFlushResp (s : RevBasicMemCtrl) (id : ℕ) : Option RevBasicMemCtrl :=
  if id ∈ s.requests then
    let s := { s with requests := s.requests.erase id }
    (s.outstanding.lookup id).map fun _ =>
      { s.eraseOutstanding id with num_flush := s.num_flush - 1 }
  else none

/-- `handleCustomResp`. -/
def handleCustomResp (s : RevBasicMemCtrl) (id : ℕ) : Option RevBasicMemCtrl :=
  if id ∈ s.requests then
    let s := { s with requests := s.requests.erase id }
    (s.outstanding.lookup id).map fun _ =>
      { s.eraseOutstanding id with num_custom := s.num_custom - 1 }
  else none

end RevBasicMemCtrl

end RevCPU
