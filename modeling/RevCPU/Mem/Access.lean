import RevCPU.MemCtrl.Response
import RevCPU.Mem.State

namespace RevCPU.RevMem

def RevokeFuture (m : RevMem) (Addr : ℕ) : RevMem :=
  { m with FutureRes := m.FutureRes.erase Addr }

/-- `pageMap[pageNum].first`, which inserts a frame number of 0 for a page that
    is not in the map. -/
def pageAt (m : RevMem) (pageNum : ℕ) : ℕ × RevMem :=
  match m.pageMap.lookup pageNum with
  | some frame => (frame, m)
  | none => (0, { m with pageMap := m.pageMap ++ [(pageNum, 0)] })

/-- The loops of the accesses count in 32 bits and stay inside `physMem`, which
    exists only without a controller; `none` is an access that does not. -/
def inPhysMem (m : RevMem) (physAddr n : ℕ) : Bool :=
  n == 0 || (m.ctrl.isNone && decide (n < 2 ^ 32) && decide (physAddr + n ≤ m.memSize))

def physRead (m : RevMem) (physAddr n : ℕ) : Option (List UInt8) :=
  if m.inPhysMem physAddr n then some ((List.range n).map fun i => m.physMem (physAddr + i)) else none

def physWrite (m : RevMem) (physAddr : ℕ) (bytes : List UInt8) : Option RevMem :=
  if m.inPhysMem physAddr bytes.length then
    some { m with physMem := fun a =>
      if physAddr ≤ a ∧ a < physAddr + bytes.length then bytes.getD (a - physAddr) 0
      else m.physMem a }
  else none

/-- The head that all four access routines share: where the bytes of the access
    start and, when it walks off the page, the number of bytes past the end of
    the page and where these are. `none` is a segmentation fault. -/
def translate (m : RevMem) (Addr Len : ℕ) : Option (ℕ × Option (ℕ × ℕ) × RevMem) :=
  let pageNum := Addr / pageSize
  match m.CalcPhysAddr pageNum Addr with
  | none => none
  | some (physAddr, m) =>
    let (frame, m) := m.pageAt pageNum
    let endOfPage := (frameBase frame + pageSize) % 2 ^ 32
    if (physAddr + Len) % W64 > endOfPage then
      let span := ((physAddr + Len) % W64 - endOfPage) % 2 ^ 32
      let adjAddr := ((Addr + Len) % W64 + W64 - span) % W64
      match m.CalcPhysAddr (adjAddr / pageSize % 2 ^ 32) adjAddr with
      | none => none
      | some (adjPhysAddr, m) => some (physAddr, some (span, adjPhysAddr), m)
    else some (physAddr, none, m)

/-- `Len-span`, the bytes in front of the end of the page; the subtraction wraps
    around in 64 bits. -/
def headLen (Len span : ℕ) : ℕ := if span ≤ Len then Len - span else W64 - (span - Len)

theorem headLen_eq {Len span : ℕ} (hle : span ≤ Len) : headLen Len span = Len - span := if_pos hle

/-- `WriteMem` with flags. The controller takes the length as a `uint32_t`. -/
def WriteMemFlags (m : RevMem) (Hart Addr Len : ℕ) (Data : List UInt8) (flags : RevFlag) :
    Option RevMem :=
  match (m.RevokeFuture Addr).translate Addr Len with
  | none => none
  | some (physAddr, some (span, adjPhysAddr), m) =>
    let Cur := headLen Len span
    match m.ctrl with
    | some ctrl =>
      let ctrl := ctrl.sendWRITERequest Hart Addr physAddr (Len % 2 ^ 32) Data flags
      let ctrl := ctrl.sendWRITERequest Hart Addr adjPhysAddr (Len % 2 ^ 32) (Data.drop Cur) flags
      some { m with ctrl }
    | none =>
      match m.physWrite physAddr (copyBuf Data Cur) with
      | none => none
      | some m => m.physWrite adjPhysAddr (copyBuf (Data.drop Cur) span)
  | some (physAddr, none, m) =>
    match m.ctrl with
    | some ctrl =>
      some { m with ctrl := ctrl.sendWRITERequest Hart Addr physAddr (Len % 2 ^ 32) Data flags }
    | none => m.physWrite physAddr (copyBuf Data Len)

/-- `WriteMem` without flags. -/
def WriteMem (m : RevMem) (Hart Addr Len : ℕ) (Data : List UInt8) : Option RevMem :=
  m.WriteMemFlags Hart Addr Len Data .F_NONE

/-- The deprecated `ReadMem`, on the old contents of the caller's buffer. The
    loop over the bytes of the next page does not advance `Cur`. -/
def ReadMemOld (m : RevMem) (Addr Len : ℕ) (Data : List UInt8) : Option (List UInt8 × RevMem) :=
  match m.translate Addr Len with
  | none => none
  | some (physAddr, some (span, adjPhysAddr), m) =>
    let Cur := headLen Len span
    match m.physRead physAddr Cur, m.physRead adjPhysAddr span with
    | some front, some back =>
      match back.getLast? with
      | some last => some (front ++ last :: Data.drop (Cur + 1), m)
      | none => some (front ++ Data.drop Cur, m)
    | _, _ => none
  | some (physAddr, none, m) => (m.physRead physAddr Len).map fun bytes => (bytes, m)

/-- `MarkLoadComplete`, unless an AMO reads its own operand. -/
def completeRead (h : Host) (req : MemReq) : Host :=
  if req.ReqType ≠ .MemOpAMO then h.MarkLoadComplete req else h

/-- `ReadMem`. -/
def ReadMem (m : RevMem) (h : Host) (Hart Addr Len Target : ℕ) (req : MemReq) (flags : RevFlag) :
    Option (RevMem × Host) :=
  match m.translate Addr Len with
  | none => none
  | some (physAddr, some (span, adjPhysAddr), m) =>
    let Cur := headLen Len span
    let front :=
      match m.ctrl with
      | some ctrl =>
        some ({ m with ctrl := ctrl.sendREADRequest Hart Addr physAddr Len Target req flags }, h)
      | none => (m.physRead physAddr Cur).map fun bytes => (m, h.write Target 0 bytes)
    match front with
    | none => none
    | some (m, h) =>
      (m.physRead adjPhysAddr span).map fun bytes =>
        (m, completeRead (h.write Target Cur bytes) req)
  | some (physAddr, none, m) =>
    match m.ctrl with
    | some ctrl =>
      some ({ m with ctrl := ctrl.sendREADRequest Hart Addr physAddr Len Target req flags }, h)
    | none =>
      (m.physRead physAddr Len).map fun bytes => (m, completeRead (h.write Target 0 bytes) req)

end RevCPU.RevMem
