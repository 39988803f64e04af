import RevCPU.MemCtrl.State
import RevCPU.Mem.Segment

namespace RevCPU

/-- A reservation of `LRSC`: hart, address, the `aq`/`rl` bits and the target
    of the load. -/
structure Reservation where
  hart : ℕ
  addr : ℕ
  aqrl : ℕ
  val : ℕ
  deriving DecidableEq, Repr

/-- The state of `RevMem`. The maps `TLB` and `pageMap` are association lists;
    the iterators of the TLB into `LRUQueue` are positions of the same address
    there. `physMem` is used only without a controller. -/
structure RevMem where
  memSize : ℕ
  tlbSize : ℕ := 512
  maxHeapSize : ℕ
  physMem : ℕ → UInt8 := fun _ => 0
  ctrl : Option RevBasicMemCtrl := none
  TLB : List (ℕ × ℕ) := []
  LRUQueue : List ℕ := []
  MemSegs : List MemSegment := []
  FreeMemSegs : List MemSegment := []
  ThreadMemSegs : List MemSegment := []
  TLSBaseAddr : ℕ := 0
  TLSSize : ℕ := 4
  ThreadMemSize : ℕ
  NextThreadMemAddr : ℕ
  pageMap : List (ℕ × ℕ) := []
  nextPage : ℕ := 0
  heapend : ℕ := 0
  heapstart : ℕ := 0
  stacktop : ℕ := 0
  FutureRes : List ℕ := []
  LRSC : List Reservation := []

namespace RevMem

def INVALID_ADDR : ℕ := W64 - 1

def STACK_SIZE : ℕ := 1024 * 1024

def pageSize : ℕ := 262144

def addrShift : ℕ := 18

/-- `pageMap[...].first << addrShift`, a shift of a `uint32_t`. -/
def frameBase (frame : ℕ) : ℕ := frame * pageSize % 2 ^ 32

def FlushTLB (m : RevMem) : RevMem := { m with TLB := [], LRUQueue := [] }

/-- `SearchTLB`: the translation, or `INVALID_ADDR`, and the state with the
    address moved to the front of the LRU list. -/
def SearchTLB (m : RevMem) (vAddr : ℕ) : ℕ × RevMem :=
  match m.TLB.lookup vAddr with
  | none => (INVALID_ADDR, m)
  | some physAddr => (physAddr, { m with LRUQueue := vAddr :: m.LRUQueue.erase vAddr })

/-- `AddToTLB`. -/
def AddToTLB (m : RevMem) (vAddr physAddr : ℕ) : RevMem :=
  match m.TLB.lookup vAddr with
  | some _ =>
    { m with
      LRUQueue := vAddr :: m.LRUQueue.erase vAddr
      TLB := m.TLB.map fun e => if e.1 = vAddr then (vAddr, physAddr) else e }
  | none =>
    if m.LRUQueue.length = m.tlbSize then
      let LRUvAddr := m.LRUQueue.getLastD 0
      { m with
        LRUQueue := vAddr :: m.LRUQueue.dropLast
        TLB := m.TLB.eraseP (fun e => e.1 == LRUvAddr) ++ [(vAddr, physAddr)] }
    else
      { m with LRUQueue := vAddr :: m.LRUQueue, TLB := m.TLB ++ [(vAddr, physAddr)] }

def isValidVirtAddr (m : RevMem) (vAddr : ℕ) : Bool :=
  m.MemSegs.any (·.contains vAddr) || m.ThreadMemSegs.any (·.contains vAddr)

/-- `CalcPhysAddr`; `none` is the segmentation fault. -/
def CalcPhysAddr (m : RevMem) (pageNum vAddr : ℕ) : Option (ℕ × RevMem) :=
  let (physAddr, m) := m.SearchTLB vAddr
  if physAddr = INVALID_ADDR then
    if m.isValidVirtAddr vAddr then
      match m.pageMap.lookup pageNum with
      | none =>
        let physAddr := frameBase m.nextPage + vAddr % pageSize
        let m := { m with
          pageMap := m.pageMap ++ [(pageNum, m.nextPage)]
          nextPage := (m.nextPage + 1) % 2 ^ 32 }
        some (physAddr, m.AddToTLB vAddr physAddr)
      | some frame =>
        let physAddr := frameBase frame + vAddr % pageSize
        some (physAddr, m.AddToTLB vAddr physAddr)
    else none
  else some (physAddr, m)

end RevMem

end RevCPU
