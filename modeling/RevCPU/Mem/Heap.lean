import RevCPU.Mem.State

namespace RevCPU.RevMem

def AddMemSegAt (m : RevMem) (BaseAddr SegSize : ℕ) : ℕ × RevMem :=
  (BaseAddr, { m with MemSegs := m.MemSegs ++ [MemSegment.new BaseAddr SegSize false] })

/-- `RoundedSegSize` of `AddRoundedMemSeg`. -/
def roundedSize (SegSize RoundUpSize : ℕ) : ℕ :=
  let Remainder := SegSize % RoundUpSize
  if Remainder = 0 then SegSize else (SegSize + RoundUpSize - Remainder) % W64

/-- The loop of `AddRoundedMemSeg`: the segment that it changes, if any, and
    the address that it returns. -/
def growSegs (BaseAddr NewSegTopAddr : ℕ) : List MemSegment → Option (ℕ × List MemSegment)
  | [] => none
  | Seg :: rest =>
    if Seg.contains BaseAddr then
      let Seg' :=
        if !Seg.contains NewSegTopAddr then
          let BytesToExpandBy := (NewSegTopAddr + W64 - Seg.getTopAddr) % W64
          Seg.setSize ((Seg.getSize + BytesToExpandBy) % W64)
        else Seg
      some (Seg'.getBaseAddr, Seg' :: rest)
    else if Seg.contains NewSegTopAddr then
      let Seg' := Seg.setBaseAddr BaseAddr
      let BytesToExpandBy := (Seg'.getBaseAddr + W64 - BaseAddr) % W64
      some (BaseAddr, Seg'.setSize ((Seg'.getSize + BytesToExpandBy) % W64) :: rest)
    else (growSegs BaseAddr NewSegTopAddr rest).map fun (a, segs) => (a, Seg :: segs)

/-- `AddRoundedMemSeg`; `none` is the fatal error for a `RoundUpSize` of 0. -/
def AddRoundedMemSeg (m : RevMem) (BaseAddr SegSize RoundUpSize : ℕ) : Option (ℕ × RevMem) :=
  if RoundUpSize = 0 then none
  else
    let RoundedSegSize := roundedSize SegSize RoundUpSize
    match growSegs BaseAddr ((BaseAddr + RoundedSegSize) % W64) m.MemSegs with
    | some (a, segs) => some (a, { m with MemSegs := segs })
    | none => some (BaseAddr, { m with MemSegs := m.MemSegs ++ [MemSegment.new BaseAddr RoundedSegSize false] })

def AddThreadMem (m : RevMem) : MemSegment × RevMem :=
  let BaseAddr := (m.NextThreadMemAddr + W64 - m.ThreadMemSize) % W64
  let Seg : MemSegment := MemSegment.new BaseAddr m.ThreadMemSize false
  (Seg, { m with
    ThreadMemSegs := m.ThreadMemSegs ++ [Seg]
    NextThreadMemAddr := (BaseAddr + W64 - pageSize - 1) % W64 })

def SetTLSInfo (m : RevMem) (BaseAddr Size : ℕ) : RevMem :=
  let TLSSize := (m.TLSSize + Size) % W64
  { m with TLSBaseAddr := BaseAddr, TLSSize, ThreadMemSize := (STACK_SIZE + TLSSize) % W64 }

/-- `ExpandHeap`; `none` is the fatal "Out Of Memory". -/
def ExpandHeap (m : RevMem) (Size : ℕ) : Option (ℕ × RevMem) :=
  let NewHeapEnd := (m.heapend + Size) % W64
  if NewHeapEnd > m.maxHeapSize then none else some (NewHeapEnd, { m with heapend := NewHeapEnd })

/-- `InitHeap`; `none` is the fatal error for a missing static section. -/
def InitHeap (m : RevMem) (EndOfStaticData : ℕ) : Option RevMem :=
  if EndOfStaticData = 0 then none
  else
    let start := (EndOfStaticData + 1) % W64
    some { m with
      FreeMemSegs := m.FreeMemSegs ++ [MemSegment.new start m.maxHeapSize false]
      heapend := start
      heapstart := start }

/-- The loop of `AllocMem` over the free segments: the base address of the
    first one that fits and the free segments without the part it gives. -/
def takeFree (SegSize : ℕ) : List MemSegment → Option (ℕ × List MemSegment)
  | [] => none
  | FreeSeg :: rest =>
    let oldFreeSegSize := FreeSeg.getSize
    if oldFreeSegSize > SegSize then
      let NewSegBaseAddr := FreeSeg.getBaseAddr
      some (NewSegBaseAddr,
        (FreeSeg.setBaseAddr ((FreeSeg.getBaseAddr + SegSize) % W64)).setSize
          (oldFreeSegSize - SegSize) :: rest)
    else if oldFreeSegSize = SegSize then some (FreeSeg.getBaseAddr, rest)
    else (takeFree SegSize rest).map fun (a, segs) => (a, FreeSeg :: segs)

/-- `AllocMem`; `none` is the fatal error of `ExpandHeap`. -/
def AllocMem (m : RevMem) (SegSize : ℕ) : Option (ℕ × RevMem) :=
  match takeFree SegSize m.FreeMemSegs with
  | some (NewSegBaseAddr, free) =>
    some (NewSegBaseAddr, { m with
      MemSegs := m.MemSegs ++ [MemSegment.new NewSegBaseAddr SegSize true]
      FreeMemSegs := free })
  | none =>
    let NewSegBaseAddr := m.heapend
    let m := { m with MemSegs := m.MemSegs ++ [MemSegment.new NewSegBaseAddr SegSize true] }
    (m.ExpandHeap SegSize).map fun (_, m) => (NewSegBaseAddr, m)

/-- The loop of `AllocMemAt` over the free segments: the segments after the
    allocation and the free segment that it adds at the end of the list. -/
def carveFree (BaseAddr SegSize : ℕ) : List MemSegment → Option (List MemSegment × List MemSegment)
  | [] => none
  | FreeSeg :: rest =>
    if FreeSeg.containsRange BaseAddr SegSize then
      let top := (BaseAddr + SegSize) % W64
      if FreeSeg.getBaseAddr ≠ BaseAddr ∧ FreeSeg.getTopAddr ≠ top then
        some (FreeSeg.setSize ((BaseAddr + W64 - FreeSeg.getBaseAddr) % W64) :: rest,
          [MemSegment.new top ((FreeSeg.getTopAddr + W64 - top) % W64) false])
      else if FreeSeg.getBaseAddr = BaseAddr ∧ FreeSeg.getTopAddr ≠ top then
        some (FreeSeg.setBaseAddr top :: rest, [])
      else if FreeSeg.getBaseAddr ≠ BaseAddr ∧ FreeSeg.getTopAddr = top then
        some (FreeSeg.setSize ((FreeSeg.getSize + W64 - SegSize) % W64) :: rest, [])
      else some (rest, [])
    else (carveFree BaseAddr SegSize rest).map fun (segs, new) => (FreeSeg :: segs, new)

/-- The `int` that `AllocMemAt` keeps its address in, as the `uint64_t` that it
    returns. -/
def intRet (BaseAddr : ℕ) : ℕ :=
  let ret := BaseAddr % 2 ^ 32
  if ret < 2 ^ 31 then ret else ret + (W64 - 2 ^ 32)

/-- `AllocMemAt`; `none` is the fatal error for memory that is allocated. -/
def AllocMemAt (m : RevMem) (BaseAddr SegSize : ℕ) : Option (ℕ × RevMem) :=
  match carveFree BaseAddr SegSize m.FreeMemSegs with
  | none => some (0, m)
  | some (free, new) =>
    let m := { m with FreeMemSegs := free ++ new }
    if intRet BaseAddr = 0 then some (0, m)
    else if m.MemSegs.any fun Seg =>
        Seg.contains BaseAddr || Seg.contains ((BaseAddr + SegSize) % W64) then none
    else
      some (intRet BaseAddr, { m with MemSegs := m.MemSegs ++ [MemSegment.new BaseAddr SegSize false] })

/-- The loop of `DeallocMem` over `MemSegs`: `none` is the fatal error, `some
    none` means that no segment starts at the address. -/
def releaseSeg (BaseAddr Size : ℕ) : List MemSegment → Option (Option (List MemSegment))
  | [] => some none
  | AllocedSeg :: rest =>
    if AllocedSeg.getBaseAddr ≠ BaseAddr then
      (releaseSeg BaseAddr Size rest).map fun r => r.map fun segs => AllocedSeg :: segs
    else if Size > AllocedSeg.getSize then none
    else if Size < AllocedSeg.getSize then
      let oldAllocedSize := AllocedSeg.getSize
      some (some ((AllocedSeg.setBaseAddr ((BaseAddr + Size) % W64)).setSize
        (oldAllocedSize - Size) :: rest))
    else some (some rest)

/-- The loop of `DeallocMem` that looks for a free segment to merge with. -/
def mergeFree (BaseAddr Size : ℕ) : List MemSegment → Option (List MemSegment)
  | [] => none
  | FreeSeg :: rest =>
    if FreeSeg.contains ((BaseAddr + W64 - 1) % W64) then
      some (FreeSeg.setSize ((FreeSeg.getSize + Size) % W64) :: rest)
    else (mergeFree BaseAddr Size rest).map fun segs => FreeSeg :: segs

/-- `DeallocMem`; `none` is the fatal error. -/
def DeallocMem (m : RevMem) (BaseAddr Size : ℕ) : Option (ℕ × RevMem) :=
  match releaseSeg BaseAddr Size m.MemSegs with
  | none => none
  | some none => some (W64 - 1, m)
  | some (some segs) =>
    let m := { m with MemSegs := segs }
    match mergeFree BaseAddr Size m.FreeMemSegs with
    | some free => some (0, { m with FreeMemSegs := free })
    | none => some (0, { m with FreeMemSegs := m.FreeMemSegs ++ [MemSegment.new BaseAddr Size false] })

end RevCPU.RevMem
