import RevCPU.Common

namespace RevCPU

/-- The number of values of a `uint64_t`. -/
abbrev W64 : ℕ := 2 ^ 64

/-- `RevMem::MemSegment`. `alloced` tells whether `AllocMem` created the
    segment; no function reads it. -/
structure MemSegment where
  BaseAddr : ℕ
  Size : ℕ
  TopAddr : ℕ
  alloced : Bool := false
  deriving DecidableEq, Repr

namespace MemSegment

/-- The constructor of `MemSegment`. -/
def new (baseAddr size : ℕ) (alloced : Bool) : MemSegment :=
  { BaseAddr := baseAddr, Size := size, TopAddr := (baseAddr + size) % W64, alloced }

def getTopAddr (s : MemSegment) : ℕ := (s.BaseAddr + s.Size) % W64

def getBaseAddr (s : MemSegment) : ℕ := s.BaseAddr

def getSize (s : MemSegment) : ℕ := s.Size

def setBaseAddr (s : MemSegment) (baseAddr : ℕ) : MemSegment :=
  { s with
    BaseAddr := baseAddr
    TopAddr := if s.Size ≠ 0 then (s.Size + baseAddr) % W64 else s.TopAddr }

def setSize (s : MemSegment) (size : ℕ) : MemSegment :=
  { s with Size := size, TopAddr := (s.BaseAddr + size) % W64 }

def contains (s : MemSegment) (vAddr : ℕ) : Bool := s.BaseAddr ≤ vAddr && vAddr < s.TopAddr

/-- `contains` of a range; the top address of the range is exclusive. -/
def containsRange (s : MemSegment) (vBaseAddr Size : ℕ) : Bool :=
  s.contains vBaseAddr && s.contains ((vBaseAddr + Size + (W64 - 1)) % W64)

end MemSegment

end RevCPU
