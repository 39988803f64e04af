import Mathlib.Data.List.Basic
import RevCPU.Mem.Segment

namespace RevCPU

/-- The codes of `RevRegClass`. -/
def RevRegClass.code : RevRegClass → ℕ
  | .RegUNKNOWN => 0
  | .RegIMM => 1
  | .RegGPR => 2
  | .RegCSR => 3
  | .RegFLOAT => 4

/-- `LSQHash` of `RevCommon.h`. -/
def LSQHash (DestReg : ℕ) (RegType : RevRegClass) (Hart : ℕ) : ℕ :=
  RegType.code <<< (16 + 8) ||| DestReg <<< 16 ||| Hart

def MemReq.LSQHash (req : MemReq) : ℕ := RevCPU.LSQHash req.DestReg req.RegType req.Hart

/-- `REVPREF_INIT_ADDR`: the value of a word that has not been filled. -/
def REVPREF_INIT_ADDR : BitVec 32 := 0xDEADBEEF

/-- The 16-bit and the 32-bit little-endian words of a memory. -/
def memHalf (mem : ℕ → BitVec 8) (a : ℕ) : BitVec 16 := mem ((a + 1) % W64) ++ mem (a % W64)

def memWord (mem : ℕ → BitVec 8) (a : ℕ) : BitVec 32 := memHalf mem (a + 2) ++ memHalf mem a

/-- A stream: an element of `baseAddr` with the element of `iStack` at the same
    index, and the address that the allocator gave to its words. -/
structure Stream where
  baseAddr : ℕ
  buf : ℕ
  words : List (BitVec 32)
  deriving DecidableEq, Repr

/-- A read of a fill: its request and the word that it is read into. -/
structure FillRead where
  req : MemReq
  buf : ℕ
  slot : ℕ
  deriving DecidableEq, Repr

/-- `RevPrefetcher`, with the queue of the loads that it shares with the core
    and the reads that the memory has not answered. Without a controller (`ctrl`
    is false) the memory answers at once. -/
structure RevPrefetcher where
  depth : ℕ
  ctrl : Bool
  streams : List Stream := []
  LSQueue : List (ℕ × MemReq) := []
  OutstandingFetchQ : List MemReq := []
  reads : List FillRead := []
  deriving DecidableEq, Repr

/-- What `InstFetch` returns: its value, `Fetched` and `Inst`, both of which the
    caller has cleared. -/
structure FetchResult where
  ret : Bool
  Fetched : Bool
  Inst : BitVec 32
  deriving DecidableEq, Repr

namespace Stream

/-- `baseAddr[i] + (depth*4)`: the product has 32 bits, the sum 64. -/
def lastAddr (st : Stream) (depth : ℕ) : ℕ := (st.baseAddr + depth * 4 % 2 ^ 32) % W64

def contains (st : Stream) (depth Addr : ℕ) : Bool :=
  decide (st.baseAddr ≤ Addr) && decide (Addr < st.lastAddr depth)

def off (st : Stream) (Addr : ℕ) : ℕ := (Addr - st.baseAddr) / 4 % 2 ^ 32

/-- `iStack[i][Off]`. -/
def word (st : Stream) (Addr : ℕ) : BitVec 32 := st.words.getD (st.off Addr) 0

/-- The stream after a write through a pointer to word `slot` of `buf`. -/
def put (st : Stream) (buf slot : ℕ) (w : BitVec 32) : Stream :=
  if st.buf = buf then { st with words := st.words.set slot w } else st

end Stream

namespace RevPrefetcher

/-- `MarkInstructionLoadComplete`. -/
def MarkInstructionLoadComplete (s : RevPrefetcher) (req : MemReq) : RevPrefetcher :=
  { s with OutstandingFetchQ := s.OutstandingFetchQ.eraseP fun q => q.Addr == req.Addr }

/-- The entry of `LSQueue` that `MarkLoadComplete` looks for. -/
def isEntryOf (req : MemReq) (e : ℕ × MemReq) : Bool :=
  e.1 == req.LSQHash && e.2.Addr == req.Addr

/-- `RevProc::MarkLoadComplete` as far as it concerns the prefetcher; `none` is
    the fatal error of a request that has no entry. -/
def MarkLoadComplete (s : RevPrefetcher) (req : MemReq) : Option RevPrefetcher :=
  if s.LSQueue.any (isEntryOf req) then
    let s := s.MarkInstructionLoadComplete req
    some { s with LSQueue := s.LSQueue.eraseP (isEntryOf req) }
  else none

/-- A write of a word through a pointer into a stream. The words of a stream
    that was deleted are not memory of the prefetcher any more. -/
def setWord (s : RevPrefetcher) (buf slot : ℕ) (w : BitVec 32) : RevPrefetcher :=
  { s with streams := s.streams.map fun st => st.put buf slot w }

/-- The memory answers read `k`. -/
def respond (mem : ℕ → BitVec 8) (s : RevPrefetcher) (k : ℕ) : Option RevPrefetcher :=
  match s.reads[k]? with
  | none => none
  | some r =>
    let s := { s with reads := s.reads.eraseIdx k }
    (s.setWord r.buf r.slot (memWord mem r.req.Addr)).MarkLoadComplete r.req

/-- The request of `Fill` for word `y` of the stream at `Addr`. -/
def fillReq (hart Addr y : ℕ) : MemReq where
  Addr := (Addr + y * 4) % W64
  DestReg := 0
  RegType := .RegGPR
  Hart := hart
  ReqType := .MemOpREAD
  isOutstanding := true
  MarkLoadCompleteFunc := some 0

/-- The books that `Fill` keeps of a request, and the read that it sends. -/
def push (s : RevPrefetcher) (r : FillRead) : RevPrefetcher :=
  { s with
    LSQueue := s.LSQueue ++ [(r.req.LSQHash, r.req)]
    OutstandingFetchQ := s.OutstandingFetchQ ++ [r.req]
    reads := s.reads ++ [r] }

/-- One turn of the loop of `Fill`. -/
def issue (mem : ℕ → BitVec 8) (s : RevPrefetcher) (r : FillRead) : Option RevPrefetcher :=
  if s.ctrl then some (s.push r) else (s.push r).respond mem s.reads.length

/-- `Fill`. `buf` is where the allocator puts the words of the new stream, which
    is not where those of another stream are. -/
def Fill (mem : ℕ → BitVec 8) (s : RevPrefetcher) (hart buf Addr : ℕ) : Option RevPrefetcher :=
  if s.streams.any fun st => st.buf == buf then none
  else
    let Addr := Addr &&& 0xFFFFFFFFFFFFFFFC
    let st : Stream := ⟨Addr, buf, List.replicate s.depth REVPREF_INIT_ADDR⟩
    (List.range s.depth).foldlM (fun s y => s.issue mem ⟨fillReq hart Addr y, buf, y⟩)
      { s with streams := s.streams ++ [st] }

/-- The outcome of the loop of `FetchUpper`. -/
inductive Upper
  | error
  | stall
  | found (UInst : BitVec 32)
  | miss
  deriving DecidableEq, Repr

/-- The loop of `FetchUpper`. A stream that has the word but not at its start
    is passed over. -/
def findUpper (depth Addr : ℕ) : List Stream → Upper
  | [] => .miss
  | st :: sts =>
    if st.contains depth Addr then
      if st.off Addr > depth - 1 then .error
      else if st.word Addr = REVPREF_INIT_ADDR then .stall
      else if Addr = (st.baseAddr + st.off Addr * 4 % 2 ^ 32) % W64 then .found (st.word Addr <<< 16)
      else findUpper depth Addr sts
    else findUpper depth Addr sts

/-- `FetchUpper`: its value, the upper half if it was fetched, and the state. -/
def FetchUpper (mem : ℕ → BitVec 8) (s : RevPrefetcher) (hart buf Addr : ℕ) :
    Option (Bool × Option (BitVec 32) × RevPrefetcher) :=
  match findUpper s.depth Addr s.streams with
  | .error => some (false, none, s)
  | .stall => some (true, none, s)
  | .found UInst => some (true, some UInst, s)
  | .miss => (s.Fill mem hart buf Addr).map fun s => (true, none, s)

/-- The last part of `IsAvail`: the newest fetch is still in `LSQueue`. -/
def newestOutstanding (s : RevPrefetcher) : Bool :=
  match s.OutstandingFetchQ.getLast? with
  | none => false
  | some req => s.LSQueue.any (isEntryOf req)

/-- `IsAvail`. -/
def IsAvail (mem : ℕ → BitVec 8) (s : RevPrefetcher) (hart buf Addr : ℕ) :
    Option (Bool × RevPrefetcher) :=
  match s.streams.find? fun st => st.contains s.depth Addr with
  | none => (s.Fill mem hart buf Addr).map fun s => (false, s)
  | some st =>
    if st.off Addr > s.depth - 1 then some (false, s)
    else if st.word Addr = REVPREF_INIT_ADDR then some (false, s)
    else if st.lastAddr s.depth - Addr < 4 ∨ Addr &&& 3 ≠ 0 then
      match s.FetchUpper mem hart buf ((Addr + 2) % W64) with
      | none => none
      | some (ret, upper, s) =>
        if ret && upper.isSome then some (!s.newestOutstanding, s) else some (false, s)
    else some (!s.newestOutstanding, s)

/-- The end of `InstFetch`: after the last word of stream `i` the stream is
    deleted and the next one is filled. -/
def advance (mem : ℕ → BitVec 8) (s : RevPrefetcher) (hart buf Addr i : ℕ) (st : Stream) :
    Option RevPrefetcher :=
  if st.off Addr = s.depth - 1 then
    { s with streams := s.streams.eraseIdx i }.Fill mem hart buf ((Addr + 2) % W64)
  else some s

/-- `InstFetch`. -/
def InstFetch (mem : ℕ → BitVec 8) (s : RevPrefetcher) (hart buf Addr : ℕ) :
    Option (FetchResult × RevPrefetcher) :=
  let i := s.streams.findIdx fun st => st.contains s.depth Addr
  match s.streams[i]? with
  | none => (s.Fill mem hart buf Addr).map fun s => (⟨true, false, 0⟩, s)
  | some st =>
    if st.off Addr > s.depth - 1 then some (⟨false, false, 0⟩, s)
    else if st.word Addr = REVPREF_INIT_ADDR then some (⟨true, false, 0⟩, s)
    else if Addr = (st.baseAddr + st.off Addr * 4 % 2 ^ 32) % W64 then
      (s.advance mem hart buf Addr i st).map fun s => (⟨true, true, st.word Addr⟩, s)
    else
      let Inst := st.word Addr >>> 16
      match s.FetchUpper mem hart buf ((Addr + 2) % W64) with
      | none => none
      | some (false, _, s) => some (⟨false, false, Inst⟩, s)
      | some (true, none, s) => some (⟨true, false, Inst⟩, s)
      | some (true, some UInst, s) =>
        (s.advance mem hart buf Addr i st).map fun s => (⟨true, true, Inst ||| UInst⟩, s)

end RevPrefetcher

end RevCPU
