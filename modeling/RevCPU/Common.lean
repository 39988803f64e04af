import Mathlib.Algebra.Group.Nat.Defs

namespace RevCPU

/-- `MemOp` of `RevCommon.h`. -/
inductive MemOp
  | MemOpREAD
  | MemOpWRITE
  | MemOpFLUSH
  | MemOpREADLOCK
  | MemOpWRITEUNLOCK
  | MemOpLOADLINK
  | MemOpSTORECOND
  | MemOpCUSTOM
  | MemOpFENCE
  | MemOpAMO
  deriving DecidableEq, Repr

/-- `RevRegClass` of `RevCommon.h`. -/
inductive RevRegClass
  | RegUNKNOWN
  | RegIMM
  | RegGPR
  | RegCSR
  | RegFLOAT
  deriving DecidableEq, Repr

/-- `RevFlag` of `RevMemCtrl.h`: a set of 32 request flags. -/
abbrev RevFlag := BitVec 32

namespace RevFlag

def F_NONE : RevFlag := 0
def F_NONCACHEABLE : RevFlag := 1 <<< 1
def F_BOXNAN : RevFlag := 1 <<< 16
def F_SEXT32 : RevFlag := 1 <<< 17
def F_SEXT64 : RevFlag := 1 <<< 18
def F_ZEXT32 : RevFlag := 1 <<< 19
def F_ZEXT64 : RevFlag := 1 <<< 20
def F_AMOADD : RevFlag := 1 <<< 21
def F_AMOXOR : RevFlag := 1 <<< 22
def F_AMOAND : RevFlag := 1 <<< 23
def F_AMOOR : RevFlag := 1 <<< 24
def F_AMOMIN : RevFlag := 1 <<< 25
def F_AMOMAX : RevFlag := 1 <<< 26
def F_AMOMINU : RevFlag := 1 <<< 27
def F_AMOMAXU : RevFlag := 1 <<< 28
def F_AMOSWAP : RevFlag := 1 <<< 29
def F_AQ : RevFlag := 1 <<< 30
def F_RL : RevFlag := 1 <<< 31

def F_ATOMIC : RevFlag :=
  F_AMOADD ||| F_AMOXOR ||| F_AMOAND ||| F_AMOOR ||| F_AMOMIN |||
  F_AMOMAX ||| F_AMOMINU ||| F_AMOMAXU ||| F_AMOSWAP

end RevFlag

/-- `RevFlagHas`: the two flag sets share a bit. -/
def RevFlagHas (flag has : RevFlag) : Bool := (flag &&& has) != 0

/-- `ZeroExt<T>` for an unsigned `T` of `w` bits. -/
def ZeroExt {w : ℕ} (val : BitVec w) (bits : ℕ) : BitVec w :=
  val &&& ~~~(~~~(0 : BitVec w) <<< bits)

/-- `SignExt<T>` for a `T` of `w` bits; the result is read as a signed value
    by the callers that need one. -/
def SignExt {w : ℕ} (val : BitVec w) (bits : ℕ) : BitVec w :=
  let signbit : BitVec w := 1 <<< (bits - 1)
  (ZeroExt val bits ^^^ signbit) - signbit

/-- `MemReq` of `RevCommon.h`. The callback stored in a request is known by a
    number, so that the requests of two calls can be told apart. -/
structure MemReq where
  Addr : ℕ := 2 ^ 64 - 1
  DestReg : ℕ := 0
  RegType : RevRegClass := .RegUNKNOWN
  Hart : ℕ := 2 ^ 32 - 1
  ReqType : MemOp := .MemOpCUSTOM
  isOutstanding : Bool := false
  MarkLoadCompleteFunc : Option ℕ := none
  deriving DecidableEq, Repr

/-- The host side of the simulator that requests write to. A target pointer
    names an object of the host (a register, a buffer); `cell p i` is byte `i`
    of object `p`. `completed` lists the requests whose `MarkLoadComplete` has
    been called, in the order of the calls. -/
structure Host where
  cell : ℕ → ℕ → UInt8
  completed : List MemReq

namespace Host

/-- The first `n` bytes of an object. -/
def read (h : Host) (p n : ℕ) : List UInt8 := (List.range n).map (h.cell p)

/-- Store bytes into an object, starting at offset `off`. -/
def write (h : Host) (p off : ℕ) (bytes : List UInt8) : Host :=
  { h with cell := fun q i =>
      if q = p ∧ off ≤ i ∧ i < off + bytes.length then bytes.getD (i - off) 0 else h.cell q i }

theorem write_cell (h : Host) (p off i : ℕ) (bytes : List UInt8) :
    (h.write p off bytes).cell p i =
      if off ≤ i ∧ i < off + bytes.length then bytes.getD (i - off) 0 else h.cell p i := by
  simp [write]

theorem write_other (h : Host) {p q : ℕ} (hne : q ≠ p) (off i : ℕ) (bytes : List UInt8) :
    (h.write p off bytes).cell q i = h.cell q i := by
  simp [write, hne]

@[simp] theorem read_length (h : Host) (p n : ℕ) : (h.read p n).length = n := by
  simp [read]

theorem read_getD (h : Host) (p : ℕ) {n i : ℕ} (hi : i < n) : (h.read p n).getD i 0 = h.cell p i := by
  simp [read, hi]

/-- `MemReq::MarkLoadComplete`. -/
def MarkLoadComplete (h : Host) (req : MemReq) : Host :=
  { h with completed := h.completed ++ [req] }

end Host

end RevCPU
