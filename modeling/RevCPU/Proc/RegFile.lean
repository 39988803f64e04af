import RevCPU.Lib.Bytes
import RevCPU.Proc.InstTable

namespace RevCPU

open Lib

/-- `RevRegFile`. The arrays `RV32` and `RV64` share their bytes `X`, the arrays
    `SPF` and `DPF` their bytes `FP`. `completed` lists the requests whose
    `MarkLoadComplete` has been called. -/
structure RevRegFile where
  IsRV32 : Bool
  HasD : Bool
  X : ℕ → UInt8
  FP : ℕ → UInt8
  PC : ℕ
  LSQueue : List MemReq := []
  completed : List MemReq := []

namespace RevRegFile

/-- The byte offsets of `RV32[r]` and `RV64[r]`. -/
def xOff (R : RevRegFile) (r : ℕ) : ℕ := if R.IsRV32 then 4 * r else 8 * r

/-- XLEN in bytes. -/
def xLen (R : RevRegFile) : ℕ := if R.IsRV32 then 4 else 8

/-- `GetX<uint64_t>`; the other instances take the low bytes of it. -/
def GetX (R : RevRegFile) (rs : ℕ) : ℕ :=
  if rs ≠ 0 then leNat (getBytes R.X (R.xOff rs) R.xLen) else 0

/-- `SetX` with a value that is already a bit pattern of XLEN bits or more. -/
def SetX (R : RevRegFile) (rd val : ℕ) : RevRegFile :=
  { R with X := setBytes R.X (R.xOff rd) (leBytes R.xLen (if rd ≠ 0 then val else 0)) }

def AdvancePC (R : RevRegFile) (i : RevInst) : RevRegFile :=
  { R with PC := (R.PC + i.instSize) % (if R.IsRV32 then 2 ^ 32 else 2 ^ 64) }

/-- `GetFP<T, true>` for a `T` of `n` bytes. -/
def GetFP (R : RevRegFile) (n rs : ℕ) : List UInt8 :=
  if n = 8 ∨ R.HasD then getBytes R.FP (8 * rs) n else getBytes R.FP (4 * rs) n

/-- `BoxNaN` of the low half of `DPF[rd]`. -/
def boxDPF (R : RevRegFile) (rd : ℕ) : RevRegFile :=
  { R with FP := setBytes R.FP (8 * rd + 4) [255, 255, 255, 255] }

end RevRegFile

end RevCPU
