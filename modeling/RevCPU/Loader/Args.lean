import Mathlib.Data.List.SplitOn
import RevCPU.Loader.LoadElf

namespace RevCPU

open Lib

/-- `FenceMem`. -/
def RevMem.FenceMem (m : RevMem) (Hart : ℕ) : RevMem :=
  { m with ctrl := m.ctrl.map fun ctrl => ctrl.sendFENCE Hart }

namespace RevLoader

open Elf

/-- `splitStr`: the tokens of a string between the characters `c`, empty ones
    included. -/
def splitStr (s : List UInt8) (c : UInt8) (v : List (List UInt8)) : List (List UInt8) :=
  if s = [] then v else v ++ s.splitOn c

/-- `WriteCacheLine` of a buffer of the loader. -/
def writeBuf (L : RevLoader) (Addr : ℕ) (buf : List UInt8) : Load RevLoader := do
  let mem ← L.mem.WriteCacheLine L.lineSize Addr buf.length (bufData buf)
  .ok { L with mem }

/-- The loop that writes the argument strings, the last one first: the state
    and `OldStackTop`. -/
def writeStrings : List (List UInt8) → RevLoader → ℕ → Load (RevLoader × ℕ)
  | [], L, OldStackTop => .ok (L, OldStackTop)
  | arg :: rest, L, OldStackTop => do
    let tmpc := arg ++ [0]
    let OldStackTop := (OldStackTop + W64 - tmpc.length % W64) % W64
    let L ← L.writeBuf OldStackTop tmpc
    writeStrings rest L OldStackTop

/-- The loop that writes the addresses of the argument strings: the state,
    `OldStackTop` and `ArgArray`. -/
def writePointers : List (List UInt8) → RevLoader → ℕ → ℕ → Load (RevLoader × ℕ)
  | [], L, OldStackTop, _ => .ok (L, OldStackTop)
  | arg :: rest, L, OldStackTop, ArgArray => do
    let L ← L.writeBuf ArgArray (leBytes 8 OldStackTop)
    writePointers rest L ((OldStackTop + (arg.length + 1)) % W64) ((ArgArray + 8) % W64)

/-- `LoadProgramArgs`. -/
def LoadProgramArgs (L : RevLoader) : Load RevLoader := do
  let argv := splitStr L.args 32 (L.argv ++ [L.exe])
  let L := { L with argv }
  let OldStackTop := L.mem.GetMemTop
  let ArgArray := (L.mem.stacktop + 48) % W64
  let Argc := argv.length
  let L ← L.writeBuf ArgArray (leBytes 4 Argc)
  let ArgArray := (ArgArray + 4) % W64
  let (L, OldStackTop) ← writeStrings argv.reverse L OldStackTop
  let ArgBase := (ArgArray + 8) % W64
  let L ← L.writeBuf ArgArray (leBytes 8 ArgBase)
  let ArgArray := (ArgArray + 8) % W64
  let (L, OldStackTop) ← writePointers argv L OldStackTop ArgArray
  .ok { L with mem := { L.mem with
    NextThreadMemAddr :=
      (OldStackTop + 4 * W64 - RevMem.STACK_SIZE - L.mem.TLSSize - PAGE_SIZE) % W64 } }

/-- `IsElf`. -/
def IsElf (f : List UInt8) : Bool := f.take 4 == [0x7f, 69, 76, 70]

/-- `IsRVElf32`. -/
def IsRVElf32 (f : List UInt8) : Bool := IsElf f && f[4]? == some 1

/-- `IsRVElf64`. -/
def IsRVElf64 (f : List UInt8) : Bool := IsElf f && f[4]? == some 2

/-- `IsRVLittle`. -/
def IsRVLittle (f : List UInt8) : Bool := IsElf f && f[5]? == some 1

/-- `LoadElf` on the contents of the executable file. -/
def LoadElf (f : List UInt8) (L : RevLoader) : Load RevLoader := do
  fatalIf (f.length < 64)
  fatalIf (¬IsRVElf32 f ∧ ¬IsRVElf64 f)
  fatalIf (¬IsRVLittle f)
  let L ← (if IsRVElf32 f then LoadElf32 f L else LoadElf64 f L)
  let L ← L.LoadProgramArgs
  .ok { L with mem := L.mem.FenceMem 0 }

/-- The loader of a configuration: `RevLoader` is constructed on a memory with
    the given sizes. -/
def new (exe args : List UInt8) (lineSize : ℕ) (MemSize maxHeapSize tlbSize : UInt64)
    (ctrl : Option RevBasicMemCtrl) : RevLoader :=
  { exe, args, lineSize, mem := RevMem.new MemSize maxHeapSize tlbSize ctrl }

end RevLoader

namespace RevMem

/-- The stack pointer that `InitMainThread` and `CreateThread` give to a thread
    with the memory `seg`; `tp` is the top of the memory. -/
def threadSp (m : RevMem) (seg : MemSegment) : ℕ := (seg.getTopAddr + W64 - m.TLSSize) % W64

end RevMem

end RevCPU
