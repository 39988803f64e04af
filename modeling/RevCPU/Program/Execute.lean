import RevCPU.Fetch.Faults
import RevCPU.Isa.Integer
import RevCPU.Proc.LoadStore

namespace RevCPU

open Isa

/-- The instruction as the functions of the loads and stores take it. -/
def Isa.RevInst.toProc (i : Isa.RevInst) : RevCPU.RevInst :=
  { opcode := i.opcode, funct3 := i.funct3, rd := i.rd, rs1 := i.rs1, rs2 := i.rs2, imm := i.imm,
    instSize := i.instSize, compressed := i.compressed, entry := i.entry }

namespace Program

section Functions

variable (R : RevRegFile) (Inst : Isa.RevInst)

def mul : RevRegFile := oper R Inst .multiplies .Reg

def mulh : RevRegFile := uppermul R Inst true true

def mulhsu : RevRegFile := uppermul R Inst true false

def mulhu : RevRegFile := uppermul R Inst false false

def div : Option RevRegFile := divrem R Inst .Div true

def divu : Option RevRegFile := divrem R Inst .Div false

def rem : Option RevRegFile := divrem R Inst .Rem true

def remu : Option RevRegFile := divrem R Inst .Rem false

def mulw : RevRegFile := oper R Inst .multiplies .Reg false true

def divw : Option RevRegFile := divrem R Inst .Div true true

def divuw : Option RevRegFile := divrem R Inst .Div false true

def remw : Option RevRegFile := divrem R Inst .Rem true true

def remuw : Option RevRegFile := divrem R Inst .Rem false true

end Functions

/-- The implementation functions of the M extension; in the result `none` is an
    undefined division of the host. -/
def mulDiv : Isa.ImplFunc → Option (RevRegFile → Isa.RevInst → Option RevRegFile)
  | .mul => some fun R i => some (mul R i)
  | .mulh => some fun R i => some (mulh R i)
  | .mulhsu => some fun R i => some (mulhsu R i)
  | .mulhu => some fun R i => some (mulhu R i)
  | .div => some div
  | .divu => some divu
  | .rem => some rem
  | .remu => some remu
  | .mulw => some fun R i => some (mulw R i)
  | .divw => some divw
  | .divuw => some divuw
  | .remw => some remw
  | .remuw => some remuw
  | _ => none

/-- The implementation function of an integer instruction, of the M extension,
    or of a load or store; `none` for the others. -/
def runFunc (f : Isa.RevFeature) (c : Core) (i : Isa.RevInst) (func : Isa.ImplFunc) : Option Core :=
  match integer func with
  | some g => some { c with R := g c.R i }
  | none =>
    match mulDiv func with
    | some g => (g c.R i).map fun R => { c with R }
    | none => func.loadStore.bind (c.runFunc f.toRevFeature i.toProc)

/-- The execution of a decoded instruction: the function of its table entry. -/
def execute (f : Isa.RevFeature) (c : Core) (i : Isa.RevInst) : Option Core :=
  (InstTable f)[i.entry]?.bind fun e => e.func.bind (runFunc f c i)

/-- A core with one hart on local memory, without a coprocessor. With costs of
    one an instruction retires in the tick in which it is issued, and with local
    memory its loads are complete then, so that no register is marked between two
    ticks. -/
structure OneHart where
  core : Core
  sfetch : RevPrefetcher

namespace OneHart

/-- The bytes of the memory, as the prefetcher reads them. -/
def bytes (s : OneHart) : ℕ → BitVec 8 := fun a => (s.core.M.view a).toBitVec

/-- A call of the prefetcher, with the reads that it makes. -/
def fetchCall (s : OneHart) (e : FetchEvent) : Option OneHart :=
  (MappedFetch.step s.bytes ⟨s.sfetch, s.core.M⟩ e).map fun p =>
    { core := { s.core with M := p.mem }, sfetch := p.pref }

/-- `PrefetchInst`. `buf` is the memory that the allocator gives to a new
    stream. -/
def PrefetchInst (s : OneHart) (buf : ℕ) : Option (Bool × OneHart) :=
  if s.core.R.PC = 0 then some (false, s)
  else
    match s.sfetch.IsAvail s.bytes 0 buf s.core.R.PC with
    | none => none
    | some (avail, _) => (s.fetchCall (.IsAvail 0 buf s.core.R.PC)).map fun s => (avail, s)

/-- `FetchAndDecodeInst`; `none` is a fatal error, which a word of 0 is too. -/
def FetchAndDecodeInst (f : Isa.RevFeature) (s : OneHart) (buf : ℕ) :
    Option (Isa.RevInst × OneHart) :=
  match s.sfetch.InstFetch s.bytes 0 buf s.core.R.PC with
  | none => none
  | some (res, _) =>
    if res.ret = false ∨ res.Inst = 0 then none
    else
      match s.fetchCall (.InstFetch 0 buf s.core.R.PC) with
      | none => none
      | some s => (Isa.DecodeInst f (fun _ => false) res.Inst.toNat).map fun i => (i, s)

/-- `ClockTick`, with the memory for the streams of its two calls of the
    prefetcher. -/
def ClockTick (f : Isa.RevFeature) (s : OneHart) (bufs : ℕ × ℕ) : Option OneHart :=
  match s.PrefetchInst bufs.1 with
  | none => none
  | some (false, s) => some s
  | some (true, s) =>
    match FetchAndDecodeInst f s bufs.2 with
    | none => none
    | some (i, s) => (execute f s.core i).map fun core => { s with core }

end OneHart

end Program

end RevCPU
