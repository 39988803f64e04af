import Mathlib.Logic.Function.Basic
import RevCPU.Faults.Config
import RevCPU.Faults.Masks
import RevCPU.Proc.RegFile

namespace RevCPU.Faults

open Lib

/-- What the faults of a `RevProc` work on; the register file is that of the
    hart that executes. -/
structure FaultProc where
  machine : Machine
  CrackFault : Bool := false
  ALUFault : Bool := false
  fault_width : ℕ := 0
  RegFile : RevRegFile
  regs : RegFile.IsRV32 = machine.feature.IsRV32 ∧ RegFile.HasD = machine.feature.RV_D

namespace FaultProc

/-- The register file with other contents. -/
def setRegs (p : FaultProc) (X FP : ℕ → UInt8) : FaultProc :=
  { p with RegFile := { p.RegFile with X, FP }, regs := p.regs }

/-- `HandleRegFault`; the picks are those of the register, of its class and of
    the value. -/
def HandleRegFault (p : FaultProc) (width reg cls bits : ℕ) : Option FaultProc :=
  let RegIdx := RevRand 31 reg
  if !p.machine.feature.RV_F || RevRand 1 cls ≠ 0 then
    if p.machine.feature.IsRV32 then
      (lowOnes 32 width).map fun max =>
        p.setRegs (orBytes p.RegFile.X (4 * RegIdx) 4 (RevRand max bits)) p.RegFile.FP
    else
      (lowOnes 64 width).map fun max =>
        p.setRegs (orBytes p.RegFile.X (8 * RegIdx) 8 (RevRand max bits)) p.RegFile.FP
  else if p.machine.feature.RV_D then
    (lowOnes 32 width).map fun max =>
      p.setRegs p.RegFile.X (orBytes p.RegFile.FP (8 * RegIdx) 8 (RevRand max bits))
  else
    (lowOnes 64 width).map fun max =>
      p.setRegs p.RegFile.X (orBytes p.RegFile.FP (4 * RegIdx) 4 (RevRand max bits))

def HandleCrackFault (p : FaultProc) (width : ℕ) : FaultProc :=
  { p with CrackFault := true, fault_width := width }

/-- `HandleALUFault`: the width becomes `true`. -/
def HandleALUFault (p : FaultProc) (_width : ℕ) : FaultProc :=
  { p with ALUFault := true, fault_width := 1 }

/-- The fetched word after a pending crack fault. -/
def decodeFault (p : FaultProc) (Inst : BitVec 32) (bits : ℕ) : Option (BitVec 32 × FaultProc) :=
  if p.CrackFault then
    (oneShl p.fault_width).map fun max =>
      (Inst ||| BitVec.ofNat 32 (RevRand max bits), { p with CrackFault := false })
  else some (Inst, p)

/-- `InjectALUFault` for an instruction of the extension. -/
def InjectALUFault (p : FaultProc) (ext : ExtName) (rd bits : ℕ) : Option FaultProc :=
  let faulted :=
    if ext = .RV64F ∨ ext = .RV64D then
      (lowOnes 64 p.fault_width).map fun max =>
        p.setRegs p.RegFile.X (orBytes p.RegFile.FP (8 * rd) 8 (RevRand max bits))
    else if ext = .RV32F ∨ ext = .RV32D then
      (zeroShl p.fault_width).map fun max =>
        p.setRegs p.RegFile.X (orBytes p.RegFile.FP (4 * rd) 4 (RevRand max bits))
    else
      (lowOnes 64 p.fault_width).map fun max =>
        p.setRegs (p.RegFile.SetX rd (RevRand max bits ||| p.RegFile.GetX rd)).X p.RegFile.FP
  faulted.map fun p => { p with ALUFault := false }

/-- The end of an instruction. -/
def retire (p : FaultProc) (ext : ExtName) (rd bits : ℕ) : Option FaultProc :=
  if p.ALUFault then p.InjectALUFault ext rd bits else some p

end FaultProc

/-- The address of a memory fault, an `unsigned`. -/
def pickNBytes (P : FaultParams) (addr : ℕ) : ℕ := RevRand ((P.memSize - 8).toNat) addr % 2 ^ 32

/-- `RevMem::HandleMemFault`; without `physMem`, and outside of it, the write is
    undefined. -/
def HandleMemFault (P : FaultParams) (mem : ℕ → UInt8) (width addr bits : ℕ) :
    Option (ℕ → UInt8) :=
  (oneShl width).bind fun max =>
    let NBytes := pickNBytes P addr
    if P.EnableMemH = false ∧ NBytes + 8 ≤ P.memSize.toNat then
      some (orBytes mem NBytes 8 (RevRand max bits))
    else none

/-- The numbers that an injection picks. -/
structure Picks where
  selector : ℕ := 0
  core : ℕ := 0
  reg : ℕ := 0
  cls : ℕ := 0
  addr : ℕ := 0
  bits : ℕ := 0
  deriving DecidableEq, Repr

/-- The state of the machine. -/
structure FaultCPU where
  FaultCntr : ℕ
  Procs : ℕ → FaultProc
  mem : ℕ → UInt8

/-- What happens to the machine. `tick` is the end of a `clockTick`, `decode` and
    `retire` are the stages of a core that faults reach, and `work` is everything
    else that writes registers and memory. -/
inductive FaultEvent
  | tick (k : Picks)
  | decode (core : ℕ) (Inst : BitVec 32) (bits : ℕ)
  | retire (core : ℕ) (ext : ExtName) (rd bits : ℕ)
  | work (X FP : ℕ → ℕ → UInt8) (mem : ℕ → UInt8)

namespace FaultCPU

/-- The machine before the first cycle. -/
def boot (P : FaultParams) : FaultCPU :=
  { FaultCntr := P.fault_width
    Procs := fun i =>
      { machine := P.machine i
        RegFile := { IsRV32 := (P.machine i).feature.IsRV32, HasD := (P.machine i).feature.RV_D,
                     X := fun _ => 0, FP := fun _ => 0, PC := 0 }
        regs := ⟨rfl, rfl⟩ }
    mem := fun _ => 0 }

def setProc (s : FaultCPU) (i : ℕ) (p : FaultProc) : FaultCPU :=
  { s with Procs := Function.update s.Procs i p }

/-- The core of an injection. -/
def pickCore (P : FaultParams) (k : Picks) : ℕ :=
  if P.numCores > 1 then RevRand (P.numCores - 1) k.core else 0

/-- The kind that `HandleFaultInjection` selects; `none` is a fatal error. -/
def pickKind (c : FaultCodes) (k : Picks) : Option FaultKind :=
  c.myfaults[if c.myfaults.length ≠ 1 then RevRand (c.myfaults.length - 1) k.selector else 0]?

/-- The injection of a fault of one kind. -/
def inject (P : FaultParams) (s : FaultCPU) (k : Picks) : FaultKind → Option FaultCPU
  | .crack =>
    let Core := pickCore P k
    some (s.setProc Core ((s.Procs Core).HandleCrackFault P.fault_width))
  | .mem => (HandleMemFault P s.mem P.fault_width k.addr k.bits).map fun mem => { s with mem }
  | .reg =>
    let Core := pickCore P k
    ((s.Procs Core).HandleRegFault P.fault_width k.reg k.cls k.bits).map (s.setProc Core)
  | .alu =>
    let Core := pickCore P k
    some (s.setProc Core ((s.Procs Core).HandleALUFault P.fault_width))

/-- The end of a `clockTick`. -/
def tick (P : FaultParams) (c : FaultCodes) (s : FaultCPU) (k : Picks) : Option FaultCPU :=
  if s.FaultCntr = 0 then
    ((pickKind c k).bind (s.inject P k)).map fun s => { s with FaultCntr := P.fault_width }
  else some { s with FaultCntr := s.FaultCntr - 1 }

/-- One step; `none` is undefined behaviour, or no step of the machine. -/
def step (P : FaultParams) (c : FaultCodes) (s : FaultCPU) : FaultEvent → Option FaultCPU
  | .tick k => s.tick P c k
  | .decode i Inst bits =>
    if i < P.numCores then
      ((s.Procs i).decodeFault Inst bits).map fun (_, p) => s.setProc i p
    else none
  | .retire i ext rd bits =>
    if i < P.numCores ∧ ext ∈ Extensions (P.machine i).feature ∧ rd < 32 then
      ((s.Procs i).retire ext rd bits).map (s.setProc i)
    else none
  | .work X FP mem => some { s with Procs := fun i => (s.Procs i).setRegs (X i) (FP i), mem }

end FaultCPU

end RevCPU.Faults
