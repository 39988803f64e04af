import RevCPU.Isa.Seed
import RevCPU.Opts.RevOpts

namespace RevCPU.Faults

open Lib

/-- `std::stoi` with base 10; `none` is an exception. -/
def stoi10 (s : List Char) : Option ℤ :=
  let (neg, s) := numeralSign (s.dropWhile isspace)
  let digits := s.takeWhile fun c => digitValue c < 10
  let n := digits.foldl (fun n c => n * 10 + digitValue c) 0
  if digits = [] then none
  else if neg then if n ≤ 2 ^ 31 then some (-(n : ℤ)) else none
  else if n < 2 ^ 31 then some (n : ℤ) else none

/-- The value of an integer as an `unsigned`. -/
def toUnsigned (i : ℤ) : ℕ := (i % ((2 ^ 32 : ℕ) : ℤ)).toNat

theorem toUnsigned_lt (i : ℤ) : toUnsigned i < 2 ^ 32 := by
  unfold toUnsigned
  omega

/-- `DecodeFaultWidth`; `none` is an exception or a fatal error. -/
def DecodeFaultWidth (width : String) : Option ℕ :=
  let fault_width :=
    if width = "single" then some 1
    else if width = "word" then some 8
    else (stoi10 width.toList).map toUnsigned
  fault_width.bind fun fault_width => if fault_width > 64 then none else some fault_width

/-- The kinds of faults that are enabled. -/
structure FaultCodes where
  EnableCrackFaults : Bool := false
  EnableMemFaults : Bool := false
  EnableRegFaults : Bool := false
  EnableALUFaults : Bool := false
  deriving DecidableEq, Repr

/-- One round of the loop of `DecodeFaultCodes`. -/
def FaultCodes.enable (c : FaultCodes) (fault : String) : Option FaultCodes :=
  if fault = "decode" then some { c with EnableCrackFaults := true }
  else if fault = "mem" then some { c with EnableMemFaults := true }
  else if fault = "reg" then some { c with EnableRegFaults := true }
  else if fault = "alu" then some { c with EnableALUFaults := true }
  else if fault = "all" then some ⟨true, true, true, true⟩
  else none

/-- `DecodeFaultCodes`; `none` is a fatal error. -/
def DecodeFaultCodes (faults : List String) : Option FaultCodes :=
  if faults = [] then none else faults.foldlM FaultCodes.enable {}

inductive FaultKind
  | crack | mem | reg | alu
  deriving DecidableEq, Repr

/-- The vector `myfaults` of `HandleFaultInjection`. -/
def FaultCodes.myfaults (c : FaultCodes) : List FaultKind :=
  (if c.EnableCrackFaults then [.crack] else []) ++ (if c.EnableMemFaults then [.mem] else []) ++
    (if c.EnableRegFaults then [.reg] else []) ++ (if c.EnableALUFaults then [.alu] else [])

/-- A feature set as `ParseMachineModel` makes it: D comes with F. -/
structure Machine where
  feature : Isa.RevFeature
  D_F : feature.RV_D = true → feature.RV_F = true

/-- The parameters of a simulation. -/
structure FaultParams where
  numCores : ℕ
  numCores_pos : 0 < numCores
  machine : ℕ → Machine
  memSize : UInt64
  EnableMemH : Bool
  faults : List String
  width : String
  range : ℤ

/-- The variable `fault_width`: the constructor stores the decoded width and then
    overwrites it with the range. -/
def FaultParams.fault_width (P : FaultParams) : ℕ := toUnsigned P.range

/-- The names of the extensions. -/
inductive ExtName
  | RV32I | RV64I | RV32M | RV64M | RV32A | RV64A | RV32F | RV64F | RV32D | RV64D | Zicbom
  deriving DecidableEq, Repr

/-- The extension of a name. -/
def ExtName.ext : ExtName → Isa.RevExt Isa.ImplFunc
  | RV32I => Isa.RV32I
  | RV64I => Isa.RV64I
  | RV32M => Isa.RV32M
  | RV64M => Isa.RV64M
  | RV32A => Isa.RV32A
  | RV64A => Isa.RV64A
  | RV32F => Isa.RV32F
  | RV64F => Isa.RV64F
  | RV32D => Isa.RV32D
  | RV64D => Isa.RV64D
  | Zicbom => Isa.Zicbom

open ExtName in
/-- The names of `Extensions`, in the order of the calls of `SeedInstTable`. -/
def Extensions (f : Isa.RevFeature) : List ExtName :=
  (if f.RV_I then if f.IsRV64 then [RV32I, RV64I] else [RV32I] else []) ++
  (if f.RV_M then RV32M :: (if f.IsRV64 then [RV64M] else []) else []) ++
  (if f.RV_A then RV32A :: (if f.IsRV64 then [RV64A] else []) else []) ++
  (if f.RV_F then if !f.RV_D && f.IsRV32 then [RV32F] else [RV32F, RV64F] else []) ++
  (if f.RV_D then RV32D :: (if f.IsRV64 then [RV64D] else []) else []) ++
  (if f.RV_ZICBOM then [Zicbom] else [])

theorem map_ite {α β : Type} (g : α → β) (b : Prop) [Decidable b] (xs ys : List α) :
    (if b then xs else ys).map g = if b then xs.map g else ys.map g := apply_ite (List.map g) b xs ys

theorem Extensions_ext (f : Isa.RevFeature) :
    (Extensions f).map ExtName.ext = (Isa.SeedInstTable f).map Prod.fst := by
  simp only [Extensions, Isa.SeedInstTable, List.map_append, map_ite, List.map_cons, List.map_nil,
    ExtName.ext]

theorem mem_ite {α : Type} {x : α} {b : Prop} [Decidable b] {xs ys : List α} :
    (x ∈ if b then xs else ys) ↔ b ∧ x ∈ xs ∨ ¬b ∧ x ∈ ys := by
  by_cases hb : b <;> simp [hb]

/-- The machines that have the extensions of floating-point numbers. -/
theorem RV32F_mem {f : Isa.RevFeature} : ExtName.RV32F ∈ Extensions f ↔ f.RV_F = true := by
  simp [Extensions, mem_ite]

theorem RV64F_mem {f : Isa.RevFeature} :
    ExtName.RV64F ∈ Extensions f ↔ f.RV_F = true ∧ ¬(f.IsRV32 = true ∧ f.RV_D = false) := by
  simp only [Extensions, mem_ite, List.mem_append]
  cases f.RV_D <;> cases f.IsRV32 <;> simp

theorem RV32D_mem {f : Isa.RevFeature} : ExtName.RV32D ∈ Extensions f ↔ f.RV_D = true := by
  simp [Extensions, mem_ite]

theorem RV64D_mem {f : Isa.RevFeature} :
    ExtName.RV64D ∈ Extensions f ↔ f.RV_D = true ∧ f.IsRV64 = true := by
  simp [Extensions, mem_ite]

end RevCPU.Faults
