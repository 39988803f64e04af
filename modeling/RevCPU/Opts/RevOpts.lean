import RevCPU.Common
import RevCPU.Lib.Assoc
import RevCPU.Lib.Entries

namespace RevCPU

open Lib

/-- How a call of `RevOpts` ends without a result: a conversion of a field
    throws, `find` of a core that a map does not have is dereferenced, `at` of
    one throws, or a vector is accessed past its end. -/
inductive OptFault
  | conversion
  | deref_end
  | map_at
  | vector_index
  deriving DecidableEq, Repr

section

/-- The characters that `strtoul` skips. -/
def isspace (c : Char) : Bool := c == ' ' || ('\t' ≤ c && c ≤ '\r')

/-- The value of a digit of a numeral, 36 of another character. -/
def digitValue (c : Char) : ℕ :=
  if '0' ≤ c ∧ c ≤ '9' then c.toNat - 48
  else if 'a' ≤ c ∧ c ≤ 'z' then c.toNat - 87
  else if 'A' ≤ c ∧ c ≤ 'Z' then c.toNat - 55
  else 36

/-- The base that the first characters of a numeral select, and its digits. -/
def numeralBase : List Char → ℕ × List Char
  | '0' :: x :: d :: s =>
    if (x = 'x' ∨ x = 'X') ∧ digitValue d < 16 then (16, d :: s) else (8, '0' :: x :: d :: s)
  | '0' :: s => (8, '0' :: s)
  | s => (10, s)

/-- The sign of a numeral and what follows it. -/
def numeralSign : List Char → Bool × List Char
  | '-' :: s => (true, s)
  | '+' :: s => (false, s)
  | s => (false, s)

/-- The numeral that a string starts with, in base 0 of `strtoul`: whether it is
    negative and its magnitude. -/
def numeral (s : List Char) : Except OptFault (Bool × ℕ) :=
  let (neg, s) := numeralSign (s.dropWhile isspace)
  let (base, s) := numeralBase s
  let digits := s.takeWhile fun c => digitValue c < base
  if digits = [] then .error .conversion
  else .ok (neg, digits.foldl (fun n c => n * base + digitValue c) 0)

/-- `std::stoul` and `std::stoull` with base 0. -/
def stoul (s : List Char) : Except OptFault ℕ := do
  let (neg, n) ← numeral s
  if n < 2 ^ 64 then .ok (if neg then (2 ^ 64 - n) % 2 ^ 64 else n) else .error .conversion

/-- `std::stoi` with base 0. -/
def stoi (s : List Char) : Except OptFault ℤ := do
  let (neg, n) ← numeral s
  if neg then if n ≤ 2 ^ 31 then .ok (-(n : ℤ)) else .error .conversion
  else if n < 2 ^ 31 then .ok (n : ℤ) else .error .conversion

/-- `stoul` and `stoi` assigned to an `unsigned`. -/
def stoulUnsigned (s : List Char) : Except OptFault ℕ := (stoul s).map (· % 2 ^ 32)

def stoiUnsigned (s : List Char) : Except OptFault ℕ := (stoi s).map fun i => (i % ((2 ^ 32 : ℕ) : ℤ)).toNat

end

/-- The options of the cores. -/
structure RevOpts where
  numCores : ℕ
  startAddr : List (ℕ × ℕ)
  startSym : List (ℕ × List Char)
  machine : List (ℕ × List Char)
  table : List (ℕ × List Char)
  prefetchDepth : List (ℕ × ℕ)
  memCosts : List (ℕ × ℕ)

namespace RevOpts

/-- The constructor. -/
def new (numCores : ℕ) : RevOpts :=
  { numCores
    startAddr := (List.range numCores).map fun i => (i, 0)
    startSym := []
    machine := (List.range numCores).map fun i => (i, ['G'])
    table := (List.range numCores).map fun i => (i, "_REV_INTERNAL_".toList)
    prefetchDepth := (List.range numCores).map fun i => (i, 16)
    memCosts := List.replicate numCores (0, 10) }

/-- `splitStr` of `RevOpts`. -/
def splitStr (s : List Char) (c : Char) : List (List Char) := if s = [] then [] else s.splitOn c

/-- `find(Core)->second = v` and `at(Core) = v`, which differ in their fault. -/
def overwrite {β : Type} (fault : OptFault) (map : List (ℕ × β)) (Core : ℕ) (v : β) :
    Except OptFault (List (ℕ × β)) :=
  (assign Core v map).elim (.error fault) .ok

/-- The entry `Core:value` of an option: `value` converts the second field and
    `store` keeps it. -/
def coreEntry {β : Type} (core : List Char → Except OptFault ℕ)
    (value : List Char → Except OptFault β) (store : RevOpts → ℕ → β → Except OptFault RevOpts)
    (o : RevOpts) (s : List Char) : Except OptFault (RevOpts × Bool) :=
  match splitStr s ':' with
  | [c, v] => do
    let Core ← core c
    if Core > o.numCores then .ok (o, false)
    else do
      let x ← value v
      let o ← store o Core x
      .ok (o, true)
  | _ => .ok (o, false)

def setPrefetchDepth (o : RevOpts) (Core Depth : ℕ) : Except OptFault RevOpts := do
  let prefetchDepth ← overwrite .deref_end o.prefetchDepth Core Depth
  .ok { o with prefetchDepth }

def setStartAddr (o : RevOpts) (Core Addr : ℕ) : Except OptFault RevOpts := do
  let startAddr ← overwrite .deref_end o.startAddr Core Addr
  .ok { o with startAddr }

def setStartSymbol (o : RevOpts) (Core : ℕ) (v : List Char) : Except OptFault RevOpts :=
  .ok { o with startSym := insertNew Core v o.startSym }

def setMachineModel (o : RevOpts) (Core : ℕ) (v : List Char) : Except OptFault RevOpts := do
  let machine ← overwrite .map_at o.machine Core v
  .ok { o with machine }

def setInstTable (o : RevOpts) (Core : ℕ) (v : List Char) : Except OptFault RevOpts := do
  let table ← overwrite .map_at o.table Core v
  .ok { o with table }

/-- The entry `Core:Min:Max` of `InitMemCosts`. -/
def memCostEntry (o : RevOpts) (s : List Char) : Except OptFault (RevOpts × Bool) :=
  match splitStr s ':' with
  | [c, a, b] => do
    let Core ← stoiUnsigned c
    let Min ← stoiUnsigned a
    let Max ← stoiUnsigned b
    if Core < o.memCosts.length then
      .ok ({ o with memCosts := o.memCosts.set Core (Min, Max) }, !(Min == 0 || Max == 0))
    else .error .vector_index
  | _ => .ok (o, false)

/-- The options that take the entry `CORES:value`, as the only one, for all
    cores. -/
def initCores {β : Type} (value : List Char → Except OptFault β)
    (store : RevOpts → ℕ → β → Except OptFault RevOpts) (o : RevOpts) (S : List (List Char)) :
    Except OptFault (RevOpts × Bool) :=
  match S with
  | [s] =>
    match splitStr s ':' with
    | [c, v] =>
      if c = ['C', 'O', 'R', 'E', 'S'] then do
        let x ← value v
        let o ← Lib.loop (fun i o => store o i x) 0 o.numCores o
        .ok (o, true)
      else untilRefused (coreEntry stoiUnsigned value store) S o
    | _ => .ok (o, false)
  | S => untilRefused (coreEntry stoiUnsigned value store) S o

def InitPrefetchDepth (o : RevOpts) (Depths : List (List Char)) : Except OptFault (RevOpts × Bool) :=
  untilRefused (coreEntry stoulUnsigned stoulUnsigned setPrefetchDepth) Depths o

def InitStartAddrs (o : RevOpts) (StartAddrs : List (List Char)) :
    Except OptFault (RevOpts × Bool) :=
  initCores stoul setStartAddr o StartAddrs

def InitStartSymbols (o : RevOpts) (StartSymbols : List (List Char)) :
    Except OptFault (RevOpts × Bool) :=
  untilRefused (coreEntry stoiUnsigned .ok setStartSymbol) StartSymbols o

def InitMachineModels (o : RevOpts) (Machines : List (List Char)) :
    Except OptFault (RevOpts × Bool) :=
  initCores .ok setMachineModel o Machines

def InitInstTables (o : RevOpts) (InstTables : List (List Char)) :
    Except OptFault (RevOpts × Bool) :=
  untilRefused (coreEntry stoiUnsigned .ok setInstTable) InstTables o

def InitMemCosts (o : RevOpts) (MemCosts : List (List Char)) : Except OptFault (RevOpts × Bool) :=
  untilRefused memCostEntry MemCosts o

/-- The getters that look a core up before they read it; `none` where they
    return `false`. -/
def getFound {β : Type} (o : RevOpts) (map : List (ℕ × β)) (Core : ℕ) : Except OptFault (Option β) :=
  if Core > o.numCores then .ok none else .ok (map.lookup Core)

/-- Those that read it with `at`. -/
def getAt {β : Type} (o : RevOpts) (map : List (ℕ × β)) (Core : ℕ) : Except OptFault (Option β) :=
  if Core > o.numCores then .ok none
  else (map.lookup Core).elim (.error .map_at) fun v => .ok (some v)

def GetPrefetchDepth (o : RevOpts) (Core : ℕ) : Except OptFault (Option ℕ) :=
  o.getFound o.prefetchDepth Core

def GetStartAddr (o : RevOpts) (Core : ℕ) : Except OptFault (Option ℕ) :=
  o.getFound o.startAddr Core

def GetStartSymbol (o : RevOpts) (Core : ℕ) : Except OptFault (Option (List Char)) :=
  o.getFound o.startSym Core

def GetMachineModel (o : RevOpts) (Core : ℕ) : Except OptFault (Option (List Char)) :=
  o.getAt o.machine Core

def GetInstTable (o : RevOpts) (Core : ℕ) : Except OptFault (Option (List Char)) :=
  o.getAt o.table Core

def GetMemCost (o : RevOpts) (Core : ℕ) : Except OptFault (Option (ℕ × ℕ)) :=
  if Core > o.numCores then .ok none
  else o.memCosts[Core]?.elim (.error .vector_index) fun v => .ok (some v)

end RevOpts

end RevCPU
