import RevCPU.Lib.Scan

namespace RevCPU

open Lib

/-- What `ParseMachineModel` sets in a `RevFeature`. -/
structure MachineModel where
  xlen : ℕ
  features : UInt32
  deriving DecidableEq, Repr

namespace MachineModel

/-- The flags of `RevFeatureType`. -/
def RV_UNKNOWN : UInt32 := 0
def RV_E : UInt32 := (1 : UInt32) <<< 0
def RV_I : UInt32 := (1 : UInt32) <<< 1
def RV_M : UInt32 := (1 : UInt32) <<< 2
def RV_A : UInt32 := (1 : UInt32) <<< 3
def RV_F : UInt32 := (1 : UInt32) <<< 4
def RV_D : UInt32 := (1 : UInt32) <<< 5
def RV_Q : UInt32 := (1 : UInt32) <<< 6
def RV_L : UInt32 := (1 : UInt32) <<< 7
def RV_C : UInt32 := (1 : UInt32) <<< 8
def RV_B : UInt32 := (1 : UInt32) <<< 9
def RV_J : UInt32 := (1 : UInt32) <<< 10
def RV_T : UInt32 := (1 : UInt32) <<< 11
def RV_P : UInt32 := (1 : UInt32) <<< 12
def RV_V : UInt32 := (1 : UInt32) <<< 13
def RV_N : UInt32 := (1 : UInt32) <<< 14
def RV_ZICSR : UInt32 := (1 : UInt32) <<< 15
def RV_ZIFENCEI : UInt32 := (1 : UInt32) <<< 16
def RV_ZAM : UInt32 := (1 : UInt32) <<< 17
def RV_ZTSO : UInt32 := (1 : UInt32) <<< 18
def RV_ZFA : UInt32 := (1 : UInt32) <<< 19
def RV_ZICBOM : UInt32 := (1 : UInt32) <<< 20

/-- The characters of a string in front of its first NUL: `c_str`. -/
def c_str (machine : List Char) : List Char := machine.takeWhile (· ≠ '\x00')

/-- Whether `strncasecmp` on two C strings is zero. -/
def strncasecmp : List Char → List Char → ℕ → Bool
  | _, _, 0 => true
  | [], [], _ + 1 => true
  | a :: as, b :: bs, n + 1 => a.toLower == b.toLower && strncasecmp as bs n
  | _, _, _ + 1 => false

/-- The table of `ParseMachineModel`. -/
def table : List (List Char × UInt32) :=
  [ ("E".toList, RV_E),
    ("I".toList, RV_I),
    ("M".toList, RV_M),
    ("A".toList, RV_A),
    ("F".toList, RV_F ||| RV_ZICSR),
    ("D".toList, RV_D ||| RV_F ||| RV_ZICSR),
    ("G".toList, RV_I ||| RV_M ||| RV_A ||| RV_F ||| RV_D ||| RV_ZICSR ||| RV_ZIFENCEI),
    ("Q".toList, RV_Q ||| RV_D ||| RV_F ||| RV_ZICSR),
    ("L".toList, RV_L),
    ("C".toList, RV_C),
    ("B".toList, RV_B),
    ("J".toList, RV_J),
    ("T".toList, RV_T),
    ("P".toList, RV_P),
    ("V".toList, RV_V ||| RV_D ||| RV_F ||| RV_ZICSR),
    ("N".toList, RV_N),
    ("Zicsr".toList, RV_ZICSR),
    ("Zifencei".toList, RV_ZIFENCEI),
    ("Zam".toList, RV_ZAM ||| RV_A),
    ("Ztso".toList, RV_ZTSO),
    ("Zfa".toList, RV_ZFA ||| RV_F ||| RV_ZICSR),
    ("Zicbom".toList, RV_ZICBOM) ]

/-- The loop of `ParseMachineModel` over the table. -/
def walkTable : List (List Char × UInt32) → List Char → UInt32 → Option UInt32
  | [], _, _ => none
  | tab :: rest, mac, features =>
    if strncasecmp mac tab.1 tab.1.length then
      let features := features ||| tab.2
      let mac := (mac.drop tab.1.length).dropWhile (· == '_')
      if mac = [] then some features else walkTable rest mac features
    else walkTable rest mac features

/-- The second step of `ParseMachineModel`: the features. -/
def parseFeatures (xlen : ℕ) (mac : List Char) : Option MachineModel :=
  if mac ≠ [] then (walkTable table mac RV_UNKNOWN).map fun features => ⟨xlen, features⟩ else none

/-- `ParseMachineModel`; `none` stands for the result false. -/
def ParseMachineModel (machine : List Char) : Option MachineModel :=
  let mac := c_str machine
  if strncasecmp mac "RV32".toList 4 then parseFeatures 32 (mac.drop 4)
  else if strncasecmp mac "RV64".toList 4 then parseFeatures 64 (mac.drop 4)
  else none

theorem strncasecmp_iff (mac name : List Char) :
    strncasecmp mac name name.length = true ↔ name.map Char.toLower <+: mac.map Char.toLower := by
  induction name generalizing mac with
  | nil => simp [strncasecmp]
  | cons c name ih =>
    cases mac with
    | nil => simp [strncasecmp]
    | cons d mac =>
      simp only [List.length_cons, strncasecmp, Bool.and_eq_true, beq_iff_eq, List.map_cons,
        List.cons_prefix_cons, ih]
      exact and_congr_left fun _ => eq_comm

theorem walkTable_eq_scan (tab : List (List Char × UInt32)) (mac : List Char) (features : UInt32) :
    walkTable tab mac features =
      scan Char.toLower (· == '_') (fun f g => f ||| g) tab mac features := by
  induction tab generalizing mac features with
  | nil => rfl
  | cons e tab ih => simp only [walkTable, scan, strncasecmp_iff, ih]

theorem table_prefixFree : PrefixFree Char.toLower (· == '_') table where
  free := by decide
  head := by
    have hhead : ∀ e ∈ table, (e.1.head?.map Char.toLower).isSome ∧
        e.1.head?.map Char.toLower ≠ some '_' := by decide
    intro e he
    obtain ⟨hsome, hne⟩ := hhead e he
    cases hname : e.1 with
    | nil => simp [hname] at hsome
    | cons a as =>
      refine ⟨a, as, rfl, fun b hb => ?_⟩
      rw [beq_eq_false_iff_ne]
      rintro rfl
      rw [hname, List.head?_cons, Option.map_some, ← hb] at hne
      exact hne (by decide)

/-- The grammar of machine models: the name of an instruction set, then names of
    extensions with underscores after them, without regard to case. -/
def Spelled (isa : List Char) (es : List (List Char × UInt32)) (machine : List Char) : Prop :=
  ∃ pre body, machine = pre ++ body ∧ pre.map Char.toLower = isa.map Char.toLower ∧
    Spells Char.toLower (· == '_') es body

theorem spelled_iff {isa machine : List Char} {es : List (List Char × UInt32)} :
    Spelled isa es machine ↔ isa.map Char.toLower <+: machine.map Char.toLower ∧
      Spells Char.toLower (· == '_') es (machine.drop isa.length) := by
  constructor
  · rintro ⟨pre, body, rfl, hpre, hbody⟩
    have hlength : pre.length = isa.length := by simpa using congrArg List.length hpre
    rw [List.map_append, hpre, ← hlength, List.drop_left]
    exact ⟨List.prefix_append _ _, hbody⟩
  · rintro ⟨hbegins, hbody⟩
    refine ⟨machine.take isa.length, _, (List.take_append_drop ..).symm, ?_, hbody⟩
    have htake := List.prefix_iff_eq_take.mp hbegins
    rw [List.length_map, ← List.map_take] at htake
    exact htake.symm

/-- The set of features of a list of extensions. -/
def flags (es : List (List Char × UInt32)) : UInt32 := es.foldl (fun f e => f ||| e.2) RV_UNKNOWN

theorem c_str_eq {machine : List Char} (hnul : '\x00' ∉ machine) : c_str machine = machine := by
  refine List.takeWhile_eq_self_iff.mpr fun c hc => ?_
  have hne : c ≠ '\x00' := fun h => hnul (h ▸ hc)
  simpa using hne

/-- The part of `ParseMachineModel` after the name of the instruction set. -/
theorem walkTable_iff {mac : List Char} {features : UInt32} :
    walkTable table mac RV_UNKNOWN = some features ↔
      ∃ es, es ≠ [] ∧ es.Sublist table ∧ Spells Char.toLower (· == '_') es mac ∧
        features = flags es := by
  rw [walkTable_eq_scan, scan_eq_some_iff table_prefixFree]
  rfl

theorem parseFeatures_iff {xlen : ℕ} {mac : List Char} {f : MachineModel} :
    parseFeatures xlen mac = some f ↔
      f.xlen = xlen ∧ ∃ es, es ≠ [] ∧ es.Sublist table ∧ f.features = flags es ∧
        Spells Char.toLower (· == '_') es mac := by
  have hnone : walkTable table [] RV_UNKNOWN = none := by decide
  have hmap : parseFeatures xlen mac =
      (walkTable table mac RV_UNKNOWN).map fun features => ⟨xlen, features⟩ := by
    unfold parseFeatures
    split
    · rfl
    · rename_i hempty
      rw [not_not.mp hempty, hnone]
      rfl
  rw [hmap, Option.map_eq_some_iff]
  constructor
  · rintro ⟨features, hwalk, rfl⟩
    obtain ⟨es, hne, hes, hspells, rfl⟩ := walkTable_iff.mp hwalk
    exact ⟨rfl, es, hne, hes, rfl, hspells⟩
  · rintro ⟨rfl, es, hne, hes, hflags, hspells⟩
    exact ⟨f.features, walkTable_iff.mpr ⟨es, hne, hes, hspells, hflags⟩, rfl⟩

/-- `ParseMachineModel` accepts exactly the machine models of the grammar, with the
    extensions in the order of the table. -/
theorem ParseMachineModel_iff {machine : List Char} (hnul : '\x00' ∉ machine) {f : MachineModel} :
    ParseMachineModel machine = some f ↔
      ∃ es, es ≠ [] ∧ es.Sublist table ∧ f.features = flags es ∧
        (f.xlen = 32 ∧ Spelled "RV32".toList es machine ∨
          f.xlen = 64 ∧ Spelled "RV64".toList es machine) := by
  have h32 : strncasecmp machine "RV32".toList 4 = true ↔
      "RV32".toList.map Char.toLower <+: machine.map Char.toLower := strncasecmp_iff machine _
  have h64 : strncasecmp machine "RV64".toList 4 = true ↔
      "RV64".toList.map Char.toLower <+: machine.map Char.toLower := strncasecmp_iff machine _
  have hclash : "RV32".toList.map Char.toLower <+: machine.map Char.toLower →
      ¬"RV64".toList.map Char.toLower <+: machine.map Char.toLower := by
    intro hb hb'
    rcases List.prefix_or_prefix_of_prefix hb hb' with h | h
    · exact absurd h (by decide)
    · exact absurd h (by decide)
  unfold ParseMachineModel
  simp only [c_str_eq hnul, h32, h64, spelled_iff]
  split
  · rename_i hb
    have hb' := hclash hb
    rw [parseFeatures_iff]
    constructor
    · rintro ⟨hxlen, es, hne, hes, hflags, hspells⟩
      exact ⟨es, hne, hes, hflags, .inl ⟨hxlen, hb, hspells⟩⟩
    · rintro ⟨es, hne, hes, hflags, ⟨hxlen, -, hspells⟩ | ⟨-, hb64, -⟩⟩
      · exact ⟨hxlen, es, hne, hes, hflags, hspells⟩
      · exact absurd hb64 hb'
  · rename_i hnot
    split
    · rename_i hb
      rw [parseFeatures_iff]
      constructor
      · rintro ⟨hxlen, es, hne, hes, hflags, hspells⟩
        exact ⟨es, hne, hes, hflags, .inr ⟨hxlen, hb, hspells⟩⟩
      · rintro ⟨es, hne, hes, hflags, ⟨-, hb32, -⟩ | ⟨hxlen, -, hspells⟩⟩
        · exact absurd hb32 hnot
        · exact ⟨hxlen, es, hne, hes, hflags, hspells⟩
    · rename_i hnot'
      constructor
      · intro h
        cases h
      · rintro ⟨es, -, -, -, ⟨-, hb32, -⟩ | ⟨-, hb64, -⟩⟩
        · exact absurd hb32 hnot
        · exact absurd hb64 hnot'

theorem rv64gc_accepted :
    ∃ es : List (List Char × UInt32), es.Sublist table ∧ Spelled "RV64".toList es "rv64G_c".toList ∧
      ParseMachineModel "rv64G_c".toList = some ⟨64, flags es⟩ := by
  have hparse : ParseMachineModel "rv64G_c".toList = some ⟨64, 0x1813e⟩ := by decide
  obtain ⟨es, -, hes, hflags, ⟨hxlen, -⟩ | ⟨-, hspelled⟩⟩ :=
    (ParseMachineModel_iff (by decide)).mp hparse
  · exact absurd hxlen (by decide)
  · refine ⟨es, hes, hspelled, ?_⟩
    rw [hparse]
    exact congrArg (fun fs => some (MachineModel.mk 64 fs)) hflags

end MachineModel

end RevCPU
