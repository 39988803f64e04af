import RevCPU.Opts.Settings

namespace RevCPU

open Lib

/-- The options that are set for single cores. -/
inductive OptKind
  | PrefetchDepth
  | StartAddrs
  | StartSymbols
  | MachineModels
  | InstTables
  | MemCosts
  deriving DecidableEq, Repr

namespace OptKind

open RevOpts

def init : OptKind → RevOpts → List (List Char) → Except OptFault (RevOpts × Bool)
  | PrefetchDepth => InitPrefetchDepth
  | StartAddrs => InitStartAddrs
  | StartSymbols => InitStartSymbols
  | MachineModels => InitMachineModels
  | InstTables => InitInstTables
  | MemCosts => InitMemCosts

/-- Whether the getter of an option returns `true`. -/
def get : OptKind → RevOpts → ℕ → Except OptFault Bool
  | PrefetchDepth, o, Core => (o.GetPrefetchDepth Core).map Option.isSome
  | StartAddrs, o, Core => (o.GetStartAddr Core).map Option.isSome
  | StartSymbols, o, Core => (o.GetStartSymbol Core).map Option.isSome
  | MachineModels, o, Core => (o.GetMachineModel Core).map Option.isSome
  | InstTables, o, Core => (o.GetInstTable Core).map Option.isSome
  | MemCosts, o, Core => (o.GetMemCost Core).map Option.isSome

/-- The number in the first field of an entry. -/
def core : OptKind → List Char → Except OptFault ℕ
  | PrefetchDepth => stoulUnsigned
  | _ => stoiUnsigned

/-- The core that an entry with the right number of fields names. -/
def names (k : OptKind) (s : List Char) : Option ℕ :=
  if k = MemCosts then
    match splitStr s ':' with
    | [c, _, _] => (k.core c).toOption
    | _ => none
  else
    match splitStr s ':' with
    | [c, _] => (k.core c).toOption
    | _ => none

/-- The costs in an entry of `InitMemCosts`. -/
def costs (s : List Char) : Option (ℕ × ℕ) :=
  match splitStr s ':' with
  | [_, a, b] =>
    (stoiUnsigned a).toOption.bind fun Min => (stoiUnsigned b).toOption.map fun Max => (Min, Max)
  | _ => none

/-- An entry of `InitMemCosts` with a zero. -/
def HasZero (s : List Char) : Prop := ∃ p, costs s = some p ∧ (p.1 = 0 ∨ p.2 = 0)

/-- An entry that is well formed and names one of `n` cores. -/
def Accepts (k : OptKind) (n : ℕ) (s : List Char) : Prop :=
  (∃ core < n, k.names s = some core) ∧ (k = MemCosts → ¬HasZero s)

/-- The value of `CORES` where the only entry sets an option of all cores. -/
def allCores (k : OptKind) (S : List (List Char)) : Option (List Char) :=
  match S with
  | [s] =>
    match splitStr s ':' with
    | [c, v] => if (k = StartAddrs ∨ k = MachineModels) ∧ c = ['C', 'O', 'R', 'E', 'S'] then some v else none
    | _ => none
  | _ => none

/-- The numbers of an entry are in the range of the types they are kept in. -/
def CoreInRange (k : OptKind) (c : List Char) : Prop :=
  if k = PrefetchDepth then ∃ n, stoul c = .ok n ∧ n < 2 ^ 32 else ∃ i, stoi c = .ok i

def ValueInRange (k : OptKind) (v : List Char) : Prop :=
  (k = PrefetchDepth → ∃ n, stoul v = .ok n ∧ n < 2 ^ 32) ∧
    (k = StartAddrs → ∃ n, stoul v = .ok n)

def EntryInRange (k : OptKind) (s : List Char) : Prop :=
  if k = MemCosts then
    ∀ c a b, splitStr s ':' = [c, a, b] →
      (∃ i, stoi c = .ok i) ∧ (∃ i, stoi a = .ok i) ∧ ∃ i, stoi b = .ok i
  else ∀ c v, splitStr s ':' = [c, v] → k.CoreInRange c ∧ k.ValueInRange v

def InRange (k : OptKind) (S : List (List Char)) : Prop :=
  (∀ v, k.allCores S = some v → k.ValueInRange v) ∧
    (k.allCores S = none → ∀ s ∈ S, k.EntryInRange s)

/-- The call ends without an access out of range and sets no option of a core
    from `numCores` on, an entry of such a core makes it return `false`, and an
    entry that makes it return `false` changes nothing. -/
structure CallOk (k : OptKind) (o : RevOpts) (S : List (List Char)) : Prop where
  bounded : ∃ o' ok, k.init o S = .ok (o', ok) ∧
    ∀ core, o.numCores ≤ core → o'.settings core = o.settings core
  refuses : ∀ pre s post o₁ core, S = pre ++ s :: post → k.init o pre = .ok (o₁, true) →
    k.names s = some core → o.numCores ≤ core →
      ∃ o₂, k.init o (pre ++ [s]) = .ok (o₂, false) ∧ k.init o S = .ok (o₂, false)
  atomic : ∀ pre s post o₁ o₂, S = pre ++ s :: post → k.init o pre = .ok (o₁, true) →
    k.init o (pre ++ [s]) = .ok (o₂, false) → ∀ core, o₂.settings core = o₁.settings core

/-- What the first entry `s` that is not accepted may be, after the entries
    `pre`: it does not name the core number `numCores`. An entry of
    `InitMemCosts` names a core below it, and if it has a zero then its costs are
    those that the core has from the start. -/
def Harmless (k : OptKind) (o : RevOpts) (pre : List (List Char)) (s : List Char) : Prop :=
  if k = MemCosts then
    ∀ core, k.names s = some core → core < o.numCores ∧
      (∀ t ∈ pre, k.names t ≠ some core) ∧ o.memCosts[core]? = costs s
  else k.names s ≠ some o.numCores

def HoldsWhen (k : OptKind) (o : RevOpts) (S : List (List Char)) : Prop :=
  ∀ pre s, FirstRefused (k.Accepts o.numCores) S pre s → k.Harmless o pre s

/-- The options after the accepted entries `pre`. -/
structure After (k : OptKind) (o : RevOpts) (pre : List (List Char)) (o₁ : RevOpts) : Prop where
  wf : o₁.Wf
  numCores : o₁.numCores = o.numCores
  others : ∀ core, (∀ t ∈ pre, k.names t ≠ some core) → o₁.settings core = o.settings core
  accepted : ∀ t ∈ pre, k.Accepts o.numCores t
  costs : k = MemCosts → ∀ t ∈ pre, ∀ core, k.names t = some core →
    ∃ p, o₁.memCosts[core]? = some p ∧ p.1 ≠ 0 ∧ p.2 ≠ 0

/-- The pass of a parser over an entry. -/
def entry : OptKind → RevOpts → List Char → Except OptFault (RevOpts × Bool)
  | PrefetchDepth => coreEntry stoulUnsigned stoulUnsigned setPrefetchDepth
  | StartAddrs => coreEntry stoiUnsigned stoul setStartAddr
  | StartSymbols => coreEntry stoiUnsigned .ok setStartSymbol
  | MachineModels => coreEntry stoiUnsigned .ok setMachineModel
  | InstTables => coreEntry stoiUnsigned .ok setInstTable
  | MemCosts => memCostEntry

/-- What the proofs use of the pass over an entry: an accepted one sets the
    option of its core, another one is refused without effect exactly if it is
    harmless. -/
structure EntrySpec (k : OptKind) (o : RevOpts) (s : List Char) : Prop where
  accepted : ∀ pre o₁, k.After o pre o₁ → k.Accepts o.numCores s →
    ∃ o', k.entry o₁ s = .ok (o', true) ∧ k.After o (pre ++ [s]) o'
  refused : ∀ pre o₁, k.After o pre o₁ → ¬k.Accepts o.numCores s → k.Harmless o pre s →
    ∃ o', k.entry o₁ s = .ok (o', false) ∧ ∀ core, o'.settings core = o₁.settings core
  harmless : ∀ pre o₁, k.After o pre o₁ → ¬k.Accepts o.numCores s →
    (∀ core, k.names s = some core → o.numCores ≤ core → ∃ o', k.entry o₁ s = .ok (o', false)) →
    (∀ o', k.entry o₁ s = .ok (o', false) → ∀ core, o'.settings core = o₁.settings core) →
      k.Harmless o pre s

section

variable {k : OptKind} {o o₁ : RevOpts} {S pre : List (List Char)} {s : List Char}

theorem After.start (hwf : o.Wf) : k.After o [] o where
  wf := hwf
  numCores := rfl
  others := fun _ _ => rfl
  accepted := by simp
  costs := by simp

theorem After.beyond (h : k.After o pre o₁) {core : ℕ} (hcore : o.numCores ≤ core) :
    o₁.settings core = o.settings core := by
  refine h.others core fun t ht hnames => ?_
  obtain ⟨⟨core', hlt, hcore'⟩, -⟩ := h.accepted t ht
  rw [hnames, Option.some.injEq] at hcore'
  omega

/-- The run over accepted entries. -/
theorem run_accepted (hwf : o.Wf) (hspec : ∀ s ∈ S, k.EntrySpec o s)
    (hpre : ∀ t ∈ pre, t ∈ S ∧ k.Accepts o.numCores t) :
    ∃ o', untilRefused k.entry pre o = .ok (o', true) ∧ k.After o pre o' :=
  untilRefused_accepted (fun t => t ∈ S ∧ k.Accepts o.numCores t) (k.After o)
    (fun pre t o₁ hI ht => (hspec t ht.1).accepted pre o₁ hI ht.2) (After.start hwf) hpre

/-- The entries that were passed were accepted, if none of them does harm. -/
theorem passed_accepted (hwf : o.Wf) (hspec : ∀ s ∈ S, k.EntrySpec o s) (hok : k.HoldsWhen o S)
    {post : List (List Char)} (hS : S = pre ++ post)
    (hrun : untilRefused k.entry pre o = .ok (o₁, true)) : k.After o pre o₁ := by
  have hsub : ∀ t ∈ pre, t ∈ S := fun t ht => by simp [hS, ht]
  rcases accepted_or_firstRefused (k.Accepts o.numCores) pre with hall | ⟨pre', s, hfirst⟩
  · obtain ⟨o', hrun', hafter⟩ := run_accepted hwf hspec fun t ht => ⟨hsub t ht, hall t ht⟩
    rw [hrun, Except.ok.injEq, Prod.mk.injEq] at hrun'
    rwa [hrun'.1]
  · have hharmless : k.Harmless o pre' s := hok pre' s (by rw [hS]; exact hfirst.append post)
    obtain ⟨post', rfl, haccepted, hs⟩ := hfirst
    obtain ⟨o', hrun', hafter⟩ := run_accepted hwf hspec fun t ht =>
      ⟨hsub t (by simp [ht]), haccepted t ht⟩
    obtain ⟨o₂, hentry, -⟩ := (hspec s (hsub s (by simp))).refused pre' o' hafter hs hharmless
    rw [untilRefused_refused hrun' hentry] at hrun
    simp at hrun

/-- The parser goes through the entries, whatever it is called with before. -/
def Plain (k : OptKind) (o : RevOpts) (S : List (List Char)) : Prop :=
  ∀ pre post, S = pre ++ post → k.init o pre = untilRefused k.entry pre o

theorem Plain.snoc (h : k.Plain o S) {post : List (List Char)} (hS : S = pre ++ s :: post)
    (hrun : untilRefused k.entry pre o = .ok (o₁, true)) :
    k.init o (pre ++ [s]) = k.entry o₁ s := by
  rw [h (pre ++ [s]) post (by simp [hS]), untilRefused_snoc hrun]

/-- An entry that is reached follows accepted ones, and one that is refused ends
    the call. -/
theorem reached (hwf : o.Wf) (hspec : ∀ s ∈ S, k.EntrySpec o s) (hplain : k.Plain o S)
    (hok : k.HoldsWhen o S) {post : List (List Char)} (hS : S = pre ++ s :: post)
    (hinit : k.init o pre = .ok (o₁, true)) :
    k.After o pre o₁ ∧ k.init o (pre ++ [s]) = k.entry o₁ s ∧
      ∀ o₂, k.entry o₁ s = .ok (o₂, false) → k.init o S = .ok (o₂, false) := by
  have hrun : untilRefused k.entry pre o = .ok (o₁, true) := by rw [← hplain pre _ hS, hinit]
  refine ⟨passed_accepted hwf hspec hok hS hrun, hplain.snoc hS hrun, fun o₂ hentry => ?_⟩
  rw [hplain S [] (by simp), hS, untilRefused_refused hrun hentry]

/-- A call without harm is bounded. -/
theorem bounded_of_holds (hwf : o.Wf) (hspec : ∀ s ∈ S, k.EntrySpec o s) (hok : k.HoldsWhen o S) :
    ∃ o' ok, untilRefused k.entry S o = .ok (o', ok) ∧
      ∀ core, o.numCores ≤ core → o'.settings core = o.settings core := by
  rcases accepted_or_firstRefused (k.Accepts o.numCores) S with hall | ⟨pre, s, hfirst⟩
  · obtain ⟨o', hrun, hafter⟩ := run_accepted hwf hspec fun t ht => ⟨ht, hall t ht⟩
    exact ⟨o', true, hrun, fun core hcore => hafter.beyond hcore⟩
  · have hharmless := hok pre s hfirst
    obtain ⟨post, hS, hpre, hs⟩ := hfirst
    obtain ⟨o₁, hrun, hafter⟩ := run_accepted hwf hspec fun t ht => ⟨by simp [hS, ht], hpre t ht⟩
    obtain ⟨o₂, hentry, hsame⟩ := (hspec s (by simp [hS])).refused pre o₁ hafter hs hharmless
    refine ⟨o₂, false, ?_, fun core hcore => ?_⟩
    · rw [hS, untilRefused_refused hrun hentry]
    · rw [hsame core, hafter.beyond hcore]

/-- The exact condition for a call that goes through the entries. -/
theorem callOk_iff_of_plain (hwf : o.Wf) (hspec : ∀ s ∈ S, k.EntrySpec o s)
    (hplain : k.Plain o S) : k.CallOk o S ↔ k.HoldsWhen o S := by
  constructor
  · rintro ⟨-, hrefuses, hatomic⟩ pre s ⟨post, hS, hpre, hs⟩
    obtain ⟨o₁, hrun, hafter⟩ := run_accepted hwf hspec fun t ht => ⟨by simp [hS, ht], hpre t ht⟩
    have hpass : k.init o (pre ++ [s]) = k.entry o₁ s := hplain.snoc hS hrun
    have hinit : k.init o pre = .ok (o₁, true) := by rw [hplain pre _ hS, hrun]
    refine (hspec s (by simp [hS])).harmless pre o₁ hafter hs ?_ ?_
    · intro core hcore hle
      obtain ⟨o₂, ho₂, -⟩ := hrefuses pre s post o₁ core hS hinit hcore hle
      exact ⟨o₂, by rw [← hpass, ho₂]⟩
    · intro o' ho'
      exact hatomic pre s post o₁ o' hS hinit (by rw [hpass, ho'])
  · intro hok
    refine ⟨?_, ?_, ?_⟩
    · rw [hplain S [] (by simp)]
      exact bounded_of_holds hwf hspec hok
    · intro pre s post o₁ core hS hinit hnames hle
      obtain ⟨hafter, hpass, hends⟩ := reached hwf hspec hplain hok hS hinit
      have hs : ¬k.Accepts o.numCores s := by
        rintro ⟨⟨core', hlt, hcore'⟩, -⟩
        rw [hnames, Option.some.injEq] at hcore'
        omega
      have hharmless := hok pre s ⟨post, hS, hafter.accepted, hs⟩
      obtain ⟨o₂, hentry, -⟩ := (hspec s (by simp [hS])).refused pre o₁ hafter hs hharmless
      exact ⟨o₂, by rw [hpass, hentry], hends o₂ hentry⟩
    · intro pre s post o₁ o₂ hS hinit hrefused
      obtain ⟨hafter, hpass, -⟩ := reached hwf hspec hplain hok hS hinit
      rw [hpass] at hrefused
      have hs : ¬k.Accepts o.numCores s := by
        intro hs
        obtain ⟨o', hentry, -⟩ := (hspec s (by simp [hS])).accepted pre o₁ hafter hs
        rw [hentry] at hrefused
        simp at hrefused
      have hharmless := hok pre s ⟨post, hS, hafter.accepted, hs⟩
      obtain ⟨o', hentry, hsame⟩ := (hspec s (by simp [hS])).refused pre o₁ hafter hs hharmless
      rw [hentry, Except.ok.injEq, Prod.mk.injEq] at hrefused
      rw [← hrefused.1]
      exact hsame

end

end OptKind

end RevCPU
