import RevCPU.Opts.Bounded

namespace RevCPU

open Lib

namespace OptKind

open RevOpts

section

variable {β : Type} {k : OptKind} {value : List Char → Except OptFault β}
  {store : RevOpts → ℕ → β → Except OptFault RevOpts} {o : RevOpts} {s : List Char}

/-- The core that an entry with two fields names. -/
theorem names_fields (hk : k ≠ MemCosts) {c v : List Char} (hs : splitStr s ':' = [c, v]) :
    k.names s = (k.core c).toOption := by
  simp only [names, if_neg hk, hs]

theorem names_other (hk : k ≠ MemCosts) (hs : ∀ c v, splitStr s ':' ≠ [c, v]) :
    k.names s = none := by
  rw [names, if_neg hk]
  split
  · rename_i c v heq
    exact absurd heq (hs c v)
  · rfl

/-- The entries `Core:value`. -/
theorem entrySpec_core (hk : k ≠ MemCosts) (hstore : Storing store)
    (hentry : k.entry = coreEntry k.core value store)
    (hvalue : ∀ c v, splitStr s ':' = [c, v] → (∃ Core, k.core c = .ok Core) ∧ ∃ x, value v = .ok x) :
    k.EntrySpec o s := by
  by_cases hfields : ∃ c v, splitStr s ':' = [c, v]
  · obtain ⟨c, v, hs⟩ := hfields
    obtain ⟨⟨Core, hc⟩, x, hv⟩ := hvalue c v hs
    have hnames : k.names s = some Core := by
      rw [names_fields hk hs, hc]
      rfl
    have haccepts : k.Accepts o.numCores s ↔ Core < o.numCores := by
      simp [Accepts, hnames, hk]
    refine ⟨fun pre o₁ hafter hs' => ?_, fun pre o₁ hafter hs' hharmless => ?_,
      fun pre o₁ hafter hs' hrefuses _ => ?_⟩
    · have hlt := haccepts.mp hs'
      have hlt₁ : Core < o₁.numCores := by rwa [hafter.numCores]
      have hstored : ∃ o', coreEntry k.core value store o₁ s = .ok (o', true) ∧ SetAt o₁ o' Core :=
        hstore.accepted hafter.wf hs hc hv hlt₁
      obtain ⟨o', ho', hset⟩ := hstored
      refine ⟨o', by rw [hentry, ho'], hset.wf, hset.numCores.trans hafter.numCores, ?_, ?_, ?_⟩
      · intro core hcore
        have hne : core ≠ Core := by
          rintro rfl
          exact hcore s (by simp) hnames
        rw [hset.others core hne]
        exact hafter.others core fun t ht => hcore t (by simp [ht])
      · intro t ht
        rcases List.mem_append.mp ht with ht | ht
        · exact hafter.accepted t ht
        · rwa [List.mem_singleton.mp ht]
      · exact fun heq => absurd heq hk
    · refine ⟨o₁, ?_, fun _ => rfl⟩
      have hne : Core ≠ o.numCores := by
        rintro rfl
        simp [Harmless, hk, hnames] at hharmless
      have hgt : Core > o₁.numCores := by
        have hle := haccepts.not.mp hs'
        rw [hafter.numCores]
        omega
      rw [hentry, coreEntry_fields hs hc, if_pos hgt]
    · simp only [Harmless, if_neg hk, hnames, ne_eq, Option.some.injEq]
      rintro rfl
      obtain ⟨o', ho'⟩ := hrefuses _ hnames (Nat.le_refl _)
      rw [hentry] at ho'
      exact coreEntry_end hs (by rw [hafter.numCores, hc]) o' ho'
  · simp only [not_exists] at hfields
    have hnames := names_other hk hfields
    have hrefused : ∀ o₁, k.entry o₁ s = .ok (o₁, false) := by
      intro o₁
      rw [hentry, coreEntry_other hfields]
    refine ⟨fun pre o₁ hafter hs' => ?_, fun pre o₁ hafter hs' hharmless => ?_,
      fun pre o₁ hafter hs' hrefuses _ => ?_⟩
    · simp [Accepts, hnames] at hs'
    · exact ⟨o₁, hrefused o₁, fun _ => rfl⟩
    · simp [Harmless, hk, hnames]

/-- The fields of an entry of `InitMemCosts`. -/
theorem memCosts_fields {c a b : List Char} {Core Min Max : ℕ} (hs : splitStr s ':' = [c, a, b])
    (hc : stoiUnsigned c = .ok Core) (ha : stoiUnsigned a = .ok Min)
    (hb : stoiUnsigned b = .ok Max) :
    MemCosts.names s = some Core ∧ costs s = some (Min, Max) ∧
      memCostEntry o s =
        if Core < o.memCosts.length then
          .ok ({ o with memCosts := o.memCosts.set Core (Min, Max) }, !(Min == 0 || Max == 0))
        else .error .vector_index := by
  refine ⟨?_, ?_, ?_⟩
  · simp only [names, if_pos, hs, core, hc]
    rfl
  · simp only [costs, hs, ha, hb]
    rfl
  · simp only [memCostEntry, hs, hc, ha, hb]
    rfl

theorem memCosts_other (hs : ∀ c a b, splitStr s ':' ≠ [c, a, b]) :
    MemCosts.names s = none ∧ memCostEntry o s = .ok (o, false) := by
  refine ⟨?_, ?_⟩
  · rw [names, if_pos rfl]
    split
    · rename_i c a b heq
      exact absurd heq (hs c a b)
    · rfl
  · unfold memCostEntry
    split
    · rename_i c a b heq
      exact absurd heq (hs c a b)
    · rfl

/-- Storing the costs of a core. -/
theorem setAt_memCosts (hwf : o.Wf) (Core : ℕ) (p : ℕ × ℕ) :
    SetAt o { o with memCosts := o.memCosts.set Core p } Core where
  wf := { hwf with memCosts := by rw [List.length_set, hwf.memCosts] }
  numCores := rfl
  others := fun core hne => CoreSettings.ext rfl rfl rfl rfl rfl (List.getElem?_set_ne hne.symm)

/-- The entries `Core:Min:Max`. -/
theorem entrySpec_costs {c a b : List Char} {Core Min Max : ℕ} (hs : splitStr s ':' = [c, a, b])
    (hc : stoiUnsigned c = .ok Core) (ha : stoiUnsigned a = .ok Min)
    (hb : stoiUnsigned b = .ok Max) : MemCosts.EntrySpec o s := by
  obtain ⟨hnames, hcosts, -⟩ := memCosts_fields (o := o) hs hc ha hb
  have hzero : HasZero s ↔ Min = 0 ∨ Max = 0 := by simp [HasZero, hcosts]
  have haccepts : MemCosts.Accepts o.numCores s ↔ Core < o.numCores ∧ ¬(Min = 0 ∨ Max = 0) := by
    simp [Accepts, hnames, hzero]
  have hentry : ∀ {o₁ : RevOpts}, Core < o₁.memCosts.length → MemCosts.entry o₁ s =
      .ok ({ o₁ with memCosts := o₁.memCosts.set Core (Min, Max) }, !(Min == 0 || Max == 0)) := by
    intro o₁ hlt
    rw [entry, (memCosts_fields hs hc ha hb).2.2, if_pos hlt]
  have hset : ∀ {o₁ : RevOpts}, Core < o₁.memCosts.length →
      (o₁.memCosts.set Core (Min, Max))[Core]? = some (Min, Max) := fun hlt =>
    List.getElem?_set_self hlt
  refine ⟨fun pre o₁ hafter hs' => ?_, fun pre o₁ hafter hs' hharmless => ?_,
    fun pre o₁ hafter hs' hrefuses hsame => ?_⟩
  · obtain ⟨hlt, hpos⟩ := haccepts.mp hs'
    rw [← hafter.numCores, ← hafter.wf.memCosts] at hlt
    obtain ⟨hwf, hnum, hothers⟩ := setAt_memCosts hafter.wf Core (Min, Max)
    have hflag : (!(Min == 0 || Max == 0)) = true := by simpa using hpos
    refine ⟨_, (hentry hlt).trans (by rw [hflag]), hwf, hnum.trans hafter.numCores, ?_, ?_, ?_⟩
    · intro core hcore
      have hne : core ≠ Core := by
        rintro rfl
        exact hcore s (by simp) hnames
      rw [hothers core hne]
      exact hafter.others core fun t ht => hcore t (by simp [ht])
    · intro t ht
      rcases List.mem_append.mp ht with ht | ht
      · exact hafter.accepted t ht
      · rwa [List.mem_singleton.mp ht]
    · intro hk t ht core hcore
      by_cases hne : core = Core
      · rw [hne]
        exact ⟨(Min, Max), hset hlt, by simpa using hpos⟩
      · rcases List.mem_append.mp ht with ht | ht
        · obtain ⟨p, hp, hp0⟩ := hafter.costs hk t ht core hcore
          exact ⟨p, by rw [← hp]; exact List.getElem?_set_ne fun heq => hne heq.symm, hp0⟩
        · rw [List.mem_singleton.mp ht, hnames, Option.some.injEq] at hcore
          exact absurd hcore.symm hne
  · simp only [Harmless, if_pos] at hharmless
    obtain ⟨hlt, hfresh, hkept⟩ := hharmless Core hnames
    have hlen : Core < o₁.memCosts.length := by rwa [hafter.wf.memCosts, hafter.numCores]
    have hflag : (!(Min == 0 || Max == 0)) = false := by
      have hzero' : Min = 0 ∨ Max = 0 := by
        by_contra hpos
        exact hs' (haccepts.mpr ⟨hlt, hpos⟩)
      rw [Bool.not_eq_false', Bool.or_eq_true, beq_iff_eq, beq_iff_eq]
      exact hzero'
    refine ⟨_, (hentry hlen).trans (by rw [hflag]), fun core => ?_⟩
    by_cases hne : core = Core
    · have hcost := congrArg CoreSettings.memCost (hafter.others Core hfresh)
      simp only [settings] at hcost
      rw [hne]
      refine CoreSettings.ext rfl rfl rfl rfl rfl ?_
      simp only [settings]
      rw [hset hlen, hcost, hkept, hcosts]
    · exact (setAt_memCosts hafter.wf Core (Min, Max)).others core hne
  · simp only [Harmless, if_pos]
    intro core hcore
    obtain rfl : Core = core := by rwa [hnames, Option.some.injEq] at hcore
    have hlt : Core < o.numCores := by
      by_contra hle
      obtain ⟨o', ho'⟩ := hrefuses Core hnames (by omega)
      have hlen : ¬Core < o₁.memCosts.length := by rwa [hafter.wf.memCosts, hafter.numCores]
      rw [entry, (memCosts_fields hs hc ha hb).2.2, if_neg hlen] at ho'
      simp at ho'
    have hlen : Core < o₁.memCosts.length := by rwa [hafter.wf.memCosts, hafter.numCores]
    have hzero' : Min = 0 ∨ Max = 0 := by
      by_contra hpos
      exact hs' (haccepts.mpr ⟨hlt, hpos⟩)
    have hflag : (!(Min == 0 || Max == 0)) = false := by
      rw [Bool.not_eq_false', Bool.or_eq_true, beq_iff_eq, beq_iff_eq]
      exact hzero'
    have hcost := congrArg CoreSettings.memCost (hsame _ ((hentry hlen).trans (by rw [hflag])) Core)
    simp only [settings] at hcost
    rw [hset hlen] at hcost
    have hfresh : ∀ t ∈ pre, MemCosts.names t ≠ some Core := by
      intro t ht hnamed
      obtain ⟨p, hp, hp0⟩ := hafter.costs rfl t ht Core hnamed
      rw [← hcost, Option.some.injEq] at hp
      rw [← hp] at hp0
      simp only at hp0
      omega
    refine ⟨hlt, hfresh, ?_⟩
    have hstart := congrArg CoreSettings.memCost (hafter.others Core hfresh)
    simp only [settings] at hstart
    rw [← hstart, ← hcost, hcosts]

theorem entrySpec_memCosts (hrange : MemCosts.EntryInRange s) : MemCosts.EntrySpec o s := by
  by_cases hfields : ∃ c a b, splitStr s ':' = [c, a, b]
  · obtain ⟨c, a, b, hs⟩ := hfields
    simp only [EntryInRange, if_pos] at hrange
    obtain ⟨⟨i, hi⟩, ⟨x, hx⟩, ⟨y, hy⟩⟩ := hrange c a b hs
    have hunsigned : ∀ {t : List Char} {n : ℤ}, stoi t = .ok n →
        stoiUnsigned t = .ok (n % ((2 ^ 32 : ℕ) : ℤ)).toNat := by
      intro t n ht
      rw [stoiUnsigned, ht]
      rfl
    exact entrySpec_costs hs (hunsigned hi) (hunsigned hx) (hunsigned hy)
  · simp only [not_exists] at hfields
    have hnames : MemCosts.names s = none := (memCosts_other (o := o) hfields).1
    refine ⟨fun pre o₁ hafter hs' => ?_, fun pre o₁ hafter hs' hharmless => ?_,
      fun pre o₁ hafter hs' hrefuses _ => ?_⟩
    · simp [Accepts, hnames] at hs'
    · exact ⟨o₁, (memCosts_other hfields).2, fun _ => rfl⟩
    · simp [Harmless, hnames]

/-- The entries of an option in range. -/
theorem entrySpec_of_range (hrange : k.EntryInRange s) : k.EntrySpec o s := by
  have hstoul : ∀ {t : List Char} {n : ℕ}, stoul t = .ok n → stoulUnsigned t = .ok (n % 2 ^ 32) := by
    intro t n ht
    rw [stoulUnsigned, ht]
    rfl
  have hstoi : ∀ {t : List Char} {i : ℤ}, stoi t = .ok i →
      stoiUnsigned t = .ok (i % ((2 ^ 32 : ℕ) : ℤ)).toNat := by
    intro t i ht
    rw [stoiUnsigned, ht]
    rfl
  by_cases hk : k = MemCosts
  · subst hk
    exact entrySpec_memCosts hrange
  rw [EntryInRange, if_neg hk] at hrange
  cases k with
  | PrefetchDepth =>
    refine entrySpec_core hk storing_setPrefetchDepth rfl fun c v hs => ?_
    obtain ⟨⟨n, hn, -⟩, hv, -⟩ := hrange c v hs
    obtain ⟨d, hd, -⟩ := hv rfl
    exact ⟨⟨_, hstoul hn⟩, _, hstoul hd⟩
  | StartAddrs =>
    refine entrySpec_core hk storing_setStartAddr rfl fun c v hs => ?_
    obtain ⟨⟨i, hi⟩, -, hv⟩ := hrange c v hs
    exact ⟨⟨_, hstoi hi⟩, hv rfl⟩
  | StartSymbols =>
    refine entrySpec_core hk storing_setStartSymbol rfl fun c v hs => ?_
    obtain ⟨⟨i, hi⟩, -⟩ := hrange c v hs
    exact ⟨⟨_, hstoi hi⟩, v, rfl⟩
  | MachineModels =>
    refine entrySpec_core hk storing_setMachineModel rfl fun c v hs => ?_
    obtain ⟨⟨i, hi⟩, -⟩ := hrange c v hs
    exact ⟨⟨_, hstoi hi⟩, v, rfl⟩
  | InstTables =>
    refine entrySpec_core hk storing_setInstTable rfl fun c v hs => ?_
    obtain ⟨⟨i, hi⟩, -⟩ := hrange c v hs
    exact ⟨⟨_, hstoi hi⟩, v, rfl⟩
  | MemCosts => exact absurd rfl hk

theorem initCores_eq {S : List (List Char)}
    (h : ∀ t v, S = [t] → splitStr t ':' ≠ [['C', 'O', 'R', 'E', 'S'], v]) :
    initCores value store o S = untilRefused (coreEntry stoiUnsigned value store) S o := by
  unfold initCores
  split
  · rename_i t
    split
    · rename_i c v ht
      have hne : c ≠ ['C', 'O', 'R', 'E', 'S'] := by
        rintro rfl
        exact h t v rfl ht
      rw [if_neg hne]
    · rename_i hfields
      rw [untilRefused_cons, coreEntry_other hfields]
      rfl
  · rfl

/-- `CORES` is no number. -/
theorem stoi_cores (i : ℤ) : stoi ['C', 'O', 'R', 'E', 'S'] ≠ .ok i := by
  have herror : stoi ['C', 'O', 'R', 'E', 'S'] = .error .conversion := rfl
  rw [herror]
  simp

/-- Without `CORES` the parsers go through the entries. -/
theorem plain_of_range {S : List (List Char)} (hnone : k.allCores S = none) (hrange : k.InRange S) :
    k.Plain o S := by
  have hfields : ∀ pre post, S = pre ++ post → k = StartAddrs ∨ k = MachineModels →
      ∀ t v, pre = [t] → splitStr t ':' ≠ [['C', 'O', 'R', 'E', 'S'], v] := by
    rintro pre post hS hk t v rfl ht
    cases post with
    | nil => simp [hS, allCores, ht, hk] at hnone
    | cons u post =>
      have hentry := hrange.2 hnone t (by simp [hS])
      have hne : k ≠ MemCosts ∧ k ≠ PrefetchDepth := by
        rcases hk with rfl | rfl <;> decide
      rw [EntryInRange, if_neg hne.1] at hentry
      obtain ⟨hcore, -⟩ := hentry _ v ht
      rw [CoreInRange, if_neg hne.2] at hcore
      obtain ⟨i, hi⟩ := hcore
      exact stoi_cores i hi
  intro pre post hS
  cases k with
  | StartAddrs => exact initCores_eq (hfields pre post hS (.inl rfl))
  | MachineModels => exact initCores_eq (hfields pre post hS (.inr rfl))
  | _ => rfl

/-- `CORES` sets the option of the cores below `numCores` only. -/
theorem init_allCores {S : List (List Char)} {v : List Char} (hwf : o.Wf)
    (hall : k.allCores S = some v) (hrange : k.ValueInRange v) :
    ∃ t o', S = [t] ∧ k.names t = none ∧ k.init o S = .ok (o', true) ∧
      ∀ core, o.numCores ≤ core → o'.settings core = o.settings core := by
  unfold allCores at hall
  split at hall
  · rename_i t
    split at hall
    · rename_i c v' ht
      split at hall
      · rename_i hk
        obtain ⟨hk, rfl⟩ := hk
        obtain rfl := Option.some.inj hall
        have hnames : k.names t = none := by
          have hne : k ≠ MemCosts := by
            rintro rfl
            simp at hk
          rw [names_fields hne ht]
          rcases hk with rfl | rfl <;> rfl
        have hinit : ∀ {γ : Type} {value : List Char → Except OptFault γ}
            {store : RevOpts → ℕ → γ → Except OptFault RevOpts} {x : γ}, Storing store →
              value v' = .ok x → ∃ o', initCores value store o [t] = .ok (o', true) ∧
                ∀ core, o.numCores ≤ core → o'.settings core = o.settings core := by
          intro γ value store x hstore hx
          obtain ⟨o', hloop, -, -, hothers⟩ := hstore.cores x hwf (Nat.le_of_eq (Nat.zero_add _))
          refine ⟨o', ?_, hothers⟩
          simp only [initCores, ht, if_pos, hx]
          exact bind_eq_ok.mpr ⟨x, rfl, bind_eq_ok.mpr ⟨o', hloop, rfl⟩⟩
        rcases hk with rfl | rfl
        · obtain ⟨n, hn⟩ := hrange.2 rfl
          obtain ⟨o', ho', hothers⟩ := hinit storing_setStartAddr hn
          exact ⟨t, o', rfl, hnames, ho', hothers⟩
        · obtain ⟨o', ho', hothers⟩ := hinit storing_setMachineModel rfl
          exact ⟨t, o', rfl, hnames, ho', hothers⟩
      · simp at hall
    · simp at hall
  · simp at hall

/-- The exact condition for a call of a parser. -/
theorem callOk_iff {S : List (List Char)} (hwf : o.Wf) (hrange : k.InRange S) :
    k.CallOk o S ↔ k.HoldsWhen o S := by
  cases hall : k.allCores S with
  | none =>
    have hspec : ∀ t ∈ S, k.EntrySpec o t := fun t ht => entrySpec_of_range (hrange.2 hall t ht)
    exact callOk_iff_of_plain hwf hspec (plain_of_range hall hrange)
  | some v =>
    obtain ⟨t, o', rfl, hnames, hinit, hothers⟩ := init_allCores hwf hall (hrange.1 v hall)
    have honly : ∀ {pre post : List (List Char)} {u : List Char}, [t] = pre ++ u :: post →
        pre = [] ∧ u = t := by
      intro pre post u h
      cases pre with
      | nil => exact ⟨rfl, (List.cons.inj h).1.symm⟩
      | cons x pre => simp at h
    refine iff_of_true ⟨⟨o', true, hinit, hothers⟩, ?_, ?_⟩ ?_
    · intro pre u post o₁ core hS _ hcore
      obtain ⟨-, rfl⟩ := honly hS
      simp [hnames] at hcore
    · intro pre u post o₁ o₂ hS _ hrefused
      obtain ⟨rfl, rfl⟩ := honly hS
      rw [List.nil_append, hinit] at hrefused
      simp at hrefused
    · rintro pre u ⟨post, hS, -⟩
      obtain ⟨rfl, rfl⟩ := honly hS
      unfold Harmless
      split <;> simp [hnames]

end

/-- A getter returns `false` from the core number `numCores` on. -/
def GetOk (k : OptKind) (o : RevOpts) (Core : ℕ) : Prop :=
  o.numCores ≤ Core → k.get o Core = .ok false

def GetHoldsWhen (k : OptKind) (o : RevOpts) (Core : ℕ) : Prop :=
  Core = o.numCores → k = PrefetchDepth ∨ k = StartAddrs ∨
    k = StartSymbols ∧ o.startSym.lookup Core = none

theorem getOk_iff {k : OptKind} {o : RevOpts} (hwf : o.Wf) (Core : ℕ) :
    k.GetOk o Core ↔ k.GetHoldsWhen o Core := by
  rcases Nat.lt_trichotomy Core o.numCores with hlt | heq | hgt
  · exact iff_of_true (fun hle => by omega) (fun heq => by omega)
  · have hkeyed : ∀ {β : Type} {map : List (ℕ × β)}, Keyed o.numCores map →
        map.lookup Core = none := by
      intro β map hmap
      have hnot := (hmap Core).not.mpr (by omega)
      exact Option.not_isSome_iff_eq_none.mp hnot
    have hend : ¬Core > o.numCores := by omega
    have hget : k.GetOk o Core ↔ k.get o Core = .ok false := by
      simp [GetOk, heq]
    have hwhen : k.GetHoldsWhen o Core ↔ k = PrefetchDepth ∨ k = StartAddrs ∨
        k = StartSymbols ∧ o.startSym.lookup Core = none := by
      simp only [GetHoldsWhen, heq, forall_const]
    rw [hget, hwhen]
    cases k with
    | PrefetchDepth =>
      simp [get, GetPrefetchDepth, getFound, hend, hkeyed hwf.prefetchDepth, Except.map]
    | StartAddrs => simp [get, GetStartAddr, getFound, hend, hkeyed hwf.startAddr, Except.map]
    | StartSymbols => simp [get, GetStartSymbol, getFound, hend, Except.map]
    | MachineModels => simp [get, GetMachineModel, getAt, hend, hkeyed hwf.machine, Except.map]
    | InstTables => simp [get, GetInstTable, getAt, hend, hkeyed hwf.table, Except.map]
    | MemCosts =>
      have hnone : o.memCosts[Core]? = none :=
        List.getElem?_eq_none (by rw [hwf.memCosts]; omega)
      simp [get, GetMemCost, hend, hnone, Except.map]
  · refine iff_of_true (fun _ => ?_) (fun heq => by omega)
    cases k with
    | PrefetchDepth => simp [get, GetPrefetchDepth, getFound, hgt, Except.map]
    | StartAddrs => simp [get, GetStartAddr, getFound, hgt, Except.map]
    | StartSymbols => simp [get, GetStartSymbol, getFound, hgt, Except.map]
    | MachineModels => simp [get, GetMachineModel, getAt, hgt, Except.map]
    | InstTables => simp [get, GetInstTable, getAt, hgt, Except.map]
    | MemCosts => simp [get, GetMemCost, hgt, Except.map]

/-- A call that returns leaves every core with its options. -/
theorem init_wf {k : OptKind} {o o' : RevOpts} {S : List (List Char)} {ok : Bool} (hwf : o.Wf)
    (h : k.init o S = .ok (o', ok)) : o'.Wf ∧ o'.numCores = o.numCores := by
  have hentries : ∀ {β : Type} {core : List Char → Except OptFault ℕ}
      {value : List Char → Except OptFault β} {store : RevOpts → ℕ → β → Except OptFault RevOpts},
      Storing store → untilRefused (coreEntry core value store) S o = .ok (o', ok) →
        o'.Wf ∧ o'.numCores = o.numCores := by
    intro β core value store hstore hrun
    refine untilRefused_invariant (fun o₁ => o₁.Wf ∧ o₁.numCores = o.numCores) ?_ ⟨hwf, rfl⟩ hrun
    rintro o₁ t o₂ ok₂ ⟨hwf₁, hnum₁⟩ ht
    obtain ⟨hwf₂, hnum₂⟩ := hstore.entry_wf hwf₁ ht
    exact ⟨hwf₂, hnum₂.trans hnum₁⟩
  have hcores : ∀ {β : Type} {value : List Char → Except OptFault β}
      {store : RevOpts → ℕ → β → Except OptFault RevOpts}, Storing store →
        initCores value store o S = .ok (o', ok) → o'.Wf ∧ o'.numCores = o.numCores := by
    intro β value store hstore hrun
    unfold initCores at hrun
    split at hrun
    · split at hrun
      · split at hrun
        · obtain ⟨x, -, hrun⟩ := bind_eq_ok.mp hrun
          obtain ⟨o₁, hloop, hrun⟩ := bind_eq_ok.mp hrun
          obtain ⟨rfl, -⟩ := Prod.mk.inj (Except.ok.inj hrun)
          refine loop_invariant (fun _ o₁ => o₁.Wf ∧ o₁.numCores = o.numCores) ?_ ⟨hwf, rfl⟩ hloop
          rintro i o₂ o₃ ⟨hwf₂, hnum₂⟩ hstored
          exact ⟨(hstore.setAt hwf₂ hstored).wf, (hstore.setAt hwf₂ hstored).numCores.trans hnum₂⟩
        · exact hentries hstore hrun
      · obtain ⟨rfl, -⟩ := Prod.mk.inj (Except.ok.inj hrun)
        exact ⟨hwf, rfl⟩
    · exact hentries hstore hrun
  cases k with
  | PrefetchDepth => exact hentries storing_setPrefetchDepth h
  | StartAddrs => exact hcores storing_setStartAddr h
  | StartSymbols => exact hentries storing_setStartSymbol h
  | MachineModels => exact hcores storing_setMachineModel h
  | InstTables => exact hentries storing_setInstTable h
  | MemCosts =>
    refine untilRefused_invariant (fun o₁ => o₁.Wf ∧ o₁.numCores = o.numCores) ?_ ⟨hwf, rfl⟩ h
    rintro o₁ t o₂ ok₂ ⟨hwf₁, hnum₁⟩ ht
    unfold memCostEntry at ht
    split at ht
    · obtain ⟨Core, -, ht⟩ := bind_eq_ok.mp ht
      obtain ⟨Min, -, ht⟩ := bind_eq_ok.mp ht
      obtain ⟨Max, -, ht⟩ := bind_eq_ok.mp ht
      split at ht
      · obtain ⟨rfl, -⟩ := Prod.mk.inj (Except.ok.inj ht)
        exact ⟨(setAt_memCosts hwf₁ Core (Min, Max)).wf, hnum₁⟩
      · simp at ht
    · obtain ⟨rfl, -⟩ := Prod.mk.inj (Except.ok.inj ht)
      exact ⟨hwf₁, hnum₁⟩

end OptKind

namespace RevOpts

/-- The parsers as the steps of the options: a call that returns, with whatever
    it returns. -/
def step (o : RevOpts) (c : OptKind × List (List Char)) : Option RevOpts :=
  (c.1.init o c.2).toOption.map Prod.fst

/-- For the options after any calls, the exact condition for a call of a parser
    with numbers in range, and for a call of a getter. -/
theorem options_iff {n : ℕ} {tr : List (RevOpts × OptKind × List (List Char))} {o : RevOpts}
    (hrun : Run step (new n) tr o) (k : OptKind) :
    (∀ S, k.InRange S → (k.CallOk o S ↔ k.HoldsWhen o S)) ∧
      ∀ Core, k.GetOk o Core ↔ k.GetHoldsWhen o Core := by
  have hwf : o.Wf := by
    refine (hrun.invariant_of_step Wf (new_wf n) ?_).1
    intro o₁ c o₂ hwf hstep
    obtain ⟨⟨o', ok⟩, hinit, rfl⟩ := Option.map_eq_some_iff.mp hstep
    exact (OptKind.init_wf hwf (toOption_eq_some.mp hinit)).1
  exact ⟨fun S hrange => OptKind.callOk_iff hwf hrange, OptKind.getOk_iff hwf⟩

theorem startSymbol_in_range : OptKind.StartSymbols.InRange [['1', ':', 'a']] := by
  refine ⟨fun v hv => ?_, fun _ t ht => ?_⟩
  · have hnone : OptKind.StartSymbols.allCores [['1', ':', 'a']] = none := rfl
    rw [hnone] at hv
    simp at hv
  · obtain rfl := List.mem_singleton.mp ht
    intro c v hs
    have hfields : splitStr ['1', ':', 'a'] ':' = [['1'], ['a']] := rfl
    rw [hfields] at hs
    obtain ⟨rfl, rfl⟩ : ['1'] = c ∧ ['a'] = v := by simpa using hs
    exact ⟨⟨1, rfl⟩, by simp, by simp⟩

/-- The start symbol of the last of two cores. -/
theorem startSymbol_bounded : OptKind.StartSymbols.CallOk (new 2) [['1', ':', 'a']] := by
  refine ((options_iff Run.nil .StartSymbols).1 _ startSymbol_in_range).mpr ?_
  rintro pre s ⟨post, hS, -, hs⟩
  cases pre with
  | nil =>
    obtain ⟨rfl, -⟩ := List.cons.inj hS
    exact absurd ⟨⟨1, by decide, rfl⟩, by simp⟩ hs
  | cons t pre => simp at hS

theorem prefetchDepth_in_range : OptKind.PrefetchDepth.InRange [['2', ':', '5']] := by
  refine ⟨fun v hv => ?_, fun _ t ht => ?_⟩
  · have hnone : OptKind.PrefetchDepth.allCores [['2', ':', '5']] = none := rfl
    rw [hnone] at hv
    simp at hv
  · obtain rfl := List.mem_singleton.mp ht
    intro c v hs
    have hfields : splitStr ['2', ':', '5'] ':' = [['2'], ['5']] := rfl
    rw [hfields] at hs
    obtain ⟨rfl, rfl⟩ : ['2'] = c ∧ ['5'] = v := by simpa using hs
    exact ⟨⟨2, rfl, by decide⟩, fun _ => ⟨5, rfl, by decide⟩, by simp⟩

/-- With two cores the entry of a core number 2 passes the check, and the end of
    the map is dereferenced. -/
theorem prefetchDepth_past_end :
    OptKind.PrefetchDepth.InRange [['2', ':', '5']] ∧
      ¬OptKind.PrefetchDepth.CallOk (new 2) [['2', ':', '5']] := by
  refine ⟨prefetchDepth_in_range, fun hok => ?_⟩
  obtain ⟨o', ok, hinit, -⟩ := hok.bounded
  have hfault : OptKind.PrefetchDepth.init (new 2) [['2', ':', '5']] = .error .deref_end := rfl
  rw [hfault] at hinit
  simp at hinit

end RevOpts

end RevCPU
