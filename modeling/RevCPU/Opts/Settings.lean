import RevCPU.Lib.Run
import RevCPU.Opts.RevOpts

namespace RevCPU

open Lib

/-- What is kept for one core. -/
@[ext] structure CoreSettings where
  startAddr : Option ℕ
  startSym : Option (List Char)
  machine : Option (List Char)
  table : Option (List Char)
  prefetchDepth : Option ℕ
  memCost : Option (ℕ × ℕ)

namespace RevOpts

def settings (o : RevOpts) (core : ℕ) : CoreSettings where
  startAddr := o.startAddr.lookup core
  startSym := o.startSym.lookup core
  machine := o.machine.lookup core
  table := o.table.lookup core
  prefetchDepth := o.prefetchDepth.lookup core
  memCost := o.memCosts[core]?

/-- A map has exactly the cores as its keys. -/
def Keyed {β : Type} (n : ℕ) (map : List (ℕ × β)) : Prop :=
  ∀ core, (map.lookup core).isSome = true ↔ core < n

/-- Every core has its options, all but the start symbol, which is optional. -/
structure Wf (o : RevOpts) : Prop where
  startAddr : Keyed o.numCores o.startAddr
  machine : Keyed o.numCores o.machine
  table : Keyed o.numCores o.table
  prefetchDepth : Keyed o.numCores o.prefetchDepth
  memCosts : o.memCosts.length = o.numCores

/-- The options after a call that sets those of the core `Core`. -/
structure SetAt (o o' : RevOpts) (Core : ℕ) : Prop where
  wf : o'.Wf
  numCores : o'.numCores = o.numCores
  others : ∀ core, core ≠ Core → o'.settings core = o.settings core

theorem keyed_range {β : Type} (n : ℕ) (v : β) :
    Keyed n ((List.range n).map fun i => (i, v)) := by
  intro core
  induction n with
  | zero => simp
  | succ n ih =>
    rw [List.range_succ, List.map_append, List.lookup_append, Option.isSome_or, Bool.or_eq_true, ih,
      List.map_singleton, List.lookup_cons]
    by_cases hcore : core = n
    · simp [hcore]
    · have hbeq : (core == n) = false := beq_false_of_ne hcore
      simp only [hbeq, List.lookup_nil, Option.isSome_none, Bool.false_eq_true, or_false]
      omega

theorem new_wf (n : ℕ) : (new n).Wf where
  startAddr := keyed_range n 0
  machine := keyed_range n _
  table := keyed_range n _
  prefetchDepth := keyed_range n 16
  memCosts := List.length_replicate

section

variable {β : Type} {fault : OptFault} {map map' : List (ℕ × β)} {n Core : ℕ} {v : β}

theorem overwrite_eq_ok :
    overwrite fault map Core v = .ok map' ↔ assign Core v map = some map' := by
  unfold overwrite
  cases assign Core v map <;> simp

theorem overwrite_exists (hkeyed : Keyed n map) (hCore : Core < n) :
    ∃ map', overwrite fault map Core v = .ok map' := by
  have hsome : (assign Core v map).isSome = true := by
    rw [assign_isSome]
    exact (hkeyed Core).mpr hCore
  obtain ⟨map', hmap'⟩ := Option.isSome_iff_exists.mp hsome
  exact ⟨map', overwrite_eq_ok.mpr hmap'⟩

theorem overwrite_ne (h : overwrite fault map Core v = .ok map') {core : ℕ} (hne : core ≠ Core) :
    map'.lookup core = map.lookup core := by
  rw [lookup_assign (overwrite_eq_ok.mp h), if_neg hne]

theorem Keyed.overwrite (hkeyed : Keyed n map) (h : RevOpts.overwrite fault map Core v = .ok map') :
    Keyed n map' := by
  intro core
  by_cases hne : core = Core
  · have hassign := overwrite_eq_ok.mp h
    have hthere : (map.lookup Core).isSome = true := by
      rw [← assign_isSome Core v, hassign]
      rfl
    rw [hne, lookup_assign hassign, if_pos rfl, ← hkeyed Core]
    exact iff_of_true rfl hthere
  · rw [overwrite_ne h hne]
    exact hkeyed core

end

/-- What a parser relies on: an option is stored for the cores there are, and
    nothing else changes. -/
structure Storing {β : Type} (store : RevOpts → ℕ → β → Except OptFault RevOpts) : Prop where
  total : ∀ {o : RevOpts} {Core : ℕ} (x : β), o.Wf → Core < o.numCores → ∃ o', store o Core x = .ok o'
  setAt : ∀ {o o' : RevOpts} {Core : ℕ} {x : β}, o.Wf → store o Core x = .ok o' → SetAt o o' Core

theorem storing_setPrefetchDepth : Storing setPrefetchDepth where
  total := by
    intro o Core x hwf hCore
    obtain ⟨map', h⟩ := overwrite_exists hwf.prefetchDepth hCore
    exact ⟨_, by rw [setPrefetchDepth, h]; rfl⟩
  setAt := by
    intro o o' Core x hwf h
    obtain ⟨map', hmap', h⟩ := bind_eq_ok.mp h
    obtain rfl := Except.ok.inj h
    exact ⟨{ hwf with prefetchDepth := hwf.prefetchDepth.overwrite hmap' }, rfl,
      fun core hne => CoreSettings.ext rfl rfl rfl rfl (overwrite_ne hmap' hne) rfl⟩

theorem storing_setStartAddr : Storing setStartAddr where
  total := by
    intro o Core x hwf hCore
    obtain ⟨map', h⟩ := overwrite_exists hwf.startAddr hCore
    exact ⟨_, by rw [setStartAddr, h]; rfl⟩
  setAt := by
    intro o o' Core x hwf h
    obtain ⟨map', hmap', h⟩ := bind_eq_ok.mp h
    obtain rfl := Except.ok.inj h
    exact ⟨{ hwf with startAddr := hwf.startAddr.overwrite hmap' }, rfl,
      fun core hne => CoreSettings.ext (overwrite_ne hmap' hne) rfl rfl rfl rfl rfl⟩

theorem storing_setStartSymbol : Storing setStartSymbol where
  total := fun _ _ _ => ⟨_, rfl⟩
  setAt := by
    intro o o' Core x hwf h
    obtain rfl := Except.ok.inj h
    exact ⟨{ hwf with }, rfl,
      fun core hne => CoreSettings.ext rfl (lookup_insertNew_ne hne x o.startSym) rfl rfl rfl rfl⟩

theorem storing_setMachineModel : Storing setMachineModel where
  total := by
    intro o Core x hwf hCore
    obtain ⟨map', h⟩ := overwrite_exists hwf.machine hCore
    exact ⟨_, by rw [setMachineModel, h]; rfl⟩
  setAt := by
    intro o o' Core x hwf h
    obtain ⟨map', hmap', h⟩ := bind_eq_ok.mp h
    obtain rfl := Except.ok.inj h
    exact ⟨{ hwf with machine := hwf.machine.overwrite hmap' }, rfl,
      fun core hne => CoreSettings.ext rfl rfl (overwrite_ne hmap' hne) rfl rfl rfl⟩

theorem storing_setInstTable : Storing setInstTable where
  total := by
    intro o Core x hwf hCore
    obtain ⟨map', h⟩ := overwrite_exists hwf.table hCore
    exact ⟨_, by rw [setInstTable, h]; rfl⟩
  setAt := by
    intro o o' Core x hwf h
    obtain ⟨map', hmap', h⟩ := bind_eq_ok.mp h
    obtain rfl := Except.ok.inj h
    exact ⟨{ hwf with table := hwf.table.overwrite hmap' }, rfl,
      fun core hne => CoreSettings.ext rfl rfl rfl (overwrite_ne hmap' hne) rfl rfl⟩

section

variable {β : Type} {core : List Char → Except OptFault ℕ} {value : List Char → Except OptFault β}
  {store : RevOpts → ℕ → β → Except OptFault RevOpts} {o : RevOpts} {s c v : List Char} {Core : ℕ}

/-- What an entry does before its value is converted. -/
theorem coreEntry_fields (hs : splitStr s ':' = [c, v]) (hc : core c = .ok Core) :
    coreEntry core value store o s =
      if Core > o.numCores then .ok (o, false)
      else value v >>= fun x => store o Core x >>= fun o' => .ok (o', true) := by
  simp only [coreEntry, hs, hc]
  rfl

/-- An entry of a core is accepted and sets the option of this core. -/
theorem Storing.accepted (hstore : Storing store) (hwf : o.Wf) (hs : splitStr s ':' = [c, v])
    (hc : core c = .ok Core) {x : β} (hv : value v = .ok x) (hCore : Core < o.numCores) :
    ∃ o', coreEntry core value store o s = .ok (o', true) ∧ SetAt o o' Core := by
  obtain ⟨o', ho'⟩ := hstore.total x hwf hCore
  refine ⟨o', ?_, hstore.setAt hwf ho'⟩
  rw [coreEntry_fields hs hc, if_neg (by omega), bind_eq_ok]
  exact ⟨x, hv, bind_eq_ok.mpr ⟨o', ho', rfl⟩⟩

theorem coreEntry_other (h : ∀ c v, splitStr s ':' ≠ [c, v]) :
    coreEntry core value store o s = .ok (o, false) := by
  unfold coreEntry
  split
  · rename_i c v hs
    exact absurd hs (h c v)
  · rfl

/-- Nothing is refused at the core number `numCores`. -/
theorem coreEntry_end (hs : splitStr s ':' = [c, v]) (hc : core c = .ok o.numCores) (o' : RevOpts) :
    coreEntry core value store o s ≠ .ok (o', false) := by
  rw [coreEntry_fields hs hc, if_neg (by omega)]
  intro h
  obtain ⟨x, -, h⟩ := bind_eq_ok.mp h
  obtain ⟨o₁, -, h⟩ := bind_eq_ok.mp h
  simp at h

theorem Storing.entry_wf (hstore : Storing store) (hwf : o.Wf) {o' : RevOpts} {ok : Bool}
    (h : coreEntry core value store o s = .ok (o', ok)) : o'.Wf ∧ o'.numCores = o.numCores := by
  unfold coreEntry at h
  split at h
  · obtain ⟨Core, -, h⟩ := bind_eq_ok.mp h
    split at h
    · obtain ⟨rfl, -⟩ := Prod.mk.inj (Except.ok.inj h)
      exact ⟨hwf, rfl⟩
    · obtain ⟨x, -, h⟩ := bind_eq_ok.mp h
      obtain ⟨o₁, ho₁, h⟩ := bind_eq_ok.mp h
      obtain ⟨rfl, -⟩ := Prod.mk.inj (Except.ok.inj h)
      exact ⟨(hstore.setAt hwf ho₁).wf, (hstore.setAt hwf ho₁).numCores⟩
  · obtain ⟨rfl, -⟩ := Prod.mk.inj (Except.ok.inj h)
    exact ⟨hwf, rfl⟩

/-- The loop of `CORES` over the cores. -/
theorem Storing.cores (hstore : Storing store) (x : β) {i n : ℕ} (hwf : o.Wf)
    (hn : i + n ≤ o.numCores) :
    ∃ o', Lib.loop (fun i o => store o i x) i n o = .ok o' ∧ o'.Wf ∧ o'.numCores = o.numCores ∧
      ∀ core, o.numCores ≤ core → o'.settings core = o.settings core := by
  induction n generalizing i o with
  | zero => exact ⟨o, rfl, hwf, rfl, fun _ _ => rfl⟩
  | succ n ih =>
    obtain ⟨o₁, ho₁⟩ := hstore.total x hwf (by omega : i < o.numCores)
    have hset := hstore.setAt hwf ho₁
    have hnum := hset.numCores
    obtain ⟨o', hloop, hwf', hnum', hothers⟩ := ih (i := i + 1) hset.wf (by omega)
    refine ⟨o', ?_, hwf', hnum'.trans hnum, fun core hcore => ?_⟩
    · rw [loop_succ, bind_eq_ok]
      exact ⟨o₁, ho₁, hloop⟩
    · rw [hothers core (by omega), hset.others core (by omega)]

end

end RevOpts

end RevCPU
