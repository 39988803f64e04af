import RevCPU.Lib.Assoc
import RevCPU.Isa.Tables

namespace RevCPU.Isa

open RevCPU.Lib

variable {F : Type}

/-- `RevExt`: the three instruction tables of an extension. -/
structure RevExt (F : Type) where
  table : List (RevInstEntry F)
  ctable : List (RevInstEntry F) := []
  otable : List (RevInstEntry F) := []

/-- The function pointer at a position of a table, null outside of it. -/
def funcAt (T : List (RevInstEntry F)) (i : ℕ) : Option F := T[i]?.bind (·.func)

/-- `RevExt::Execute`: the function that it calls, `none` where it reports that
    the instruction does not exist. -/
def RevExt.Execute (x : RevExt F) (Inst : ℕ) (compressed : Bool) : Option F :=
  if compressed then funcAt x.ctable Inst else funcAt x.table Inst

/-- The instruction tables of a `RevProc`. -/
structure RevProc (F : Type) where
  Extensions : List (RevExt F) := []
  InstTable : List (RevInstEntry F) := []
  EntryToExt : List (ℕ × ℕ × ℕ) := []

namespace RevProc

/-- `std::map::insert`, which keeps an element that is there. -/
def insert (m : List (ℕ × ℕ × ℕ)) (k : ℕ) (v : ℕ × ℕ) : List (ℕ × ℕ × ℕ) :=
  if (m.lookup k).isSome then m else m ++ [(k, v)]

/-- The loop of `EnableExt` over one table, from its position `i` on. -/
def addTable (p : RevProc F) : List (RevInstEntry F) → ℕ → RevProc F
  | [], _ => p
  | e :: T, i =>
    addTable { p with
      InstTable := p.InstTable ++ [e],
      EntryToExt := insert p.EntryToExt p.InstTable.length (p.Extensions.length - 1, i) } T (i + 1)

/-- `EnableExt`, for a machine with or without the C extension. -/
def EnableExt (RV_C : Bool) (p : RevProc F) (Ext : RevExt F) (Opt : Bool) : RevProc F :=
  let p := { p with Extensions := p.Extensions ++ [Ext] }
  let p := p.addTable Ext.table 0
  if RV_C then
    let p := p.addTable Ext.ctable 0
    if Opt then p.addTable Ext.otable 0 else p
  else p

/-- A sequence of calls of `EnableExt`. -/
def enableAll (RV_C : Bool) (p : RevProc F) (calls : List (RevExt F × Bool)) : RevProc F :=
  calls.foldl (fun p c => p.EnableExt RV_C c.1 c.2) p

/-- How `ClockTick` runs the instruction of an entry: through `EntryToExt` to
    the extension, with the compressed flag of the entry in the payload. -/
def execute (p : RevProc F) (e : ℕ) : Option F := do
  let entry ← p.InstTable[e]?
  let EToE ← p.EntryToExt.lookup e
  let Ext ← p.Extensions[EToE.1]?
  Ext.Execute EToE.2 entry.compressed

/-- Every entry of the table runs its own function. -/
def Agrees (p : RevProc F) : Prop :=
  ∀ e entry, p.InstTable[e]? = some entry → ∃ g, entry.func = some g ∧ p.execute e = some g

/-- The table and the map hold one list of entries, each with the extension and
    the position that the map gives for it. -/
structure Recorded (p : RevProc F) (L : List (RevInstEntry F × ℕ × ℕ)) : Prop where
  table : p.InstTable = L.map Prod.fst
  map : p.EntryToExt = L.zipIdx.map fun y => (y.2, y.1.2)

namespace Recorded

variable {p : RevProc F} {L : List (RevInstEntry F × ℕ × ℕ)}

theorem init : ({} : RevProc F).Recorded [] := ⟨rfl, rfl⟩

theorem lookup (h : p.Recorded L) (e : ℕ) : p.EntryToExt.lookup e = L[e]?.map Prod.snd := by
  have hlook := lookup_zipIdx (Prod.snd : RevInstEntry F × ℕ × ℕ → ℕ × ℕ) L 0 e
  rw [Nat.zero_add] at hlook
  rw [h.map, hlook]

theorem insert_fresh (h : p.Recorded L) (v : ℕ × ℕ) :
    insert p.EntryToExt p.InstTable.length v = p.EntryToExt ++ [(L.length, v)] := by
  have hlen : p.InstTable.length = L.length := by rw [h.table, List.length_map]
  have hnone : p.EntryToExt.lookup L.length = none := by
    rw [h.lookup, List.getElem?_eq_none (Nat.le_refl _), Option.map_none]
  rw [hlen, insert, hnone]
  rfl

/-- The loop over a table records its entries under their positions. -/
theorem addTable (h : p.Recorded L) (T : List (RevInstEntry F)) (i : ℕ) :
    (p.addTable T i).Extensions = p.Extensions ∧
    (p.addTable T i).Recorded
      (L ++ (T.zipIdx i).map fun y => (y.1, p.Extensions.length - 1, y.2)) := by
  induction T generalizing p L i with
  | nil => exact ⟨rfl, by simpa [RevProc.addTable] using h⟩
  | cons e T ih =>
    have hone : ({ p with
        InstTable := p.InstTable ++ [e],
        EntryToExt := insert p.EntryToExt p.InstTable.length (p.Extensions.length - 1, i) } :
          RevProc F).Recorded (L ++ [(e, p.Extensions.length - 1, i)]) := by
      refine ⟨?_, ?_⟩
      · simp [h.table]
      · rw [h.insert_fresh, h.map, List.zipIdx_append, List.map_append]
        simp
    obtain ⟨hext, hrec⟩ := ih hone (i + 1)
    refine ⟨hext, ?_⟩
    simpa [RevProc.addTable] using hrec

end Recorded

/-- The entries that one call loads, each with its position in its table. -/
def loaded (RV_C : Bool) (c : RevExt F × Bool) : List (RevInstEntry F × ℕ) :=
  c.1.table.zipIdx ++
    if RV_C then c.1.ctable.zipIdx ++ (if c.2 then c.1.otable.zipIdx else []) else []

theorem Recorded.enableExt {p : RevProc F} {L : List (RevInstEntry F × ℕ × ℕ)} (h : p.Recorded L)
    (RV_C : Bool) (c : RevExt F × Bool) :
    (p.EnableExt RV_C c.1 c.2).Extensions = p.Extensions ++ [c.1] ∧
    (p.EnableExt RV_C c.1 c.2).Recorded
      (L ++ (loaded RV_C c).map fun y => (y.1, p.Extensions.length, y.2)) := by
  have hpush : ({ p with Extensions := p.Extensions ++ [c.1] } : RevProc F).Recorded L :=
    ⟨h.table, h.map⟩
  obtain ⟨hext, htable⟩ := hpush.addTable c.1.table 0
  obtain ⟨hextc, hctable⟩ := htable.addTable c.1.ctable 0
  obtain ⟨hexto, hotable⟩ := hctable.addTable c.1.otable 0
  rw [hext] at hctable
  rw [hextc, hext] at hotable
  simp only [List.length_append, List.length_singleton, Nat.add_sub_cancel] at htable hctable hotable
  unfold EnableExt loaded
  cases RV_C with
  | false => exact ⟨hext, by simpa using htable⟩
  | true =>
    cases hopt : c.2 with
    | false => exact ⟨hextc.trans hext, by simpa using hctable⟩
    | true => exact ⟨hexto.trans (hextc.trans hext), by simpa using hotable⟩

/-- What a sequence of calls loads, with the number of the call. -/
def provenance (RV_C : Bool) (n : ℕ) (calls : List (RevExt F × Bool)) :
    List (RevInstEntry F × ℕ × ℕ) :=
  (calls.zipIdx n).flatMap fun c => (loaded RV_C c.1).map fun y => (y.1, c.2, y.2)

theorem enableAll_cons (RV_C : Bool) (p : RevProc F) (c : RevExt F × Bool)
    (calls : List (RevExt F × Bool)) :
    p.enableAll RV_C (c :: calls) = (p.EnableExt RV_C c.1 c.2).enableAll RV_C calls := rfl

theorem Recorded.enableAll {p : RevProc F} {L : List (RevInstEntry F × ℕ × ℕ)} (h : p.Recorded L)
    (RV_C : Bool) (calls : List (RevExt F × Bool)) :
    (p.enableAll RV_C calls).Extensions = p.Extensions ++ calls.map Prod.fst ∧
    (p.enableAll RV_C calls).Recorded (L ++ provenance RV_C p.Extensions.length calls) := by
  induction calls generalizing p L with
  | nil => exact ⟨by simp [RevProc.enableAll], by simpa [RevProc.enableAll, provenance] using h⟩
  | cons c calls ih =>
    obtain ⟨hext, hrec⟩ := h.enableExt RV_C c
    obtain ⟨hexts, hrecs⟩ := ih hrec
    rw [enableAll_cons]
    refine ⟨?_, ?_⟩
    · simpa [hext] using hexts
    · rw [hext, List.length_append, List.length_singleton] at hrecs
      simpa [provenance] using hrecs

theorem mem_provenance {RV_C : Bool} {calls : List (RevExt F × Bool)}
    {y : RevInstEntry F × ℕ × ℕ} :
    y ∈ provenance RV_C 0 calls ↔
      ∃ c, calls[y.2.1]? = some c ∧ (y.1, y.2.2) ∈ loaded RV_C c := by
  simp only [provenance, List.mem_flatMap, List.mem_map, List.mem_zipIdx_iff_getElem?]
  constructor
  · rintro ⟨⟨c, k⟩, hc, z, hz, rfl⟩
    exact ⟨c, hc, hz⟩
  · rintro ⟨c, hc, hy⟩
    exact ⟨(c, y.2.1), hc, (y.1, y.2.2), hy, rfl⟩

/-- The condition on the tables of one call: every loaded entry has a function,
    and the table that `Execute` selects by the entry's compressed flag has that
    function at the entry's position. It is automatic for unmarked entries of
    the instruction table and for marked ones of the compressed table. -/
structure TablesAgree (RV_C : Bool) (c : RevExt F × Bool) : Prop where
  table : ∀ i e, c.1.table[i]? = some e →
    e.func ≠ none ∧ (e.compressed = true → funcAt c.1.ctable i = e.func)
  ctable : RV_C = true → ∀ i e, c.1.ctable[i]? = some e →
    e.func ≠ none ∧ (e.compressed = false → funcAt c.1.table i = e.func)
  otable : RV_C = true → c.2 = true → ∀ i e, c.1.otable[i]? = some e →
    e.func ≠ none ∧ c.1.Execute i e.compressed = e.func

theorem mem_loaded {RV_C : Bool} {c : RevExt F × Bool} {y : RevInstEntry F × ℕ} :
    y ∈ loaded RV_C c ↔ c.1.table[y.2]? = some y.1 ∨ RV_C = true ∧
      (c.1.ctable[y.2]? = some y.1 ∨ c.2 = true ∧ c.1.otable[y.2]? = some y.1) := by
  rw [loaded, List.mem_append, List.mem_zipIdx_iff_getElem?]
  cases RV_C with
  | false => simp
  | true =>
    cases hopt : c.2 with
    | false => simp [List.mem_zipIdx_iff_getElem?]
    | true => simp [List.mem_zipIdx_iff_getElem?]

theorem runs_iff {f g : Option F} : (∃ h, f = some h ∧ g = some h) ↔ f ≠ none ∧ g = f := by
  cases f with
  | none => simp
  | some h => simp

theorem funcAt_eq {T : List (RevInstEntry F)} {i : ℕ} {e : RevInstEntry F} (h : T[i]? = some e) :
    funcAt T i = e.func := by
  rw [funcAt, h, Option.bind_some]

/-- An entry of the instruction table needs the condition only when it is
    marked as compressed. -/
theorem execute_table {x : RevExt F} {i : ℕ} {e : RevInstEntry F} (h : x.table[i]? = some e) :
    x.Execute i e.compressed = e.func ↔ (e.compressed = true → funcAt x.ctable i = e.func) := by
  cases hc : e.compressed with
  | false => simp [RevExt.Execute, funcAt_eq h]
  | true => simp [RevExt.Execute]

/-- An entry of the compressed table needs it only when it is not marked. -/
theorem execute_ctable {x : RevExt F} {i : ℕ} {e : RevInstEntry F} (h : x.ctable[i]? = some e) :
    x.Execute i e.compressed = e.func ↔ (e.compressed = false → funcAt x.table i = e.func) := by
  cases hc : e.compressed with
  | false => simp [RevExt.Execute]
  | true => simp [RevExt.Execute, funcAt_eq h]

theorem tablesAgree_iff {RV_C : Bool} {c : RevExt F × Bool} :
    TablesAgree RV_C c ↔ ∀ y ∈ loaded RV_C c,
      ∃ g, y.1.func = some g ∧ c.1.Execute y.2 y.1.compressed = some g := by
  simp only [runs_iff]
  constructor
  · intro h y hy
    rcases mem_loaded.mp hy with htab | ⟨hC, hctab | ⟨hopt, hotab⟩⟩
    · obtain ⟨hfunc, hsel⟩ := h.table y.2 y.1 htab
      exact ⟨hfunc, (execute_table htab).mpr hsel⟩
    · obtain ⟨hfunc, hsel⟩ := h.ctable hC y.2 y.1 hctab
      exact ⟨hfunc, (execute_ctable hctab).mpr hsel⟩
    · exact h.otable hC hopt y.2 y.1 hotab
  · intro h
    refine ⟨?_, ?_, ?_⟩
    · intro i e he
      obtain ⟨hfunc, hsel⟩ := h (e, i) (mem_loaded.mpr (Or.inl he))
      exact ⟨hfunc, (execute_table he).mp hsel⟩
    · intro hC i e he
      obtain ⟨hfunc, hsel⟩ := h (e, i) (mem_loaded.mpr (Or.inr ⟨hC, Or.inl he⟩))
      exact ⟨hfunc, (execute_ctable he).mp hsel⟩
    · intro hC hopt i e he
      exact h (e, i) (mem_loaded.mpr (Or.inr ⟨hC, Or.inr ⟨hopt, he⟩⟩))

/-- The entry at a position of the whole table, and what `ClockTick` runs for it. -/
theorem execute_provenance {RV_C : Bool} {calls : List (RevExt F × Bool)} {e : ℕ}
    {y : RevInstEntry F × ℕ × ℕ} {c : RevExt F × Bool} (hy : (provenance RV_C 0 calls)[e]? = some y)
    (hc : calls[y.2.1]? = some c) :
    (({} : RevProc F).enableAll RV_C calls).InstTable[e]? = some y.1 ∧
      (({} : RevProc F).enableAll RV_C calls).execute e = c.1.Execute y.2.2 y.1.compressed := by
  obtain ⟨hext, hrec⟩ := (Recorded.init : ({} : RevProc F).Recorded []).enableAll RV_C calls
  have htab : (({} : RevProc F).enableAll RV_C calls).InstTable[e]? = some y.1 := by
    rw [hrec.table, List.getElem?_map, List.nil_append]
    exact congrArg (Option.map Prod.fst) hy
  have hmap : (({} : RevProc F).enableAll RV_C calls).EntryToExt.lookup e = some y.2 := by
    rw [hrec.lookup, List.nil_append]
    exact congrArg (Option.map Prod.snd) hy
  have hx : (({} : RevProc F).enableAll RV_C calls).Extensions[y.2.1]? = some c.1 := by
    rw [hext, List.nil_append, List.getElem?_map, hc, Option.map_some]
  exact ⟨htab, by simp [execute, htab, hmap, hx]⟩

/-- Where an entry of the whole table comes from. -/
theorem provenance_of_entry {RV_C : Bool} {calls : List (RevExt F × Bool)} {e : ℕ}
    {entry : RevInstEntry F}
    (h : (({} : RevProc F).enableAll RV_C calls).InstTable[e]? = some entry) :
    ∃ c ∈ calls, ∃ j, (entry, j) ∈ loaded RV_C c ∧
      (({} : RevProc F).enableAll RV_C calls).execute e = c.1.Execute j entry.compressed := by
  obtain ⟨-, hrec⟩ := (Recorded.init : ({} : RevProc F).Recorded []).enableAll RV_C calls
  rw [hrec.table, List.getElem?_map, List.nil_append] at h
  obtain ⟨y, hy, rfl⟩ := Option.map_eq_some_iff.mp h
  obtain ⟨c, hc, hload⟩ := mem_provenance.mp (List.mem_of_getElem? hy)
  exact ⟨c, List.mem_of_getElem? hc, y.2.2, hload, (execute_provenance hy hc).2⟩

/-- The entries of the whole table agree exactly when those of each call do. -/
theorem agrees_iff_loaded (RV_C : Bool) (calls : List (RevExt F × Bool)) :
    (({} : RevProc F).enableAll RV_C calls).Agrees ↔ ∀ c ∈ calls, ∀ y ∈ loaded RV_C c,
      ∃ g, y.1.func = some g ∧ c.1.Execute y.2 y.1.compressed = some g := by
  constructor
  · intro h c hc z hz
    obtain ⟨k, hk⟩ := List.mem_iff_getElem?.mp hc
    obtain ⟨e, he⟩ := List.mem_iff_getElem?.mp
      (mem_provenance.mpr ⟨c, hk, hz⟩ : ((z.1, k, z.2) : RevInstEntry F × ℕ × ℕ) ∈ _)
    obtain ⟨htab, hexec⟩ := execute_provenance he hk
    obtain ⟨g, hfunc, hg⟩ := h e z.1 htab
    rw [hexec] at hg
    exact ⟨g, hfunc, hg⟩
  · intro h e entry hentry
    obtain ⟨c, hc, j, hload, hexec⟩ := provenance_of_entry hentry
    rw [hexec]
    exact h c hc (entry, j) hload

/-- Dispatch agreement: after any sequence of `EnableExt` calls every entry of
    the table runs its own function, exactly when the tables of each call agree
    with the flags of their entries. The optional table of an extension has no
    place of its own in `Execute`. -/
theorem agrees_iff (RV_C : Bool) (calls : List (RevExt F × Bool)) :
    (({} : RevProc F).enableAll RV_C calls).Agrees ↔ ∀ c ∈ calls, TablesAgree RV_C c := by
  rw [agrees_iff_loaded]
  simp only [tablesAgree_iff]

end RevProc

/-- `RV32I`. -/
def RV32I : RevExt ImplFunc :=
  { table := RV32ITable, ctable := RV32ICTable, otable := RV32ICOTable }

/-- On RV32 with C the entry of `c.jal`, the first of its optional table, runs
    the first function of the compressed table, `caddi4spn`. -/
theorem cjal_runs_caddi4spn :
    let p := ({} : RevProc ImplFunc).enableAll true [(RV32I, true)]
    (p.InstTable[68]?.bind (·.func) = some .cjal ∧ p.execute 68 = some .caddi4spn) ∧ ¬p.Agrees := by
  intro p
  have hentry : p.InstTable[68]?.bind (·.func) = some .cjal := by decide +kernel
  have hexec : p.execute 68 = some .caddi4spn := by decide +kernel
  refine ⟨⟨hentry, hexec⟩, ?_⟩
  intro h
  obtain ⟨entry, htab, hfunc⟩ := Option.bind_eq_some_iff.mp hentry
  obtain ⟨g, hg, hrun⟩ := h 68 entry htab
  rw [hfunc] at hg
  rw [hexec, ← hg] at hrun
  cases hrun

end RevCPU.Isa
