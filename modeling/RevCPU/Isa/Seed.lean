import Mathlib.Data.List.Flatten
import RevCPU.Proc.InstTable
import RevCPU.Isa.Dispatch

namespace RevCPU.Isa

open RevCPU.Lib

/-- `RevFeature` with the extensions that have no loads or stores of their own. -/
structure RevFeature extends RevCPU.RevFeature where
  RV_M : Bool := false
  RV_A : Bool := false
  RV_ZICBOM : Bool := false
  deriving DecidableEq, Repr

def RV64I : RevExt ImplFunc := { table := RV64ITable, ctable := RV64ICTable }
def RV32M : RevExt ImplFunc := { table := RV32MTable }
def RV64M : RevExt ImplFunc := { table := RV64MTable }
def RV32A : RevExt ImplFunc := { table := RV32ATable }
def RV64A : RevExt ImplFunc := { table := RV64ATable }
def RV32F : RevExt ImplFunc := { table := RV32FTable, otable := RV32FCOTable }
def RV64F : RevExt ImplFunc := { table := RV64FTable }
def RV32D : RevExt ImplFunc := { table := RV32DTable, ctable := RV32DCTable }
def RV64D : RevExt ImplFunc := { table := RV64DTable }
def Zicbom : RevExt ImplFunc := { table := ZicbomTable }

/-- The calls of `EnableExt` that `SeedInstTable` makes. -/
def SeedInstTable (f : RevFeature) : List (RevExt ImplFunc × Bool) :=
  (if f.RV_I then
    if f.IsRV64 then [(RV32I, false), (RV64I, false)] else [(RV32I, true)]
  else []) ++
  (if f.RV_M then (RV32M, false) :: (if f.IsRV64 then [(RV64M, false)] else []) else []) ++
  (if f.RV_A then (RV32A, false) :: (if f.IsRV64 then [(RV64A, false)] else []) else []) ++
  (if f.RV_F then
    if !f.RV_D && f.IsRV32 then [(RV32F, true)] else [(RV32F, false), (RV64F, false)]
  else []) ++
  (if f.RV_D then (RV32D, false) :: (if f.IsRV64 then [(RV64D, false)] else []) else []) ++
  (if f.RV_ZICBOM then [(Zicbom, false)] else [])

/-- The instruction table of a machine. -/
def InstTable (f : RevFeature) : List (RevInstEntry ImplFunc) :=
  (({} : RevProc ImplFunc).enableAll f.RV_C (SeedInstTable f)).InstTable

def CompressCEncoding (e : RevInstEntry ImplFunc) : ℕ :=
  (e.opcode ||| e.funct2 <<< 2 ||| e.funct3 <<< 4 ||| e.funct4 <<< 8 ||| e.funct6 <<< 12) % 2 ^ 32

/-- `CompressEncoding`, a 32-bit value: of `fpcvtOp` two bits remain. -/
def CompressEncoding (e : RevInstEntry ImplFunc) : ℕ :=
  (e.opcode ||| e.funct3 <<< 8 ||| e.funct2or7 <<< 11 ||| e.imm12 <<< 18 ||| e.fpcvtOp <<< 30) % 2 ^ 32

/-- `InitTableMapping`: the maps keep the first entry that is inserted under a
    key. -/
def EncToEntry (f : RevFeature) (Enc : ℕ) : Option ℕ :=
  (InstTable f).findIdx? fun e => !e.compressed && CompressEncoding e == Enc

def CEncToEntry (f : RevFeature) (Enc : ℕ) : Option ℕ :=
  (InstTable f).findIdx? fun e => e.compressed && CompressCEncoding e == Enc

/-- The entries of one call, in the order of the table. -/
def entries (RV_C : Bool) (c : RevExt ImplFunc × Bool) : List (RevInstEntry ImplFunc) :=
  c.1.table ++ if RV_C then c.1.ctable ++ (if c.2 then c.1.otable else []) else []

theorem map_fst_loaded (RV_C : Bool) (c : RevExt ImplFunc × Bool) :
    (RevProc.loaded RV_C c).map Prod.fst = entries RV_C c := by
  unfold RevProc.loaded entries
  cases RV_C with
  | false => simp
  | true =>
    cases c.2 with
    | false => simp
    | true => simp

theorem InstTable_eq (f : RevFeature) : InstTable f = (SeedInstTable f).flatMap (entries f.RV_C) := by
  obtain ⟨-, hrec⟩ := (RevProc.Recorded.init : ({} : RevProc ImplFunc).Recorded []).enableAll f.RV_C
    (SeedInstTable f)
  rw [InstTable, hrec.table, List.nil_append, RevProc.provenance, List.map_flatMap]
  simp only [List.map_map]
  have hfst : ∀ c : (RevExt ImplFunc × Bool) × ℕ,
      (RevProc.loaded f.RV_C c.1).map (Prod.fst ∘ fun y => (y.1, c.2, y.2)) = entries f.RV_C c.1 :=
    fun c => map_fst_loaded f.RV_C c.1
  simp only [hfst]
  rw [← List.flatMap_map Prod.fst (entries f.RV_C), List.zipIdx_map_fst]

/-- All extensions that `SeedInstTable` knows, in its order. -/
def allExts : List (RevExt ImplFunc) :=
  [RV32I, RV64I, RV32M, RV64M, RV32A, RV64A, RV32F, RV64F, RV32D, RV64D, Zicbom]

def allEntries : List (RevInstEntry ImplFunc) :=
  allExts.flatMap fun x => x.table ++ (x.ctable ++ x.otable)

theorem seed_sublist (f : RevFeature) : ((SeedInstTable f).map Prod.fst).Sublist allExts := by
  have hI : ((if f.RV_I then if f.IsRV64 then [(RV32I, false), (RV64I, false)] else [(RV32I, true)]
      else []).map Prod.fst).Sublist [RV32I, RV64I] := by
    split_ifs <;> simp
  have htwo : ∀ (b : Bool) (x y : RevExt ImplFunc),
      ((if b then (x, false) :: (if f.IsRV64 then [(y, false)] else []) else []).map
        Prod.fst).Sublist [x, y] := by
    intro b x y
    split_ifs <;> simp
  have hF : ((if f.RV_F then
      if !f.RV_D && f.IsRV32 then [(RV32F, true)] else [(RV32F, false), (RV64F, false)]
      else []).map Prod.fst).Sublist [RV32F, RV64F] := by
    split_ifs <;> simp
  have hZ : ((if f.RV_ZICBOM then [(Zicbom, false)] else []).map Prod.fst).Sublist [Zicbom] := by
    split_ifs <;> simp
  have happ := ((((hI.append (htwo f.RV_M RV32M RV64M)).append (htwo f.RV_A RV32A RV64A)).append
    hF).append (htwo f.RV_D RV32D RV64D)).append hZ
  simp only [SeedInstTable, List.map_append]
  exact happ

theorem entries_sublist (RV_C : Bool) (c : RevExt ImplFunc × Bool) :
    (entries RV_C c).Sublist (c.1.table ++ (c.1.ctable ++ c.1.otable)) := by
  refine (List.Sublist.refl _).append ?_
  cases RV_C with
  | false => exact List.nil_sublist _
  | true =>
    refine (List.Sublist.refl _).append ?_
    cases c.2 with
    | false => exact List.nil_sublist _
    | true => exact List.Sublist.refl _

/-- The table of every machine is a part of the table of all entries, in the
    same order. -/
theorem InstTable_sublist (f : RevFeature) : (InstTable f).Sublist allEntries := by
  have hcalls : ∀ calls : List (RevExt ImplFunc × Bool),
      (calls.flatMap (entries f.RV_C)).Sublist
        ((calls.map Prod.fst).flatMap fun x => x.table ++ (x.ctable ++ x.otable)) := by
    intro calls
    induction calls with
    | nil => exact List.Sublist.refl _
    | cons c calls ih =>
      rw [List.flatMap_cons, List.map_cons, List.flatMap_cons]
      exact (entries_sublist f.RV_C c).append ih
  rw [InstTable_eq]
  exact (hcalls _).trans ((seed_sublist f).flatMap _)

/-- The keys of the uncompressed entries are all different. -/
theorem keys_nodup :
    ((allEntries.filter fun e => !e.compressed).map CompressEncoding).Nodup := by
  decide +kernel

theorem distinct_keys (f : RevFeature) : (InstTable f).Pairwise fun a b =>
    a.compressed = false → b.compressed = false → CompressEncoding a ≠ CompressEncoding b := by
  have hall := keys_nodup
  rw [List.Nodup, List.pairwise_map, List.pairwise_filter] at hall
  refine (hall.imp ?_).sublist (InstTable_sublist f)
  intro a b h ha hb
  exact h (by simp [ha]) (by simp [hb])

/-- The map finds an uncompressed entry under its own key, and nothing else
    under that key. -/
theorem EncToEntry_iff {f : RevFeature} {i Enc : ℕ} {e : RevInstEntry ImplFunc}
    (hi : (InstTable f)[i]? = some e) (hc : e.compressed = false) :
    EncToEntry f Enc = some i ↔ CompressEncoding e = Enc := by
  obtain ⟨hlt, he⟩ := List.getElem?_eq_some_iff.mp hi
  rw [EncToEntry, List.findIdx?_eq_some_iff_getElem]
  constructor
  · rintro ⟨_, hp, -⟩
    rw [he] at hp
    simpa [hc] using hp
  · rintro rfl
    refine ⟨hlt, by simp [he, hc], ?_⟩
    intro j hj hp
    have hpair := List.pairwise_iff_getElem.mp (distinct_keys f) j i (by omega) hlt hj
    rw [he] at hpair
    simp only [Bool.and_eq_true, Bool.not_eq_true', beq_iff_eq] at hp
    exact hpair hp.1 hc hp.2

/-- The load or store of `RevCPU.ImplFunc` that a function is, if any. -/
def ImplFunc.loadStore : ImplFunc → Option RevCPU.ImplFunc
  | lb => some .lb | lh => some .lh | lw => some .lw | lbu => some .lbu | lhu => some .lhu
  | sb => some .sb | sh => some .sh | sw => some .sw | lwu => some .lwu | ld => some .ld
  | sd => some .sd | flw => some .flw | fsw => some .fsw | fld => some .fld | fsd => some .fsd
  | clwsp => some .clwsp | cswsp => some .cswsp | clw => some .clw | csw => some .csw
  | cldsp => some .cldsp | csdsp => some .csdsp | cld => some .cld | csd => some .csd
  | cflwsp => some .cflwsp | cfswsp => some .cfswsp | cflw => some .cflw | cfsw => some .cfsw
  | cfldsp => some .cfldsp | cfsdsp => some .cfsdsp | cfld => some .cfld | cfsd => some .cfsd
  | _ => none

def RevInstF.loadStore : RevInstF → Option RevCPU.RevInstF
  | RVTypeI => some .RVTypeI
  | RVTypeS => some .RVTypeS
  | RVCTypeCI => some .RVCTypeCI
  | RVCTypeCSS => some .RVCTypeCSS
  | RVCTypeCL => some .RVCTypeCL
  | RVCTypeCS => some .RVCTypeCS
  | _ => none

/-- An entry as one of the load and store tables has it. -/
def RevInstEntry.loadStore (e : RevInstEntry ImplFunc) : Option RevCPU.RevInstEntry := do
  let func ← e.func.bind ImplFunc.loadStore
  let format ← e.format.loadStore
  return {
    opcode := e.opcode, funct2 := e.funct2, funct3 := e.funct3, funct4 := e.funct4,
    funct6 := e.funct6, funct2or7 := e.funct2or7, rdClass := e.rdClass, rs1Class := e.rs1Class,
    rs2Class := e.rs2Class, imm12 := e.imm12, format, func, compressed := e.compressed,
    fpcvtOp := e.fpcvtOp }

theorem loadStore_tables :
    (RV32ITable.filterMap (·.loadStore) = RevCPU.RV32ITable ∧
      RV32ICTable.filterMap (·.loadStore) = RevCPU.RV32ICTable ∧
      RV32ICOTable.filterMap (·.loadStore) = [] ∧
      RV64ITable.filterMap (·.loadStore) = RevCPU.RV64ITable ∧
      RV64ICTable.filterMap (·.loadStore) = RevCPU.RV64ICTable) ∧
    (RV32FTable.filterMap (·.loadStore) = RevCPU.RV32FTable ∧
      RV32FCOTable.filterMap (·.loadStore) = RevCPU.RV32FCOTable ∧
      RV32DTable.filterMap (·.loadStore) = RevCPU.RV32DTable ∧
      RV32DCTable.filterMap (·.loadStore) = RevCPU.RV32DCTable) ∧
    ∀ T ∈ [RV32MTable, RV64MTable, RV32ATable, RV64ATable, RV64FTable, RV64DTable, ZicbomTable],
      T.filterMap (·.loadStore) = [] := by
  decide +kernel

/-- The load and store entries of the whole table are the table that the
    compressed loads and stores are decoded with. -/
theorem InstTable_loadStore (f : RevFeature) :
    (InstTable f).filterMap (·.loadStore) = RevCPU.SeedInstTable f.toRevFeature := by
  obtain ⟨⟨hI, hIC, hICO, hI64, hIC64⟩, ⟨hF, hFCO, hD, hDC⟩, hnone⟩ := loadStore_tables
  simp only [List.forall_mem_cons, List.not_mem_nil, false_implies, implies_true, and_true] at hnone
  obtain ⟨hM, hM64, hA, hA64, hF64, hD64, hZ⟩ := hnone
  have hentries : ∀ c, (entries f.RV_C c).filterMap (·.loadStore) =
      RevCPU.EnableExt f.toRevFeature (c.1.table.filterMap (·.loadStore))
        (c.1.ctable.filterMap (·.loadStore)) (c.1.otable.filterMap (·.loadStore)) c.2 := by
    intro c
    unfold entries RevCPU.EnableExt
    split_ifs <;> simp
  rw [InstTable_eq, List.filterMap_flatMap]
  simp only [hentries]
  have hempty : ∀ b, RevCPU.EnableExt f.toRevFeature [] [] [] b = [] := by
    intro b
    unfold RevCPU.EnableExt
    split_ifs <;> rfl
  unfold SeedInstTable RevCPU.SeedInstTable RevFeature.IsRV32
  cases f.IsRV64 <;> cases f.RV_I <;> cases f.RV_M <;> cases f.RV_A <;> cases f.RV_F <;>
    cases f.RV_D <;> cases f.RV_ZICBOM <;>
    simp [RV32I, RV64I, RV32M, RV64M, RV32A, RV64A, RV32F, RV64F, RV32D, RV64D, Zicbom, hI, hIC,
      hICO, hI64, hIC64, hF, hFCO, hD, hDC, hM, hM64, hA, hA64, hF64, hD64, hZ, hempty]

end RevCPU.Isa
