import RevCPU.Isa.Integer
import RevCPU.Program.Memory
import RevCPU.Program.Spec

namespace RevCPU.Program

open RevCPU.Lib RevCPU.Isa

/-- The function of a store. -/
def IntStore.func : IntStore → RevCPU.ImplFunc
  | sb => .sb
  | sh => .sh
  | sw => .sw
  | sd => .sd

theorem IntStore.runFunc_eq (t : IntStore) (c : Core) (f : RevCPU.RevFeature)
    (i : RevCPU.RevInst) : c.runFunc f i t.func = c.store f i t.size := by
  cases t <;> rfl

section Registers

variable (R : RevRegFile)

/-- The registers when the bytes of one of them are overwritten. -/
theorem GetX_setBytes {rd r : ℕ} (hr : r ≠ rd) {bs : List UInt8} (hlen : bs.length ≤ R.xLen)
    (queue completed : List MemReq) :
    RevRegFile.GetX { R with X := setBytes R.X (R.xOff rd) bs, LSQueue := queue,
                              completed := completed } r = R.GetX r := by
  have hapart : R.xOff r + R.xLen ≤ R.xOff rd ∨ R.xOff rd + bs.length ≤ R.xOff r := by
    unfold RevRegFile.xOff RevRegFile.xLen at *
    cases hrv : R.IsRV32 with
    | true =>
      simp only [hrv, if_true] at hlen ⊢
      omega
    | false =>
      simp only [hrv, Bool.false_eq_true, if_false] at hlen ⊢
      omega
  have hbytes := getBytes_setBytes_of_disjoint R.X hapart
  unfold RevRegFile.GetX
  by_cases h0 : r ≠ 0
  · rw [if_pos h0, if_pos h0]
    exact congrArg leNat hbytes
  · rw [if_neg h0, if_neg h0]

end Registers

/-- The address that the code computes is that of the specification where the
    latter does not wrap around in 32 bits. -/
theorem effAddr_of_exact {c : Core} {i : RevCPU.RevInst} {A : ℕ}
    (hA : A = (BitVec.ofNat (xlen c.R) (c.R.GetX i.rs1) +
      (BitVec.ofNat 12 i.imm).signExtend (xlen c.R)).toNat)
    (hexact : xlen c.R = 64 ∨
      (c.R.GetX i.rs1 : ℤ) + (BitVec.ofNat 12 i.imm).toInt = A) : c.effAddr i = A := by
  have hext : ((i.ImmSignExt 12).signExtend 64).toNat =
      ((BitVec.ofNat 12 i.imm).signExtend 64).toNat := by
    rw [RevCPU.RevInst.ImmSignExt, SignExt_setWidth i.imm (by decide) (by decide) (by decide),
      signExtend_signExtend (by decide) (by decide)]
  rw [Core.effAddr, hext]
  have hlt := GetX_lt c.R i.rs1
  rcases hexact with h64 | hexact
  · rw [hA, toNat_add_signExtend, h64]
  · have hint : (((BitVec.ofNat 12 i.imm).signExtend 64).toNat : ℤ) % 2 ^ 64 =
        (BitVec.ofNat 12 i.imm).toInt % 2 ^ 64 := by
      have hsame := BitVec.toInt_signExtend_of_le (x := BitVec.ofNat 12 i.imm)
        (show 12 ≤ 64 by decide)
      have hmod := Int.bmod_emod (x := (((BitVec.ofNat 12 i.imm).signExtend 64).toNat : ℤ))
        (m := 2 ^ 64)
      rw [← hsame, BitVec.toInt_eq_toNat_bmod]
      exact_mod_cast hmod.symm
    have hAlt : A < 2 ^ 64 := by
      have hle := xlen_le c.R
      have hA' := (BitVec.ofNat (xlen c.R) (c.R.GetX i.rs1) +
        (BitVec.ofNat 12 i.imm).signExtend (xlen c.R)).isLt
      rw [← hA] at hA'
      exact Nat.lt_of_lt_of_le hA' (Nat.pow_le_pow_right (by decide) hle)
    have hsum : ((c.R.GetX i.rs1 + ((BitVec.ofNat 12 i.imm).signExtend 64).toNat : ℕ) : ℤ) %
        2 ^ 64 = (A : ℤ) := by
      rw [Nat.cast_add, Int.add_emod, hint, ← Int.add_emod, hexact]
      omega
    have hnat : (((c.R.GetX i.rs1 + ((BitVec.ofNat 12 i.imm).signExtend 64).toNat) % 2 ^ 64 : ℕ) :
        ℤ) = (A : ℤ) := by
      rw [← hsum]
      push_cast
      rfl
    exact Int.ofNat_inj.mp hnat

section Local

variable {c : Core} {V : ℕ → Prop} {A : ℕ}

/-- A load of accessible bytes sets its register to their extended value, goes on
    to the next instruction and changes no other register and no memory. -/
theorem load_runs (f : RevCPU.RevFeature) {i : RevCPU.RevInst} {l : IntLoad}
    (hav : l.avail c.R.IsRV32 = true) (hM : c.M.Writable V) (hctrl : c.M.ctrl = none)
    (hA : c.effAddr i = A) (hrange : ∀ v, A ≤ v → v < A + l.size → V v) :
    ∃ c', c.runFunc f i l.func = some c' ∧ c'.M.ctrl = none ∧ c'.M.Writable V ∧
      c'.M.view = c.M.view ∧ c'.R.IsRV32 = c.R.IsRV32 ∧
      c'.R.PC = (c.R.PC + i.instSize) % 2 ^ xlen c.R ∧
      ∀ r, c'.R.GetX r = if r = i.rd ∧ r ≠ 0 then l.value c.R.xLen c.M.view A else c.R.GetX r := by
  have hsize := l.size_le
  have hlen := l.size_le_xLen hav
  have htwo : A % RevMem.pageSize + l.size ≤ 2 * RevMem.pageSize := by
    have hmod := Nat.mod_lt A (by decide : 0 < RevMem.pageSize)
    simp only [RevMem.pageSize] at *
    omega
  obtain ⟨m', host', hread, hctrl', hM', hview, hbytes⟩ := hM.ReadMem hctrl l.size_pos hrange htwo
    ⟨fun _ j => c.R.X (c.R.xOff i.rd + j), []⟩ f.HartToExecID (c.R.xOff i.rd)
    (c.loadReq f i .RegGPR) (Core.loadFlags c.R.IsRV32 l)
  rw [l.runFunc_eq, Core.load_eq c f i hav, Core.readX]
  simp only [Core.loadReq, hA] at hread ⊢
  rw [hread]
  simp only [Option.map_some, hbytes]
  refine ⟨_, rfl, hctrl', hM', hview, rfl, ?_, ?_⟩
  · unfold xlen
    cases hrv : c.R.IsRV32 with
    | true => simp [RevRegFile.AdvancePC, RevRegFile.SetX]
    | false => simp [RevRegFile.AdvancePC, RevRegFile.SetX]
  · intro r
    have hset := GetX_SetX { c.R with
        X := setBytes c.R.X (c.R.xOff i.rd) (getBytes c.M.view A l.size)
        LSQueue := c.R.LSQueue ++ [c.loadReq f i .RegGPR]
        completed := c.R.completed ++ host'.completed } i.rd
      (Core.castLoad l.size l.signed (leNat (getBytes
        (setBytes c.R.X (c.R.xOff i.rd) (getBytes c.M.view A l.size)) (c.R.xOff i.rd) c.R.xLen))) r
    simp only [Core.loadReq, hA] at hset
    refine hset.trans ?_
    by_cases hr : r = i.rd ∧ r ≠ 0
    · rw [if_pos hr, if_pos hr, Core.castLoad_eq hsize]
      have hxlen : 8 * c.R.xLen = xlen c.R := xLen_eq c.R
      have hle := xlen_le c.R
      change extend l.signed (8 * l.size) 64 _ % 2 ^ xlen c.R = _
      rw [← hxlen, extend_mod _ _ (by omega)]
      apply extend_congr
      rw [← pow256, getBytes, leNat_map_range_mod _ hlen, ← getBytes]
      have hstored := getBytes_setBytes c.R.X (c.R.xOff i.rd) (getBytes c.M.view A l.size)
      rw [getBytes_length] at hstored
      rw [hstored, getBytes, leNat_map_range_mod _ (Nat.le_refl _)]
    · rw [if_neg hr, if_neg hr]
      by_cases h0 : r = 0
      · rw [h0]
        rfl
      · have hne : r ≠ i.rd := fun heq => hr ⟨heq, h0⟩
        exact GetX_setBytes c.R hne (by rw [getBytes_length]; exact hlen) _ _

/-- A store of accessible bytes stores the low bytes of its register, goes on to
    the next instruction and changes no register. -/
theorem store_runs (f : RevCPU.RevFeature) {i : RevCPU.RevInst} (t : IntStore)
    (hM : c.M.Writable V) (hctrl : c.M.ctrl = none) (hA : c.effAddr i = A)
    (hrange : ∀ v, A ≤ v → v < A + t.size → V v) :
    ∃ c', c.runFunc f i t.func = some c' ∧ c'.M.ctrl = none ∧ c'.M.Writable V ∧
      c'.M.view = setBytes c.M.view A (leBytes t.size (c.R.GetX i.rs2)) ∧
      c'.R.IsRV32 = c.R.IsRV32 ∧ c'.R.PC = (c.R.PC + i.instSize) % 2 ^ xlen c.R ∧
      ∀ r, c'.R.GetX r = c.R.GetX r := by
  have hsize := t.size_le
  have htwo : A % RevMem.pageSize + t.size ≤ 2 * RevMem.pageSize := by
    have hmod := Nat.mod_lt A (by decide : 0 < RevMem.pageSize)
    simp only [RevMem.pageSize] at *
    omega
  obtain ⟨m', hwrite, hctrl', hM', hview⟩ := hM.WriteMem hctrl t.size_pos hrange htwo
    f.HartToExecID (leBytes_length t.size (c.R.GetX i.rs2))
  rw [t.runFunc_eq, Core.store, hA, hwrite]
  refine ⟨_, rfl, hctrl', hM', hview, rfl, ?_, fun r => rfl⟩
  unfold xlen
  cases hrv : c.R.IsRV32 with
  | true => simp [RevRegFile.AdvancePC, hrv]
  | false => simp [RevRegFile.AdvancePC, hrv]

end Local

end RevCPU.Program
