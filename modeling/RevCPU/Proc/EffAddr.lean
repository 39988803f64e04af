import RevCPU.Proc.LoadStore
import RevCPU.SignExt

namespace RevCPU

open Lib

namespace Core

/-- The 12-bit immediate of a load or store, with its sign. -/
def immVal (i : RevInst) : ℤ := (BitVec.ofNat 12 i.imm).toInt

section At

variable (c : Core) (f : RevFeature) (i : RevInst) (A : ℕ)

/-- `ReadVal` at the address `A` into the `n` bytes of `X` at `off`. -/
def readXAt (off n : ℕ) (flags : RevFlag) : Option Core :=
  let req := { c.loadReq f i .RegGPR with Addr := A }
  (c.M.ReadMem ⟨fun _ j => c.R.X (off + j), []⟩ f.HartToExecID A n off req flags).map
    fun (M, h) =>
      { R := { c.R with
                X := setBytes c.R.X off (h.read off n)
                LSQueue := c.R.LSQueue ++ [req]
                completed := c.R.completed ++ h.completed }
        M }

/-- `ReadVal` at the address `A` into the `n` bytes of `FP` at `off`. -/
def readFPAt (off n : ℕ) (flags : RevFlag) : Option Core :=
  let req := { c.loadReq f i .RegFLOAT with Addr := A }
  (c.M.ReadMem ⟨fun _ j => c.R.FP (off + j), []⟩ f.HartToExecID A n (256 + off) req flags).map
    fun (M, h) =>
      { R := { c.R with
                FP := setBytes c.R.FP off (h.read (256 + off) n)
                LSQueue := c.R.LSQueue ++ [req]
                completed := c.R.completed ++ h.completed }
        M }

/-- The load or store `g` when the address `A` is passed to the memory. -/
def accessAt : ImplFunc → Option Core
  | .lb => loadAt 1 true
  | .lh => loadAt 2 true
  | .lw => loadAt 4 true
  | .lbu => loadAt 1 false
  | .lhu => loadAt 2 false
  | .lwu => loadAt 4 false
  | .ld => loadAt 8 true
  | .sb => storeAt (leBytes 1 (c.R.GetX i.rs2)) 1
  | .sh => storeAt (leBytes 2 (c.R.GetX i.rs2)) 2
  | .sw => storeAt (leBytes 4 (c.R.GetX i.rs2)) 4
  | .sd => storeAt (leBytes 8 (c.R.GetX i.rs2)) 8
  | .flw => floadAt 4
  | .fld => floadAt 8
  | .fsw => storeAt (c.R.GetFP 4 i.rs2) 4
  | .fsd => storeAt (c.R.GetFP 8 i.rs2) 8
  | _ => none
where
  loadAt (n : ℕ) (signed : Bool) : Option Core :=
    let narrow := n < 8 ∧ c.R.IsRV32
    let flags : RevFlag :=
      if narrow then if n < 4 then if signed then .F_SEXT32 else .F_ZEXT32 else .F_NONE
      else if n < 8 then if signed then .F_SEXT64 else .F_ZEXT64 else .F_NONE
    let off := if narrow then 4 * i.rd else 8 * i.rd
    (c.readXAt f i A off n flags).map fun c =>
      let val := leNat (getBytes c.R.X off (if narrow then 4 else 8))
      { c with R := (c.R.SetX i.rd (castLoad n signed val)).AdvancePC i }
  storeAt (bytes : List UInt8) (n : ℕ) : Option Core :=
    (c.M.WriteMem f.HartToExecID A n bytes).map fun M => { R := c.R.AdvancePC i, M }
  floadAt (n : ℕ) : Option Core :=
    if n = 8 ∨ f.HasD then
      (c.readFPAt f i A (8 * i.rd) n (if n < 8 then .F_BOXNAN else .F_NONE)).map fun c =>
        { c with R := (if n < 8 then c.R.boxDPF i.rd else c.R).AdvancePC i }
    else (c.readFPAt f i A (4 * i.rd) n .F_NONE).map fun c => { c with R := c.R.AdvancePC i }

end At

/-- The integer and floating-point loads and stores. -/
def accesses : List ImplFunc :=
  [.lb, .lh, .lw, .lbu, .lhu, .lwu, .ld, .sb, .sh, .sw, .sd, .flw, .fld, .fsw, .fsd]

/-- Every load and store passes the same address to the memory. -/
theorem runFunc_at (c : Core) (f : RevFeature) (i : RevInst) {g : ImplFunc} (hg : g ∈ accesses) :
    c.runFunc f i g = c.accessAt f i (c.effAddr i) g := by
  simp only [accesses, List.mem_cons, List.not_mem_nil, or_false] at hg
  rcases hg with rfl | rfl | rfl | rfl | rfl | rfl | rfl | rfl | rfl | rfl | rfl | rfl | rfl | rfl |
    rfl <;> rfl

theorem immVal_bounds (i : RevInst) : -2048 ≤ immVal i ∧ immVal i < 2048 := by
  have hlow := BitVec.le_two_mul_toInt (x := BitVec.ofNat 12 i.imm)
  have hhigh := BitVec.two_mul_toInt_lt (x := BitVec.ofNat 12 i.imm)
  unfold immVal
  omega

/-- The address is a sum of 64 bits. -/
theorem effAddr_eq_mod (c : Core) (i : RevInst) :
    (c.effAddr i : ℤ) = (c.R.GetX i.rs1 + immVal i) % 2 ^ 64 := by
  have himm : i.ImmSignExt 12 = (BitVec.ofNat 12 i.imm).signExtend 32 :=
    SignExt_setWidth i.imm (by decide) (by decide) (by decide)
  have hext : ((i.ImmSignExt 12).signExtend 64).toInt = immVal i := by
    rw [himm, BitVec.toInt_signExtend_of_le (by decide), BitVec.toInt_signExtend_of_le (by decide),
      immVal]
  have hmod : (((i.ImmSignExt 12).signExtend 64).toNat : ℤ) % 2 ^ 64 = immVal i % 2 ^ 64 := by
    have hbmod := Int.bmod_emod (x := ((i.ImmSignExt 12).signExtend 64).toNat) (m := 2 ^ 64)
    rw [← BitVec.toInt_eq_toNat_bmod, hext] at hbmod
    exact hbmod.symm
  calc (c.effAddr i : ℤ)
      = (c.R.GetX i.rs1 + ((i.ImmSignExt 12).signExtend 64).toNat) % 2 ^ 64 := rfl
    _ = (c.R.GetX i.rs1 + immVal i) % 2 ^ 64 := by rw [Int.add_emod, hmod, ← Int.add_emod]

/-- Loads and stores on RV32: every one of them passes to the memory the address
    modulo 2^32 exactly when the sum of the base and the immediate is not
    negative and below 2^32. -/
theorem rv32_addr_iff (c : Core) (f : RevFeature) (i : RevInst) (hrv : c.R.IsRV32 = true) :
    (∀ g ∈ accesses, c.runFunc f i g = c.accessAt f i (c.effAddr i) g) ∧
      ((c.effAddr i : ℤ) = (c.R.GetX i.rs1 + immVal i) % 2 ^ 32 ↔
        0 ≤ c.R.GetX i.rs1 + immVal i ∧ c.R.GetX i.rs1 + immVal i < 2 ^ 32) := by
  refine ⟨fun g hg => runFunc_at c f i hg, ?_⟩
  have hbounds := immVal_bounds i
  have hbase : c.R.GetX i.rs1 < 2 ^ 32 := by
    unfold RevRegFile.GetX
    split
    · have hlt := leNat_lt (getBytes c.R.X (c.R.xOff i.rs1) c.R.xLen)
      have hlen : c.R.xLen = 4 := by simp [RevRegFile.xLen, hrv]
      rw [getBytes_length] at hlt
      rw [hlen] at hlt ⊢
      exact hlt
    · decide
  rw [effAddr_eq_mod]
  omega

/-- An RV32 core whose registers are all zero. -/
def zeroCore : Core :=
  { R := { IsRV32 := true, HasD := false, X := fun _ => 0, FP := fun _ => 0, PC := 0 }
    M := { memSize := 4096, maxHeapSize := 1024, ThreadMemSize := 64, NextThreadMemAddr := 2048 } }

theorem rv32_addr_zero : (zeroCore.effAddr { imm := 4, rs1 := 5 } : ℤ) = 4 := by
  have hiff := (rv32_addr_iff zeroCore { IsRV64 := false } { imm := 4, rs1 := 5 } rfl).2
  have himm : immVal { imm := 4, rs1 := 5 } = 4 := by decide
  have hbase : zeroCore.R.GetX 5 = 0 := by decide
  rw [himm, hbase] at hiff
  exact hiff.mpr ⟨by decide, by decide⟩

/-- `lw x1, -4(x5)` with `x5` zero. -/
def loadBelowZero : RevInst := { imm := 0xffc, rd := 1, rs1 := 5 }

/-- The load passes 2^64 - 4 to the memory, not 2^32 - 4. -/
theorem loadBelowZero_not_wrapped :
    zeroCore.R.IsRV32 = true ∧
      zeroCore.runFunc { IsRV64 := false } loadBelowZero .lw =
        zeroCore.accessAt { IsRV64 := false } loadBelowZero (2 ^ 64 - 4) .lw ∧
      ((2 ^ 64 - 4 : ℕ) : ℤ) ≠
        (zeroCore.R.GetX loadBelowZero.rs1 + immVal loadBelowZero) % 2 ^ 32 := by
  have haddr : zeroCore.effAddr loadBelowZero = 2 ^ 64 - 4 := by decide
  refine ⟨rfl, ?_, by decide⟩
  rw [runFunc_at _ _ _ (by decide), haddr]

end Core

end RevCPU
