import RevCPU.Mem.Access
import RevCPU.Proc.Decode
import RevCPU.Proc.RegFile

namespace RevCPU

open Lib

/-- A 12-bit immediate without its sign bit is its own sign extension. -/
theorem ImmSignExt_eq {i : RevInst} {v : ℕ} (hv : i.imm % 2 ^ 12 = v) (hlt : v < 2 ^ 11) :
    i.ImmSignExt 12 = BitVec.ofNat 32 v := by
  have hzero : ZeroExt (BitVec.ofNat 64 i.imm) 12 = BitVec.ofNat 64 v := by
    apply BitVec.eq_of_toNat_eq
    have hmask : (~~~(~~~(0 : BitVec 64) <<< 12)).toNat = 2 ^ 12 - 1 := by decide
    rw [ZeroExt, BitVec.toNat_and, hmask, Nat.and_two_pow_sub_one_eq_mod]
    simp only [BitVec.toNat_ofNat]
    omega
  have hsign : ((1 <<< (12 - 1) : ℕ) : BitVec 64) = BitVec.ofNat 64 (2 ^ 11) := by decide
  have hflip : BitVec.ofNat 64 v ^^^ BitVec.ofNat 64 (2 ^ 11) = BitVec.ofNat 64 (v + 2 ^ 11) := by
    rw [← xor_two_pow hlt]
    simp
  simp only [RevInst.ImmSignExt, SignExt]
  rw [hzero, hsign, hflip]
  apply BitVec.eq_of_toNat_eq
  simp only [BitVec.toNat_setWidth, BitVec.toNat_sub, BitVec.toNat_ofNat]
  omega

/-- A register file and the memory it works on. -/
structure Core where
  R : RevRegFile
  M : RevMem

namespace Core

/-- The effective address of a load or store. -/
def effAddr (c : Core) (i : RevInst) : ℕ :=
  (c.R.GetX i.rs1 + ((i.ImmSignExt 12).signExtend 64).toNat) % W64

theorem effAddr_eq (c : Core) {i : RevInst} {v : ℕ} (hv : i.imm % 2 ^ 12 = v) (hlt : v < 2 ^ 11) :
    c.effAddr i = (c.R.GetX i.rs1 + v) % W64 := by
  have hext : ((BitVec.ofNat 32 v).signExtend 64).toNat = v := by
    rw [BitVec.toNat_signExtend]
    have hmsb : (BitVec.ofNat 32 v).msb = false := by
      rw [BitVec.msb_eq_false_iff_two_mul_lt]
      simp only [BitVec.toNat_ofNat]
      omega
    simp [hmsb]
    omega
  rw [effAddr, ImmSignExt_eq hv hlt, hext]

/-- The `MemReq` that a load builds. -/
def loadReq (c : Core) (f : RevFeature) (i : RevInst) (RegType : RevRegClass) : MemReq :=
  { Addr := c.effAddr i, DestReg := i.rd, RegType, Hart := f.HartToExecID, ReqType := .MemOpREAD,
    isOutstanding := true, MarkLoadCompleteFunc := some 0 }

/-- `ReadVal` into the `n` bytes of `X` at `off`. -/
def readX (c : Core) (f : RevFeature) (i : RevInst) (off n : ℕ) (flags : RevFlag) : Option Core :=
  let req := c.loadReq f i .RegGPR
  (c.M.ReadMem ⟨fun _ j => c.R.X (off + j), []⟩ f.HartToExecID req.Addr n off req flags).map
    fun (M, h) =>
      { R := { c.R with
                X := setBytes c.R.X off (h.read off n)
                LSQueue := c.R.LSQueue ++ [req]
                completed := c.R.completed ++ h.completed }
        M }

/-- `ReadVal` into the `n` bytes of `FP` at `off`. -/
def readFP (c : Core) (f : RevFeature) (i : RevInst) (off n : ℕ) (flags : RevFlag) :
    Option Core :=
  let req := c.loadReq f i .RegFLOAT
  (c.M.ReadMem ⟨fun _ j => c.R.FP (off + j), []⟩ f.HartToExecID req.Addr n (256 + off) req
    flags).map fun (M, h) =>
      { R := { c.R with
                FP := setBytes c.R.FP off (h.read (256 + off) n)
                LSQueue := c.R.LSQueue ++ [req]
                completed := c.R.completed ++ h.completed }
        M }

/-- `static_cast<T>` of a register value for an integer `T` of `n` bytes. -/
def castLoad (n : ℕ) (signed : Bool) (val : ℕ) : ℕ :=
  let v := BitVec.ofNat (8 * n) val
  if signed then (v.signExtend 64).toNat else v.toNat

/-- `load<T>` for an integer `T` of `n` bytes. -/
def load (c : Core) (f : RevFeature) (i : RevInst) (n : ℕ) (signed : Bool) : Option Core :=
  let narrow := n < 8 ∧ c.R.IsRV32
  let flags : RevFlag :=
    if narrow then if n < 4 then if signed then .F_SEXT32 else .F_ZEXT32 else .F_NONE
    else if n < 8 then if signed then .F_SEXT64 else .F_ZEXT64 else .F_NONE
  let off := if narrow then 4 * i.rd else 8 * i.rd
  (c.readX f i off n flags).map fun c =>
    let val := leNat (getBytes c.R.X off (if narrow then 4 else 8))
    { c with R := (c.R.SetX i.rd (castLoad n signed val)).AdvancePC i }

/-- `store<T>` for an integer `T` of `n` bytes. -/
def store (c : Core) (f : RevFeature) (i : RevInst) (n : ℕ) : Option Core :=
  (c.M.WriteMem f.HartToExecID (c.effAddr i) n (leBytes n (c.R.GetX i.rs2))).map fun M =>
    { R := c.R.AdvancePC i, M }

/-- `fload<T>` for a floating-point `T` of `n` bytes. -/
def fload (c : Core) (f : RevFeature) (i : RevInst) (n : ℕ) : Option Core :=
  if n = 8 ∨ f.HasD then
    (c.readFP f i (8 * i.rd) n (if n < 8 then .F_BOXNAN else .F_NONE)).map fun c =>
      { c with R := (if n < 8 then c.R.boxDPF i.rd else c.R).AdvancePC i }
  else
    (c.readFP f i (4 * i.rd) n .F_NONE).map fun c => { c with R := c.R.AdvancePC i }

/-- `fstore<T>` for a floating-point `T` of `n` bytes. -/
def fstore (c : Core) (f : RevFeature) (i : RevInst) (n : ℕ) : Option Core :=
  (c.M.WriteMem f.HartToExecID (c.effAddr i) n (c.R.GetFP n i.rs2)).map fun M =>
    { R := c.R.AdvancePC i, M }

/-- The implementation functions. Those of the integer loads and stores of the C
    extension mask the immediate. -/
def runFunc (c : Core) (f : RevFeature) (i : RevInst) : ImplFunc → Option Core
  | .lb => c.load f i 1 true
  | .lh => c.load f i 2 true
  | .lw => c.load f i 4 true
  | .lbu => c.load f i 1 false
  | .lhu => c.load f i 2 false
  | .sb => c.store f i 1
  | .sh => c.store f i 2
  | .sw => c.store f i 4
  | .lwu => c.load f i 4 false
  | .ld => c.load f i 8 true
  | .sd => c.store f i 8
  | .flw => c.fload f i 4
  | .fsw => c.fstore f i 4
  | .fld => c.fload f i 8
  | .fsd => c.fstore f i 8
  | .clwsp => c.load f { i with imm := i.imm &&& 0b11111111 } 4 true
  | .cswsp => c.store f { i with imm := i.imm &&& 0b11111111 } 4
  | .clw => c.load f { i with imm := i.imm &&& 0b1111111 } 4 true
  | .csw => c.store f { i with imm := i.imm &&& 0b1111111 } 4
  | .cldsp => c.load f { i with imm := i.imm &&& 0b111111111 } 8 true
  | .csdsp => c.store f { i with imm := i.imm &&& 0b1111111111 } 8
  | .cld => c.load f { i with imm := i.imm &&& 0b11111111 } 8 true
  | .csd => c.store f { i with imm := i.imm &&& 0b11111111 } 8
  | .cflwsp => c.fload f i 4
  | .cfswsp => c.fstore f i 4
  | .cflw => c.fload f i 4
  | .cfsw => c.fstore f i 4
  | .cfldsp => c.fload f i 8
  | .cfsdsp => c.fstore f i 8
  | .cfld => c.fload f i 8
  | .cfsd => c.fstore f i 8

/-- Decode a word and run the implementation function of its table entry;
    `none` is a fatal error. -/
def run (c : Core) (f : RevFeature) (Inst : ℕ) : Option Core :=
  (DecodeInst f Inst).bind fun i =>
    (SeedInstTable f)[i.entry]?.bind fun e => c.runFunc f i e.func

end Core

end RevCPU
