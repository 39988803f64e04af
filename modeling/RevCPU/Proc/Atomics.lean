import RevCPU.Mem.Reserve
import RevCPU.MemCtrl.AmoBack
import RevCPU.Proc.LoadModes

namespace RevCPU

open Lib RevBasicMemCtrl

/-- The operations of the AMOs. -/
inductive AmoOp
  | swap | add | xor | and | or | min | max | minu | maxu
  deriving DecidableEq, Repr

namespace AmoOp

/-- The flag that the implementation function of the AMO passes. -/
def flag : AmoOp → RevFlag
  | swap => .F_AMOSWAP
  | add => .F_AMOADD
  | xor => .F_AMOXOR
  | and => .F_AMOAND
  | or => .F_AMOOR
  | min => .F_AMOMIN
  | max => .F_AMOMAX
  | minu => .F_AMOMINU
  | maxu => .F_AMOMAXU

/-- What the instruction set lets the AMO store: the operation on the old value
    and the value of `rs2`, signed or unsigned. -/
def eval (op : AmoOp) {w : ℕ} (old x : BitVec w) : BitVec w :=
  match op with
  | swap => x
  | add => old + x
  | xor => old ^^^ x
  | and => old &&& x
  | or => old ||| x
  | min => BitVec.ofInt w (Min.min old.toInt x.toInt)
  | max => BitVec.ofInt w (Max.max old.toInt x.toInt)
  | minu => BitVec.ofNat w (Min.min old.toNat x.toNat)
  | maxu => BitVec.ofNat w (Max.max old.toNat x.toNat)

/-- The flags of an AMO besides that of its operation. -/
def aqrl (aq rl : Bool) : RevFlag :=
  if aq && rl then .F_AQ ||| .F_RL else if aq then .F_AQ else if rl then .F_RL else .F_NONE

def sext (wide : Bool) : RevFlag := if wide then .F_SEXT64 else .F_NONE

theorem flag_has (op op' : AmoOp) (aq rl wide : Bool) :
    RevFlagHas (op.flag ||| aqrl aq rl ||| sext wide) op'.flag = decide (op = op') := by
  cases op <;> cases op' <;> cases aq <;> cases rl <;> cases wide <;> decide

/-- `ApplyAMO` finds the operation of the AMO and does what the instruction set
    says. -/
theorem ApplyAMO_eq (op : AmoOp) (aq rl wide : Bool) {w : ℕ} (old x : BitVec w) :
    ApplyAMO (op.flag ||| aqrl aq rl ||| sext wide) old x = op.eval old x := by
  have hhas := fun op' => flag_has op op' aq rl wide
  generalize op.flag ||| aqrl aq rl ||| sext wide = flags at hhas ⊢
  have hadd : RevFlagHas flags .F_AMOADD = decide (op = .add) := hhas .add
  have hxor : RevFlagHas flags .F_AMOXOR = decide (op = .xor) := hhas .xor
  have hand : RevFlagHas flags .F_AMOAND = decide (op = .and) := hhas .and
  have hor : RevFlagHas flags .F_AMOOR = decide (op = .or) := hhas .or
  have hswap : RevFlagHas flags .F_AMOSWAP = decide (op = .swap) := hhas .swap
  have hmin : RevFlagHas flags .F_AMOMIN = decide (op = .min) := hhas .min
  have hmax : RevFlagHas flags .F_AMOMAX = decide (op = .max) := hhas .max
  have hminu : RevFlagHas flags .F_AMOMINU = decide (op = .minu) := hhas .minu
  have hmaxu : RevFlagHas flags .F_AMOMAXU = decide (op = .maxu) := hhas .maxu
  unfold ApplyAMO
  simp only [hadd, hxor, hand, hor, hswap, hmin, hmax, hminu, hmaxu, decide_eq_true_eq]
  cases op with
  | min =>
    simp only [reduceCtorEq, if_false, if_true, eval, BitVec.slt_iff_toInt_lt]
    split
    · rw [Int.min_eq_right (by omega), BitVec.ofInt_toInt]
    · rw [Int.min_eq_left (by omega), BitVec.ofInt_toInt]
  | max =>
    simp only [reduceCtorEq, if_false, if_true, eval, BitVec.slt_iff_toInt_lt]
    split
    · rw [Int.max_eq_right (by omega), BitVec.ofInt_toInt]
    · rw [Int.max_eq_left (by omega), BitVec.ofInt_toInt]
  | minu =>
    simp only [reduceCtorEq, if_false, if_true, eval, BitVec.lt_def]
    split
    · rw [Nat.min_eq_right (by omega), BitVec.ofNat_toNat, BitVec.setWidth_eq]
    · rw [Nat.min_eq_left (by omega), BitVec.ofNat_toNat, BitVec.setWidth_eq]
  | maxu =>
    simp only [reduceCtorEq, if_false, if_true, eval, BitVec.lt_def]
    split
    · rw [Nat.max_eq_right (by omega), BitVec.ofNat_toNat, BitVec.setWidth_eq]
    · rw [Nat.max_eq_left (by omega), BitVec.ofNat_toNat, BitVec.setWidth_eq]
  | _ => rfl

end AmoOp

/-- `R->RV32[r]` or `R->RV64[r]`: unlike `GetX` it reads the storage of x0. -/
def RevRegFile.RV (R : RevRegFile) (r : ℕ) : ℕ := leNat (getBytes R.X (R.xOff r) R.xLen)

namespace Core

/-- The `MemReq` of an atomic instruction. -/
def atomicReq (R : RevRegFile) (f : RevFeature) (i : RevInst) : MemReq :=
  { Addr := R.RV i.rs1, DestReg := i.rd, RegType := .RegGPR, Hart := f.HartToExecID,
    ReqType := .MemOpAMO, isOutstanding := true, MarkLoadCompleteFunc := some 0 }

/-- The registers as objects of the host. -/
def regHost (R : RevRegFile) : Host := ⟨fun q j => R.X (q + j), []⟩

/-- The register file after a call that had `rd` as its target. -/
def putRd (R : RevRegFile) (i : RevInst) (req : MemReq) (h : Host) : RevRegFile :=
  RevRegFile.AdvancePC
    { R with
      X := setBytes R.X (R.xOff i.rd) (h.read (R.xOff i.rd) R.xLen)
      LSQueue := R.LSQueue ++ [req]
      completed := R.completed ++ h.completed } i

/-- `M->LR` on the registers of the instruction. -/
def LR (c : Core) (f : RevFeature) (i : RevInst) (n : ℕ) (aq rl : Bool) (flags : RevFlag) :
    Option Core :=
  (c.M.LRBase (regHost c.R) f.HartToExecID (c.R.RV i.rs1) n (c.R.xOff i.rd) aq.toNat rl.toNat
    (atomicReq c.R f i) flags).map fun (_, M, h) => { R := putRd c.R i (atomicReq c.R f i) h, M }

def lrw (c : Core) (f : RevFeature) (i : RevInst) (aq rl : Bool) : Option Core :=
  c.LR f i 4 aq rl (if c.R.IsRV32 then .F_SEXT32 else .F_SEXT64)

def lrd (c : Core) (f : RevFeature) (i : RevInst) (aq rl : Bool) : Option Core :=
  c.LR f i 8 aq rl .F_SEXT64

/-- `M->AMOVal` on the registers of the instruction. -/
def AMOVal (c : Core) (f : RevFeature) (i : RevInst) (n : ℕ) (flags : RevFlag) : Option Core :=
  (c.M.AMOMem (regHost c.R) f.HartToExecID (c.R.RV i.rs1) n (c.R.xOff i.rs2) (c.R.xOff i.rd)
    (atomicReq c.R f i) flags).map fun (M, h) => { R := putRd c.R i (atomicReq c.R f i) h, M }

/-- `amooper<F_AMO>`: only on RV64 the read is to be sign-extended. -/
def amooper (op : AmoOp) (c : Core) (f : RevFeature) (i : RevInst) (aq rl : Bool) : Option Core :=
  c.AMOVal f i 4 (op.flag ||| AmoOp.aqrl aq rl ||| AmoOp.sext (!c.R.IsRV32))

/-- `amooperd<F_AMO>`. -/
def amooperd (op : AmoOp) (c : Core) (f : RevFeature) (i : RevInst) (aq rl : Bool) : Option Core :=
  c.AMOVal f i 8 (op.flag ||| AmoOp.aqrl aq rl ||| AmoOp.sext false)

end Core

inductive AtomicOp
  | lr
  | amo (op : AmoOp)
  deriving DecidableEq, Repr

/-- An LR or AMO instruction: its operation, its width and the bits `aq` and
    `rl`. -/
structure AtomicInst where
  op : AtomicOp
  double : Bool
  aq : Bool := false
  rl : Bool := false
  deriving DecidableEq, Repr

namespace AtomicInst

def size (a : AtomicInst) : ℕ := if a.double then 8 else 4

/-- The XLENs that have the instruction. -/
def avail (a : AtomicInst) (IsRV32 : Bool) : Bool := !(a.double && IsRV32)

def isAMO (a : AtomicInst) : Bool :=
  match a.op with
  | .lr => false
  | .amo _ => true

/-- The implementation function of the instruction. -/
def run (a : AtomicInst) (c : Core) (f : RevFeature) (i : RevInst) : Option Core :=
  match a.op, a.double with
  | .lr, false => c.lrw f i a.aq a.rl
  | .lr, true => c.lrd f i a.aq a.rl
  | .amo op, false => c.amooper op f i a.aq a.rl
  | .amo op, true => c.amooperd op f i a.aq a.rl

/-- The memory that the instruction set defines. -/
def store (a : AtomicInst) (mem : ℕ → UInt8) (A x : ℕ) : ℕ → UInt8 :=
  match a.op with
  | .lr => mem
  | .amo op =>
    setBytes mem A (leBytes a.size (op.eval (BitVec.ofNat (8 * a.size)
      (leNat (getBytes mem A a.size))) (BitVec.ofNat (8 * a.size) x)).toNat)

/-- What the instruction set says about the registers and the memory before and
    after the instruction. -/
structure Conforms (a : AtomicInst) (i : RevInst) (R R' : RevRegFile) (mem mem' : ℕ → UInt8) : Prop where
  rd : R'.GetX i.rd = extend true (8 * a.size) (8 * R.xLen)
    (leNat (getBytes mem (R.GetX i.rs1) a.size))
  others : ∀ r, r ≠ i.rd → R'.GetX r = R.GetX r
  floats : R'.FP = R.FP
  memory : mem' = a.store mem (R.GetX i.rs1) (R.GetX i.rs2)

/-- The storage of x0 is zero, or the instruction does not read it. -/
def ZeroRead (a : AtomicInst) (i : RevInst) (R : RevRegFile) : Prop :=
  i.rs1 = 0 ∨ a.isAMO = true ∧ i.rs2 = 0 → R.RV 0 = 0

/-- An LR finds no reservation of its address. -/
def Unreserved (a : AtomicInst) (m : RevMem) (A : ℕ) : Prop :=
  a.op = .lr → ∀ r ∈ m.LRSC, r.addr ≠ A

/-- The instruction is right with local memory, whatever its contents. -/
def LocalConforms (a : AtomicInst) (f : RevFeature) (i : RevInst) (R : RevRegFile) : Prop :=
  ∀ M : RevMem, M.Serves (R.GetX i.rs1) → a.Unreserved M (R.GetX i.rs1) →
    ∃ c, a.run ⟨R, M⟩ f i = some c ∧ a.Conforms i R c.R M.view c.M.view

/-- The responses to the write half of an AMO. -/
def receiveWrites (R : RevRegFile) (ctrl : RevBasicMemCtrl) (off : ℕ) (ids : List ℕ) :
    Option (RevBasicMemCtrl × RevRegFile) :=
  (ctrl.handleWriteResps (Core.regHost R) ids).map fun (ctrl, h) =>
    (ctrl, { R with
              X := setBytes R.X off (h.read off R.xLen)
              completed := R.completed ++ h.completed })

/-- The instruction is right through a controller with nothing else to do:
    whatever the contents of the memory and the orders of the requests and
    responses. -/
def CtrlConforms (P : Params) (a : AtomicInst) (f : RevFeature) (i : RevInst) (R : RevRegFile) : Prop :=
  ∀ (D : RevMem) (mem : ℕ → UInt8) (host : Host) (tr : List (CtrlSys × Event)) (s : CtrlSys),
    D.Serves (R.GetX i.rs1) → a.Unreserved D (R.GetX i.rs1) →
    Run (CtrlSys.step P) (CtrlSys.init host) tr s → s.tick = none → s.ctrl.rqstQ = [] →
    s.ctrl.outstanding = [] →
    ∃ d ctrl op, a.run ⟨R, { D with ctrl := some s.ctrl }⟩ f i = some d ∧ d.M.ctrl = some ctrl ∧
      ctrl.rqstQ = [op] ∧
      ∀ evs, evs.Perm (readAnswers P ctrl.nextId op mem) →
        ∃ ctrl₁ R₁, Core.receive d.R (dispatchSlot P ctrl 0 op) (R.xOff i.rd) evs =
            some (ctrl₁, R₁) ∧
          match a.op with
          | .lr => a.Conforms i R R₁ mem mem
          | .amo _ => ∃ half, ctrl₁.rqstQ = [half] ∧
            ∀ rs ids, rs.Perm (newRqsts P ctrl₁ half) → ids.Perm (rs.map StdRqst.id) →
              ∃ ctrl₂ R₂, receiveWrites R₁ (dispatchSlot P ctrl₁ 0 half) (R.xOff i.rd) ids =
                  some (ctrl₂, R₂) ∧
                a.Conforms i R R₂ mem (applyWrites mem rs)

end AtomicInst

end RevCPU
