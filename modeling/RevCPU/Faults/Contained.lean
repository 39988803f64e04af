import RevCPU.Faults.Inject
import RevCPU.Lib.Run

namespace RevCPU.Faults

open Lib

/-- The bits of the floating-point register `r`. -/
def fpVal (R : RevRegFile) (r : ℕ) : ℕ :=
  if R.HasD then leNat (getBytes R.FP (8 * r) 8) else leNat (getBytes R.FP (4 * r) 4)

/-- Only the `w` lowest bits of the X register `r` have changed. -/
structure XWithin (w r : ℕ) (R R' : RevRegFile) : Prop where
  high : R'.GetX r / 2 ^ w = R.GetX r / 2 ^ w
  others : ∀ q, q ≠ r → R'.GetX q = R.GetX q
  rest : R' = { R with X := R'.X }

/-- Only the `w` lowest bits of the floating-point register `r` have changed. -/
structure FPWithin (w r : ℕ) (R R' : RevRegFile) : Prop where
  high : fpVal R' r / 2 ^ w = fpVal R r / 2 ^ w
  others : ∀ q, q ≠ r → fpVal R' q = fpVal R q
  rest : R' = { R with FP := R'.FP }

def RegWithin (w r : ℕ) (R R' : RevRegFile) : Prop := XWithin w r R R' ∨ FPWithin w r R R'

/-- Only the `w` lowest bits of the 8 bytes at `a` have changed. -/
structure MemWithin (w a : ℕ) (mem mem' : ℕ → UInt8) : Prop where
  high : leNat (getBytes mem' a 8) / 2 ^ w = leNat (getBytes mem a 8) / 2 ^ w
  others : ∀ i, i < a ∨ a + 8 ≤ i → mem' i = mem i

/-- What an injection changes at once: a memory fault its 8 bytes, a register fault
    its register, and the others nothing. -/
def InjectionWithin (P : FaultParams) (w : ℕ) (k : Picks) (s s' : FaultCPU) : FaultKind → Prop
  | .mem => pickNBytes P k.addr + 8 ≤ P.memSize.toNat ∧
      MemWithin w (pickNBytes P k.addr) s.mem s'.mem ∧ ∀ i, s'.Procs i = s.Procs i
  | .reg => s'.mem = s.mem ∧
      (∀ i, i ≠ FaultCPU.pickCore P k → s'.Procs i = s.Procs i) ∧
      RegWithin w (RevRand 31 k.reg) (s.Procs (FaultCPU.pickCore P k)).RegFile
        (s'.Procs (FaultCPU.pickCore P k)).RegFile
  | .crack | .alu => s'.mem = s.mem ∧ ∀ i, (s'.Procs i).RegFile = (s.Procs i).RegFile

/-- The fault that takes effect with an event, if any, is defined and changes at
    most the `w` lowest bits of its target. -/
def Contained (P : FaultParams) (c : FaultCodes) (w : ℕ) (s : FaultCPU) : FaultEvent → Prop
  | .tick k => s.FaultCntr = 0 → ∃ kind s', FaultCPU.pickKind c k = some kind ∧
      s.tick P c k = some s' ∧ InjectionWithin P w k s s' kind
  | .decode i Inst bits => i < P.numCores →
      ∃ Inst' p, (s.Procs i).decodeFault Inst bits = some (Inst', p) ∧
        Inst'.toNat / 2 ^ w = Inst.toNat / 2 ^ w ∧ p.RegFile = (s.Procs i).RegFile
  | .retire i ext rd bits =>
      i < P.numCores → ext ∈ Extensions (P.machine i).feature → rd < 32 →
        ∃ p, (s.Procs i).retire ext rd bits = some p ∧
          RegWithin w rd (s.Procs i).RegFile p.RegFile
  | .work _ _ _ => True

/-- The parameters that the constructor accepts, and what it makes of them. -/
structure Accepted (P : FaultParams) (c : FaultCodes) (w : ℕ) : Prop where
  width : DecodeFaultWidth P.width = some w
  pos : 1 ≤ w
  codes : DecodeFaultCodes P.faults = some c

/-- Every fault of every run stays within the width. -/
def FaultsContained (P : FaultParams) (c : FaultCodes) (w : ℕ) : Prop :=
  ∀ tr s, Run (FaultCPU.step P c) (FaultCPU.boot P) tr s → ∀ ev, Contained P c w s ev

/-- The condition on the parameters. -/
structure Fits (P : FaultParams) (c : FaultCodes) (w : ℕ) : Prop where
  crack : c.EnableCrackFaults = true → P.fault_width < 32 ∧ P.fault_width ≤ w
  mem : c.EnableMemFaults = true → P.EnableMemH = false ∧ 8 ≤ P.memSize.toNat ∧
    P.fault_width < 32 ∧ P.fault_width ≤ w
  reg : c.EnableRegFaults = true → P.fault_width < 64 ∧ P.fault_width ≤ w ∧
    ∀ i < P.numCores, (P.machine i).feature.IsRV32 = true ∨ (P.machine i).feature.RV_D = true →
      P.fault_width < 32
  alu : c.EnableALUFaults = true → ∀ i < P.numCores, (P.machine i).feature.RV_F = true →
    (P.machine i).feature.IsRV32 = true ∧ (P.machine i).feature.RV_D = false ∧ 32 ≤ w

section registers

variable {w r v : ℕ} {R : RevRegFile}

theorem XWithin.refl (w r : ℕ) (R : RevRegFile) : XWithin w r R R := ⟨rfl, fun _ _ => rfl, rfl⟩

theorem xLen_eq (R : RevRegFile) (r : ℕ) : R.xOff r = R.xLen * r := by
  unfold RevRegFile.xOff RevRegFile.xLen
  split <;> rfl

/-- Two registers of `n` bytes do not overlap. -/
theorem fields_disjoint {n q r : ℕ} (h : q ≠ r) : n * q + n ≤ n * r ∨ n * r + n ≤ n * q := by
  rcases Nat.lt_or_gt_of_ne h with hlt | hlt
  · left
    calc n * q + n = n * (q + 1) := (Nat.mul_succ n q).symm
      _ ≤ n * r := Nat.mul_le_mul_left n hlt
  · right
    calc n * r + n = n * (r + 1) := (Nat.mul_succ n r).symm
      _ ≤ n * q := Nat.mul_le_mul_left n hlt

/-- An `or` into an X register. -/
theorem xWithin_orBytes (R : RevRegFile) (r : ℕ) {n : ℕ} (hn : n = if R.IsRV32 then 4 else 8)
    (hv : v < 2 ^ w) : XWithin w r R { R with X := orBytes R.X (n * r) n v } := by
  have hfield : ∀ (X : ℕ → UInt8) (q : ℕ), RevRegFile.GetX { R with X } q =
      if q ≠ 0 then leNat (getBytes X (n * q) n) else 0 := by
    intro X q
    subst hn
    unfold RevRegFile.GetX RevRegFile.xOff RevRegFile.xLen
    cases R.IsRV32 <;> rfl
  have hold : ∀ q, R.GetX q = if q ≠ 0 then leNat (getBytes R.X (n * q) n) else 0 :=
    fun q => hfield R.X q
  refine ⟨?_, ?_, rfl⟩
  · rw [hfield, hold]
    by_cases hr : r ≠ 0
    · rw [if_pos hr, if_pos hr]
      exact orBytes_high R.X (n * r) n hv
    · rw [if_neg hr, if_neg hr]
  · intro q hq
    rw [hfield, hold, orBytes_other _ (fields_disjoint hq)]

/-- An `or` through `SetX` and `GetX`. -/
theorem xWithin_SetX (R : RevRegFile) (r : ℕ) (hv : v < 2 ^ w) :
    XWithin w r R (R.SetX r (v ||| R.GetX r)) := by
  by_cases hr : r = 0
  · subst hr
    refine ⟨rfl, ?_, rfl⟩
    intro q hq
    have hother : getBytes (setBytes R.X (R.xOff 0) (leBytes R.xLen 0)) (R.xOff q) R.xLen =
        getBytes R.X (R.xOff q) R.xLen := getBytes_setBytes_of_disjoint R.X (by
        rw [leBytes_length, xLen_eq, xLen_eq]
        exact fields_disjoint hq)
    unfold RevRegFile.GetX
    rw [if_pos hq, if_pos hq]
    exact congrArg leNat hother
  · have hset : R.SetX r (v ||| R.GetX r) =
        { R with X := orBytes R.X (R.xLen * r) R.xLen v } := by
      unfold RevRegFile.SetX RevRegFile.GetX orBytes
      rw [if_pos hr, if_pos hr, Nat.or_comm, xLen_eq]
    rw [hset]
    exact xWithin_orBytes R r rfl hv

/-- An `or` into a floating-point register of its own width. -/
theorem fpWithin_orBytes (R : RevRegFile) (r : ℕ) {n : ℕ} (hn : n = if R.HasD then 8 else 4)
    (hv : v < 2 ^ w) : FPWithin w r R { R with FP := orBytes R.FP (n * r) n v } := by
  have hfield : ∀ (FP : ℕ → UInt8) (q : ℕ),
      fpVal { R with FP } q = leNat (getBytes FP (n * q) n) := by
    intro FP q
    subst hn
    unfold fpVal
    split <;> rfl
  refine ⟨?_, ?_, rfl⟩
  · rw [hfield, show fpVal R r = fpVal { R with FP := R.FP } r from rfl, hfield]
    exact orBytes_high R.FP (n * r) n hv
  · intro q hq
    rw [hfield, show fpVal R q = fpVal { R with FP := R.FP } q from rfl, hfield,
      orBytes_other _ (fields_disjoint hq)]

end registers

/-- A register fault of a width that its masks have. -/
theorem FaultProc.HandleRegFault_within (p : FaultProc) {width w : ℕ} (hdef : width < 64)
    (hnarrow : p.machine.feature.IsRV32 = true ∨ p.machine.feature.RV_D = true → width < 32)
    (hle : width ≤ w) (reg cls bits : ℕ) :
    ∃ p', p.HandleRegFault width reg cls bits = some p' ∧
      RegWithin w (RevRand 31 reg) p.RegFile p'.RegFile := by
  have hv : RevRand (2 ^ width - 1) bits < 2 ^ w := lt_two_pow_of_le (RevRand_le _ _) hle
  obtain ⟨hrv, hD⟩ := p.regs
  unfold HandleRegFault
  simp only [lowOnes_eq, if_pos hdef, Option.map_some]
  split
  · split
    · rename_i h32
      rw [if_pos (hnarrow (.inl h32))]
      exact ⟨_, rfl, .inl (xWithin_orBytes p.RegFile _ (by rw [hrv, if_pos h32]) hv)⟩
    · rename_i h64
      exact ⟨_, rfl, .inl (xWithin_orBytes p.RegFile _ (by rw [hrv, if_neg h64]) hv)⟩
  · split
    · rename_i hd
      rw [if_pos (hnarrow (.inr hd))]
      exact ⟨_, rfl, .inr (fpWithin_orBytes p.RegFile _ (by rw [hD, if_pos hd]) hv)⟩
    · rename_i hd
      exact ⟨_, rfl, .inr (fpWithin_orBytes p.RegFile _ (by rw [hD, if_neg hd]) hv)⟩

end RevCPU.Faults
