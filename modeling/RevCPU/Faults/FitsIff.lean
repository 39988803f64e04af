import RevCPU.Faults.Within

namespace RevCPU.Faults

open Lib

variable {P : FaultParams} {c : FaultCodes} {w : ℕ}

/-- The counter runs down without a fault. -/
theorem idle_run (P : FaultParams) (c : FaultCodes) (s : FaultCPU) :
    ∃ tr, Run (FaultCPU.step P c) s tr { s with FaultCntr := 0 } := by
  obtain ⟨FaultCntr, Procs, mem⟩ := s
  induction FaultCntr with
  | zero => exact ⟨[], .nil⟩
  | succ n ih =>
    obtain ⟨tr, hrun⟩ := ih
    have hstep : FaultCPU.step P c ⟨n + 1, Procs, mem⟩ (.tick {}) = some ⟨n, Procs, mem⟩ := rfl
    exact ⟨_, hrun.cons hstep⟩

/-- The machine when the first fault is due. -/
def due (P : FaultParams) : FaultCPU := { FaultCPU.boot P with FaultCntr := 0 }

/-- The faults that are first injected, and those of the event after them. -/
theorem FaultsContained.due (h : FaultsContained P c w) (ev : FaultEvent) :
    Contained P c w (due P) ev := by
  obtain ⟨tr, hrun⟩ := idle_run P c (FaultCPU.boot P)
  exact h tr _ hrun ev

theorem FaultsContained.next (h : FaultsContained P c w) (ev : FaultEvent) {s : FaultCPU}
    (hstep : (Faults.due P).step P c ev = some s) (ev' : FaultEvent) : Contained P c w s ev' := by
  obtain ⟨tr, hrun⟩ := idle_run P c (FaultCPU.boot P)
  exact h _ s (hrun.snoc hstep) ev'

/-- Every enabled kind is selected by some number. -/
theorem exists_selector (kind : FaultKind) (h : c.enabled kind = true) :
    ∃ n, ∀ k : Picks, k.selector = n → FaultCPU.pickKind c k = some kind := by
  obtain ⟨n, hn, hget⟩ := List.mem_iff_getElem.mp (mem_myfaults.mpr h)
  refine ⟨n, fun k hk => ?_⟩
  have hidx : (if c.myfaults.length ≠ 1 then RevRand (c.myfaults.length - 1) k.selector else 0) =
      n := by
    split
    · rw [hk, RevRand_of_le (by omega)]
    · omega
  unfold FaultCPU.pickKind
  rw [hidx, List.getElem?_eq_getElem hn, hget]

/-- Every core is selected by its number. -/
theorem pickCore_of_lt {k : Picks} {i : ℕ} (hi : i < P.numCores) (hk : k.core = i) :
    FaultCPU.pickCore P k = i := by
  unfold FaultCPU.pickCore
  split
  · rw [hk, RevRand_of_le (by omega)]
  · omega

theorem tick_due {kind : FaultKind} {k : Picks} (hkind : FaultCPU.pickKind c k = some kind) :
    (due P).tick P c k =
      ((due P).inject P k kind).map fun s => { s with FaultCntr := P.fault_width } := by
  unfold FaultCPU.tick
  have hzero : (due P).FaultCntr = 0 := rfl
  rw [if_pos hzero, hkind, Option.bind_some]

/-- What an injection of an enabled kind may do at first. -/
theorem FaultsContained.injected (h : FaultsContained P c w) {kind : FaultKind} {k : Picks}
    (hkind : FaultCPU.pickKind c k = some kind) :
    ∃ s, (Faults.due P).inject P k kind = some s ∧ InjectionWithin P w k (Faults.due P) s kind := by
  obtain ⟨kind', s', hkind', htick, hwithin⟩ := h.due (.tick k) rfl
  obtain rfl := Option.some.inj (hkind.symm.trans hkind')
  rw [tick_due hkind] at htick
  obtain ⟨s, hs, rfl⟩ := Option.map_eq_some_iff.mp htick
  refine ⟨s, hs, ?_⟩
  cases kind <;> exact hwithin

theorem fits_crack (h : FaultsContained P c w) (henabled : c.EnableCrackFaults = true) :
    P.fault_width < 32 ∧ P.fault_width ≤ w := by
  obtain ⟨n, hn⟩ := exists_selector (c := c) .crack henabled
  have hcore := pickCore_lt P { selector := n }
  have hstep := tick_due (P := P) (hn { selector := n } rfl)
  obtain ⟨Inst', p, hdecode, hhigh, -⟩ := h.next (.tick { selector := n }) hstep
    (.decode (FaultCPU.pickCore P { selector := n }) 0 (2 ^ P.fault_width - 1)) hcore
  simp only [FaultCPU.setProc, Function.update_self, FaultProc.decodeFault,
    FaultProc.HandleCrackFault, if_true, oneShl_eq] at hdecode
  by_cases hlt : P.fault_width < 32
  · rw [if_pos hlt, Option.map_some] at hdecode
    obtain ⟨rfl, -⟩ := Prod.mk.inj (Option.some.inj hdecode)
    refine ⟨hlt, le_of_ones ?_⟩
    have hpow : 2 ^ P.fault_width ≤ 2 ^ 31 := Nat.pow_le_pow_right (by decide) (by omega)
    have hzero : (0 : BitVec 32).toNat = 0 := rfl
    rw [RevRand_of_le (Nat.le_refl _), BitVec.toNat_or, BitVec.toNat_ofNat, hzero, Nat.zero_or,
      Nat.zero_div, Nat.mod_eq_of_lt (by omega)] at hhigh
    exact hhigh
  · rw [if_neg hlt, Option.map_none] at hdecode
    exact absurd hdecode (by simp)

theorem fits_mem (h : FaultsContained P c w) (henabled : c.EnableMemFaults = true) :
    P.EnableMemH = false ∧ 8 ≤ P.memSize.toNat ∧ P.fault_width < 32 ∧ P.fault_width ≤ w := by
  obtain ⟨n, hn⟩ := exists_selector (c := c) .mem henabled
  obtain ⟨s, hinject, hroom, hwithin, -⟩ :=
    h.injected (hn { selector := n, bits := 2 ^ P.fault_width - 1 } rfl)
  obtain ⟨mem, hmem, rfl⟩ := Option.map_eq_some_iff.mp hinject
  unfold HandleMemFault at hmem
  rw [oneShl_eq] at hmem
  by_cases hlt : P.fault_width < 32
  · rw [if_pos hlt, Option.bind_some] at hmem
    simp only at hmem
    split at hmem
    · rename_i hlocal
      obtain rfl := Option.some.inj hmem
      refine ⟨hlocal.1, by omega, hlt, le_of_ones ?_⟩
      have hpow : 2 ^ P.fault_width ≤ 2 ^ (8 * 8) := Nat.pow_le_pow_right (by decide) (by omega)
      have hpos := Nat.two_pow_pos P.fault_width
      have hhigh := hwithin.high
      have hold : leNat (getBytes (due P).mem (pickNBytes P 0) 8) = 0 := by
        have hbytes : getBytes (due P).mem (pickNBytes P 0) 8 = List.replicate 8 0 := rfl
        rw [hbytes, leNat_zeros]
      have hnew := orBytes_zero (pickNBytes P 0) (n := 8) (v := 2 ^ P.fault_width - 1) (by omega)
      simp only [RevRand_of_le (Nat.le_refl _)] at hhigh
      rw [hold, Nat.zero_div] at hhigh
      rw [← hnew]
      exact hhigh
    · exact absurd hmem (by simp)
  · rw [if_neg hlt, Option.bind_none] at hmem
    exact absurd hmem (by simp)

/-- A register fault of the core `i` that sets every bit of its mask. -/
theorem regFault_due (h : FaultsContained P c w) (henabled : c.EnableRegFaults = true) {i : ℕ}
    (hi : i < P.numCores) (cls : ℕ) :
    ∃ p, ((due P).Procs i).HandleRegFault P.fault_width 1 cls (2 ^ P.fault_width - 1) = some p ∧
      RegWithin w 1 ((due P).Procs i).RegFile p.RegFile := by
  obtain ⟨n, hn⟩ := exists_selector (c := c) .reg henabled
  let k : Picks := { selector := n, core := i, reg := 1, cls := cls, bits := 2 ^ P.fault_width - 1 }
  obtain ⟨s, hinject, -, -, hwithin⟩ := h.injected (hn k rfl)
  have hcore : FaultCPU.pickCore P k = i := pickCore_of_lt hi rfl
  obtain ⟨p, hp, rfl⟩ := Option.map_eq_some_iff.mp hinject
  rw [hcore] at hp hwithin
  simp only [FaultCPU.setProc, Function.update_self] at hwithin
  exact ⟨p, hp, hwithin⟩

/-- A value of ones in the X register 1 shows the width. -/
theorem le_of_xOnes {n width : ℕ} {R : RevRegFile} (hX : R.X = fun _ => 0)
    (hn : n = if R.IsRV32 then 4 else 8) (hwidth : width < 8 * n)
    (h : RegWithin w 1 R { R with X := orBytes R.X (n * 1) n (2 ^ width - 1) }) : width ≤ w := by
  have hpos := Nat.two_pow_pos width
  have hpow : 2 ^ width ≤ 2 ^ (8 * n) := Nat.pow_le_pow_right (by decide) (by omega)
  have hfield : ∀ X : ℕ → UInt8, RevRegFile.GetX { R with X } 1 =
      leNat (getBytes X (n * 1) n) := by
    intro X
    subst hn
    unfold RevRegFile.GetX RevRegFile.xOff RevRegFile.xLen
    cases R.IsRV32 <;> rfl
  have hnew : RevRegFile.GetX { R with X := orBytes R.X (n * 1) n (2 ^ width - 1) } 1 =
      2 ^ width - 1 := by
    rw [hfield, hX, orBytes_zero _ (by omega)]
  have hold : R.GetX 1 = 0 := by
    have hget := hfield R.X
    rw [hX, getBytes, List.map_const', List.length_range, leNat_zeros] at hget
    rw [← hget, ← hX]
  rcases h with hx | hfp
  · have hhigh := hx.high
    rw [hnew, hold, Nat.zero_div] at hhigh
    exact le_of_ones hhigh
  · have hsame : RevRegFile.GetX { R with X := orBytes R.X (n * 1) n (2 ^ width - 1) } 1 =
        R.GetX 1 := by
      rw [hfp.rest]
    rw [hnew, hold] at hsame
    exact le_of_ones (by rw [hsame, Nat.zero_div])

theorem fits_reg (h : FaultsContained P c w) (henabled : c.EnableRegFaults = true) :
    P.fault_width < 64 ∧ P.fault_width ≤ w ∧
      ∀ i < P.numCores, (P.machine i).feature.IsRV32 = true ∨ (P.machine i).feature.RV_D = true →
        P.fault_width < 32 := by
  have hx : ∀ i < P.numCores, P.fault_width < 64 ∧ P.fault_width ≤ w ∧
      ((P.machine i).feature.IsRV32 = true → P.fault_width < 32) := by
    intro i hi
    obtain ⟨p, hp, hwithin⟩ := regFault_due h henabled hi 1
    have hpick : RevRand 1 1 ≠ 0 := by decide
    unfold FaultProc.HandleRegFault at hp
    simp only [hpick, ne_eq, not_false_eq_true, decide_true, Bool.or_true, if_true, lowOnes_eq] at hp
    split at hp
    · rename_i h32
      by_cases hlt : P.fault_width < 32
      · rw [if_pos hlt, Option.map_some] at hp
        obtain rfl := Option.some.inj hp
        refine ⟨by omega, ?_, fun _ => hlt⟩
        rw [RevRand_of_le (Nat.le_refl _)] at hwithin
        exact le_of_xOnes (R := ((due P).Procs i).RegFile) rfl (if_pos h32).symm (by omega) hwithin
      · rw [if_neg hlt] at hp
        exact absurd hp (by simp)
    · rename_i h64
      by_cases hlt : P.fault_width < 64
      · rw [if_pos hlt, Option.map_some] at hp
        obtain rfl := Option.some.inj hp
        refine ⟨hlt, ?_, fun h32 => absurd h32 h64⟩
        rw [RevRand_of_le (Nat.le_refl _)] at hwithin
        exact le_of_xOnes (R := ((due P).Procs i).RegFile) rfl (if_neg h64).symm (by omega) hwithin
      · rw [if_neg hlt] at hp
        exact absurd hp (by simp)
  obtain ⟨hlt, hle, -⟩ := hx 0 P.numCores_pos
  refine ⟨hlt, hle, ?_⟩
  rintro i hi (h32 | hD)
  · exact (hx i hi).2.2 h32
  · obtain ⟨p, hp, -⟩ := regFault_due h henabled hi 0
    have hF := (P.machine i).D_F hD
    have hD' : ((due P).Procs i).machine.feature.RV_D = true := hD
    have hF' : ((due P).Procs i).machine.feature.RV_F = true := hF
    have hpick : RevRand 1 0 = 0 := by decide
    unfold FaultProc.HandleRegFault at hp
    simp only [hpick, hF', hD', ne_eq, not_true_eq_false, decide_false, Bool.or_false,
      Bool.not_true, Bool.false_eq_true, if_false, if_true, lowOnes_eq] at hp
    by_contra hnot
    rw [if_neg hnot] at hp
    exact absurd hp (by simp)

/-- An instruction that retires with an ALU fault pending on the core `i`. -/
theorem aluFault_due (h : FaultsContained P c w) (henabled : c.EnableALUFaults = true) {i : ℕ}
    (hi : i < P.numCores) {ext : ExtName} (hext : ext ∈ Extensions (P.machine i).feature) {rd : ℕ}
    (hrd : rd < 32) (bits : ℕ) :
    ∃ p, (((due P).Procs i).HandleALUFault P.fault_width).InjectALUFault ext rd bits = some p ∧
      RegWithin w rd ((due P).Procs i).RegFile p.RegFile := by
  obtain ⟨n, hn⟩ := exists_selector (c := c) .alu henabled
  let k : Picks := { selector := n, core := i }
  have hcore : FaultCPU.pickCore P k = i := pickCore_of_lt hi rfl
  have hstep := tick_due (P := P) (hn k rfl)
  obtain ⟨p, hp, hwithin⟩ := h.next (.tick k) hstep (.retire i ext rd bits) hi hext hrd
  simp only [FaultCPU.setProc, hcore, Function.update_self, FaultProc.retire,
    FaultProc.HandleALUFault, if_true] at hp hwithin
  exact ⟨p, hp, hwithin⟩

/-- A fault of a floating-point register has to leave the X registers alone. -/
theorem fpWithin_of_FP {r : ℕ} {R R' : RevRegFile} (h : RegWithin w r R R')
    (hne : R'.FP ≠ R.FP) : FPWithin w r R R' := by
  rcases h with hx | hfp
  · rw [hx.rest] at hne
    exact absurd rfl hne
  · exact hfp

/-- A write into the floating-point registers of a machine that has just started. -/
theorem fpWithin_due {i r off n v : ℕ} (hn : 0 < n) (hv : v % 256 ≠ 0)
    (h : RegWithin w r ((due P).Procs i).RegFile
      { ((due P).Procs i).RegFile with FP := orBytes (fun _ => 0) off n v }) :
    FPWithin w r ((due P).Procs i).RegFile
      { ((due P).Procs i).RegFile with FP := orBytes (fun _ => 0) off n v } := by
  refine fpWithin_of_FP h fun hsame => ?_
  have hbyte : orBytes (fun _ => 0) off n v off = 0 := congrFun hsame off
  have hzero : getBytes (fun _ => (0 : UInt8)) off n = List.replicate n 0 := by
    rw [getBytes, List.map_const', List.length_range]
  have hfirst := leBytes_getD n v hn
  rw [orBytes, hzero, leNat_zeros, Nat.zero_or, setBytes, leBytes_length,
    if_pos ⟨Nat.le_refl off, by omega⟩, Nat.sub_self, hfirst, Nat.pow_zero, Nat.div_one] at hbyte
  exact hv (by simpa using congrArg UInt8.toNat hbyte)

/-- The fault of an instruction of RV32F, of any of the 32 bits. -/
theorem singleFault_due (h : FaultsContained P c w) (henabled : c.EnableALUFaults = true) {i : ℕ}
    (hi : i < P.numCores) (hF : (P.machine i).feature.RV_F = true) {rd bits : ℕ} (hrd : rd < 32)
    (hbits : bits ≤ 2 ^ 32 - 1) :
    RegWithin w rd ((due P).Procs i).RegFile
      { ((due P).Procs i).RegFile with FP := orBytes (fun _ => 0) (4 * rd) 4 bits } := by
  obtain ⟨p, hp, hwithin⟩ := aluFault_due h henabled hi (RV32F_mem.mpr hF) hrd bits
  have hmask : zeroShl (((due P).Procs i).HandleALUFault P.fault_width).fault_width =
      some (2 ^ 32 - 1) := zeroShl_eq 1
  have hname : ¬(ExtName.RV32F = .RV64F ∨ ExtName.RV32F = .RV64D) := by decide
  unfold FaultProc.InjectALUFault at hp
  simp only [if_neg hname, true_or, if_true, hmask, Option.map_some, RevRand_of_le hbits] at hp
  obtain rfl := Option.some.inj hp
  exact hwithin

/-- The fault of an instruction of RV64F in the lowest bit. -/
theorem doubleFault_due (h : FaultsContained P c w) (henabled : c.EnableALUFaults = true) {i : ℕ}
    (hi : i < P.numCores) (hext : ExtName.RV64F ∈ Extensions (P.machine i).feature) {rd : ℕ}
    (hrd : rd < 32) :
    RegWithin w rd ((due P).Procs i).RegFile
      { ((due P).Procs i).RegFile with FP := orBytes (fun _ => 0) (8 * rd) 8 1 } := by
  obtain ⟨p, hp, hwithin⟩ := aluFault_due h henabled hi hext hrd 1
  have hmask : lowOnes 64 (((due P).Procs i).HandleALUFault P.fault_width).fault_width =
      some 1 := lowOnes_eq 64 1
  unfold FaultProc.InjectALUFault at hp
  simp only [true_or, if_true, hmask, Option.map_some, RevRand_of_le (Nat.le_refl 1)] at hp
  obtain rfl := Option.some.inj hp
  exact hwithin

theorem fits_alu (h : FaultsContained P c w) (henabled : c.EnableALUFaults = true) {i : ℕ}
    (hi : i < P.numCores) (hF : (P.machine i).feature.RV_F = true) :
    (P.machine i).feature.IsRV32 = true ∧ (P.machine i).feature.RV_D = false ∧ 32 ≤ w := by
  have hHasD : ((due P).Procs i).RegFile.HasD = (P.machine i).feature.RV_D := rfl
  have hFP : ((due P).Procs i).RegFile.FP = fun _ => 0 := rfl
  by_cases hD : (P.machine i).feature.RV_D = true
  · exfalso
    have hfault := singleFault_due h henabled hi hF (show 2 < 32 by decide) (show 1 ≤ _ by decide)
    have hother := (fpWithin_due (by decide) (by decide) hfault).others 1 (by decide)
    simp only [fpVal, hHasD, hD, hFP, if_true] at hother
    exact absurd hother (by decide)
  rw [Bool.not_eq_true] at hD
  by_cases h32 : (P.machine i).feature.IsRV32 = true
  · refine ⟨h32, hD, ?_⟩
    have hfault := singleFault_due h henabled hi hF (show 1 < 32 by decide) (Nat.le_refl _)
    have hhigh := (fpWithin_due (by decide) (by decide) hfault).high
    simp only [fpVal, hHasD, hD, hFP, Bool.false_eq_true, if_false] at hhigh
    have hold : leNat (getBytes (fun _ => (0 : UInt8)) (4 * 1) 4) = 0 := by decide
    rw [orBytes_zero (4 * 1) (by decide), hold, Nat.zero_div] at hhigh
    exact le_of_ones hhigh
  · exfalso
    have hfault := doubleFault_due h henabled hi (RV64F_mem.mpr ⟨hF, fun hnot => h32 hnot.1⟩)
      (show 1 < 32 by decide)
    have hother := (fpWithin_due (by decide) (by decide) hfault).others 2 (by decide)
    simp only [fpVal, hHasD, hD, hFP, Bool.false_eq_true, if_false] at hother
    exact absurd hother (by decide)

/-- One core RV64G with faults of one bit in its registers. -/
def oneBit (range : ℤ) : FaultParams where
  numCores := 1
  numCores_pos := by decide
  machine := fun _ =>
    ⟨{ IsRV64 := true, RV_F := true, RV_D := true, RV_M := true, RV_A := true }, fun _ => rfl⟩
  memSize := 1073741824
  EnableMemH := false
  faults := ["reg"]
  width := "1"
  range := range

theorem oneBit_accepted (range : ℤ) : Accepted (oneBit range) { EnableRegFaults := true } 1 :=
  ⟨by show DecodeFaultWidth "1" = some 1; decide, by decide,
    by show DecodeFaultCodes ["reg"] = _; decide⟩

end RevCPU.Faults
