import RevCPU.Faults.Contained

namespace RevCPU.Faults

open Lib

variable {P : FaultParams} {c : FaultCodes} {w : ℕ}

/-- A kind that the parameters enable. -/
def FaultCodes.enabled (c : FaultCodes) : FaultKind → Bool
  | .crack => c.EnableCrackFaults
  | .mem => c.EnableMemFaults
  | .reg => c.EnableRegFaults
  | .alu => c.EnableALUFaults

theorem mem_myfaults {kind : FaultKind} : kind ∈ c.myfaults ↔ c.enabled kind = true := by
  unfold FaultCodes.myfaults
  simp only [List.mem_append, mem_ite]
  cases kind <;> simp [FaultCodes.enabled]

/-- `DecodeFaultCodes` accepts no vector without faults. -/
theorem myfaults_ne_nil {faults : List String} (h : DecodeFaultCodes faults = some c) :
    c.myfaults ≠ [] := by
  have hkeep : ∀ (fs : List String) (d e : FaultCodes), fs.foldlM FaultCodes.enable d = some e →
      (∃ kind, d.enabled kind = true) ∨ fs ≠ [] → ∃ kind, e.enabled kind = true := by
    intro fs
    induction fs with
    | nil =>
      intro d e hfold hor
      obtain rfl : d = e := Option.some.inj hfold
      exact hor.resolve_right fun hne => hne rfl
    | cons f fs ih =>
      intro d e hfold _
      rw [List.foldlM_cons] at hfold
      obtain ⟨d', hd', hrest⟩ := Option.bind_eq_some_iff.mp hfold
      refine ih d' e hrest (.inl ?_)
      unfold FaultCodes.enable at hd'
      split at hd'
      · obtain rfl := Option.some.inj hd'
        exact ⟨.crack, rfl⟩
      split at hd'
      · obtain rfl := Option.some.inj hd'
        exact ⟨.mem, rfl⟩
      split at hd'
      · obtain rfl := Option.some.inj hd'
        exact ⟨.reg, rfl⟩
      split at hd'
      · obtain rfl := Option.some.inj hd'
        exact ⟨.alu, rfl⟩
      split at hd'
      · obtain rfl := Option.some.inj hd'
        exact ⟨.crack, rfl⟩
      · exact absurd hd' (by simp)
  unfold DecodeFaultCodes at h
  split at h
  · exact absurd h (by simp)
  · rename_i hne
    obtain ⟨kind, hkind⟩ := hkeep faults {} c h (.inr hne)
    exact List.ne_nil_of_mem (mem_myfaults.mpr hkind)

/-- Some kind is selected, and it is enabled. -/
theorem pickKind_some (h : c.myfaults ≠ []) (k : Picks) :
    ∃ kind, FaultCPU.pickKind c k = some kind ∧ c.enabled kind = true := by
  have hpos := List.length_pos_iff.mpr h
  have hlt : (if c.myfaults.length ≠ 1 then RevRand (c.myfaults.length - 1) k.selector else 0) <
      c.myfaults.length := by
    split
    · have hle := RevRand_le (c.myfaults.length - 1) k.selector
      omega
    · exact hpos
  refine ⟨_, List.getElem?_eq_getElem hlt, mem_myfaults.mp (List.getElem_mem hlt)⟩

theorem pickCore_lt (P : FaultParams) (k : Picks) : FaultCPU.pickCore P k < P.numCores := by
  have hpos := P.numCores_pos
  unfold FaultCPU.pickCore
  split
  · have hle := RevRand_le (P.numCores - 1) k.core
    omega
  · exact hpos

namespace FaultProc

/-- A core on which no fault has become pending. -/
structure Lowered (p p' : FaultProc) : Prop where
  machine : p'.machine = p.machine
  fault_width : p'.fault_width = p.fault_width
  crack : p'.CrackFault = true → p.CrackFault = true
  alu : p'.ALUFault = true → p.ALUFault = true

theorem Lowered.refl (p : FaultProc) : Lowered p p := ⟨rfl, rfl, id, id⟩

theorem setRegs_lowered (p : FaultProc) (X FP : ℕ → UInt8) : Lowered p (p.setRegs X FP) :=
  ⟨rfl, rfl, id, id⟩

theorem HandleRegFault_lowered {p p' : FaultProc} {width reg cls bits : ℕ}
    (h : p.HandleRegFault width reg cls bits = some p') : Lowered p p' := by
  unfold HandleRegFault at h
  simp only at h
  split at h
  · split at h <;>
    · obtain ⟨max, -, rfl⟩ := Option.map_eq_some_iff.mp h
      exact p.setRegs_lowered _ _
  · split at h <;>
    · obtain ⟨max, -, rfl⟩ := Option.map_eq_some_iff.mp h
      exact p.setRegs_lowered _ _

theorem decodeFault_lowered {p p' : FaultProc} {Inst Inst' : BitVec 32} {bits : ℕ}
    (h : p.decodeFault Inst bits = some (Inst', p')) : Lowered p p' := by
  unfold decodeFault at h
  split at h
  · obtain ⟨max, -, heq⟩ := Option.map_eq_some_iff.mp h
    obtain ⟨-, rfl⟩ := Prod.mk.inj heq
    exact ⟨rfl, rfl, fun hfalse => absurd hfalse Bool.false_ne_true, id⟩
  · obtain ⟨-, rfl⟩ := Prod.mk.inj (Option.some.inj h)
    exact Lowered.refl p

theorem retire_lowered {p p' : FaultProc} {ext : ExtName} {rd bits : ℕ}
    (h : p.retire ext rd bits = some p') : Lowered p p' := by
  unfold retire at h
  split at h
  · unfold InjectALUFault at h
    obtain ⟨q, hq, rfl⟩ := Option.map_eq_some_iff.mp h
    have hlow : Lowered p q := by
      split at hq
      · obtain ⟨max, -, rfl⟩ := Option.map_eq_some_iff.mp hq
        exact p.setRegs_lowered _ _
      split at hq
      · obtain ⟨max, -, rfl⟩ := Option.map_eq_some_iff.mp hq
        exact p.setRegs_lowered _ _
      · obtain ⟨max, -, rfl⟩ := Option.map_eq_some_iff.mp hq
        exact p.setRegs_lowered _ _
    exact ⟨hlow.machine, hlow.fault_width, hlow.crack,
      fun hfalse => absurd hfalse Bool.false_ne_true⟩
  · obtain rfl := Option.some.inj h
    exact Lowered.refl p

/-- The widths of the pending faults of the core `i`. -/
structure Pending (P : FaultParams) (c : FaultCodes) (i : ℕ) (p : FaultProc) : Prop where
  machine : p.machine = P.machine i
  crack : p.CrackFault = true → c.EnableCrackFaults = true ∧
    (p.fault_width = 1 ∨ p.fault_width = P.fault_width)
  alu : p.ALUFault = true → c.EnableALUFaults = true ∧
    (p.fault_width = 1 ∨ c.EnableCrackFaults = true ∧ p.fault_width = P.fault_width)

theorem Pending.lowered {i : ℕ} {p p' : FaultProc} (h : p.Pending P c i) (hlow : Lowered p p') :
    p'.Pending P c i where
  machine := hlow.machine.trans h.machine
  crack := fun hc => hlow.fault_width ▸ h.crack (hlow.crack hc)
  alu := fun ha => hlow.fault_width ▸ h.alu (hlow.alu ha)

end FaultProc

namespace FaultCPU

variable {s s' : FaultCPU}

/-- The invariant of a run. -/
def Pending (P : FaultParams) (c : FaultCodes) (s : FaultCPU) : Prop :=
  ∀ i, (s.Procs i).Pending P c i

theorem boot_pending (P : FaultParams) (c : FaultCodes) : (boot P).Pending P c :=
  fun _ => ⟨rfl, fun h => absurd h Bool.false_ne_true, fun h => absurd h Bool.false_ne_true⟩

theorem Pending.setProc (h : s.Pending P c) {i : ℕ} {p : FaultProc} (hp : p.Pending P c i) :
    (s.setProc i p).Pending P c := by
  intro j
  by_cases hj : j = i
  · subst hj
    simpa only [FaultCPU.setProc, Function.update_self] using hp
  · simpa only [FaultCPU.setProc, Function.update_of_ne hj] using h j

theorem Pending.inject (h : s.Pending P c) {k : Picks} {kind : FaultKind}
    (henabled : c.enabled kind = true) (hinject : s.inject P k kind = some s') :
    s'.Pending P c := by
  have hcore := h (pickCore P k)
  cases kind with
  | crack =>
    obtain rfl := Option.some.inj hinject
    refine h.setProc ⟨hcore.machine, fun _ => ⟨henabled, .inr rfl⟩, fun ha => ?_⟩
    exact ⟨(hcore.alu ha).1, .inr ⟨henabled, rfl⟩⟩
  | alu =>
    obtain rfl := Option.some.inj hinject
    refine h.setProc ⟨hcore.machine, fun hc => ?_, fun _ => ⟨henabled, .inl rfl⟩⟩
    exact ⟨(hcore.crack hc).1, .inl rfl⟩
  | mem =>
    obtain ⟨mem, -, rfl⟩ := Option.map_eq_some_iff.mp hinject
    exact h
  | reg =>
    obtain ⟨p, hp, rfl⟩ := Option.map_eq_some_iff.mp hinject
    exact h.setProc (hcore.lowered (FaultProc.HandleRegFault_lowered hp))

/-- Every step keeps the invariant. -/
theorem Pending.step (h : s.Pending P c) {ev : FaultEvent} (hstep : s.step P c ev = some s') :
    s'.Pending P c := by
  cases ev with
  | tick k =>
    simp only [FaultCPU.step, FaultCPU.tick] at hstep
    split at hstep
    · obtain ⟨s₁, hs₁, rfl⟩ := Option.map_eq_some_iff.mp hstep
      obtain ⟨kind, hkind, hinject⟩ := Option.bind_eq_some_iff.mp hs₁
      have henabled := mem_myfaults.mp (List.mem_of_getElem? hkind)
      have hs₁ : s₁.Pending P c := h.inject henabled hinject
      exact hs₁
    · obtain rfl := Option.some.inj hstep
      exact h
  | decode i Inst bits =>
    simp only [FaultCPU.step] at hstep
    split at hstep
    · obtain ⟨⟨Inst', p⟩, hp, rfl⟩ := Option.map_eq_some_iff.mp hstep
      exact h.setProc ((h i).lowered (FaultProc.decodeFault_lowered hp))
    · exact absurd hstep (by simp)
  | retire i ext rd bits =>
    simp only [FaultCPU.step] at hstep
    split at hstep
    · obtain ⟨p, hp, rfl⟩ := Option.map_eq_some_iff.mp hstep
      exact h.setProc ((h i).lowered (FaultProc.retire_lowered hp))
    · exact absurd hstep (by simp)
  | work X FP mem =>
    obtain rfl := Option.some.inj hstep
    exact fun i => (h i).lowered (FaultProc.setRegs_lowered _ _ _)

end FaultCPU

section

variable {s : FaultCPU}

/-- A decode fault within the width. -/
theorem decodeFault_within {i : ℕ} {p : FaultProc} (hfits : Fits P c w) (hpos : 1 ≤ w)
    (hp : p.Pending P c i) (Inst : BitVec 32) (bits : ℕ) :
    ∃ Inst' p', p.decodeFault Inst bits = some (Inst', p') ∧
      Inst'.toNat / 2 ^ w = Inst.toNat / 2 ^ w ∧ p'.RegFile = p.RegFile := by
  unfold FaultProc.decodeFault
  split
  · rename_i hcrack
    obtain ⟨henabled, hwidth⟩ := hp.crack hcrack
    obtain ⟨hlt, hle⟩ := hfits.crack henabled
    have hfw : p.fault_width < 32 ∧ p.fault_width ≤ w := by
      rcases hwidth with h | h <;> rw [h] <;> omega
    rw [oneShl_eq, if_pos hfw.1]
    refine ⟨_, _, rfl, ?_, rfl⟩
    have hv : RevRand (2 ^ p.fault_width - 1) bits < 2 ^ w :=
      lt_two_pow_of_le (RevRand_le _ _) hfw.2
    have hdiv := or_div Inst.toNat 32 (Nat.lt_of_le_of_lt (Nat.mod_le _ (2 ^ 32)) hv)
    rw [BitVec.toNat_or, BitVec.toNat_ofNat]
    have hor : (Inst.toNat ||| RevRand (2 ^ p.fault_width - 1) bits % 2 ^ 32) < 2 ^ 32 :=
      Nat.or_lt_two_pow Inst.isLt (Nat.mod_lt _ (by decide))
    rw [Nat.mod_eq_of_lt hor, Nat.mod_eq_of_lt Inst.isLt] at hdiv
    exact hdiv
  · exact ⟨Inst, p, rfl, rfl, rfl⟩

/-- An ALU fault within the width. -/
theorem retire_within {i : ℕ} {p : FaultProc} (hfits : Fits P c w) (hpos : 1 ≤ w)
    (hi : i < P.numCores) (hp : p.Pending P c i) {ext : ExtName}
    (hext : ext ∈ Extensions (P.machine i).feature) (rd bits : ℕ) :
    ∃ p', p.retire ext rd bits = some p' ∧ RegWithin w rd p.RegFile p'.RegFile := by
  unfold FaultProc.retire
  split
  swap
  · exact ⟨p, rfl, .inl (XWithin.refl w rd _)⟩
  rename_i halu
  obtain ⟨henabled, hwidth⟩ := hp.alu halu
  have hfw : p.fault_width < 32 ∧ p.fault_width ≤ w := by
    rcases hwidth with h | ⟨hc, h⟩
    · rw [h]
      omega
    · obtain ⟨hlt, hle⟩ := hfits.crack hc
      rw [h]
      omega
  have hfloat := hfits.alu henabled i hi
  obtain ⟨-, hD⟩ := p.regs
  rw [hp.machine] at hD
  have hwide : ¬(ext = .RV64F ∨ ext = .RV64D) := by
    rintro (rfl | rfl)
    · obtain ⟨hF, hnot⟩ := RV64F_mem.mp hext
      exact hnot ⟨(hfloat hF).1, (hfloat hF).2.1⟩
    · have hd := (RV64D_mem.mp hext).1
      rw [(hfloat ((P.machine i).D_F hd)).2.1] at hd
      exact Bool.false_ne_true hd
  unfold FaultProc.InjectALUFault
  simp only [if_neg hwide]
  split
  · rename_i hsingle
    have hF : (P.machine i).feature.RV_F = true := by
      rcases hsingle with rfl | rfl
      · exact RV32F_mem.mp hext
      · exact (P.machine i).D_F (RV32D_mem.mp hext)
    obtain ⟨-, hd, h32⟩ := hfloat hF
    rw [zeroShl_eq, if_pos hfw.1]
    refine ⟨_, rfl, .inr ?_⟩
    exact fpWithin_orBytes p.RegFile rd (by rw [hD, hd]; rfl)
      (lt_two_pow_of_le (RevRand_le _ _) h32)
  · rw [lowOnes_eq, if_pos (Nat.lt_trans hfw.1 (by decide))]
    refine ⟨_, rfl, .inl ?_⟩
    exact xWithin_SetX p.RegFile rd (lt_two_pow_of_le (RevRand_le _ _) hfw.2)

theorem memFault_within (hfits : Fits P c w) (henabled : c.EnableMemFaults = true)
    (mem : ℕ → UInt8) (addr bits : ℕ) :
    pickNBytes P addr + 8 ≤ P.memSize.toNat ∧
      ∃ mem', HandleMemFault P mem P.fault_width addr bits = some mem' ∧
        MemWithin w (pickNBytes P addr) mem mem' := by
  obtain ⟨hlocal, hroom, hlt, hle⟩ := hfits.mem henabled
  have hsub : (P.memSize - 8).toNat = P.memSize.toNat - 8 :=
    UInt64.toNat_sub_of_le _ _ (UInt64.le_iff_toNat_le.mpr hroom)
  have hinside : pickNBytes P addr + 8 ≤ P.memSize.toNat := by
    have hle' := RevRand_le ((P.memSize - 8).toNat) addr
    have hmod := Nat.mod_le (RevRand ((P.memSize - 8).toNat) addr) (2 ^ 32)
    unfold pickNBytes
    omega
  refine ⟨hinside, ?_⟩
  unfold HandleMemFault
  rw [oneShl_eq, if_pos hlt, Option.bind_some]
  simp only [if_pos (And.intro hlocal hinside)]
  refine ⟨_, rfl, orBytes_high mem _ 8 (lt_two_pow_of_le (RevRand_le _ _) hle), ?_⟩
  intro i hi
  refine if_neg ?_
  rw [leBytes_length]
  omega

/-- An injection within the width. -/
theorem tick_within (hfits : Fits P c w) (hne : c.myfaults ≠ []) (hpending : s.Pending P c)
    (hzero : s.FaultCntr = 0) (k : Picks) :
    ∃ kind s', FaultCPU.pickKind c k = some kind ∧ s.tick P c k = some s' ∧
      InjectionWithin P w k s s' kind := by
  obtain ⟨kind, hkind, henabled⟩ := pickKind_some hne k
  have htick : s.tick P c k =
      (s.inject P k kind).map fun s => { s with FaultCntr := P.fault_width } := by
    unfold FaultCPU.tick
    rw [if_pos hzero, hkind, Option.bind_some]
  have hcore : ∀ (p : FaultProc), p.RegFile = (s.Procs (FaultCPU.pickCore P k)).RegFile →
      ∀ i, ((s.setProc (FaultCPU.pickCore P k) p).Procs i).RegFile = (s.Procs i).RegFile := by
    intro p hp i
    by_cases hi : i = FaultCPU.pickCore P k
    · subst hi
      simpa only [FaultCPU.setProc, Function.update_self] using hp
    · simp only [FaultCPU.setProc, Function.update_of_ne hi]
  cases kind with
  | crack => exact ⟨_, _, hkind, htick, rfl, hcore _ rfl⟩
  | alu => exact ⟨_, _, hkind, htick, rfl, hcore _ rfl⟩
  | mem =>
    obtain ⟨hroom, mem', hmem, hwithin⟩ := memFault_within hfits henabled s.mem k.addr k.bits
    have hinject : s.inject P k .mem = some { s with mem := mem' } := by
      simp only [FaultCPU.inject, hmem, Option.map_some]
    rw [hinject] at htick
    exact ⟨_, _, hkind, htick, hroom, hwithin, fun _ => rfl⟩
  | reg =>
    obtain ⟨hdef, hle, hnarrow⟩ := hfits.reg henabled
    obtain ⟨p', hp', hwithin⟩ := (s.Procs (FaultCPU.pickCore P k)).HandleRegFault_within hdef
      (by
        rw [(hpending _).machine]
        exact hnarrow _ (pickCore_lt P k)) hle k.reg k.cls k.bits
    have hinject : s.inject P k .reg = some (s.setProc (FaultCPU.pickCore P k) p') := by
      simp only [FaultCPU.inject, hp', Option.map_some]
    rw [hinject] at htick
    refine ⟨_, _, hkind, htick, rfl, ?_, ?_⟩
    · intro j hj
      simp only [FaultCPU.setProc, Function.update_of_ne hj]
    · simpa only [FaultCPU.setProc, Function.update_self] using hwithin

end

/-- Under the condition every fault of every run stays within the width. -/
theorem faultsContained_of_fits (hfits : Fits P c w) (hpos : 1 ≤ w) (hne : c.myfaults ≠ []) :
    FaultsContained P c w := by
  intro tr s hrun ev
  have hpending : s.Pending P c := (hrun.invariant_of_step (FaultCPU.Pending P c)
    (FaultCPU.boot_pending P c) (fun _ _ _ hs hstep => hs.step hstep)).1
  cases ev with
  | tick k => exact fun hzero => tick_within hfits hne hpending hzero k
  | decode i Inst bits => exact fun _ => decodeFault_within hfits hpos (hpending i) Inst bits
  | retire i ext rd bits =>
    exact fun hi hext _ => retire_within hfits hpos hi (hpending i) hext rd bits
  | work X FP mem => exact trivial

end RevCPU.Faults
