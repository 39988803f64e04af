import RevCPU.Proc.AtomicsLocal

namespace RevCPU

open Lib RevBasicMemCtrl

theorem setBytes_getBytes (X : ℕ → UInt8) (off n : ℕ) : setBytes X off (getBytes X off n) = X := by
  funext j
  unfold setBytes
  split
  · rename_i hj
    rw [getBytes_length] at hj
    rw [getBytes_getD _ _ (by omega)]
    congr 1
    omega
  · rfl

namespace RevMem

/-- `LRBase` with a controller sends one request. -/
theorem Serves.LRBase_ctrl {m : RevMem} {A L : ℕ} (h : m.Serves A) (hun : ∀ r ∈ m.LRSC, r.addr ≠ A)
    (ctrl : RevBasicMemCtrl) (host : Host) (Hart Target aq rl : ℕ) (req : MemReq)
    (flags : RevFlag) :
    ∃ (m' : RevMem) (p : ℕ),
      { m with ctrl := some ctrl }.LRBase host Hart A L Target aq rl req flags =
        some (true, { m' with
          ctrl := some (ctrl.sendREADLOCKRequest Hart A p L (some Target) req flags) }, host) := by
  have hany : (m.LRSC.any fun r => r.addr == A) = false := by
    rw [List.any_eq_false]
    intro r hr
    simpa using hun r hr
  obtain ⟨f, m', hcalc, -, -, -⟩ := (h.reserve (m.LRSC ++ [⟨Hart, A, aq ||| rl <<< 1, Target⟩])).CalcPhysAddr
  have hcalc' := CalcPhysAddr_ctrl { m with LRSC := m.LRSC ++ [⟨Hart, A, aq ||| rl <<< 1, Target⟩] }
    (some ctrl) (A / pageSize) A
  rw [hcalc] at hcalc'
  refine ⟨m', f * pageSize + A % pageSize, ?_⟩
  unfold LRBase
  simp only [hany, Bool.false_eq_true, if_false, hcalc', Option.map_some]

/-- `AMOMem` with a controller sends one request. -/
theorem Serves.AMOMem_ctrl {m : RevMem} {A : ℕ} (h : m.Serves A) (ctrl : RevBasicMemCtrl)
    (host : Host) (Hart L Data Target : ℕ) (req : MemReq) (flags : RevFlag) :
    ∃ (m' : RevMem) (p : ℕ), { m with ctrl := some ctrl }.AMOMem host Hart A L Data Target req flags =
      some ({ m' with ctrl := some (ctrl.sendAMORequest Hart A p L (host.read Data L) (some Target)
        req flags) }, host) := by
  obtain ⟨f, m', hcalc, -, -, -⟩ := h.CalcPhysAddr
  have hcalc' := CalcPhysAddr_ctrl m (some ctrl) (A / pageSize) A
  rw [hcalc] at hcalc'
  refine ⟨m', f * pageSize + A % pageSize, ?_⟩
  unfold AMOMem
  simp only [hcalc', Option.map_some]

end RevMem

namespace AtomicInst

variable {P : Params} {a : AtomicInst} {f : RevFeature} {i : RevInst} {R : RevRegFile}

/-- The call that the instruction makes on the controller. -/
def call (a : AtomicInst) (R : RevRegFile) (f : RevFeature) (i : RevInst) (PAddr : ℕ) : Call :=
  match a.op with
  | .lr => .READLOCK f.HartToExecID (R.GetX i.rs1) PAddr a.size (some (R.xOff i.rd))
      (Core.atomicReq R f i) (a.flags R.IsRV32)
  | .amo _ => .AMO f.HartToExecID (R.GetX i.rs1) PAddr a.size
      ((Core.regHost R).read (R.xOff i.rs2) a.size) (some (R.xOff i.rd)) (Core.atomicReq R f i)
      (a.flags R.IsRV32)

theorem flags_atomic {op : AmoOp} (hop : a.op = .amo op) (IsRV32 : Bool) :
    RevFlagHas (a.flags IsRV32) .F_ATOMIC = true := by
  unfold flags
  rw [hop]
  cases op <;> cases a.aq <;> cases a.rl <;> cases a.double <;> cases IsRV32 <;> decide

theorem call_enqueues (PAddr : ℕ) : (a.call R f i PAddr).enqueues = true := by
  have hsize : (a.size != 0) = true := by
    rcases a.size_cases with h | h <;> rw [h] <;> decide
  unfold call
  cases hop : a.op with
  | lr => exact hsize
  | amo op =>
    simp only [Call.enqueues, hsize, flags_atomic hop, Bool.and_self]

/-- The instruction with a controller only makes its call. -/
theorem run_ctrl (hav : a.avail R.IsRV32 = true) (hx0 : a.ZeroRead i R) {D : RevMem}
    (hs : D.Serves (R.GetX i.rs1)) (hun : a.Unreserved D (R.GetX i.rs1)) (ctrl : RevBasicMemCtrl) :
    ∃ d PAddr, a.run ⟨R, { D with ctrl := some ctrl }⟩ f i = some d ∧ d.R.IsRV32 = R.IsRV32 ∧
      d.R.FP = R.FP ∧ d.R.X = R.X ∧ d.M.ctrl = some ((a.call R f i PAddr).enqueued ctrl) := by
  have haddr := RevRegFile.RV_eq_GetX (r := i.rs1) fun hr => hx0 (.inl hr)
  have hX : (Core.putRd R i (Core.atomicReq R f i) (Core.regHost R)).X = R.X :=
    setBytes_getBytes R.X (R.xOff i.rd) R.xLen
  have happly : ∀ PAddr, (a.call R f i PAddr).enqueued ctrl = (a.call R f i PAddr).apply ctrl := by
    intro PAddr
    rw [Call.apply_eq, if_pos (call_enqueues PAddr)]
  cases hop : a.op with
  | lr =>
    obtain ⟨m', p, hbase⟩ := hs.LRBase_ctrl (L := a.size) (hun hop) ctrl (Core.regHost R) f.HartToExecID
      (R.xOff i.rd) a.aq.toNat a.rl.toNat (Core.atomicReq R f i) (a.flags R.IsRV32)
    refine ⟨⟨Core.putRd R i (Core.atomicReq R f i) (Core.regHost R), { m' with
      ctrl := some (ctrl.sendREADLOCKRequest f.HartToExecID (R.GetX i.rs1) p a.size
        (some (R.xOff i.rd)) (Core.atomicReq R f i) (a.flags R.IsRV32)) }⟩, p, ?_, rfl, rfl, hX, ?_⟩
    · rw [run_lr hop hav, Core.LR]
      simp only [haddr, hbase, Option.map_some]
    · rw [happly, call, hop]
      rfl
  | amo op =>
    obtain ⟨m', p, hmem⟩ := hs.AMOMem_ctrl ctrl (Core.regHost R) f.HartToExecID a.size
      (R.xOff i.rs2) (R.xOff i.rd) (Core.atomicReq R f i) (a.flags R.IsRV32)
    refine ⟨⟨Core.putRd R i (Core.atomicReq R f i) (Core.regHost R), { m' with
      ctrl := some (ctrl.sendAMORequest f.HartToExecID (R.GetX i.rs1) p a.size
        ((Core.regHost R).read (R.xOff i.rs2) a.size) (some (R.xOff i.rd)) (Core.atomicReq R f i)
        (a.flags R.IsRV32)) }⟩, p, ?_, rfl, rfl, hX, ?_⟩
    · rw [run_amo hop, Core.AMOVal]
      simp only [haddr, hmem, Option.map_some]
    · rw [happly, call, hop]
      rfl

/-- The operation of the instruction in the queue of a controller. -/
structure Queued (a : AtomicInst) (R : RevRegFile) (i : RevInst) (op : RevMemOp) : Prop where
  addr : op.Addr = R.GetX i.rs1
  size : op.Size = a.size
  flags : op.flags = a.flags R.IsRV32
  target : op.target = some (R.xOff i.rd)
  kind : op.Op ≠ .MemOpFENCE ∧ op.Op ≠ .MemOpAMO
  operand : a.isAMO = true → op.membuf = copyBuf ((Core.regHost R).read (R.xOff i.rs2) a.size) a.size

theorem call_queued (PAddr k : ℕ) : Queued a R i ((a.call R f i PAddr).memOp k) := by
  unfold call
  cases hop : a.op with
  | lr => exact ⟨rfl, rfl, rfl, rfl, ⟨by simp [Call.memOp], by simp [Call.memOp]⟩,
      fun h => by simp [isAMO, hop] at h⟩
  | amo op => exact ⟨rfl, rfl, rfl, rfl, ⟨by simp [Call.memOp], by simp [Call.memOp]⟩, fun _ => rfl⟩

theorem flags_cacheable (IsRV32 : Bool) : a.flags IsRV32 &&& 0b10 = 0 := by
  unfold flags
  cases hop : a.op with
  | lr =>
    simp only []
    cases IsRV32 <;> decide
  | amo op =>
    simp only []
    cases op <;> cases a.aq <;> cases a.rl <;> cases a.double <;> cases IsRV32 <;> decide

theorem Queued.cacheable {op : RevMemOp} (h : Queued a R i op) : op.isCacheable = true := by
  rw [RevMemOp.isCacheable, h.flags]
  exact beq_iff_eq.mpr (flags_cacheable R.IsRV32)

/-- The extension of an AMO or of a narrow LR is defined. -/
theorem flags_ok (hav : a.avail R.IsRV32 = true) (hok : a.isAMO = true ∨ a.size < R.xLen) :
    ExtOk (a.flags R.IsRV32) a.size := by
  unfold avail at hav
  unfold flags isAMO size RevRegFile.xLen at *
  cases hop : a.op with
  | lr => cases hd : a.double <;> cases hrv : R.IsRV32 <;> simp_all <;> decide
  | amo op =>
    cases hd : a.double <;> cases hrv : R.IsRV32 <;> simp_all <;>
      cases op <;> cases a.aq <;> cases a.rl <;> decide

/-- The flags of an instruction that does not fill the register. -/
theorem flags_narrow (hav : a.avail R.IsRV32 = true) (hlt : a.size < R.xLen) :
    a.size = 4 ∧ R.xLen = 8 ∧ RevFlagHas (a.flags R.IsRV32) .F_SEXT32 = false ∧
      RevFlagHas (a.flags R.IsRV32) .F_SEXT64 = true := by
  have hsize : a.size = 4 ∧ R.xLen = 8 := by
    have hcases := a.size_cases
    have hxLen := R.xLen_cases
    omega
  refine ⟨hsize.1, hsize.2, ?_⟩
  have hd : a.double = false := by
    by_contra hd
    simp [size, hd] at hsize
  have hrv : R.IsRV32 = false := by
    by_contra hrv
    simp [RevRegFile.xLen, hrv] at hsize
  unfold flags
  rw [hd, hrv]
  cases hop : a.op with
  | lr =>
    simp only []
    decide
  | amo op =>
    simp only []
    cases op <;> cases a.aq <;> cases a.rl <;> decide

/-- An AMO that fills the register asks for no extension. -/
theorem handleFlagResp_wide {op : RevMemOp} (hq : Queued a R i op) (hamo : a.isAMO = true)
    (hwide : a.size = R.xLen) (h : Host) : handleFlagResp h op = some h := by
  have hsext : (!a.double && !R.IsRV32) = false := by
    unfold size RevRegFile.xLen at hwide
    cases hd : a.double <;> cases hrv : R.IsRV32 <;> simp_all
  have hnone : RevFlagHas op.flags .F_SEXT32 = false ∧ RevFlagHas op.flags .F_SEXT64 = false ∧
      RevFlagHas op.flags .F_ZEXT32 = false ∧ RevFlagHas op.flags .F_ZEXT64 = false ∧
      RevFlagHas op.flags .F_BOXNAN = false := by
    rw [hq.flags, flags, hsext]
    unfold isAMO at hamo
    cases hop : a.op with
    | lr => simp [hop] at hamo
    | amo op =>
      simp only []
      cases op <;> cases a.aq <;> cases a.rl <;> decide
  obtain ⟨hsext32, hsext64, hzext32, hzext64, hbox⟩ := hnone
  unfold handleFlagResp
  simp only [hsext32, hsext64, hzext32, hzext64, hbox, Bool.false_eq_true, if_false]

/-- An LR as wide as the register asks for an undefined shift. -/
theorem handleFlagResp_lr {op : RevMemOp} (hq : Queued a R i op) (hop : a.op = .lr)
    (hwide : a.size = R.xLen) (h : Host) : handleFlagResp h op = none := by
  have hsize : op.Size = if R.IsRV32 then 4 else 8 := hq.size.trans hwide
  have hflags : op.flags = if R.IsRV32 then .F_SEXT32 else .F_SEXT64 := by
    rw [hq.flags, flags, hop]
  unfold handleFlagResp extendTarget
  rw [hsize, hflags]
  cases R.IsRV32 <;> rfl

/-- Otherwise the old value is sign-extended. -/
theorem handleFlagResp_atomic {op : RevMemOp} (hav : a.avail R.IsRV32 = true) (hq : Queued a R i op)
    (hok : a.isAMO = true ∨ a.size < R.xLen) {h h' : Host} (hresp : handleFlagResp h op = some h') :
    leNat (h'.read (R.xOff i.rd) R.xLen) =
      extend true (8 * a.size) (8 * R.xLen) (leNat (h.read (R.xOff i.rd) a.size)) := by
  by_cases hlt : a.size < R.xLen
  · obtain ⟨hsize, hxLen, hnot, hsext⟩ := flags_narrow hav hlt
    rw [← hq.flags] at hnot hsext
    unfold handleFlagResp extendTarget at hresp
    have hpos : op.Size < 8 := by
      rw [hq.size, hsize]
      decide
    simp only [hnot, hsext, hq.target, Bool.false_eq_true, if_false, if_true, if_pos hpos,
      Option.map_some] at hresp
    obtain rfl := Option.some.inj hresp
    rw [hq.size, hxLen]
    exact h.signExt_read (R.xOff i.rd) (by omega) (by omega)
  · have hwide : a.size = R.xLen := by
      have hle := size_le_xLen hav
      omega
    rw [handleFlagResp_wide hq (hok.resolve_right hlt) hwide] at hresp
    obtain rfl := Option.some.inj hresp
    have hval := leNat_lt (h.read (R.xOff i.rd) R.xLen)
    rw [Host.read_length, pow256] at hval
    rw [hwide, extend_self, Nat.mod_eq_of_lt hval]

end AtomicInst

end RevCPU
