import RevCPU.Proc.AtomicsCtrl

namespace RevCPU

open Lib RevBasicMemCtrl

namespace AtomicInst

variable {P : Params} {a : AtomicInst} {f : RevFeature} {i : RevInst} {R : RevRegFile}

/-- The entry of the read half of an AMO. -/
def readEntry (op : RevMemOp) : AMOEntry :=
  { key := op.Addr, hart := op.Hart, target := op.target, flags := op.flags, memop := op,
    isIn := false }

/-- The controller holds only the operation of the instruction. -/
structure Sent (a : AtomicInst) (R : RevRegFile) (i : RevInst) (s : CtrlSys) (op : RevMemOp) : Prop where
  wf : s.Wf
  queued : Queued a R i op
  queue : s.ctrl.rqstQ = [op]
  outstanding : s.ctrl.outstanding = []
  table : s.ctrl.AMOTable = if a.isAMO then [readEntry op] else []

theorem call_isAMO (PAddr : ℕ) : (a.call R f i PAddr).isAMO = a.isAMO := by
  unfold call isAMO
  cases a.op <;> rfl

/-- The instruction sends its operation to a controller that has nothing else to
    do. -/
theorem run_sent (hav : a.avail R.IsRV32 = true) (hx0 : a.ZeroRead i R) {D : RevMem}
    (hs : D.Serves (R.GetX i.rs1)) (hun : a.Unreserved D (R.GetX i.rs1)) {host : Host}
    {tr : List (CtrlSys × Event)} {s : CtrlSys} (hrun : Run (CtrlSys.step P) (CtrlSys.init host) tr s)
    (htick : s.tick = none) (hqueue : s.ctrl.rqstQ = []) (hout : s.ctrl.outstanding = []) :
    ∃ d s₁ op, a.run ⟨R, { D with ctrl := some s.ctrl }⟩ f i = some d ∧ d.R.IsRV32 = R.IsRV32 ∧
      d.R.FP = R.FP ∧ d.R.X = R.X ∧ d.M.ctrl = some s₁.ctrl ∧ Sent a R i s₁ op := by
  obtain ⟨d, PAddr, hd, hrv, hFP, hX, hctrl⟩ := run_ctrl (f := f) hav hx0 hs hun s.ctrl
  have hwf : s.Wf := (hrun.invariant_of_step CtrlSys.Wf (CtrlSys.init_wf host)
    (fun s ev s' hs hstep => (CtrlSys.step_cases hstep).wf hs)).1
  have htable : s.ctrl.AMOTable = [] := by
    rw [List.eq_nil_iff_forall_not_mem]
    intro e he
    obtain ⟨-, -, op, hop, -⟩ := hwf.ord.entry e he
    simp [live, hqueue, hout] at hop
  have hstepped : CtrlSys.Stepped P s (.send (a.call R f i PAddr)) { s with
      ctrl := (a.call R f i PAddr).enqueued s.ctrl
      issued := s.issued ++ [(s.ctrl.nextPtr, a.call R f i PAddr)] } :=
    .send htick (call_enqueues PAddr)
  refine ⟨d, _, (a.call R f i PAddr).memOp s.ctrl.nextPtr, hd, hrv, hFP, hX, hctrl,
    hstepped.wf hwf, call_queued PAddr _, ?_, hout, ?_⟩
  · simp only [Call.enqueued, hqueue, List.nil_append]
  · simp only [Call.enqueued, htable, List.nil_append, Call.amoEntries, call_isAMO, readEntry]

namespace Sent

variable {s : CtrlSys} {op : RevMemOp} {mem : ℕ → UInt8} {evs : List ReadResp}

theorem splitOp_queued (hs : Sent a R i s op) : Queued a R i (splitOp P op) :=
  ⟨(splitOp_Addr P op).trans hs.queued.addr, (splitOp_Size P op).trans hs.queued.size,
    (splitOp_flags P op).trans hs.queued.flags, (splitOp_target P op).trans hs.queued.target,
    by rw [splitOp_Op]; exact hs.queued.kind,
    fun h => (splitOp_membuf P op).trans (hs.queued.operand h)⟩

theorem awaits (hs : Sent a R i s op) (hperm : evs.Perm (readAnswers P s.ctrl.nextId op mem)) :
    Awaits (dispatchSlot P s.ctrl 0 op) (splitOp P op) evs ∧ evs ≠ [] ∧
      ∀ ev ∈ evs, Answers (splitOp P op) mem ev := by
  refine ⟨hs.wf.awaits (by rw [hs.queue]; rfl) hs.queued.kind hperm, ?_,
    fun ev hev => readAnswers_answers (hperm.subset hev)⟩
  rintro rfl
  have hlen := hperm.length_eq
  simp only [readAnswers, List.length_nil, List.length_map, List.length_zipIdx] at hlen
  exact dispatchParts_ne_nil P op (List.length_eq_zero_iff.mp hlen.symm)

/-- The bytes of the operation after the responses: those of the memory where
    its parts reach, those of the register elsewhere. -/
def Loaded (P : Params) (R : RevRegFile) (i : RevInst) (op : RevMemOp) (mem : ℕ → UInt8) (h : Host) : Prop :=
  ∀ b, ((∃ p ∈ dispatchParts P op, p.cur ≤ b ∧ b < p.cur + p.size) →
      h.cell (R.xOff i.rd) b = mem (R.GetX i.rs1 + b)) ∧
    ((¬∃ p ∈ dispatchParts P op, p.cur ≤ b ∧ b < p.cur + p.size) →
      h.cell (R.xOff i.rd) b = R.X (R.xOff i.rd + b))

theorem loaded (hs : Sent a R i s op) (hperm : evs.Perm (readAnswers P s.ctrl.nextId op mem))
    {R₁ : RevRegFile} (hX : R₁.X = R.X) {h : Host}
    (hcopied : Awaits.Copied (splitOp P op) mem (R.xOff i.rd) evs ⟨fun q j => R₁.X (q + j), []⟩ h) :
    Loaded P R i op mem h := by
  intro b
  obtain ⟨hsome, hnone⟩ := hcopied b
  rw [← readAnswers_brings s.ctrl.nextId mem]
  rw [splitOp_Addr, hs.queued.addr] at hsome
  rw [hX] at hnone
  constructor
  · rintro ⟨ev, hev, hbrings⟩
    exact hsome ⟨ev, hperm.symm.subset hev, hbrings⟩
  · intro hnot
    exact hnone fun ev hev hbrings => hnot ⟨ev, hperm.subset hev, hbrings⟩

/-- The responses to an LR. -/
theorem receive_lr (hs : Sent a R i s op) (hop : a.op = .lr)
    (hperm : evs.Perm (readAnswers P s.ctrl.nextId op mem)) {R₁ : RevRegFile} (hX : R₁.X = R.X) :
    ∃ ctrl h₁ req, Loaded P R i op mem h₁ ∧
      Core.receive R₁ (dispatchSlot P s.ctrl 0 op) (R.xOff i.rd) evs =
        (handleFlagResp h₁ (splitOp P op)).map fun h₂ =>
          (ctrl, { R₁ with
            X := setBytes R.X (R.xOff i.rd) (h₂.read (R.xOff i.rd) R₁.xLen)
            completed := R₁.completed ++ (h₂.MarkLoadComplete req).completed }) := by
  have hq := hs.splitOp_queued (P := P)
  obtain ⟨hawaits, hne, hans⟩ := hs.awaits hperm
  have hplain : (dispatchSlot P s.ctrl 0 op).AMOTable.any (AMOEntry.isFor (splitOp P op)) = false := by
    rw [dispatchSlot_AMOTable, hs.table, isAMO, hop]
    rfl
  obtain ⟨ctrl, h₁, hcopied, hresps⟩ := hawaits.handleReadResps_load hne hplain hq.target
    (by rw [hq.size]; rcases a.size_cases with h | h <;> omega) hans ⟨fun q j => R₁.X (q + j), []⟩
  refine ⟨ctrl, h₁, (splitOp P op).procReq, hs.loaded hperm hX hcopied, ?_⟩
  rw [Core.receive, hresps, ← hX]
  cases handleFlagResp h₁ (splitOp P op) with
  | none => rfl
  | some h₂ => rfl

/-- The responses to the read half of an AMO, and the write half that it leaves in
    the queue. -/
theorem receive_amo (hs : Sent a R i s op) (hav : a.avail R.IsRV32 = true) (hamo : a.isAMO = true)
    (hperm : evs.Perm (readAnswers P s.ctrl.nextId op mem)) {R₁ : RevRegFile} (hX : R₁.X = R.X) :
    ∃ ctrl h₁ h₂ half R₂, Loaded P R i op mem h₁ ∧ handleFlagResp h₁ (splitOp P op) = some h₂ ∧
      Core.receive R₁ (dispatchSlot P s.ctrl 0 op) (R.xOff i.rd) evs = some (ctrl, R₂) ∧
      R₂.IsRV32 = R₁.IsRV32 ∧ R₂.FP = R₁.FP ∧
      R₂.X = setBytes R.X (R.xOff i.rd) (h₂.read (R.xOff i.rd) R₁.xLen) ∧
      ctrl.rqstQ = [half] ∧ (∀ n ∈ ctrl.outstanding, n.1 < ctrl.nextId) ∧
      half.Op = .MemOpWRITE ∧ half.Addr = R.GetX i.rs1 ∧ half.Size = a.size ∧
      half.flags = a.flags R.IsRV32 ∧
      half.membuf = amoNew (a.flags R.IsRV32) a.size (h₁.read (R.xOff i.rd) a.size)
        ((Core.regHost R).read (R.xOff i.rs2) a.size) := by
  have hq := hs.splitOp_queued (P := P)
  have hsize : op.Size = 4 ∨ op.Size = 8 := hs.queued.size ▸ a.size_cases
  have hok : ExtOk (splitOp P op).flags (splitOp P op).Size := by
    rw [hq.flags, hq.size]
    exact flags_ok hav (.inl hamo)
  obtain ⟨hawaits, hne, hans⟩ := hs.awaits hperm
  have htable : (dispatchSlot P s.ctrl 0 op).AMOTable = [readEntry op] := by
    rw [dispatchSlot_AMOTable, hs.table, if_pos hamo]
  obtain ⟨ctrl, h₁, h₂, hcopied, hflag, hresps, hqueue, hid, hout⟩ := hawaits.handleReadResps_amo hne
    htable (by simp [AMOEntry.isFor, readEntry]) hs.queued.target hok hq.target
    (by rw [splitOp_Size]; omega) hans ⟨fun q j => R₁.X (q + j), []⟩
  obtain ⟨hnew, hcell, -⟩ := amoTarget_spec h₂ hsize (R.xOff i.rd)
  obtain ⟨hlow, -, -⟩ := handleFlagResp_spec hok (by rw [splitOp_Size]; omega) hq.target hflag
  have hread : h₂.read (R.xOff i.rd) a.size = h₁.read (R.xOff i.rd) a.size :=
    List.map_congr_left fun b hb => hlow b (by rw [hq.size]; exact List.mem_range.mp hb)
  have hamoRead : (amoHost h₂ op (R.xOff i.rd)).read (R.xOff i.rd) R₁.xLen =
      h₂.read (R.xOff i.rd) R₁.xLen := by
    unfold Host.read
    rw [hcell]
  refine ⟨ctrl, h₁, h₂, amoHalf s.ctrl.nextPtr h₂ op (R.xOff i.rd),
    { R₁ with
      X := setBytes R₁.X (R.xOff i.rd) ((amoHost h₂ op (R.xOff i.rd)).read (R.xOff i.rd) R₁.xLen)
      completed := R₁.completed ++ (amoHost h₂ op (R.xOff i.rd)).completed },
    hs.loaded hperm hX hcopied, hflag, ?_, rfl, rfl, ?_, ?_, ?_, rfl, hs.queued.addr, hs.queued.size, hs.queued.flags, ?_⟩
  · rw [Core.receive, hresps]
    rfl
  · rw [hamoRead, hX]
  · rw [hqueue, dispatchSlot_rqstQ, dispatchSlot_nextPtr, hs.queue]
    rfl
  · intro n hn
    rw [hid, dispatchSlot_nextId]
    obtain hold | hnew := mem_outstanding_dispatch.mp (hout.subset hn)
    · simp [hs.outstanding] at hold
    · exact hnew.2.1
  · have hoperand := hs.queued.operand hamo
    have hbuf : copyBuf ((Core.regHost R).read (R.xOff i.rs2) a.size) a.size =
        (Core.regHost R).read (R.xOff i.rs2) a.size := copyBuf_of_length (Host.read_length _ _ _)
    rw [hbuf] at hoperand
    rw [← hread, ← hoperand, ← hs.queued.flags, ← hs.queued.size]
    exact hnew

/-- The parts reach every byte when the lines do. -/
theorem Loaded.read_eq {h : Host} (hloaded : Loaded P R i op mem h) (hs : Sent a R i s op)
    (hreach : LinesReach P (R.GetX i.rs1) a.size) :
    h.read (R.xOff i.rd) a.size = getBytes mem (R.GetX i.rs1) a.size := by
  have hcovered : Covered P op := by
    rw [covered_iff hs.queued.cacheable, hs.queued.addr, hs.queued.size]
    exact hreach
  refine List.map_congr_left fun b hb => (hloaded b).1 (hcovered b ?_)
  rw [hs.queued.size]
  exact List.mem_range.mp hb

end Sent

/-- The registers once the extended value is in `rd`. -/
theorem registers_put (R' : RevRegFile) {h₁ h₂ : Host} {op : RevMemOp} (hav : a.avail R.IsRV32 = true)
    (hrd : i.rd ≠ 0) (hq : Queued a R i op) (hok : a.isAMO = true ∨ a.size < R.xLen)
    (hflag : handleFlagResp h₁ op = some h₂) (hrv : R'.IsRV32 = R.IsRV32)
    (hX : R'.X = setBytes R.X (R.xOff i.rd) (h₂.read (R.xOff i.rd) R.xLen)) :
    R'.GetX i.rd = extend true (8 * a.size) (8 * R.xLen) (leNat (h₁.read (R.xOff i.rd) a.size)) ∧
      ∀ r, r ≠ i.rd → R'.GetX r = R.GetX r := by
  refine ⟨?_, fun r hr => RevRegFile.GetX_put_ne hrv hX (Host.read_length _ _ _) hr⟩
  rw [RevRegFile.GetX_put hrv hX (Host.read_length _ _ _) hrd]
  exact handleFlagResp_atomic hav hq hok hflag

/-- The buffer of the write half of an AMO. -/
theorem amoNew_store (hav : a.avail R.IsRV32 = true) (hx0 : a.ZeroRead i R) {op : AmoOp}
    (hop : a.op = .amo op) (mem : ℕ → UInt8) :
    setBytes mem (R.GetX i.rs1) (amoNew (a.flags R.IsRV32) a.size (getBytes mem (R.GetX i.rs1) a.size)
      ((Core.regHost R).read (R.xOff i.rs2) a.size)) = a.store mem (R.GetX i.rs1) (R.GetX i.rs2) := by
  unfold amoNew store
  rw [operand_eq hav hx0 (by rw [isAMO, hop]), flags, hop]
  simp only [AmoOp.ApplyAMO_eq]

/-- The write half reaches the memory and leaves the registers alone. -/
theorem receiveWrites_spec {ctrl : RevBasicMemCtrl} (half : RevMemOp)
    (hlt : ∀ n ∈ ctrl.outstanding, n.1 < ctrl.nextId) (R₁ : RevRegFile) {rs : List StdRqst}
    {ids : List ℕ} (hrs : rs.Perm (newRqsts P ctrl half)) (hids : ids.Perm (rs.map StdRqst.id)) :
    ∃ ctrl₂ R₂, receiveWrites R₁ (dispatchSlot P ctrl 0 half) (R.xOff i.rd) ids = some (ctrl₂, R₂) ∧
      R₂.IsRV32 = R₁.IsRV32 ∧ R₂.FP = R₁.FP ∧ R₂.X = R₁.X := by
  have hperm : ids.Perm (List.range' ctrl.nextId (dispatchParts P half).length) := by
    rw [← newRqsts_ids P ctrl half]
    exact hids.trans (hrs.map _)
  obtain ⟨ctrl₂, h₂, hresps, hcell⟩ := handleWriteResps_spec (s := dispatchSlot P ctrl 0 half)
    (fun id hid => (dispatchSlot_waits hlt (hperm.subset hid)).1)
    (fun id hid => (dispatchSlot_waits hlt (hperm.subset hid)).2)
    (hperm.nodup_iff.mpr List.nodup_range') (Core.regHost R₁)
  have hX : setBytes R₁.X (R.xOff i.rd) (h₂.read (R.xOff i.rd) R₁.xLen) = R₁.X := by
    unfold Host.read
    rw [hcell]
    exact setBytes_getBytes R₁.X (R.xOff i.rd) R₁.xLen
  refine ⟨ctrl₂, { R₁ with
    X := setBytes R₁.X (R.xOff i.rd) (h₂.read (R.xOff i.rd) R₁.xLen)
    completed := R₁.completed ++ h₂.completed }, ?_, rfl, rfl, hX⟩
  rw [receiveWrites, hresps]
  rfl

/-- The instruction through a controller whose lines reach its last byte. -/
theorem ctrlConforms_of_linesReach (hav : a.avail R.IsRV32 = true) (hrd : i.rd ≠ 0)
    (hx0 : a.ZeroRead i R) (hok : a.isAMO = true ∨ a.size < R.xLen)
    (hreach : LinesReach P (R.GetX i.rs1) a.size) : CtrlConforms P a f i R := by
  intro D mem host tr s hserves hun hrun htick hqueue hout
  obtain ⟨d, s₁, op, hd, hrv, hFP, hX, hctrl, hsent⟩ :=
    run_sent (f := f) hav hx0 hserves hun hrun htick hqueue hout
  have hxLen : d.R.xLen = R.xLen := by rw [RevRegFile.xLen, RevRegFile.xLen, hrv]
  refine ⟨d, s₁.ctrl, op, hd, hctrl, hsent.queue, ?_⟩
  intro evs hperm
  cases hop : a.op with
  | lr =>
    obtain ⟨ctrl₁, h₁, req, hloaded, hrecv⟩ := hsent.receive_lr hop hperm hX
    have hq := hsent.splitOp_queued (P := P)
    obtain ⟨h₂, hflag⟩ := handleFlagResp_isSome h₁
      (by rw [hq.flags, hq.size]; exact flags_ok hav hok) hq.target
    rw [hflag, hxLen] at hrecv
    obtain ⟨hval, hothers⟩ := registers_put ({ d.R with
      X := setBytes R.X (R.xOff i.rd) (h₂.read (R.xOff i.rd) R.xLen)
      completed := d.R.completed ++ (h₂.MarkLoadComplete req).completed } : RevRegFile) hav hrd hq hok hflag hrv rfl
    rw [hloaded.read_eq hsent hreach] at hval
    refine ⟨ctrl₁, _, hrecv, hval, hothers, hFP, ?_⟩
    rw [store, hop]
  | amo amoOp =>
    have hamo : a.isAMO = true := by rw [isAMO, hop]
    obtain ⟨ctrl₁, h₁, h₂, half, R₁, hloaded, hflag, hrecv, hrv₁, hFP₁, hX₁, hhalf, hlt, hkind, haddr,
      hsize, hflags, hbuf⟩ := hsent.receive_amo hav hamo hperm hX
    rw [hxLen] at hX₁
    refine ⟨ctrl₁, R₁, hrecv, half, hhalf, ?_⟩
    intro rs ids hrs hids
    obtain ⟨ctrl₂, R₂, hwrites, hrv₂, hFP₂, hX₂⟩ := receiveWrites_spec (R := R) (i := i) _ hlt _ hrs hids
    obtain ⟨hval, hothers⟩ := registers_put _ hav hrd hsent.splitOp_queued hok hflag
      (hrv₂.trans (hrv₁.trans hrv)) (hX₂.trans hX₁)
    rw [hloaded.read_eq hsent hreach] at hval
    refine ⟨ctrl₂, R₂, hwrites, hval, hothers, hFP₂.trans (hFP₁.trans hFP), ?_⟩
    have hcacheable : half.isCacheable = true := by
      rw [RevMemOp.isCacheable, hflags]
      exact beq_iff_eq.mpr (flags_cacheable R.IsRV32)
    rw [hloaded.read_eq hsent hreach] at hbuf
    rw [applyWrites_newRqsts hkind (by rw [hbuf, hsize, amoNew, leBytes_length]) hrs
      ((covered_iff hcacheable).mpr (by rw [haddr, hsize]; exact hreach)), haddr, hbuf]
    exact amoNew_store hav hx0 hop mem

/-- A memory whose byte `b` from `A` on is not `v`. -/
def otherByte (A b : ℕ) (v : UInt8) (k : ℕ) : UInt8 := if k = A + b then v + 1 else 0

/-- A byte that no part reaches is that of the register. -/
theorem Sent.Loaded.value_ne {op : RevMemOp} {h : Host} {b : ℕ} (hav : a.avail R.IsRV32 = true)
    (hloaded : Sent.Loaded P R i op (otherByte (R.GetX i.rs1) b (R.X (R.xOff i.rd + b))) h)
    (hb : b < a.size) (hmissing : ¬∃ p ∈ dispatchParts P op, p.cur ≤ b ∧ b < p.cur + p.size) :
    extend true (8 * a.size) (8 * R.xLen) (leNat (h.read (R.xOff i.rd) a.size)) ≠
      extend true (8 * a.size) (8 * R.xLen)
        (leNat (getBytes (otherByte (R.GetX i.rs1) b (R.X (R.xOff i.rd + b))) (R.GetX i.rs1) a.size)) := by
  intro heq
  have hnum := extend_inj (by have := size_le_xLen hav; omega) heq
  have hlt := leNat_lt (h.read (R.xOff i.rd) a.size)
  have hlt' := leNat_lt
    (getBytes (otherByte (R.GetX i.rs1) b (R.X (R.xOff i.rd + b))) (R.GetX i.rs1) a.size)
  rw [Host.read_length] at hlt
  rw [getBytes_length] at hlt'
  rw [← pow256, Nat.mod_eq_of_lt hlt, Nat.mod_eq_of_lt hlt'] at hnum
  have hleft := byte_leNat (h.read (R.xOff i.rd) a.size) (i := b) (by simpa using hb)
  have hright := byte_leNat (getBytes (otherByte (R.GetX i.rs1) b (R.X (R.xOff i.rd + b)))
    (R.GetX i.rs1) a.size) (i := b) (by simpa using hb)
  rw [hnum, hright, getBytes_getD _ _ hb, Host.read_getD _ _ hb, (hloaded b).2 hmissing, otherByte,
    if_pos rfl] at hleft
  exact absurd hleft (by simp)

/-- What it takes to be right through a controller. -/
theorem ok_of_ctrlConforms (hav : a.avail R.IsRV32 = true) (hrd : i.rd ≠ 0) (hx0 : a.ZeroRead i R)
    (hal : R.GetX i.rs1 % a.size = 0) (hconf : CtrlConforms P a f i R) :
    (a.isAMO = true ∨ a.size < R.xLen) ∧ LinesReach P (R.GetX i.rs1) a.size := by
  have hserves := RevMem.onePage_serves (addr_lt hal) fun _ => 0
  have hun : a.Unreserved (RevMem.onePage (R.GetX i.rs1) fun _ => 0) (R.GetX i.rs1) := by
    intro _ r hr
    exact absurd hr List.not_mem_nil
  have hrun : Run (CtrlSys.step P) (CtrlSys.init ⟨fun _ _ => 0, []⟩) [] _ := .nil
  obtain ⟨d, s, op, hd, hrv, -, hX, hctrl, hsent⟩ :=
    run_sent (f := f) hav hx0 hserves hun hrun rfl rfl rfl
  have hxLen : d.R.xLen = R.xLen := by rw [RevRegFile.xLen, RevRegFile.xLen, hrv]
  have hans : ∀ mem, ∃ ctrl₁ R₁, Core.receive d.R (dispatchSlot P s.ctrl 0 op) (R.xOff i.rd)
      (readAnswers P s.ctrl.nextId op mem) = some (ctrl₁, R₁) ∧
      (a.op = .lr → a.Conforms i R R₁ mem mem) ∧
      (a.isAMO = true → ∃ half, ctrl₁.rqstQ = [half] ∧
        ∀ rs ids, rs.Perm (newRqsts P ctrl₁ half) → ids.Perm (rs.map StdRqst.id) →
          ∃ ctrl₂ R₂, receiveWrites R₁ (dispatchSlot P ctrl₁ 0 half) (R.xOff i.rd) ids =
              some (ctrl₂, R₂) ∧
            a.Conforms i R R₂ mem (applyWrites mem rs)) := by
    intro mem
    obtain ⟨d', ctrl, op', hd', hctrl', hqueue, hall⟩ := hconf _ mem ⟨fun _ _ => 0, []⟩ [] _ hserves
      hun .nil rfl rfl rfl
    obtain rfl := Option.some.inj (hd.symm.trans hd')
    obtain rfl := Option.some.inj (hctrl.symm.trans hctrl')
    obtain rfl : op = op' := by
      have heq := hsent.queue.symm.trans hqueue
      simpa using heq
    obtain ⟨ctrl₁, R₁, hrecv, hright⟩ := hall _ (List.Perm.refl _)
    refine ⟨ctrl₁, R₁, hrecv, ?_, ?_⟩
    · intro hop
      rw [hop] at hright
      exact hright
    · intro hamo
      cases hop : a.op with
      | lr => simp [isAMO, hop] at hamo
      | amo _ =>
        rw [hop] at hright
        exact hright
  have hok : a.isAMO = true ∨ a.size < R.xLen := by
    cases hop : a.op with
    | amo amoOp => exact .inl (by rw [isAMO, hop])
    | lr =>
      refine .inr ?_
      by_contra hwide
      have hsize : a.size = R.xLen := by
        have hle := size_le_xLen hav
        omega
      obtain ⟨ctrl₁, R₁, hrecv, -⟩ := hans fun _ => 0
      obtain ⟨ctrl, h₁, req, -, hrecv'⟩ := hsent.receive_lr hop
        (List.Perm.refl (readAnswers P s.ctrl.nextId op fun _ => 0)) hX
      rw [handleFlagResp_lr hsent.splitOp_queued hop hsize, hrecv] at hrecv'
      exact absurd hrecv' (by simp)
  refine ⟨hok, ?_⟩
  by_contra hreach
  obtain ⟨b, hb, hmissing⟩ : ∃ b < a.size, ¬∃ p ∈ dispatchParts P op, p.cur ≤ b ∧ b < p.cur + p.size := by
    by_contra hall
    have hcovered : Covered P op := by
      intro b hb
      rw [hsent.queued.size] at hb
      exact by_contra fun hmissing => hall ⟨b, hb, hmissing⟩
    rw [covered_iff hsent.queued.cacheable, hsent.queued.addr, hsent.queued.size] at hcovered
    exact hreach hcovered
  have hperm := List.Perm.refl (readAnswers P s.ctrl.nextId op
    (otherByte (R.GetX i.rs1) b (R.X (R.xOff i.rd + b))))
  obtain ⟨ctrl₁, R₁, hrecv, hlr, hwrite⟩ :=
    hans (otherByte (R.GetX i.rs1) b (R.X (R.xOff i.rd + b)))
  cases hop : a.op with
  | lr =>
    have hright := hlr hop
    obtain ⟨ctrl, h₁, req, hloaded, hrecv'⟩ := hsent.receive_lr hop hperm hX
    rw [hrecv, hxLen] at hrecv'
    obtain ⟨h₂, hflag, heq⟩ := Option.map_eq_some_iff.mp hrecv'.symm
    obtain ⟨-, rfl⟩ := Prod.mk.inj heq
    obtain ⟨hval, -⟩ := registers_put ({ d.R with
      X := setBytes R.X (R.xOff i.rd) (h₂.read (R.xOff i.rd) R.xLen)
      completed := d.R.completed ++ (h₂.MarkLoadComplete req).completed } : RevRegFile) hav hrd
      hsent.splitOp_queued hok hflag hrv rfl
    exact hloaded.value_ne hav hb hmissing (hval.symm.trans hright.rd)
  | amo amoOp =>
    have hamo : a.isAMO = true := by rw [isAMO, hop]
    have hright := hwrite hamo
    obtain ⟨ctrl, h₁, h₂, half, R₁', hloaded, hflag, hrecv', hrv₁, -, hX₁, hhalf, hlt, -⟩ :=
      hsent.receive_amo hav hamo hperm hX
    obtain ⟨rfl, rfl⟩ := Prod.mk.inj (Option.some.inj (hrecv.symm.trans hrecv'))
    obtain ⟨half', hhalf', hwrites⟩ := hright
    obtain ⟨ctrl₂, R₂, hgot, hconforms⟩ := hwrites _ _ (List.Perm.refl _) (List.Perm.refl _)
    obtain ⟨ctrl₂', R₂', hgot', hrv₂, -, hX₂⟩ := receiveWrites_spec (P := P) (R := R) (i := i)
      half' hlt R₁ (List.Perm.refl _) (List.Perm.refl _)
    obtain ⟨-, rfl⟩ := Prod.mk.inj (Option.some.inj (hgot.symm.trans hgot'))
    rw [hxLen] at hX₁
    obtain ⟨hval, -⟩ := registers_put _ hav hrd hsent.splitOp_queued hok hflag
      (hrv₂.trans (hrv₁.trans hrv)) (hX₂.trans hX₁)
    exact hloaded.value_ne hav hb hmissing (hval.symm.trans hconforms.rd)

/-- `amoadd x5, x7, (x6)`. -/
def amoInst : RevInst := { opcode := 0b0101111, funct3 := 0b010, rd := 5, rs1 := 6, rs2 := 7, instSize := 4 }

def negWord (A : ℕ) : UInt8 := if A = 3 then 128 else 0

end AtomicInst

end RevCPU
