import RevCPU.Proc.LoadModes
import RevCPU.Proc.NaNBox

namespace RevCPU

open Lib RevBasicMemCtrl RevRegFile

theorem Host.boxNaN_read (h : Host) (p : ℕ) :
    (h.boxNaN p).read p 8 = leBytes 8 (BoxNaN (h.load p 4)).toNat := h.store_read p 8 _

namespace Core

/-- The word at an address. -/
def wordAt (mem : ℕ → UInt8) (A : ℕ) : BitVec 32 := BitVec.ofNat 32 (leNat (getBytes mem A 4))

/-- The target of a load into `DPF[rd]`. -/
def fpTarget (rd : ℕ) : ℕ := 256 + 8 * rd

/-- The object behind `DPF[rd]`. -/
def fpHost (R : RevRegFile) (rd : ℕ) : Host := ⟨fun _ j => R.FP (8 * rd + j), []⟩

/-- The call that a load of a single makes on the controller. -/
def flwCall (c : Core) (f : RevFeature) (i : RevInst) (PAddr : ℕ) : Call :=
  .READ f.HartToExecID (c.effAddr i) PAddr 4 (some (fpTarget i.rd)) (c.loadReq f i .RegFLOAT)
    .F_BOXNAN

/-- `handleReadResp` for the responses to a load into `DPF[rd]`. -/
def receiveFP (R : RevRegFile) (ctrl : RevBasicMemCtrl) (rd : ℕ) (evs : List ReadResp) :
    Option (RevBasicMemCtrl × RevRegFile) :=
  (ctrl.handleReadResps (fpHost R rd) evs).map fun (ctrl, h) =>
    (ctrl, { R with
              FP := setBytes R.FP (8 * rd) (h.read (fpTarget rd) 8)
              completed := R.completed ++ h.completed })

section

variable {f : RevFeature} {i : RevInst} {c c' : Core}

theorem flw_eq (hf : f.HasD = true) :
    c.fload f i 4 = (c.readFP f i (8 * i.rd) 4 .F_BOXNAN).map fun c =>
      { c with R := (c.R.boxDPF i.rd).AdvancePC i } := by
  unfold fload
  rw [if_pos (.inr hf)]
  rfl

/-- A `flw` that `ReadMem` serves boxes the word that `ReadMem` has brought into
    the register. -/
theorem flw_holds (hf : f.HasD = true) (hD : c.R.HasD = true) {m : RevMem} {h : Host}
    (hread : c.M.ReadMem (fpHost c.R i.rd) f.HartToExecID (c.effAddr i) 4 (fpTarget i.rd)
      (c.loadReq f i .RegFLOAT) .F_BOXNAN = some (m, h)) :
    ∃ c', c.fload f i 4 = some c' ∧ HoldsSingle c.R c'.R i.rd (h.load (fpTarget i.rd) 4) := by
  have hlow : leBytes 4 (h.load (fpTarget i.rd) 4).toNat = h.read (fpTarget i.rd) 4 := by
    rw [Host.load_toNat, leBytes_of_leNat (Host.read_length _ _ _) rfl]
  rw [flw_eq hf, readFP]
  simp only [fpHost, fpTarget, loadReq] at hread hlow ⊢
  rw [hread]
  refine ⟨_, rfl, .of_write hD ?_ rfl⟩
  show (boxDPF _ i.rd).FP = _
  rw [leBytes_BoxNaN, setBytes_append, hlow, Host.read_length]
  rfl

/-- A `flw` from local memory that succeeds. -/
theorem flw_local (hf : f.HasD = true) (hD : c.R.HasD = true) (hrun : c.fload f i 4 = some c') :
    ∃ m h, c.M.ReadMem (fpHost c.R i.rd) f.HartToExecID (c.effAddr i) 4 (fpTarget i.rd)
        (c.loadReq f i .RegFLOAT) .F_BOXNAN = some (m, h) ∧
      HoldsSingle c.R c'.R i.rd (h.load (fpTarget i.rd) 4) := by
  cases hread : c.M.ReadMem (fpHost c.R i.rd) f.HartToExecID (c.effAddr i) 4 (fpTarget i.rd)
      (c.loadReq f i .RegFLOAT) .F_BOXNAN with
  | none =>
    rw [flw_eq hf, readFP] at hrun
    simp only [fpHost, fpTarget, loadReq] at hread hrun
    rw [hread] at hrun
    simp at hrun
  | some r =>
    obtain ⟨d, hd, hholds⟩ := flw_holds hf hD hread
    obtain rfl := Option.some.inj (hd.symm.trans hrun)
    exact ⟨r.1, r.2, rfl, hholds⟩

/-- A `flw` inside a page of a local memory gets the word of the memory. -/
theorem flw_view (hf : f.HasD = true) (hD : c.R.HasD = true) (hs : c.M.Serves (c.effAddr i))
    (hin : c.effAddr i % RevMem.pageSize + 4 ≤ RevMem.pageSize) :
    ∃ c', c.fload f i 4 = some c' ∧
      HoldsSingle c.R c'.R i.rd (wordAt c.M.view (c.effAddr i)) := by
  obtain ⟨m', hread, -, -⟩ := hs.ReadMem_local hin (fpHost c.R i.rd) f.HartToExecID
    (fpTarget i.rd) (c.loadReq f i .RegFLOAT) .F_BOXNAN
  obtain ⟨c', hrun, hholds⟩ := flw_holds hf hD hread
  refine ⟨c', hrun, ?_⟩
  have hbytes := host_read_write (fpHost c.R i.rd) (fpTarget i.rd)
    (getBytes c.M.view (c.effAddr i) 4)
  rw [getBytes_length] at hbytes
  have hword : (RevMem.completeRead ((fpHost c.R i.rd).write (fpTarget i.rd) 0
      (getBytes c.M.view (c.effAddr i) 4)) (c.loadReq f i .RegFLOAT)).load (fpTarget i.rd) 4 =
        wordAt c.M.view (c.effAddr i) := congrArg (fun bs => BitVec.ofNat 32 (leNat bs)) hbytes
  rw [← hword]
  exact hholds

/-- With a controller the request is sent. -/
theorem flw_ctrl (hf : f.HasD = true) {m : RevMem} {ctrl : RevBasicMemCtrl}
    (hm : c.M = { m with ctrl := some ctrl }) (hs : m.Serves (c.effAddr i))
    (hin : c.effAddr i % RevMem.pageSize + 4 ≤ RevMem.pageSize) :
    ∃ c' PAddr, c.fload f i 4 = some c' ∧
      c'.M.ctrl = some ((c.flwCall f i PAddr).apply ctrl) := by
  obtain ⟨m', p, hread⟩ := hs.ReadMem_ctrl hin ctrl (fpHost c.R i.rd) f.HartToExecID
    (fpTarget i.rd) (c.loadReq f i .RegFLOAT) .F_BOXNAN
  rw [← hm] at hread
  rw [flw_eq hf, readFP]
  simp only [fpHost, fpTarget, loadReq] at hread ⊢
  rw [hread]
  exact ⟨_, p, rfl, rfl⟩

end

/-- The responses to the load of a single, in any order: the last one boxes what
    they have brought. -/
theorem receiveFP_holds {P : Params} {f : RevFeature} {i : RevInst} {c : Core} {R : RevRegFile}
    (hD : R.HasD = true) {s : CtrlSys} (hs : s.Wf) {k PAddr : ℕ}
    (hissued : (k, c.flwCall f i PAddr) ∈ s.issued) {j : ℕ}
    (hslot : s.ctrl.rqstQ[j]? = some ((c.flwCall f i PAddr).memOp k)) {mem : ℕ → UInt8}
    {evs : List ReadResp}
    (hperm : evs.Perm (readAnswers P s.ctrl.nextId ((c.flwCall f i PAddr).memOp k) mem)) :
    ∃ ctrl R' b, receiveFP R (dispatchSlot P s.ctrl j ((c.flwCall f i PAddr).memOp k)) i.rd evs =
        some (ctrl, R') ∧ HoldsSingle R R' i.rd b ∧
      (LinesReach P (c.effAddr i) 4 → b = wordAt mem (c.effAddr i)) := by
  generalize hop : (c.flwCall f i PAddr).memOp k = op at hslot hperm ⊢
  have hseq : op.seq = k := by rw [← hop, Call.memOp_seq]
  have hkind : op.Op = .MemOpREAD := by rw [← hop]; rfl
  have hawaits := hs.awaits hslot (by rw [hkind]; exact ⟨by decide, by decide⟩) hperm
  have hplain : (dispatchSlot P s.ctrl j op).AMOTable.any (AMOEntry.isFor (splitOp P op)) = false := by
    rw [dispatchSlot_AMOTable]
    exact hs.not_tabled (List.mem_of_getElem? hslot) (hseq ▸ hissued) rfl
  have htgt : (splitOp P op).target = some (fpTarget i.rd) := by rw [splitOp_target, ← hop]; rfl
  have hsize : (splitOp P op).Size = 4 := by rw [splitOp_Size, ← hop]; rfl
  have hflags : (splitOp P op).flags = .F_BOXNAN := by rw [splitOp_flags, ← hop]; rfl
  have haddr : op.Addr = c.effAddr i := by rw [← hop]; rfl
  have hcacheable : op.isCacheable = true := by
    rw [← hop]
    exact beq_iff_eq.mpr (by decide : RevFlag.F_BOXNAN &&& 0b10 = 0)
  have hne : evs ≠ [] := by
    rintro rfl
    have hlen := hperm.length_eq
    simp only [readAnswers, List.length_nil, List.length_map, List.length_zipIdx] at hlen
    exact dispatchParts_ne_nil P op (List.length_eq_zero_iff.mp hlen.symm)
  obtain ⟨ctrl', h₁, hbytes, hresps⟩ := hawaits.handleReadResps_load hne hplain htgt
    (by omega) (fun ev hev => readAnswers_answers (hperm.subset hev)) (fpHost R i.rd)
  have hbox : handleFlagResp h₁ (splitOp P op) = some (h₁.boxNaN (fpTarget i.rd)) := by
    unfold handleFlagResp
    rw [hflags, htgt]
    rfl
  rw [hbox, Option.map_some] at hresps
  have hrecv := congrArg (Option.map fun p : RevBasicMemCtrl × Host =>
    (p.1, { R with
              FP := setBytes R.FP (8 * i.rd) (p.2.read (fpTarget i.rd) 8)
              completed := R.completed ++ p.2.completed })) hresps
  refine ⟨ctrl', _, h₁.load (fpTarget i.rd) 4, hrecv, .of_write hD ?_ rfl, ?_⟩
  · show setBytes R.FP (8 * i.rd) ((h₁.boxNaN (fpTarget i.rd)).read (fpTarget i.rd) 8) = _
    rw [Host.boxNaN_read]
  · intro hreach
    have hcovered := (covered_iff hcacheable).mpr (by
      rw [haddr, ← splitOp_Size P op, hsize]
      exact hreach)
    have hread : h₁.read (fpTarget i.rd) 4 = getBytes mem (c.effAddr i) 4 := by
      refine List.map_congr_left fun b hb => ?_
      have hpart := hcovered b (by
        rw [← splitOp_Size P op, hsize]
        exact List.mem_range.mp hb)
      rw [← readAnswers_brings s.ctrl.nextId mem] at hpart
      obtain ⟨ev, hev, hbrings⟩ := hpart
      rw [(hbytes b).1 ⟨ev, hperm.symm.subset hev, hbrings⟩, splitOp_Addr, haddr]
    rw [wordAt, ← hread]
    rfl

/-- The loads and stores of a single. -/
def flws : List ImplFunc := [.flw, .cflw, .cflwsp]

def fsws : List ImplFunc := [.fsw, .cfsw, .cfswsp]

theorem runFunc_flws (c : Core) (f : RevFeature) (i : RevInst) {fn : ImplFunc} (hfn : fn ∈ flws) :
    c.runFunc f i fn = c.fload f i 4 := by
  simp only [flws, List.mem_cons, List.not_mem_nil, or_false] at hfn
  rcases hfn with rfl | rfl | rfl <;> rfl

theorem runFunc_fsws (c : Core) (f : RevFeature) (i : RevInst) {fn : ImplFunc} (hfn : fn ∈ fsws) :
    c.runFunc f i fn = c.fstore f i 4 := by
  simp only [fsws, List.mem_cons, List.not_mem_nil, or_false] at hfn
  rcases hfn with rfl | rfl | rfl <;> rfl

/-- The places that store a single agree with the ways to read one: a write of
    the register, a load from local memory, and the responses of a controller
    in any reachable state, in any order. A register that is not boxed reads as
    NaN, and its low half is what a store passes to the memory. -/
structure NaNBoxing (P : Params) (f : RevFeature) (R : RevRegFile) : Prop where
  setFP : ∀ rd b, HoldsSingle R (R.SetFPFloat rd b) rd b
  flwLocal : ∀ M i c', ∀ fn ∈ flws, M.ctrl = none → runFunc ⟨R, M⟩ f i fn = some c' →
    ∃ m h, M.ReadMem (fpHost R i.rd) f.HartToExecID (loadAddr R i) 4 (fpTarget i.rd)
        (loadReq ⟨R, M⟩ f i .RegFLOAT) .F_BOXNAN = some (m, h) ∧
      HoldsSingle R c'.R i.rd (h.load (fpTarget i.rd) 4)
  flwView : ∀ M i, ∀ fn ∈ flws, M.Serves (loadAddr R i) →
    loadAddr R i % RevMem.pageSize + 4 ≤ RevMem.pageSize →
    ∃ c', runFunc ⟨R, M⟩ f i fn = some c' ∧
      HoldsSingle R c'.R i.rd (wordAt M.view (loadAddr R i))
  response : ∀ (D : RevMem) (i : RevInst) (host : Host) (tr : List (CtrlSys × Event)) (s : CtrlSys),
    ∀ fn ∈ flws, D.Serves (loadAddr R i) →
    loadAddr R i % RevMem.pageSize + 4 ≤ RevMem.pageSize →
    Run (CtrlSys.step P) (CtrlSys.init host) tr s → s.tick = none →
    ∃ d PAddr s₁, runFunc ⟨R, { D with ctrl := some s.ctrl }⟩ f i fn = some d ∧
      s.step P (.send (flwCall ⟨R, D⟩ f i PAddr)) = some s₁ ∧ d.M.ctrl = some s₁.ctrl ∧
      ∀ (tr' : List (CtrlSys × Event)) (s' : CtrlSys) (j : ℕ) (mem : ℕ → UInt8)
        (evs : List ReadResp) (R₁ : RevRegFile), Run (CtrlSys.step P) s₁ tr' s' →
        s'.ctrl.rqstQ[j]? = some ((flwCall ⟨R, D⟩ f i PAddr).memOp s.ctrl.nextPtr) →
        evs.Perm (readAnswers P s'.ctrl.nextId
          ((flwCall ⟨R, D⟩ f i PAddr).memOp s.ctrl.nextPtr) mem) →
        R₁.HasD = true →
        ∃ ctrl R' b, receiveFP R₁ (dispatchSlot P s'.ctrl j
            ((flwCall ⟨R, D⟩ f i PAddr).memOp s.ctrl.nextPtr)) i.rd evs = some (ctrl, R') ∧
          HoldsSingle R₁ R' i.rd b ∧
          (LinesReach P (loadAddr R i) 4 → b = wordAt mem (loadAddr R i))
  unboxed : ∀ rs, ¬Boxed (R.fpBits rs) → R.GetFPFloat rs = NAN
  fsw : ∀ M i, ∀ fn ∈ fsws, runFunc ⟨R, M⟩ f i fn =
    (M.WriteMem f.HartToExecID (loadAddr R i) 4
      (leBytes 4 ((R.fpBits i.rs2).setWidth 32).toNat)).map fun M => ⟨R.AdvancePC i, M⟩

/-- The request of a load is sent in any state between two ticks. -/
theorem send_flw {P : Params} {s : CtrlSys} (htick : s.tick = none) (c : Core) (f : RevFeature)
    (i : RevInst) (PAddr : ℕ) :
    s.step P (.send (c.flwCall f i PAddr)) = some { s with
      ctrl := (c.flwCall f i PAddr).apply s.ctrl
      issued := s.issued ++ [(s.ctrl.nextPtr, c.flwCall f i PAddr)] } := by
  have henq : (c.flwCall f i PAddr).enqueues = true := rfl
  simp only [CtrlSys.step, htick, Option.isSome_none, Bool.false_eq_true, if_false, henq, if_true]

theorem nanBoxing {f : RevFeature} {R : RevRegFile} (hf : f.HasD = true) (hD : R.HasD = true)
    (P : Params) : NaNBoxing P f R where
  setFP := SetFPFloat_holds hD
  flwLocal := by
    intro M i c' fn hfn _ hrun
    rw [runFunc_flws _ f i hfn] at hrun
    exact flw_local (c := ⟨R, M⟩) hf hD hrun
  flwView := by
    intro M i fn hfn hs hin
    rw [runFunc_flws _ f i hfn]
    exact flw_view (c := ⟨R, M⟩) hf hD hs hin
  response := by
    intro D i host tr s fn hfn hs hin hrun htick
    obtain ⟨d, PAddr, hd, hctrl⟩ :=
      flw_ctrl (c := ⟨R, { D with ctrl := some s.ctrl }⟩) (i := i) hf rfl hs hin
    have hwf : s.Wf := (hrun.invariant_of_step CtrlSys.Wf (CtrlSys.init_wf host)
      (fun s ev s' hs hstep => (CtrlSys.step_cases hstep).wf hs)).1
    have hsend := send_flw (P := P) htick ⟨R, D⟩ f i PAddr
    have hwf₁ := (CtrlSys.step_cases hsend).wf hwf
    refine ⟨d, PAddr, _, by rw [runFunc_flws _ f i hfn, hd], hsend, hctrl, ?_⟩
    intro tr' s' j mem evs R₁ hrun' hslot hperm hD₁
    obtain ⟨hwf', hissued⟩ := issued_of_run hrun' hwf₁ (q := (s.ctrl.nextPtr, _))
      (List.mem_append.mpr (.inr (List.mem_singleton.mpr rfl)))
    exact receiveFP_holds (c := ⟨R, D⟩) hD₁ hwf' hissued hslot hperm
  unboxed := fun rs => GetFPFloat_unboxed hD
  fsw := by
    intro M i fn hfn
    rw [runFunc_fsws _ f i hfn, fstore, GetFP_low hD]
    rfl

/-- All registers zero: none is boxed. -/
theorem nanBoxing_zeroRegs :
    NaNBoxing { lineSize := 64 } { IsRV64 := true, RV_D := true } zeroRegs :=
  nanBoxing rfl rfl _

end Core

end RevCPU
