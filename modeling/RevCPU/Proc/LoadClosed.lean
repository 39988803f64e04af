import RevCPU.Fetch.Prefetcher
import RevCPU.Proc.Atomics

namespace RevCPU

open Lib

namespace RevMem

/-- A translation keeps the controller. -/
theorem CalcPhysAddr_keeps_ctrl {m m' : RevMem} {page v r : ℕ}
    (h : m.CalcPhysAddr page v = some (r, m')) : m'.ctrl = m.ctrl := by
  have hsame : m.CalcPhysAddr page v =
      (m.CalcPhysAddr page v).map fun r => (r.1, { r.2 with ctrl := m.ctrl }) :=
    CalcPhysAddr_ctrl m m.ctrl page v
  rw [h, Option.map_some, Option.some.injEq, Prod.mk.injEq] at hsame
  have hfield := congrArg RevMem.ctrl hsame.2
  exact hfield

theorem pageAt_keeps_ctrl (m : RevMem) (p : ℕ) : (m.pageAt p).2.ctrl = m.ctrl := by
  unfold pageAt
  split <;> rfl

theorem translate_keeps_ctrl {m m' : RevMem} {A L r : ℕ} {adj : Option (ℕ × ℕ)}
    (h : m.translate A L = some (r, adj, m')) : m'.ctrl = m.ctrl := by
  unfold translate at h
  simp only at h
  split at h
  · simp at h
  · rename_i phys m₁ hcalc
    have hfirst := CalcPhysAddr_keeps_ctrl hcalc
    have hpage := pageAt_keeps_ctrl m₁ (A / pageSize)
    split at h
    · split at h
      · simp at h
      · rename_i phys₂ m₂ hadj
        simp only [Option.some.injEq, Prod.mk.injEq] at h
        rw [← h.2.2, CalcPhysAddr_keeps_ctrl hadj, hpage, hfirst]
    · simp only [Option.some.injEq, Prod.mk.injEq] at h
      rw [← h.2.2, hpage, hfirst]

/-- `ReadMem` without a controller marks its request complete once, on the page
    and across it, unless an AMO reads its own operand. -/
theorem ReadMem_completed {m m' : RevMem} {h h' : Host} {Hart A L Target : ℕ} {req : MemReq}
    {flags : RevFlag} (hctrl : m.ctrl = none)
    (hread : m.ReadMem h Hart A L Target req flags = some (m', h')) :
    h'.completed = h.completed ++ (if req.ReqType = .MemOpAMO then [] else [req]) := by
  have hmark : ∀ g : Host, (completeRead g req).completed =
      g.completed ++ (if req.ReqType = .MemOpAMO then [] else [req]) := by
    intro g
    unfold completeRead
    by_cases hamo : req.ReqType = .MemOpAMO
    · simp [hamo]
    · simp [hamo, Host.MarkLoadComplete]
  unfold ReadMem at hread
  split at hread
  · simp at hread
  · rename_i phys span adj m₁ htr
    have hnone : m₁.ctrl = none := (translate_keeps_ctrl htr).trans hctrl
    simp only [hnone] at hread
    cases hfront : m₁.physRead phys (headLen L span) with
    | none => simp [hfront] at hread
    | some bytes =>
      simp only [hfront, Option.map_some, Option.map_eq_some_iff, Prod.mk.injEq] at hread
      obtain ⟨rest, -, -, rfl⟩ := hread
      rw [hmark]
      rfl
  · rename_i phys m₁ htr
    have hnone : m₁.ctrl = none := (translate_keeps_ctrl htr).trans hctrl
    simp only [hnone, Option.map_eq_some_iff, Prod.mk.injEq] at hread
    obtain ⟨bytes, -, -, rfl⟩ := hread
    rw [hmark]
    rfl

/-- `LRBase` without a controller marks its request complete only when it makes
    the reservation. -/
theorem LRBase_completed {m m' : RevMem} {h h' : Host} {Hart A L Target aq rl : ℕ} {req : MemReq}
    {flags : RevFlag} {ok : Bool} (hctrl : m.ctrl = none)
    (hlr : m.LRBase h Hart A L Target aq rl req flags = some (ok, m', h')) :
    h'.completed = h.completed ++ (if (m.LRSC.any fun r => r.addr == A) then [] else [req]) := by
  unfold LRBase at hlr
  split at hlr
  · rename_i hany
    simp only [Option.some.injEq, Prod.mk.injEq] at hlr
    obtain ⟨-, -, rfl⟩ := hlr
    rw [if_pos hany, List.append_nil]
    rfl
  · rename_i hany
    simp only at hlr
    split at hlr
    · simp at hlr
    · rename_i phys m₁ hcalc
      have hnone : m₁.ctrl = none := (CalcPhysAddr_keeps_ctrl hcalc).trans hctrl
      simp only [hnone, Option.map_eq_some_iff, Prod.mk.injEq] at hlr
      obtain ⟨bytes, -, -, -, rfl⟩ := hlr
      rw [if_neg hany]
      rfl

theorem amoApply_completed (h : Host) (flags : RevFlag) (Target Len operand : ℕ) :
    (amoApply h flags Target Len operand).completed = h.completed := by
  unfold amoApply
  split <;> rfl

/-- `AMOMem` without a controller marks its request complete once. -/
theorem AMOMem_completed {m m' : RevMem} {h h' : Host} {Hart A L Data Target : ℕ} {req : MemReq}
    {flags : RevFlag} (hctrl : m.ctrl = none) (hreq : req.ReqType = .MemOpAMO)
    (hamo : m.AMOMem h Hart A L Data Target req flags = some (m', h')) :
    h'.completed = h.completed ++ [req] := by
  unfold AMOMem at hamo
  split at hamo
  · simp at hamo
  · rename_i phys m₁ hcalc
    have hnone : m₁.ctrl = none := (CalcPhysAddr_keeps_ctrl hcalc).trans hctrl
    simp only [hnone] at hamo
    split at hamo
    · simp at hamo
    · rename_i m₂ h₂ hread
      have hinner := ReadMem_completed hnone hread
      simp only [hreq, if_true, List.append_nil] at hinner
      simp only [Option.map_eq_some_iff, Prod.mk.injEq] at hamo
      obtain ⟨m₃, -, -, rfl⟩ := hamo
      show (amoApply h₂ flags Target L _).completed ++ [req] = _
      rw [amoApply_completed, hinner]

end RevMem

/-- An entry of `LSQueue` that `MarkLoadComplete` takes for the request. -/
def closes (req q : MemReq) : Bool := q.LSQHash == req.LSQHash && q.Addr == req.Addr

/-- `MarkLoadComplete` of requests, one after the other: each takes an entry with
    its hash and its address out of the queue, whichever the multimap finds
    first. A request without such an entry is a fatal error. -/
inductive Completes : List MemReq → List MemReq → List MemReq → Prop
  | nil (queue : List MemReq) : Completes queue [] queue
  | cons {queue reqs front back after : List MemReq} {req entry : MemReq} :
      queue = front ++ entry :: back → closes req entry = true →
      Completes (front ++ back) reqs after → Completes queue (req :: reqs) after

/-- What `MarkLoadComplete` and the checks of the scoreboard see of an entry. -/
def MemReq.key (q : MemReq) : ℕ × ℕ := (q.LSQHash, q.Addr)

/-- The loads of the model: those of the integer and floating-point registers
    and the atomic instructions. -/
inductive MemLoad
  | func (g : ImplFunc)
  | atomic (a : AtomicInst)
  deriving DecidableEq, Repr

/-- The implementation functions that load. -/
def ImplFunc.isLoad : ImplFunc → Bool
  | .lb | .lh | .lw | .lbu | .lhu | .lwu | .ld | .flw | .fld => true
  | .clwsp | .clw | .cldsp | .cld | .cflwsp | .cflw | .cfldsp | .cfld => true
  | _ => false

namespace MemLoad

def isLoad : MemLoad → Bool
  | func g => g.isLoad
  | atomic _ => true

/-- The implementation function of the instruction. -/
def run (l : MemLoad) (c : Core) (f : RevFeature) (i : RevInst) : Option Core :=
  match l with
  | func g => c.runFunc f i g
  | atomic a => a.run c f i

/-- An LR of an address that is reserved. -/
def Refused (l : MemLoad) (c : Core) (i : RevInst) : Prop :=
  ∃ a, l = .atomic a ∧ a.op = .lr ∧ (c.M.LRSC.any fun r => r.addr == c.R.RV i.rs1) = true

end MemLoad

/-- The instruction has put one request into the queue and marked it complete
    once, so that the queue is as before. -/
def LoadClosed (c c' : Core) : Prop :=
  ∃ req, c'.R.LSQueue = c.R.LSQueue ++ [req] ∧ c'.R.completed = c.R.completed ++ [req] ∧
    (∃ after, Completes c'.R.LSQueue [req] after) ∧
    ∀ after, Completes c'.R.LSQueue [req] after →
      (after.map MemReq.key).Perm (c.R.LSQueue.map MemReq.key)

/-- A request that is put into the queue and marked complete once. -/
theorem LoadClosed.of_once {c c' : Core} (req : MemReq)
    (hqueue : c'.R.LSQueue = c.R.LSQueue ++ [req])
    (hdone : c'.R.completed = c.R.completed ++ [req]) : LoadClosed c c' := by
  refine ⟨req, hqueue, hdone, ?_, ?_⟩
  · rw [hqueue]
    exact ⟨_, .cons rfl (by simp [closes]) (.nil _)⟩
  · intro after hafter
    rw [hqueue] at hafter
    cases hafter with
    | @cons _ _ front back _ _ entry hq hcloses hrest =>
      cases hrest
      simp only [closes, Bool.and_eq_true, beq_iff_eq] at hcloses
      have hkey : entry.key = req.key := by
        rw [MemReq.key, MemReq.key, hcloses.1, hcloses.2]
      have hall := congrArg (List.map MemReq.key) hq
      simp only [List.map_append, List.map_cons, List.map_nil, hkey] at hall
      have hperm : ((front.map MemReq.key) ++ req.key :: back.map MemReq.key).Perm
          (c.R.LSQueue.map MemReq.key ++ [req.key]) := by
        rw [← hall]
      rw [List.map_append]
      have hleft := List.perm_middle.symm.trans (hperm.trans (List.perm_append_singleton _ _))
      exact (List.perm_cons _).mp hleft

namespace Core

variable {c c' : Core} {f : RevFeature} {i : RevInst}

theorem readX_closed {off n : ℕ} {flags : RevFlag} (hctrl : c.M.ctrl = none)
    (h : c.readX f i off n flags = some c') :
    c'.R.LSQueue = c.R.LSQueue ++ [c.loadReq f i .RegGPR] ∧
      c'.R.completed = c.R.completed ++ [c.loadReq f i .RegGPR] := by
  simp only [readX, Option.map_eq_some_iff, Prod.exists] at h
  obtain ⟨M, g, hread, rfl⟩ := h
  have hdone := RevMem.ReadMem_completed hctrl hread
  refine ⟨rfl, ?_⟩
  simp only [hdone]
  rfl

theorem readFP_closed {off n : ℕ} {flags : RevFlag} (hctrl : c.M.ctrl = none)
    (h : c.readFP f i off n flags = some c') :
    c'.R.LSQueue = c.R.LSQueue ++ [c.loadReq f i .RegFLOAT] ∧
      c'.R.completed = c.R.completed ++ [c.loadReq f i .RegFLOAT] := by
  simp only [readFP, Option.map_eq_some_iff, Prod.exists] at h
  obtain ⟨M, g, hread, rfl⟩ := h
  have hdone := RevMem.ReadMem_completed hctrl hread
  refine ⟨rfl, ?_⟩
  simp only [hdone]
  rfl

theorem load_closed {n : ℕ} {signed : Bool} (hctrl : c.M.ctrl = none)
    (h : c.load f i n signed = some c') : LoadClosed c c' := by
  simp only [load, Option.map_eq_some_iff] at h
  obtain ⟨c₁, hread, rfl⟩ := h
  obtain ⟨hqueue, hdone⟩ := readX_closed hctrl hread
  exact LoadClosed.of_once _ hqueue hdone

theorem fload_closed {n : ℕ} (hctrl : c.M.ctrl = none) (h : c.fload f i n = some c') :
    LoadClosed c c' := by
  unfold fload at h
  split at h
  · simp only [Option.map_eq_some_iff] at h
    obtain ⟨c₁, hread, rfl⟩ := h
    obtain ⟨hqueue, hdone⟩ := readFP_closed hctrl hread
    refine LoadClosed.of_once (c.loadReq f i .RegFLOAT) ?_ ?_
    · simp only
      split <;> exact hqueue
    · simp only
      split <;> exact hdone
  · simp only [Option.map_eq_some_iff] at h
    obtain ⟨c₁, hread, rfl⟩ := h
    obtain ⟨hqueue, hdone⟩ := readFP_closed hctrl hread
    exact LoadClosed.of_once _ hqueue hdone

/-- Every integer and floating-point load is closed. -/
theorem runFunc_closed {g : ImplFunc} (hload : g.isLoad = true) (hctrl : c.M.ctrl = none)
    (h : c.runFunc f i g = some c') : LoadClosed c c' := by
  cases g with
  | lb | lh | lw | lbu | lhu | lwu | ld => exact load_closed hctrl h
  | clwsp | clw | cldsp | cld => exact load_closed hctrl h
  | flw | fld | cflwsp | cflw | cfldsp | cfld => exact fload_closed hctrl h
  | _ => simp [ImplFunc.isLoad] at hload

theorem LR_closed_iff {n : ℕ} {aq rl : Bool} {flags : RevFlag} (hctrl : c.M.ctrl = none)
    (h : c.LR f i n aq rl flags = some c') :
    LoadClosed c c' ↔ (c.M.LRSC.any fun r => r.addr == c.R.RV i.rs1) = false := by
  simp only [LR, Option.map_eq_some_iff, Prod.exists] at h
  obtain ⟨ok, M, g, hlr, rfl⟩ := h
  have hdone := RevMem.LRBase_completed hctrl hlr
  cases hany : c.M.LRSC.any fun r => r.addr == c.R.RV i.rs1 with
  | true =>
    refine ⟨?_, by simp⟩
    rintro ⟨req, -, hcompleted, -⟩
    rw [hany, if_pos rfl, List.append_nil] at hdone
    simp only [putRd, RevRegFile.AdvancePC, hdone, regHost, List.append_nil] at hcompleted
    simp at hcompleted
  | false =>
    refine ⟨fun _ => rfl, fun _ => ?_⟩
    rw [hany, if_neg (by simp)] at hdone
    refine LoadClosed.of_once (atomicReq c.R f i) rfl ?_
    simp only [putRd, RevRegFile.AdvancePC, hdone]
    rfl

theorem AMOVal_closed {n : ℕ} {flags : RevFlag} (hctrl : c.M.ctrl = none)
    (h : c.AMOVal f i n flags = some c') : LoadClosed c c' := by
  simp only [AMOVal, Option.map_eq_some_iff, Prod.exists] at h
  obtain ⟨M, g, hamo, rfl⟩ := h
  have hdone := RevMem.AMOMem_completed hctrl rfl hamo
  refine LoadClosed.of_once (atomicReq c.R f i) rfl ?_
  simp only [putRd, RevRegFile.AdvancePC, hdone]
  rfl

end Core

/-- With local memory every load, LR and AMO that returns has closed its entry of
    the queue, except an LR of an address that is reserved. -/
theorem loadClosed_iff {l : MemLoad} (hload : l.isLoad = true) {c c' : Core} {f : RevFeature}
    {i : RevInst} (hctrl : c.M.ctrl = none) (h : l.run c f i = some c') :
    LoadClosed c c' ↔ ¬l.Refused c i := by
  cases l with
  | func g =>
    refine ⟨?_, fun _ => Core.runFunc_closed hload hctrl h⟩
    rintro - ⟨a, hl, -⟩
    simp at hl
  | atomic a =>
    have hrefused : (MemLoad.atomic a).Refused c i ↔
        a.op = .lr ∧ (c.M.LRSC.any fun r => r.addr == c.R.RV i.rs1) = true := by
      constructor
      · rintro ⟨a', hl, hop, hany⟩
        simp only [MemLoad.atomic.injEq] at hl
        subst hl
        exact ⟨hop, hany⟩
      · rintro ⟨hop, hany⟩
        exact ⟨a, rfl, hop, hany⟩
    rw [hrefused]
    simp only [MemLoad.run, AtomicInst.run] at h
    split at h
    · rename_i hop _
      rw [Core.LR_closed_iff hctrl h, hop]
      simp
    · rename_i hop _
      rw [Core.LR_closed_iff hctrl h, hop]
      simp
    · rename_i op hop _
      simp [hop, Core.AMOVal_closed hctrl h]
    · rename_i op hop _
      simp [hop, Core.AMOVal_closed hctrl h]

/-- A core with zero registers and one page of memory, with the given
    reservations. -/
def zeroCore (LRSC : List Reservation) : Core :=
  { R := { IsRV32 := false, HasD := true, X := fun _ => 0, FP := fun _ => 0, PC := 0 }
    M := { RevMem.onePage 0 (fun _ => 0) with LRSC } }

/-- `lr.w x5, (x6)`. -/
def lrInst : RevInst :=
  { opcode := 0b0101111, funct3 := 0b010, rd := 5, rs1 := 6, instSize := 4 }

/-- The run of `lr.w x5, (x6)` on it. -/
def runLr (LRSC : List Reservation) : Option Core :=
  (MemLoad.atomic ⟨.lr, false, false, false⟩).run (zeroCore LRSC) { IsRV64 := true } lrInst

theorem lr_closed : ∃ c', runLr [] = some c' ∧ LoadClosed (zeroCore []) c' := by
  have hsome : (runLr []).isSome = true := by decide
  obtain ⟨c', hrun⟩ := Option.isSome_iff_exists.mp hsome
  refine ⟨c', hrun, (loadClosed_iff rfl rfl hrun).mpr ?_⟩
  rintro ⟨a, -, -, hany⟩
  simp [zeroCore] at hany

/-- The second LR of an address leaves its entry in the queue. -/
theorem lr_reserved_not_closed :
    ∃ c', (zeroCore [⟨0, 0, 0, 40⟩]).M.ctrl = none ∧
      (zeroCore [⟨0, 0, 0, 40⟩]).M.isValidVirtAddr 0 = true ∧ runLr [⟨0, 0, 0, 40⟩] = some c' ∧
      c'.R.LSQueue.length = 1 ∧ c'.R.completed = [] ∧
      ¬LoadClosed (zeroCore [⟨0, 0, 0, 40⟩]) c' := by
  have hsome : ((runLr [⟨0, 0, 0, 40⟩]).map fun c => (c.R.LSQueue.length, c.R.completed)) =
      some (1, []) := by decide
  obtain ⟨c', hrun, hfacts⟩ := Option.map_eq_some_iff.mp hsome
  simp only [Prod.mk.injEq] at hfacts
  refine ⟨c', rfl, by decide, hrun, hfacts.1, hfacts.2, ?_⟩
  rintro ⟨req, -, hcompleted, -⟩
  rw [hfacts.2] at hcompleted
  simp [zeroCore] at hcompleted

end RevCPU
