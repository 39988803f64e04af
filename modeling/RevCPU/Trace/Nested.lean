import RevCPU.Lib.Assoc
import RevCPU.Lib.Nesting
import RevCPU.Trace.Tracer

namespace RevCPU

open Lib

namespace TraceTick

variable (nops : TrcCmdIdx → BitVec 32)

/-- `TRACE_PUSH_ON` and `TRACE_PUSH_OFF` open a bracket that `TRACE_POP`
    closes. -/
def kind : TraceTick → Bracket
  | .exec insn _ _ =>
    if insn = nops .TRACE_PUSH_OFF ∨ insn = nops .TRACE_PUSH_ON then .opens
    else if insn = nops .TRACE_POP then .closes
    else .plain
  | _ => .plain

/-- What a command other than `TRACE_POP` makes of `outputEnabled`. -/
def enables (v : Bool) : TraceTick → Bool
  | .exec insn _ _ =>
    if insn = nops .TRACE_OFF ∨ insn = nops .TRACE_PUSH_OFF then false
    else if insn = nops .TRACE_ON ∨ insn = nops .TRACE_PUSH_ON then true
    else v
  | _ => v

/-- `DependencyCheck` holds no command back: a command names x0 only. -/
def Ready : TraceTick → Prop
  | .stall insn _ => ∀ i, insn ≠ nops i
  | _ => True

end TraceTick

namespace RevTracer

/-- Sequences whose pushes and pops are balanced with nesting depth at most
    `d`. -/
structure NestedIn (t : RevTracer) (d : ℕ) (s : List TraceTick) : Prop where
  balanced : Balanced (TraceTick.kind t.nops) s
  depth : peak (TraceTick.kind t.nops) 0 s ≤ d
  ready : ∀ a ∈ s, a.Ready t.nops

/-- Every pop sets `outputEnabled` to its value before the matching push. -/
def PopsRestore (t : RevTracer) (s : List TraceTick) : Prop :=
  ∀ pre push body pop post, s = pre ++ (push :: body ++ [pop]) ++ post →
    push.kind t.nops = .opens → pop.kind t.nops = .closes →
    Balanced (TraceTick.kind t.nops) body →
    (t.run (pre ++ (push :: body ++ [pop]))).outputEnabled = (t.run pre).outputEnabled

/-- The values of `s2op`. -/
def templates : List (BitVec 32) := s2op.map Prod.snd

/-- The commands of a template are different instructions, and none is 0. -/
theorem trcNops_inj {w : BitVec 32} (hw : w ∈ templates) {i j : TrcCmdIdx}
    (h : trcNops w i = trcNops w j) : i = j := by
  simp only [templates, s2op, List.map_cons, List.map_nil, List.mem_cons, List.not_mem_nil,
    or_false] at hw
  rcases hw with rfl | rfl | rfl | rfl | rfl <;> cases i <;> cases j <;>
    first | rfl | exact absurd h (by decide)

theorem zero_ne_trcNops {w : BitVec 32} (hw : w ∈ templates) (i : TrcCmdIdx) : 0 ≠ trcNops w i := by
  simp only [templates, s2op, List.map_cons, List.map_nil, List.mem_cons, List.not_mem_nil,
    or_false] at hw
  rcases hw with rfl | rfl | rfl | rfl | rfl <;> cases i <;> decide

/-- The constructed tracer. -/
theorem new_eq {cmd : String} {t : RevTracer} (h : new 0 0 cmd = some t) :
    ∃ w ∈ templates, t = { nops := trcNops w } := by
  simp only [new, SetCmdTemplate, Option.bind_eq_some_iff, Option.map_eq_some_iff] at h
  obtain ⟨_, -, w, hw, rfl⟩ := h
  exact ⟨w, List.mem_map.mpr ⟨_, mem_of_lookup hw, rfl⟩, rfl⟩

/-- The default command. -/
theorem new_slli : new 0 0 "slli" = some { nops := trcNops 0x00001013 } := rfl

/-- No start cycle and no cycle limit. -/
structure Programmatic (t : RevTracer) : Prop where
  disabled : t.disabled = false
  startCycle : t.startCycle = 0
  cycleLimit : t.cycleLimit = 0

/-- What the programmatic controls work on. -/
structure SameControls (t t' : RevTracer) : Prop where
  outputEnabled : t'.outputEnabled = t.outputEnabled
  enableQ : t'.enableQ = t.enableQ
  enableQindex : t'.enableQindex = t.enableQindex
  nops : t'.nops = t.nops
  settings : t.Programmatic → t'.Programmatic

theorem setOutput_controls (t : RevTracer) (enable : Bool) :
    SameControls { t with outputEnabled := enable } (t.setOutput enable) ∧
      (t.setOutput enable).insn = t.insn ∧ (t.setOutput enable).valid = t.valid := by
  unfold setOutput
  split
  · exact ⟨⟨rfl, rfl, rfl, rfl, fun h => ⟨h.disabled, h.startCycle, h.cycleLimit⟩⟩, rfl, rfl⟩
  · rename_i heq
    have hsame : t.outputEnabled = enable := by
      by_contra hne
      exact heq fun h => hne h.symm
    exact ⟨⟨hsame, rfl, rfl, rfl, fun h => ⟨h.disabled, h.startCycle, h.cycleLimit⟩⟩, rfl, rfl⟩

theorem command_of {t : RevTracer} (hinj : Function.Injective t.nops) {i : TrcCmdIdx}
    (h : t.insn = t.nops i) : t.command = some i := by
  unfold command
  rw [h]
  cases i <;> simp [hinj.eq_iff]

theorem command_none {t : RevTracer} (h : ∀ i, t.insn ≠ t.nops i) : t.command = none := by
  simp only [command, if_neg (h _)]

/-- What the programmatic controls leave alone. -/
structure Frame (t t' : RevTracer) : Prop where
  nops : t'.nops = t.nops
  insn : t'.insn = t.insn
  valid : t'.valid = t.valid
  settings : t.Programmatic → t'.Programmatic

theorem Frame.refl (t : RevTracer) : Frame t t := ⟨rfl, rfl, rfl, id⟩

theorem Frame.setIndex (t : RevTracer) (index : ℕ) : Frame t (t.setIndex index) :=
  ⟨rfl, rfl, rfl, fun h => ⟨h.disabled, h.startCycle, h.cycleLimit⟩⟩

theorem Frame.push (t : RevTracer) : Frame t t.push := by
  have h := Frame.setIndex { t with enableQ := t.enableQ.set t.enableQindex t.outputEnabled }
    ((t.enableQindex + 1) % MAX_ENABLE_Q)
  exact ⟨h.nops, h.insn, h.valid, fun hp => h.settings ⟨hp.disabled, hp.startCycle, hp.cycleLimit⟩⟩

theorem Frame.pop (t : RevTracer) : Frame t t.pop.2 := Frame.setIndex t _

theorem programControls_frame (t : RevTracer) : Frame t t.programControls.2 := by
  unfold programControls
  rcases t.command with _ | c
  · exact Frame.refl t
  · cases c with
    | TRACE_OFF => exact Frame.refl t
    | TRACE_ON => exact Frame.refl t
    | TRACE_PUSH_OFF => exact Frame.push t
    | TRACE_PUSH_ON => exact Frame.push t
    | TRACE_POP => exact Frame.pop t

/-- The controls after `Render`, and the instruction: it is forgotten once it has
    been executed. -/
theorem Render_controls {t : RevTracer} (h : t.Programmatic) (cycle : ℕ) :
    SameControls { t.programControls.2 with outputEnabled := t.programControls.1 }
        (t.Render cycle) ∧
      (t.Render cycle).insn = if t.valid then 0 else t.insn := by
  have hcheck : t.CheckUserControls cycle = t.programControls.2.setOutput t.programControls.1 := by
    unfold CheckUserControls
    rw [h.disabled, h.startCycle, h.cycleLimit, if_neg (by simp), if_neg (by simp),
      if_neg (by simp)]
  obtain ⟨-, hinsn, hvalid, -⟩ := t.programControls_frame
  obtain ⟨hsame, hinsn', hvalid'⟩ := t.programControls.2.setOutput_controls t.programControls.1
  rw [hinsn] at hinsn'
  rw [hvalid] at hvalid'
  unfold Render
  rw [hcheck]
  generalize t.programControls.2.setOutput t.programControls.1 = t₁ at hsame hinsn' hvalid'
  simp only [hvalid']
  obtain ⟨hout, hqueue, hindex, hnops, hset⟩ := hsame
  cases hv : t.valid with
  | false => exact ⟨⟨hout, hqueue, hindex, hnops, hset⟩, hinsn'⟩
  | true =>
    refine ⟨?_, rfl⟩
    simp only [if_true]
    split
    · unfold RenderExec
      split
      · exact ⟨hout, hqueue, hindex, hnops, fun h =>
          ⟨(hset h).disabled, (hset h).startCycle, (hset h).cycleLimit⟩⟩
      · exact ⟨hout, hqueue, hindex, hnops, fun h =>
          ⟨(hset h).disabled, (hset h).startCycle, (hset h).cycleLimit⟩⟩
    · exact ⟨hout, hqueue, hindex, hnops, fun h =>
        ⟨(hset h).disabled, (hset h).startCycle, (hset h).cycleLimit⟩⟩

/-- The tracer keeps the stack `p.2` of saved values under its index, which has
    not come round. -/
structure Stacked (t : RevTracer) (p : Bool × List Bool) : Prop where
  value : t.outputEnabled = p.1
  index : t.enableQindex = p.2.length
  room : p.2.length < MAX_ENABLE_Q
  size : t.enableQ.length = MAX_ENABLE_Q
  saved : t.enableQ.take p.2.length = p.2.reverse

theorem pop_eq (t : RevTracer) {index : ℕ} (h : prevIndex t.enableQindex = index) :
    t.pop = (t.enableQ.getD index false, t.setIndex index) := by
  unfold RevTracer.pop
  rw [h]
  rfl

theorem prevIndex_succ {n : ℕ} (h : n + 1 < MAX_ENABLE_Q) : prevIndex (n + 1) = n := by
  unfold MAX_ENABLE_Q at h
  unfold prevIndex MAX_ENABLE_Q
  omega

namespace Stacked

variable {t t' : RevTracer} {p : Bool × List Bool}

theorem congr (h : Stacked t p) (hsame : SameControls t t') : Stacked t' p := by
  refine ⟨?_, ?_, h.room, ?_, ?_⟩
  · rw [hsame.outputEnabled, h.value]
  · rw [hsame.enableQindex, h.index]
  · rw [hsame.enableQ, h.size]
  · rw [hsame.enableQ, h.saved]

theorem enable (h : Stacked t p) (v : Bool) : Stacked { t with outputEnabled := v } (v, p.2) :=
  ⟨rfl, h.index, h.room, h.size, h.saved⟩

theorem push (h : Stacked t p) (hroom : p.2.length + 1 < MAX_ENABLE_Q) :
    Stacked t.push (p.1, p.1 :: p.2) := by
  have hlt : p.2.length < t.enableQ.length := by
    rw [h.size]
    exact h.room
  refine ⟨h.value, ?_, hroom, ?_, ?_⟩
  · show (t.enableQindex + 1) % MAX_ENABLE_Q = p.2.length + 1
    rw [h.index, Nat.mod_eq_of_lt hroom]
  · show (t.enableQ.set t.enableQindex t.outputEnabled).length = MAX_ENABLE_Q
    rw [List.length_set, h.size]
  · show (t.enableQ.set t.enableQindex t.outputEnabled).take (p.2.length + 1) = _
    rw [h.index, h.value, List.reverse_cons, ← h.saved,
      List.take_succ_eq_append_getElem (by rw [List.length_set]; exact hlt),
      List.getElem_set_self, List.take_set_of_le (Nat.le_refl _)]

theorem pop {v x : Bool} {xs : List Bool} (h : Stacked t (v, x :: xs)) :
    Stacked { t.pop.2 with outputEnabled := t.pop.1 } (x, xs) := by
  have hroom : xs.length + 1 < MAX_ENABLE_Q := h.room
  have hlt : xs.length < t.enableQ.length := by
    rw [h.size]
    omega
  have hindex : prevIndex t.enableQindex = xs.length := by
    rw [h.index]
    exact prevIndex_succ hroom
  have hsaved : t.enableQ.take xs.length ++ [t.enableQ[xs.length]] = xs.reverse ++ [x] := by
    rw [← List.take_succ_eq_append_getElem hlt, ← List.reverse_cons]
    exact h.saved
  obtain ⟨htake, hget⟩ := List.append_inj' hsaved rfl
  rw [pop_eq t hindex]
  refine ⟨?_, rfl, Nat.lt_of_succ_lt hroom, h.size, htake⟩
  show t.enableQ.getD xs.length false = x
  rw [List.getD_eq_getElem?_getD, List.getElem?_eq_getElem hlt, Option.getD_some]
  exact List.singleton_inj.mp hget

/-- An instruction that is no command. -/
theorem programControls_none (h : Stacked t p) (hinsn : ∀ i, t.insn ≠ t.nops i) :
    Stacked { t.programControls.2 with outputEnabled := t.programControls.1 } p := by
  have hcontrols : t.programControls = (t.outputEnabled, t) := by
    simp only [programControls, command_none hinsn]
  rw [hcontrols]
  have hstacked := h.enable t.outputEnabled
  rw [h.value] at hstacked ⊢
  exact hstacked

/-- A command. -/
theorem programControls_some (h : Stacked t p) (hinj : Function.Injective t.nops) {i : TrcCmdIdx}
    (recs : Bool) (cycle : ℕ)
    (hopens : TraceTick.kind t.nops (.exec (t.nops i) recs cycle) = .opens →
      p.2.length + 1 < MAX_ENABLE_Q)
    (hcloses : TraceTick.kind t.nops (.exec (t.nops i) recs cycle) = .closes → p.2 ≠ [])
    (hi : t.insn = t.nops i) :
    Stacked { t.programControls.2 with outputEnabled := t.programControls.1 }
      (stackStep (TraceTick.kind t.nops) (TraceTick.enables t.nops) p
        (.exec (t.nops i) recs cycle)) := by
  have hcommand := command_of hinj hi
  cases i with
  | TRACE_OFF =>
    have hcontrols : t.programControls = (false, t) := by
      simp only [programControls, hcommand]
    rw [hcontrols]
    simp only [stackStep, TraceTick.kind, TraceTick.enables, hinj.eq_iff]
    exact h.enable false
  | TRACE_ON =>
    have hcontrols : t.programControls = (true, t) := by
      simp only [programControls, hcommand]
    rw [hcontrols]
    simp only [stackStep, TraceTick.kind, TraceTick.enables, hinj.eq_iff]
    exact h.enable true
  | TRACE_PUSH_OFF =>
    have hcontrols : t.programControls = (false, t.push) := by
      simp only [programControls, hcommand]
    rw [hcontrols]
    simp only [stackStep, TraceTick.kind, TraceTick.enables, hinj.eq_iff]
    exact (h.push (hopens (by simp [TraceTick.kind]))).enable false
  | TRACE_PUSH_ON =>
    have hcontrols : t.programControls = (true, t.push) := by
      simp only [programControls, hcommand]
    rw [hcontrols]
    simp only [stackStep, TraceTick.kind, TraceTick.enables, hinj.eq_iff]
    exact (h.push (hopens (by simp [TraceTick.kind]))).enable true
  | TRACE_POP =>
    have hcontrols : t.programControls = t.pop := by
      simp only [programControls, hcommand]
    rw [hcontrols]
    have hkind : TraceTick.kind t.nops (.exec (t.nops .TRACE_POP) recs cycle) = .closes := by
      simp [TraceTick.kind, hinj.eq_iff]
    obtain ⟨v, saved⟩ := p
    cases saved with
    | nil => exact absurd rfl (hcloses hkind)
    | cons x xs =>
      simp only [stackStep, hkind]
      exact h.pop

end Stacked

end RevTracer

end RevCPU
