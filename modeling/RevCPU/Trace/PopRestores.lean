import RevCPU.Trace.Nested

namespace RevCPU

open Lib

namespace RevTracer

/-- The invariant of a run under the template `w`. -/
structure Tracks (w : BitVec 32) (t : RevTracer) (p : Bool × List Bool) : Prop where
  settings : t.Programmatic
  nops : t.nops = trcNops w
  stacked : Stacked t p
  insn : ∀ i, t.insn ≠ trcNops w i

theorem Tracks.init {w : BitVec 32} (hw : w ∈ templates) :
    Tracks w { nops := trcNops w } (false, []) where
  settings := ⟨rfl, rfl, rfl⟩
  nops := rfl
  stacked := ⟨rfl, rfl, by decide, List.length_replicate, List.take_zero⟩
  insn := zero_ne_trcNops hw

theorem trcNops_injective {w : BitVec 32} (hw : w ∈ templates) : Function.Injective (trcNops w) :=
  fun _ _ => trcNops_inj hw

namespace Tracks

variable {w : BitVec 32} {t : RevTracer} {p : Bool × List Bool}

/-- `Render` at the end of a tick. -/
theorem render (hsettings : t.Programmatic) (hnops : t.nops = trcNops w)
    (hstacked : Stacked { t.programControls.2 with outputEnabled := t.programControls.1 } p)
    (hinsn : ∀ i, (if t.valid then 0 else t.insn) ≠ trcNops w i) (cycle : ℕ) :
    Tracks w (t.Render cycle) p := by
  obtain ⟨hsame, hafter⟩ := Render_controls hsettings cycle
  have hframe := t.programControls_frame
  have hcontrols := hframe.settings hsettings
  refine ⟨hsame.settings ⟨hcontrols.disabled, hcontrols.startCycle, hcontrols.cycleLimit⟩, ?_,
    hstacked.congr hsame, ?_⟩
  · rw [hsame.nops, ← hnops]
    exact hframe.nops
  · rw [hafter]
    exact hinsn

/-- The capture of an executed instruction keeps the controls. -/
theorem executed (t : RevTracer) (insn : BitVec 32) (recs : Bool) :
    let t' := (if recs then (t.SetFetchedInsn insn).capture else t.SetFetchedInsn insn).Exec
    SameControls t t' ∧ t'.insn = insn ∧ t'.valid = true := by
  cases recs <;>
    exact ⟨⟨rfl, rfl, rfl, rfl, fun h => ⟨h.disabled, h.startCycle, h.cycleLimit⟩⟩, rfl, rfl⟩

/-- A tick follows the stack, as long as the index does not come round. -/
theorem tick (hw : w ∈ templates) (h : Tracks w t p) {a : TraceTick}
    (hready : a.Ready (trcNops w))
    (hopens : TraceTick.kind (trcNops w) a = .opens → p.2.length < MAX_ENABLE_Q - 1)
    (hcloses : TraceTick.kind (trcNops w) a = .closes → p.2 ≠ []) :
    Tracks w (t.tick a)
      (stackStep (TraceTick.kind (trcNops w)) (TraceTick.enables (trcNops w)) p a) := by
  cases a with
  | idle cycle =>
    refine render h.settings h.nops (h.stacked.programControls_none ?_) ?_ cycle
    · rw [h.nops]
      exact h.insn
    · intro i
      split
      · exact zero_ne_trcNops hw i
      · exact h.insn i
  | stall insn cycle =>
    have hsame : SameControls t (t.SetFetchedInsn insn) :=
      ⟨rfl, rfl, rfl, rfl, fun h => ⟨h.disabled, h.startCycle, h.cycleLimit⟩⟩
    refine render (hsame.settings h.settings) h.nops
      ((h.stacked.congr hsame).programControls_none ?_) ?_ cycle
    · rw [hsame.nops, h.nops]
      exact hready
    · intro i
      split
      · exact zero_ne_trcNops hw i
      · exact hready i
  | exec insn recs cycle =>
    obtain ⟨hsame, hinsn, hvalid⟩ := executed t insn recs
    have hnops := hsame.nops.trans h.nops
    refine render (hsame.settings h.settings) hnops ?_ ?_ cycle
    · by_cases hcommand : ∃ i, insn = trcNops w i
      · obtain ⟨i, rfl⟩ := hcommand
        have hinj := trcNops_injective hw
        have hstep := (h.stacked.congr hsame).programControls_some (i := i)
          (by rw [hnops]; exact hinj) recs cycle (by
            rw [hnops]
            intro hk
            have hlt := hopens hk
            omega) (by
            rw [hnops]
            exact hcloses) (by rw [hinsn, hnops])
        rw [hnops] at hstep
        exact hstep
      · have hne : ∀ i, insn ≠ trcNops w i := fun i hi => hcommand ⟨i, hi⟩
        have hplain : stackStep (TraceTick.kind (trcNops w)) (TraceTick.enables (trcNops w)) p
            (.exec insn recs cycle) = p := by
          simp [stackStep, TraceTick.kind, TraceTick.enables, hne]
        rw [hplain]
        refine (h.stacked.congr hsame).programControls_none ?_
        rw [hnops, hinsn]
        exact hne
    · intro i
      rw [hvalid, if_pos rfl]
      exact zero_ne_trcNops hw i

/-- A run whose nesting stays under `MAX_ENABLE_Q` follows the stack. -/
theorem run (hw : w ∈ templates) (h : Tracks w t p) {m : ℕ} {s : List TraceTick}
    (hclimb : climb (TraceTick.kind (trcNops w)) p.2.length s = some m)
    (hpeak : peak (TraceTick.kind (trcNops w)) p.2.length s ≤ MAX_ENABLE_Q - 1)
    (hready : ∀ a ∈ s, a.Ready (trcNops w)) :
    Tracks w (t.run s)
      (stackRun (TraceTick.kind (trcNops w)) (TraceTick.enables (trcNops w)) p s) :=
  stackRun_simulates (fun _ _ _ hR hok hopens hcloses => hR.tick hw hok hopens hcloses) h hclimb
    hpeak hready

end Tracks

/-- The stack after the first part of a nested sequence. -/
theorem NestedIn.tracks {w : BitVec 32} (hw : w ∈ templates) {t : RevTracer}
    (h : Tracks w t (false, [])) {d : ℕ} (hd : d < MAX_ENABLE_Q) {s pre post : List TraceTick}
    (hs : t.NestedIn d s) (heq : s = pre ++ post) :
    Tracks w (t.run pre)
      (stackRun (TraceTick.kind t.nops) (TraceTick.enables t.nops) (false, []) pre) := by
  obtain ⟨hbalanced, hdepth, hready⟩ := hs
  rw [h.nops] at hbalanced hdepth hready ⊢
  subst heq
  rw [Lib.Balanced, climb_append] at hbalanced
  obtain ⟨m, hm, -⟩ := Option.bind_eq_some_iff.mp hbalanced
  have hpeak := Nat.le_trans (peak_append_le 0 pre post) hdepth
  exact h.run hw hm (Nat.le_trans hpeak (by omega)) fun a ha => hready a (List.mem_append_left post ha)

/-- Below the full depth every pop restores. -/
theorem NestedIn.popsRestore {w : BitVec 32} (hw : w ∈ templates) {t : RevTracer}
    (h : Tracks w t (false, [])) {d : ℕ} (hd : d < MAX_ENABLE_Q) {s : List TraceTick}
    (hs : t.NestedIn d s) : t.PopsRestore s := by
  intro pre push body pop post heq hpush hpop hbody
  have hpre := hs.tracks hw h hd
    (show s = pre ++ (push :: body ++ [pop] ++ post) by rw [heq, List.append_assoc])
  have hthere := hs.tracks hw h hd heq
  rw [stackRun, List.foldl_append, ← stackRun, ← stackRun,
    stackRun_matching _ hpush hpop hbody] at hthere
  rw [hthere.stacked.value, hpre.stacked.value]

/-- Commands that nest to `n` and turn the output on below the last push. -/
def nestTo (nops : TrcCmdIdx → BitVec 32) (n : ℕ) : List TraceTick :=
  List.replicate n (.exec (nops .TRACE_PUSH_OFF) false 1) ++ [.exec (nops .TRACE_ON) false 1]

/-- One more push and its pop. -/
def pushPop (nops : TrcCmdIdx → BitVec 32) : List TraceTick :=
  [.exec (nops .TRACE_PUSH_OFF) false 1, .exec (nops .TRACE_POP) false 1]

/-- A sequence of depth `n + 1`. -/
def nested (nops : TrcCmdIdx → BitVec 32) (n : ℕ) : List TraceTick :=
  nestTo nops n ++ pushPop nops ++ List.replicate n (.exec (nops .TRACE_POP) false 1)

/-- At the full depth the index comes round to 0, and the pop goes back to
    `(2 ^ 32 - 1) % MAX_ENABLE_Q`, which is not the place of the push. -/
theorem full_depth {w : BitVec 32} (hw : w ∈ templates) :
    NestedIn { nops := trcNops w } MAX_ENABLE_Q (nested (trcNops w) 99) ∧
      (run { nops := trcNops w } (nestTo (trcNops w) 99)).outputEnabled = true ∧
      (run { nops := trcNops w }
        (nestTo (trcNops w) 99 ++ pushPop (trcNops w))).outputEnabled = false := by
  simp only [templates, s2op, List.map_cons, List.map_nil, List.mem_cons, List.not_mem_nil,
    or_false] at hw
  have hready (nops : TrcCmdIdx → BitVec 32) : ∀ a ∈ nested nops 99, a.Ready nops := by
    intro a ha
    simp only [nested, nestTo, pushPop, List.mem_append, List.mem_replicate, List.mem_cons,
      List.not_mem_nil, or_false] at ha
    rcases ha with ((⟨-, rfl⟩ | rfl) | rfl | rfl) | ⟨-, rfl⟩ <;> exact trivial
  rcases hw with rfl | rfl | rfl | rfl | rfl <;>
    exact ⟨⟨by decide +kernel, by decide +kernel, hready _⟩, by decide +kernel, by decide +kernel⟩

/-- Pops restore the output of their pushes in every nested sequence as long as
    the nesting stays under `MAX_ENABLE_Q`. -/
theorem pops_restore_iff {cmd : String} {t : RevTracer} (h : new 0 0 cmd = some t) (d : ℕ) :
    (∀ s, t.NestedIn d s → t.PopsRestore s) ↔ d < MAX_ENABLE_Q := by
  obtain ⟨w, hw, rfl⟩ := new_eq h
  refine ⟨fun hall => ?_, fun hd s hs => hs.popsRestore hw (Tracks.init hw) hd⟩
  by_contra hfull
  obtain ⟨⟨hbalanced, hdepth, hready⟩, hon, hoff⟩ := full_depth hw
  have hrestored := hall _ ⟨hbalanced, Nat.le_trans hdepth (Nat.not_lt.mp hfull), hready⟩
    (nestTo (trcNops w) 99) (.exec (trcNops w .TRACE_PUSH_OFF) false 1) []
    (.exec (trcNops w .TRACE_POP) false 1) _ rfl (by simp [TraceTick.kind])
    (by simp [TraceTick.kind, (trcNops_injective hw).eq_iff]) rfl
  rw [hon] at hrestored
  exact Bool.false_ne_true (hoff.symm.trans hrestored)

theorem pops_restore_iff_slli :
    ∃ t, new 0 0 "slli" = some t ∧
      ((∀ s, t.NestedIn 99 s → t.PopsRestore s) ↔ 99 < MAX_ENABLE_Q) :=
  ⟨_, new_slli, pops_restore_iff new_slli 99⟩

/-- A hundred pushes under the default command. -/
theorem pop_of_full_depth :
    ¬ ∀ t, new 0 0 "slli" = some t →
      ∀ s, t.NestedIn MAX_ENABLE_Q s → t.PopsRestore s := by
  intro hall
  have hw : (0x00001013 : BitVec 32) ∈ templates := by decide
  obtain ⟨hnested, hon, hoff⟩ := full_depth hw
  have hrestored := hall _ new_slli _ hnested (nestTo (trcNops 0x00001013) 99)
    (.exec (trcNops 0x00001013 .TRACE_PUSH_OFF) false 1) []
    (.exec (trcNops 0x00001013 .TRACE_POP) false 1) _ rfl (by decide) (by decide) rfl
  rw [hon] at hrestored
  exact Bool.false_ne_true (hoff.symm.trans hrestored)

end RevTracer

end RevCPU
