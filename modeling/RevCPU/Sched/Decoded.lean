import RevCPU.Sched.Booked

namespace RevCPU.Sched

open Lib

namespace RevProc

/-- The loop finds a hart that is clear to decode if the hart `d` places further
    on is. -/
theorem scanHarts_clear (p : RevProc) {d k cur : ℕ} (hcur : cur < p.numHarts) (hdk : d < k)
    (hd : d < p.numHarts)
    (hclear : p.HartsClearToDecode (if cur + 1 + d < p.numHarts then cur + 1 + d
      else cur + 1 + d - p.numHarts) = true) :
    p.HartsClearToDecode (p.scanHarts k cur) = true ∧ p.scanHarts k cur < p.numHarts := by
  induction d generalizing k cur with
  | zero =>
    obtain ⟨k, rfl⟩ : ∃ m, k = m + 1 := ⟨k - 1, by omega⟩
    have hnext : (if cur + 1 ≥ p.numHarts then 0 else cur + 1) =
        if cur + 1 + 0 < p.numHarts then cur + 1 + 0 else cur + 1 + 0 - p.numHarts := by
      split <;> split <;> omega
    simp only [scanHarts, hnext, hclear, if_true, true_and]
    split <;> omega
  | succ d ih =>
    obtain ⟨k, rfl⟩ : ∃ m, k = m + 1 := ⟨k - 1, by omega⟩
    have hlt : (if cur + 1 ≥ p.numHarts then 0 else cur + 1) < p.numHarts := by
      split <;> omega
    have hsame : (if cur + 1 + (d + 1) < p.numHarts then cur + 1 + (d + 1)
        else cur + 1 + (d + 1) - p.numHarts) =
        if (if cur + 1 ≥ p.numHarts then 0 else cur + 1) + 1 + d < p.numHarts then
          (if cur + 1 ≥ p.numHarts then 0 else cur + 1) + 1 + d
        else (if cur + 1 ≥ p.numHarts then 0 else cur + 1) + 1 + d - p.numHarts := by
      split <;> split <;> split <;> omega
    simp only [scanHarts]
    by_cases hfound : p.HartsClearToDecode (if cur + 1 ≥ p.numHarts then 0 else cur + 1) = true
    · simp only [hfound, if_true, true_and]
      exact hlt
    · simp only [Bool.not_eq_true] at hfound
      simp only [hfound, Bool.false_eq_true, if_false]
      rw [hsame] at hclear
      exact ih hlt (by omega) (by omega) hclear

/-- `GetNextHartToDecodeID` finds a hart that is clear to decode. -/
theorem GetNextHartToDecodeID_clear {p : RevProc} (hcur : p.HartToDecodeID < p.numHarts)
    (hany : (List.range p.numHarts).any p.HartsClearToDecode = true) :
    p.HartsClearToDecode p.GetNextHartToDecodeID = true ∧ p.GetNextHartToDecodeID < p.numHarts := by
  unfold GetNextHartToDecodeID
  split
  · rename_i hclear
    exact ⟨hclear, hcur⟩
  · obtain ⟨h, hh, hclear⟩ := List.any_eq_true.mp hany
    have hlt := List.mem_range.mp hh
    refine p.scanHarts_clear (d := (h + p.numHarts - p.HartToDecodeID - 1) % p.numHarts) hcur
      (Nat.mod_lt _ (by omega)) (Nat.mod_lt _ (by omega)) ?_
    have hhart : (if p.HartToDecodeID + 1 + (h + p.numHarts - p.HartToDecodeID - 1) % p.numHarts <
        p.numHarts then
          p.HartToDecodeID + 1 + (h + p.numHarts - p.HartToDecodeID - 1) % p.numHarts
        else p.HartToDecodeID + 1 + (h + p.numHarts - p.HartToDecodeID - 1) % p.numHarts -
          p.numHarts) = h := by
      by_cases hle : h ≤ p.HartToDecodeID
      · rw [Nat.mod_eq_of_lt (by omega)]
        split <;> omega
      · have hmod : (h + p.numHarts - p.HartToDecodeID - 1) % p.numHarts =
            h - p.HartToDecodeID - 1 := by
          rw [show h + p.numHarts - p.HartToDecodeID - 1 =
            (h - p.HartToDecodeID - 1) + p.numHarts by omega, Nat.add_mod_right,
            Nat.mod_eq_of_lt (by omega)]
        rw [hmod]
        split <;> omega
    rw [hhart]
    exact hclear

end RevProc

/-- What the threads are and where: the part of the state of a core that the
    threads move in. -/
structure View where
  numHarts : ℕ
  Harts : ℕ → Option RevThread
  IdleHarts : ℕ → Bool
  changed : List RevThread
  nextReg : ℕ
  created : List (ℕ × ℕ)
  joins : List (ℕ × ℕ)

namespace CoreState

variable {c c' c'' : CoreState}

def view (c : CoreState) : View :=
  ⟨c.proc.numHarts, c.proc.Harts, c.proc.IdleHarts, c.proc.ThreadsThatChangedState, c.nextReg,
    c.created, c.joins⟩

theorem Booked.view (h : Booked c c') : c'.view = c.view := by
  obtain ⟨q, hq⟩ := h.proc
  unfold CoreState.view
  rw [hq, h.nextReg, h.created, h.joins]

/-- After the first part of `ClockTick`: the hart that is now decoding and its
    thread. -/
structure Decoding (c c' : CoreState) (h : ℕ) (t : RevThread) : Prop where
  hart : c.proc.Harts h = some t
  view : c'.view = c.view
  clear : c'.proc.HartsClearToDecode = c.proc.HartsClearToDecode
  decodeID : c'.proc.HartToDecodeID = h
  regFile : c'.proc.RegFile = some t.VirtRegState
  pipeline : c'.proc.Pipeline = c.proc.Pipeline
  queue : c'.proc.LSQueue = c.proc.LSQueue
  others : ∀ r, r ≠ t.VirtRegState → c'.regs r = c.regs r
  PC : (c'.regs t.VirtRegState).PC = (c.regs t.VirtRegState).PC
  RV : (c'.regs t.VirtRegState).RV_Scoreboard = (c.regs t.VirtRegState).RV_Scoreboard
  FP : (c'.regs t.VirtRegState).FP_Scoreboard = (c.regs t.VirtRegState).FP_Scoreboard

/-- What the first part of `ClockTick` can do: nothing if no hart is clear to
    decode, stall the hart that it has chosen, or let its instruction pass. -/
inductive Decoded (c : CoreState) (i : TickInput) (c' : CoreState) : Prop
  | skip (hnone : (List.range c.proc.numHarts).any c.proc.HartsClearToDecode = false) (heq : c' = c)
  | stall {t : RevThread}
      (hany : (List.range c.proc.numHarts).any c.proc.HartsClearToDecode = true)
      (hdec : Decoding c c' c.proc.GetNextHartToDecodeID t) (hexec : c'.proc.HartToExecID = none)
      (hcost : (c'.regs t.VirtRegState).cost = 0)
  | pass {t : RevThread} {f : Fetched}
      (hany : (List.range c.proc.numHarts).any c.proc.HartsClearToDecode = true)
      (hdec : Decoding c c' c.proc.GetNextHartToDecodeID t) (hfetched : i.fetched = some f)
      (hexec : c'.proc.HartToExecID = some c.proc.GetNextHartToDecodeID)
      (hclear : c'.proc.HartsClearToExecute c.proc.GetNextHartToDecodeID = true)
      (hcost : (c'.regs t.VirtRegState).cost = f.cost)
      (htrigger : (c'.regs t.VirtRegState).trigger = false)
      (hfree : c.DependencyCheck c.proc.GetNextHartToDecodeID t.VirtRegState f = false)

theorem hartReg_eq_ok {h r : ℕ} (hok : c.hartReg h = .ok r) :
    ∃ t, c.proc.Harts h = some t ∧ t.VirtRegState = r := by
  unfold hartReg at hok
  split at hok
  · rename_i t ht
    exact ⟨t, ht, Except.ok.inj hok⟩
  · cases hok

theorem setReg_regs_self (c : CoreState) (r : ℕ) (f : RegState → RegState) :
    (c.setReg r f).regs r = f (c.regs r) := Function.update_self ..

theorem setReg_regs_ne (c : CoreState) {r k : ℕ} (hne : k ≠ r) (f : RegState → RegState) :
    (c.setReg r f).regs k = c.regs k := Function.update_of_ne hne ..

/-- `DependencyCheck` looks at the queue and the scoreboards only. -/
theorem DependencyCheck_congr {h r : ℕ} {f : Fetched} (hqueue : c'.proc.LSQueue = c.proc.LSQueue)
    (hRV : (c'.regs r).RV_Scoreboard = (c.regs r).RV_Scoreboard)
    (hFP : (c'.regs r).FP_Scoreboard = (c.regs r).FP_Scoreboard) :
    c'.DependencyCheck h r f = c.DependencyCheck h r f := by
  unfold DependencyCheck LSQCheck lsqCount ScoreboardCheck
  rw [hqueue, hRV, hFP]

theorem decode_decoded {i : TickInput} (hok : c.decode i = .ok c') : Decoded c i c' := by
  unfold decode at hok
  split at hok
  · rename_i hany
    obtain ⟨r, hr, hok⟩ := bind_eq_ok.mp hok
    obtain ⟨t, ht, rfl⟩ := hartReg_eq_ok hr
    simp only [] at hok
    split at hok
    · obtain rfl := Except.ok.inj hok
      refine .stall hany ⟨ht, rfl, rfl, rfl, rfl, rfl, rfl, ?_, ?_, ?_, ?_⟩ rfl ?_
      · intro k hk
        simp only [CoreState.stall, setReg_regs_ne _ hk]
      all_goals simp only [CoreState.stall, setReg_regs_self]
    · split at hok
      · cases hok
      · rename_i f hf
        split at hok
        · obtain rfl := Except.ok.inj hok
          refine .stall hany ⟨ht, rfl, rfl, rfl, rfl, rfl, rfl, ?_, ?_, ?_, ?_⟩ rfl ?_
          · intro k hk
            simp only [CoreState.stall, setReg_regs_ne _ hk]
          all_goals simp only [CoreState.stall, setReg_regs_self]
        · rename_i hcheck
          obtain rfl := Except.ok.inj hok
          refine .pass hany ⟨ht, rfl, rfl, rfl, rfl, rfl, rfl, ?_, ?_, ?_, ?_⟩ hf rfl ?_ ?_ ?_ ?_
          · intro k hk
            simp only [setReg_regs_ne _ hk]
          · simp only [setReg_regs_self]
          · simp only [setReg_regs_self]
          · simp only [setReg_regs_self]
          · exact Function.update_self ..
          · simp only [setReg_regs_self]
          · simp only [setReg_regs_self]
          · rw [Bool.not_eq_true] at hcheck
            rw [← hcheck]
            symm
            apply DependencyCheck_congr
            · rfl
            · simp only [setReg_regs_self]
            · simp only [setReg_regs_self]
  · rename_i hnone
    exact .skip (by simpa using hnone) (Except.ok.inj hok).symm

/-- An instruction without hazards passes. -/
theorem decode_pass {i : TickInput} {h r : ℕ} {f : Fetched}
    (hany : (List.range c.proc.numHarts).any c.proc.HartsClearToDecode = true)
    (hnext : c.proc.GetNextHartToDecodeID = h) (hreg : c.hartReg h = .ok r)
    (hPC : ((c.regs r).PC == 0) = false) (havail : i.avail = true) (hstall : i.stallReq = false)
    (hf : i.fetched = some f) (hfree : c.DependencyCheck h r f = false) :
    c.decode i = .ok { c with
      regs := Function.update c.regs r { c.regs r with cost := f.cost, trigger := false }
      proc := { c.proc with
        HartToDecodeID := h
        RegFile := some r
        HartsClearToExecute := Function.update c.proc.HartsClearToExecute h true
        HartToExecID := some h } } := by
  unfold decode
  rw [if_pos hany]
  simp only [hnext, hreg, bind, Except.bind, hPC, havail, hstall, Bool.not_true, Bool.or_false,
    Bool.false_eq_true, if_false, hf]
  rw [if_neg]
  · rfl
  · rw [Bool.not_eq_true, ← hfree]
    apply DependencyCheck_congr
    · rfl
    · simp only [setReg_regs_self]
    · simp only [setReg_regs_self]

end CoreState

end RevCPU.Sched
