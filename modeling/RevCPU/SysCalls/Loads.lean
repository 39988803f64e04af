import RevCPU.MemCtrl.Delivered
import RevCPU.Sched.Booked
import RevCPU.SysCalls.State

namespace RevCPU

open Lib Sched RevBasicMemCtrl

namespace Sched.CoreState

variable {c c' : CoreState}

theorem DependencySet_proc {h reg : ℕ} {isFloat value : Bool}
    (hok : c.DependencySet h reg isFloat value = .ok c') : c'.proc = c.proc := by
  unfold DependencySet at hok
  split at hok
  · split at hok
    · split at hok
      · obtain ⟨r, -, hok⟩ := bind_eq_ok.mp hok
        rw [← Except.ok.inj hok]
        rfl
      · split at hok
        · obtain ⟨r, -, hok⟩ := bind_eq_ok.mp hok
          rw [← Except.ok.inj hok]
          rfl
        · rw [Except.ok.inj hok]
    · cases hok
  · rw [Except.ok.inj hok]

/-- `DependencySet` on an integer register of a hart with a thread. -/
theorem DependencySet_eq {h reg : ℕ} {t : RevThread} (hlt : h < c.proc.numHarts)
    (ht : c.proc.Harts h = some t) (hreg : reg < NUM_REGS) (hzero : reg ≠ 0) (value : Bool) :
    c.DependencySet h reg false value = .ok (c.setReg t.VirtRegState fun s =>
      { s with RV_Scoreboard := Function.update s.RV_Scoreboard reg value }) := by
  unfold DependencySet hartReg
  rw [if_pos hreg, if_pos hlt]
  simp only [Bool.false_eq_true, if_false, hzero, ne_eq, not_false_eq_true, if_true, ht]
  rfl

/-- `MarkLoadComplete` takes one entry with the key and the address of the
    request out of the queue. -/
theorem MarkLoadComplete_queue {req : MemReq} (hok : c.MarkLoadComplete req = .ok c') :
    (∃ q, c.proc.LSQueue.find? (completes req) = some q) ∧
      c'.proc.LSQueue = c.proc.LSQueue.eraseP (completes req) := by
  unfold MarkLoadComplete at hok
  split at hok
  · cases hok
  · rename_i q hq
    refine ⟨⟨q, hq⟩, ?_⟩
    obtain ⟨c₁, hclear, hok⟩ := bind_eq_ok.mp hok
    have hproc : c₁.proc = c.proc := by
      split at hclear
      · exact DependencySet_proc hclear
      · rw [Except.ok.inj hclear]
    rw [← Except.ok.inj hok]
    show c₁.proc.LSQueue.eraseP (completes req) = _
    rw [hproc]

/-- The last outstanding load of a register. -/
theorem MarkLoadComplete_last {req q : MemReq} {c₁ : CoreState}
    (hfind : c.proc.LSQueue.find? (completes req) = some q)
    (hone : c.lsqCount req.DestReg req.RegType req.Hart = 1)
    (hset : c.DependencySet q.Hart q.DestReg (q.RegType == .RegFLOAT) false = .ok c₁) :
    c.MarkLoadComplete req =
      .ok { c₁ with proc := { c₁.proc with LSQueue := c₁.proc.LSQueue.eraseP (completes req) } } := by
  unfold MarkLoadComplete
  rw [hfind]
  simp only [if_pos hone, hset]
  rfl

theorem reqHash_of_completes {req q : MemReq} (h : completes req q = true) :
    reqHash q = reqHash req := by
  simp only [completes, Bool.and_eq_true, beq_iff_eq] at h
  exact h.1

/-- The outstanding loads of a register once a request has been marked
    complete. -/
theorem MarkLoadComplete_lsqCount {req : MemReq} (hok : c.MarkLoadComplete req = .ok c')
    (reg : ℕ) (cls : RevRegClass) (h : ℕ) :
    c.lsqCount reg cls h = c'.lsqCount reg cls h + if reqHash req = Sched.LSQHash reg cls h then 1 else 0 := by
  obtain ⟨⟨q, hq⟩, hqueue⟩ := MarkLoadComplete_queue hok
  obtain ⟨a, l₁, l₂, -, ha, hsplit, herase⟩ := List.exists_of_eraseP
    (List.mem_of_find?_eq_some hq) (List.find?_some hq)
  unfold lsqCount
  rw [hqueue, herase, hsplit]
  simp only [List.countP_append, List.countP_cons, reqHash_of_completes ha, beq_iff_eq]
  omega

end Sched.CoreState

namespace SysCalls

/-- The requests for a0 of the hart, whose `MarkLoadComplete` is that of its
    core. -/
def mine (e : Site) (req : MemReq) : Bool :=
  req.MarkLoadCompleteFunc == some e.MarkLoadComplete &&
    reqHash req == Sched.LSQHash a0 .RegGPR e.HartToExecID

theorem mine_loadReq (e : Site) (A : ℕ) : mine e (Machine.loadReq e A) = true := by
  simp [mine, Machine.loadReq, reqHash]

variable {κ : Type} {e : Site} {s s' : Machine κ}

/-- What `MarkLoadComplete` does to the core for at most one request. -/
theorem markAll_single {c c' : CoreState} {req : MemReq} (h : markAll e c [req] = some c') :
    req.MarkLoadCompleteFunc ≠ some e.MarkLoadComplete ∧ c' = c ∨
      req.MarkLoadCompleteFunc = some e.MarkLoadComplete ∧ c.MarkLoadComplete req = .ok c' := by
  unfold markAll at h
  split at h
  · rename_i hmine
    right
    refine ⟨hmine, ?_⟩
    cases hmark : c.MarkLoadComplete req with
    | error err => simp [hmark, Except.toOption] at h
    | ok c₁ =>
      simp only [hmark, Except.toOption, Option.bind_some, markAll, Option.some.injEq] at h
      rw [h]
  · rename_i hmine
    simp only [markAll, Option.some.injEq] at h
    exact .inl ⟨hmine, h.symm⟩

namespace Machine

/-- The hart has a thread, and every load of a0 that the controller works on for
    it is in the queue. -/
structure Running (e : Site) (s : Machine κ) : Prop where
  hart : e.HartToExecID < s.core.proc.numHarts
  thread : ∃ t, s.core.proc.Harts e.HartToExecID = some t ∧ t.VirtRegState = e.RegFile
  held : e.hasCtrl = true → s.sys.Wf ∧ (s.sys.ctrl.tickets (mine e)).card ≤ s.count e

/-- What a step does to the core for a request that the controller has marked
    complete. -/
theorem markAll_count {c c' : CoreState} {req : MemReq} (h : markAll e c [req] = some c') :
    c.Booked c' ∧ c.lsqCount a0 .RegGPR e.HartToExecID =
      c'.lsqCount a0 .RegGPR e.HartToExecID + if mine e req = true then 1 else 0 := by
  rcases markAll_single h with ⟨hnot, rfl⟩ | ⟨hfunc, hmark⟩
  · refine ⟨.refl _, ?_⟩
    rw [if_neg (by simp [mine, hnot]), Nat.add_zero]
  · refine ⟨CoreState.MarkLoadComplete_booked hmark, ?_⟩
    rw [CoreState.MarkLoadComplete_lsqCount hmark]
    simp [mine, hfunc]

theorem Running.booked (hs : s.Running e) {c' : CoreState} (hbooked : s.core.Booked c') :
    e.HartToExecID < c'.proc.numHarts ∧
      ∃ t, c'.proc.Harts e.HartToExecID = some t ∧ t.VirtRegState = e.RegFile := by
  obtain ⟨q, hq⟩ := hbooked.proc
  rw [hq]
  exact ⟨hs.hart, hs.thread⟩

/-- A step of the controller that is not a call for a0 of the hart. -/
theorem Running.ctrl (hs : s.Running e) (hctrl : e.hasCtrl = true) {ev : Event} {sys' : CtrlSys}
    (h : CtrlSys.Stepped e.P s.sys ev sys') {l : List MemReq} {c' : CoreState}
    (hl : sys'.host.completed = s.sys.host.completed ++ l) (hmark : markAll e s.core l = some c')
    (hsend : ∀ c, ev = .send c → mine e (c.memOp 0).procReq = false) :
    Running e { s with core := c', sys := sys' } ∧ s.core.Booked c' := by
  obtain ⟨hwf, hheld⟩ := hs.held hctrl
  obtain ⟨l', hl', hcases⟩ := h.completed hwf
  obtain rfl : l = l' := List.append_cancel_left (hl.symm.trans hl')
  rcases hcases with rfl | ⟨op, hop, rfl, hgone⟩
  · obtain rfl : s.core = c' := Option.some.inj hmark
    exact ⟨⟨hs.hart, hs.thread, fun _ => ⟨h.wf hwf, (h.tickets_le hwf hsend).trans hheld⟩⟩, .refl _⟩
  · obtain ⟨hbooked, hcount⟩ := markAll_count hmark
    obtain ⟨hhart, hthread⟩ := hs.booked hbooked
    refine ⟨⟨hhart, hthread, fun _ => ⟨h.wf hwf, ?_⟩⟩, hbooked⟩
    have hle := h.tickets_le hwf hsend
    show (sys'.ctrl.tickets (mine e)).card ≤ c'.lsqCount a0 .RegGPR e.HartToExecID
    change _ ≤ s.core.lsqCount a0 .RegGPR e.HartToExecID at hheld
    by_cases hmine : mine e op.procReq = true
    · have hlt := tickets_card_lt hop hmine hgone
      rw [if_pos hmine] at hcount
      omega
    · rw [if_neg hmine] at hcount
      omega

end Machine

end SysCalls

end RevCPU
