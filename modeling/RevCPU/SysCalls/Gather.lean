import RevCPU.Lib.Run
import RevCPU.SysCalls.Start

namespace RevCPU

open Lib Sched RevBasicMemCtrl

namespace SysCalls

variable {κ : Type} {e : Site} {mem : ℕ → UInt8} {A L : ℕ} {s s' : Machine κ}

def Action.isExec : Action → Bool
  | .exec => true
  | _ => false

/-- The executions of a run that find no outstanding load of a0. -/
def executions (e : Site) (tr : List (Machine κ × Action)) : ℕ :=
  tr.countP fun p => p.2.isExec && p.1.count e == 0

theorem executions_snoc (tr : List (Machine κ × Action)) (s : Machine κ) (a : Action) :
    executions e (tr ++ [(s, a)]) =
      executions e tr + if (a.isExec && s.count e == 0) = true then 1 else 0 := by
  simp [executions, List.countP_append, List.countP_singleton]

namespace Machine

/-- The first `off` bytes of the range are in `string`, and the next `m` have been
    asked for. -/
structure Gathering (e : Site) (mem : ℕ → UInt8) (A L off m : ℕ) (X : ℕ → ℕ) (s : Machine κ) :
    Prop where
  running : s.Running e
  held : Held e mem A L s.M
  fits : off + m ≤ L
  small : m ≤ 8
  reach : e.hasCtrl = true → LinesReach e.P (A + off) m
  string : s.Ecall.string = getBytes mem A off
  path : s.Ecall.path_string = []
  bytesRead : s.Ecall.bytesRead = m
  free : m = 0 → s.Free e
  chunk : 0 < m → Chunk e mem (A + off) m s
  X : s.X = X
  calls : s.calls = []

section
variable {off m : ℕ} {X : ℕ → ℕ}

theorem Gathering.setPC (hs : s.Gathering e mem A L off m X) (pc : ℕ) :
    (s.setPC e pc).Gathering e mem A L off m X := by
  refine ⟨⟨hs.running.hart, hs.running.thread, hs.running.held⟩, hs.held, hs.fits, hs.small, hs.reach,
    hs.string, hs.path, hs.bytesRead, hs.free, ?_, hs.X, hs.calls⟩
  intro hm
  cases hs.chunk hm with
  | arrived hfree hcount hbytes => exact .arrived hfree hcount hbytes
  | pending hctrl hcount hqueue hread => exact .pending hctrl hcount hqueue hread

@[simp] theorem setPC_GetPC (s : Machine κ) (pc : ℕ) : (s.setPC e pc).GetPC e = pc % 2 ^ e.xlen := by
  simp [Machine.setPC, GetPC, CoreState.setReg]

@[simp] theorem setPC_count (s : Machine κ) (pc : ℕ) : (s.setPC e pc).count e = s.count e := rfl

/-- A step of the surroundings leaves a system call where it is. -/
theorem Gathering.surroundings (hs : s.Gathering e mem A L off m X) (hPC : s.GetPC e = e.PC)
    {handler : Machine κ → Option (Machine κ × EcallStatus)} {a : Action} (ha : a.isExec = false)
    (hstep : step e handler s a = some s') (hok : s.Undisturbed e mem A L a) :
    s'.Gathering e mem A L off m X ∧ s'.GetPC e = e.PC := by
  unfold step at hstep
  rw [if_neg (by simp [hPC])] at hstep
  cases a with
  | exec => simp [Action.isExec] at ha
  | other core M =>
    obtain rfl := Option.some.inj hstep
    refine ⟨⟨hs.running.other hok, hok.2.2.2.2, hs.fits, hs.small, hs.reach, hs.string, hs.path,
      hs.bytesRead, hs.free, fun hm => (hs.chunk hm).other hok, hs.X, hs.calls⟩, ?_⟩
    exact hok.2.2.1.trans hPC
  | ctrl ev =>
    simp only at hstep
    split at hstep
    swap
    · simp at hstep
    rename_i hctrl
    simp only [Option.bind_eq_some_iff, Option.map_eq_some_iff] at hstep
    obtain ⟨sys', hsys, core', hmark, rfl⟩ := hstep
    have hstepped := CtrlSys.step_cases hsys
    obtain ⟨hwf, -⟩ := hs.running.held hctrl
    obtain ⟨l, hl, -⟩ := hstepped.completed hwf
    have hdrop : sys'.host.completed.drop s.sys.host.completed.length = l := by
      rw [hl]
      exact List.drop_left
    rw [hdrop] at hmark
    obtain ⟨hrunning, hbooked⟩ := hs.running.ctrl hctrl hstepped hl hmark
      fun c hc => (hok.sends c hc).2
    refine ⟨⟨hrunning, hs.held, hs.fits, hs.small, hs.reach, hs.string, hs.path, hs.bytesRead, ?_, ?_,
      hs.X, hs.calls⟩, (hbooked.PC _).trans hPC⟩
    · intro hm _
      exact ((hs.free hm).ctrl hwf hstepped hctrl hok).1
    · intro hm
      exact (hs.chunk hm).ctrl hs.running hctrl hs.small hs.fits (hs.reach hctrl) hstepped hl hmark hok

/-- The bytes that have been asked for are in `buf` once no load of a0 is
    outstanding. -/
theorem Gathering.arrived (hs : s.Gathering e mem A L off m X) (hcount : s.count e = 0) :
    s.Free e ∧ s.sys.host.read e.buf m = getBytes mem (A + off) m := by
  rcases Nat.eq_zero_or_pos m with rfl | hm
  · exact ⟨hs.free rfl, rfl⟩
  · cases hs.chunk hm with
    | arrived hfree hzero hbytes =>
      exact ⟨hfree, List.map_congr_left fun i hi => hbytes i (List.mem_range.mp hi)⟩
    | pending hctrl hone hqueue hread => omega

/-- The bytes that have arrived are appended. -/
theorem Gathering.append (hs : s.Gathering e mem A L off m X) (hcount : s.count e = 0) :
    (if s.Ecall.bytesRead ≠ 0 then s.append e else s).Gathering e mem A L (off + m) 0 X := by
  obtain ⟨hfree, hread⟩ := hs.arrived hcount
  have hreach : e.hasCtrl = true → LinesReach e.P (A + (off + m)) 0 :=
    fun _ => Core.linesReach_one _ _ (by omega)
  rw [hs.bytesRead]
  split
  · refine ⟨⟨hs.running.hart, hs.running.thread, hs.running.held⟩, hs.held, hs.fits, by omega, hreach,
      ?_, hs.path, rfl, fun _ => hfree, by simp, hs.X, hs.calls⟩
    show s.Ecall.string ++ s.sys.host.read e.buf s.Ecall.bytesRead = _
    rw [hs.string, hs.bytesRead, hread]
    exact getBytes_append mem A off m
  · rename_i hm
    obtain rfl : m = 0 := by simpa using hm
    exact ⟨hs.running, hs.held, hs.fits, by omega, hreach, hs.string, hs.path, hs.bytesRead,
      fun _ => hfree, by simp, hs.X, hs.calls⟩

/-- The next bytes are asked for. -/
theorem Gathering.startRead (hs : s.Gathering e mem A L off 0 X) (hcount : s.count e = 0)
    (htick : e.hasCtrl = true → s.sys.tick = none) {n : ℕ} (hpos : 0 < n) (hsmall : n ≤ 8)
    (hfits : off + n ≤ L) (hin : (A + off) % RevMem.pageSize + n ≤ RevMem.pageSize)
    (hreach : e.hasCtrl = true → LinesReach e.P (A + off) n) :
    ∃ s', s.startRead e (A + off) n = some s' ∧ s'.Gathering e mem A L off n X ∧
      s'.GetPC e = s.GetPC e := by
  obtain ⟨s₁, hstart, hstarted⟩ :=
    hs.running.startRead htick (hs.free rfl) hs.held hcount hpos hfits hin
  refine ⟨_, hstart, ⟨?_, hstarted.held, hfits, hsmall, hreach, hs.string, hs.path, rfl, by omega, ?_,
    hstarted.X.trans hs.X, hstarted.calls.trans hs.calls⟩, ?_⟩
  · exact withBit_running (s := { s₁ with Ecall := { s.Ecall with bytesRead := n } })
      ⟨hstarted.running.hart, hstarted.running.thread, hstarted.running.held⟩ true
  · intro _
    refine Chunk.withBit (s := { s₁ with Ecall := { s.Ecall with bytesRead := n } }) ?_ true
    cases hstarted.chunk with
    | arrived hfree hcount hbytes => exact .arrived hfree hcount hbytes
    | pending hctrl hcount hqueue hread => exact .pending hctrl hcount hqueue hread
  · rw [withBit_GetPC]
    exact hstarted.PC

end

end Machine

theorem two_pow_xlen (e : Site) : 2 ^ e.xlen = 2 ^ 32 ∨ 2 ^ e.xlen = 2 ^ 64 := by
  unfold Site.xlen
  split
  · exact .inl rfl
  · exact .inr rfl

/-- The PC is back at the instruction when it has been rewound. -/
theorem rewind_PC (hPC : e.PC < 2 ^ e.xlen) :
    ((e.PC + instSize) % 2 ^ e.xlen + 2 ^ 64 - instSize) % 2 ^ e.xlen = e.PC := by
  have hsize : instSize = 4 := rfl
  rcases two_pow_xlen e with hx | hx
  · rw [hx] at hPC ⊢
    omega
  · rw [hx] at hPC ⊢
    omega

theorem advance_PC_ne (e : Site) : (e.PC + instSize) % 2 ^ e.xlen ≠ e.PC := by
  have hsize : instSize = 4 := rfl
  rcases two_pow_xlen e with hx | hx
  · rw [hx]
    omega
  · rw [hx]
    omega

namespace Machine

variable {handler : Machine κ → Option (Machine κ × EcallStatus)}

/-- An execution of the `ecall`. -/
theorem step_exec (hPC : s.GetPC e = e.PC) (htick : e.hasCtrl = true → s.sys.tick = none) :
    step e handler s .exec = ExecEcall e handler (s.setPC e (e.PC + instSize)) := by
  have hnot : (e.hasCtrl && s.sys.tick.isSome) = false := by
    cases hctrl : e.hasCtrl with
    | false => rfl
    | true => simp [htick hctrl]
  unfold step
  simp [hPC, hnot]

theorem tick_of_exec (hstep : step e handler s .exec = some s') (hctrl : e.hasCtrl = true) :
    s.sys.tick = none := by
  unfold step at hstep
  cases htick : s.sys.tick with
  | none => rfl
  | some t => simp [hctrl, htick] at hstep

/-- The PC of a call without success is at the `ecall` again. -/
theorem ExecEcall_continue (hPC : e.PC < 2 ^ e.xlen) {s₂ : Machine κ}
    (h : handler s = some (s₂, .CONTINUE)) (hs₂ : s₂.GetPC e = (e.PC + instSize) % 2 ^ e.xlen) :
    ∃ pc, ExecEcall e handler s = some (s₂.setPC e pc) ∧ (s₂.setPC e pc).GetPC e = e.PC := by
  refine ⟨s₂.GetPC e + 2 ^ 64 - instSize, ?_, ?_⟩
  · simp [ExecEcall, h]
  · rw [setPC_GetPC, hs₂]
    exact rewind_PC hPC

theorem ExecEcall_success {s₂ : Machine κ} (h : handler s = some (s₂, .SUCCESS)) :
    ExecEcall e handler s = some s₂ := by
  simp [ExecEcall, h]

/-- A run ends where the PC has left the `ecall`. -/
theorem step_done (hPC : s.GetPC e ≠ e.PC) (a : Action) : step e handler s a = none := by
  unfold step
  rw [if_pos hPC]

/-- While the bytes that a call has asked for are on their way, the controller works
    on them and `MarkLoadComplete` will find their request. -/
theorem Gathering.outstanding {off m : ℕ} {X : ℕ → ℕ} (hs : s.Gathering e mem A L off m X)
    (hm : 0 < m) (hcount : 0 < s.count e) :
    ∃ op ∈ s.sys.ctrl.live, op.target = some e.buf ∧
      ∃ c', s.core.MarkLoadComplete op.procReq = .ok c' := by
  cases hs.chunk hm with
  | arrived hfree hzero hbytes => omega
  | pending hctrl hone hqueue hread =>
    obtain ⟨k, hk⟩ := hread
    obtain ⟨op, hop, hseq⟩ := hk.live
    obtain ⟨-, -, -, -, htgt, hreq, -⟩ := hk.fields hop hseq
    refine ⟨op, hop, htgt, ?_⟩
    rw [hreq]
    exact hs.running.mark_pending hone hqueue

end Machine

end SysCalls

end RevCPU
