import RevCPU.SysCalls.Gather

namespace RevCPU

open Lib Sched RevBasicMemCtrl

namespace SysCalls

/-- A NUL-terminated string at `A`: its bytes, of which none is zero, and the
    terminator. -/
structure IsString (mem : ℕ → UInt8) (A : ℕ) (str : List UInt8) : Prop where
  bytes : getBytes mem A (str.length + 1) = str ++ [0]
  nonzero : (0 : UInt8) ∉ str

section
variable {mem : ℕ → UInt8} {A : ℕ} {str : List UInt8}

theorem IsString.byte (h : IsString mem A str) {j : ℕ} (hj : j ≤ str.length) :
    mem (A + j) = 0 ↔ j = str.length := by
  have hbyte := congrArg (fun l : List UInt8 => l.getD j 0) h.bytes
  simp only [getBytes_getD _ _ (Nat.lt_succ_of_le hj)] at hbyte
  rw [hbyte]
  constructor
  · intro hzero
    by_contra hne
    have hlt : j < str.length := by omega
    have hget : (str ++ [0]).getD j 0 = str[j] := by
      simp [List.getD_eq_getElem?_getD, List.getElem?_append_left hlt, hlt]
    rw [hget] at hzero
    exact h.nonzero (hzero ▸ List.getElem_mem hlt)
  · rintro rfl
    simp

/-- What has been read ends with the terminator only when all has been read. -/
theorem IsString.last (h : IsString mem A str) {i : ℕ} (hi : i ≤ str.length + 1) :
    (getBytes mem A i).getLast? = some 0 ↔ i = str.length + 1 := by
  cases i with
  | zero => simp [getBytes]
  | succ j =>
    rw [← getBytes_append mem A j 1, List.getLast?_append]
    simp only [getBytes, List.range_one, List.map_cons, List.map_nil, Nat.add_zero,
      List.getLast?_singleton, Option.some_or, Option.some.injEq]
    rw [h.byte (by omega)]
    omega

end

namespace Machine

variable {e : Site} {mem : ℕ → UInt8} {A : ℕ} {str : List UInt8} {X : ℕ → ℕ}
  {s s' : Machine (List UInt8)}

/-- A hart at an `ecall` that has not been executed: the ecall state is cleared,
    and the range that the call is to read is in the memory. -/
structure Ready {κ : Type} (e : Site) (mem : ℕ → UInt8) (A L : ℕ) (s : Machine κ) : Prop where
  running : s.Running e
  PC : s.GetPC e = e.PC
  PC_lt : e.PC < 2 ^ e.xlen
  held : Held e mem A L s.M
  free : s.Free e
  Ecall : s.Ecall = {}
  calls : s.calls = []

theorem Ready.gathering {κ : Type} {s : Machine κ} {L : ℕ} (hs : s.Ready e mem A L) :
    s.Gathering e mem A L 0 0 s.X :=
  ⟨hs.running, hs.held, by omega, by omega, fun _ => Core.linesReach_one _ _ (by omega),
    by rw [hs.Ecall]; rfl, by rw [hs.Ecall], by rw [hs.Ecall], fun _ => hs.free, by omega, rfl, hs.calls⟩

/-- The action has been called once with the string and its terminator, and the
    call is over. -/
structure Parsed (e : Site) (str : List UInt8) (s : Machine (List UInt8)) : Prop where
  calls : s.calls = [str ++ [0]]
  Ecall : s.Ecall = {}
  bit : (s.core.regs e.RegFile).RV_Scoreboard a0 = false
  PC : s.GetPC e = (e.PC + instSize) % 2 ^ e.xlen

theorem Held.wrap {m : RevMem} {L : ℕ} (hheld : Held e mem A L m) {i : ℕ} (hi : i < L) :
    (A + i) % W64 = A + i := by
  have hlt := hheld.serves.ok.valid_lt (hheld.serves.valid i hi)
  exact Nat.mod_eq_of_lt (by omega)

/-- An execution that finds no outstanding load appends what has come, and asks for
    the next byte or calls the action. -/
theorem Gathering.parse (action : List UInt8 → (ℕ → ℕ) → ℕ → ℕ) {off m : ℕ}
    (hs : s.Gathering e mem A (str.length + 1) off m X)
    (hstr : IsString mem A str) (hcount : s.count e = 0)
    (htick : e.hasCtrl = true → s.sys.tick = none) :
    (off + m ≤ str.length ∧ ∃ s', EcallLoadAndParseString e A action s = some (s', .CONTINUE) ∧
        s'.Gathering e mem A (str.length + 1) (off + m) 1 X ∧ s'.GetPC e = s.GetPC e) ∨
      (off + m = str.length + 1 ∧ ∃ s', EcallLoadAndParseString e A action s = some (s', .SUCCESS) ∧
        s'.calls = [str ++ [0]] ∧ s'.Ecall = {} ∧
        (s'.core.regs e.RegFile).RV_Scoreboard a0 = false ∧ s'.GetPC e = s.GetPC e) := by
  have hfits := hs.fits
  have happend := hs.append hcount
  have hcount₁ : (if s.Ecall.bytesRead ≠ 0 then s.append e else s).count e = 0 := by
    split <;> exact hcount
  have htick₁ : e.hasCtrl = true →
      (if s.Ecall.bytesRead ≠ 0 then s.append e else s).sys.tick = none := by
    split <;> exact htick
  have hPC₁ : (if s.Ecall.bytesRead ≠ 0 then s.append e else s).GetPC e = s.GetPC e := by
    split <;> rfl
  unfold EcallLoadAndParseString
  rw [if_neg (by omega)]
  generalize (if s.Ecall.bytesRead ≠ 0 then s.append e else s) = s₁ at *
  simp only [happend.string, hstr.last hfits, getBytes_length]
  by_cases hend : off + m = str.length + 1
  · right
    rw [if_pos hend]
    refine ⟨hend, ?_⟩
    rw [hend, hstr.bytes, happend.calls, List.nil_append, happend.path]
    have hset := Running.setDependency (s := { s₁ with
      X := action (str ++ [0]) s₁.X, calls := [str ++ [0]], Ecall := {} })
      ⟨happend.running.hart, happend.running.thread, happend.running.held⟩ false
    rw [hset]
    refine ⟨_, rfl, rfl, rfl, withBit_bit _ false, ?_⟩
    rw [withBit_GetPC]
    exact hPC₁
  · left
    have hle : off + m ≤ str.length := by omega
    rw [if_neg hend, Held.wrap happend.held (by omega)]
    obtain ⟨s₂, hstart, hgather, hPC₂⟩ := happend.startRead hcount₁ htick₁ (n := 1) (by omega)
      (by omega) (by omega) (by have := Nat.mod_lt (A + (off + m)) (by decide : 0 < RevMem.pageSize); omega)
      (fun _ => Core.linesReach_one _ _ (by omega))
    exact ⟨hle, s₂, by rw [hstart]; rfl, hgather, hPC₂.trans hPC₁⟩

/-- An execution while a load of a0 is outstanding changes nothing. -/
theorem parse_wait (action : List UInt8 → (ℕ → ℕ) → ℕ → ℕ) (hcount : 0 < s.count e) :
    EcallLoadAndParseString e A action s = some (s, .CONTINUE) := by
  unfold EcallLoadAndParseString
  rw [if_pos hcount]

/-- An execution of the call. -/
theorem Gathering.exec (action : List UInt8 → (ℕ → ℕ) → ℕ → ℕ) {off m : ℕ}
    (hs : s.Gathering e mem A (str.length + 1) off m X)
    (hstr : IsString mem A str) (hPC : s.GetPC e = e.PC) (hlt : e.PC < 2 ^ e.xlen)
    (htick : e.hasCtrl = true → s.sys.tick = none) :
    ∃ s', step e (EcallLoadAndParseString e A action) s .exec = some s' ∧
      (0 < s.count e ∧ s'.Gathering e mem A (str.length + 1) off m X ∧ s'.GetPC e = e.PC ∨
        s.count e = 0 ∧ off + m ≤ str.length ∧
          s'.Gathering e mem A (str.length + 1) (off + m) 1 X ∧ s'.GetPC e = e.PC ∨
        s.count e = 0 ∧ off + m = str.length + 1 ∧ s'.Parsed e str) := by
  rw [step_exec hPC htick]
  have hs₁ := hs.setPC (e.PC + instSize)
  have hPC₁ : (s.setPC e (e.PC + instSize)).GetPC e = (e.PC + instSize) % 2 ^ e.xlen := by simp
  rcases Nat.eq_zero_or_pos (s.count e) with hzero | hpos
  · rcases hs₁.parse action hstr hzero htick with
      ⟨hle, s₂, hparse, hgather, hPC₂⟩ | ⟨hend, s₂, hparse, hcalls, hEcall, hbit, hPC₂⟩
    · obtain ⟨pc, hexec, hback⟩ := ExecEcall_continue hlt hparse (hPC₂.trans hPC₁)
      exact ⟨_, hexec, .inr (.inl ⟨hzero, hle, hgather.setPC pc, hback⟩)⟩
    · exact ⟨s₂, ExecEcall_success hparse,
        .inr (.inr ⟨hzero, hend, hcalls, hEcall, hbit, hPC₂.trans hPC₁⟩)⟩
  · have hwait : EcallLoadAndParseString e A action (s.setPC e (e.PC + instSize)) =
        some (s.setPC e (e.PC + instSize), .CONTINUE) := parse_wait action hpos
    obtain ⟨pc, hexec, hback⟩ := ExecEcall_continue hlt hwait hPC₁
    exact ⟨_, hexec, .inl ⟨hpos, hs₁.setPC pc, hback⟩⟩

/-- Where a run of the call stands: it has asked for a byte in every execution that
    found no outstanding load, or it is over. -/
theorem parse_run {action : List UInt8 → (ℕ → ℕ) → ℕ → ℕ} {s₀ : Machine (List UInt8)}
    {tr : List (Machine (List UInt8) × Action)}
    (hstr : IsString mem A str) (hs₀ : s₀.Ready e mem A (str.length + 1))
    (hrun : Run (step e (EcallLoadAndParseString e A action)) s₀ tr s)
    (hok : ∀ p ∈ tr, p.1.Undisturbed e mem A (str.length + 1) p.2) :
    (∃ i ≤ str.length + 1, executions e tr = i ∧ s.GetPC e = e.PC ∧
        s.Gathering e mem A (str.length + 1) (i - 1) (min i 1) s₀.X) ∨
      (executions e tr = str.length + 2 ∧ s.Parsed e str) := by
  induction hrun with
  | nil => exact .inl ⟨0, by omega, rfl, hs₀.PC, hs₀.gathering⟩
  | @snoc tr s s' a hrun hstep ih =>
    rcases ih fun p hp => hok p (by simp [hp]) with ⟨i, hi, hexecs, hPC, hs⟩ | ⟨-, hdone⟩
    swap
    · rw [step_done] at hstep
      · simp at hstep
      · rw [hdone.PC]
        exact advance_PC_ne e
    rw [executions_snoc]
    cases ha : a.isExec with
    | false =>
      obtain ⟨hs', hPC'⟩ := hs.surroundings hPC ha hstep (hok (s, a) (by simp))
      exact .inl ⟨i, hi, by simp [hexecs], hPC', hs'⟩
    | true =>
      cases a with
      | ctrl | other => simp [Action.isExec] at ha
      | exec =>
      obtain ⟨s'', hstep', hcases⟩ := hs.exec action hstr hPC hs₀.PC_lt
        (tick_of_exec hstep)
      obtain rfl := Option.some.inj (hstep.symm.trans hstep')
      have hi' : i - 1 + min i 1 = i := by omega
      rw [hi'] at hcases
      rcases hcases with ⟨hpos, hs', hPC'⟩ | ⟨hzero, hle, hs', hPC'⟩ | ⟨hzero, hend, hdone⟩
      · refine .inl ⟨i, hi, ?_, hPC', hs'⟩
        rw [if_neg (by simp; omega), hexecs, Nat.add_zero]
      · refine .inl ⟨i + 1, by omega, ?_, hPC', ?_⟩
        · rw [if_pos (by simp [hzero]), hexecs]
        · have hmin : min (i + 1) 1 = 1 := by omega
          rw [Nat.add_sub_cancel, hmin]
          exact hs'
      · refine .inr ⟨?_, hdone⟩
        rw [if_pos (by simp [hzero]), hexecs]
        omega

/-- A core with one hart that runs a thread. -/
def oneHart (PC : ℕ) : CoreState :=
  { proc := { numHarts := 1, Harts := fun _ => some { ID := 1, VirtRegState := 0 } }
    regs := fun _ => { PC }, nextReg := 1, created := [], joins := [] }

/-- The `ecall` at address 16 of this hart, in front of a controller. -/
def site : Site := { hasCtrl := true, HartToExecID := 0, RegFile := 0, buf := 0, MarkLoadComplete := 0,
                     PC := 16 }

/-- A machine whose memory has the page of the address 64, with nothing in it. -/
def machine (κ : Type) : Machine κ :=
  { core := oneHart 16, M := RevMem.onePage 64 fun _ => 0, sys := CtrlSys.init ⟨fun _ _ => 0, []⟩,
    X := fun _ => 0 }

theorem machine_ready (κ : Type) (mem : ℕ → UInt8) :
    (machine κ).Ready site mem 64 1 := by
  have hserves := RevMem.onePage_serves (A := 64) (by decide) fun _ => 0
  refine ⟨⟨Nat.one_pos, ⟨_, rfl, rfl⟩, fun _ => ⟨CtrlSys.init_wf _, by simp [tickets, live, machine,
    CtrlSys.init]⟩⟩, rfl, by decide, ⟨⟨hserves.ok, ?_, ?_⟩, by simp [site]⟩,
    by simp [Free, live, machine, CtrlSys.init], rfl, rfl⟩
  · rw [Finset.range_one, Finset.image_singleton]
    exact hserves.room
  · intro i hi
    obtain rfl : i = 0 := by omega
    exact hserves.valid

/-- The empty string is read through the controller, with an execution while its
    terminator is on its way. -/
def readEmpty : List Action :=
  [.exec, .exec, .ctrl .clockTick, .ctrl .processNextRqst, .ctrl .processNextRqst, .exec,
    .ctrl (.response 0 [0]), .exec]

end Machine

end SysCalls

end RevCPU
