import RevCPU.SysCalls.Write

namespace RevCPU

open Lib Sched RevBasicMemCtrl

namespace SysCalls

theorem length_chunks_le (off n : ℕ) : (chunks off n).length ≤ n := by
  induction n using Nat.strong_induction_on generalizing off with
  | _ n ih =>
    rcases Nat.eq_zero_or_pos n with rfl | hpos
    · simp [chunks_zero]
    · have hchunk := chunk_pos n
      have hrest := ih (n - Machine.chunk n) (by omega) (off + Machine.chunk n)
      rw [chunks_pos off hpos, List.length_cons]
      omega

namespace Machine

variable {e : Site} {mem : ℕ → UInt8} {addr n : ℕ} {write : ℤ → List UInt8 → ℤ}
  {s : Machine (ℤ × List UInt8)}

/-- Where a run of the call stands: the executions that found no outstanding load
    have asked for the first chunks, or it is over. -/
theorem write_run {s₀ : Machine (ℤ × List UInt8)}
    {tr : List (Machine (ℤ × List UInt8) × Action)} (hs₀ : s₀.Ready e mem addr n)
    (ha1 : s₀.X a1 = addr) (ha2 : s₀.X a2 = n) (hn : n < W64) (hin : ChunksInPage addr n)
    (hreach : e.hasCtrl = true → ChunksReach e.P addr n)
    (hwrite : ∀ fd bytes, -2 ^ 31 ≤ write fd bytes ∧ write fd bytes < 2 ^ 31)
    (hrun : Run (step e (ECALL_write e write)) s₀ tr s)
    (hok : ∀ p ∈ tr, p.1.Undisturbed e mem addr n p.2) :
    (∃ off m done, chunks 0 n = done ++ chunks (off + m) (n - (off + m)) ∧
        executions e tr = done.length ∧ (0 < executions e tr → 0 < m) ∧ s.GetPC e = e.PC ∧
        s.Gathering e mem addr n off m s₀.X) ∨
      (executions e tr = (chunks 0 n).length + 1 ∧ s.Written e mem addr n s₀.X write) := by
  induction hrun with
  | nil => exact .inl ⟨0, 0, [], rfl, rfl, by simp [executions], hs₀.PC, hs₀.gathering⟩
  | @snoc tr s s' a hrun hstep ih =>
    rcases ih fun p hp => hok p (by simp [hp]) with
      ⟨off, m, done, hdone, hexecs, hbusy, hPC, hs⟩ | ⟨-, hover⟩
    swap
    · rw [step_done] at hstep
      · simp at hstep
      · rw [hover.PC]
        exact advance_PC_ne e
    rw [executions_snoc]
    cases ha : a.isExec with
    | false =>
      obtain ⟨hs', hPC'⟩ := hs.surroundings hPC ha hstep (hok (s, a) (by simp))
      exact .inl ⟨off, m, done, hdone, by simp [hexecs], by simpa using hbusy, hPC', hs'⟩
    | true =>
      cases a with
      | ctrl | other => simp [Action.isExec] at ha
      | exec =>
      have hnext : off + m < n → (off + m, Machine.chunk (n - (off + m))) ∈ chunks 0 n := by
        intro hlt
        rw [hdone, chunks_pos (off + m) (by omega)]
        simp
      obtain ⟨s'', hstep', hcases⟩ := hs.write_step ha1 ha2 hn hPC hs₀.PC_lt (tick_of_exec hstep)
        (fun hlt => hin _ (hnext hlt)) (fun hlt hctrl => hreach hctrl _ (hnext hlt)) hwrite
      obtain rfl := Option.some.inj (hstep.symm.trans hstep')
      rcases hcases with ⟨hpos, hs', hPC'⟩ | ⟨hzero, hlt, hs', hPC'⟩ | ⟨hzero, hend, hover⟩
      · refine .inl ⟨off, m, done, hdone, ?_, ?_, hPC', hs'⟩
        · rw [if_neg (by simp; omega), hexecs, Nat.add_zero]
        · rw [if_neg (by simp; omega), Nat.add_zero]
          exact hbusy
      · refine .inl ⟨off + m, Machine.chunk (n - (off + m)),
          done ++ [(off + m, Machine.chunk (n - (off + m)))], ?_, ?_, ?_, hPC', hs'⟩
        · rw [hdone, chunks_pos (off + m) (by omega), List.append_assoc, List.singleton_append,
            Nat.sub_add_eq n (off + m)]
        · rw [if_pos (by simp [hzero]), hexecs]
          simp
        · intro _
          exact chunk_pos _
      · refine .inr ⟨?_, hover⟩
        rw [if_pos (by simp [hzero]), hexecs, hdone, hend, Nat.sub_self, chunks_zero, List.append_nil]

/-- `machine` with the arguments of a write of `n` bytes from `addr` on, all of them
    in its page. -/
def writeCall (addr n : ℕ) : Machine (ℤ × List UInt8) :=
  { machine (ℤ × List UInt8) with
    M := { RevMem.onePage 64 fun _ => 0 with MemSegs := [MemSegment.new addr n false] }
    X := fun r => if r = a1 then addr else if r = a2 then n else 0 }

theorem writeCall_ready (P : Params) (mem : ℕ → UInt8) {addr n : ℕ}
    (hfits : addr + n ≤ RevMem.pageSize) :
    (writeCall addr n).Ready { site with P } mem addr n := by
  have hserves := RevMem.onePage_serves (A := 64) (by decide) fun _ => 0
  have hsize : RevMem.pageSize < W64 := by decide
  have htop : (addr + n) % W64 = addr + n := Nat.mod_eq_of_lt (by omega)
  refine ⟨⟨Nat.one_pos, ⟨_, rfl, rfl⟩, fun _ => ⟨CtrlSys.init_wf _, by simp [tickets, live, writeCall,
    machine, CtrlSys.init]⟩⟩, rfl, (by decide : 16 < 2 ^ 64), ⟨⟨?_, ?_, ?_⟩, by simp [site]⟩,
    by simp [Free, live, writeCall, machine, CtrlSys.init], rfl, rfl⟩
  · refine ⟨rfl, ?_, hserves.ok.frame_lt, hserves.ok.frame_inj, hserves.ok.tlb, hserves.ok.fresh,
      hserves.ok.inside⟩
    simp [writeCall, MemSegment.new, htop, RevMem.onePage]
    omega
  · have hnone : ((Finset.range n).image fun i => (addr + i) / RevMem.pageSize).filter
        (fun p => (writeCall addr n).M.pageMap.lookup p = none) = ∅ := by
      simp only [Finset.filter_eq_empty_iff, Finset.mem_image, Finset.mem_range]
      rintro p ⟨i, hi, rfl⟩
      have hzero : (addr + i) / RevMem.pageSize = 0 := Nat.div_eq_of_lt (by omega)
      rw [hzero]
      exact (by decide : ¬ ([(0, 0)] : List (ℕ × ℕ)).lookup 0 = none)
    unfold RevMem.HasRoom
    rw [hnone]
    exact (by decide : 1 ≤ RevMem.maxFrames ∧ 1 * RevMem.pageSize ≤ RevMem.pageSize)
  · intro i hi
    have hlow : addr ≤ addr + i := Nat.le_add_right _ _
    simp [RevMem.isValidVirtAddr, writeCall, MemSegment.new, MemSegment.contains, htop]
    omega

theorem chunks_single {n : ℕ} (hpos : 0 < n) (hn : Machine.chunk n = n) : chunks 0 n = [(0, n)] := by
  rw [chunks_pos 0 hpos, hn, Nat.sub_self, chunks_zero]

/-- One byte is written through the controller, with an execution while it is on
    its way. -/
def writeByte : List Action :=
  [.exec, .exec, .ctrl .clockTick, .ctrl .processNextRqst, .ctrl .processNextRqst, .exec,
    .ctrl (.response 0 [0]), .exec]

/-- A controller with lines of four bytes. -/
def linesOfFour : Site := { site with P := { lineSize := 4 } }

/-- A memory with one byte that is not zero. -/
def byteAt72 (i : ℕ) : UInt8 := if i = 72 then 1 else 0

/-- Eight bytes are written from the address 65 on; the controller asks for three and
    for four of them. -/
def writeEight : List Action :=
  [.exec, .ctrl .clockTick, .ctrl .processNextRqst, .ctrl .processNextRqst,
    .ctrl (.response 0 [0, 0, 0]), .ctrl (.response 1 [0, 0, 0, 0]), .exec]

end Machine

end SysCalls

end RevCPU
