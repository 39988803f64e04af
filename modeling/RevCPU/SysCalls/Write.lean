import RevCPU.SysCalls.ParseString

namespace RevCPU

open Lib Sched RevBasicMemCtrl

namespace SysCalls

theorem chunk_pos (nleft : ℕ) : 0 < Machine.chunk nleft := by
  unfold Machine.chunk
  split
  · omega
  split
  · omega
  split <;> omega

theorem chunk_le {nleft : ℕ} (h : 0 < nleft) :
    Machine.chunk nleft ≤ nleft ∧ Machine.chunk nleft ≤ 8 := by
  unfold Machine.chunk
  split
  · omega
  split
  · omega
  split <;> omega

/-- The reads of `ECALL_write` from the offset `off` on, when `nleft` bytes are
    left: their offsets and sizes. -/
def chunks (off nleft : ℕ) : List (ℕ × ℕ) :=
  if _h : nleft = 0 then []
  else (off, Machine.chunk nleft) :: chunks (off + Machine.chunk nleft) (nleft - Machine.chunk nleft)
termination_by nleft
decreasing_by
  have hpos := chunk_pos nleft
  omega

theorem chunks_zero (off : ℕ) : chunks off 0 = [] := by
  rw [chunks]
  rfl

theorem chunks_pos (off : ℕ) {nleft : ℕ} (h : 0 < nleft) :
    chunks off nleft = (off, Machine.chunk nleft) ::
      chunks (off + Machine.chunk nleft) (nleft - Machine.chunk nleft) := by
  rw [chunks, dif_neg (by omega)]

/-- The reads stay inside a page, as does every access that the controller serves
    well. -/
def ChunksInPage (addr n : ℕ) : Prop :=
  ∀ c ∈ chunks 0 n, (addr + c.1) % RevMem.pageSize + c.2 ≤ RevMem.pageSize

/-- The lines of the controller reach the last byte of every read. -/
def ChunksReach (P : Params) (addr n : ℕ) : Prop :=
  ∀ c ∈ chunks 0 n, LinesReach P (addr + c.1) c.2

namespace Machine

variable {e : Site} {mem : ℕ → UInt8} {addr n : ℕ} {X : ℕ → ℕ} {write : ℤ → List UInt8 → ℤ}
  {s s' : Machine (ℤ × List UInt8)}

/-- The file descriptor of the call. -/
def fdOf (X : ℕ → ℕ) : ℤ := (BitVec.ofNat 32 (X a0)).toInt

/-- The host's `write` has been called once with the bytes, its result is in a0, and
    the call is over. -/
structure Written (e : Site) (mem : ℕ → UInt8) (addr n : ℕ) (X : ℕ → ℕ)
    (write : ℤ → List UInt8 → ℤ) (s : Machine (ℤ × List UInt8)) : Prop where
  calls : s.calls = [(fdOf X, getBytes mem addr n)]
  result : s.X a0 = (BitVec.ofInt e.xlen (write (fdOf X) (getBytes mem addr n))).toNat
  Ecall : s.Ecall = {}
  bit : (s.core.regs e.RegFile).RV_Scoreboard a0 = false
  PC : s.GetPC e = (e.PC + instSize) % 2 ^ e.xlen

theorem intX_eq (e : Site) {rc : ℤ} (hlow : -2 ^ 31 ≤ rc) (hhigh : rc < 2 ^ 31) :
    intX e rc = (BitVec.ofInt e.xlen rc).toNat := by
  unfold intX
  rw [BitVec.toInt_ofInt, Int.bmod_eq_of_le (by omega) (by omega)]

theorem Running.clear (hs : s.Running e) : (s.clear e).Running e := by
  refine ⟨hs.hart, hs.thread, ?_⟩
  intro hctrl
  obtain ⟨⟨hbook, hord⟩, htickets⟩ := hs.held hctrl
  exact ⟨⟨hbook, hord⟩, htickets⟩

/-- An execution that finds no outstanding load appends what has come, and asks for
    the next bytes or calls the host. -/
theorem Gathering.write_exec {off m : ℕ} (hs : s.Gathering e mem addr n off m X) (ha1 : X a1 = addr)
    (ha2 : X a2 = n) (hn : n < W64) (hcount : s.count e = 0)
    (htick : e.hasCtrl = true → s.sys.tick = none)
    (hin : off + m < n → (addr + (off + m)) % RevMem.pageSize + Machine.chunk (n - (off + m)) ≤ RevMem.pageSize)
    (hreach : off + m < n → e.hasCtrl = true → LinesReach e.P (addr + (off + m)) (Machine.chunk (n - (off + m))))
    (hwrite : ∀ fd bytes, -2 ^ 31 ≤ write fd bytes ∧ write fd bytes < 2 ^ 31) :
    (off + m < n ∧ ∃ s', ECALL_write e write s = some (s', .CONTINUE) ∧
        s'.Gathering e mem addr n (off + m) (Machine.chunk (n - (off + m))) X ∧ s'.GetPC e = s.GetPC e) ∨
      (off + m = n ∧ ∃ s', ECALL_write e write s = some (s', .SUCCESS) ∧
        s'.calls = [(fdOf X, getBytes mem addr n)] ∧
        s'.X a0 = (BitVec.ofInt e.xlen (write (fdOf X) (getBytes mem addr n))).toNat ∧
        s'.Ecall = {} ∧ (s'.core.regs e.RegFile).RV_Scoreboard a0 = false ∧
        s'.GetPC e = s.GetPC e) := by
  have hfits := hs.fits
  have happend := hs.append hcount
  have hcond : (s.Ecall.bytesRead ≠ 0 ∧ s.count e = 0) = (s.Ecall.bytesRead ≠ 0) := by
    simp [hcount]
  have hcount₁ : (if s.Ecall.bytesRead ≠ 0 then s.append e else s).count e = 0 := by
    split <;> exact hcount
  have htick₁ : e.hasCtrl = true →
      (if s.Ecall.bytesRead ≠ 0 then s.append e else s).sys.tick = none := by
    split <;> exact htick
  have hPC₁ : (if s.Ecall.bytesRead ≠ 0 then s.append e else s).GetPC e = s.GetPC e := by
    split <;> rfl
  unfold ECALL_write
  simp only [hcond, hs.X, ha1, ha2]
  generalize (if s.Ecall.bytesRead ≠ 0 then s.append e else s) = s₁ at *
  have hleft : (n + W64 - s₁.Ecall.string.length) % W64 = n - (off + m) := by
    have hW64 : W64 = 2 ^ 64 := rfl
    rw [hW64] at hn
    rw [happend.string, getBytes_length, hW64]
    omega
  simp only [hleft, hcount₁, and_true, if_true]
  by_cases hend : off + m = n
  · right
    rw [if_pos (by omega)]
    refine ⟨hend, ?_⟩
    rw [happend.string, hend, happend.calls, List.nil_append]
    have hcalled : ({ s₁ with
        X := Function.update X a0 (intX e (write (fdOf X) (getBytes mem addr n)))
        calls := [(fdOf X, getBytes mem addr n)] } : Machine (ℤ × List UInt8)).Running e :=
      ⟨happend.running.hart, happend.running.thread, happend.running.held⟩
    have hset := Running.setDependency hcalled.clear false
    simp only [fdOf, happend.X] at hset ⊢
    rw [hset]
    refine ⟨_, rfl, rfl, ?_, rfl, withBit_bit _ false, ?_⟩
    · obtain ⟨hlow, hhigh⟩ := hwrite (fdOf X) (getBytes mem addr n)
      show Function.update X a0 _ a0 = _
      rw [Function.update_self]
      exact intX_eq e hlow hhigh
    · rw [withBit_GetPC]
      exact hPC₁
  · left
    have hlt : off + m < n := by omega
    have hpos : 0 < n - (off + m) := by omega
    obtain ⟨hle, height⟩ := chunk_le hpos
    rw [if_neg (by omega), happend.string, getBytes_length, Held.wrap happend.held hlt]
    obtain ⟨s₂, hstart, hgather, hPC₂⟩ := happend.startRead hcount₁ htick₁ (chunk_pos _) height
      (by omega) (hin hlt) (hreach hlt)
    exact ⟨hlt, s₂, by rw [hstart]; rfl, hgather, hPC₂.trans hPC₁⟩

theorem write_wait (hcount : 0 < s.count e) : ECALL_write e write s = some (s, .CONTINUE) := by
  have hne : s.count e ≠ 0 := by omega
  unfold ECALL_write
  simp only [hne, and_false, if_false]

/-- An execution of the call. -/
theorem Gathering.write_step {off m : ℕ} (hs : s.Gathering e mem addr n off m X) (ha1 : X a1 = addr)
    (ha2 : X a2 = n) (hn : n < W64) (hPC : s.GetPC e = e.PC) (hlt : e.PC < 2 ^ e.xlen)
    (htick : e.hasCtrl = true → s.sys.tick = none)
    (hin : off + m < n →
      (addr + (off + m)) % RevMem.pageSize + Machine.chunk (n - (off + m)) ≤ RevMem.pageSize)
    (hreach : off + m < n → e.hasCtrl = true →
      LinesReach e.P (addr + (off + m)) (Machine.chunk (n - (off + m))))
    (hwrite : ∀ fd bytes, -2 ^ 31 ≤ write fd bytes ∧ write fd bytes < 2 ^ 31) :
    ∃ s', step e (ECALL_write e write) s .exec = some s' ∧
      (0 < s.count e ∧ s'.Gathering e mem addr n off m X ∧ s'.GetPC e = e.PC ∨
        s.count e = 0 ∧ off + m < n ∧
          s'.Gathering e mem addr n (off + m) (Machine.chunk (n - (off + m))) X ∧ s'.GetPC e = e.PC ∨
        s.count e = 0 ∧ off + m = n ∧ s'.Written e mem addr n X write) := by
  rw [step_exec hPC htick]
  have hs₁ := hs.setPC (e.PC + instSize)
  have hPC₁ : (s.setPC e (e.PC + instSize)).GetPC e = (e.PC + instSize) % 2 ^ e.xlen := by simp
  rcases Nat.eq_zero_or_pos (s.count e) with hzero | hpos
  · rcases hs₁.write_exec ha1 ha2 hn hzero htick hin hreach hwrite with
      ⟨hleft, s₂, hcall, hgather, hPC₂⟩ | ⟨hend, s₂, hcall, hcalls, hresult, hEcall, hbit, hPC₂⟩
    · obtain ⟨pc, hexec, hback⟩ := ExecEcall_continue hlt hcall (hPC₂.trans hPC₁)
      exact ⟨_, hexec, .inr (.inl ⟨hzero, hleft, hgather.setPC pc, hback⟩)⟩
    · exact ⟨s₂, ExecEcall_success hcall,
        .inr (.inr ⟨hzero, hend, hcalls, hresult, hEcall, hbit, hPC₂.trans hPC₁⟩)⟩
  · have hwait : ECALL_write e write (s.setPC e (e.PC + instSize)) =
        some (s.setPC e (e.PC + instSize), .CONTINUE) := write_wait hpos
    obtain ⟨pc, hexec, hback⟩ := ExecEcall_continue hlt hwait hPC₁
    exact ⟨_, hexec, .inl ⟨hpos, hs₁.setPC pc, hback⟩⟩

end Machine

end SysCalls

end RevCPU
