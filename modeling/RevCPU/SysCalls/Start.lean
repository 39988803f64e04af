import RevCPU.SysCalls.Chunk

namespace RevCPU

open Lib Sched RevBasicMemCtrl

namespace SysCalls

variable {κ : Type} {e : Site} {mem : ℕ → UInt8} {A L : ℕ} {s s' : Machine κ}

namespace Machine

/-- The core with a bit of the scoreboard of a0 written. -/
def withBit (s : Machine κ) (e : Site) (value : Bool) : Machine κ :=
  { s with core := s.core.setReg e.RegFile fun r =>
      { r with RV_Scoreboard := Function.update r.RV_Scoreboard a0 value } }

theorem Running.setDependency (hs : s.Running e) (value : Bool) :
    s.setDependency e value = some (s.withBit e value) := by
  obtain ⟨t, ht, hreg⟩ := hs.thread
  unfold Machine.setDependency withBit
  rw [CoreState.DependencySet_eq hs.hart ht (by decide) (by decide), hreg]
  rfl

theorem withBit_running (hs : s.Running e) (value : Bool) : (s.withBit e value).Running e :=
  ⟨hs.hart, hs.thread, hs.held⟩

@[simp] theorem withBit_GetPC (s : Machine κ) (value : Bool) :
    (s.withBit e value).GetPC e = s.GetPC e := by
  simp [withBit, GetPC, CoreState.setReg]

theorem withBit_bit (s : Machine κ) (value : Bool) :
    ((s.withBit e value).core.regs e.RegFile).RV_Scoreboard a0 = value := by
  simp [withBit, CoreState.setReg]

theorem Chunk.withBit {B n : ℕ} (hc : Chunk e mem B n s) (value : Bool) :
    Chunk e mem B n (s.withBit e value) := by
  cases hc with
  | arrived hfree hcount hbytes => exact .arrived hfree hcount hbytes
  | pending hctrl hcount hqueue hread => exact .pending hctrl hcount hqueue hread

/-- The core with a request at the end of the queue. -/
def inserted (c : CoreState) (req : MemReq) : CoreState :=
  { c with proc := { c.proc with LSQueue := c.proc.LSQueue ++ [req] } }

theorem inserted_lsqCount (c : CoreState) (B : ℕ) :
    (inserted c (loadReq e B)).lsqCount a0 .RegGPR e.HartToExecID =
      c.lsqCount a0 .RegGPR e.HartToExecID + 1 := by
  simp [inserted, CoreState.lsqCount, loadReq, reqHash, List.countP_append]

/-- The request is found behind loads of other registers, and its bit of the
    scoreboard is cleared. -/
theorem Running.mark_inserted (hs : s.Running e) (hcount : s.count e = 0) (B : ℕ) :
    ∃ c', (inserted s.core (loadReq e B)).MarkLoadComplete (loadReq e B) = .ok c' ∧
      c'.proc = s.core.proc ∧ ∀ r, (c'.regs r).PC = (s.core.regs r).PC := by
  obtain ⟨t, ht, hreg⟩ := hs.thread
  have hother : ∀ q ∈ s.core.proc.LSQueue, CoreState.completes (loadReq e B) q = false := by
    intro q hq
    rw [Bool.eq_false_iff]
    intro hcompletes
    have hpos : 0 < s.count e := List.countP_pos_iff.mpr
      ⟨q, hq, by simpa [loadReq, reqHash] using CoreState.reqHash_of_completes hcompletes⟩
    omega
  have hself : CoreState.completes (loadReq e B) (loadReq e B) = true := by
    simp [CoreState.completes]
  have hfind : (s.core.proc.LSQueue ++ [loadReq e B]).find?
      (CoreState.completes (loadReq e B)) = some (loadReq e B) := by
    rw [List.find?_append, List.find?_eq_none.mpr (fun q hq => by simp [hother q hq])]
    simp [hself]
  have herase : (s.core.proc.LSQueue ++ [loadReq e B]).eraseP
      (CoreState.completes (loadReq e B)) = s.core.proc.LSQueue := by
    rw [List.eraseP_append_right _ (fun q hq => by simp [hother q hq]),
      List.eraseP_cons_of_pos hself, List.append_nil]
  have hset := CoreState.DependencySet_eq (c := inserted s.core (loadReq e B)) hs.hart ht
    (show a0 < NUM_REGS by decide) (by decide) false
  have hone : (inserted s.core (loadReq e B)).lsqCount a0 .RegGPR e.HartToExecID = 1 := by
    rw [inserted_lsqCount]
    change s.core.lsqCount a0 .RegGPR e.HartToExecID = 0 at hcount
    rw [hcount]
  refine ⟨{ s.core with regs := ((inserted s.core (loadReq e B)).setReg t.VirtRegState fun s =>
    { s with RV_Scoreboard := Function.update s.RV_Scoreboard a0 false }).regs }, ?_, rfl, ?_⟩
  · rw [CoreState.MarkLoadComplete_last (c := inserted s.core (loadReq e B)) hfind hone hset]
    simp only [CoreState.setReg, inserted, herase]
  · intro r
    simp only [CoreState.setReg, inserted]
    by_cases hr : r = t.VirtRegState
    · rw [hr, Function.update_self]
    · rw [Function.update_of_ne hr]

/-- A read of `n` bytes from `B` on has been started, and nothing else. -/
structure Started (e : Site) (mem : ℕ → UInt8) (A L B n : ℕ) (s s' : Machine κ) : Prop where
  running : s'.Running e
  chunk : Chunk e mem B n s'
  held : Held e mem A L s'.M
  PC : s'.GetPC e = s.GetPC e
  X : s'.X = s.X
  Ecall : s'.Ecall = s.Ecall
  calls : s'.calls = s.calls

/-- The state after `ReadVal`. -/
def afterRead (s : Machine κ) (c : CoreState) (M : RevMem) (host : Host) : Machine κ :=
  { s with
    core := c
    M := { M with ctrl := none }
    sys := { s.sys with
      ctrl := M.ctrl.getD s.sys.ctrl
      host
      issued := s.sys.issued ++
        readCalls ((M.ctrl.getD s.sys.ctrl).rqstQ.drop s.sys.ctrl.rqstQ.length) } }

theorem ReadVal_eq {B n : ℕ} {M' : RevMem} {host' : Host} {c' : CoreState} {l : List MemReq}
    (hread : { s.M with ctrl := if e.hasCtrl then some s.sys.ctrl else none }.ReadMem s.sys.host
      e.HartToExecID B n e.buf (loadReq e B) .F_NONE = some (M', host'))
    (hl : host'.completed = s.sys.host.completed ++ l)
    (hmark : markAll e (inserted s.core (loadReq e B)) l = some c') :
    s.ReadVal e B n = some (s.afterRead c' M' host') := by
  have hdrop : host'.completed.drop s.sys.host.completed.length = l := by
    rw [hl]
    exact List.drop_left
  unfold Machine.ReadVal
  simp only [hread, Option.bind_some, hdrop]
  simp only [inserted] at hmark
  simp only [hmark, Option.map_some]
  rfl

/-- Without a controller the bytes are in `buf` at once. -/
theorem Running.ReadVal_local (hs : s.Running e) (hctrl : e.hasCtrl = false)
    (hheld : Held e mem A L s.M) (hcount : s.count e = 0) {i n : ℕ} (hi : i < L) (hle : i + n ≤ L)
    (hin : (A + i) % RevMem.pageSize + n ≤ RevMem.pageSize) :
    ∃ s', s.ReadVal e (A + i) n = some s' ∧ Started e mem A L (A + i) n s s' := by
  obtain ⟨f, m', htr, hf, hmapped, hserves⟩ := hheld.serves.translate hi hin none
  obtain ⟨c', hmark, hproc, hPC⟩ := hs.mark_inserted hcount (A + i)
  have hnone : { m' with ctrl := none } = m' := by rw [← hmapped.ok.ctrl]
  have hread : { s.M with ctrl := none }.ReadMem s.sys.host e.HartToExecID (A + i) n e.buf
      (loadReq e (A + i)) .F_NONE =
      some (m', (s.sys.host.write e.buf 0 (getBytes s.M.view (A + i) n)).MarkLoadComplete
        (loadReq e (A + i))) := by
    unfold RevMem.ReadMem
    simp only [htr, hnone, hmapped.ok.ctrl,
      RevMem.physRead_parts hmapped hheld.serves.ok hf hin, Option.map_some]
    rfl
  have hdone : markAll e (inserted s.core (loadReq e (A + i))) [loadReq e (A + i)] = some c' := by
    have hfunc : (loadReq e (A + i)).MarkLoadCompleteFunc = some e.MarkLoadComplete := rfl
    unfold markAll
    rw [if_pos hfunc, hmark]
    rfl
  refine ⟨_, ReadVal_eq (by simpa only [hctrl, Bool.false_eq_true, if_false] using hread) rfl hdone, ?_⟩
  refine ⟨⟨?_, ?_, by simp [hctrl]⟩, .arrived (by simp [Free, hctrl]) ?_ ?_, ⟨?_, ?_⟩, hPC _, rfl,
    rfl, rfl⟩
  · show e.HartToExecID < c'.proc.numHarts
    rw [hproc]
    exact hs.hart
  · show ∃ t, c'.proc.Harts e.HartToExecID = some t ∧ t.VirtRegState = e.RegFile
    rw [hproc]
    exact hs.thread
  · show c'.lsqCount a0 .RegGPR e.HartToExecID = 0
    rw [CoreState.lsqCount, hproc]
    exact hcount
  · intro j hj
    show (s.sys.host.write e.buf 0 (getBytes s.M.view (A + i) n)).cell e.buf j = _
    rw [Host.write_cell, if_pos (by simpa using hj), Nat.sub_zero, getBytes_getD _ _ hj,
      Nat.add_assoc, hheld.view hctrl _ (by omega)]
  · show RevMem.ServesRange { m' with ctrl := none } A L
    rw [hnone]
    exact hserves
  · intro _ j hj
    show RevMem.view { m' with ctrl := none } (A + j) = _
    rw [hnone, hmapped.view_eq hheld.serves.ok]
    exact hheld.view hctrl j hj

/-- With a controller the read is sent. -/
theorem Running.ReadVal_ctrl (hs : s.Running e) (hctrl : e.hasCtrl = true) (htick : s.sys.tick = none)
    (hfree : s.Free e) (hheld : Held e mem A L s.M) (hcount : s.count e = 0) {i n : ℕ} (hi : i < L)
    (hpos : 0 < n) (hin : (A + i) % RevMem.pageSize + n ≤ RevMem.pageSize) :
    ∃ s', s.ReadVal e (A + i) n = some s' ∧ Started e mem A L (A + i) n s s' := by
  obtain ⟨hwf, hle⟩ := hs.held hctrl
  obtain ⟨f, m', htr, hf, hmapped, hserves⟩ := hheld.serves.translate hi hin (some s.sys.ctrl)
  let c : Call := (fetch e (A + i) n).call e.HartToExecID
    (f * RevMem.pageSize + (A + i) % RevMem.pageSize)
  have henq : c.enqueues = true := by
    show (n != 0) = true
    simp only [bne_iff_ne, ne_eq]
    omega
  have hread : { s.M with ctrl := some s.sys.ctrl }.ReadMem s.sys.host e.HartToExecID (A + i) n e.buf
      (loadReq e (A + i)) .F_NONE = some ({ m' with ctrl := some (c.enqueued s.sys.ctrl) }, s.sys.host) := by
    have happly := Call.apply_eq s.sys.ctrl c
    rw [if_pos henq] at happly
    rw [← happly]
    unfold RevMem.ReadMem
    simp only [htr]
    rfl
  have hstepped : CtrlSys.Stepped e.P s.sys (.send c) { s.sys with
      ctrl := c.enqueued s.sys.ctrl
      issued := s.sys.issued ++ [(s.sys.ctrl.nextPtr, c)] } := .send htick henq
  have hsys : (s.afterRead (inserted s.core (loadReq e (A + i)))
      { m' with ctrl := some (c.enqueued s.sys.ctrl) } s.sys.host).sys = { s.sys with
        ctrl := c.enqueued s.sys.ctrl
        issued := s.sys.issued ++ [(s.sys.ctrl.nextPtr, c)] } := by
    have hsent : (c.enqueued s.sys.ctrl).rqstQ.drop s.sys.ctrl.rqstQ.length =
        [c.memOp s.sys.ctrl.nextPtr] := List.drop_left
    simp only [afterRead, Option.getD_some, hsent]
    rfl
  refine ⟨_, ReadVal_eq (l := []) (by simpa only [hctrl, if_true] using hread) (by simp) rfl, ?_⟩
  rw [← hsys] at hstepped
  have hdeliver : CtrlSys.Delivering e.P mem (fetch e (A + i) n) s.sys.ctrl.nextPtr _ :=
    .sent hwf (hfree hctrl) hpos hstepped
  have hnew : (inserted s.core (loadReq e (A + i))).lsqCount a0 .RegGPR e.HartToExecID = 1 := by
    rw [inserted_lsqCount]
    change s.core.lsqCount a0 .RegGPR e.HartToExecID = 0 at hcount
    rw [hcount]
  refine ⟨⟨hs.hart, hs.thread, fun _ => ⟨hstepped.wf hwf, ?_⟩⟩,
    .pending hctrl hnew ?_ ⟨_, hdeliver⟩, ⟨?_, by simp [hctrl]⟩, rfl, rfl, rfl, rfl⟩
  · show (tickets (mine e) (c.enqueued s.sys.ctrl)).card ≤
      (inserted s.core (loadReq e (A + i))).lsqCount a0 .RegGPR e.HartToExecID
    rw [hnew]
    have hsub : tickets (mine e) (c.enqueued s.sys.ctrl) ⊆
        insert s.sys.ctrl.nextPtr (tickets (mine e) s.sys.ctrl) := by
      intro k hk
      obtain ⟨op, hop, hmine, rfl⟩ := mem_tickets.mp hk
      rw [Finset.mem_insert]
      rw [mem_live] at hop
      simp only [Call.enqueued, List.mem_append, List.mem_singleton] at hop
      rcases hop with (hop | rfl) | hop
      · exact .inr (mem_tickets.mpr ⟨op, mem_live.mpr (.inl hop), hmine, rfl⟩)
      · exact .inl (by simp)
      · exact .inr (mem_tickets.mpr ⟨op, mem_live.mpr (.inr hop), hmine, rfl⟩)
    rw [hcount] at hle
    exact (Finset.card_le_card hsub).trans ((Finset.card_insert_le _ _).trans (by omega))
  · show loadReq e (A + i) ∈ s.core.proc.LSQueue ++ [loadReq e (A + i)]
    simp
  · show RevMem.ServesRange { m' with ctrl := none } A L
    rw [show ({ m' with ctrl := none } : RevMem) = m' by rw [← hmapped.ok.ctrl]]
    exact hserves

/-- A read inside the range and inside a page is started. -/
theorem Running.startRead (hs : s.Running e) (htick : e.hasCtrl = true → s.sys.tick = none)
    (hfree : s.Free e) (hheld : Held e mem A L s.M) (hcount : s.count e = 0) {i n : ℕ}
    (hpos : 0 < n) (hle : i + n ≤ L) (hin : (A + i) % RevMem.pageSize + n ≤ RevMem.pageSize) :
    ∃ s₁, s.startRead e (A + i) n = some (({ s₁ with Ecall := { s.Ecall with bytesRead := n } } :
        Machine κ).withBit e true) ∧ Started e mem A L (A + i) n s s₁ := by
  have hread : ∃ s₁, s.ReadVal e (A + i) n = some s₁ ∧ Started e mem A L (A + i) n s s₁ := by
    cases hctrl : e.hasCtrl with
    | false => exact hs.ReadVal_local hctrl hheld hcount (by omega) hle hin
    | true => exact hs.ReadVal_ctrl hctrl (htick hctrl) hfree hheld hcount (by omega) hpos hin
  obtain ⟨s₁, hread, hstarted⟩ := hread
  refine ⟨s₁, ?_, hstarted⟩
  unfold Machine.startRead
  rw [hread, Option.bind_some, hstarted.Ecall]
  exact Running.setDependency (s := { s₁ with Ecall := { s.Ecall with bytesRead := n } })
    ⟨hstarted.running.hart, hstarted.running.thread, hstarted.running.held⟩ true

end Machine

end SysCalls

end RevCPU
