import RevCPU.Proc.LoadModes
import RevCPU.SysCalls.Loads

namespace RevCPU

open Lib Sched RevBasicMemCtrl

namespace RevMem

/-- The accesses to a range can be served: its addresses are valid, and its pages
    have frames or there are frames for them. -/
structure ServesRange (m : RevMem) (A L : ℕ) : Prop where
  ok : m.PageTableOk
  room : m.HasRoom ((Finset.range L).image fun i => (A + i) / pageSize)
  valid : ∀ i < L, m.isValidVirtAddr (A + i) = true

/-- The translation of an access inside the range and inside a page. -/
theorem ServesRange.translate {m : RevMem} {A L : ℕ} (h : m.ServesRange A L) {i n : ℕ} (hi : i < L)
    (hin : (A + i) % pageSize + n ≤ pageSize) (x : Option RevBasicMemCtrl) :
    ∃ f m', { m with ctrl := x }.translate (A + i) n =
        some (f * pageSize + (A + i) % pageSize, none, { m' with ctrl := x }) ∧
      m'.pageMap.lookup ((A + i) / pageSize) = some f ∧ Mapped m m' ∧ m'.ServesRange A L := by
  have hp : (A + i) / pageSize ∈ (Finset.range L).image fun i => (A + i) / pageSize :=
    Finset.mem_image.mpr ⟨i, Finset.mem_range.mpr hi, rfl⟩
  obtain ⟨f, m', htr, hf, hmapped, hroom⟩ := translate_inPage h.ok h.room hp (h.valid i hi) hin x
  refine ⟨f, m', htr, hf, hmapped, hmapped.ok, hroom, ?_⟩
  intro j hj
  rw [hmapped.valid_eq]
  exact h.valid j hj

end RevMem

namespace SysCalls

variable {κ : Type} {e : Site} {mem : ℕ → UInt8} {A L : ℕ} {s s' : Machine κ}

/-- The range is in the memory: accesses to it are served, and without a
    controller the bytes are those of `physMem`. -/
structure Held (e : Site) (mem : ℕ → UInt8) (A L : ℕ) (m : RevMem) : Prop where
  serves : m.ServesRange A L
  view : e.hasCtrl = false → ∀ i < L, m.view (A + i) = mem (A + i)

namespace Machine

/-- What the surroundings do: no other call has `buf` for its target or is for a0
    of the hart, the responses bring the bytes of the range, and the other harts
    leave the thread, its PC, the outstanding loads of a0 and the bytes of the
    range alone. -/
def Undisturbed (e : Site) (mem : ℕ → UInt8) (A L : ℕ) (s : Machine κ) : Action → Prop
  | .exec => True
  | .ctrl (.send c) => c.target ≠ some e.buf ∧ mine e (c.memOp 0).procReq = false
  | .ctrl (.response id data) => ∀ r ∈ s.sys.ctrl.memIface, r.id = id → r.cls = .MemOpREAD →
      ∀ j < r.size, A ≤ r.pAddr + j → r.pAddr + j < A + L → data.getD j 0 = mem (r.pAddr + j)
  | .ctrl .clockTick | .ctrl .processNextRqst => True
  | .other core M =>
      core.proc.numHarts = s.core.proc.numHarts ∧
      core.proc.Harts e.HartToExecID = s.core.proc.Harts e.HartToExecID ∧
      (core.regs e.RegFile).PC = s.GetPC e ∧
      core.proc.LSQueue.filter (fun q => reqHash q == Sched.LSQHash a0 .RegGPR e.HartToExecID) =
        s.core.proc.LSQueue.filter (fun q => reqHash q == Sched.LSQHash a0 .RegGPR e.HartToExecID) ∧
      Held e mem A L M

/-- The reads that a system call sends, one after the other. -/
def fetch (e : Site) (A n : ℕ) : Fetch := ⟨A, n, e.buf, loadReq e A⟩

/-- `buf` is free: no operation of the controller has it for its target. -/
def Free (e : Site) (s : Machine κ) : Prop :=
  e.hasCtrl = true → ∀ op ∈ s.sys.ctrl.live, op.target ≠ some e.buf

/-- A read of `n` bytes from `A` on has been started: its bytes are in `buf`, or it
    is the one outstanding load of a0 and the controller works on it. -/
inductive Chunk (e : Site) (mem : ℕ → UInt8) (A n : ℕ) (s : Machine κ) : Prop
  | arrived (hfree : s.Free e) (hcount : s.count e = 0)
      (hbytes : ∀ i < n, s.sys.host.cell e.buf i = mem (A + i))
  | pending (hctrl : e.hasCtrl = true) (hcount : s.count e = 1)
      (hqueue : loadReq e A ∈ s.core.proc.LSQueue)
      (hread : ∃ k, s.sys.Delivering e.P mem (fetch e A n) k)

/-- The queue of the loads of a0. -/
theorem count_filter (c : CoreState) (h : ℕ) : c.lsqCount a0 .RegGPR h =
    (c.proc.LSQueue.filter fun q => reqHash q == Sched.LSQHash a0 .RegGPR h).length :=
  List.countP_eq_length_filter

theorem Running.other (hs : s.Running e) {core : CoreState} {M : RevMem}
    (hok : s.Undisturbed e mem A L (.other core M)) : Running e { s with core, M } := by
  obtain ⟨hnum, hharts, -, hqueue, -⟩ := hok
  refine ⟨?_, ?_, ?_⟩
  · show e.HartToExecID < core.proc.numHarts
    rw [hnum]
    exact hs.hart
  · show ∃ t, core.proc.Harts e.HartToExecID = some t ∧ t.VirtRegState = e.RegFile
    rw [hharts]
    exact hs.thread
  · intro hctrl
    refine ⟨(hs.held hctrl).1, (hs.held hctrl).2.trans (Nat.le_of_eq ?_)⟩
    show s.core.lsqCount _ _ _ = core.lsqCount _ _ _
    rw [count_filter, count_filter, hqueue]

theorem Chunk.other {B n : ℕ} (hc : Chunk e mem B n s) {core : CoreState} {M : RevMem}
    (hok : s.Undisturbed e mem A L (.other core M)) : Chunk e mem B n { s with core, M } := by
  obtain ⟨-, -, -, hqueue, -⟩ := hok
  have hsame : Machine.count { s with core, M } e = s.count e := by
    show core.lsqCount _ _ _ = s.core.lsqCount _ _ _
    rw [count_filter, hqueue, ← count_filter]
  cases hc with
  | arrived hfree hcount hbytes => exact .arrived hfree (hsame.trans hcount) hbytes
  | pending hctrl hcount hmem hread =>
    refine .pending hctrl (hsame.trans hcount) ?_ hread
    · have hin : loadReq e B ∈ core.proc.LSQueue.filter fun q =>
          reqHash q == Sched.LSQHash a0 .RegGPR e.HartToExecID := by
        rw [hqueue]
        exact List.mem_filter.mpr ⟨hmem, by simp [loadReq, reqHash]⟩
      exact (List.mem_filter.mp hin).1

/-- The surroundings spare a read inside the range. -/
theorem Undisturbed.spares {ev : Event} (hok : s.Undisturbed e mem A L (.ctrl ev)) {i n : ℕ}
    (hin : i + n ≤ L) : s.sys.Spares mem (fetch e (A + i) n) ev := by
  cases ev with
  | send c => exact hok.1
  | response id data =>
    intro r hr hid hcls j hj hlow hhigh
    simp only [fetch] at hlow hhigh
    exact hok r hr hid hcls j hj (by omega) (by omega)
  | clockTick | processNextRqst => trivial

theorem Undisturbed.sends {ev : Event} (hok : s.Undisturbed e mem A L (.ctrl ev)) (c : Call)
    (hev : ev = .send c) : c.target ≠ some e.buf ∧ mine e (c.memOp 0).procReq = false := by
  subst hev
  exact hok

theorem Free.ctrl (hfree : s.Free e) {ev : Event} {sys' : CtrlSys} (hwf : s.sys.Wf)
    (h : CtrlSys.Stepped e.P s.sys ev sys') (hctrl : e.hasCtrl = true)
    (hok : s.Undisturbed e mem A L (.ctrl ev)) :
    (∀ op ∈ sys'.ctrl.live, op.target ≠ some e.buf) ∧
      sys'.host.cell e.buf = s.sys.host.cell e.buf :=
  h.free hwf (hfree hctrl) fun c hc => (hok.sends c hc).1

/-- A pending read is the only load of a0 that the controller works on. -/
theorem Running.sole_ticket (hs : s.Running e) (hctrl : e.hasCtrl = true) (hcount : s.count e = 1)
    {B n k : ℕ} (hread : s.sys.Delivering e.P mem (fetch e B n) k) {op : RevMemOp}
    (hop : op ∈ s.sys.ctrl.live) (hmine : mine e op.procReq = true) : op.ptr = k := by
  obtain ⟨o, ho, hseq⟩ := hread.live
  obtain ⟨hptr, -, -, -, -, hreq, -⟩ := hread.fields ho hseq
  have hself : k ∈ s.sys.ctrl.tickets (mine e) :=
    mem_tickets.mpr ⟨o, ho, by rw [hreq]; exact mine_loadReq e B, hptr⟩
  have hother : op.ptr ∈ s.sys.ctrl.tickets (mine e) := mem_tickets.mpr ⟨op, hop, hmine, rfl⟩
  have hle := (hs.held hctrl).2
  rw [hcount] at hle
  exact Finset.card_le_one.mp hle _ hother _ hself

/-- An entry stays in the queue when another request is marked complete. -/
theorem mem_queue_of_markAll {c c' : CoreState} {req q : MemReq} (h : markAll e c [req] = some c')
    (hq : q ∈ c.proc.LSQueue) (hne : reqHash req ≠ reqHash q ∨
      req.MarkLoadCompleteFunc ≠ some e.MarkLoadComplete) : q ∈ c'.proc.LSQueue := by
  rcases markAll_single h with ⟨-, rfl⟩ | ⟨hfunc, hmark⟩
  · exact hq
  · rw [(CoreState.MarkLoadComplete_queue hmark).2]
    refine (List.mem_eraseP_of_neg ?_).mpr hq
    intro hcompletes
    rcases hne with hne | hne
    · exact hne (CoreState.reqHash_of_completes hcompletes).symm
    · exact hne hfunc

/-- The loads of a0 become fewer when requests are marked complete. -/
theorem markAll_le {c c' : CoreState} {l : List MemReq} (h : markAll e c l = some c') :
    c'.lsqCount a0 .RegGPR e.HartToExecID ≤ c.lsqCount a0 .RegGPR e.HartToExecID := by
  induction l generalizing c with
  | nil => rw [Option.some.inj h]
  | cons req l ih =>
    unfold markAll at h
    split at h
    · obtain ⟨c₁, hmark, hrest⟩ := Option.bind_eq_some_iff.mp h
      have hok : c.MarkLoadComplete req = .ok c₁ := by
        cases hmark' : c.MarkLoadComplete req with
        | error err => simp [hmark', Except.toOption] at hmark
        | ok c₂ => rw [← Option.some.inj ((congrArg Except.toOption hmark').symm.trans hmark)]
      have hone := CoreState.MarkLoadComplete_lsqCount hok a0 .RegGPR e.HartToExecID
      exact (ih hrest).trans (by omega)
    · exact ih h

/-- A step of the controller brings a read along. -/
theorem Chunk.ctrl {i n : ℕ} (hc : Chunk e mem (A + i) n s) (hs : s.Running e)
    (hctrl : e.hasCtrl = true) (hsize : n ≤ 8) (hin : i + n ≤ L)
    (hreach : LinesReach e.P (A + i) n) {ev : Event} {sys' : CtrlSys}
    (h : CtrlSys.Stepped e.P s.sys ev sys') {l : List MemReq} {c' : CoreState}
    (hl : sys'.host.completed = s.sys.host.completed ++ l) (hmark : markAll e s.core l = some c')
    (hok : s.Undisturbed e mem A L (.ctrl ev)) :
    Chunk e mem (A + i) n { s with core := c', sys := sys' } := by
  obtain ⟨hwf, hheld⟩ := hs.held hctrl
  cases hc with
  | arrived hfree hcount hbytes =>
    obtain ⟨hfree', hcell⟩ := hfree.ctrl hwf h hctrl hok
    refine .arrived (fun _ => hfree') ?_ ?_
    · have hless := markAll_le hmark
      change c'.lsqCount a0 .RegGPR e.HartToExecID = 0
      change s.core.lsqCount a0 .RegGPR e.HartToExecID = 0 at hcount
      omega
    show ∀ j < n, sys'.host.cell e.buf j = mem (A + i + j)
    rw [hcell]
    exact hbytes
  | pending _ hcount hqueue hread =>
    obtain ⟨k, hk⟩ := hread
    rcases hk.stepped hsize hreach h (hok.spares hin) with hk' | ⟨hdone, hlast⟩
    swap
    · refine .arrived (fun _ => hdone.free) ?_ hdone.bytes
      obtain rfl : l = [loadReq e (A + i)] := List.append_cancel_left (hl.symm.trans hlast)
      have hcount' := (markAll_count hmark).2
      rw [if_pos (mine_loadReq e (A + i))] at hcount'
      change c'.lsqCount a0 .RegGPR e.HartToExecID = 0
      change s.core.lsqCount a0 .RegGPR e.HartToExecID = 1 at hcount
      omega
    obtain ⟨l', hl', hcases⟩ := h.completed hwf
    obtain rfl : l = l' := List.append_cancel_left (hl.symm.trans hl')
    rcases hcases with rfl | ⟨op, hop, rfl, hgone⟩
    · obtain rfl : s.core = c' := Option.some.inj hmark
      exact .pending hctrl hcount hqueue ⟨k, hk'⟩
    · have hnot : mine e op.procReq = false := by
        rw [Bool.eq_false_iff]
        intro hmine
        have hptr := hs.sole_ticket hctrl hcount hk hop hmine
        obtain ⟨o, ho, hseq⟩ := hk'.live
        exact (hgone o ho).2 ((hk'.fields ho hseq).1.trans hptr.symm)
      have hcount' := (markAll_count hmark).2
      rw [if_neg (by simp [hnot]), Nat.add_zero] at hcount'
      refine .pending hctrl (hcount'.symm.trans hcount) (mem_queue_of_markAll hmark hqueue ?_) ⟨k, hk'⟩
      rw [mine, Bool.and_eq_false_iff] at hnot
      rcases hnot with hnot | hnot
      · exact .inr (by simpa using hnot)
      · exact .inl (by simpa [loadReq, reqHash] using hnot)

/-- A read that the controller works on will be marked complete. -/
theorem Running.mark_pending (hs : s.Running e) {B : ℕ} (hcount : s.count e = 1)
    (hqueue : loadReq e B ∈ s.core.proc.LSQueue) :
    ∃ c', s.core.MarkLoadComplete (loadReq e B) = .ok c' := by
  obtain ⟨t, ht, -⟩ := hs.thread
  have hself : CoreState.completes (loadReq e B) (loadReq e B) = true := by
    simp [CoreState.completes]
  obtain ⟨q, hq⟩ := Option.isSome_iff_exists.mp (List.find?_isSome.mpr ⟨_, hqueue, hself⟩)
  have hhash := CoreState.reqHash_of_completes (List.find?_some hq)
  have heq : q = loadReq e B := by
    by_contra hne
    have hpair : [q, loadReq e B].Subperm
        (s.core.proc.LSQueue.filter fun q => reqHash q == Sched.LSQHash a0 .RegGPR e.HartToExecID) := by
      refine List.Nodup.subperm (by simp [hne]) ?_
      intro x hx
      rw [List.mem_filter]
      simp only [List.mem_cons, List.not_mem_nil, or_false] at hx
      rcases hx with rfl | rfl
      · exact ⟨List.mem_of_find?_eq_some hq, by simpa [loadReq, reqHash] using hhash⟩
      · exact ⟨hqueue, by simp [loadReq, reqHash]⟩
    have hlen := hpair.length_le
    rw [← count_filter] at hlen
    change s.core.lsqCount a0 .RegGPR e.HartToExecID = 1 at hcount
    simp only [List.length_cons, List.length_nil] at hlen
    omega
  rw [heq] at hq
  have hset := CoreState.DependencySet_eq hs.hart ht (show a0 < NUM_REGS by decide) (by decide) false
  exact ⟨_, CoreState.MarkLoadComplete_last hq hcount hset⟩

end Machine

end SysCalls

end RevCPU
