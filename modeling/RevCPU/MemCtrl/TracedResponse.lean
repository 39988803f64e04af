import RevCPU.MemCtrl.TracedQueue

namespace RevCPU

open Lib RevBasicMemCtrl

namespace RevBasicMemCtrl.Bookkeeping

variable {s : RevBasicMemCtrl}

theorem mem_memIface_eraseP (hs : s.Bookkeeping) {id : ℕ} {r : StdRqst} :
    r ∈ s.memIface.eraseP (fun x => x.id == id) ↔ r ∈ s.memIface ∧ r.id ≠ id := by
  have hnodup := hs.nodup
  rw [← hs.memIface_ids] at hnodup
  constructor
  · intro hr
    have hmem := List.mem_of_mem_eraseP hr
    refine ⟨hmem, ?_⟩
    rintro rfl
    obtain ⟨a, l₁, l₂, -, ha, hsplit, herase⟩ := List.exists_of_eraseP
      (p := fun x : StdRqst => x.id == r.id) hmem (by simp)
    have haid : a.id = r.id := by simpa using ha
    have heq : a = r := hs.rqst_unique (by simp [hsplit]) hmem haid
    rw [herase, List.mem_append] at hr
    rw [hsplit, List.map_append, List.map_cons, List.nodup_append, List.nodup_cons] at hnodup
    rcases hr with hr | hr
    · exact hnodup.2.2 _ (List.mem_map.mpr ⟨r, hr, rfl⟩) a.id (by simp) haid.symm
    · exact hnodup.2.1.1 (List.mem_map.mpr ⟨r, hr, haid.symm⟩)
  · rintro ⟨hr, hne⟩
    exact (List.mem_eraseP_of_neg (by simpa using hne)).mpr hr

end RevBasicMemCtrl.Bookkeeping

/-- What `handleReadResp` copies from the response to a request that carries a
    part of its operation: the bytes of the response, each to its place in the
    target. -/
theorem RevBasicMemCtrl.Carries.copyResp {P : Params} {op : RevMemOp} {r : StdRqst} {part : Part}
    (hpart : Carries P op r part)
    (hwhole : op.SplitRqst ≤ 1 → dispatchParts P op = [⟨op.Addr, op.Size, 0⟩]) (data : List UInt8)
    (hsize : op.Size ≤ 8) (h : Host) (p : ℕ) :
    (∀ i < op.Size, (RevBasicMemCtrl.copyResp h op p (readResp r data)).cell p i =
      if r.pAddr ≤ op.Addr + i ∧ op.Addr + i < r.pAddr + r.size then
        data.getD (op.Addr + i - r.pAddr) 0
      else h.cell p i) ∧
    (∀ q, q ≠ p → (RevBasicMemCtrl.copyResp h op p (readResp r data)).cell q = h.cell q) ∧
    (RevBasicMemCtrl.copyResp h op p (readResp r data)).completed = h.completed := by
  obtain ⟨haddr, hend⟩ := dispatchParts_range P op hpart.part
  have hpaddr := hpart.addr
  have hpsize := hpart.size
  by_cases hsplit : op.SplitRqst > 1
  · have hoff : (r.pAddr - op.Addr) % 2 ^ 32 % 2 ^ 8 = part.cur := by omega
    refine ⟨?_, ?_, ?_⟩
    · intro i hi
      simp only [RevBasicMemCtrl.copyResp, if_pos hsplit, readResp, hoff, Host.write_cell, copyBuf_length]
      by_cases hin : r.pAddr ≤ op.Addr + i ∧ op.Addr + i < r.pAddr + r.size
      · rw [if_pos hin, if_pos (by omega)]
        have hidx : i - part.cur = op.Addr + i - r.pAddr := by omega
        have hlt : i - part.cur < r.size := by omega
        rw [← hidx]
        simp [copyBuf, hlt]
      · rw [if_neg hin, if_neg (by omega)]
    · intro q hq
      funext i
      simp only [RevBasicMemCtrl.copyResp, if_pos hsplit]
      exact Host.write_other h hq _ i _
    · simp only [RevBasicMemCtrl.copyResp, if_pos hsplit]
      rfl
  · have hparts := hwhole (by simpa using hsplit)
    have hpartEq : part = ⟨op.Addr, op.Size, 0⟩ := by
      have hmem := hpart.part
      rw [hparts] at hmem
      exact List.mem_singleton.mp hmem
    rw [hpartEq] at hpaddr hpsize
    simp only at hpaddr hpsize
    refine ⟨?_, ?_, ?_⟩
    · intro i hi
      simp only [RevBasicMemCtrl.copyResp, if_neg hsplit, readResp, Host.write_cell, copyBuf_length]
      rw [if_pos (by omega), if_pos (by omega)]
      have hidx : op.Addr + i - r.pAddr = i := by omega
      rw [hidx]
      simp [copyBuf, hi]
    · intro q hq
      funext i
      simp only [RevBasicMemCtrl.copyResp, if_neg hsplit]
      exact Host.write_other h hq _ i _
    · simp only [RevBasicMemCtrl.copyResp, if_neg hsplit]
      rfl

namespace CtrlSys.InFlight

variable {P : Params} {s : CtrlSys}

theorem copyResp_spec (hs : s.InFlight P) {r : StdRqst} {op : RevMemOp} (data : List UInt8)
    (hr : r ∈ s.ctrl.memIface) (hop : (r.id, op) ∈ s.ctrl.outstanding) (hsize : op.Size ≤ 8)
    (h : Host) (p : ℕ) :
    (∀ i < op.Size, (copyResp h op p (readResp r data)).cell p i =
      if r.pAddr ≤ op.Addr + i ∧ op.Addr + i < r.pAddr + r.size then
        data.getD (op.Addr + i - r.pAddr) 0
      else h.cell p i) ∧
    (∀ q, q ≠ p → (copyResp h op p (readResp r data)).cell q = h.cell q) ∧
    (copyResp h op p (readResp r data)).completed = h.completed := by
  obtain ⟨part, hpart⟩ := hs.rqsts r hr op hop
  exact hpart.copyResp (hs.whole _ hop) data hsize h p

end CtrlSys.InFlight

namespace Backed

variable {P : Params} {m₀ : ℕ → UInt8} {s s' : Backed}

section
variable {r : StdRqst} {op : RevMemOp} {data : List UInt8}

/-- A response takes a request that is done out of flight. -/
structure Answered (s : Backed) (r : StdRqst) (s' : Backed) : Prop where
  out : s'.sys.ctrl.outstanding = s.sys.ctrl.outstanding.eraseP fun n => n.1 == r.id
  iface : s'.sys.ctrl.memIface = s.sys.ctrl.memIface.eraseP fun x => x.id == r.id
  reqs : s'.sys.ctrl.requests = s.sys.ctrl.requests.erase r.id
  done : s'.done = s.done.eraseP fun d => d.1 == r.id
  issued : s'.sys.issued = s.sys.issued
  log : s'.log = s.log
  mem : s'.mem = s.mem

theorem Answered.undone (h : Answered s r s') (hs : s.Traced P m₀)
    (hdone : s.done.lookup r.id = some data) (o : RevMemOp) (a : ℕ) :
    s'.Undone o a ↔ s.Undone o a := by
  have hbook := hs.flight.wf.book
  unfold Undone
  rw [h.out, h.iface, h.done]
  constructor
  · rintro ⟨r', hr', hop', hlow, hhigh, hnone⟩
    obtain ⟨hr', hid⟩ := hbook.mem_memIface_eraseP.mp hr'
    rw [lookup_eraseP_ne hid] at hnone
    exact ⟨r', hr', List.mem_of_mem_eraseP hop', hlow, hhigh, hnone⟩
  · rintro ⟨r', hr', hop', hlow, hhigh, hnone⟩
    have hid : r'.id ≠ r.id := by
      intro hid
      rw [hid, hdone] at hnone
      simp at hnone
    refine ⟨r', hbook.mem_memIface_eraseP.mpr ⟨hr', hid⟩, ?_, hlow, hhigh, ?_⟩
    · exact (mem_eraseP_key hbook.keys_nodup).mpr ⟨hop', hid⟩
    · rw [lookup_eraseP_ne hid]
      exact hnone

theorem Answered.waits_of_ne (h : Answered s r s') (hs : s.Traced P m₀)
    (hop : (r.id, op) ∈ s.sys.ctrl.outstanding) {o : RevMemOp} (ho : o ≠ op) (a : ℕ) :
    s'.Waits o a ↔ s.Waits o a := by
  have hbook := hs.flight.wf.book
  unfold Waits
  rw [h.out, h.iface]
  constructor
  · rintro ⟨r', hr', hop', hin⟩
    exact ⟨r', (hbook.mem_memIface_eraseP.mp hr').1, List.mem_of_mem_eraseP hop', hin⟩
  · rintro ⟨r', hr', hop', hin⟩
    have hid : r'.id ≠ r.id := by
      intro hid
      rw [hid] at hop'
      exact ho (hbook.op_unique hop' hop)
    exact ⟨r', hbook.mem_memIface_eraseP.mpr ⟨hr', hid⟩,
      (mem_eraseP_key hbook.keys_nodup).mpr ⟨hop', hid⟩, hin⟩

/-- The bytes of the response are no longer waited for. -/
theorem Answered.waits_self (h : Answered s r s') (hs : s.Traced P m₀)
    (hr : r ∈ s.sys.ctrl.memIface) (hop : (r.id, op) ∈ s.sys.ctrl.outstanding) (a : ℕ) :
    s'.Waits op a ↔ s.Waits op a ∧ ¬(r.pAddr ≤ a ∧ a < r.pAddr + r.size) := by
  have hbook := hs.flight.wf.book
  unfold Waits
  rw [h.out, h.iface]
  constructor
  · rintro ⟨r', hr', hop', hin⟩
    obtain ⟨hr', hid⟩ := hbook.mem_memIface_eraseP.mp hr'
    have hop' := List.mem_of_mem_eraseP hop'
    refine ⟨⟨r', hr', hop', hin⟩, ?_⟩
    intro ha
    exact hid (by rw [hs.flight.same_rqst hr' hr hop' hop hin ha])
  · rintro ⟨⟨r', hr', hop', hin⟩, hnot⟩
    have hid : r'.id ≠ r.id := by
      intro hid
      rw [hbook.rqst_unique hr' hr hid] at hin
      exact hnot hin
    exact ⟨r', hbook.mem_memIface_eraseP.mpr ⟨hr', hid⟩,
      (mem_eraseP_key hbook.keys_nodup).mpr ⟨hop', hid⟩, hin⟩

/-- A response keeps the invariant of the other operations; what is left are
    the operations of its own call. -/
theorem Traced.answer (hs : s.Traced P m₀) (hop : (r.id, op) ∈ s.sys.ctrl.outstanding)
    (hdone : s.done.lookup r.id = some data) (hflight : s'.sys.InFlight P) (h : Answered s r s')
    (hqueue : ∀ o, o.seq ≠ op.seq → (o ∈ s'.sys.ctrl.rqstQ ↔ o ∈ s.sys.ctrl.rqstQ))
    (hcell : ∀ c, (op.seq, c) ∈ s.sys.issued → ∀ q, c.target ≠ some q →
      s'.sys.host.cell q = s.sys.host.cell q)
    (hret : ∀ x ∈ s.returned, x ∈ s'.returned)
    (hself : ∀ o ∈ s'.sys.ctrl.live, o.seq = op.seq → ∀ c, (op.seq, c) ∈ s.sys.issued →
      c.isFence = false → Tracks s.log s'.sys.host (s'.NotDone o) (s'.NotAnswered o) c o)
    (hgone : (∀ o ∈ s'.sys.ctrl.live, o.seq ≠ op.seq) → ∀ c, (op.seq, c) ∈ s.sys.issued →
      c.isFence = false → Retired s.log s'.returned op.seq c) :
    s'.Traced P m₀ := by
  have hbook := hs.flight.wf.book
  have hord := hs.flight.wf.ord
  have hoplive : op ∈ s.sys.ctrl.live := mem_live.mpr (.inr ⟨_, hop⟩)
  have hlive : ∀ o, o.seq ≠ op.seq → (o ∈ s'.sys.ctrl.live ↔ o ∈ s.sys.ctrl.live) := by
    intro o ho
    rw [mem_live, mem_live, hqueue o ho, h.out]
    refine or_congr_right ⟨?_, ?_⟩
    · rintro ⟨id, hid⟩
      exact ⟨id, List.mem_of_mem_eraseP hid⟩
    · rintro ⟨id, hid⟩
      refine ⟨id, (mem_eraseP_key hbook.keys_nodup).mpr ⟨hid, ?_⟩⟩
      rintro rfl
      exact ho (by rw [hbook.op_unique hid hop])
  refine ⟨hflight, ?_, ?_, ?_, ?_, by rw [h.mem, h.log]; exact hs.memory, ?_⟩
  · rw [h.done, h.reqs, map_fst_eraseP_key]
    refine ⟨hs.doneIds.1.erase _, ?_⟩
    intro d hd
    obtain ⟨hd, hne⟩ := (mem_eraseP_key hs.doneIds.1).mp hd
    exact (List.mem_erase_of_ne hne).mpr (hs.doneIds.2 d hd)
  · intro r' hr' o ho hread d hd
    rw [h.iface] at hr'
    rw [h.out] at ho
    obtain ⟨hr', hid⟩ := hbook.mem_memIface_eraseP.mp hr'
    rw [h.done, lookup_eraseP_ne hid] at hd
    rw [h.log]
    exact hs.doneData r' hr' o (List.mem_of_mem_eraseP ho) hread d hd
  · intro o ho c hc hfence
    rw [h.issued] at hc
    rw [h.log]
    by_cases hseq : o.seq = op.seq
    · exact hself o ho hseq c (by rwa [← hseq]) hfence
    · have ho' := (hlive o hseq).mp ho
      have hne : o ≠ op := fun heq => hseq (by rw [heq])
      refine (hs.tracks o ho' c hc hfence).congr (fun _ _ => rfl) ?_ ?_ ?_
      · intro a
        simp only [NotDone, hqueue o hseq, h.undone hs hdone]
      · intro a
        simp only [NotAnswered, hqueue o hseq, h.waits_of_ne hs hop hne]
      · intro p hp
        obtain ⟨c', hc', -⟩ := hs.flight.call hoplive
        exact hcell c' hc' p (hs.flight.targets o ho' op hoplive hseq c c' hc hc' p hp)
  · intro k c hc hfence hnone
    rw [h.issued] at hc
    rw [h.log]
    by_cases hk : k = op.seq
    · subst hk
      exact hgone hnone c hc hfence
    · have hret' := hs.retired k c hc hfence (by
        rintro o ho rfl
        exact hnone o ((hlive o hk).mpr ho) rfl)
      refine ⟨hret'.final, ?_⟩
      intro hreads
      obtain ⟨old, hmem, hlen, hbytes⟩ := hret'.value hreads
      exact ⟨old, hret _ hmem, hlen, hbytes⟩
  · rw [h.log, h.issued]
    exact hs.logged

end

end Backed

end RevCPU
