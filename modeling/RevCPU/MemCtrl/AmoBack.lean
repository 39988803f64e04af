import RevCPU.MemCtrl.InFlight
import RevCPU.MemCtrl.ReadBack

namespace RevCPU

open Lib RevBasicMemCtrl

namespace RevBasicMemCtrl

namespace Awaits

variable {s : RevBasicMemCtrl} {op : RevMemOp} {evs : List ReadResp}

/-- The responses to the read half of the only AMO in the table: the target has
    the extended bytes, and the write half is in the queue. -/
theorem handleReadResps_amo {mem : ℕ → UInt8} (hs : Awaits s op evs) (hne : evs ≠ []) {p : ℕ}
    {e : AMOEntry} (htable : s.AMOTable = [e]) (hfor : AMOEntry.isFor op e = true)
    (hentry : e.memop.target = some p) (hok : ExtOk op.flags op.Size) (htgt : op.target = some p)
    (hsize : op.Size ≤ 8) (hans : ∀ ev ∈ evs, Answers op mem ev) (h : Host) :
    ∃ s' h₁ h₂, Copied op mem p evs h h₁ ∧ handleFlagResp h₁ op = some h₂ ∧
      s.handleReadResps h evs = some (s', amoHost h₂ e.memop p) ∧
      s'.rqstQ = s.rqstQ ++ [amoHalf s.nextPtr h₂ e.memop p] ∧ s'.nextId = s.nextId ∧
      s'.outstanding.Sublist s.outstanding := by
  obtain ⟨s₁, h₀, ev, hlast, hanswering, hresps, hbytes⟩ := hs.last_step hne htgt hsize hans h
  obtain ⟨h₂, hflag⟩ := handleFlagResp_isSome (copyResp h₀ op p ev) hok htgt
  have htable₁ : s₁.AMOTable = [e] := hanswering.table.trans htable
  have hany : s₁.AMOTable.any (AMOEntry.isFor op) = true := by
    rw [htable₁]
    simpa using hfor
  have hfind : s₁.AMOTable.find? (AMOEntry.isFor op) = some e := by
    rw [htable₁, List.find?_cons_of_pos hfor]
  obtain ⟨s', hresp, hqueue, hid, hout⟩ : ∃ s', s₁.handleReadResp h₀ ev =
      some (s', amoHost h₂ e.memop p) ∧ s'.rqstQ = s₁.rqstQ ++ [amoHalf s₁.nextPtr h₂ e.memop p] ∧
      s'.nextId = s₁.nextId ∧ s'.outstanding = s₁.outstanding.eraseP fun n => n.1 == ev.id := by
    rw [hlast.read_last htgt h₀, hany, finishRead, hflag]
    simp only [if_true, handleAMO, hfind, performAMO, hentry, Option.map_some]
    exact ⟨_, rfl, rfl, rfl, rfl⟩
  refine ⟨s', copyResp h₀ op p ev, h₂, hbytes, hflag, hresps.trans hresp, ?_, ?_, ?_⟩
  · rw [hqueue, hanswering.queue, hanswering.nextPtr]
  · rw [hid, hanswering.nextId]
  · rw [hout]
    exact List.eraseP_sublist.trans hanswering.outstanding

end Awaits

/-- `handleWriteResp` for one response after the other. -/
def handleWriteResps (s : RevBasicMemCtrl) (h : Host) :
    List ℕ → Option (RevBasicMemCtrl × Host)
  | [] => some (s, h)
  | id :: ids => (s.handleWriteResp h id).bind fun (s, h) => handleWriteResps s h ids

/-- The responses to the parts of a write do not touch the targets. -/
theorem handleWriteResps_spec {s : RevBasicMemCtrl} {op : RevMemOp} {ids : List ℕ}
    (hreq : ∀ id ∈ ids, id ∈ s.requests) (hlookup : ∀ id ∈ ids, s.outstanding.lookup id = some op)
    (hdistinct : ids.Nodup) (h : Host) :
    ∃ s' h', s.handleWriteResps h ids = some (s', h') ∧ h'.cell = h.cell := by
  induction ids generalizing s h with
  | nil => exact ⟨s, h, rfl, rfl⟩
  | cons id ids ih =>
    obtain ⟨hnew, hdistinct⟩ := List.nodup_cons.mp hdistinct
    have hid : ∀ k ∈ ids, k ≠ id := by
      rintro k hk rfl
      exact hnew hk
    obtain ⟨s₁, h₁, hresp, hreq₁, hout₁, hcell₁⟩ : ∃ s₁ h₁, s.handleWriteResp h id = some (s₁, h₁) ∧
        s₁.requests = s.requests.erase id ∧
        s₁.outstanding = (s.outstanding.eraseP fun n => n.1 == id) ∧ h₁.cell = h.cell := by
      unfold handleWriteResp
      rw [if_pos (hreq id (by simp))]
      simp only [hlookup id (by simp)]
      refine ⟨_, _, rfl, rfl, rfl, ?_⟩
      split
      · split <;> rfl
      · split <;> rfl
    obtain ⟨s', h', hresps, hcell⟩ := ih (s := s₁) (h := h₁)
      (fun k hk => by
        rw [hreq₁]
        exact (List.mem_erase_of_ne (hid k hk)).mpr (hreq k (by simp [hk])))
      (fun k hk => by
        rw [hout₁, lookup_eraseP_ne (hid k hk)]
        exact hlookup k (by simp [hk]))
      hdistinct
    refine ⟨s', h', ?_, hcell.trans hcell₁⟩
    rw [handleWriteResps, hresp]
    exact hresps

/-- The requests of a dispatched operation have the next ids. -/
theorem newRqsts_ids (P : Params) (s : RevBasicMemCtrl) (op : RevMemOp) :
    (newRqsts P s op).map StdRqst.id = List.range' s.nextId (dispatchParts P op).length := by
  rw [newRqsts, List.map_map, ← List.zipIdx_map_snd s.nextId (dispatchParts P op)]
  refine List.map_congr_left fun p _ => ?_
  simp

/-- The dispatched operation waits for the responses with these ids. -/
theorem dispatchSlot_waits {P : Params} {s : RevBasicMemCtrl} {j : ℕ} {op : RevMemOp}
    (hlt : ∀ n ∈ s.outstanding, n.1 < s.nextId) {id : ℕ}
    (hid : id ∈ List.range' s.nextId (dispatchParts P op).length) :
    id ∈ (dispatchSlot P s j op).requests ∧
      (dispatchSlot P s j op).outstanding.lookup id = some (splitOp P op) := by
  constructor
  · simp only [dispatchSlot, sendParts_requests]
    exact List.mem_append.mpr (.inr hid)
  · have hold : s.outstanding.lookup id = none := by
      rw [List.lookup_eq_none_iff]
      intro n hn
      have hnew := (List.mem_range'_1.mp hid).1
      have hold := hlt n hn
      simp only [bne_iff_ne, ne_eq]
      omega
    have hkeys : (((List.range' s.nextId (dispatchParts P op).length).map fun id =>
        (id, splitOp P op)).map Prod.fst).Nodup := by
      rw [List.map_map]
      exact (List.map_id _).symm ▸ List.nodup_range'
    rw [dispatchSlot_outstanding, List.lookup_append, hold, Option.none_or]
    exact lookup_of_mem hkeys (List.mem_map.mpr ⟨id, hid, rfl⟩)

/-- The memory after write requests have taken effect. -/
def applyWrites (mem : ℕ → UInt8) (rs : List StdRqst) : ℕ → UInt8 :=
  rs.foldl (fun mem r => setBytes mem r.pAddr r.data) mem

/-- Writes that agree on the bytes can come in any order. -/
theorem applyWrites_slices {g : ℕ → UInt8} {rs : List StdRqst}
    (hslices : ∀ r ∈ rs, ∀ j < r.data.length, r.data.getD j 0 = g (r.pAddr + j))
    (mem : ℕ → UInt8) (a : ℕ) :
    ((∃ r ∈ rs, r.pAddr ≤ a ∧ a < r.pAddr + r.data.length) → applyWrites mem rs a = g a) ∧
      ((¬∃ r ∈ rs, r.pAddr ≤ a ∧ a < r.pAddr + r.data.length) → applyWrites mem rs a = mem a) := by
  induction rs generalizing mem with
  | nil => simp [applyWrites]
  | cons r rs ih =>
    obtain ⟨hin, hout⟩ := ih (fun r' hr' => hslices r' (by simp [hr'])) (setBytes mem r.pAddr r.data)
    have happly : applyWrites mem (r :: rs) = applyWrites (setBytes mem r.pAddr r.data) rs := rfl
    rw [happly]
    by_cases hlater : ∃ r' ∈ rs, r'.pAddr ≤ a ∧ a < r'.pAddr + r'.data.length
    · refine ⟨fun _ => hin hlater, ?_⟩
      intro hnot
      obtain ⟨r', hr', hcover⟩ := hlater
      exact absurd ⟨r', by simp [hr'], hcover⟩ hnot
    · rw [hout hlater]
      constructor
      · rintro ⟨r', hr', hcover⟩
        rcases List.mem_cons.mp hr' with rfl | hr'
        · have hbyte := hslices r' (by simp) (a - r'.pAddr) (by omega)
          rw [setBytes, if_pos hcover, hbyte]
          congr 1
          omega
        · exact absurd ⟨r', hr', hcover⟩ hlater
      · intro hnot
        exact if_neg fun hcover => hnot ⟨r, by simp, hcover⟩

/-- The parts of a write bring its buffer to the memory. -/
theorem applyWrites_newRqsts {P : Params} {s : RevBasicMemCtrl} {op : RevMemOp}
    (hop : op.Op = .MemOpWRITE) (hlen : op.membuf.length = op.Size) {rs : List StdRqst}
    (hperm : rs.Perm (newRqsts P s op)) (hcovered : Covered P op) (mem : ℕ → UInt8) :
    applyWrites mem rs = setBytes mem op.Addr op.membuf := by
  have hdata : ∀ id (p : Part) flags, (mkRqst id (splitOp P op) p.addr p.size p.cur flags).pAddr =
      p.addr ∧ (mkRqst id (splitOp P op) p.addr p.size p.cur flags).data =
        (op.membuf.drop p.cur).take p.size := by
    intro id p flags
    simp [mkRqst, rqstData, hop]
  have hrange : ∀ r ∈ rs, ∃ p ∈ dispatchParts P op, r.pAddr = op.Addr + p.cur ∧
      r.data = (op.membuf.drop p.cur).take p.size ∧ r.data.length = p.size ∧
      p.cur + p.size ≤ op.Size := by
    intro r hr
    obtain ⟨⟨p, k⟩, hp, rfl⟩ := List.mem_map.mp (hperm.subset hr)
    have hpart : p ∈ dispatchParts P op := (List.mem_zipIdx hp).2.2 ▸ List.getElem_mem _
    obtain ⟨haddr, hend⟩ := dispatchParts_range P op hpart
    obtain ⟨hpaddr, hbytes⟩ := hdata k p (dispatchFlags P op)
    refine ⟨p, hpart, hpaddr.trans haddr, hbytes, ?_, hend⟩
    rw [hbytes, List.length_take, List.length_drop, hlen]
    omega
  have hslices : ∀ r ∈ rs, ∀ j < r.data.length,
      r.data.getD j 0 = op.membuf.getD (r.pAddr + j - op.Addr) 0 := by
    intro r hr j hj
    obtain ⟨p, -, haddr, hbytes, hsize, -⟩ := hrange r hr
    have hidx : r.pAddr + j - op.Addr = p.cur + j := by omega
    rw [hidx, hbytes, List.getD_eq_getElem?_getD, List.getElem?_take, if_pos (by omega),
      List.getElem?_drop, List.getD_eq_getElem?_getD]
  funext a
  obtain ⟨hin, hout⟩ := applyWrites_slices (g := fun a => op.membuf.getD (a - op.Addr) 0) hslices mem a
  by_cases ha : op.Addr ≤ a ∧ a < op.Addr + op.Size
  · obtain ⟨p, hp, hfrom, hto⟩ := hcovered (a - op.Addr) (by omega)
    obtain ⟨k, hk⟩ := List.getElem?_of_mem hp
    have hmem : mkRqst (s.nextId + k) (splitOp P op) p.addr p.size p.cur (dispatchFlags P op) ∈ rs :=
      hperm.symm.subset (List.mem_map.mpr ⟨(p, s.nextId + k),
        List.mk_add_mem_zipIdx_iff_getElem?.mpr hk, rfl⟩)
    obtain ⟨haddr, hbytes⟩ := hdata (s.nextId + k) p (dispatchFlags P op)
    obtain ⟨hpaddr, hend⟩ := dispatchParts_range P op hp
    have hlength : ((op.membuf.drop p.cur).take p.size).length = p.size := by
      rw [List.length_take, List.length_drop, hlen]
      omega
    rw [hin ⟨_, hmem, by omega, by rw [hbytes, hlength]; omega⟩, setBytes, if_pos (by omega)]
  · rw [setBytes, if_neg (by omega)]
    refine hout ?_
    rintro ⟨r, hr, hfrom, hto⟩
    obtain ⟨p, -, haddr, -, hsize, hend⟩ := hrange r hr
    omega

end RevBasicMemCtrl

end RevCPU
