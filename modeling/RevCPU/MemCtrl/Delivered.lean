import RevCPU.MemCtrl.Arrival
import RevCPU.MemCtrl.Delivery

namespace RevCPU

open Lib RevBasicMemCtrl

theorem RevBasicMemCtrl.amoHost_other (h : Host) (op : RevMemOp) {p q : ℕ} (hne : q ≠ p) :
    (amoHost h op p).cell q = h.cell q := by
  funext i
  unfold amoHost
  rw [Host.write_other _ hne]
  unfold amoTarget
  split
  · exact h.store_other hne 4 i _
  · exact h.store_other hne 8 i _

namespace CtrlSys

section
variable {P : Params} {mem : ℕ → UInt8} {f : Fetch} {k : ℕ} {s s' : CtrlSys} {ev : Event}

/-- A request of another operation is answered. -/
theorem Delivering.answer_other (hs : s.Delivering P mem f k) {id : ℕ} {op : RevMemOp}
    (hop : s.ctrl.outstanding.lookup id = some op) (hne : op.seq ≠ k) (hwf : s'.Wf)
    (hout : s'.ctrl.outstanding = s.ctrl.outstanding.eraseP fun n => n.1 == id)
    (hiface : s'.ctrl.memIface = s.ctrl.memIface.eraseP fun r => r.id == id)
    (hqueue : ∀ o, o.seq = k → (o ∈ s'.ctrl.rqstQ ↔ o ∈ s.ctrl.rqstQ))
    (hsole : ∀ o ∈ s'.ctrl.rqstQ, o.target = some f.p → o ∈ s.ctrl.rqstQ)
    (hcell : s'.host.cell f.p = s.host.cell f.p) (hissued : s'.issued = s.issued) :
    s'.Delivering P mem f k := by
  have hid : ∀ n ∈ s.ctrl.outstanding, n.2.seq = k → n.1 ≠ id := by
    rintro n hn hseq rfl
    have hlookup := lookup_of_mem hs.wf.book.keys_nodup hn
    rw [hop, Option.some.injEq] at hlookup
    rw [hlookup] at hne
    exact hne hseq
  have hmem : ∀ n : ℕ × RevMemOp, n.2.seq = k →
      (n ∈ s'.ctrl.outstanding ↔ n ∈ s.ctrl.outstanding) := by
    intro n hseq
    rw [hout, mem_eraseP_key hs.wf.book.keys_nodup]
    exact and_iff_left_of_imp fun hn => hid n hn hseq
  refine hs.frame hwf (by simp [hissued]) ?_ hqueue ?_ ?_ (fun n hn hseq => (hmem n hseq).mp hn) hcell
  · intro o hseq
    rw [mem_live, mem_live, hqueue o hseq]
    exact or_congr_right (exists_congr fun id' => hmem (id', o) hseq)
  · intro o ho htgt
    rw [mem_live] at ho ⊢
    rcases ho with ho | ⟨id', ho⟩
    · exact .inl (hsole o ho htgt)
    · rw [hout] at ho
      exact .inr ⟨id', List.mem_of_mem_eraseP ho⟩
  · intro r o hseq
    rw [hmem (r.id, o) hseq]
    refine and_congr_left fun ho => ?_
    rw [hiface, hs.wf.book.mem_memIface_eraseP]
    exact and_iff_left (hid _ ho hseq)

theorem Delivering.response_other (hs : s.Delivering P mem f k) {r : StdRqst} {data : List UInt8}
    {op : RevMemOp} (hop : s.ctrl.outstanding.lookup r.id = some op) (hne : op.seq ≠ k)
    (hwf : s'.Wf) (hresp : Responded s.ctrl s.host r data s'.ctrl s'.host)
    (hissued : s'.issued = s.issued) : s'.Delivering P mem f k := by
  have hoplive : op ∈ s.ctrl.live := mem_live.mpr (.inr ⟨_, mem_of_lookup hop⟩)
  have htarget : ∀ p, op.target = some p → f.p ≠ p := by
    rintro p htgt rfl
    exact hne (hs.sole op hoplive htgt)
  obtain ⟨ctrl, host, tick, issued⟩ := s'
  simp only at hresp hissued
  cases hresp with
  | readPart hcls hreq hop' htgt hlast =>
    obtain rfl := Option.some.inj (hop'.symm.trans hop)
    exact hs.answer_other hop hne hwf rfl rfl (fun _ _ => Iff.rfl) (fun _ h _ => h)
      (copyResp_other _ _ (htarget _ htgt) _) hissued
  | readDone hcls hreq hop' htgt hlast hflag hamo =>
    obtain rfl := Option.some.inj (hop'.symm.trans hop)
    refine hs.answer_other hop hne hwf rfl rfl (fun _ _ => Iff.rfl) (fun _ h _ => h) ?_ hissued
    have hcell := handleFlagResp_other (q := f.p) (fun h => htarget _ h rfl) hflag
    exact hcell.trans (copyResp_other _ _ (htarget _ htgt) _)
  | @readAMO op' p q h' e hcls hreq hop' htgt hlast hflag hamo hq =>
    obtain rfl := Option.some.inj (hop'.symm.trans hop)
    have hmem : e ∈ s.ctrl.AMOTable := List.mem_of_find?_eq_some hamo
    obtain ⟨n, hn⟩ := hs.wf.ord.entry_eq hmem hoplive
      ((hs.wf.ord.isFor_iff hmem hoplive).mp (List.find?_some hamo))
    have hseq : (amoHalf s.ctrl.nextPtr h' e.memop q).seq = op'.seq := by
      rw [hn]
      rfl
    have hqtgt : op'.target = some q := by
      rw [hn]
      exact hq
    refine hs.answer_other hop hne hwf rfl rfl ?_ ?_ ?_ hissued
    · intro o ho
      simp only [List.mem_append, List.mem_singleton, or_iff_left_iff_imp]
      rintro rfl
      exact absurd (hseq.symm.trans ho) hne
    · intro o ho htgt'
      simp only [List.mem_append, List.mem_singleton] at ho
      rcases ho with ho | rfl
      · exact ho
      · simp [amoHalf, amoWriteOp] at htgt'
    · have hcell := handleFlagResp_other (q := f.p) (fun h => htarget _ h rfl) hflag
      rw [amoHost_other _ _ (htarget q hqtgt), hcell]
      exact copyResp_other _ _ (htarget _ htgt) _
  | write hcls hreq hop' =>
    obtain rfl := Option.some.inj (hop'.symm.trans hop)
    refine hs.answer_other hop hne hwf rfl rfl (fun _ _ => Iff.rfl) (fun _ h _ => h) ?_ hissued
    simp only
    split <;> rfl
  | flush | custom =>
    exact hs.answer_other hop hne hwf rfl rfl (fun _ _ => Iff.rfl) (fun _ h _ => h) rfl hissued

/-- The bytes of the target once the response to a request of the read has been
    copied. -/
theorem Delivering.copied (hs : s.Delivering P mem f k) (hsize : f.n ≤ 8) {r : StdRqst}
    {op : RevMemOp} {data : List UInt8} (hr : r ∈ s.ctrl.memIface)
    (hop : (r.id, op) ∈ s.ctrl.outstanding) (hseq : op.seq = k)
    (hdata : ∀ j < r.size, f.A ≤ r.pAddr + j → r.pAddr + j < f.A + f.n →
      data.getD j 0 = mem (r.pAddr + j)) {i : ℕ} (hi : i < f.n) :
    (copyResp s.host op f.p (readResp r data)).cell f.p i =
      if r.pAddr ≤ f.A + i ∧ f.A + i < r.pAddr + r.size then mem (f.A + i)
      else s.host.cell f.p i := by
  obtain ⟨-, hA, hn, -⟩ := hs.fields (mem_live.mpr (.inr ⟨_, hop⟩)) hseq
  obtain ⟨q, hq⟩ := hs.parts r hr op hop hseq
  have hcopy := (hq.copyResp (hs.whole _ hop hseq) data (by rw [hn]; exact hsize) s.host f.p).1 i
    (by rw [hn]; exact hi)
  rw [hA] at hcopy
  rw [hcopy]
  refine if_ctx_congr Iff.rfl ?_ fun _ => rfl
  rintro ⟨hfrom, hto⟩
  have hbyte := hdata (f.A + i - r.pAddr) (by omega) (by omega) (by omega)
  rwa [Nat.add_sub_cancel' hfrom] at hbyte

/-- A request of the read is answered and others are still in flight. -/
theorem Delivering.answer_part (hs : s.Delivering P mem f k) (hsize : f.n ≤ 8) {r : StdRqst}
    {op : RevMemOp} {data : List UInt8} (hr : r ∈ s.ctrl.memIface)
    (hop : s.ctrl.outstanding.lookup r.id = some op) (hseq : op.seq = k)
    (hdata : ∀ j < r.size, f.A ≤ r.pAddr + j → r.pAddr + j < f.A + f.n →
      data.getD j 0 = mem (r.pAddr + j)) (hlast : s.ctrl.lastResp op = false) (hwf : s'.Wf)
    (hctrl : s'.ctrl = { s.ctrl.answered r.id with num_read := s.ctrl.num_read - 1 })
    (hhost : s'.host = copyResp s.host op f.p (readResp r data)) (hissued : s'.issued = s.issued) :
    s'.Delivering P mem f k := by
  have hmem := mem_of_lookup hop
  have hoplive : op ∈ s.ctrl.live := mem_live.mpr (.inr ⟨_, hmem⟩)
  have hlive : ∀ o ∈ s'.ctrl.live, o ∈ s.ctrl.live := by
    intro o ho
    rw [hctrl] at ho
    exact live_answered (k := r.id) ho
  have hout : s'.ctrl.outstanding = s.ctrl.outstanding.eraseP fun n => n.1 == r.id := by
    rw [hctrl]
    rfl
  have hiface : s'.ctrl.memIface = s.ctrl.memIface.eraseP fun x => x.id == r.id := by
    rw [hctrl]
    rfl
  have hqueue : s'.ctrl.rqstQ = s.ctrl.rqstQ := by
    rw [hctrl]
    rfl
  obtain ⟨id, hid⟩ := hs.wf.ord.stays hop hlast
  obtain ⟨Hart, PAddr, hcall⟩ := hs.call
  refine ⟨hwf, ⟨Hart, PAddr, by rw [hissued]; exact hcall⟩,
    ⟨op, mem_live.mpr (.inr ⟨id, by rw [hout]; exact hid⟩), hseq⟩,
    fun o ho => hs.sole o (hlive o ho), ?_, ?_, ?_⟩
  · intro r' hr' o ho hseq'
    rw [hiface] at hr'
    rw [hout] at ho
    exact hs.parts r' (List.mem_of_mem_eraseP hr') o (List.mem_of_mem_eraseP ho) hseq'
  · intro n hn
    rw [hout] at hn
    exact hs.whole n (List.mem_of_mem_eraseP hn)
  · intro o ho hseq' hnot i hi
    obtain rfl := hs.wf.ord.same_seq o (hlive o ho) op hoplive (hseq'.trans hseq.symm)
    rw [hqueue] at hnot
    rw [hhost, hs.copied hsize hr hmem hseq hdata hi]
    by_cases hin : r.pAddr ≤ f.A + i ∧ f.A + i < r.pAddr + r.size
    · exact .inr (if_pos hin)
    · rw [if_neg hin]
      refine (hs.arrived o hoplive hseq hnot i hi).imp_left ?_
      rintro ⟨r', hr', ho', hrange⟩
      have hne : r'.id ≠ r.id := by
        intro heq
        rw [hs.wf.book.rqst_unique hr' hr heq] at hrange
        exact hin hrange
      refine ⟨r', ?_, ?_, hrange⟩
      · rw [hiface, hs.wf.book.mem_memIface_eraseP]
        exact ⟨hr', hne⟩
      · rw [hout, mem_eraseP_key hs.wf.book.keys_nodup]
        exact ⟨ho', hne⟩

/-- The last response brings the bytes that were missing. -/
theorem Delivering.answer_last (hs : s.Delivering P mem f k) (hsize : f.n ≤ 8) {r : StdRqst}
    {op : RevMemOp} {data : List UInt8} (hr : r ∈ s.ctrl.memIface)
    (hop : s.ctrl.outstanding.lookup r.id = some op) (hseq : op.seq = k)
    (hdata : ∀ j < r.size, f.A ≤ r.pAddr + j → r.pAddr + j < f.A + f.n →
      data.getD j 0 = mem (r.pAddr + j)) (hlast : s.ctrl.lastResp op = true) (hwf : s'.Wf)
    (hctrl : s'.ctrl = { s.ctrl.answered r.id with num_read := s.ctrl.num_read - 1 })
    (hcell : s'.host.cell = (copyResp s.host op f.p (readResp r data)).cell) :
    s'.Delivered mem f := by
  have hmem := mem_of_lookup hop
  have hoplive : op ∈ s.ctrl.live := mem_live.mpr (.inr ⟨_, hmem⟩)
  have hgone : ∀ o ∈ s'.ctrl.live, o ∈ s.ctrl.live ∧ o.ptr ≠ op.ptr := by
    intro o ho
    rw [hctrl] at ho
    exact ⟨live_answered (k := r.id) ho, live_last hs.wf.ord hs.wf.book hop hlast ho⟩
  refine ⟨hwf, ?_, ?_⟩
  · intro o ho htgt
    obtain ⟨ho, hne⟩ := hgone o ho
    have heq := hs.wf.ord.same_seq o ho op hoplive ((hs.sole o ho htgt).trans hseq.symm)
    exact hne (congrArg RevMemOp.ptr heq)
  · intro i hi
    rw [hcell, hs.copied hsize hr hmem hseq hdata hi]
    by_cases hin : r.pAddr ≤ f.A + i ∧ f.A + i < r.pAddr + r.size
    · exact if_pos hin
    · rw [if_neg hin]
      have hnot : op ∉ s.ctrl.rqstQ := fun hq => hs.wf.ord.dispatched _ hmem op hq rfl
      rcases hs.arrived op hoplive hseq hnot i hi with ⟨r', hr', ho', hrange⟩ | hbyte
      · have hne : r'.id ≠ r.id := by
          intro heq
          rw [hs.wf.book.rqst_unique hr' hr heq] at hrange
          exact hin hrange
        have hleft := (mem_eraseP_key hs.wf.book.keys_nodup).mpr ⟨ho', hne⟩
        exact absurd rfl (hs.wf.ord.gone_of_lastResp hs.wf.book hop hlast _ hleft)
      · exact hbyte

theorem Delivering.response_self (hs : s.Delivering P mem f k) (hsize : f.n ≤ 8) {r : StdRqst}
    {data : List UInt8} {op : RevMemOp} (hr : s.ctrl.memIface.find? (fun x => x.id == r.id) = some r)
    (hop : s.ctrl.outstanding.lookup r.id = some op) (hseq : op.seq = k)
    (hok : s.Spares mem f (.response r.id data)) (hwf : s'.Wf)
    (hresp : Responded s.ctrl s.host r data s'.ctrl s'.host) (hissued : s'.issued = s.issued) :
    s'.Delivering P mem f k ∨
      s'.Delivered mem f ∧ s'.host.completed = s.host.completed ++ [f.req] := by
  have hmem : r ∈ s.ctrl.memIface := List.mem_of_find?_eq_some hr
  have hoplive : op ∈ s.ctrl.live := mem_live.mpr (.inr ⟨_, mem_of_lookup hop⟩)
  obtain ⟨-, -, -, hread, htgt, hreq, hflags⟩ := hs.fields hoplive hseq
  have hcls : r.cls = .MemOpREAD := (hs.wf.book.cls_eq hr hop).trans hread
  have hdata := hok r hmem rfl hcls
  obtain ⟨ctrl, host, tick, issued⟩ := s'
  simp only at hresp hissued
  cases hresp with
  | readPart _ _ hop' htgt' hlast =>
    obtain rfl := Option.some.inj (hop'.symm.trans hop)
    obtain rfl := Option.some.inj (htgt.symm.trans htgt')
    exact .inl (hs.answer_part hsize hmem hop hseq hdata hlast hwf rfl rfl hissued)
  | @readDone op' _ h' _ _ hop' htgt' hlast hflag hamo =>
    obtain rfl := Option.some.inj (hop'.symm.trans hop)
    obtain rfl := Option.some.inj (htgt.symm.trans htgt')
    have hh' : h' = copyResp s.host op' f.p (readResp r data) := by
      rw [handleFlagResp, hflags] at hflag
      exact (Option.some.inj hflag).symm
    refine .inr ⟨hs.answer_last hsize hmem hop hseq hdata hlast hwf rfl ?_, ?_⟩
    · rw [hh']
      rfl
    · rw [hh', hreq]
      show (copyResp _ _ _ _).completed ++ [f.req] = _
      rw [copyResp_completed]
  | readAMO _ _ hop' _ _ _ hamo =>
    obtain rfl := Option.some.inj (hop'.symm.trans hop)
    have hnot := hs.not_amo hoplive hseq (List.mem_of_find?_eq_some hamo)
    rw [List.find?_some hamo] at hnot
    exact absurd hnot (by simp)
  | write hcls' =>
    rw [hcls] at hcls'
    exact absurd hcls' (by decide)
  | flush hcls' | custom hcls' =>
    rw [hcls] at hcls'
    exact absurd hcls' (by decide)

/-- A read whose lines reach its last byte is delivered: a step leaves it on its
    way, or ends it with the bytes of the memory in its target and marks its
    request complete. -/
theorem Delivering.stepped (hs : s.Delivering P mem f k) (hsize : f.n ≤ 8)
    (hreach : LinesReach P f.A f.n) (h : Stepped P s ev s') (hok : s.Spares mem f ev) :
    s'.Delivering P mem f k ∨
      s'.Delivered mem f ∧ s'.host.completed = s.host.completed ++ [f.req] := by
  have hwf := h.wf hs.wf
  cases h with
  | skip | wait => exact .inl hs
  | start | clear =>
    exact .inl (hs.frame hwf (fun _ h => h) (fun _ _ => Iff.rfl) (fun _ _ => Iff.rfl)
      (fun _ h _ => h) (fun _ _ _ => Iff.rfl) (fun _ h _ => h) rfl)
  | send htick henq => exact .inl (hs.enqueue hok hwf rfl rfl rfl)
  | process htick hproc hfence =>
    left
    cases hproc with
    | idle =>
      exact hs.frame hwf (fun _ h => h) (fun _ _ => Iff.rfl) (fun _ _ => Iff.rfl)
        (fun _ h _ => h) (fun _ _ _ => Iff.rfl) (fun _ h _ => h) rfl
    | fence hcand hop => exact hs.dropFence hcand.slot hop hwf rfl rfl rfl rfl rfl
    | @dispatch i op hcand hop hamo hpend =>
      by_cases hseq : op.seq = k
      · exact hs.dispatch_self hreach hcand.slot hseq hwf rfl rfl
      · exact hs.dispatch_other hcand.slot hseq hwf rfl rfl rfl
  | @response r data ctrl host htick hr hresp =>
    obtain ⟨op, hop⟩ : ∃ op, s.ctrl.outstanding.lookup r.id = some op := by
      cases hresp <;> exact ⟨_, ‹s.ctrl.outstanding.lookup r.id = some _›⟩
    by_cases hseq : op.seq = k
    · exact hs.response_self hsize hr hop hseq hok hwf hresp rfl
    · exact .inl (hs.response_other hop hseq hwf hresp rfl)

/-- An object that no operation has for its target is left alone, as long as no
    call brings it. -/
theorem Stepped.free {p : ℕ} (h : Stepped P s ev s') (hwf : s.Wf)
    (hfree : ∀ op ∈ s.ctrl.live, op.target ≠ some p) (hok : ∀ c, ev = .send c → c.target ≠ some p) :
    (∀ op ∈ s'.ctrl.live, op.target ≠ some p) ∧ s'.host.cell p = s.host.cell p := by
  cases h with
  | skip | wait | start | clear => exact ⟨hfree, rfl⟩
  | @send c htick henq =>
    refine ⟨?_, rfl⟩
    intro op hop
    rw [mem_live] at hop
    simp only [Call.enqueued, List.mem_append, List.mem_singleton] at hop
    rcases hop with (hop | rfl) | hop
    · exact hfree op (mem_live.mpr (.inl hop))
    · have hsame : (c.memOp s.ctrl.nextPtr).target = c.target := by cases c <;> rfl
      rw [hsame]
      exact hok c rfl
    · exact hfree op (mem_live.mpr (.inr hop))
  | process htick hproc hfence =>
    cases hproc with
    | idle => exact ⟨hfree, rfl⟩
    | fence hcand hop =>
      refine ⟨?_, rfl⟩
      intro o ho
      rw [mem_live] at ho
      exact hfree o (mem_live.mpr (ho.imp_left fun h => (List.eraseIdx_sublist _ _).subset h))
    | @dispatch i op hcand hop hamo hpend =>
      refine ⟨?_, rfl⟩
      intro o ho
      rcases (hwf.ord.mem_live_dispatch hcand.slot).mp ho with ⟨ho, -⟩ | rfl
      · exact hfree o ho
      · rw [splitOp_target]
        exact hfree op (mem_live.mpr (.inl (List.mem_of_getElem? hcand.slot)))
  | @response r data ctrl host htick hr hresp =>
    have hne : ∀ {op : RevMemOp} {q : ℕ}, s.ctrl.outstanding.lookup r.id = some op →
        op.target = some q → p ≠ q := by
      rintro op q hop htgt rfl
      exact hfree op (mem_live.mpr (.inr ⟨_, mem_of_lookup hop⟩)) htgt
    cases hresp with
    | readPart hcls hreq hop htgt hlast =>
      exact ⟨fun o ho => hfree o (live_answered ho), copyResp_other _ _ (hne hop htgt) _⟩
    | readDone hcls hreq hop htgt hlast hflag hamo =>
      refine ⟨fun o ho => hfree o (live_answered ho), ?_⟩
      have hcell := handleFlagResp_other (q := p) (fun h => hne hop h rfl) hflag
      exact hcell.trans (copyResp_other _ _ (hne hop htgt) _)
    | @readAMO op p' q h' e hcls hreq hop htgt hlast hflag hamo hq =>
      have hoplive : op ∈ s.ctrl.live := mem_live.mpr (.inr ⟨_, mem_of_lookup hop⟩)
      have hmem : e ∈ s.ctrl.AMOTable := List.mem_of_find?_eq_some hamo
      obtain ⟨n, hn⟩ := hwf.ord.entry_eq hmem hoplive
        ((hwf.ord.isFor_iff hmem hoplive).mp (List.find?_some hamo))
      have hqtgt : op.target = some q := by
        rw [hn]
        exact hq
      refine ⟨?_, ?_⟩
      · intro o ho
        rw [mem_live] at ho
        simp only [List.mem_append, List.mem_singleton] at ho
        rcases ho with (ho | rfl) | ho
        · exact hfree o (mem_live.mpr (.inl ho))
        · simp [amoHalf, amoWriteOp]
        · exact hfree o (live_answered (k := r.id) (mem_live.mpr (.inr ho)))
      · have hcell := handleFlagResp_other (q := p) (fun h => hne hop h rfl) hflag
        rw [amoHost_other _ _ (hne hop hqtgt), hcell]
        exact copyResp_other _ _ (hne hop htgt) _
    | write hcls hreq hop =>
      refine ⟨fun o ho => hfree o (live_answered ho), ?_⟩
      simp only
      split <;> rfl
    | flush | custom => exact ⟨fun o ho => hfree o (live_answered ho), rfl⟩

/-- What has been delivered stays. -/
theorem Delivered.stepped (hs : s.Delivered mem f) (h : Stepped P s ev s')
    (hok : s.Spares mem f ev) : s'.Delivered mem f := by
  obtain ⟨hfree, hcell⟩ := h.free hs.wf hs.free (fun c hc => by rw [hc] at hok; exact hok)
  refine ⟨h.wf hs.wf, hfree, ?_⟩
  rw [hcell]
  exact hs.bytes

/-- A read that is sent while no operation has its target. -/
theorem Delivering.sent (hwf : s.Wf) (hfree : ∀ op ∈ s.ctrl.live, op.target ≠ some f.p)
    (hpos : 0 < f.n) {Hart PAddr : ℕ} (h : Stepped P s (.send (f.call Hart PAddr)) s') :
    s'.Delivering P mem f s.ctrl.nextPtr := by
  have hwf' := h.wf hwf
  cases h with
  | skip htick henq =>
    have hzero : (f.n != 0) = false := henq
    simp only [bne_eq_false_iff_eq] at hzero
    omega
  | send htick henq =>
    have hlt : ∀ op ∈ s.ctrl.live, op.seq < s.ctrl.nextPtr := fun op hop =>
      Nat.lt_of_le_of_lt (hwf.ord.seq_le hop) (hwf.ord.live_lt op hop)
    have hold : ∀ n ∈ s.ctrl.outstanding, n.2.seq ≠ s.ctrl.nextPtr := by
      intro n hn
      exact Nat.ne_of_lt (hlt n.2 (mem_live.mpr (.inr ⟨n.1, hn⟩)))
    refine ⟨hwf', ⟨Hart, PAddr, by simp⟩, ⟨(f.call Hart PAddr).memOp s.ctrl.nextPtr, ?_, by simp⟩,
      ?_, ?_, ?_, ?_⟩
    · exact mem_live.mpr (.inl (by simp [Call.enqueued]))
    · intro op hop htgt
      rw [mem_live] at hop
      simp only [Call.enqueued, List.mem_append, List.mem_singleton] at hop
      rcases hop with (hop | rfl) | hop
      · exact absurd htgt (hfree op (mem_live.mpr (.inl hop)))
      · simp
      · exact absurd htgt (hfree op (mem_live.mpr (.inr hop)))
    · intro r hr op hop hseq
      exact absurd hseq (hold _ hop)
    · intro n hn hseq
      exact absurd hseq (hold _ hn)
    · intro op hop hseq hnot
      rw [mem_live] at hop
      rcases hop with hop | ⟨id, hop⟩
      · exact absurd hop hnot
      · exact absurd hseq (hold _ hop)

end

end CtrlSys

end RevCPU
