import Mathlib.Data.Finset.Card
import RevCPU.MemCtrl.OrderedRun

namespace RevCPU

open Lib RevBasicMemCtrl

namespace RevBasicMemCtrl

variable {s s' : RevBasicMemCtrl} {mine : MemReq → Bool}

/-- The operations that have yet to mark a request of some kind complete, by
    their addresses. -/
def tickets (mine : MemReq → Bool) (s : RevBasicMemCtrl) : Finset ℕ :=
  ((s.live.filter fun op => mine op.procReq).map RevMemOp.ptr).toFinset

theorem mem_tickets {k : ℕ} :
    k ∈ s.tickets mine ↔ ∃ op ∈ s.live, mine op.procReq = true ∧ op.ptr = k := by
  simp only [tickets, List.mem_toFinset, List.mem_map, List.mem_filter]
  constructor
  · rintro ⟨op, ⟨hop, hmine⟩, hptr⟩
    exact ⟨op, hop, hmine, hptr⟩
  · rintro ⟨op, hop, hmine, hptr⟩
    exact ⟨op, ⟨hop, hmine⟩, hptr⟩

theorem tickets_subset
    (h : ∀ op ∈ s'.live, mine op.procReq = true →
      ∃ o ∈ s.live, o.procReq = op.procReq ∧ o.ptr = op.ptr) :
    s'.tickets mine ⊆ s.tickets mine := by
  intro k hk
  obtain ⟨op, hop, hmine, rfl⟩ := mem_tickets.mp hk
  obtain ⟨o, ho, hreq, hptr⟩ := h op hop hmine
  exact mem_tickets.mpr ⟨o, ho, by rw [hreq]; exact hmine, hptr⟩

/-- An operation that marks its request complete and goes gives up its ticket. -/
theorem tickets_card_lt {op : RevMemOp} (hop : op ∈ s.live) (hmine : mine op.procReq = true)
    (h : ∀ o ∈ s'.live, o ∈ s.live ∧ o.ptr ≠ op.ptr) :
    (s'.tickets mine).card < (s.tickets mine).card := by
  have hsub : s'.tickets mine ⊆ (s.tickets mine).erase op.ptr := by
    intro k hk
    obtain ⟨o, ho, hreq, rfl⟩ := mem_tickets.mp hk
    exact Finset.mem_erase.mpr ⟨(h o ho).2, mem_tickets.mpr ⟨o, (h o ho).1, hreq, rfl⟩⟩
  have hmem : op.ptr ∈ s.tickets mine := mem_tickets.mpr ⟨op, hop, hmine, rfl⟩
  calc (s'.tickets mine).card ≤ ((s.tickets mine).erase op.ptr).card := Finset.card_le_card hsub
    _ < (s.tickets mine).card := Finset.card_erase_lt_of_mem hmem

theorem extendTarget_completed {h h' : Host} {op : RevMemOp} {n : ℕ}
    {ext : BitVec (8 * n) → ℕ → BitVec (8 * n)} (hext : extendTarget h op n ext = some h') :
    h'.completed = h.completed := by
  unfold extendTarget at hext
  split at hext
  · obtain ⟨p, -, rfl⟩ := Option.map_eq_some_iff.mp hext
    rfl
  · simp at hext

theorem handleFlagResp_completed {h h' : Host} {op : RevMemOp}
    (hflag : handleFlagResp h op = some h') : h'.completed = h.completed := by
  unfold handleFlagResp at hflag
  split at hflag
  · exact extendTarget_completed hflag
  split at hflag
  · exact extendTarget_completed hflag
  split at hflag
  · exact extendTarget_completed hflag
  split at hflag
  · exact extendTarget_completed hflag
  split at hflag
  · obtain ⟨p, -, rfl⟩ := Option.map_eq_some_iff.mp hflag
    rfl
  · rw [Option.some.inj hflag]

theorem copyResp_completed (h : Host) (op : RevMemOp) (p : ℕ) (ev : ReadResp) :
    (copyResp h op p ev).completed = h.completed := by
  unfold copyResp
  split <;> rfl

theorem amoHost_completed (h : Host) (op : RevMemOp) (p : ℕ) :
    (amoHost h op p).completed = h.completed := by
  show (amoTarget h op p).completed = h.completed
  unfold amoTarget
  split <;> rfl

/-- What is live after a response was live before. -/
theorem live_answered {k : ℕ} {op : RevMemOp} (hop : op ∈ (s.answered k).live) : op ∈ s.live := by
  rw [mem_live] at hop ⊢
  rcases hop with hop | ⟨id, hop⟩
  · exact .inl hop
  · exact .inr ⟨id, List.mem_of_mem_eraseP hop⟩

/-- After its last response an operation is not live. -/
theorem live_last {issued : List (ℕ × Call)} (hs : s.Ordered issued) (hbook : s.Bookkeeping) {id : ℕ}
    {op : RevMemOp} (hop : s.outstanding.lookup id = some op) (hlast : s.lastResp op = true)
    {o : RevMemOp} (ho : o ∈ (s.answered id).live) : o.ptr ≠ op.ptr := by
  rw [mem_live] at ho
  rcases ho with ho | ⟨id', ho⟩
  · exact (hs.dispatched _ (mem_of_lookup hop) o ho).symm
  · exact hs.gone_of_lastResp hbook hop hlast _ ho

end RevBasicMemCtrl

namespace CtrlSys

variable {P : Params} {s s' : CtrlSys} {ev : Event} {mine : MemReq → Bool}

/-- What a step marks complete: nothing, or the request of an operation that
    goes. -/
theorem Stepped.completed (h : Stepped P s ev s') (hwf : s.Wf) :
    ∃ l, s'.host.completed = s.host.completed ++ l ∧
      (l = [] ∨ ∃ op ∈ s.ctrl.live, l = [op.procReq] ∧
        ∀ o ∈ s'.ctrl.live, o ∈ s.ctrl.live ∧ o.ptr ≠ op.ptr) := by
  cases h with
  | skip | wait | start | send | clear | process => exact ⟨[], by simp, .inl rfl⟩
  | @response r data ctrl host htick hr hresp =>
    cases hresp with
    | readPart => exact ⟨[], by simp [copyResp_completed], .inl rfl⟩
    | @readDone op p h' hcls hreq hop htgt hlast hflag hamo =>
      refine ⟨[op.procReq], ?_, .inr ⟨op, mem_live.mpr (.inr ⟨_, mem_of_lookup hop⟩), rfl, ?_⟩⟩
      · show h'.completed ++ [op.procReq] = _
        rw [handleFlagResp_completed hflag, copyResp_completed]
      · intro o ho
        exact ⟨live_answered ho, live_last hwf.ord hwf.book hop hlast ho⟩
    | @readAMO op p q h' e hcls hreq hop htgt hlast hflag hamo hq =>
      refine ⟨[], ?_, .inl rfl⟩
      simp [amoHost_completed, handleFlagResp_completed hflag, copyResp_completed]
    | @write op hcls hreq hop =>
      split
      · rename_i hdone
        rw [Bool.and_eq_true] at hdone
        refine ⟨[op.procReq], rfl, .inr ⟨op, mem_live.mpr (.inr ⟨_, mem_of_lookup hop⟩), rfl, ?_⟩⟩
        intro o ho
        exact ⟨live_answered ho, live_last hwf.ord hwf.book hop hdone.1 ho⟩
      · exact ⟨[], by simp, .inl rfl⟩
    | flush => exact ⟨[], by simp, .inl rfl⟩
    | custom => exact ⟨[], by simp, .inl rfl⟩

/-- The tickets of a kind of requests become fewer, unless a call brings one. -/
theorem Stepped.tickets_le (h : Stepped P s ev s') (hwf : s.Wf)
    (hsend : ∀ c, ev = .send c → mine (c.memOp 0).procReq = false) :
    (s'.ctrl.tickets mine).card ≤ (s.ctrl.tickets mine).card := by
  cases h with
  | skip | wait | start | clear => exact Nat.le_refl _
  | @send c htick henq =>
    refine Finset.card_le_card (tickets_subset ?_)
    intro op hop hmine
    rw [mem_live] at hop
    simp only [Call.enqueued, List.mem_append, List.mem_singleton] at hop
    rcases hop with (hop | rfl) | hop
    · exact ⟨op, mem_live.mpr (.inl hop), rfl, rfl⟩
    · have hnot := hsend c rfl
      have hsame : (c.memOp s.ctrl.nextPtr).procReq = (c.memOp 0).procReq := by cases c <;> rfl
      rw [hsame, hnot] at hmine
      exact absurd hmine (by simp)
    · exact ⟨op, mem_live.mpr (.inr hop), rfl, rfl⟩
  | process htick hproc hfence =>
    refine Finset.card_le_card (tickets_subset ?_)
    intro o ho hmine
    cases hproc with
    | idle => exact ⟨o, ho, rfl, rfl⟩
    | fence hcand hop =>
      refine ⟨o, ?_, rfl, rfl⟩
      rw [mem_live] at ho ⊢
      exact ho.imp_left fun h => (List.eraseIdx_sublist _ _).subset h
    | @dispatch i op hcand hop hamo hpend =>
      rcases (hwf.ord.mem_live_dispatch hcand.slot).mp ho with ⟨ho, -⟩ | rfl
      · exact ⟨o, ho, rfl, rfl⟩
      · exact ⟨op, mem_live.mpr (.inl (List.mem_of_getElem? hcand.slot)), by simp, by simp⟩
  | @response r data ctrl host htick hr hresp =>
    cases hresp with
    | readPart | readDone | write | flush | custom =>
      exact Finset.card_le_card (tickets_subset fun o ho _ => ⟨o, live_answered ho, rfl, rfl⟩)
    | @readAMO op p q h' e hcls hreq hop htgt hlast hflag hamo hq =>
      have hoplive : op ∈ s.ctrl.live := mem_live.mpr (.inr ⟨_, mem_of_lookup hop⟩)
      have hmem : e ∈ s.ctrl.AMOTable := List.mem_of_find?_eq_some hamo
      obtain ⟨n, hn⟩ := hwf.ord.entry_eq hmem hoplive
        ((hwf.ord.isFor_iff hmem hoplive).mp (List.find?_some hamo))
      have hreq : (amoHalf s.ctrl.nextPtr h' e.memop q).procReq = op.procReq := by
        rw [hn]
        rfl
      cases hmine : mine op.procReq with
      | false =>
        refine Finset.card_le_card (tickets_subset ?_)
        intro o ho hmine'
        rw [mem_live] at ho
        simp only [List.mem_append, List.mem_singleton] at ho
        rcases ho with (ho | rfl) | ho
        · exact ⟨o, mem_live.mpr (.inl ho), rfl, rfl⟩
        · rw [hreq, hmine] at hmine'
          exact absurd hmine' (by simp)
        · exact ⟨o, live_answered (k := r.id) (mem_live.mpr (.inr ho)), rfl, rfl⟩
      | true =>
        have hticket : op.ptr ∈ s.ctrl.tickets mine := mem_tickets.mpr ⟨op, hoplive, hmine, rfl⟩
        have hpos := Finset.card_pos.mpr ⟨_, hticket⟩
        refine (Finset.card_le_card (t := insert s.ctrl.nextPtr ((s.ctrl.tickets mine).erase op.ptr))
          ?_).trans ((Finset.card_insert_le _ _).trans ?_)
        · intro k hk
          obtain ⟨o, ho, hreq', rfl⟩ := mem_tickets.mp hk
          rw [mem_live] at ho
          simp only [List.mem_append, List.mem_singleton] at ho
          rw [Finset.mem_insert, Finset.mem_erase]
          have hold : o ∈ (s.ctrl.answered r.id).live → o.ptr ≠ op.ptr ∧ o.ptr ∈ s.ctrl.tickets mine :=
            fun ho => ⟨live_last hwf.ord hwf.book hop hlast ho,
              mem_tickets.mpr ⟨o, live_answered ho, hreq', rfl⟩⟩
          rcases ho with (ho | rfl) | ho
          · exact .inr (hold (mem_live.mpr (.inl ho)))
          · exact .inl rfl
          · exact .inr (hold (mem_live.mpr (.inr ho)))
        · rw [Finset.card_erase_of_mem hticket]
          omega

end CtrlSys

end RevCPU
