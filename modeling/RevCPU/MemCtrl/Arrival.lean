import RevCPU.MemCtrl.ReadBack

namespace RevCPU

open Lib

/-- A response of the memory. -/
inductive Arrival
  | read (ev : ReadResp)
  | write (id : ℕ)
  | flush (id : ℕ)
  | custom (id : ℕ)
  deriving DecidableEq, Repr

namespace Arrival

def id : Arrival → ℕ
  | read ev => ev.id
  | write id | flush id | custom id => id

/-- The response is to one of the read requests `ids`. -/
def own (ids : List ℕ) : Arrival → Option ReadResp
  | read ev => if ev.id ∈ ids then some ev else none
  | _ => none

end Arrival

namespace RevBasicMemCtrl

/-- The handler of a response. -/
def arrive (c : RevBasicMemCtrl × Host) : Arrival → Option (RevBasicMemCtrl × Host)
  | .read ev => c.1.handleReadResp c.2 ev
  | .write id => c.1.handleWriteResp c.2 id
  | .flush id => (c.1.handleFlushResp id).map fun s => (s, c.2)
  | .custom id => (c.1.handleCustomResp id).map fun s => (s, c.2)

/-- Objects that are not the target keep their bytes. -/
theorem handleFlagResp_other {h h' : Host} {op : RevMemOp} {q : ℕ} (hq : op.target ≠ some q)
    (hresp : handleFlagResp h op = some h') : h'.cell q = h.cell q := by
  have hext : ∀ (n : ℕ) (ext : BitVec (8 * n) → ℕ → BitVec (8 * n)),
      extendTarget h op n ext = some h' → h'.cell q = h.cell q := by
    intro n ext heq
    unfold extendTarget at heq
    split at heq
    · obtain ⟨p, hp, rfl⟩ := Option.map_eq_some_iff.mp heq
      have hne : q ≠ p := fun hqp => hq (hqp ▸ hp)
      exact funext fun i => h.store_other hne n i _
    · simp at heq
  unfold handleFlagResp at hresp
  split at hresp
  · exact hext 4 _ hresp
  split at hresp
  · exact hext 8 _ hresp
  split at hresp
  · exact hext 4 _ hresp
  split at hresp
  · exact hext 8 _ hresp
  split at hresp
  · obtain ⟨p, hp, rfl⟩ := Option.map_eq_some_iff.mp hresp
    have hne : q ≠ p := fun hqp => hq (hqp ▸ hp)
    exact funext fun i => h.store_other hne 8 i _
  · rw [Option.some.inj hresp]

theorem copyResp_other (h : Host) (op : RevMemOp) {p q : ℕ} (hne : q ≠ p) (ev : ReadResp) :
    (copyResp h op p ev).cell q = h.cell q := by
  funext i
  unfold copyResp
  split
  · exact h.write_other hne _ i _
  · exact h.write_other hne _ i _

/-- What the start of the write half of an AMO leaves alone. -/
structure Spared (s s' : RevBasicMemCtrl) (h h' : Host) (q : ℕ) : Prop where
  requests : s'.requests = s.requests
  outstanding : s'.outstanding = s.outstanding
  table : ∀ e ∈ s'.AMOTable, e ∈ s.AMOTable ∨ e.memop.target = none
  cell : h'.cell q = h.cell q

theorem performAMO_spared {s s' : RevBasicMemCtrl} {h h' : Host} {Tmp : RevMemOp} {q : ℕ}
    (hq : Tmp.target ≠ some q) (hperf : performAMO s h Tmp = some (s', h')) :
    Spared s s' h h' q := by
  unfold performAMO at hperf
  obtain ⟨p, hp, heq⟩ := Option.map_eq_some_iff.mp hperf
  simp only [Prod.mk.injEq] at heq
  obtain ⟨rfl, rfl⟩ := heq
  have hne : q ≠ p := fun hqp => hq (hqp ▸ hp)
  refine ⟨rfl, rfl, ?_, ?_⟩
  · intro e he
    simp only [push, List.mem_append, List.mem_singleton] at he
    rcases he with he | rfl
    · exact .inl he
    · exact .inr rfl
  · funext i
    rw [Host.write_other _ hne]
    unfold amoTarget
    split
    · exact h.store_other hne 4 i _
    · exact h.store_other hne 8 i _

theorem finishRead_spared {s s' : RevBasicMemCtrl} {h h' : Host} {op : RevMemOp} {isAMO : Bool}
    {q : ℕ} (hq : op.target ≠ some q)
    (htable : ∀ e ∈ s.AMOTable, AMOEntry.isFor op e = true → e.memop.target ≠ some q)
    (hfinish : finishRead s h op isAMO = some (s', h')) : Spared s s' h h' q := by
  unfold finishRead at hfinish
  split at hfinish
  · simp at hfinish
  · rename_i h₁ hflag
    have hcell := handleFlagResp_other hq hflag
    cases isAMO with
    | false =>
      simp only [Bool.false_eq_true, if_false, Option.some.injEq, Prod.mk.injEq] at hfinish
      obtain ⟨rfl, rfl⟩ := hfinish
      exact ⟨rfl, rfl, fun e he => .inl he, hcell⟩
    | true =>
      simp only [if_true] at hfinish
      unfold handleAMO at hfinish
      split at hfinish
      · simp only [Option.some.injEq, Prod.mk.injEq] at hfinish
        obtain ⟨rfl, rfl⟩ := hfinish
        exact ⟨rfl, rfl, fun e he => .inl he, hcell⟩
      · rename_i e hfind
        obtain ⟨⟨s₂, h₂⟩, hperf, heq⟩ := Option.map_eq_some_iff.mp hfinish
        simp only [Prod.mk.injEq] at heq
        obtain ⟨rfl, rfl⟩ := heq
        have hspared := performAMO_spared
          (htable e (List.mem_of_find?_eq_some hfind) (List.find?_some hfind)) hperf
        exact ⟨hspared.requests, hspared.outstanding,
          fun e he => hspared.table e (List.mem_of_mem_eraseP he), hspared.cell.trans hcell⟩

/-- What the response to a request leaves alone in an object that is not a
    target of its operation. -/
structure Elsewhere (s s' : RevBasicMemCtrl) (h h' : Host) (id q : ℕ) : Prop where
  requests : s'.requests = s.requests.erase id
  outstanding : s'.outstanding = s.outstanding.eraseP fun n => n.1 == id
  table : ∀ e ∈ s'.AMOTable, e ∈ s.AMOTable ∨ e.memop.target = none
  cell : h'.cell q = h.cell q

/-- The operation whose request is answered. -/
theorem arrive_lookup {s s' : RevBasicMemCtrl} {h h' : Host} {a : Arrival}
    (harr : arrive (s, h) a = some (s', h')) : ∃ op, s.outstanding.lookup a.id = some op := by
  cases a with
  | read ev =>
    simp only [arrive, handleReadResp] at harr
    split at harr
    · split at harr
      · simp at harr
      · rename_i op hop
        exact ⟨op, hop⟩
    · simp at harr
  | write id =>
    simp only [arrive, handleWriteResp] at harr
    split at harr
    · split at harr
      · simp at harr
      · rename_i op hop
        exact ⟨op, hop⟩
    · simp at harr
  | flush id =>
    simp only [arrive, handleFlushResp] at harr
    split at harr
    · simp only [Option.map_map] at harr
      obtain ⟨op, hop, -⟩ := Option.map_eq_some_iff.mp harr
      exact ⟨op, hop⟩
    · simp at harr
  | custom id =>
    simp only [arrive, handleCustomResp] at harr
    split at harr
    · simp only [Option.map_map] at harr
      obtain ⟨op, hop, -⟩ := Option.map_eq_some_iff.mp harr
      exact ⟨op, hop⟩
    · simp at harr

theorem arrive_elsewhere {s s' : RevBasicMemCtrl} {h h' : Host} {a : Arrival} {op : RevMemOp}
    {q : ℕ} (hop : s.outstanding.lookup a.id = some op) (hq : op.target ≠ some q)
    (htable : ∀ e ∈ s.AMOTable, AMOEntry.isFor op e = true → e.memop.target ≠ some q)
    (harr : arrive (s, h) a = some (s', h')) : Elsewhere s s' h h' a.id q := by
  cases a with
  | read ev =>
    simp only [Arrival.id] at hop
    simp only [arrive, handleReadResp, hop] at harr
    split at harr
    · split at harr
      · simp at harr
      · rename_i p hp
        have hcell := copyResp_other h op (fun hqp : q = p => hq (hqp ▸ hp)) ev
        obtain ⟨⟨s₁, h₁⟩, hres, heq⟩ := Option.map_eq_some_iff.mp harr
        simp only [Prod.mk.injEq] at heq
        obtain ⟨rfl, rfl⟩ := heq
        split at hres
        · simp only [Option.some.injEq, Prod.mk.injEq] at hres
          obtain ⟨rfl, rfl⟩ := hres
          exact ⟨rfl, rfl, fun e he => .inl he, hcell⟩
        · have hspared := finishRead_spared (s := { s with requests := s.requests.erase ev.id }) hq
            htable hres
          refine ⟨hspared.requests, ?_, hspared.table, hspared.cell.trans hcell⟩
          simp only [eraseOutstanding, hspared.outstanding, Arrival.id]
    · simp at harr
  | write id =>
    simp only [Arrival.id] at hop
    simp only [arrive, handleWriteResp, hop] at harr
    split at harr
    · simp only [Option.some.injEq, Prod.mk.injEq] at harr
      obtain ⟨rfl, rfl⟩ := harr
      refine ⟨rfl, rfl, fun e he => .inl (List.mem_of_mem_filter he), ?_⟩
      split
      · split <;> rfl
      · split <;> rfl
    · simp at harr
  | flush id =>
    simp only [Arrival.id] at hop
    simp only [arrive, handleFlushResp, hop] at harr
    split at harr
    · simp only [Option.map_some, Option.some.injEq, Prod.mk.injEq] at harr
      obtain ⟨rfl, rfl⟩ := harr
      exact ⟨rfl, rfl, fun e he => .inl he, rfl⟩
    · simp at harr
  | custom id =>
    simp only [Arrival.id] at hop
    simp only [arrive, handleCustomResp, hop] at harr
    split at harr
    · simp only [Option.map_some, Option.some.injEq, Prod.mk.injEq] at harr
      obtain ⟨rfl, rfl⟩ := harr
      exact ⟨rfl, rfl, fun e he => .inl he, rfl⟩
    · simp at harr

end RevBasicMemCtrl

end RevCPU
