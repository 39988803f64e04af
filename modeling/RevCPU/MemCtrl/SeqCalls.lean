import RevCPU.MemCtrl.TracedReturn

namespace RevCPU

open Lib RevBasicMemCtrl

namespace Call

/-- The address is one of the bytes that the call accesses. -/
def touches (c : Call) (a : ℕ) : Bool := decide (c.Addr ≤ a) && decide (a < c.Addr + c.Size)

theorem touches_iff {c : Call} {a : ℕ} : c.touches a = true ↔ c.Addr ≤ a ∧ a < c.Addr + c.Size := by
  simp [touches]

/-- The bytes that the call leaves in its range when it finds a memory. -/
def result (c : Call) (m : ℕ → UInt8) : List UInt8 :=
  if c.isAMO then amoNew c.flags c.Size (getBytes m c.Addr c.Size) c.operand
  else if c.writes then c.operand
  else getBytes m c.Addr c.Size

/-- The meaning of a call: all of it at once. -/
def run (c : Call) (m : ℕ → UInt8) : ℕ → UInt8 := setBytes m c.Addr (c.result m)

end Call

/-- The memory after calls one after another. -/
def runCalls (m : ℕ → UInt8) (calls : List (ℕ × Call)) : ℕ → UInt8 :=
  calls.foldl (fun m q => q.2.run m) m

/-- The numbered calls as operations of a sequential specification. -/
def callSpec (issued : List (ℕ × Call)) : SeqSpec ℕ ℕ UInt8 where
  range k a := (issued.lookup k).any fun c => c.touches a
  writes k := (issued.lookup k).any Call.writes
  new k m := ((issued.lookup k).map fun c => c.run m).getD m

section
variable {issued : List (ℕ × Call)} {k : ℕ} {c : Call}

theorem callSpec_range (h : issued.lookup k = some c) (a : ℕ) :
    (callSpec issued).range k a = c.touches a := by
  simp [callSpec, h]

theorem callSpec_writes (h : issued.lookup k = some c) : (callSpec issued).writes k = c.writes := by
  simp [callSpec, h]

theorem callSpec_new (h : issued.lookup k = some c) (m : ℕ → UInt8) :
    (callSpec issued).new k m = c.run m := by
  simp [callSpec, h]

theorem Call.result_length (hplain : c.plain = true) (m : ℕ → UInt8) : (c.result m).length = c.Size := by
  cases c <;> simp [Call.plain] at hplain <;>
    simp [Call.result, Call.isAMO, Call.writes, amoNew, Call.operand, Call.Size, Call.memOp]

theorem callSpec_step (h : issued.lookup k = some c) (hplain : c.plain = true) (m : ℕ → UInt8) :
    (callSpec issued).step m k = c.run m := by
  funext a
  rw [SeqSpec.step, callSpec_range h, callSpec_writes h, callSpec_new h]
  by_cases hin : c.Addr ≤ a ∧ a < c.Addr + c.Size
  · rw [Call.touches_iff.mpr hin, Bool.and_true]
    cases hw : c.writes with
    | true => rfl
    | false =>
      have hread : c.result m = getBytes m c.Addr c.Size := by
        cases c <;> simp_all [Call.result, Call.isAMO, Call.writes]
      rw [Call.run, setBytes, hread, getBytes_length, if_pos hin, getBytes_getD _ _ (by omega)]
      simp only [Bool.false_eq_true, if_false]
      congr 1
      omega
  · have hnot : c.touches a = false := by
      rw [Bool.eq_false_iff, ne_eq, Call.touches_iff]
      exact hin
    rw [hnot, Bool.and_false, Call.run, setBytes, Call.result_length hplain, if_neg hin]
    simp

theorem callSpec_mem {calls : List (ℕ × Call)}
    (hcalls : ∀ q ∈ calls, issued.lookup q.1 = some q.2 ∧ q.2.plain = true) (m : ℕ → UInt8) :
    (callSpec issued).mem m (calls.map Prod.fst) = runCalls m calls := by
  induction calls generalizing m with
  | nil => rfl
  | cons q calls ih =>
    obtain ⟨hlook, hplain⟩ := hcalls q (by simp)
    have hstep := callSpec_step hlook hplain m
    calc (callSpec issued).mem m ((q :: calls).map Prod.fst)
        = (callSpec issued).mem ((callSpec issued).step m q.1) (calls.map Prod.fst) := rfl
      _ = runCalls (q.2.run m) calls := by rw [hstep, ih fun q' hq' => hcalls q' (by simp [hq'])]
      _ = runCalls m (q :: calls) := rfl

end

theorem exists_of_logAt {log : List Effect} {write : Bool} {k a : ℕ} {v : UInt8}
    (h : logAt log write k a = some v) :
    ∃ e ∈ log, e.seq = k ∧ e.write = write ∧ e.covers a = true ∧ e.val a = v := by
  unfold logAt at h
  obtain ⟨e, he, hval⟩ := Option.map_eq_some_iff.mp h
  have hcond := List.find?_some he
  simp only [Bool.and_eq_true, beq_iff_eq] at hcond
  exact ⟨e, List.mem_of_find?_eq_some he, hcond.1.1, hcond.1.2, hcond.2, hval⟩

theorem logAt_ne_none {log : List Effect} {write : Bool} {k a : ℕ} :
    logAt log write k a ≠ none ↔ ∃ e ∈ log, e.seq = k ∧ e.write = write ∧ e.covers a = true := by
  constructor
  · intro h
    obtain ⟨v, hv⟩ := Option.ne_none_iff_exists'.mp h
    obtain ⟨e, he, hseq, hwrite, hcov, -⟩ := exists_of_logAt hv
    exact ⟨e, he, hseq, hwrite, hcov⟩
  · rintro ⟨e, he, hseq, hwrite, hcov⟩ hnone
    unfold logAt at hnone
    rw [Option.map_eq_none_iff, List.find?_eq_none] at hnone
    exact hnone e he (by simp [hseq, hwrite, hcov])

namespace Backed

/-- An operation has finished at an address when the log has its last effect
    there. -/
theorem finishedAt_iff {issued : List (ℕ × Call)} {k : ℕ} {c : Call} (h : issued.lookup k = some c)
    (log : List Effect) (a : ℕ) :
    (callSpec issued).FinishedAt (log.map Effect.access) k a ↔ logAt log c.writes k a ≠ none := by
  rw [logAt_ne_none, SeqSpec.FinishedAt, callSpec_writes h]
  simp [Effect.access]

/-- An effect of its call is in its place if the older ones are. -/
theorem Logged.inPlace {m₀ : ℕ → UInt8} {issued : List (ℕ × Call)} {c : Call} {l : List Effect}
    {e : Effect} (hlogged : Logged m₀ c l e) (hlook : issued.lookup e.seq = some c)
    (hplain : c.plain = true) {ord : List ℕ} (hmem : e.seq ∈ ord)
    (holder : ∀ l₁ l₂, ord = l₁ ++ e.seq :: l₂ → ∀ j ∈ l₁, ∀ a, e.covers a = true →
      (callSpec issued).range j a = true →
        (callSpec issued).FinishedAt (l.map Effect.access) j a) :
    (callSpec issued).InPlace m₀ ord (l.map Effect.access) e.access := by
  refine ⟨hmem, ?_, ?_, hlogged.read, ?_, holder⟩
  · intro a ha
    exact (callSpec_range hlook a).trans (Call.touches_iff.mpr (hlogged.inside a ha))
  · intro a ha hfinished
    have hfin := (finishedAt_iff hlook l a).mp hfinished
    obtain ⟨hsame, hwrite⟩ := hlogged.fresh a ha
    cases hw : c.writes with
    | true => exact hfin (by rw [hw]; exact hwrite)
    | false =>
      have hread : e.write = false := by
        by_contra hnot
        have hwrites := hlogged.kind.1 (by simpa using hnot)
        simp [hw] at hwrites
      rw [hread] at hsame
      exact hfin (by rw [hw]; exact hsame)
  · intro hwrite
    have hwrites := hlogged.kind.1 hwrite
    refine ⟨by rw [← hwrites]; exact callSpec_writes hlook, ?_⟩
    intro ρ hρ a ha
    obtain ⟨hlow, hhigh⟩ := hlogged.inside a ha
    have hval : e.val a = (c.result ρ).getD (a - c.Addr) 0 := by
      cases hamo : c.isAMO with
      | false =>
        rw [hlogged.write hwrite hamo a ha, Call.result]
        simp [hamo, hwrites]
      | true =>
        obtain ⟨old, hlen, hold, hnew⟩ := hlogged.amo hwrite hamo
        have heq : getBytes ρ c.Addr c.Size = old := by
          refine List.ext_getElem (by simp [hlen]) ?_
          intro i hi hi'
          obtain ⟨e', he', hseq, hread, hcov, hv⟩ := exists_of_logAt (hold i (by simpa using hi))
          have hagree := hρ e'.access (List.mem_map.mpr ⟨e', he', rfl⟩) hseq hread _ hcov
          have hget : (getBytes ρ c.Addr c.Size)[i] = ρ (c.Addr + i) := by simp [getBytes]
          rw [hget, hagree]
          change e'.val _ = _
          rw [hv]
          simp [List.getElem?_eq_getElem hi']
        rw [hnew a ha, Call.result, if_pos hamo, heq]
    change e.val a = (callSpec issued).new e.seq ρ a
    rw [callSpec_new hlook, Call.run, setBytes, Call.result_length hplain, if_pos ⟨hlow, hhigh⟩, hval]

section
variable {P : Params} {m₀ : ℕ → UInt8} {s : Backed}

/-- Once everything is answered a call has had all its effects. -/
theorem Traced.finished (hs : s.Traced P m₀) (hdrained : s.Drained) {k : ℕ} {c : Call}
    (hc : (k, c) ∈ s.sys.issued) (hfence : c.isFence = false) : Retired s.log s.returned k c := by
  refine hs.retired k c hc hfence ?_
  intro op hop
  rw [mem_live, hdrained.1, hdrained.2] at hop
  simp at hop

/-- A serial order of calls determines what its loads and AMOs return: the
    bytes that they find after the calls before them. -/
theorem Traced.returned_iff (hs : s.Traced P m₀) (hret : s.ReturnsRead) (hdrained : s.Drained)
    {calls : List (ℕ × Call)} (hcalls : ∀ q ∈ calls, q ∈ s.sys.issued)
    (hnodup : (calls.map Prod.fst).Nodup) {log : List Effect}
    (hlog : ∀ e ∈ s.log, e.seq ∈ calls.map Prod.fst → e ∈ log)
    (hserial : (callSpec s.sys.issued).Serial m₀ (calls.map Prod.fst) (log.map Effect.access))
    {l₁ l₂ : List (ℕ × Call)} {k : ℕ} {c : Call} (hsplit : calls = l₁ ++ (k, c) :: l₂)
    (hreads : c.reads = true) (v : List UInt8) :
    (k, v) ∈ s.returned ↔ v = getBytes (runCalls m₀ l₁) c.Addr c.Size := by
  have hc : (k, c) ∈ s.sys.issued := hcalls _ (by simp [hsplit])
  have hbefore : (callSpec s.sys.issued).mem m₀ (l₁.map Prod.fst) = runCalls m₀ l₁ := by
    refine callSpec_mem ?_ m₀
    intro q hq
    have hq' := hcalls q (by simp [hsplit, hq])
    exact ⟨hs.lookup_issued hq', (hs.flight.calls q hq').1⟩
  have hfound : ∀ i < c.Size, ∀ x, logAt s.log false k (c.Addr + i) = some x →
      x = runCalls m₀ l₁ (c.Addr + i) := by
    intro i hi x hx
    obtain ⟨e, he, hseq, hread, hcov, hval⟩ := exists_of_logAt hx
    have hmem : e.access ∈ log.map Effect.access := by
      refine List.mem_map.mpr ⟨e, hlog e he ?_, rfl⟩
      simp [hsplit, hseq]
    have heq := (SeqSpec.Serial.after_eq _ hserial hnodup).2 e.access hmem hread (l₁.map Prod.fst)
      (l₂.map Prod.fst) (by simp [hsplit, Effect.access, hseq]) _ hcov
    rw [hbefore] at heq
    rw [← hval]
    exact heq
  have honly : ∀ w, (k, w) ∈ s.returned → w = getBytes (runCalls m₀ l₁) c.Addr c.Size := by
    intro w hw
    obtain ⟨c', hc', hlen, hread⟩ := hret _ hw
    obtain rfl := hs.flight.wf.ord.history_unique hc hc'
    refine List.ext_getElem (by simpa using hlen) ?_
    intro i hi hi'
    have hlt : i < c.Size := by simpa using hi'
    have hbyte := hfound i hlt _ (hread i hlt)
    simpa [getBytes, List.getElem?_eq_getElem hi] using hbyte
  refine ⟨honly v, ?_⟩
  rintro rfl
  have hfence : c.isFence = false := by
    cases c <;> simp [Call.reads] at hreads <;> rfl
  obtain ⟨old, hold, -⟩ := (hs.finished hdrained hc hfence).value hreads
  rwa [← honly old hold]

end

end Backed

end RevCPU
