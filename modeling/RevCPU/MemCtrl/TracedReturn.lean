import RevCPU.MemCtrl.TracedStep

namespace RevCPU

open Lib RevBasicMemCtrl

namespace Backed

variable {P : Params} {m₀ : ℕ → UInt8} {s : Backed} {r : StdRqst} {op : RevMemOp}
  {data : List UInt8}

/-- A value that is returned for a call: the bytes that the call has read. -/
def ReadBy (log : List Effect) (issued : List (ℕ × Call)) (x : ℕ × List UInt8) : Prop :=
  ∃ c, (x.1, c) ∈ issued ∧ x.2.length = c.Size ∧
    ∀ i < c.Size, logAt log false x.1 (c.Addr + i) = some (x.2.getD i 0)

/-- Whatever has been returned has been read by the call it is returned for. -/
def ReturnsRead (s : Backed) : Prop := ∀ x ∈ s.returned, ReadBy s.log s.sys.issued x

/-- The answer of a response is what its call has read. -/
theorem Traced.answers_readBy (hs : s.Traced P m₀)
    (hr : s.sys.ctrl.memIface.find? (fun x => x.id == r.id) = some r)
    (hop : s.sys.ctrl.outstanding.lookup r.id = some op)
    (hdone : s.done.lookup r.id = some data) {ctrl : RevBasicMemCtrl} {host : Host}
    (hresp : Responded s.sys.ctrl s.sys.host r data ctrl host) {x : ℕ × List UInt8}
    (hx : x ∈ s.answers op host) : ReadBy s.log s.sys.issued x := by
  have hmem : r ∈ s.sys.ctrl.memIface := List.mem_of_find?_eq_some hr
  have hout := mem_of_lookup hop
  have hoplive : op ∈ s.sys.ctrl.live := mem_live.mpr (.inr ⟨_, hout⟩)
  have hord := hs.flight.wf.ord
  have hans : Answered s r (s.responded r op ctrl host) := responded_answered hresp
  obtain ⟨hcls, hkind⟩ := hs.op_kind hr hop
  obtain ⟨c, hc, hstem, -, -, hfence, ht⟩ := hs.call hoplive (by rcases hkind with h | h <;> simp [h])
  obtain ⟨haddr, hsize, -⟩ := hstem.fields
  rw [answers, hs.lookup_issued hc] at hx
  simp only at hx
  split at hx
  swap
  · simp at hx
  rename_i hcond
  simp only [Bool.and_eq_true, beq_iff_eq] at hcond
  obtain ⟨hlast, hhalf⟩ := hcond
  obtain ⟨p, hp, rfl⟩ := List.mem_map.mp hx
  have htarget : c.target = some p := by simpa using hp
  have hread : readsBack r.cls = true → op.Op = .MemOpREAD := by
    intro hback
    rw [hcls] at hback
    exact hkind.resolve_right fun hw => by simp [hw, readsBack] at hback
  refine ⟨c, hc, by simp, ?_⟩
  intro i hi
  rw [Host.read_getD _ _ hi]
  simp only
  rw [← haddr]
  cases hresp with
  | readPart _ _ hop' _ hlast' =>
    obtain rfl := Option.some.inj (hop.symm.trans hop')
    simp [hlast'] at hlast
  | @readDone _ q h' hcls' _ hop' htgt _ hflag _ =>
    obtain rfl := Option.some.inj (hop.symm.trans hop')
    obtain ⟨hval, -⟩ := hs.last_arrived hans hmem hop hdone (hread hcls') htgt hlast hflag
    obtain ⟨c', hc', -, -, -, hq, -⟩ := hs.reading hoplive (hread hcls') htgt
    obtain rfl := hord.history_unique hc hc'
    obtain rfl : q = p := by simpa [hq] using htarget
    exact hval i (by omega)
  | @readAMO _ _ _ _ e hcls' _ hop' _ _ _ hamo _ =>
    obtain rfl := Option.some.inj (hop.symm.trans hop')
    have he := List.mem_of_find?_eq_some hamo
    have hfor : AMOEntry.isFor op e = true := List.find?_some hamo
    obtain ⟨n, hn⟩ := hord.entry_eq he hoplive ((hord.isFor_iff he hoplive).mp hfor)
    obtain ⟨c', hc', hisAMO⟩ := hord.entry_amo e he
    have hseq : op.seq = e.memop.seq := by rw [hn]
    rw [hseq] at hc
    obtain rfl := hord.history_unique hc hc'
    rw [hread hcls', hisAMO] at hhalf
    simp at hhalf
  | write hcls' _ hop' =>
    obtain rfl := Option.some.inj (hop.symm.trans hop')
    have hwrite : op.Op = .MemOpWRITE := by
      rw [hcls] at hcls'
      exact hkind.resolve_left fun hw => by simp [hw, writesBack] at hcls'
    have hamo : c.isAMO = true := by
      rw [hwrite] at hhalf
      simpa using hhalf.symm
    rw [(ht.half hwrite hamo p htarget).1 i (by omega)]
    split <;> rfl
  | flush hcls' => rcases hkind with hk | hk <;> simp [hcls, hk] at hcls'
  | custom hcls' => rcases hkind with hk | hk <;> simp [hcls, hk] at hcls'

theorem ReturnsRead.stepped (hs : s.Traced P m₀) (hret : s.ReturnsRead) {s' : Backed}
    {ev : BackedEvent} (h : Stepped P s ev s') : s'.ReturnsRead := by
  have hlog : ∀ e x, ReadBy s.log s.sys.issued x → ReadBy (s.log ++ [e]) s.sys.issued x := by
    rintro e x ⟨c, hc, hlen, hval⟩
    exact ⟨c, hc, hlen, fun i hi => logAt_concat_of_some e (hval i hi)⟩
  have hsys : ∀ {ev sys}, CtrlSys.Stepped P s.sys ev sys → ∀ x, ReadBy s.log s.sys.issued x →
      ReadBy s.log sys.issued x := by
    rintro ev sys hstep x ⟨c, hc, hread⟩
    refine ⟨c, ?_, hread⟩
    cases hstep with
    | send => exact List.mem_append.mpr (.inl hc)
    | _ => exact hc
  cases h with
  | send hplain hstep => exact fun x hx => hsys hstep x (hret x hx)
  | clockTick hstep => exact fun x hx => hsys hstep x (hret x hx)
  | processNextRqst hstep => exact fun x hx => hsys hstep x (hret x hx)
  | read => exact fun x hx => hlog _ x (hret x hx)
  | write => exact fun x hx => hlog _ x (hret x hx)
  | respond hr hop hdone htick hresp =>
    intro x hx
    rcases List.mem_append.mp hx with hx | hx
    · exact hret x hx
    · exact hs.answers_readBy hr hop hdone hresp hx

end Backed

end RevCPU
