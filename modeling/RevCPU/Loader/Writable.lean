import RevCPU.Loader.LineCalls
import RevCPU.Loader.Loaded
import RevCPU.Proc.StoreRequests

namespace RevCPU

open Lib

namespace RevMem

/-- The bytes of the memory; behind a controller they are those of `mem` after the
    requests of the queue. -/
def contents (m : RevMem) (mem : ℕ → UInt8) : ℕ → UInt8 :=
  match m.ctrl with
  | some ctrl => RevMemOp.applyStores mem ctrl.rqstQ
  | none => m.view

/-- The addresses can be written: they are valid, and there are frames for their
    pages. -/
structure Writable (m : RevMem) (V : ℕ → Prop) : Prop where
  table : { m with ctrl := none }.PageTableOk
  room : ∃ pages, m.HasRoom pages ∧ ∀ v, V v → v / pageSize ∈ pages
  valid : ∀ v, V v → m.isValidVirtAddr v = true
  pageNum : ∀ v, V v → v / pageSize < 2 ^ 32

theorem PageTableOk.noCtrl {m : RevMem} (h : m.PageTableOk) :
    { m with ctrl := none }.PageTableOk :=
  ⟨rfl, h.tops, h.frame_lt, h.frame_inj, h.tlb, h.fresh, h.inside⟩

section

variable {m : RevMem} {V : ℕ → Prop} {A L : ℕ}

theorem Writable.lt (h : m.Writable V) {v : ℕ} (hv : V v) : v + 1 < W64 :=
  h.table.valid_lt (h.valid v hv)

/-- A write without a controller. -/
theorem Writable.WriteMem_local (h : m.Writable V) (hctrl : m.ctrl = none) (hL : 0 < L)
    (hrange : ∀ v, A ≤ v → v < A + L → V v) (htwo : A % pageSize + L ≤ 2 * pageSize)
    (Data : List UInt8) :
    ∃ m', m.WriteMem 0 A L Data = some m' ∧ m'.ctrl = none ∧ m'.Writable V ∧
      ∀ v, m'.view v = if A ≤ v ∧ v < A + L then Data.getD (v - A) 0 else m.view v := by
  have hnone : { m with ctrl := none } = m := by
    rw [← hctrl]
  obtain ⟨htable, ⟨pages, hroom, hpages⟩, hvalid, hpage⟩ := h
  rw [hnone] at htable
  have hA : V A := hrange A (Nat.le_refl A) (by omega)
  have hlast : V (A + (L - 1)) := hrange _ (by omega) (by omega)
  have hok : m.RangeOk A L := by
    refine ⟨hvalid A hA, fun v hlow hhigh => hvalid v (hrange v hlow hhigh), htwo, ?_⟩
    intro hcross
    have hlt := hpage _ hlast
    simp only [pageSize] at *
    omega
  have hsub : rangePages A L ⊆ pages := by
    intro p hp
    rw [rangePages, Finset.mem_insert, Finset.mem_singleton] at hp
    rcases hp with rfl | rfl
    · exact hpages A hA
    · exact hpages _ hlast
  obtain ⟨m', hwrite, htable', hroom', hvalid', hview⟩ :=
    WriteMemFlags_view htable hroom hok hsub 0 Data .F_NONE
  refine ⟨m', hwrite, htable'.ctrl, ⟨htable'.noCtrl, ⟨pages, hroom', hpages⟩, ?_, hpage⟩, hview⟩
  intro v hv
  rw [hvalid']
  exact hvalid v hv

/-- The translation of a write on one page behind a controller. -/
theorem Writable.translate_ctrl (h : m.Writable V) {k : RevBasicMemCtrl} (hctrl : m.ctrl = some k)
    (hA : V A) (hone : A % pageSize + L ≤ pageSize) :
    ∃ r m', (m.RevokeFuture A).translate A L = some (r, none, m') ∧
      ∀ x, { m' with ctrl := x }.Writable V := by
  obtain ⟨htable, ⟨pages, hroom, hpages⟩, hvalid, hpage⟩ := h
  obtain ⟨f, m₁, htr, -, hmapped, hroom'⟩ := translate_inPage (htable.revoke A)
    (hroom.of_pageMap rfl rfl rfl) (hpages A hA) (hvalid A hA) hone (some k)
  have hsame : { { m with ctrl := none }.RevokeFuture A with ctrl := some k } =
      m.RevokeFuture A := by
    rw [← hctrl]
    rfl
  rw [hsame] at htr
  refine ⟨_, _, htr, fun x => ⟨hmapped.ok.noCtrl, ⟨pages, ?_, hpages⟩, ?_, hpage⟩⟩
  · exact hroom'.of_pageMap rfl rfl rfl
  · intro v hv
    have hkept := hmapped.valid_eq v
    exact hkept.trans (hvalid v hv)

/-- A write on one page behind a controller. -/
theorem Writable.WriteMem_ctrl (h : m.Writable V) {k : RevBasicMemCtrl} (hctrl : m.ctrl = some k)
    (hL : 0 < L) (hA : V A) (hone : A % pageSize + L ≤ pageSize) {Data : List UInt8}
    (hlen : Data.length = L) :
    ∃ m' k' op, m.WriteMem 0 A L Data = some m' ∧ m'.ctrl = some k' ∧ m'.Writable V ∧
      k'.rqstQ = k.rqstQ ++ [op] ∧ op.Addr = A ∧ op.membuf = Data := by
  obtain ⟨r, m₁, htr, hm₁⟩ := h.translate_ctrl hctrl hA hone
  have hsmall : L % 2 ^ 32 = L := by
    refine Nat.mod_eq_of_lt ?_
    simp only [pageSize] at hone
    omega
  obtain ⟨hqueue, -⟩ := sendWRITERequest_whole k 0 A r .F_NONE hlen hL []
  rw [List.append_nil] at hqueue
  refine ⟨_, _, wholeStore k 0 A r Data .F_NONE, WriteMemFlags_one hctrl htr Data, rfl, hm₁ _,
    ?_, rfl, rfl⟩
  rw [hsmall]
  exact hqueue

/-- What a write of the loader has to respect: two pages at most, and behind a
    controller one. -/
def Fits (m : RevMem) (A L : ℕ) : Prop :=
  A % pageSize + L ≤ 2 * pageSize ∧ (m.ctrl.isSome = true → A % pageSize + L ≤ pageSize)

/-- `writeFrom` of a part of a buffer is `WriteMem` of its bytes when the write takes
    no others. -/
theorem writeFrom_eq {m' : RevMem} {buf : List UInt8} {o : ℕ}
    (hbytes : ∀ r adj m₁, (m.RevokeFuture A).translate A L = some (r, adj, m₁) →
      m.bytesTaken L adj = L)
    (hwrite : m.WriteMem 0 A L ((buf.drop o).take L) = some m') :
    m.writeFrom A L (RevLoader.bufData buf) o = .ok m' := by
  unfold writeFrom
  cases htr : (m.RevokeFuture A).translate A L with
  | none =>
    rw [RevMem.WriteMem, WriteMemFlags, htr] at hwrite
    exact absurd hwrite (by simp)
  | some t =>
    obtain ⟨r, adj, m₁⟩ := t
    simp only [RevLoader.bufData, hbytes r adj m₁ htr, bind, Except.bind, hwrite]

/-- `WriteMem` of a part of a buffer of the loader stores the part. -/
theorem Writable.writeFrom (h : m.Writable V) (hL : 0 < L)
    (hrange : ∀ v, A ≤ v → v < A + L → V v) (hfits : m.Fits A L) {buf : List UInt8} {o : ℕ}
    (hlen : o + L ≤ buf.length) :
    ∃ m', m.writeFrom A L (RevLoader.bufData buf) o = .ok m' ∧ m'.Writable V ∧
      m'.ctrl.isSome = m.ctrl.isSome ∧
      ∀ mem, m'.contents mem = setBytes (m.contents mem) A ((buf.drop o).take L) := by
  have htaken : ((buf.drop o).take L).length = L := by
    rw [List.length_take, List.length_drop]
    omega
  cases hctrl : m.ctrl with
  | none =>
    obtain ⟨m', hwrite, hctrl', hm', hview⟩ :=
      h.WriteMem_local hctrl hL hrange hfits.1 ((buf.drop o).take L)
    refine ⟨m', writeFrom_eq ?_ hwrite, hm', by rw [hctrl'], ?_⟩
    · intro r adj m₁ _
      unfold bytesTaken
      cases adj with
      | none => rfl
      | some x => simp only [hctrl, Option.isSome_none, Bool.false_eq_true, if_false]
    · intro mem
      have hcontents : m.contents mem = m.view := by
        unfold contents
        rw [hctrl]
      have hcontents' : m'.contents mem = m'.view := by
        unfold contents
        rw [hctrl']
      rw [hcontents, hcontents']
      funext v
      rw [hview, setBytes, htaken]
  | some k =>
    have hone := hfits.2 (by rw [hctrl]; rfl)
    obtain ⟨m', k', op, hwrite, hctrl', hm', hqueue, haddr, hbuf⟩ :=
      h.WriteMem_ctrl hctrl hL (hrange A (Nat.le_refl A) (by omega)) hone htaken
    refine ⟨m', writeFrom_eq ?_ hwrite, hm', by rw [hctrl']; rfl, ?_⟩
    · intro r adj m₁ htr
      obtain ⟨r', m₂, hin, -⟩ :=
        h.translate_ctrl hctrl (hrange A (Nat.le_refl A) (by omega)) hone
      rw [htr, Option.some.injEq, Prod.mk.injEq, Prod.mk.injEq] at hin
      rw [hin.2.1]
      rfl
    · intro mem
      unfold contents
      rw [hctrl, hctrl']
      simp only [hqueue, RevMemOp.applyStores, List.foldl_append, List.foldl_cons, List.foldl_nil,
        haddr, hbuf]

theorem lineLen_le (hsize : 0 < L) {Addr Len : ℕ} (j : ℕ) : lineLen L Addr Len j ≤ L := by
  cases j with
  | zero =>
    rw [lineLen, firstLine]
    split <;> omega
  | succ j =>
    rw [lineLen, lineChunk]
    split <;> omega

/-- The writes of consecutive parts of a buffer store what is left of it. -/
theorem Writable.foldlM_write {buf : List UInt8} {cs : List LineCall} {o : ℕ} (ho : o ≤ buf.length)
    (htiles : Tiles (A + o) (cs.map fun c => (A + c.off, c.Len)) (A + buf.length))
    (haddr : ∀ c ∈ cs, c.Addr = A + c.off) (hrange : ∀ v, A ≤ v → v < A + buf.length → V v)
    {m : RevMem} (h : m.Writable V) (hfits : ∀ c ∈ cs, m.Fits c.Addr c.Len) :
    ∃ m', cs.foldlM (LineCall.write (RevLoader.bufData buf)) m = .ok m' ∧ m'.Writable V ∧
      m'.ctrl.isSome = m.ctrl.isSome ∧
      ∀ mem, m'.contents mem = setBytes (m.contents mem) (A + o) (buf.drop o) := by
  induction cs generalizing o m with
  | nil =>
    have hend : A + o = A + buf.length := htiles
    refine ⟨m, rfl, h, rfl, fun mem => ?_⟩
    rw [List.drop_of_length_le (by omega)]
    funext v
    rw [setBytes, if_neg (by simp)]
  | cons c cs ih =>
    simp only [List.map_cons, Tiles] at htiles
    obtain ⟨hoff, hpos, hrest⟩ := htiles
    obtain rfl : c.off = o := by omega
    have hle := hrest.le
    have hstart := haddr c List.mem_cons_self
    have hfit := hfits c List.mem_cons_self
    rw [hstart] at hfit
    obtain ⟨m₁, hwrite, hm₁, hsame, hstored⟩ :=
      h.writeFrom hpos (fun v hlow hhigh => hrange v (by omega) (by omega)) hfit
        (show c.off + c.Len ≤ buf.length by omega)
    obtain ⟨m', hfold, hm', hsame', hstored'⟩ := ih (o := c.off + c.Len) (by omega)
      (by rw [← Nat.add_assoc]; exact hrest) (fun c' hc' => haddr c' (List.mem_cons_of_mem c hc'))
      hm₁ fun c' hc' => by
        have hfit' := hfits c' (List.mem_cons_of_mem c hc')
        exact ⟨hfit'.1, by rw [hsame]; exact hfit'.2⟩
    refine ⟨m', ?_, hm', hsame'.trans hsame, fun mem => ?_⟩
    · rw [List.foldlM_cons, LineCall.write, hstart, hwrite]
      exact hfold
    · have hsplit : buf.drop c.off = (buf.drop c.off).take c.Len ++ buf.drop (c.off + c.Len) := by
        rw [← List.drop_drop, List.take_append_drop]
      have hlen : ((buf.drop c.off).take c.Len).length = c.Len := by
        rw [List.length_take, List.length_drop]
        omega
      rw [hstored', hstored, ← Nat.add_assoc, hsplit, setBytes_append, hlen, ← hsplit]

/-- `WriteCacheLine` of a buffer of the loader stores the buffer. -/
theorem Writable.WriteCacheLine (h : m.Writable V) (ctrlLineSize : ℕ) {buf : List UInt8}
    (hpos : 0 < buf.length) (hrange : ∀ v, A ≤ v → v < A + buf.length → V v)
    (hone : m.ctrl.isSome = true → A % pageSize + buf.length ≤ pageSize) :
    ∃ m', m.WriteCacheLine ctrlLineSize A buf.length (RevLoader.bufData buf) = .ok m' ∧
      m'.Writable V ∧ m'.ctrl.isSome = m.ctrl.isSome ∧
      ∀ mem, m'.contents mem = setBytes (m.contents mem) A buf := by
  obtain ⟨hcalls, -, htiles, hall⟩ :=
    WriteCacheLine_calls ctrlLineSize m A buf.length (RevLoader.bufData buf)
  have hlast := h.lt (hrange (A + (buf.length - 1)) (by omega) (by omega))
  have hstored := h.foldlM_write (Nat.zero_le _) htiles
    (fun c hc => (hall c hc).2.1 (by omega)) hrange ?_
  · rw [hcalls]
    exact hstored
  intro c hc
  obtain ⟨-, hend⟩ := htiles.bounds (List.mem_map_of_mem hc)
  have hoff := Nat.mod_lt A (by decide : 0 < pageSize)
  rw [(hall c hc).2.1 (by omega)]
  by_cases hctrl : m.ctrl.isSome = true
  · have hpage := hone hctrl
    have hin : (A + c.off) % pageSize + c.Len ≤ pageSize := by
      simp only [pageSize] at *
      omega
    exact ⟨by omega, fun _ => hin⟩
  · have hline : m.cacheLine ctrlLineSize = 64 := by
      simp only [cacheLine, getLineSize, if_neg hctrl]
      decide
    obtain ⟨j, -, rfl⟩ := List.mem_map.mp hc
    have hshort : lineLen 64 A buf.length j ≤ 64 := lineLen_le (by decide) j
    have hmod := Nat.mod_lt (A + lineOff 64 A buf.length j) (by decide : 0 < pageSize)
    rw [hline]
    refine ⟨?_, fun hsome => absurd hsome hctrl⟩
    simp only [pageSize] at *
    omega

end

end RevMem

end RevCPU
