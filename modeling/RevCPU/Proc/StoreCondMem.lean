import RevCPU.Proc.StoreCond

namespace RevCPU

open Lib

namespace RevMem

theorem translate_ctrl (m : RevMem) (x : Option RevBasicMemCtrl) (A L : ℕ) :
    { m with ctrl := x }.translate A L =
      (m.translate A L).map fun t => (t.1, t.2.1, { t.2.2 with ctrl := x }) := by
  unfold translate
  simp only [CalcPhysAddr_ctrl]
  cases m.CalcPhysAddr (A / pageSize) A with
  | none => rfl
  | some t =>
    obtain ⟨p, m₁⟩ := t
    have hpage : { m₁ with ctrl := x }.pageAt (A / pageSize) =
        ((m₁.pageAt (A / pageSize)).1, { (m₁.pageAt (A / pageSize)).2 with ctrl := x }) := by
      unfold pageAt
      cases m₁.pageMap.lookup (A / pageSize) <;> rfl
    simp only [Option.map_some, hpage]
    split
    · rw [CalcPhysAddr_ctrl]
      cases (m₁.pageAt (A / pageSize)).2.CalcPhysAddr _ _ <;> rfl
    · rfl

/-- With a controller a write sends one request, or two when it walks off the
    page. -/
theorem WriteMemFlags_sends {m m' : RevMem} {k : RevBasicMemCtrl} {Hart A n : ℕ}
    {Data : List UInt8} {flags : RevFlag} (hctrl : m.ctrl = some k)
    (hn : n < 2 ^ 32) (hwrite : m.WriteMemFlags Hart A n Data flags = some m') :
    (∃ p, m'.ctrl = some (k.sendWRITERequest Hart A p n Data flags)) ∨
      ∃ p q tail, m'.ctrl = some ((k.sendWRITERequest Hart A p n Data flags).sendWRITERequest
        Hart A q n tail flags) := by
  have hsame : { m.RevokeFuture A with ctrl := some k } = m.RevokeFuture A := by
    rw [← hctrl]
    rfl
  have htr := translate_ctrl (m.RevokeFuture A) (some k) A n
  rw [hsame] at htr
  unfold WriteMemFlags at hwrite
  rw [htr, Nat.mod_eq_of_lt hn] at hwrite
  cases hres : (m.RevokeFuture A).translate A n with
  | none => simp [hres] at hwrite
  | some t =>
    obtain ⟨p, adj, m₁⟩ := t
    cases adj with
    | none =>
      simp only [hres, Option.map_some, Option.some.injEq] at hwrite
      exact .inl ⟨p, by rw [← hwrite]⟩
    | some sp =>
      simp only [hres, Option.map_some, Option.some.injEq] at hwrite
      exact .inr ⟨p, sp.2, Data.drop (headLen n sp.1), by rw [← hwrite]⟩

section
variable {D : RevMem} (hok : D.PageTableOk) {A n : ℕ} (hrange : D.RangeOk A n)
  (hroom : D.HasRoom (rangePages A n)) (LRSC : List Reservation) (Hart : ℕ) (Data : List UInt8)
  (flags : RevFlag)
include hok hrange hroom

/-- It sends one exactly when it stays on its page. -/
theorem WriteMemFlags_ctrl (k : RevBasicMemCtrl) :
    ∃ m', { D with LRSC, ctrl := some k }.WriteMemFlags Hart A n Data flags = some m' ∧
      (A % pageSize + n ≤ pageSize ∧
          (∃ p, m'.ctrl = some (k.sendWRITERequest Hart A p n Data flags)) ∨
        pageSize < A % pageSize + n ∧ ∃ p q tail, m'.ctrl =
          some ((k.sendWRITERequest Hart A p n Data flags).sendWRITERequest
            Hart A q n tail flags)) := by
  have hrevoked : ({ D with LRSC }.RevokeFuture A).PageTableOk :=
    ⟨hok.ctrl, hok.tops, hok.frame_lt, hok.frame_inj, hok.tlb, hok.fresh, hok.inside⟩
  obtain ⟨f, adj, m₁, htr, -, -, -, hcase⟩ := translate_mapped hrevoked
    (hroom.of_pageMap rfl rfl rfl) (hrange.congr fun _ => rfl) (Finset.Subset.refl _)
  have hctrl := translate_ctrl ({ D with LRSC }.RevokeFuture A) (some k) A n
  rw [htr] at hctrl
  have hn : n % 2 ^ 32 = n := by
    have htwo := hrange.twoPages
    refine Nat.mod_eq_of_lt ?_
    unfold pageSize at htwo
    omega
  unfold WriteMemFlags
  rw [hn]
  rcases hcase with ⟨hone, rfl⟩ | ⟨span, q, g, rfl, hpos, hspan, -, -⟩
  · refine ⟨{ m₁ with ctrl := some (k.sendWRITERequest Hart A (f * pageSize + A % pageSize) n Data
      flags) }, ?_, .inl ⟨hone, _, rfl⟩⟩
    simp only [RevokeFuture, Option.map_some] at hctrl ⊢
    rw [hctrl]
  · refine ⟨{ m₁ with ctrl := some ((k.sendWRITERequest Hart A (f * pageSize + A % pageSize) n Data
      flags).sendWRITERequest Hart A q n (Data.drop (headLen n span)) flags) }, ?_,
      .inr ⟨by omega, _, _, _, rfl⟩⟩
    simp only [RevokeFuture, Option.map_some] at hctrl ⊢
    rw [hctrl]

/-- Without a controller the bytes are in the memory. -/
theorem WriteMemFlags_local (hlen : Data.length = n) :
    ∃ m', { D with LRSC, ctrl := none }.WriteMemFlags Hart A n Data flags = some m' ∧
      m'.ctrl = none ∧ m'.view = setBytes D.view A Data := by
  have hsame : { D with LRSC, ctrl := none } = { D with LRSC } := by rw [← hok.ctrl]
  have hok' : { D with LRSC }.PageTableOk :=
    ⟨hok.ctrl, hok.tops, hok.frame_lt, hok.frame_inj, hok.tlb, hok.fresh, hok.inside⟩
  rw [hsame]
  obtain ⟨m', hwrite, hok₁, -, -, hview⟩ := WriteMemFlags_view hok' (hroom.of_pageMap rfl rfl rfl)
    (hrange.congr fun _ => rfl) (Finset.Subset.refl _) Hart Data flags
  refine ⟨m', hwrite, hok₁.ctrl, funext fun v => ?_⟩
  rw [hview, setBytes, hlen]
  rfl

end

end RevMem

namespace RevBasicMemCtrl

section
variable {k : RevBasicMemCtrl} {Hart A p n : ℕ} {b : List UInt8} {flags : RevFlag}

theorem sendWRITERequest_queue (hn : 0 < n) :
    (k.sendWRITERequest Hart A p n b flags).rqstQ = k.rqstQ ++
      [{ ptr := k.nextPtr, seq := k.nextPtr, Hart, Addr := A, PAddr := p, Size := n,
         Op := .MemOpWRITE, flags, membuf := copyBuf b n }] := by
  rw [sendWRITERequest, if_neg (by omega)]
  rfl

theorem sendWRITERequest_ne (hn : 0 < n) : k.sendWRITERequest Hart A p n b flags ≠ k := by
  intro heq
  have hlen := congrArg (fun k => k.rqstQ.length) heq
  simp [sendWRITERequest_queue hn] at hlen

/-- A request tells its address and its bytes. -/
theorem sendWRITERequest_inj {A' p' : ℕ} {b' : List UInt8} {flags' : RevFlag} (hn : 0 < n)
    (hb : b.length = n) (hb' : b'.length = n)
    (heq : k.sendWRITERequest Hart A p n b flags = k.sendWRITERequest Hart A' p' n b' flags') :
    A = A' ∧ b = b' := by
  have hqueue := congrArg (fun k => k.rqstQ) heq
  simp only [sendWRITERequest_queue hn, List.append_cancel_left_eq, List.cons.injEq,
    RevMemOp.mk.injEq, copyBuf_of_length hb, copyBuf_of_length hb'] at hqueue
  exact ⟨by tauto, by tauto⟩

theorem sendWRITERequest_twice_ne {A' p' q : ℕ} {b' tail : List UInt8} {flags' : RevFlag}
    (hn : 0 < n) :
    (k.sendWRITERequest Hart A p n b flags).sendWRITERequest Hart A q n tail flags ≠
      k.sendWRITERequest Hart A' p' n b' flags' := by
  intro heq
  have hlen := congrArg (fun k => k.rqstQ.length) heq
  simp [sendWRITERequest_queue hn] at hlen

theorem sendWRITERequest_twice_ne_self {q : ℕ} {tail : List UInt8} (hn : 0 < n) :
    (k.sendWRITERequest Hart A p n b flags).sendWRITERequest Hart A q n tail flags ≠ k := by
  intro heq
  have hlen := congrArg (fun k => k.rqstQ.length) heq
  simp [sendWRITERequest_queue hn] at hlen

end

end RevBasicMemCtrl

namespace RevMem

/-- A memory without pages and with one segment. -/
def segment (A n : ℕ) : RevMem :=
  { memSize := 2 * pageSize, maxHeapSize := pageSize, ThreadMemSize := STACK_SIZE,
    NextThreadMemAddr := 2 * pageSize, MemSegs := [MemSegment.new A n false] }

section
variable {A n : ℕ}

theorem segment_ok (hA : A + n < W64) : (segment A n).PageTableOk := by
  refine ⟨rfl, ?_, by simp [segment], by simp [segment], by simp [segment], fun _ _ => rfl,
    ⟨Nat.zero_le _, by simp [segment]⟩⟩
  intro x hx
  simp only [segment, List.append_nil, List.mem_singleton] at hx
  rw [hx, MemSegment.new, Nat.mod_eq_of_lt hA]
  exact hA

theorem segment_valid (hA : A + n < W64) (v : ℕ) :
    (segment A n).isValidVirtAddr v = true ↔ A ≤ v ∧ v < A + n := by
  simp [isValidVirtAddr, segment, MemSegment.contains, MemSegment.new, Nat.mod_eq_of_lt hA]

theorem segment_range {m : ℕ} (hA : CondInst.Addressable A m) (hm : 0 < m) (hmn : m ≤ n)
    (hpage : m ≤ pageSize) (hend : A + n < W64) : (segment A n).RangeOk A m := by
  have hmod := Nat.mod_lt A (by decide : 0 < pageSize)
  refine ⟨?_, ?_, by omega, hA.2⟩
  · rw [segment_valid hend]
    omega
  · intro v hlow hhigh
    rw [segment_valid hend]
    omega

theorem segment_room (pages : Finset ℕ) (hcard : pages.card ≤ 2) : (segment A n).HasRoom pages := by
  have hle := (Finset.card_filter_le pages
    fun p => (segment A n).pageMap.lookup p = none).trans hcard
  have hmax : 2 ≤ maxFrames := by decide
  unfold HasRoom
  simp only [segment] at *
  refine ⟨by omega, Nat.mul_le_mul_right _ (by omega)⟩

theorem rangePages_card (A n : ℕ) : (rangePages A n).card ≤ 2 := Finset.card_le_two

/-- An address outside the segment faults. -/
theorem segment_fault (hA : A + n < W64) {v : ℕ} (hv : ¬(A ≤ v ∧ v < A + n))
    (LRSC : List Reservation) (x : Option RevBasicMemCtrl) (Hart Len : ℕ) (Data : List UInt8)
    (flags : RevFlag) :
    { segment A n with LRSC, ctrl := x }.WriteMemFlags Hart v Len Data flags = none := by
  have hinvalid : (segment A n).isValidVirtAddr v = false := by
    rw [Bool.eq_false_iff]
    exact fun h => hv ((segment_valid hA v).mp h)
  have hcalc : ({ segment A n with LRSC, ctrl := x }.RevokeFuture v).CalcPhysAddr (v / pageSize) v =
      none := by
    unfold CalcPhysAddr
    have hsearch : ({ segment A n with LRSC, ctrl := x }.RevokeFuture v).SearchTLB v =
      (INVALID_ADDR, { segment A n with LRSC, ctrl := x }.RevokeFuture v) := rfl
    simp only [hsearch, if_true]
    exact if_neg (Bool.eq_false_iff.mp hinvalid)
  unfold WriteMemFlags translate
  simp only [hcalc]

/-- A memory whose first bytes have one value. -/
theorem exists_filled (hn : 0 < n) (hpage : n ≤ pageSize) (b : UInt8) :
    ∃ D : RevMem, D.PageTableOk ∧ D.HasRoom {0} ∧ (∀ v, v < n → D.isValidVirtAddr v = true) ∧
      ∀ v, v < n → D.view v = b := by
  have hend : 0 + n < W64 := by
    unfold pageSize at hpage
    unfold W64
    omega
  have hlast : (0 + (n - 1)) / pageSize = 0 := Nat.div_eq_of_lt (by omega)
  have hpages : rangePages 0 n = {0} := by
    rw [rangePages, hlast, Nat.zero_div, Finset.pair_eq_singleton]
  obtain ⟨D, -, hok, hroom, hvalid, hview⟩ := WriteMemFlags_view (segment_ok hend)
    (segment_room {0} (by simp))
    (segment_range ⟨hend, fun h => absurd h (by rw [Nat.zero_mod]; omega)⟩ hn le_rfl hpage hend) hpages.subset 0
    (List.replicate n b) .F_NONE
  refine ⟨D, hok, hroom, ?_, ?_⟩
  · intro v hv
    rw [hvalid, segment_valid hend]
    omega
  · intro v hv
    rw [hview, if_pos (by omega)]
    simp [List.getD_eq_getElem?_getD, hv]

end

end RevMem

end RevCPU
