import RevCPU.Mem.PageTable

namespace RevCPU.RevMem

open Lib

/-- A range that the access routines can serve: valid from its first byte on,
    in at most two pages, the second of which has a 32-bit number. -/
structure RangeOk (m : RevMem) (A L : ℕ) : Prop where
  start : m.isValidVirtAddr A = true
  valid : ∀ v, A ≤ v → v < A + L → m.isValidVirtAddr v = true
  twoPages : A % pageSize + L ≤ 2 * pageSize
  pageNum : pageSize < A % pageSize + L → A / pageSize + 1 < 2 ^ 32

/-- The pages of the first and the last byte of a range. -/
def rangePages (A L : ℕ) : Finset ℕ := {A / pageSize, (A + (L - 1)) / pageSize}

theorem RangeOk.congr {m m' : RevMem} {A L : ℕ} (h : m.RangeOk A L)
    (hvalid : ∀ v, m'.isValidVirtAddr v = m.isValidVirtAddr v) : m'.RangeOk A L := by
  refine ⟨?_, ?_, h.twoPages, h.pageNum⟩
  · rw [hvalid]
    exact h.start
  · intro v hlow hhigh
    rw [hvalid]
    exact h.valid v hlow hhigh

theorem PageTableOk.valid_lt {m : RevMem} (h : m.PageTableOk) {v : ℕ}
    (hvalid : m.isValidVirtAddr v = true) : v + 1 < W64 := by
  simp only [isValidVirtAddr, Bool.or_eq_true, List.any_eq_true, MemSegment.contains,
    Bool.and_eq_true, decide_eq_true_eq] at hvalid
  rcases hvalid with ⟨x, hx, -, hlt⟩ | ⟨x, hx, -, hlt⟩
  · have htop := h.tops x (by simp [hx])
    omega
  · have htop := h.tops x (by simp [hx])
    omega

theorem RangeOk.end_lt {m : RevMem} {A L : ℕ} (h : m.RangeOk A L) (hok : m.PageTableOk) :
    A + L < W64 := by
  have hstart := hok.valid_lt h.start
  by_cases hL : L = 0
  · omega
  · have hlast := hok.valid_lt (h.valid (A + (L - 1)) (by omega) (by omega))
    omega

theorem pageAt_of_lookup {m : RevMem} {p f : ℕ} (h : m.pageMap.lookup p = some f) :
    m.pageAt p = (f, m) := by
  simp [pageAt, h]

/-- Where `translate` puts a range: at the frame of its first page and, from the
    end of that page on, at the frame of the next one. -/
theorem translate_mapped {m : RevMem} (h : m.PageTableOk) {pages : Finset ℕ}
    (hroom : m.HasRoom pages) {A L : ℕ} (hrange : m.RangeOk A L)
    (hpages : rangePages A L ⊆ pages) :
    ∃ f adj m', m.translate A L = some (f * pageSize + A % pageSize, adj, m') ∧
      m'.pageMap.lookup (A / pageSize) = some f ∧ Mapped m m' ∧ m'.HasRoom pages ∧
      ((A % pageSize + L ≤ pageSize ∧ adj = none) ∨
       ∃ span q g, adj = some (span, q) ∧ 0 < span ∧ A % pageSize + L = pageSize + span ∧
          q = g * pageSize ∧ m'.pageMap.lookup (A / pageSize + 1) = some g) := by
  have hp : A / pageSize ∈ pages := hpages (by simp [rangePages])
  obtain ⟨f, m₁, hcalc, hf, hmapped, hroom₁⟩ := CalcPhysAddr_mapped h hroom hp hrange.start
  have hlt := hmapped.ok.frame_lt _ _ hf
  have hinside := hmapped.ok.inside.1
  have hend := hrange.end_lt h
  have htwo := hrange.twoPages
  have hbase : frameBase f = f * pageSize := frameBase_eq (by omega)
  have hendOfPage : (frameBase f + pageSize) % 2 ^ 32 = f * pageSize + pageSize := by
    rw [hbase]
    refine Nat.mod_eq_of_lt ?_
    simp only [maxFrames, pageSize] at *
    omega
  have hsum : (f * pageSize + A % pageSize + L) % W64 = f * pageSize + A % pageSize + L := by
    refine Nat.mod_eq_of_lt ?_
    simp only [maxFrames, pageSize, W64] at *
    omega
  simp only [translate, hcalc, pageAt_of_lookup hf, hendOfPage, hsum]
  by_cases hcross : pageSize < A % pageSize + L
  · rw [if_pos (by omega)]
    have hspan : (f * pageSize + A % pageSize + L - (f * pageSize + pageSize)) % 2 ^ 32 =
        A % pageSize + L - pageSize := by
      rw [Nat.mod_eq_of_lt]
      · omega
      · simp only [pageSize] at *
        omega
    have hadj : ((A + L) % W64 + W64 - (A % pageSize + L - pageSize)) % W64 =
        (A / pageSize + 1) * pageSize := by
      simp only [pageSize, W64] at *
      omega
    have hadjPage : (A / pageSize + 1) * pageSize / pageSize % 2 ^ 32 =
        (A / pageSize + 1) * pageSize / pageSize := by
      rw [Nat.mul_div_cancel _ (by decide : 0 < pageSize)]
      exact Nat.mod_eq_of_lt (hrange.pageNum hcross)
    have hnext : (A / pageSize + 1) * pageSize / pageSize = A / pageSize + 1 :=
      Nat.mul_div_cancel _ (by decide : 0 < pageSize)
    have hlast : (A + (L - 1)) / pageSize = A / pageSize + 1 := by
      simp only [pageSize] at *
      omega
    have hp₂ : (A / pageSize + 1) * pageSize / pageSize ∈ pages := by
      refine hpages ?_
      rw [hnext, ← hlast]
      simp [rangePages]
    have hvalid₂ : m₁.isValidVirtAddr ((A / pageSize + 1) * pageSize) = true := by
      rw [hmapped.valid_eq]
      refine hrange.valid _ ?_ ?_
      · simp only [pageSize] at *
        omega
      · simp only [pageSize] at *
        omega
    obtain ⟨g, m₂, hcalc₂, hg, hmapped₂, hroom₂⟩ :=
      CalcPhysAddr_mapped hmapped.ok hroom₁ hp₂ hvalid₂
    rw [hspan, hadj, hadjPage, hcalc₂, Nat.mul_mod_left, Nat.add_zero]
    rw [hnext] at hg
    exact ⟨f, _, m₂, rfl, hmapped₂.old _ _ hf, hmapped.trans hmapped₂, hroom₂,
      .inr ⟨_, _, g, rfl, by omega, by omega, rfl, hg⟩⟩
  · rw [if_neg (by omega)]
    exact ⟨f, none, m₁, rfl, hf, hmapped, hroom₁, .inl ⟨by omega, rfl⟩⟩

/-- The bytes of a frame are inside the backing memory. -/
theorem PageTableOk.inPhysMem {m : RevMem} (h : m.PageTableOk) {p f off n : ℕ}
    (hf : m.pageMap.lookup p = some f) (hn : off + n ≤ pageSize) :
    m.inPhysMem (f * pageSize + off) n = true := by
  have hlt := h.frame_lt _ _ hf
  have hmem := h.inside.2
  have hend : f * pageSize + pageSize ≤ m.nextPage * pageSize := by
    rw [← Nat.succ_mul]
    exact Nat.mul_le_mul_right pageSize hlt
  have hword : n < 2 ^ 32 := by
    simp only [pageSize] at *
    omega
  simp only [RevMem.inPhysMem, h.ctrl, Option.isNone_none, Bool.true_and, Bool.or_eq_true,
    Bool.and_eq_true, decide_eq_true_eq]
  exact .inr ⟨hword, by omega⟩

/-- Reading inside a frame gives the bytes of the page. -/
theorem physRead_view {m : RevMem} (h : m.PageTableOk) {p f : ℕ}
    (hf : m.pageMap.lookup p = some f) (off n : ℕ) (hn : off + n ≤ pageSize) :
    m.physRead (f * pageSize + off) n =
      some ((List.range n).map fun i => m.view (p * pageSize + off + i)) := by
  unfold physRead
  rw [if_pos (h.inPhysMem hf hn)]
  simp only [Option.some.injEq]
  refine List.map_congr_left ?_
  intro i hi
  rw [List.mem_range] at hi
  have hpage : (p * pageSize + off + i) / pageSize = p := by
    simp only [pageSize] at *
    omega
  have hoff : (p * pageSize + off + i) % pageSize = off + i := by
    simp only [pageSize] at *
    omega
  simp only [view, hpage, hf, hoff]
  rw [Nat.add_assoc]

/-- Writing inside a frame changes exactly these bytes of the page. -/
theorem physWrite_view {m : RevMem} (h : m.PageTableOk) {p f : ℕ}
    (hf : m.pageMap.lookup p = some f) (off : ℕ) (bytes : List UInt8) (hn : off + bytes.length ≤ pageSize) :
    ∃ m', m.physWrite (f * pageSize + off) bytes = some m' ∧ m'.PageTableOk ∧
      m'.pageMap = m.pageMap ∧ m'.nextPage = m.nextPage ∧ m'.memSize = m.memSize ∧
      (∀ v, m'.isValidVirtAddr v = m.isValidVirtAddr v) ∧
      ∀ v, m'.view v =
        if p * pageSize + off ≤ v ∧ v < p * pageSize + off + bytes.length then
          bytes.getD (v - (p * pageSize + off)) 0
        else m.view v := by
  have hlt := h.frame_lt _ _ hf
  unfold physWrite
  rw [if_pos (h.inPhysMem hf hn)]
  refine ⟨_, rfl, ⟨h.ctrl, h.tops, h.frame_lt, h.frame_inj, h.tlb, ?_, h.inside⟩, rfl, rfl, rfl,
    fun v => by simp only [isValidVirtAddr], ?_⟩
  · intro a ha
    have hend : f * pageSize + pageSize ≤ m.nextPage * pageSize := by
      rw [← Nat.succ_mul]
      exact Nat.mul_le_mul_right pageSize hlt
    simp only at ha ⊢
    rw [if_neg (by omega)]
    exact h.fresh a ha
  · intro v
    have hoff := Nat.mod_lt v (by decide : 0 < pageSize)
    have hsplit := Nat.div_add_mod' v pageSize
    cases hg : m.pageMap.lookup (v / pageSize) with
    | none =>
      have hne : v / pageSize ≠ p := by
        rintro rfl
        simp [hf] at hg
      have hout : ¬(p * pageSize + off ≤ v ∧ v < p * pageSize + off + bytes.length) := by
        intro hin
        apply hne
        simp only [pageSize] at *
        omega
      rw [if_neg hout]
      simp only [view, hg]
    | some g =>
      simp only [view, hg]
      by_cases hpage : v / pageSize = p
      · have hgf : g = f := by
          rw [hpage, hf] at hg
          exact (Option.some.inj hg).symm
        subst hgf
        rw [← hpage]
        have hcond : (g * pageSize + off ≤ g * pageSize + v % pageSize ∧
            g * pageSize + v % pageSize < g * pageSize + off + bytes.length) ↔
            (v / pageSize * pageSize + off ≤ v ∧
              v < v / pageSize * pageSize + off + bytes.length) := by
          omega
        by_cases hin : v / pageSize * pageSize + off ≤ v ∧
            v < v / pageSize * pageSize + off + bytes.length
        · rw [if_pos hin, if_pos (hcond.mpr hin)]
          congr 1
          omega
        · rw [if_neg hin, if_neg (mt hcond.mp hin)]
      · have hne : g ≠ f := by
          rintro rfl
          exact hpage (h.frame_inj _ _ _ hg hf)
        rw [if_neg, if_neg]
        · intro hin
          apply hpage
          simp only [pageSize] at *
          omega
        · intro hin
          apply hne
          simp only [pageSize] at *
          omega

theorem PageTableOk.revoke {m : RevMem} (h : m.PageTableOk) (A : ℕ) :
    (m.RevokeFuture A).PageTableOk :=
  ⟨h.ctrl, h.tops, h.frame_lt, h.frame_inj, h.tlb, h.fresh, h.inside⟩

/-- A write stores its data at the addresses of its range and nowhere else. -/
theorem WriteMemFlags_view {m : RevMem} (h : m.PageTableOk) {pages : Finset ℕ}
    (hroom : m.HasRoom pages) {A L : ℕ} (hrange : m.RangeOk A L)
    (hpages : rangePages A L ⊆ pages) (Hart : ℕ) (Data : List UInt8) (flags : RevFlag) :
    ∃ m', m.WriteMemFlags Hart A L Data flags = some m' ∧ m'.PageTableOk ∧ m'.HasRoom pages ∧
      (∀ v, m'.isValidVirtAddr v = m.isValidVirtAddr v) ∧
      ∀ v, m'.view v = if A ≤ v ∧ v < A + L then Data.getD (v - A) 0 else m.view v := by
  have hrevoked := h.revoke A
  obtain ⟨f, adj, m₁, htr, hf, hmapped, hroom₁, hcase⟩ :=
    translate_mapped hrevoked (hroom.of_pageMap rfl rfl rfl) (hrange.congr fun _ => rfl) hpages
  have hview : ∀ v, m₁.view v = m.view v := by
    intro v
    rw [hmapped.view_eq hrevoked v]
    simp only [view, RevokeFuture]
  have hvalid : ∀ v, m₁.isValidVirtAddr v = m.isValidVirtAddr v := fun v => hmapped.valid_eq v
  have hctrl := hmapped.ok.ctrl
  have hstart := Nat.div_add_mod' A pageSize
  unfold WriteMemFlags
  rcases hcase with ⟨hone, rfl⟩ | ⟨span, q, g, rfl, hpos, hspan, hq, hg⟩
  · simp only [htr, hctrl]
    obtain ⟨m₂, hwrite, hok₂, hmap₂, hnext₂, hsize₂, hvalid₂, hview₂⟩ :=
      physWrite_view hmapped.ok hf (A % pageSize) (copyBuf Data L) (by simpa)
    refine ⟨m₂, hwrite, hok₂, hroom₁.of_pageMap hmap₂ hnext₂ hsize₂,
      fun v => (hvalid₂ v).trans (hvalid v), ?_⟩
    intro v
    rw [hview₂, hview, copyBuf_length, hstart]
    split
    · rw [copyBuf_getD (by omega)]
    · rfl
  · have hoff := Nat.mod_lt A (by decide : 0 < pageSize)
    have htwo := hrange.twoPages
    simp only [htr, hctrl, headLen_eq (show span ≤ L by omega)]
    obtain ⟨m₂, hwrite₂, hok₂, hmap₂, hnext₂, hsize₂, hvalid₂, hview₂⟩ :=
      physWrite_view hmapped.ok hf (A % pageSize) (copyBuf Data (L - span)) (by simp; omega)
    have hg₂ : m₂.pageMap.lookup (A / pageSize + 1) = some g := by
      rw [hmap₂]
      exact hg
    obtain ⟨m₃, hwrite₃, hok₃, hmap₃, hnext₃, hsize₃, hvalid₃, hview₃⟩ :=
      physWrite_view hok₂ hg₂ 0 (copyBuf (Data.drop (L - span)) span) (by simp; omega)
    rw [Nat.add_zero, ← hq] at hwrite₃
    simp only [hwrite₂]
    refine ⟨m₃, hwrite₃, hok₃,
      (hroom₁.of_pageMap hmap₂ hnext₂ hsize₂).of_pageMap hmap₃ hnext₃ hsize₃,
      fun v => (hvalid₃ v).trans ((hvalid₂ v).trans (hvalid v)), ?_⟩
    intro v
    have hnextPage : (A / pageSize + 1) * pageSize + 0 = A + (L - span) := by
      rw [Nat.add_one_mul]
      omega
    rw [hview₃, hview₂, hview, copyBuf_length, copyBuf_length, hnextPage, hstart]
    by_cases hback : A + (L - span) ≤ v ∧ v < A + L
    · rw [if_pos (by omega), if_pos (by omega), copyBuf_getD (by omega)]
      have hidx : L - span + (v - (A + (L - span))) = v - A := by omega
      rw [List.getD_eq_getElem?_getD, List.getElem?_drop, hidx, List.getD_eq_getElem?_getD]
    · rw [if_neg (by omega)]
      by_cases hfront : A ≤ v ∧ v < A + L
      · rw [if_pos (by omega), if_pos hfront, copyBuf_getD (by omega)]
      · rw [if_neg (by omega), if_neg hfront]

/-- The two parts of a range as they are read. -/
theorem physRead_parts {m m' : RevMem} (hmapped : Mapped m m') (h : m.PageTableOk) {A f : ℕ}
    (hf : m'.pageMap.lookup (A / pageSize) = some f) {n : ℕ} (hn : A % pageSize + n ≤ pageSize) :
    m'.physRead (f * pageSize + A % pageSize) n =
      some ((List.range n).map fun i => m.view (A + i)) := by
  rw [physRead_view hmapped.ok hf _ n hn, Nat.div_add_mod']
  simp only [hmapped.view_eq h]

theorem physRead_next {m m' : RevMem} (hmapped : Mapped m m') (h : m.PageTableOk) {A g q : ℕ}
    (hq : q = g * pageSize) (hg : m'.pageMap.lookup (A / pageSize + 1) = some g) {n : ℕ}
    (hn : n ≤ pageSize) :
    m'.physRead q n =
      some ((List.range n).map fun i => m.view (A + (pageSize - A % pageSize) + i)) := by
  have hread := physRead_view hmapped.ok hg 0 n (by omega)
  have hoff := Nat.mod_lt A (by decide : 0 < pageSize)
  have hstart := Nat.div_add_mod' A pageSize
  have hnextPage : (A / pageSize + 1) * pageSize + 0 = A + (pageSize - A % pageSize) := by
    rw [Nat.add_one_mul]
    omega
  rw [hnextPage, Nat.add_zero, ← hq] at hread
  rw [hread]
  simp only [hmapped.view_eq h]

theorem completeRead_cell (h : Host) (req : MemReq) : (completeRead h req).cell = h.cell := by
  unfold completeRead Host.MarkLoadComplete
  split <;> rfl

/-- `ReadMem` copies the bytes stored in its range to the target. -/
theorem ReadMem_view {m : RevMem} (h : m.PageTableOk) {pages : Finset ℕ} (hroom : m.HasRoom pages)
    {B N : ℕ} (hrange : m.RangeOk B N) (hpages : rangePages B N ⊆ pages) (host : Host)
    (Hart Target : ℕ) (req : MemReq) (flags : RevFlag) :
    ∃ m' host', m.ReadMem host Hart B N Target req flags = some (m', host') ∧ Mapped m m' ∧
      ∀ i, i < N → host'.cell Target i = m.view (B + i) := by
  obtain ⟨f, adj, m₁, htr, hf, hmapped, -, hcase⟩ := translate_mapped h hroom hrange hpages
  have hctrl := hmapped.ok.ctrl
  unfold ReadMem
  rcases hcase with ⟨hone, rfl⟩ | ⟨span, q, g, rfl, hpos, hspan, hq, hg⟩
  · simp only [htr, hctrl, physRead_parts hmapped h hf hone, Option.map_some]
    refine ⟨_, _, rfl, hmapped, ?_⟩
    intro i hi
    rw [completeRead_cell, Host.write_cell, if_pos (by simpa using hi)]
    simp [hi]
  · have hoff := Nat.mod_lt B (by decide : 0 < pageSize)
    have htwo := hrange.twoPages
    have hcur : pageSize - B % pageSize = N - span := by omega
    simp only [htr, hctrl, headLen_eq (show span ≤ N by omega),
      physRead_parts hmapped h hf (n := N - span) (by omega), Option.map_some,
      physRead_next hmapped h hq hg (n := span) (by omega)]
    refine ⟨_, _, rfl, hmapped, ?_⟩
    intro i hi
    rw [completeRead_cell, Host.write_cell, Host.write_cell]
    simp only [List.length_map, List.length_range]
    by_cases hback : N - span ≤ i
    · rw [if_pos (by omega), hcur]
      have hidx : B + (N - span) + (i - (N - span)) = B + i := by omega
      have hlt : i - (N - span) < span := by omega
      simp [hlt, hidx]
    · rw [if_neg (by omega), if_pos (by omega)]
      have hlt : i < N - span := by omega
      simp [hlt]

/-- The deprecated `ReadMem` does so when at most one byte is past the end of
    the page. -/
theorem ReadMemOld_view {m : RevMem} (h : m.PageTableOk) {pages : Finset ℕ}
    (hroom : m.HasRoom pages) {B N : ℕ} (hrange : m.RangeOk B N) (hpages : rangePages B N ⊆ pages)
    (hone : B % pageSize + N ≤ pageSize + 1) (Data : List UInt8) :
    ∃ bytes m', m.ReadMemOld B N Data = some (bytes, m') ∧ Mapped m m' ∧
      ∀ i, i < N → bytes[i]? = some (m.view (B + i)) := by
  obtain ⟨f, adj, m₁, htr, hf, hmapped, -, hcase⟩ := translate_mapped h hroom hrange hpages
  unfold ReadMemOld
  rcases hcase with ⟨hin, rfl⟩ | ⟨span, q, g, rfl, hpos, hspan, hq, hg⟩
  · simp only [htr, physRead_parts hmapped h hf hin, Option.map_some]
    refine ⟨_, _, rfl, hmapped, ?_⟩
    intro i hi
    simp [hi]
  · have hoff := Nat.mod_lt B (by decide : 0 < pageSize)
    have hspan₁ : span = 1 := by omega
    have hcur : pageSize - B % pageSize = N - 1 := by omega
    subst hspan₁
    simp only [htr, headLen_eq (show 1 ≤ N by omega),
      physRead_parts hmapped h hf (n := N - 1) (by omega),
      physRead_next hmapped h hq hg (n := 1) (by omega), hcur]
    refine ⟨_, _, rfl, hmapped, ?_⟩
    intro i hi
    by_cases hlast : i = N - 1
    · subst hlast
      simp
    · have hlt : i < N - 1 := by omega
      rw [List.getElem?_append_left (by simpa)]
      simp [hlt]

/-- The byte at `v` after a write of `Data` to the range from `A` on. -/
def stored (m : RevMem) (A L : ℕ) (Data : List UInt8) (v : ℕ) : UInt8 :=
  if A ≤ v ∧ v < A + L then Data.getD (v - A) 0 else m.view v

/-- The read-after-write and frame law: a read before the write returns the
    bytes of `view`, and a read after it the written bytes in the range of the
    write and the same bytes as before elsewhere. -/
theorem readAfterWrite {m : RevMem} (h : m.PageTableOk) {A L B N : ℕ} (hwrite : m.RangeOk A L)
    (hread : m.RangeOk B N) (hroom : m.HasRoom (rangePages A L ∪ rangePages B N))
    (Hart : ℕ) (Data : List UInt8) (flags : RevFlag) :
    (∀ host Hart Target req flags, ∃ m₀ host₀,
      m.ReadMem host Hart B N Target req flags = some (m₀, host₀) ∧
        ∀ i, i < N → host₀.cell Target i = m.view (B + i)) ∧
    (m.WriteMem Hart A L Data).isSome = true ∧
    (m.WriteMemFlags Hart A L Data flags).isSome = true ∧
    ∀ m', m.WriteMem Hart A L Data = some m' ∨ m.WriteMemFlags Hart A L Data flags = some m' →
      (∀ host Hart Target req flags, ∃ m'' host',
        m'.ReadMem host Hart B N Target req flags = some (m'', host') ∧
          ∀ i, i < N → host'.cell Target i = m.stored A L Data (B + i)) ∧
      (B % pageSize + N ≤ pageSize + 1 → ∀ buf, ∃ bytes m'',
        m'.ReadMemOld B N buf = some (bytes, m'') ∧
          ∀ i, i < N → bytes[i]? = some (m.stored A L Data (B + i))) := by
  have hleft : rangePages A L ⊆ rangePages A L ∪ rangePages B N := Finset.subset_union_left
  have hright : rangePages B N ⊆ rangePages A L ∪ rangePages B N := Finset.subset_union_right
  refine ⟨?_, ?_, ?_, ?_⟩
  · intro host Hart Target req flags
    obtain ⟨m₀, host₀, heq, -, hcell⟩ :=
      ReadMem_view h hroom hread hright host Hart Target req flags
    exact ⟨m₀, host₀, heq, hcell⟩
  · obtain ⟨m', heq, -⟩ := WriteMemFlags_view h hroom hwrite hleft Hart Data .F_NONE
    rw [WriteMem, heq]
    rfl
  · obtain ⟨m', heq, -⟩ := WriteMemFlags_view h hroom hwrite hleft Hart Data flags
    rw [heq]
    rfl
  · intro m' hm'
    obtain ⟨fl, hfl⟩ : ∃ fl, m.WriteMemFlags Hart A L Data fl = some m' := by
      rcases hm' with hm' | hm'
      · exact ⟨_, hm'⟩
      · exact ⟨_, hm'⟩
    obtain ⟨m₁, heq, hok₁, hroom₁, hvalid₁, hview₁⟩ :=
      WriteMemFlags_view h hroom hwrite hleft Hart Data fl
    have hsame : m₁ = m' := by simpa [heq] using hfl
    subst hsame
    have hstored : ∀ v, m₁.view v = m.stored A L Data v := hview₁
    have hread₁ := hread.congr hvalid₁
    refine ⟨?_, ?_⟩
    · intro host Hart Target req flags
      obtain ⟨m'', host', hres, -, hcell⟩ :=
        ReadMem_view hok₁ hroom₁ hread₁ hright host Hart Target req flags
      refine ⟨m'', host', hres, ?_⟩
      intro i hi
      rw [hcell i hi, hstored]
    · intro hone buf
      obtain ⟨bytes, m'', hres, -, hbytes⟩ :=
        ReadMemOld_view hok₁ hroom₁ hread₁ hright hone buf
      refine ⟨bytes, m'', hres, ?_⟩
      intro i hi
      rw [hbytes i hi, hstored]

/-- A fresh memory of four pages, all of them in one segment. -/
def pageMem : RevMem :=
  { memSize := 4 * pageSize, maxHeapSize := pageSize, ThreadMemSize := STACK_SIZE,
    NextThreadMemAddr := 4 * pageSize, MemSegs := [MemSegment.new 0 (4 * pageSize) false] }

theorem pageMem_ok : pageMem.PageTableOk := by
  refine ⟨rfl, by decide, by simp [pageMem], by simp [pageMem], by simp [pageMem],
    fun _ _ => rfl, by decide⟩

theorem pageMem_range {A L : ℕ} (hend : A + L ≤ 2 * pageSize) (hstart : A < 2 * pageSize) :
    pageMem.RangeOk A L := by
  have hvalid : ∀ v, v < 2 * pageSize → pageMem.isValidVirtAddr v = true := by
    intro v hv
    have htop : (0 + 4 * pageSize) % W64 = 4 * pageSize := by decide
    simp only [isValidVirtAddr, pageMem, MemSegment.new, MemSegment.contains, htop,
      List.any_cons, Bool.or_eq_true, Bool.and_eq_true, decide_eq_true_eq]
    exact .inl (.inl ⟨Nat.zero_le _, by omega⟩)
  refine ⟨hvalid A hstart, fun v _ hv => hvalid v (by omega), ?_, ?_⟩
  · have hle := Nat.mod_le A pageSize
    omega
  · intro _
    simp only [pageSize] at *
    omega

/-- A write of four bytes over a page boundary, two on each side, is read back
    wrong by the deprecated `ReadMem`. -/
theorem readOld_stale :
    ∃ m' bytes m'', pageMem.PageTableOk ∧ pageMem.RangeOk 262142 4 ∧
      pageMem.WriteMem 0 262142 4 [1, 2, 3, 4] = some m' ∧
      m'.ReadMemOld 262142 4 [9, 9, 9, 9] = some (bytes, m'') ∧
      bytes[2]? ≠ some (pageMem.stored 262142 4 [1, 2, 3, 4] 262144) := by
  have hres : ((pageMem.WriteMem 0 262142 4 [1, 2, 3, 4]).bind fun m' =>
      (m'.ReadMemOld 262142 4 [9, 9, 9, 9]).map Prod.fst) = some [1, 2, 4, 9] := by
    decide +kernel
  simp only [Option.bind_eq_some_iff, Option.map_eq_some_iff, Prod.exists] at hres
  obtain ⟨m', hwrite, bytes, m'', hread, rfl⟩ := hres
  exact ⟨m', _, m'', pageMem_ok, pageMem_range (by decide) (by decide), hwrite, hread, by decide⟩

/-- The same write is read back by `ReadMem`, and a byte of it by both. -/
theorem write_across_pages :
    ∃ m' m'' host' bytes m₃, pageMem.WriteMem 0 262142 4 [1, 2, 3, 4] = some m' ∧
      m'.ReadMem ⟨fun _ _ => 0, []⟩ 0 262142 3 7 {} .F_NONE = some (m'', host') ∧
      m'.ReadMemOld 262142 3 [9, 9, 9] = some (bytes, m₃) ∧
      (∀ i, i < 3 → host'.cell 7 i = pageMem.stored 262142 4 [1, 2, 3, 4] (262142 + i)) ∧
      ∀ i, i < 3 → bytes[i]? = some (pageMem.stored 262142 4 [1, 2, 3, 4] (262142 + i)) := by
  have hroom : pageMem.HasRoom (rangePages 262142 4 ∪ rangePages 262142 3) := by
    unfold HasRoom
    decide
  obtain ⟨-, hsome, -, hlaw⟩ := readAfterWrite pageMem_ok
    (pageMem_range (by decide) (by decide)) (pageMem_range (by decide) (by decide)) hroom
    0 [1, 2, 3, 4] .F_NONE
  obtain ⟨m', hm'⟩ := Option.isSome_iff_exists.mp hsome
  obtain ⟨hnew, hold⟩ := hlaw m' (.inl hm')
  obtain ⟨m'', host', hread, hcell⟩ := hnew ⟨fun _ _ => 0, []⟩ 0 7 {} .F_NONE
  obtain ⟨bytes, m₃, hreadOld, hbytes⟩ := hold (by decide) [9, 9, 9]
  exact ⟨m', m'', host', bytes, m₃, hm', hread, hreadOld, hcell, hbytes⟩

end RevCPU.RevMem
