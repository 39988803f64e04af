import RevCPU.MemCtrl.OrderedRun
import RevCPU.MemCtrl.PartRange
import RevCPU.MemCtrl.TargetBytes

namespace RevCPU

open Lib RevBasicMemCtrl

/-- The value of `src` bits, extended to `dst` bits. -/
def extend (signed : Bool) (src dst val : ℕ) : ℕ :=
  let v := BitVec.ofNat src val
  if signed then (v.signExtend dst).toNat else (v.setWidth dst).toNat

theorem extend_congr (signed : Bool) {src : ℕ} (dst : ℕ) {v w : ℕ} (h : v % 2 ^ src = w % 2 ^ src) :
    extend signed src dst v = extend signed src dst w := by
  have heq : BitVec.ofNat src v = BitVec.ofNat src w := by
    apply BitVec.eq_of_toNat_eq
    simpa only [BitVec.toNat_ofNat] using h
  unfold extend
  rw [heq]

theorem extend_lt (signed : Bool) (src dst val : ℕ) : extend signed src dst val < 2 ^ dst := by
  unfold extend
  split <;> exact BitVec.isLt _

theorem extend_self (signed : Bool) (src val : ℕ) : extend signed src src val = val % 2 ^ src := by
  unfold extend
  split <;> simp

/-- An extension in two steps. -/
theorem extend_mod (signed : Bool) {src dst wide : ℕ} (val : ℕ) (h : dst ≤ wide) :
    extend signed src wide val % 2 ^ dst = extend signed src dst val := by
  unfold extend
  cases signed with
  | false =>
    simp only [Bool.false_eq_true, if_false, BitVec.toNat_setWidth]
    exact Nat.mod_mod_of_dvd _ (Nat.pow_dvd_pow 2 h)
  | true =>
    simp only [if_true]
    rw [← BitVec.toNat_setWidth]
    congr 1
    apply BitVec.eq_of_getLsbD_eq
    intro i hi
    simp only [BitVec.getLsbD_setWidth, BitVec.getLsbD_signExtend, hi, show i < wide by omega,
      decide_true, Bool.true_and]

theorem extend_inj {signed : Bool} {src dst v w : ℕ} (hle : src ≤ dst)
    (h : extend signed src dst v = extend signed src dst w) : v % 2 ^ src = w % 2 ^ src := by
  have hmod := congrArg (· % 2 ^ src) h
  simpa only [extend_mod signed _ hle, extend_self] using hmod

namespace Host

theorem load_setWidth (h : Host) (p : ℕ) {k n : ℕ} (hk : k ≤ n) :
    (h.load p n).setWidth (8 * k) = BitVec.ofNat (8 * k) (leNat (h.read p k)) := by
  apply BitVec.eq_of_toNat_eq
  rw [BitVec.toNat_setWidth, load_toNat, BitVec.toNat_ofNat, ← pow256, read,
    leNat_map_range_mod _ hk, ← read, Nat.mod_eq_of_lt]
  have hlt := leNat_lt (h.read p k)
  rwa [read_length] at hlt

theorem store_read_toNat (h : Host) (p n : ℕ) (v : BitVec (8 * n)) :
    leNat ((h.store p n v).read p n) = v.toNat := by
  rw [store_read, leNat_leBytes, pow256]
  exact Nat.mod_eq_of_lt v.isLt

/-- What the two extensions of `handleFlagResp` leave in a target of `n`
    bytes. -/
theorem signExt_read (h : Host) (p : ℕ) {k n : ℕ} (hpos : 0 < k) (hk : k < n) :
    leNat ((h.store p n (SignExt (h.load p n) (8 * k))).read p n) =
      extend true (8 * k) (8 * n) (leNat (h.read p k)) := by
  rw [store_read_toNat, SignExt_eq _ (by omega) (by omega), load_setWidth h p (Nat.le_of_lt hk)]
  rfl

theorem zeroExt_read (h : Host) (p : ℕ) {k n : ℕ} (hk : k < n) :
    leNat ((h.store p n (ZeroExt (h.load p n) (8 * k))).read p n) =
      extend false (8 * k) (8 * n) (leNat (h.read p k)) := by
  have hpow : 2 ^ (8 * k) ≤ 2 ^ (8 * n) := Nat.pow_le_pow_right (by decide) (by omega)
  have hlt := leNat_lt (h.read p k)
  rw [read_length, pow256] at hlt
  rw [store_read_toNat, ZeroExt_toNat _ (by omega), load_toNat, ← pow256, read,
    leNat_map_range_mod _ (Nat.le_of_lt hk), ← read]
  simp only [extend, Bool.false_eq_true, if_false, BitVec.toNat_setWidth, BitVec.toNat_ofNat]
  rw [Nat.mod_eq_of_lt hlt, Nat.mod_eq_of_lt (by omega)]

end Host

namespace RevBasicMemCtrl

/-- The lines that `getNumCacheLines` counts reach the last byte of the range. -/
def LinesReach (P : Params) (Addr Size : ℕ) : Prop :=
  getNumCacheLines P Addr Size ≤ 1 ∨
    Size ≤ getBaseCacheLineSize P Addr Size + (getNumCacheLines P Addr Size - 1) * P.lineSize

instance (P : Params) (Addr Size : ℕ) : Decidable (LinesReach P Addr Size) :=
  inferInstanceAs (Decidable (_ ∨ _))

/-- The bytes that the parts after the first line cover. -/
theorem lineParts_covers (P : Params) (n newBase bytesLeft curByte i : ℕ) :
    (∃ p ∈ lineParts P n newBase bytesLeft curByte, p.cur ≤ i ∧ i < p.cur + p.size) ↔
      curByte ≤ i ∧ i < curByte + min bytesLeft (n * P.lineSize) := by
  induction n generalizing newBase bytesLeft curByte with
  | zero =>
    simp only [lineParts, List.not_mem_nil, false_and, exists_false, Nat.zero_mul, Nat.min_zero,
      false_iff]
    omega
  | succ n ih =>
    simp only [lineParts, List.mem_cons, exists_eq_or_imp, ih]
    generalize hsize : (if bytesLeft < P.lineSize then bytesLeft else P.lineSize) = newSize
    have hmin : newSize = min bytesLeft P.lineSize := by
      rw [← hsize]
      split <;> omega
    rw [Nat.add_one_mul]
    generalize n * P.lineSize = rest
    omega

/-- The parts of a cacheable operation cover it when the lines reach its last
    byte. -/
theorem covered_iff {P : Params} {op : RevMemOp} (hop : op.isCacheable = true) :
    Covered P op ↔ LinesReach P op.Addr op.Size := by
  cases hcache : P.hasCache with
  | false =>
    have hlines : getNumCacheLines P op.Addr op.Size = 1 := by simp [getNumCacheLines, hcache]
    have hwhole : Covered P op := by
      intro i hi
      exact ⟨⟨op.Addr, op.Size, 0⟩, by simp [dispatchParts, hcache], by simp, by simpa using hi⟩
    exact iff_of_true hwhole (.inl (by omega))
  | true =>
    have hbase := baseSize_le P op
    have hcovers : ∀ i, (∃ p ∈ dispatchParts P op, p.cur ≤ i ∧ i < p.cur + p.size) ↔
        i < baseSize P op +
          min (op.Size - baseSize P op) ((getNumCacheLines P op.Addr op.Size - 1) * P.lineSize) := by
      intro i
      simp only [dispatchParts, hcache, hop, Bool.and_self, if_true, List.mem_cons,
        exists_eq_or_imp, lineParts_covers]
      omega
    have hreach : Covered P op ↔
        op.Size ≤ baseSize P op + (getNumCacheLines P op.Addr op.Size - 1) * P.lineSize := by
      unfold Covered
      simp only [hcovers]
      generalize (getNumCacheLines P op.Addr op.Size - 1) * P.lineSize = rest
      constructor
      · intro h
        by_contra hnot
        have hlast := h (op.Size - 1) (by omega)
        omega
      · intro h i hi
        omega
    rw [hreach]
    unfold baseSize LinesReach
    by_cases hlines : getNumCacheLines P op.Addr op.Size > 1
    · rw [if_pos hlines]
      exact ⟨.inr, fun h => h.resolve_left (by omega)⟩
    · rw [if_neg hlines]
      exact iff_of_true (Nat.le_add_right _ _) (.inl (by omega))

/-- `handleReadResp` for one response after the other. -/
def handleReadResps (s : RevBasicMemCtrl) (h : Host) :
    List ReadResp → Option (RevBasicMemCtrl × Host)
  | [] => some (s, h)
  | ev :: evs => (s.handleReadResp h ev).bind fun (s, h) => handleReadResps s h evs

/-- The responses of a memory to the requests of an operation whose first id is
    `id`. -/
def readAnswers (P : Params) (id : ℕ) (op : RevMemOp) (mem : ℕ → UInt8) : List ReadResp :=
  ((dispatchParts P op).zipIdx id).map fun p =>
    { id := p.2, pAddr := p.1.addr, size := p.1.size, data := getBytes mem p.1.addr p.1.size }

/-- The response brings the bytes of a part of the operation, or all of them
    when the operation is not split. -/
structure Answers (op : RevMemOp) (mem : ℕ → UInt8) (ev : ReadResp) : Prop where
  low : op.Addr ≤ ev.pAddr
  high : ev.pAddr + ev.size ≤ op.Addr + op.Size
  data : ev.data = getBytes mem ev.pAddr ev.size
  whole : op.SplitRqst ≤ 1 → ev.pAddr = op.Addr ∧ ev.size = op.Size

/-- The byte `i` of the operation is in the response. -/
def ReadResp.Brings (op : RevMemOp) (ev : ReadResp) (i : ℕ) : Prop :=
  ev.pAddr ≤ op.Addr + i ∧ op.Addr + i < ev.pAddr + ev.size

instance (op : RevMemOp) (ev : ReadResp) (i : ℕ) : Decidable (ReadResp.Brings op ev i) :=
  inferInstanceAs (Decidable (_ ∧ _))

/-- What one response copies into the target. -/
theorem copyResp_cell_of_lt {op : RevMemOp} {mem : ℕ → UInt8} {ev : ReadResp} (hev : Answers op mem ev)
    (hoff : ev.pAddr - op.Addr < 2 ^ 8) (h : Host) (p i : ℕ) :
    (copyResp h op p ev).cell p i =
      if ReadResp.Brings op ev i then mem (op.Addr + i) else h.cell p i := by
  obtain ⟨hlow, hhigh, hdata, hwhole⟩ := hev
  unfold copyResp
  by_cases hsplit : op.SplitRqst > 1
  · have hmod : (ev.pAddr - op.Addr) % 2 ^ 32 % 2 ^ 8 = ev.pAddr - op.Addr := by omega
    rw [if_pos hsplit, hmod, Host.write_cell, copyBuf_length]
    by_cases hin : ReadResp.Brings op ev i
    · have hlt : i - (ev.pAddr - op.Addr) < ev.size := by
        obtain ⟨hfrom, hto⟩ := hin
        omega
      rw [if_pos hin, if_pos (by obtain ⟨hfrom, hto⟩ := hin; omega), copyBuf_getD hlt, hdata,
        getBytes_getD _ _ hlt]
      congr 1
      obtain ⟨hfrom, hto⟩ := hin
      omega
    · rw [if_neg hin, if_neg (by unfold ReadResp.Brings at hin; omega)]
  · obtain ⟨haddr, hevsize⟩ := hwhole (by omega)
    rw [if_neg hsplit, Host.write_cell, copyBuf_length]
    by_cases hin : i < op.Size
    · have hbrings : ReadResp.Brings op ev i := ⟨by omega, by omega⟩
      rw [if_pos hbrings, if_pos (by omega), Nat.sub_zero, copyBuf_getD hin, hdata,
        getBytes_getD _ _ (by omega), haddr]
    · have hnot : ¬ReadResp.Brings op ev i := by
        unfold ReadResp.Brings
        omega
      rw [if_neg hnot, if_neg (by omega)]

theorem copyResp_cell {op : RevMemOp} {mem : ℕ → UInt8} {ev : ReadResp} (hev : Answers op mem ev)
    (hsize : op.Size ≤ 8) (h : Host) (p i : ℕ) :
    (copyResp h op p ev).cell p i =
      if ReadResp.Brings op ev i then mem (op.Addr + i) else h.cell p i := by
  have hlow := hev.low
  have hhigh := hev.high
  exact copyResp_cell_of_lt hev (by omega) h p i

/-- The operation waits for exactly these responses. -/
structure Awaits (s : RevBasicMemCtrl) (op : RevMemOp) (evs : List ReadResp) : Prop where
  requests : ∀ ev ∈ evs, ev.id ∈ s.requests
  lookup : ∀ ev ∈ evs, s.outstanding.lookup ev.id = some op
  distinct : (evs.map ReadResp.id).Nodup
  count : s.getNumSplitRqsts op = evs.length
  split : op.SplitRqst ≤ 1 → evs.length ≤ 1

/-- The controller after a response to a load. -/
def afterRead (s : RevBasicMemCtrl) (id : ℕ) : RevBasicMemCtrl :=
  { s with
    requests := s.requests.erase id
    outstanding := s.outstanding.eraseP fun n => n.1 == id
    num_read := s.num_read - 1 }

/-- What the responses to a load leave alone, and what they only shorten. -/
structure Answering (s s' : RevBasicMemCtrl) : Prop where
  queue : s'.rqstQ = s.rqstQ
  table : s'.AMOTable = s.AMOTable
  nextPtr : s'.nextPtr = s.nextPtr
  nextId : s'.nextId = s.nextId
  outstanding : s'.outstanding.Sublist s.outstanding

theorem afterRead_answering (s : RevBasicMemCtrl) (id : ℕ) : Answering s (s.afterRead id) :=
  ⟨rfl, rfl, rfl, rfl, List.eraseP_sublist⟩

theorem Answering.trans {s₁ s₂ s₃ : RevBasicMemCtrl} (h : Answering s₁ s₂) (h' : Answering s₂ s₃) :
    Answering s₁ s₃ :=
  ⟨h'.queue.trans h.queue, h'.table.trans h.table, h'.nextPtr.trans h.nextPtr,
    h'.nextId.trans h.nextId, h'.outstanding.trans h.outstanding⟩

theorem handleFlagResp_isSome (h : Host) {op : RevMemOp} {p : ℕ} (hok : ExtOk op.flags op.Size)
    (htgt : op.target = some p) : ∃ h', handleFlagResp h op = some h' := by
  have hext : ∀ {n : ℕ} (ext : BitVec (8 * n) → ℕ → BitVec (8 * n)), op.Size < n →
      ∃ h', extendTarget h op n ext = some h' := by
    intro n ext hlt
    rw [extendTarget, if_pos hlt, htgt]
    exact ⟨_, rfl⟩
  unfold handleFlagResp
  split
  · rename_i hflag
    exact hext _ (hok.word (by simp [hflag]))
  split
  · rename_i hflag
    exact hext _ (hok.double (by simp [hflag]))
  split
  · rename_i hflag
    exact hext _ (hok.word (by simp [hflag]))
  split
  · rename_i hflag
    exact hext _ (hok.double (by simp [hflag]))
  split
  · rw [htgt]
    exact ⟨_, rfl⟩
  · exact ⟨_, rfl⟩

namespace Awaits

variable {s : RevBasicMemCtrl} {op : RevMemOp} {ev : ReadResp} {evs : List ReadResp}

/-- A response that is not the last one is copied. -/
theorem read_part (hs : Awaits s op (ev :: evs)) (hne : evs ≠ []) {p : ℕ}
    (htgt : op.target = some p) (h : Host) :
    s.handleReadResp h ev = some (s.afterRead ev.id, copyResp h op p ev) := by
  have hlen : 0 < evs.length := List.length_pos_iff.mpr hne
  have hsplit : op.SplitRqst > 1 := by
    by_contra hnot
    have hone := hs.split (by omega)
    rw [List.length_cons] at hone
    omega
  have hcount : s.getNumSplitRqsts op ≠ 1 := by
    rw [hs.count, List.length_cons]
    omega
  have hcond : (decide (op.SplitRqst > 1) &&
      { s with requests := s.requests.erase ev.id }.getNumSplitRqsts op != 1) = true := by
    simp only [hsplit, decide_true, Bool.true_and, bne_iff_ne]
    exact hcount
  unfold handleReadResp
  rw [if_pos (hs.requests ev (by simp))]
  simp only [hs.lookup ev (by simp), htgt, hcond, if_true, Option.map_some]
  rfl

/-- The last response finishes the load. -/
theorem read_last (hs : Awaits s op [ev]) {p : ℕ} (htgt : op.target = some p) (h : Host) :
    s.handleReadResp h ev =
      (finishRead { s with requests := s.requests.erase ev.id } (copyResp h op p ev) op
        (s.AMOTable.any (AMOEntry.isFor op))).map fun (s, h) =>
          ({ s.eraseOutstanding ev.id with num_read := s.num_read - 1 }, h) := by
  have hcond : (decide (op.SplitRqst > 1) &&
      { s with requests := s.requests.erase ev.id }.getNumSplitRqsts op != 1) = false := by
    have hcount : { s with requests := s.requests.erase ev.id }.getNumSplitRqsts op = 1 := hs.count
    simp [hcount]
  unfold handleReadResp
  rw [if_pos (hs.requests ev (by simp))]
  simp only [hs.lookup ev (by simp), htgt, hcond, Bool.false_eq_true, if_false]

/-- The operation then waits for the others. -/
theorem afterRead (hs : Awaits s op (ev :: evs)) : Awaits (s.afterRead ev.id) op evs := by
  obtain ⟨hnew, hdistinct⟩ := List.nodup_cons.mp hs.distinct
  have hid : ∀ e ∈ evs, e.id ≠ ev.id := by
    intro e he heq
    exact hnew (heq ▸ List.mem_map.mpr ⟨e, he, rfl⟩)
  constructor
  · intro e he
    exact (List.mem_erase_of_ne (hid e he)).mpr (hs.requests e (by simp [he]))
  · intro e he
    simp only [RevBasicMemCtrl.afterRead, lookup_eraseP_ne (hid e he)]
    exact hs.lookup e (by simp [he])
  · exact hdistinct
  · have hcount := hs.count
    have herase := countP_eraseP_key (fun n : ℕ × RevMemOp => n.2.ptr == op.ptr)
      (hs.lookup ev (by simp))
    simp only [beq_self_eq_true, if_true] at herase
    simp only [getNumSplitRqsts, RevBasicMemCtrl.afterRead, List.length_cons] at hcount ⊢
    omega
  · intro hone
    have hle := hs.split hone
    rw [List.length_cons] at hle
    omega

/-- The bytes `bs` of an operation are in the target, the others are as before. -/
def Copied (op : RevMemOp) (mem : ℕ → UInt8) (p : ℕ) (evs : List ReadResp) (h h₁ : Host) : Prop :=
  ∀ i, ((∃ ev ∈ evs, ReadResp.Brings op ev i) → h₁.cell p i = mem (op.Addr + i)) ∧
    ((∀ ev ∈ evs, ¬ReadResp.Brings op ev i) → h₁.cell p i = h.cell p i)

/-- Whatever the order of the responses, the last one finds the bytes of the
    others in the target. -/
theorem last_step {mem : ℕ → UInt8} (hs : Awaits s op evs) (hne : evs ≠ []) {p : ℕ}
    (htgt : op.target = some p) (hsize : op.Size ≤ 8) (hans : ∀ ev ∈ evs, Answers op mem ev)
    (h : Host) :
    ∃ s₁ h₀ ev, Awaits s₁ op [ev] ∧ Answering s s₁ ∧
      s.handleReadResps h evs = s₁.handleReadResp h₀ ev ∧
      Copied op mem p evs h (copyResp h₀ op p ev) := by
  induction evs generalizing s h with
  | nil => exact absurd rfl hne
  | cons ev evs ih =>
    have hcell := copyResp_cell (hans ev (by simp)) hsize h p
    cases evs with
    | nil =>
      refine ⟨s, h, ev, hs, ⟨rfl, rfl, rfl, rfl, List.Sublist.refl _⟩, ?_, ?_⟩
      · rw [handleReadResps]
        cases s.handleReadResp h ev <;> rfl
      · intro i
        simp only [List.mem_singleton, exists_eq_left, forall_eq]
        constructor
        · intro hbrings
          rw [hcell, if_pos hbrings]
        · intro hnot
          rw [hcell, if_neg hnot]
    | cons ev' evs =>
      obtain ⟨s₁, h₀, e₀, hlast, hanswering, hresps, hbytes⟩ := ih hs.afterRead (by simp)
        (fun e he => hans e (by simp [he])) (copyResp h op p ev)
      refine ⟨s₁, h₀, e₀, hlast, (afterRead_answering s ev.id).trans hanswering, ?_, ?_⟩
      · rw [handleReadResps, hs.read_part (by simp) htgt h]
        exact hresps
      · intro i
        obtain ⟨hlater, hnone⟩ := hbytes i
        by_cases hin : ∃ e ∈ ev' :: evs, ReadResp.Brings op e i
        · refine ⟨fun _ => hlater hin, ?_⟩
          intro hnot
          obtain ⟨e, he, hbrings⟩ := hin
          exact absurd hbrings (hnot e (by simp [he]))
        · have hkeep := hnone fun e he hbrings => hin ⟨e, he, hbrings⟩
          rw [hkeep, hcell]
          constructor
          · rintro ⟨e, he, hbrings⟩
            rcases List.mem_cons.mp he with rfl | he
            · rw [if_pos hbrings]
            · exact absurd ⟨e, he, hbrings⟩ hin
          · intro hnot
            rw [if_neg (hnot ev (by simp))]

/-- The target of a load ends up with the bytes that the responses bring,
    extended as the flags of the operation say. -/
theorem handleReadResps_load {mem : ℕ → UInt8} (hs : Awaits s op evs) (hne : evs ≠ []) {p : ℕ}
    (hplain : s.AMOTable.any (AMOEntry.isFor op) = false) (htgt : op.target = some p)
    (hsize : op.Size ≤ 8) (hans : ∀ ev ∈ evs, Answers op mem ev) (h : Host) :
    ∃ s' h₁, Copied op mem p evs h h₁ ∧
      s.handleReadResps h evs = (handleFlagResp h₁ op).map fun h₂ =>
        (s', h₂.MarkLoadComplete op.procReq) := by
  obtain ⟨s₁, h₀, ev, hlast, hanswering, hresps, hbytes⟩ := hs.last_step hne htgt hsize hans h
  have hplain₁ : s₁.AMOTable.any (AMOEntry.isFor op) = false := by
    rw [hanswering.table]
    exact hplain
  refine ⟨s₁.afterRead ev.id, copyResp h₀ op p ev, hbytes, ?_⟩
  rw [hresps, hlast.read_last htgt h₀, hplain₁, finishRead]
  cases handleFlagResp (copyResp h₀ op p ev) op with
  | none => rfl
  | some h₂ => rfl

end Awaits

/-- The ids of the responses are those that the dispatch hands out. -/
theorem readAnswers_ids (P : Params) (id : ℕ) (op : RevMemOp) (mem : ℕ → UInt8) :
    (readAnswers P id op mem).map ReadResp.id = List.range' id (dispatchParts P op).length := by
  rw [readAnswers, List.map_map, ← List.zipIdx_map_snd id (dispatchParts P op)]
  rfl

theorem readAnswers_answers {P : Params} {id : ℕ} {op : RevMemOp} {mem : ℕ → UInt8} {ev : ReadResp}
    (hev : ev ∈ readAnswers P id op mem) : Answers (splitOp P op) mem ev := by
  obtain ⟨⟨p, k⟩, hp, rfl⟩ := List.mem_map.mp hev
  have hpart : p ∈ dispatchParts P op := (List.mem_zipIdx hp).2.2 ▸ List.getElem_mem _
  obtain ⟨haddr, hend⟩ := dispatchParts_range P op hpart
  refine ⟨?_, ?_, rfl, ?_⟩
  · rw [splitOp_Addr]
    simp only
    omega
  · rw [splitOp_Addr, splitOp_Size]
    simp only
    omega
  · intro hone
    rw [dispatchParts_whole hone, List.mem_singleton] at hpart
    rw [hpart, splitOp_Addr, splitOp_Size]
    exact ⟨rfl, rfl⟩

/-- The bytes that the responses bring are those that the parts cover. -/
theorem readAnswers_brings {P : Params} (id : ℕ) {op : RevMemOp} (mem : ℕ → UInt8) {i : ℕ} :
    (∃ ev ∈ readAnswers P id op mem, ReadResp.Brings (splitOp P op) ev i) ↔
      ∃ p ∈ dispatchParts P op, p.cur ≤ i ∧ i < p.cur + p.size := by
  have hpart : ∀ p ∈ dispatchParts P op, p.addr = op.Addr + p.cur := fun p hp =>
    (dispatchParts_range P op hp).1
  constructor
  · rintro ⟨ev, hev, hbrings⟩
    obtain ⟨⟨p, k⟩, hp, rfl⟩ := List.mem_map.mp hev
    have hmem : p ∈ dispatchParts P op := (List.mem_zipIdx hp).2.2 ▸ List.getElem_mem _
    have haddr := hpart p hmem
    simp only [ReadResp.Brings, splitOp_Addr] at hbrings
    exact ⟨p, hmem, by omega, by omega⟩
  · rintro ⟨p, hmem, hfrom, hto⟩
    have haddr := hpart p hmem
    obtain ⟨k, hk⟩ := List.getElem?_of_mem hmem
    refine ⟨_, List.mem_map.mpr ⟨(p, id + k), ?_, rfl⟩, ?_⟩
    · rw [List.mk_add_mem_zipIdx_iff_getElem?]
      exact hk
    · simp only [ReadResp.Brings, splitOp_Addr]
      omega

end RevBasicMemCtrl

namespace CtrlSys

/-- A load in the queue, once dispatched, waits for the responses to its parts. -/
theorem Wf.awaits {P : Params} {s : CtrlSys} (hs : s.Wf) {j : ℕ} {op : RevMemOp}
    (hslot : s.ctrl.rqstQ[j]? = some op) (hkind : op.Op ≠ .MemOpFENCE ∧ op.Op ≠ .MemOpAMO)
    {mem : ℕ → UInt8} {evs : List ReadResp} (hperm : evs.Perm (readAnswers P s.ctrl.nextId op mem)) :
    Awaits (dispatchSlot P s.ctrl j op) (splitOp P op) evs := by
  have hqueue : op ∈ s.ctrl.rqstQ := List.mem_of_getElem? hslot
  have hids : (evs.map ReadResp.id).Perm (List.range' s.ctrl.nextId (dispatchParts P op).length) := by
    rw [← readAnswers_ids P s.ctrl.nextId op mem]
    exact hperm.map _
  have hlen : evs.length = (dispatchParts P op).length := by
    have heq := hids.length_eq
    rwa [List.length_map, List.length_range'] at heq
  have hid : ∀ ev ∈ evs, ev.id ∈ List.range' s.ctrl.nextId (dispatchParts P op).length := by
    intro ev hev
    exact hids.subset (List.mem_map.mpr ⟨ev, hev, rfl⟩)
  have hbook : (dispatchSlot P s.ctrl j op).Bookkeeping :=
    (hs.book.sendParts (by simpa using hkind.1) (by simpa using hkind.2) _ _).congr rfl rfl rfl rfl
  have hmem : ∀ ev ∈ evs, (ev.id, splitOp P op) ∈ (dispatchSlot P s.ctrl j op).outstanding := by
    intro ev hev
    rw [dispatchSlot_outstanding]
    exact List.mem_append.mpr (.inr (List.mem_map.mpr ⟨ev.id, hid ev hev, rfl⟩))
  constructor
  · intro ev hev
    rw [← hbook.ids]
    exact List.mem_map.mpr ⟨_, hmem ev hev, rfl⟩
  · exact fun ev hev => lookup_of_mem hbook.keys_nodup (hmem ev hev)
  · exact hids.nodup_iff.mpr List.nodup_range'
  · have hold : s.ctrl.outstanding.countP (fun n => n.2.ptr == op.ptr) = 0 := by
      rw [List.countP_eq_zero]
      intro n hn
      simpa using hs.ord.dispatched n hn op hqueue
    simp only [getNumSplitRqsts, dispatchSlot_outstanding, splitOp_ptr, List.countP_append, hold,
      List.countP_map, Nat.zero_add, hlen]
    rw [List.countP_eq_length.mpr (by simp), List.length_range']
  · intro hone
    rw [hlen, dispatchParts_whole hone]
    exact Nat.le_refl _

/-- A load is not in the table of the AMOs. -/
theorem Wf.not_tabled {P : Params} {s : CtrlSys} (hs : s.Wf) {op : RevMemOp}
    (hqueue : op ∈ s.ctrl.rqstQ) {c : Call} (hc : (op.seq, c) ∈ s.issued)
    (hplain : c.isAMO = false) :
    s.ctrl.AMOTable.any (AMOEntry.isFor (splitOp P op)) = false := by
  have hlive : op ∈ s.ctrl.live := mem_live.mpr (.inl hqueue)
  rw [List.any_eq_false]
  intro e he hfor
  simp only [AMOEntry.isFor, splitOp_Addr, splitOp_ptr, Bool.and_eq_true, beq_iff_eq] at hfor
  obtain ⟨n, hn⟩ := hs.ord.entry_eq he hlive hfor.2
  obtain ⟨c', hc', hamo⟩ := hs.ord.entry_amo e he
  have hseq : op.seq = e.memop.seq := by rw [hn]
  rw [← hseq] at hc'
  rw [hs.ord.history_unique hc hc', hamo] at hplain
  exact absurd hplain (by decide)

end CtrlSys

end RevCPU
