import RevCPU.Lib.Tiles
import RevCPU.MemCtrl.PartRange

namespace RevCPU

open Lib

/-- The address and the size of a part. -/
def Part.range (p : Part) : ℕ × ℕ := (p.addr, p.size)

def StdRqst.range (r : StdRqst) : ℕ × ℕ := (r.pAddr, r.size)

/-- All bytes of a range lie in one cache line. -/
def InLine (lineSize : ℕ) (r : ℕ × ℕ) : Prop := r.1 / lineSize = (r.1 + r.2 - 1) / lineSize

instance (lineSize : ℕ) (r : ℕ × ℕ) : Decidable (InLine lineSize r) :=
  inferInstanceAs (Decidable (_ = _))

namespace RevBasicMemCtrl

/-- The parts in which `buildCacheMemRqst` sends an operation. -/
def cacheParts (P : Params) (op : RevMemOp) : List Part :=
  ⟨op.Addr, baseSize P op, 0⟩ ::
    lineParts P (getNumCacheLines P op.Addr op.Size - 1) (op.Addr + baseSize P op)
      (op.Size - baseSize P op) (baseSize P op)

theorem buildCacheMemRqst_parts {P : Params} {s s' : RevBasicMemCtrl} {op : RevMemOp}
    (hok : buildCacheMemRqst P s op = some (s', true)) :
    s' = s.sendParts { op with SplitRqst := getNumCacheLines P op.Addr op.Size } op.getStdFlags
      (cacheParts P op) := by
  unfold buildCacheMemRqst at hok
  dsimp only at hok
  split at hok
  · cases hok
  · split at hok
    · cases hok
    · rw [sendLines_eq_sendParts] at hok
      exact ((Prod.mk.inj (Option.some.inj hok)).1).symm

/-- The parts after the first line tile the bytes that are left exactly if there
    are as many of them as lines are needed. -/
theorem lineParts_tiles_iff {P : Params} (hpos : 0 < P.lineSize) (n newBase bytesLeft curByte : ℕ) :
    Tiles newBase ((lineParts P n newBase bytesLeft curByte).map Part.range) (newBase + bytesLeft) ↔
      bytesLeft ≤ n * P.lineSize ∧ n * P.lineSize < bytesLeft + P.lineSize := by
  induction n generalizing newBase bytesLeft curByte with
  | zero =>
    simp only [lineParts, List.map_nil, Tiles, Nat.zero_mul]
    omega
  | succ n ih =>
    simp only [lineParts, List.map_cons, Tiles, Part.range, true_and]
    generalize hsize : (if bytesLeft < P.lineSize then bytesLeft else P.lineSize) = newSize
    have hmin : newSize = min bytesLeft P.lineSize := by
      rw [← hsize]
      split <;> omega
    have hend : newBase + bytesLeft = newBase + newSize + (bytesLeft - newSize) := by omega
    have hrest : n * P.lineSize = 0 ∨ P.lineSize ≤ n * P.lineSize := by
      rcases Nat.eq_zero_or_pos n with rfl | hn
      · exact .inl (Nat.zero_mul _)
      · exact .inr (Nat.le_mul_of_pos_left _ hn)
    rw [hend, ih, Nat.add_one_mul]
    generalize n * P.lineSize = rest at hrest
    omega

/-- They start at line boundaries and are not longer than a line, as long as they
    are not empty. -/
theorem lineParts_inLine {P : Params} (hpos : 0 < P.lineSize) (n : ℕ) {newBase bytesLeft : ℕ}
    (curByte : ℕ) (hbase : newBase % P.lineSize = 0) :
    ∀ p ∈ lineParts P n newBase bytesLeft curByte, 0 < p.size → InLine P.lineSize p.range := by
  induction n generalizing newBase bytesLeft curByte with
  | zero => simp [lineParts]
  | succ n ih =>
    intro p hp hsize
    simp only [lineParts] at hp
    rcases List.mem_cons.mp hp with rfl | hp
    · simp only [InLine, Part.range] at hsize ⊢
      obtain ⟨q, hq⟩ := Nat.dvd_of_mod_eq_zero hbase
      subst hq
      rw [Nat.mul_div_cancel_left _ hpos]
      symm
      apply Nat.div_eq_of_lt_le
      · rw [Nat.mul_comm]
        omega
      · rw [Nat.add_one_mul, Nat.mul_comm q]
        split at hsize <;> split <;> omega
    · by_cases hlast : bytesLeft < P.lineSize
      · simp only [hlast, if_true, Nat.sub_self] at hp
        have hend := ((lineParts_spec P n _ _ _).2 p hp)
        omega
      · simp only [hlast, if_false] at hp
        refine ih (curByte + P.lineSize) ?_ p hp hsize
        rw [Nat.add_mod_right]
        exact hbase

/-- The loop of `getBaseCacheLineSize` finds the start of the line. -/
theorem baseCacheAddr_eq {lineSize : ℕ} (hpos : 0 < lineSize) (Addr : ℕ) :
    baseCacheAddr lineSize Addr = Addr - Addr % lineSize := by
  induction Addr with
  | zero => simp [baseCacheAddr]
  | succ a ih =>
    rw [baseCacheAddr]
    split
    · rename_i hzero
      rw [hzero, Nat.sub_zero]
    · rename_i hne
      have hlt := Nat.mod_lt a hpos
      have hsucc : (a + 1) % lineSize = a % lineSize + 1 := by
        rw [← Nat.mod_add_mod] at hne ⊢
        by_cases hlast : a % lineSize + 1 = lineSize
        · rw [hlast, Nat.mod_self] at hne
          exact absurd rfl hne
        · exact Nat.mod_eq_of_lt (by omega)
      rw [ih, hsucc]
      omega

/-- An operation that is counted as several lines does not fit into its first
    line. -/
theorem lt_size_of_lines {P : Params} (hpos : 0 < P.lineSize) (Addr Size : ℕ)
    (hlines : 1 < getNumCacheLines P Addr Size) : P.lineSize < Addr % P.lineSize + Size := by
  have hcache : P.hasCache = true := by simpa [Params.hasCache] using hpos
  have hlt := Nat.mod_lt Addr hpos
  unfold getNumCacheLines at hlines
  simp only [hcache, Bool.not_true, Bool.false_eq_true, if_false] at hlines
  rcases Nat.lt_or_ge P.lineSize (Addr % P.lineSize + Size) with hmore | hfit
  · exact hmore
  · split at hlines
    · rw [if_pos (by omega)] at hlines
      omega
    · rw [if_pos (by omega)] at hlines
      omega

/-- The first part of an operation of several lines goes to the end of its line. -/
theorem baseSize_eq {P : Params} (hpos : 0 < P.lineSize) (op : RevMemOp)
    (hlines : 1 < getNumCacheLines P op.Addr op.Size) :
    baseSize P op = P.lineSize - op.Addr % P.lineSize := by
  have hsize := lt_size_of_lines hpos _ _ hlines
  have hlt := Nat.mod_lt op.Addr hpos
  have hle := Nat.mod_le op.Addr P.lineSize
  unfold baseSize getBaseCacheLineSize
  rw [if_pos hlines]
  simp only [baseCacheAddr_eq hpos]
  split
  · rw [if_neg (by omega)]
    omega
  · rw [if_neg (by omega)]
    omega

theorem inLine_iff {lineSize Addr Size : ℕ} (hpos : 0 < lineSize) (hsize : 0 < Size) :
    InLine lineSize (Addr, Size) ↔ Addr % lineSize + Size ≤ lineSize := by
  have hsplit := Nat.div_add_mod Addr lineSize
  have hlt := Nat.mod_lt Addr hpos
  simp only [InLine]
  constructor
  · intro hline
    have hnext := Nat.lt_mul_div_succ (Addr + Size - 1) hpos
    rw [← hline, Nat.mul_add_one] at hnext
    omega
  · intro hfit
    symm
    apply Nat.div_eq_of_lt_le
    · rw [Nat.mul_comm]
      omega
    · rw [Nat.add_one_mul, Nat.mul_comm]
      omega

theorem tiles_pos {lo hi : ℕ} {ps : List Part} (h : Tiles lo (ps.map Part.range) hi) :
    ∀ p ∈ ps, 0 < p.size := by
  induction ps generalizing lo with
  | nil => simp
  | cons p ps ih =>
    obtain ⟨-, hpos, hrest⟩ := h
    intro q hq
    rcases List.mem_cons.mp hq with rfl | hq
    · exact hpos
    · exact ih hrest q hq

/-- The parts partition the operation exactly if there are as many as lines are
    touched. -/
theorem cacheParts_iff {P : Params} (hpos : 0 < P.lineSize) {op : RevMemOp} (hsize : 0 < op.Size) :
    (Tiles op.Addr ((cacheParts P op).map Part.range) (op.Addr + op.Size) ∧
      (∀ p ∈ cacheParts P op, InLine P.lineSize p.range) ∧
      (cacheParts P op).length = getNumCacheLines P op.Addr op.Size) ↔
    1 ≤ getNumCacheLines P op.Addr op.Size ∧
      op.Addr % P.lineSize + op.Size ≤ getNumCacheLines P op.Addr op.Size * P.lineSize ∧
      getNumCacheLines P op.Addr op.Size * P.lineSize <
        op.Addr % P.lineSize + op.Size + P.lineSize := by
  have hlt := Nat.mod_lt op.Addr hpos
  have hbase := baseSize_le P op
  generalize hn : getNumCacheLines P op.Addr op.Size = n
  have hlength : (cacheParts P op).length = n ↔ 1 ≤ n := by
    simp only [cacheParts, List.length_cons, lineParts_length, hn]
    omega
  have htiles : Tiles op.Addr ((cacheParts P op).map Part.range) (op.Addr + op.Size) ↔
      0 < baseSize P op ∧ op.Size - baseSize P op ≤ (n - 1) * P.lineSize ∧
        (n - 1) * P.lineSize < op.Size - baseSize P op + P.lineSize := by
    have hend : op.Addr + op.Size = op.Addr + baseSize P op + (op.Size - baseSize P op) := by omega
    rw [cacheParts, List.map_cons, Tiles, hn, hend, Part.range]
    simp only [true_and]
    rw [lineParts_tiles_iff hpos]
  rw [htiles, hlength]
  rcases Nat.lt_or_ge 1 n with hmany | hone
  · have heq := baseSize_eq hpos op (by omega)
    have hmore := lt_size_of_lines hpos op.Addr op.Size (by omega)
    have hinLine : ∀ p ∈ cacheParts P op, 0 < p.size → InLine P.lineSize p.range := by
      intro p hp hp0
      rcases List.mem_cons.mp hp with rfl | hp
      · rw [Part.range]
        exact (inLine_iff hpos hp0).mpr (by simp only [heq]; omega)
      · refine lineParts_inLine hpos _ _ ?_ p hp hp0
        have hstart : op.Addr + baseSize P op = (op.Addr / P.lineSize + 1) * P.lineSize := by
          have hsplit := Nat.div_add_mod op.Addr P.lineSize
          rw [heq, Nat.add_one_mul, Nat.mul_comm (op.Addr / P.lineSize)]
          omega
        rw [hstart, Nat.mul_mod_left]
    have hall : 0 < baseSize P op ∧ op.Size - baseSize P op ≤ (n - 1) * P.lineSize ∧
        (n - 1) * P.lineSize < op.Size - baseSize P op + P.lineSize →
        ∀ p ∈ cacheParts P op, InLine P.lineSize p.range := by
      intro h p hp
      exact hinLine p hp (tiles_pos (htiles.mpr h) p hp)
    have hmul : n * P.lineSize = (n - 1) * P.lineSize + P.lineSize := by
      rw [← Nat.add_one_mul, Nat.sub_add_cancel (by omega)]
    rw [hmul]
    generalize (n - 1) * P.lineSize = rest at hall ⊢
    constructor
    · rintro ⟨⟨h0, hle, hlast⟩, -, h1⟩
      omega
    · rintro ⟨h1, hle, hlast⟩
      have h : 0 < baseSize P op ∧ op.Size - baseSize P op ≤ rest ∧
          rest < op.Size - baseSize P op + P.lineSize := by omega
      exact ⟨h, hall h, h1⟩
  · have heq : baseSize P op = op.Size := by
      unfold baseSize
      rw [if_neg (by omega)]
    have hzero : n - 1 = 0 := by omega
    have hparts : cacheParts P op = [⟨op.Addr, op.Size, 0⟩] := by
      rw [cacheParts, hn, hzero, heq]
      rfl
    rw [hparts, heq, hzero]
    simp only [List.mem_singleton, forall_eq, Part.range, inLine_iff hpos hsize]
    constructor
    · rintro ⟨-, hline, h1⟩
      obtain rfl : n = 1 := by omega
      omega
    · rintro ⟨h1, hle, -⟩
      obtain rfl : n = 1 := by omega
      omega

/-- The ranges whose lines `getNumCacheLines` counts right: those in one line,
    those from the start of a line whose size is not a multiple of the line size,
    those from inside a line that are shorter than a line, and those from an
    offset of at least two whose last line they leave by less than the offset. -/
def LinesExact (P : Params) (Addr Size : ℕ) : Prop :=
  Addr % P.lineSize + Size ≤ P.lineSize ∨
    Addr % P.lineSize = 0 ∧ Size % P.lineSize ≠ 0 ∨
    Addr % P.lineSize ≠ 0 ∧ Size < P.lineSize ∨
    1 < Addr % P.lineSize ∧ Addr % P.lineSize + Size % P.lineSize ≤ P.lineSize

instance (P : Params) (Addr Size : ℕ) : Decidable (LinesExact P Addr Size) :=
  inferInstanceAs (Decidable (_ ∨ _))

theorem getNumCacheLines_iff {P : Params} (hpos : 0 < P.lineSize) {Addr Size : ℕ} (hsize : 0 < Size)
    (hwidth : Size < 2 ^ 32) :
    (1 ≤ getNumCacheLines P Addr Size ∧
      Addr % P.lineSize + Size ≤ getNumCacheLines P Addr Size * P.lineSize ∧
      getNumCacheLines P Addr Size * P.lineSize < Addr % P.lineSize + Size + P.lineSize) ↔
    LinesExact P Addr Size := by
  have hcache : P.hasCache = true := by simpa [Params.hasCache] using hpos
  have hlt := Nat.mod_lt Addr hpos
  have hmlt := Nat.mod_lt Size hpos
  have hsplit := Nat.div_add_mod Size P.lineSize
  unfold getNumCacheLines LinesExact
  simp only [hcache, Bool.not_true, Bool.false_eq_true, if_false]
  generalize Addr % P.lineSize = a at *
  by_cases hone : P.lineSize = 1
  · simp only [hone] at hlt ⊢
    obtain rfl : a = 0 := by omega
    simp only [ne_eq, not_true_eq_false, if_false, Nat.div_one, Nat.mul_one, Nat.mod_one, Nat.zero_add,
      and_false, false_and, or_false, Nat.not_lt_zero]
    split
    · omega
    · omega
  · have hquot : Size / P.lineSize + 1 < 2 ^ 32 := by
      have h2 : 2 ≤ P.lineSize := by omega
      have := Nat.div_le_div_left (a := Size) h2 (by decide : 0 < 2)
      omega
    generalize Size / P.lineSize = q at *
    generalize Size % P.lineSize = m at *
    have hcomm : P.lineSize * q = q * P.lineSize := Nat.mul_comm ..
    have hq : q = 0 ∨ P.lineSize ≤ q * P.lineSize := by
      rcases Nat.eq_zero_or_pos q with rfl | hqpos
      · exact .inl rfl
      · exact .inr (Nat.le_mul_of_pos_left _ hqpos)
    split
    · split
      · omega
      · split
        · omega
        · split
          · rw [Nat.mod_eq_of_lt hquot, Nat.add_one_mul]
            generalize q * P.lineSize = r at *
            omega
          · rw [Nat.mod_eq_of_lt (by omega), Nat.add_zero]
            generalize q * P.lineSize = r at *
            omega
    · split
      · omega
      · rw [Nat.mod_eq_of_lt hquot, Nat.add_one_mul]
        generalize q * P.lineSize = r at *
        omega

/-- The requests that a call has sent. -/
def sent (s s' : RevBasicMemCtrl) : List StdRqst := s'.memIface.drop s.memIface.length

/-- The operation as it was recorded with the requests. -/
def recorded (s s' : RevBasicMemCtrl) : List RevMemOp :=
  (s'.outstanding.drop s.outstanding.length).map Prod.snd

/-- The requests partition the operation along the cache lines. -/
structure Partitions (P : Params) (op : RevMemOp) (s s' : RevBasicMemCtrl) : Prop where
  tiles : Tiles op.Addr ((sent s s').map StdRqst.range) (op.Addr + op.Size)
  inLine : ∀ r ∈ sent s s', InLine P.lineSize r.range
  data : op.Op = .MemOpWRITE ∨ op.Op = .MemOpWRITEUNLOCK ∨ op.Op = .MemOpSTORECOND →
    ∀ r ∈ sent s s', r.data = (op.membuf.drop (r.pAddr - op.Addr)).take r.size
  count : ∀ o ∈ recorded s s', (sent s s').length = o.SplitRqst

theorem sent_eq {P : Params} {op : RevMemOp} {s s' : RevBasicMemCtrl}
    (hok : buildCacheMemRqst P s op = some (s', true)) :
    sent s s' = ((cacheParts P op).zipIdx s.nextId).map fun p =>
      mkRqst p.2 { op with SplitRqst := getNumCacheLines P op.Addr op.Size } p.1.addr p.1.size p.1.cur
        op.getStdFlags := by
  rw [buildCacheMemRqst_parts hok, sent, sendParts_memIface, List.drop_left]

theorem recorded_eq {P : Params} {op : RevMemOp} {s s' : RevBasicMemCtrl}
    (hok : buildCacheMemRqst P s op = some (s', true)) :
    recorded s s' = List.replicate (cacheParts P op).length
      { op with SplitRqst := getNumCacheLines P op.Addr op.Size } := by
  rw [buildCacheMemRqst_parts hok, recorded, sendParts_outstanding, List.drop_left, List.map_map]
  refine List.eq_replicate_iff.mpr ⟨by simp, ?_⟩
  intro o ho
  obtain ⟨id, -, rfl⟩ := List.mem_map.mp ho
  rfl

/-- The bytes that a part carries. -/
theorem sent_part {P : Params} {op : RevMemOp} {s s' : RevBasicMemCtrl}
    (hkind : op.Op ≠ .MemOpCUSTOM) (hok : buildCacheMemRqst P s op = some (s', true)) {r : StdRqst}
    (hr : r ∈ sent s s') :
    ∃ p ∈ cacheParts P op, r.range = p.range ∧
      r.data = rqstData { op with SplitRqst := getNumCacheLines P op.Addr op.Size } p.cur p.size := by
  rw [sent_eq hok] at hr
  obtain ⟨⟨p, id⟩, hp, rfl⟩ := List.mem_map.mp hr
  refine ⟨p, List.fst_mem_of_mem_zipIdx hp, ?_, ?_⟩
  · simp [mkRqst, hkind, StdRqst.range, Part.range]
  · simp [mkRqst, hkind]

theorem cacheParts_addr {P : Params} {op : RevMemOp} {p : Part} (hp : p ∈ cacheParts P op) :
    p.addr = op.Addr + p.cur := by
  rcases List.mem_cons.mp hp with rfl | hp
  · rfl
  · have haddr := ((lineParts_spec P _ _ _ _).2 p hp).2.1
    omega

theorem sent_range {P : Params} {op : RevMemOp} {s s' : RevBasicMemCtrl}
    (hkind : op.Op ≠ .MemOpCUSTOM) (hok : buildCacheMemRqst P s op = some (s', true)) :
    (sent s s').map StdRqst.range = (cacheParts P op).map Part.range := by
  rw [sent_eq hok, List.map_map]
  have hrange : StdRqst.range ∘ (fun p : Part × ℕ =>
      mkRqst p.2 { op with SplitRqst := getNumCacheLines P op.Addr op.Size } p.1.addr p.1.size p.1.cur
        op.getStdFlags) = Part.range ∘ Prod.fst := by
    funext p
    simp [mkRqst, hkind, StdRqst.range, Part.range]
  rw [hrange, ← List.map_map, List.zipIdx_map_fst]

theorem partitions_iff {P : Params} {op : RevMemOp} (hkind : op.Op ≠ .MemOpCUSTOM)
    {s s' : RevBasicMemCtrl} (hok : buildCacheMemRqst P s op = some (s', true)) :
    Partitions P op s s' ↔
      Tiles op.Addr ((cacheParts P op).map Part.range) (op.Addr + op.Size) ∧
        (∀ p ∈ cacheParts P op, InLine P.lineSize p.range) ∧
        (cacheParts P op).length = getNumCacheLines P op.Addr op.Size := by
  have hrange := sent_range hkind hok
  have hlength : (sent s s').length = (cacheParts P op).length := by
    simpa using congrArg List.length hrange
  have hlines : (∀ r ∈ sent s s', InLine P.lineSize r.range) ↔
      ∀ p ∈ cacheParts P op, InLine P.lineSize p.range := by
    rw [← List.forall_mem_map (f := StdRqst.range), hrange, List.forall_mem_map]
  have hcount : (∀ o ∈ recorded s s', (sent s s').length = o.SplitRqst) ↔
      (cacheParts P op).length = getNumCacheLines P op.Addr op.Size := by
    rw [recorded_eq hok, hlength]
    simp [cacheParts]
  constructor
  · intro h
    exact ⟨hrange ▸ h.tiles, hlines.mp h.inLine, hcount.mp h.count⟩
  · rintro ⟨htiles, hinLine, hlen⟩
    refine ⟨hrange ▸ htiles, hlines.mpr hinLine, ?_, hcount.mpr hlen⟩
    intro hwrite r hr
    obtain ⟨p, hp, hpr, hdata⟩ := sent_part hkind hok hr
    obtain ⟨haddr, hsize⟩ := Prod.mk.inj hpr
    rw [hdata, haddr, hsize, cacheParts_addr hp, Nat.add_sub_cancel_left]
    rcases hwrite with h | h | h
    · simp [rqstData, h]
    · simp [rqstData, h]
    · simp [rqstData, h]

/-- `buildCacheMemRqst` partitions an operation along the cache lines exactly if
    `getNumCacheLines` counts its lines right. -/
theorem buildCacheMemRqst_partitions_iff {P : Params} {k : ℕ} (hline : P.lineSize = 2 ^ k)
    {op : RevMemOp} (hsize : 1 ≤ op.Size) (hwidth : op.Size < 2 ^ 32) (hkind : op.Op ≠ .MemOpCUSTOM)
    {s s' : RevBasicMemCtrl} (hok : buildCacheMemRqst P s op = some (s', true)) :
    Partitions P op s s' ↔ LinesExact P op.Addr op.Size := by
  have hpos : 0 < P.lineSize := by
    rw [hline]
    exact Nat.two_pow_pos k
  rw [partitions_iff hkind hok, cacheParts_iff hpos hsize, getNumCacheLines_iff hpos hsize hwidth]

def splitParams : Params := { lineSize := 64 }

def splitWrite (Addr Size : ℕ) : RevMemOp :=
  { ptr := 0, seq := 0, Hart := 0, Addr, PAddr := Addr, Size, Op := .MemOpWRITE, flags := .F_NONE
    membuf := List.replicate Size 7 }

theorem splitWrite_partitions :
    ∃ s', buildCacheMemRqst splitParams {} (splitWrite 64 130) = some (s', true) ∧
      (sent {} s').map StdRqst.range = [(64, 64), (128, 64), (192, 2)] ∧
      Partitions splitParams (splitWrite 64 130) {} s' := by
  have hsome : ((buildCacheMemRqst splitParams {} (splitWrite 64 130)).map fun r =>
      ((sent {} r.1).map StdRqst.range, r.2)) = some ([(64, 64), (128, 64), (192, 2)], true) := by
    decide
  obtain ⟨⟨s', ok⟩, hok, hsent⟩ := Option.map_eq_some_iff.mp hsome
  obtain ⟨hrange, rfl⟩ := Prod.mk.inj hsent
  refine ⟨s', hok, hrange, ?_⟩
  exact (buildCacheMemRqst_partitions_iff (k := 6) rfl (by decide) (by decide) (by decide) hok).mpr
    (by decide)

/-- A line from the second byte of a line on is counted as one line and sent as
    one request. -/
theorem splitWrite_crosses :
    ∃ s', buildCacheMemRqst splitParams {} (splitWrite 65 64) = some (s', true) ∧
      (sent {} s').map StdRqst.range = [(65, 64)] ∧
      ¬Partitions splitParams (splitWrite 65 64) {} s' := by
  have hsome : ((buildCacheMemRqst splitParams {} (splitWrite 65 64)).map fun r =>
      ((sent {} r.1).map StdRqst.range, r.2)) = some ([(65, 64)], true) := by decide
  obtain ⟨⟨s', ok⟩, hok, hsent⟩ := Option.map_eq_some_iff.mp hsome
  obtain ⟨hrange, rfl⟩ := Prod.mk.inj hsent
  refine ⟨s', hok, hrange, fun h => ?_⟩
  have hlines := List.forall_mem_map.mpr h.inLine
  rw [hrange] at hlines
  exact absurd (hlines (65, 64) (List.mem_singleton_self _)) (by decide)

end RevBasicMemCtrl

end RevCPU
