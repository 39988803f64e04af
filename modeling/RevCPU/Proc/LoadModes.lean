import RevCPU.Mem.ReadAfterWrite
import RevCPU.MemCtrl.ReadBack
import RevCPU.Proc.LoadStore

namespace RevCPU

open Lib RevBasicMemCtrl

/-- The integer loads. -/
inductive IntLoad
  | lb | lbu | lh | lhu | lw | lwu | ld
  deriving DecidableEq, Repr

namespace IntLoad

def func : IntLoad → ImplFunc
  | lb => .lb
  | lbu => .lbu
  | lh => .lh
  | lhu => .lhu
  | lw => .lw
  | lwu => .lwu
  | ld => .ld

/-- The bytes that are loaded. -/
def size : IntLoad → ℕ
  | lb | lbu => 1
  | lh | lhu => 2
  | lw | lwu => 4
  | ld => 8

def signed : IntLoad → Bool
  | lb | lh | lw | ld => true
  | lbu | lhu | lwu => false

/-- The XLENs that have the load. -/
def avail (l : IntLoad) (IsRV32 : Bool) : Bool :=
  match l with
  | lwu | ld => !IsRV32
  | _ => true

theorem size_pos (l : IntLoad) : 0 < l.size := by cases l <;> decide

theorem size_le (l : IntLoad) : l.size ≤ 8 := by cases l <;> decide

/-- The value that the instruction set defines for the register: the bytes in
    memory, extended to XLEN. -/
def value (l : IntLoad) (xLen : ℕ) (mem : ℕ → UInt8) (A : ℕ) : ℕ :=
  extend l.signed (8 * l.size) (8 * xLen) (leNat (getBytes mem A l.size))

theorem value_congr (l : IntLoad) (xLen : ℕ) {g mem : ℕ → UInt8} {A : ℕ}
    (h : ∀ j < l.size, g (A + j) = mem (A + j)) : l.value xLen g A = l.value xLen mem A := by
  have hbytes : getBytes g A l.size = getBytes mem A l.size :=
    List.map_congr_left fun j hj => h j (List.mem_range.mp hj)
  rw [value, value, hbytes]

theorem runFunc_eq (l : IntLoad) (c : Core) (f : RevFeature) (i : RevInst) :
    c.runFunc f i l.func = c.load f i l.size l.signed := by
  cases l <;> rfl

end IntLoad

namespace RevMem

theorem SearchTLB_ctrl (m : RevMem) (x : Option RevBasicMemCtrl) (v : ℕ) :
    { m with ctrl := x }.SearchTLB v =
      ((m.SearchTLB v).1, { (m.SearchTLB v).2 with ctrl := x }) := by
  unfold SearchTLB
  simp only
  cases m.TLB.lookup v <;> rfl

theorem AddToTLB_ctrl (m : RevMem) (x : Option RevBasicMemCtrl) (v p : ℕ) :
    { m with ctrl := x }.AddToTLB v p = { m.AddToTLB v p with ctrl := x } := by
  unfold AddToTLB
  simp only
  cases m.TLB.lookup v with
  | some q => rfl
  | none =>
    simp only
    split <;> rfl

/-- A translation neither reads nor changes the controller. -/
theorem CalcPhysAddr_ctrl (m : RevMem) (x : Option RevBasicMemCtrl) (page v : ℕ) :
    { m with ctrl := x }.CalcPhysAddr page v =
      (m.CalcPhysAddr page v).map fun r => (r.1, { r.2 with ctrl := x }) := by
  unfold CalcPhysAddr
  rw [SearchTLB_ctrl]
  obtain ⟨p, m⟩ := m.SearchTLB v
  simp only
  split
  swap
  · rfl
  have hvalid : { m with ctrl := x }.isValidVirtAddr v = m.isValidVirtAddr v := rfl
  rw [hvalid]
  split
  swap
  · rfl
  cases m.pageMap.lookup page with
  | none =>
    simp only [Option.map_some]
    rw [← AddToTLB_ctrl]
  | some frame =>
    simp only [Option.map_some]
    rw [← AddToTLB_ctrl]

/-- The access at `A` can be served: the address is valid and its page has, or
    can be given, a frame of its own inside the memory. -/
structure Serves (m : RevMem) (A : ℕ) : Prop where
  ok : m.PageTableOk
  room : m.HasRoom {A / pageSize}
  valid : m.isValidVirtAddr A = true

theorem Serves.CalcPhysAddr {m : RevMem} {A : ℕ} (h : m.Serves A) :
    ∃ f m', m.CalcPhysAddr (A / pageSize) A = some (f * pageSize + A % pageSize, m') ∧
      m'.pageMap.lookup (A / pageSize) = some f ∧ Mapped m m' ∧ m'.Serves A := by
  obtain ⟨f, m', hcalc, hf, hmapped, hroom⟩ :=
    CalcPhysAddr_mapped h.ok h.room (by simp) h.valid
  refine ⟨f, m', hcalc, hf, hmapped, hmapped.ok, hroom, ?_⟩
  rw [hmapped.valid_eq]
  exact h.valid

/-- `translate` inside a page, with or without a controller. -/
theorem translate_inPage {m : RevMem} (h : m.PageTableOk) {pages : Finset ℕ} (hroom : m.HasRoom pages)
    {A L : ℕ} (hp : A / pageSize ∈ pages) (hvalid : m.isValidVirtAddr A = true)
    (hin : A % pageSize + L ≤ pageSize) (x : Option RevBasicMemCtrl) :
    ∃ f m', { m with ctrl := x }.translate A L =
        some (f * pageSize + A % pageSize, none, { m' with ctrl := x }) ∧
      m'.pageMap.lookup (A / pageSize) = some f ∧ Mapped m m' ∧ m'.HasRoom pages := by
  obtain ⟨f, m', hcalc, hf, hmapped, hroom'⟩ := CalcPhysAddr_mapped h hroom hp hvalid
  refine ⟨f, m', ?_, hf, hmapped, hroom'⟩
  have hlt := hmapped.ok.frame_lt _ _ hf
  have hinside := hmapped.ok.inside.1
  have hbase : frameBase f = f * pageSize := frameBase_eq (by omega)
  have hpage : { m' with ctrl := x }.pageAt (A / pageSize) = (f, { m' with ctrl := x }) :=
    pageAt_of_lookup hf
  have hend : (frameBase f + pageSize) % 2 ^ 32 = f * pageSize + pageSize := by
    rw [hbase]
    refine Nat.mod_eq_of_lt ?_
    simp only [maxFrames, pageSize] at *
    omega
  have hnot : ¬(f * pageSize + A % pageSize + L) % W64 > f * pageSize + pageSize := by
    have hle := Nat.mod_le (f * pageSize + A % pageSize + L) W64
    omega
  simp only [RevMem.translate, CalcPhysAddr_ctrl, hcalc, Option.map_some, hpage, hend,
    if_neg hnot]

theorem Serves.translate {m : RevMem} {A L : ℕ} (h : m.Serves A) (hin : A % pageSize + L ≤ pageSize)
    (x : Option RevBasicMemCtrl) :
    ∃ f m', { m with ctrl := x }.translate A L =
        some (f * pageSize + A % pageSize, none, { m' with ctrl := x }) ∧
      m'.pageMap.lookup (A / pageSize) = some f ∧ Mapped m m' ∧ m'.Serves A := by
  obtain ⟨f, m', htr, hf, hmapped, hroom⟩ := translate_inPage h.ok h.room (by simp) h.valid hin x
  refine ⟨f, m', htr, hf, hmapped, hmapped.ok, hroom, ?_⟩
  rw [hmapped.valid_eq]
  exact h.valid

/-- A memory of one page, the page of `A`, with given contents. -/
def onePage (A : ℕ) (mem : ℕ → UInt8) : RevMem :=
  { memSize := pageSize, maxHeapSize := pageSize, ThreadMemSize := STACK_SIZE,
    NextThreadMemAddr := pageSize, MemSegs := [MemSegment.new A 1 false],
    pageMap := [(A / pageSize, 0)], nextPage := 1,
    physMem := fun a => if a < pageSize then mem (A / pageSize * pageSize + a) else 0 }

theorem onePage_serves {A : ℕ} (hA : A + 1 < W64) (mem : ℕ → UInt8) : (onePage A mem).Serves A := by
  have htop : (A + 1) % W64 = A + 1 := Nat.mod_eq_of_lt hA
  have hroom : 1 ≤ maxFrames ∧ 1 * pageSize ≤ pageSize := by decide
  refine ⟨⟨rfl, ?_, ?_, ?_, by simp [onePage], ?_, hroom⟩, ?_, ?_⟩
  · simp [onePage, MemSegment.new, htop, hA]
  · intro p f hf
    simp only [onePage, List.lookup_cons, List.lookup_nil] at hf ⊢
    split at hf <;> simp_all
  · intro p q f hp hq
    simp only [onePage, List.lookup_cons, List.lookup_nil] at hp hq
    split at hp <;> split at hq <;> simp_all
  · intro a ha
    have hle : pageSize ≤ a := by simpa [onePage] using ha
    exact if_neg (by omega)
  · have hcard : (({A / pageSize} : Finset ℕ).filter fun p =>
        (onePage A mem).pageMap.lookup p = none) = ∅ := by
      simp [onePage, Finset.filter_singleton]
    unfold HasRoom
    rw [hcard]
    exact hroom
  · simp [isValidVirtAddr, onePage, MemSegment.new, MemSegment.contains, htop]

theorem onePage_view {A : ℕ} (mem : ℕ → UInt8) {j : ℕ} (hin : A % pageSize + j < pageSize) :
    (onePage A mem).view (A + j) = mem (A + j) := by
  have hdiv : (A + j) / pageSize = A / pageSize := by
    unfold pageSize at *
    omega
  have hmod : (A + j) % pageSize = A % pageSize + j := by
    unfold pageSize at *
    omega
  have hA := Nat.div_add_mod' A pageSize
  simp only [view, hdiv, hmod, onePage, List.lookup_cons, beq_self_eq_true, Nat.zero_mul,
    Nat.zero_add, if_pos hin]
  congr 1
  omega

/-- `ReadMem` inside a page copies the bytes of the memory to the target. -/
theorem Serves.ReadMem_local {m : RevMem} {A L : ℕ} (h : m.Serves A)
    (hin : A % pageSize + L ≤ pageSize) (host : Host) (Hart Target : ℕ) (req : MemReq)
    (flags : RevFlag) :
    ∃ m', m.ReadMem host Hart A L Target req flags =
        some (m', completeRead (host.write Target 0 (getBytes m.view A L)) req) ∧
      m'.Serves A ∧ m'.view = m.view := by
  obtain ⟨f, m', htr, hf, hmapped, hserves⟩ := h.translate hin m.ctrl
  have hctrl : { m' with ctrl := m.ctrl } = m' := by rw [h.ok.ctrl, ← hmapped.ok.ctrl]
  rw [hctrl] at htr
  refine ⟨m', ?_, hserves, funext (hmapped.view_eq h.ok)⟩
  unfold ReadMem
  simp only [htr, hmapped.ok.ctrl, physRead_parts hmapped h.ok hf hin, Option.map_some]
  rfl

/-- With a controller it sends one read request. -/
theorem Serves.ReadMem_ctrl {m : RevMem} {A L : ℕ} (h : m.Serves A)
    (hin : A % pageSize + L ≤ pageSize) (ctrl : RevBasicMemCtrl) (host : Host) (Hart Target : ℕ)
    (req : MemReq) (flags : RevFlag) :
    ∃ (m' : RevMem) (p : ℕ), { m with ctrl := some ctrl }.ReadMem host Hart A L Target req flags =
      some ({ m' with ctrl := some (ctrl.sendREADRequest Hart A p L Target req flags) }, host) := by
  obtain ⟨f, m', htr, -, -, -⟩ := h.translate hin (some ctrl)
  refine ⟨m', f * pageSize + A % pageSize, ?_⟩
  unfold ReadMem
  simp only [htr]

end RevMem

namespace RevRegFile

@[simp] theorem AdvancePC_X (R : RevRegFile) (i : RevInst) : (R.AdvancePC i).X = R.X := rfl

theorem xLen_le (R : RevRegFile) : R.xLen ≤ 8 := by
  unfold xLen
  split <;> decide

@[simp] theorem SetX_IsRV32 (R : RevRegFile) (rd v : ℕ) : (R.SetX rd v).IsRV32 = R.IsRV32 := rfl

/-- What is read back after `SetX`. -/
theorem GetX_SetX (R : RevRegFile) {rd : ℕ} (hrd : rd ≠ 0) (v : ℕ) (i : RevInst) :
    ((R.SetX rd v).AdvancePC i).GetX rd = v % 2 ^ (8 * R.xLen) := by
  have hread := getBytes_setBytes R.X (R.xOff rd) (leBytes R.xLen v)
  rw [leBytes_length] at hread
  have hX : getBytes ((R.SetX rd v).AdvancePC i).X (R.xOff rd) R.xLen = leBytes R.xLen v := by
    simpa [SetX, hrd] using hread
  have hget : ((R.SetX rd v).AdvancePC i).GetX rd =
      leNat (getBytes ((R.SetX rd v).AdvancePC i).X (R.xOff rd) R.xLen) := if_pos hrd
  rw [hget, hX, leNat_leBytes, pow256]

end RevRegFile

theorem IntLoad.size_le_xLen (l : IntLoad) {R : RevRegFile} (hav : l.avail R.IsRV32 = true) :
    l.size ≤ R.xLen := by
  unfold RevRegFile.xLen
  cases hrv : R.IsRV32 with
  | true =>
    rw [hrv] at hav
    cases l with
    | lwu | ld => exact absurd hav (by decide)
    | _ => decide
  | false => exact l.size_le

namespace Core

/-- What has been written into an object is read back. -/
theorem host_read_write (h : Host) (p : ℕ) (bytes : List UInt8) :
    (h.write p 0 bytes).read p bytes.length = bytes := by
  refine List.ext_getElem (by simp) ?_
  intro j hj hj'
  simp only [Host.read, List.getElem_map, List.getElem_range, Host.write_cell]
  rw [if_pos (by omega)]
  simp [hj']

theorem castLoad_eq {n : ℕ} (hn : n ≤ 8) (signed : Bool) (val : ℕ) :
    castLoad n signed val = extend signed (8 * n) 64 val := by
  unfold castLoad extend
  split
  · rfl
  · have hlt := (BitVec.ofNat (8 * n) val).isLt
    have hpow : 2 ^ (8 * n) ≤ 2 ^ 64 := Nat.pow_le_pow_right (by decide) (by omega)
    rw [BitVec.toNat_setWidth, Nat.mod_eq_of_lt (by omega)]

/-- The flags of a load. -/
def loadFlags (IsRV32 : Bool) (l : IntLoad) : RevFlag :=
  if l.size < (if IsRV32 then 4 else 8) then
    match l.signed, IsRV32 with
    | true, true => .F_SEXT32
    | false, true => .F_ZEXT32
    | true, false => .F_SEXT64
    | false, false => .F_ZEXT64
  else .F_NONE

/-- A load that its XLEN has works on the whole register. -/
theorem load_eq (c : Core) (f : RevFeature) (i : RevInst) {l : IntLoad}
    (hav : l.avail c.R.IsRV32 = true) :
    c.load f i l.size l.signed =
      (c.readX f i (c.R.xOff i.rd) l.size (loadFlags c.R.IsRV32 l)).map fun d =>
        { d with R := (d.R.SetX i.rd (castLoad l.size l.signed
            (leNat (getBytes d.R.X (c.R.xOff i.rd) c.R.xLen)))).AdvancePC i } := by
  unfold load RevRegFile.xOff RevRegFile.xLen
  cases hrv : c.R.IsRV32 with
  | true =>
    rw [hrv] at hav
    cases l with
    | lwu | ld => exact absurd hav (by decide)
    | _ => rfl
  | false => cases l <;> rfl

section
variable {c : Core} (f : RevFeature) {i : RevInst} {l : IntLoad}

/-- A load with local memory. -/
theorem load_local (hav : l.avail c.R.IsRV32 = true) (hrd : i.rd ≠ 0)
    (hs : c.M.Serves (c.effAddr i))
    (hin : c.effAddr i % RevMem.pageSize + l.size ≤ RevMem.pageSize) :
    ∃ c', c.runFunc f i l.func = some c' ∧
      c'.R.GetX i.rd = l.value c.R.xLen c.M.view (c.effAddr i) := by
  obtain ⟨m', hread, -, -⟩ := hs.ReadMem_local hin ⟨fun _ j => c.R.X (c.R.xOff i.rd + j), []⟩
    f.HartToExecID (c.R.xOff i.rd) (c.loadReq f i .RegGPR) (loadFlags c.R.IsRV32 l)
  have hlen := l.size_le_xLen hav
  rw [l.runFunc_eq, load_eq c f i hav, readX]
  simp only [loadReq] at hread ⊢
  rw [hread]
  refine ⟨_, rfl, ?_⟩
  rw [RevRegFile.GetX_SetX _ hrd, castLoad_eq l.size_le]
  have hbytes := host_read_write ⟨fun _ j => c.R.X (c.R.xOff i.rd + j), []⟩ (c.R.xOff i.rd)
    (getBytes c.M.view (c.effAddr i) l.size)
  rw [getBytes_length] at hbytes
  change extend l.signed (8 * l.size) 64 (leNat (getBytes (setBytes c.R.X (c.R.xOff i.rd)
    (Host.read (Host.write ⟨fun _ j => c.R.X (c.R.xOff i.rd + j), []⟩ (c.R.xOff i.rd) 0
      (getBytes c.M.view (c.effAddr i) l.size)) (c.R.xOff i.rd) l.size)) (c.R.xOff i.rd) c.R.xLen)) %
    2 ^ (8 * c.R.xLen) = _
  rw [hbytes, extend_mod _ _ (by have := c.R.xLen_le; omega)]
  apply extend_congr
  rw [← pow256, getBytes, leNat_map_range_mod _ hlen, ← getBytes]
  have hstored := getBytes_setBytes c.R.X (c.R.xOff i.rd) (getBytes c.M.view (c.effAddr i) l.size)
  rw [getBytes_length] at hstored
  rw [hstored, getBytes, leNat_map_range_mod _ (Nat.le_refl _)]

/-- A load with a controller: the request is sent and the register is extended
    before the bytes have come. -/
theorem load_ctrl (hav : l.avail c.R.IsRV32 = true) {m : RevMem} {ctrl : RevBasicMemCtrl}
    (hm : c.M = { m with ctrl := some ctrl }) (hs : m.Serves (c.effAddr i))
    (hin : c.effAddr i % RevMem.pageSize + l.size ≤ RevMem.pageSize) :
    ∃ c' p, c.runFunc f i l.func = some c' ∧ c'.R.IsRV32 = c.R.IsRV32 ∧
      c'.M.ctrl = some (ctrl.sendREADRequest f.HartToExecID (c.effAddr i) p l.size
        (c.R.xOff i.rd) (c.loadReq f i .RegGPR) (loadFlags c.R.IsRV32 l)) := by
  obtain ⟨m', p, hread⟩ := hs.ReadMem_ctrl hin ctrl ⟨fun _ j => c.R.X (c.R.xOff i.rd + j), []⟩
    f.HartToExecID (c.R.xOff i.rd) (c.loadReq f i .RegGPR) (loadFlags c.R.IsRV32 l)
  rw [← hm] at hread
  rw [l.runFunc_eq, load_eq c f i hav, readX]
  simp only [loadReq] at hread ⊢
  rw [hread]
  exact ⟨_, p, rfl, rfl, rfl⟩

end

/-- `handleReadResp` for the responses to a load into the register at `off`. -/
def receive (R : RevRegFile) (ctrl : RevBasicMemCtrl) (off : ℕ) (evs : List ReadResp) :
    Option (RevBasicMemCtrl × RevRegFile) :=
  (ctrl.handleReadResps ⟨fun q j => R.X (q + j), []⟩ evs).map fun (ctrl, h) =>
    (ctrl, { R with
              X := setBytes R.X off (h.read off R.xLen)
              completed := R.completed ++ h.completed })

/-- `handleFlagResp` extends the value of a load to XLEN. -/
theorem handleFlagResp_load {h h' : Host} {op : RevMemOp} {p : ℕ} {l : IntLoad} {IsRV32 : Bool}
    (hav : l.avail IsRV32 = true) (htgt : op.target = some p) (hsize : op.Size = l.size)
    (hflags : op.flags = loadFlags IsRV32 l) (hresp : handleFlagResp h op = some h') :
    leNat (h'.read p (if IsRV32 then 4 else 8)) =
      extend l.signed (8 * l.size) (8 * if IsRV32 then 4 else 8) (leNat (h.read p l.size)) := by
  have hpos := l.size_pos
  unfold handleFlagResp extendTarget at hresp
  simp only [htgt, hsize, hflags, Option.map_some] at hresp
  by_cases hlt : l.size < if IsRV32 then 4 else 8
  · unfold loadFlags at hresp
    rw [if_pos hlt] at hresp
    cases hsigned : l.signed <;> cases IsRV32 <;> simp only [hsigned] at hresp
    · obtain rfl := Option.some.inj ((if_pos hlt).symm.trans hresp)
      exact h.zeroExt_read p hlt
    · obtain rfl := Option.some.inj ((if_pos hlt).symm.trans hresp)
      exact h.zeroExt_read p hlt
    · obtain rfl := Option.some.inj ((if_pos hlt).symm.trans hresp)
      exact h.signExt_read p hpos hlt
    · obtain rfl := Option.some.inj ((if_pos hlt).symm.trans hresp)
      exact h.signExt_read p hpos hlt
  · have heq : l.size = if IsRV32 then 4 else 8 := by
      cases l <;> cases IsRV32 <;>
        first | rfl | exact absurd hav (by decide) | exact absurd (by decide) hlt
    have hnone : loadFlags IsRV32 l = .F_NONE := if_neg hlt
    rw [hnone] at hresp
    obtain rfl : h = h' := by simpa [RevFlagHas, RevFlag.F_NONE] using hresp
    rw [← heq, extend_self, ← pow256]
    have hval := leNat_lt (h.read p l.size)
    rw [Host.read_length] at hval
    exact (Nat.mod_eq_of_lt hval).symm

/-- The call that a load makes on the controller. -/
def loadCall (c : Core) (f : RevFeature) (i : RevInst) (l : IntLoad) (PAddr : ℕ) : Call :=
  .READ f.HartToExecID (c.effAddr i) PAddr l.size (some (c.R.xOff i.rd)) (c.loadReq f i .RegGPR)
    (loadFlags c.R.IsRV32 l)

theorem loadFlags_cacheable (IsRV32 : Bool) (l : IntLoad) : loadFlags IsRV32 l &&& 0b10 = 0 := by
  cases l <;> cases IsRV32 <;> decide

theorem loadFlags_ok (IsRV32 : Bool) (l : IntLoad) : ExtOk (loadFlags IsRV32 l) l.size := by
  cases l <;> cases IsRV32 <;> decide

theorem loadOp_cacheable (R : RevRegFile) (D : RevMem) (f : RevFeature) (i : RevInst) (l : IntLoad)
    (PAddr k : ℕ) : ((loadCall ⟨R, D⟩ f i l PAddr).memOp k).isCacheable = true :=
  beq_iff_eq.mpr (loadFlags_cacheable R.IsRV32 l)

/-- The address of a load with the registers `R`. -/
def loadAddr (R : RevRegFile) (i : RevInst) : ℕ :=
  (R.GetX i.rs1 + ((i.ImmSignExt 12).signExtend 64).toNat) % W64

/-- The modes of the memory agree on a load with the registers `R`: with local
    memory, and with a controller in any reachable state, however the operation
    is dispatched and in whatever order its responses come, the register gets
    the extended value in memory. -/
def ModesAgree (P : Params) (f : RevFeature) (i : RevInst) (l : IntLoad) (R : RevRegFile) : Prop :=
  ∀ (M D : RevMem) (mem : ℕ → UInt8) (host : Host) (tr : List (CtrlSys × Event)) (s : CtrlSys),
    M.Serves (loadAddr R i) → D.Serves (loadAddr R i) →
    (∀ j < l.size, M.view (loadAddr R i + j) = mem (loadAddr R i + j)) →
    Run (CtrlSys.step P) (CtrlSys.init host) tr s → s.tick = none →
    ∃ c d PAddr s₁,
      runFunc ⟨R, M⟩ f i l.func = some c ∧
      c.R.GetX i.rd = l.value R.xLen mem (loadAddr R i) ∧
      runFunc ⟨R, { D with ctrl := some s.ctrl }⟩ f i l.func = some d ∧
      s.step P (.send (loadCall ⟨R, D⟩ f i l PAddr)) = some s₁ ∧ d.M.ctrl = some s₁.ctrl ∧
      ∀ tr' s' j evs, Run (CtrlSys.step P) s₁ tr' s' →
        s'.ctrl.rqstQ[j]? = some ((loadCall ⟨R, D⟩ f i l PAddr).memOp s.ctrl.nextPtr) →
        evs.Perm (readAnswers P s'.ctrl.nextId
          ((loadCall ⟨R, D⟩ f i l PAddr).memOp s.ctrl.nextPtr) mem) →
        ∃ ctrl R', receive d.R (dispatchSlot P s'.ctrl j
            ((loadCall ⟨R, D⟩ f i l PAddr).memOp s.ctrl.nextPtr)) (R.xOff i.rd) evs =
              some (ctrl, R') ∧
          R'.GetX i.rd = l.value R.xLen mem (loadAddr R i)

section
variable {P : Params} {f : RevFeature} {i : RevInst} {l : IntLoad} {R : RevRegFile}

/-- What the responses leave in the register: the bytes that the parts of the
    load cover come from the memory, the others from the register, and the
    result is extended. -/
theorem receive_spec {R₁ : RevRegFile} {D : RevMem} {mem : ℕ → UInt8} {PAddr k : ℕ} {s : CtrlSys}
    (hav : l.avail R.IsRV32 = true) (hrd : i.rd ≠ 0) (hs : s.Wf) (hrv : R₁.IsRV32 = R.IsRV32)
    (hissued : (k, loadCall ⟨R, D⟩ f i l PAddr) ∈ s.issued) {op : RevMemOp}
    (hop : op = (loadCall ⟨R, D⟩ f i l PAddr).memOp k) {j : ℕ} (hslot : s.ctrl.rqstQ[j]? = some op)
    {evs : List ReadResp} (hperm : evs.Perm (readAnswers P s.ctrl.nextId op mem)) :
    ∃ (ctrl : RevBasicMemCtrl) (R' : RevRegFile) (h : Host),
      receive R₁ (dispatchSlot P s.ctrl j op) (R.xOff i.rd) evs = some (ctrl, R') ∧
      R'.GetX i.rd = extend l.signed (8 * l.size) (8 * R.xLen)
        (leNat (h.read (R.xOff i.rd) l.size)) ∧
      ∀ b, ((∃ p ∈ dispatchParts P op, p.cur ≤ b ∧ b < p.cur + p.size) →
            h.cell (R.xOff i.rd) b = mem (loadAddr R i + b)) ∧
        ((¬∃ p ∈ dispatchParts P op, p.cur ≤ b ∧ b < p.cur + p.size) →
            h.cell (R.xOff i.rd) b = R₁.X (R.xOff i.rd + b)) := by
  have hseq : op.seq = k := by rw [hop, Call.memOp_seq]
  have hkind : op.Op = .MemOpREAD := by rw [hop]; rfl
  have hawaits := hs.awaits hslot (by rw [hkind]; exact ⟨by decide, by decide⟩) hperm
  have hplain : (dispatchSlot P s.ctrl j op).AMOTable.any (AMOEntry.isFor (splitOp P op)) = false := by
    rw [dispatchSlot_AMOTable]
    exact hs.not_tabled (List.mem_of_getElem? hslot) (hseq ▸ hissued) rfl
  have htgt : (splitOp P op).target = some (R.xOff i.rd) := by rw [splitOp_target, hop]; rfl
  have hsize : (splitOp P op).Size = l.size := by rw [splitOp_Size, hop]; rfl
  have hflags : (splitOp P op).flags = loadFlags R.IsRV32 l := by rw [splitOp_flags, hop]; rfl
  have haddr : (splitOp P op).Addr = loadAddr R i := by rw [splitOp_Addr, hop]; rfl
  have hne : evs ≠ [] := by
    rintro rfl
    have hlen := hperm.length_eq
    simp only [readAnswers, List.length_nil, List.length_map, List.length_zipIdx] at hlen
    exact dispatchParts_ne_nil P op (List.length_eq_zero_iff.mp hlen.symm)
  obtain ⟨ctrl', h₁, hbytes, hresps⟩ := hawaits.handleReadResps_load hne hplain htgt
    (by rw [hsize]; exact l.size_le) (fun ev hev => readAnswers_answers (hperm.subset hev))
    ⟨fun q j => R₁.X (q + j), []⟩
  obtain ⟨h₂, hflag⟩ := handleFlagResp_isSome h₁
    (by rw [hflags, hsize]; exact loadFlags_ok R.IsRV32 l) htgt
  rw [hflag] at hresps
  refine ⟨ctrl', _, h₁, by rw [receive, hresps]; rfl, ?_, ?_⟩
  · have hlen : (if R.IsRV32 = true then 4 else 8) = R.xLen := rfl
    have hval := handleFlagResp_load hav htgt hsize hflags hflag
    rw [hlen] at hval
    rw [← hval]
    have hxLen : R₁.xLen = R.xLen := by rw [RevRegFile.xLen, RevRegFile.xLen, hrv]
    have hstored := getBytes_setBytes R₁.X (R.xOff i.rd) (h₂.read (R.xOff i.rd) R.xLen)
    rw [Host.read_length] at hstored
    have hget : ∀ X completed, RevRegFile.GetX { R₁ with X, completed } i.rd =
        leNat (getBytes X (R.xOff i.rd) R.xLen) := by
      intro X completed
      simp only [RevRegFile.GetX, RevRegFile.xOff, RevRegFile.xLen, hrv, if_pos hrd]
    have hmark : (h₂.MarkLoadComplete (splitOp P op).procReq).read (R.xOff i.rd) R₁.xLen =
        h₂.read (R.xOff i.rd) R.xLen := by rw [hxLen]; rfl
    rw [hget, hmark, hstored]
  · intro b
    rw [← readAnswers_brings s.ctrl.nextId mem]
    obtain ⟨hsome, hnone⟩ := hbytes b
    rw [haddr] at hsome
    refine ⟨?_, ?_⟩
    · rintro ⟨ev, hev, hbrings⟩
      exact hsome ⟨ev, hperm.symm.subset hev, hbrings⟩
    · intro hnot
      exact hnone fun ev hev hbrings => hnot ⟨ev, hperm.subset hev, hbrings⟩

/-- A call stays in the history. -/
theorem issued_of_run {P : Params} {s s' : CtrlSys} {tr : List (CtrlSys × Event)} {q : ℕ × Call}
    (hrun : Run (CtrlSys.step P) s tr s') (hs : s.Wf) (hq : q ∈ s.issued) :
    s'.Wf ∧ q ∈ s'.issued := by
  refine (hrun.invariant_of_step (fun s => s.Wf ∧ q ∈ s.issued) ⟨hs, hq⟩ ?_).1
  rintro s ev s' ⟨hs, hq⟩ hstep
  have hstepped := CtrlSys.step_cases hstep
  refine ⟨hstepped.wf hs, ?_⟩
  cases hstepped with
  | send => exact List.mem_append.mpr (.inl hq)
  | _ => exact hq

theorem linesReach_one (P : Params) (A : ℕ) {n : ℕ} (hn : n ≤ 1) : LinesReach P A n := by
  refine .inl ?_
  unfold getNumCacheLines
  cases hcache : P.hasCache with
  | false => simp
  | true =>
    have hpos : 0 < P.lineSize := by simpa [Params.hasCache] using hcache
    have hlt := Nat.mod_lt A hpos
    simp only [Bool.not_true, Bool.false_eq_true, if_false]
    split
    · rw [if_pos (by omega)]
    · rw [if_pos (by omega)]

/-- A load whose lines reach its last byte. -/
theorem modesAgree_of_linesReach (hav : l.avail R.IsRV32 = true) (hrd : i.rd ≠ 0)
    (hin : loadAddr R i % RevMem.pageSize + l.size ≤ RevMem.pageSize)
    (hreach : LinesReach P (loadAddr R i) l.size) : ModesAgree P f i l R := by
  intro M D mem host tr s hM hD hview hrun htick
  obtain ⟨c, hc, hcval⟩ := load_local (c := ⟨R, M⟩) f hav hrd hM hin
  obtain ⟨d, p, hd, hdrv, hdctrl⟩ :=
    load_ctrl (c := ⟨R, { D with ctrl := some s.ctrl }⟩) f hav rfl hD hin
  have hwf : s.Wf := (hrun.invariant_of_step CtrlSys.Wf (CtrlSys.init_wf host)
    (fun s ev s' hs hstep => (CtrlSys.step_cases hstep).wf hs)).1
  have henq : (loadCall ⟨R, D⟩ f i l p).enqueues = true := by
    cases l <;> rfl
  have hsend : s.step P (.send (loadCall ⟨R, D⟩ f i l p)) = some { s with
      ctrl := (loadCall ⟨R, D⟩ f i l p).apply s.ctrl
      issued := s.issued ++ [(s.ctrl.nextPtr, loadCall ⟨R, D⟩ f i l p)] } := by
    simp only [CtrlSys.step, htick, Option.isSome_none, Bool.false_eq_true, if_false, henq, if_true]
  have hwf₁ := (CtrlSys.step_cases hsend).wf hwf
  refine ⟨c, d, p, _, hc, ?_, hd, hsend, hdctrl, ?_⟩
  · rw [hcval]
    exact l.value_congr _ hview
  · intro tr' s' j evs hrun' hslot hperm
    obtain ⟨hwf', hissued⟩ := issued_of_run hrun' hwf₁ (q := (s.ctrl.nextPtr, _))
      (List.mem_append.mpr (.inr (List.mem_singleton.mpr rfl)))
    obtain ⟨ctrl, R', h, hrecv, hval, hbytes⟩ :=
      receive_spec hav hrd hwf' hdrv hissued rfl hslot hperm
    refine ⟨ctrl, R', hrecv, ?_⟩
    have hcovered := (covered_iff (loadOp_cacheable R D f i l p s.ctrl.nextPtr)).mpr hreach
    have hread : h.read (R.xOff i.rd) l.size = getBytes mem (loadAddr R i) l.size :=
      List.map_congr_left fun b hb => (hbytes b).1 (hcovered b (List.mem_range.mp hb))
    rw [hval, hread]
    rfl

/-- A load whose lines end before its last byte keeps a byte of the register. -/
theorem linesReach_of_modesAgree (hav : l.avail R.IsRV32 = true) (hrd : i.rd ≠ 0)
    (hin : loadAddr R i % RevMem.pageSize + l.size ≤ RevMem.pageSize)
    (hagree : ModesAgree P f i l R) : LinesReach P (loadAddr R i) l.size := by
  by_contra hreach
  have hA : loadAddr R i + 1 < W64 := by
    have htwo : 2 ≤ l.size := by
      by_contra hone
      exact hreach (linesReach_one P (loadAddr R i) (by omega))
    have hlt : loadAddr R i < W64 := Nat.mod_lt _ (by decide)
    simp only [RevMem.pageSize, W64] at *
    omega
  let D := RevMem.onePage (loadAddr R i) fun _ => 0
  let s := CtrlSys.init ⟨fun _ _ => 0, []⟩
  obtain ⟨d, -, hd, hdrv, -⟩ := load_ctrl (c := ⟨R, { D with ctrl := some s.ctrl }⟩) f hav rfl
    (RevMem.onePage_serves hA _) hin
  obtain ⟨b, hb, hmissing⟩ : ∃ b < l.size, ¬∃ p ∈ dispatchParts P
      ((loadCall ⟨R, D⟩ f i l 0).memOp 0), p.cur ≤ b ∧ b < p.cur + p.size := by
    have hnot := mt (covered_iff (P := P) (loadOp_cacheable R D f i l 0 0)).mp hreach
    by_contra hall
    exact hnot fun b hb => by_contra fun hmissing => hall ⟨b, hb, hmissing⟩
  let mem : ℕ → UInt8 := fun a =>
    if a = loadAddr R i + b then d.R.X (R.xOff i.rd + b) + 1 else 0
  obtain ⟨c, d', PAddr, s₁, -, -, hd', hsend, -, hrecv⟩ := hagree
    (RevMem.onePage (loadAddr R i) mem) D mem ⟨fun _ _ => 0, []⟩ [] s
    (RevMem.onePage_serves hA _) (RevMem.onePage_serves hA _)
    (fun j hj => RevMem.onePage_view mem (by omega)) .nil rfl
  obtain rfl := Option.some.inj (hd.symm.trans hd')
  have henq : (loadCall ⟨R, D⟩ f i l PAddr).enqueues = true := by
    cases l <;> rfl
  have hs₁ : { s with
      ctrl := (loadCall ⟨R, D⟩ f i l PAddr).enqueued s.ctrl
      issued := [(0, loadCall ⟨R, D⟩ f i l PAddr)] } = s₁ := by
    simpa [CtrlSys.step, s, CtrlSys.init, henq, Call.apply_eq] using hsend
  have hslot : s₁.ctrl.rqstQ[0]? = some ((loadCall ⟨R, D⟩ f i l PAddr).memOp s.ctrl.nextPtr) := by
    rw [← hs₁]
    rfl
  have hwf₁ : s₁.Wf := (CtrlSys.step_cases hsend).wf (CtrlSys.init_wf _)
  have hissued : (0, loadCall ⟨R, D⟩ f i l PAddr) ∈ s₁.issued := by
    rw [← hs₁]
    simp
  obtain ⟨ctrl, R', hgot, hvalue⟩ := hrecv [] s₁ 0 _ .nil hslot (List.Perm.refl _)
  obtain ⟨ctrl', R'', h, hgot', hval, hbytes⟩ :=
    receive_spec hav hrd hwf₁ hdrv hissued rfl hslot (List.Perm.refl _)
  obtain ⟨-, rfl⟩ := Prod.mk.inj (Option.some.inj (hgot.symm.trans hgot'))
  have hparts : dispatchParts P ((loadCall ⟨R, D⟩ f i l PAddr).memOp 0) =
      dispatchParts P ((loadCall ⟨R, D⟩ f i l 0).memOp 0) := dispatchParts_congr rfl rfl rfl
  have hold := (hbytes b).2 (by rw [hparts]; exact hmissing)
  have hnum : leNat (h.read (R.xOff i.rd) l.size) = leNat (getBytes mem (loadAddr R i) l.size) := by
    have hle : 8 * l.size ≤ 8 * R.xLen := by
      have := l.size_le_xLen hav
      omega
    have hmod := extend_inj hle (hval.symm.trans hvalue)
    have hlt := leNat_lt (h.read (R.xOff i.rd) l.size)
    have hlt' := leNat_lt (getBytes mem (loadAddr R i) l.size)
    rw [Host.read_length] at hlt
    rw [getBytes_length] at hlt'
    rwa [← pow256, Nat.mod_eq_of_lt hlt, Nat.mod_eq_of_lt hlt'] at hmod
  have hbyte : h.cell (R.xOff i.rd) b = mem (loadAddr R i + b) := by
    have hleft := byte_leNat (h.read (R.xOff i.rd) l.size) (i := b) (by simpa using hb)
    have hright := byte_leNat (getBytes mem (loadAddr R i) l.size) (i := b) (by simpa using hb)
    rw [hnum, hright, getBytes_getD _ _ hb, Host.read_getD _ _ hb] at hleft
    exact hleft.symm
  rw [hold] at hbyte
  simp only [mem, if_true] at hbyte
  exact absurd hbyte (by simp)

/-- The modes agree exactly when the lines reach the last byte of the load. -/
theorem modesAgree_iff (hav : l.avail R.IsRV32 = true) (hrd : i.rd ≠ 0)
    (hin : loadAddr R i % RevMem.pageSize + l.size ≤ RevMem.pageSize) :
    ModesAgree P f i l R ↔ LinesReach P (loadAddr R i) l.size :=
  ⟨linesReach_of_modesAgree hav hrd hin, modesAgree_of_linesReach hav hrd hin⟩

end

/-- `ld x5, 1(x0)` on RV64 with all registers zero. -/
def ldInst : RevInst := { opcode := 0b0000011, funct3 := 0b011, rd := 5, rs1 := 0, imm := 1, instSize := 4 }

def zeroRegs : RevRegFile := { IsRV32 := false, HasD := true, X := fun _ => 0, FP := fun _ => 0, PC := 0 }

def lastByte (a : ℕ) : UInt8 := if a = 8 then 1 else 0

/-- Lines of 4 bytes: `getNumCacheLines` counts two lines for the 8 bytes from
    address 1 on, and the last byte is not loaded. -/
theorem ld_loses_byte :
    (runFunc ⟨zeroRegs, RevMem.onePage 1 lastByte⟩ { IsRV64 := true } ldInst .ld).map
        (fun c => c.R.GetX 5) = some (2 ^ 56) ∧
      ((runFunc ⟨zeroRegs, { RevMem.onePage 1 lastByte with ctrl := some {} }⟩ { IsRV64 := true }
          ldInst .ld).bind fun d => d.M.ctrl.bind fun ctrl => ctrl.rqstQ[0]?.bind fun op =>
            (receive d.R (dispatchSlot { lineSize := 4 } ctrl 0 op) 40
              (readAnswers { lineSize := 4 } ctrl.nextId op lastByte)).map
                fun r => r.2.GetX 5) = some 0 ∧
      ¬ModesAgree { lineSize := 4 } { IsRV64 := true } ldInst .ld zeroRegs := by
  refine ⟨by decide +kernel, by decide +kernel, ?_⟩
  intro hagree
  have hreach := linesReach_of_modesAgree (P := { lineSize := 4 }) (l := .ld) rfl (by decide)
    (by decide +kernel) hagree
  exact absurd hreach (by decide +kernel)

/-- With lines of 64 bytes the same load gets all its bytes. -/
theorem ld_agrees : ModesAgree { lineSize := 64 } { IsRV64 := true } ldInst .ld zeroRegs :=
  (modesAgree_iff rfl (by decide) (by decide +kernel)).mpr (by decide +kernel)

end Core

end RevCPU
