import RevCPU.Proc.Atomics

namespace RevCPU

open Lib RevBasicMemCtrl

namespace RevRegFile

theorem RV_eq_GetX {R : RevRegFile} {r : ℕ} (hx0 : r = 0 → R.RV 0 = 0) : R.RV r = R.GetX r := by
  by_cases hr : r = 0
  · rw [hr, hx0 hr]
    rfl
  · exact (if_pos hr).symm

theorem xLen_cases (R : RevRegFile) : R.xLen = 4 ∨ R.xLen = 8 := by
  unfold xLen
  split <;> simp

section
variable {R R' : RevRegFile} {rd : ℕ} {bytes : List UInt8}

/-- The value of a register whose bytes have been replaced. -/
theorem GetX_put (hrv : R'.IsRV32 = R.IsRV32) (hX : R'.X = setBytes R.X (R.xOff rd) bytes)
    (hlen : bytes.length = R.xLen) (hrd : rd ≠ 0) : R'.GetX rd = leNat bytes := by
  have hread := getBytes_setBytes R.X (R.xOff rd) bytes
  rw [hlen] at hread
  have hoff : R'.xOff rd = R.xOff rd := by rw [xOff, xOff, hrv]
  have hxLen : R'.xLen = R.xLen := by rw [xLen, xLen, hrv]
  rw [GetX, if_pos hrd, hoff, hxLen, hX, hread]

/-- The other registers. -/
theorem GetX_put_ne (hrv : R'.IsRV32 = R.IsRV32) (hX : R'.X = setBytes R.X (R.xOff rd) bytes)
    (hlen : bytes.length = R.xLen) {r : ℕ} (hne : r ≠ rd) : R'.GetX r = R.GetX r := by
  have hoff : R'.xOff r = R.xOff r := by rw [xOff, xOff, hrv]
  have hxLen : R'.xLen = R.xLen := by rw [xLen, xLen, hrv]
  have hread : getBytes (setBytes R.X (R.xOff rd) bytes) (R.xOff r) R.xLen =
      getBytes R.X (R.xOff r) R.xLen := by
    apply getBytes_setBytes_of_disjoint
    rw [hlen]
    unfold xOff xLen
    split <;> omega
  rw [GetX, GetX, hoff, hxLen, hX, hread]

end

end RevRegFile

namespace Core

/-- A target of `k` bytes whose first bytes have been written. -/
theorem host_read_prefix (h : Host) (p : ℕ) {bytes : List UInt8} {k : ℕ} (hlen : bytes.length ≤ k) :
    (h.write p 0 bytes).read p k =
      bytes ++ (List.range (k - bytes.length)).map fun j => h.cell p (bytes.length + j) := by
  refine List.ext_getElem (by simp; omega) ?_
  intro j hj hj'
  simp only [Host.read, List.getElem_map, List.getElem_range, Host.write_cell, List.getElem_append]
  by_cases hlt : j < bytes.length
  · rw [if_pos (by omega), dif_pos hlt]
    simp [hlt]
  · rw [if_neg (by omega), dif_neg hlt]
    congr 1
    omega

end Core

namespace RevMem

/-- `WriteMem` inside a page. -/
theorem Serves.WriteMem_local {m : RevMem} {A L : ℕ} (h : m.Serves A)
    (hin : A % pageSize + L ≤ pageSize) (Hart : ℕ) (Data : List UInt8) (flags : RevFlag) :
    ∃ m', m.WriteMemFlags Hart A L Data flags = some m' ∧
      m'.view = setBytes m.view A (copyBuf Data L) := by
  have hrevoked : (m.RevokeFuture A).Serves A := ⟨h.ok.revoke A, h.room.of_pageMap rfl rfl rfl, h.valid⟩
  obtain ⟨f, m₁, htr, hf, hmapped, -⟩ := hrevoked.translate hin m.ctrl
  have hctrl : { m₁ with ctrl := m.ctrl } = m₁ := by rw [h.ok.ctrl, ← hmapped.ok.ctrl]
  have hsame : { m.RevokeFuture A with ctrl := m.ctrl } = m.RevokeFuture A := rfl
  rw [hctrl, hsame] at htr
  have hview : ∀ v, m₁.view v = m.view v := by
    intro v
    rw [hmapped.view_eq hrevoked.ok v]
    simp only [view, RevokeFuture]
  obtain ⟨m₂, hwrite, -, -, -, -, -, hview₂⟩ :=
    physWrite_view hmapped.ok hf (A % pageSize) (copyBuf Data L) (by simpa using hin)
  refine ⟨m₂, ?_, ?_⟩
  · unfold WriteMemFlags
    simp only [htr, hmapped.ok.ctrl, hwrite]
  · funext v
    rw [hview₂, hview, Nat.div_add_mod' A pageSize]
    rfl

theorem Serves.reserve {m : RevMem} {A : ℕ} (h : m.Serves A) (LRSC : List Reservation) :
    { m with LRSC }.Serves A :=
  ⟨⟨h.ok.ctrl, h.ok.tops, h.ok.frame_lt, h.ok.frame_inj, h.ok.tlb, h.ok.fresh, h.ok.inside⟩,
    h.room, h.valid⟩

/-- `LRBase` without a reservation reads the memory into the target. -/
theorem Serves.LRBase_local {m : RevMem} {A L : ℕ} (h : m.Serves A)
    (hin : A % pageSize + L ≤ pageSize) (hun : ∀ r ∈ m.LRSC, r.addr ≠ A) (host : Host)
    (Hart Target aq rl : ℕ) (req : MemReq) (flags : RevFlag) :
    ∃ m', m.LRBase host Hart A L Target aq rl req flags =
        some (true, m', (host.write Target 0 (getBytes m.view A L)).MarkLoadComplete req) ∧
      m'.view = m.view := by
  have hany : (m.LRSC.any fun r => r.addr == A) = false := by
    rw [List.any_eq_false]
    intro r hr
    simpa using hun r hr
  have hserves := h.reserve (m.LRSC ++ [⟨Hart, A, aq ||| rl <<< 1, Target⟩])
  obtain ⟨f, m', hcalc, hf, hmapped, -⟩ := hserves.CalcPhysAddr
  refine ⟨m', ?_, funext (hmapped.view_eq hserves.ok)⟩
  unfold LRBase
  simp only [hany, Bool.false_eq_true, if_false, hcalc, hmapped.ok.ctrl,
    physRead_parts hmapped hserves.ok hf hin, Option.map_some]
  rfl

/-- The operation of an AMO changes only the bytes of its value. -/
theorem amoApply_cell (h : Host) (flags : RevFlag) (Target : ℕ) {Len : ℕ} (hLen : Len = 4 ∨ Len = 8)
    (operand : ℕ) (j : ℕ) (hj : Len ≤ j) :
    (amoApply h flags Target Len operand).cell Target j = h.cell Target j := by
  unfold amoApply
  rcases hLen with rfl | rfl
  · rw [if_pos rfl, Host.store_cell, if_neg (by omega)]
  · rw [if_neg (by decide), Host.store_cell, if_neg (by omega)]

theorem amoApply_read (h : Host) (flags : RevFlag) (Target : ℕ) {Len : ℕ} (hLen : Len = 4 ∨ Len = 8)
    (operand : ℕ) :
    (amoApply h flags Target Len operand).read Target Len =
      leBytes Len (ApplyAMO flags (BitVec.ofNat (8 * Len) (leNat (h.read Target Len)))
        (BitVec.ofNat (8 * Len) operand)).toNat := by
  unfold amoApply
  rcases hLen with rfl | rfl
  · rw [if_pos rfl]
    exact Host.store_read h Target 4 _
  · rw [if_neg (by decide)]
    exact Host.store_read h Target 8 _

/-- `AMOMem` without a controller: the old bytes are in the target, the result
    is in the memory. -/
theorem Serves.AMOMem_local {m : RevMem} {A L : ℕ} (h : m.Serves A)
    (hin : A % pageSize + L ≤ pageSize) (hL : L = 4 ∨ L = 8) (host : Host) (Hart Data Target : ℕ)
    (req : MemReq) (hreq : req.ReqType = .MemOpAMO) (flags : RevFlag) :
    ∃ m' host', m.AMOMem host Hart A L Data Target req flags = some (m', host') ∧
      (∀ k, host'.read Target k = (host.write Target 0 (getBytes m.view A L)).read Target k) ∧
      m'.view = setBytes m.view A (leBytes L (ApplyAMO flags
        (BitVec.ofNat (8 * L) (leNat (getBytes m.view A L)))
        (BitVec.ofNat (8 * L) (leNat (host.read Data L)))).toNat) := by
  obtain ⟨f, m₁, hcalc, -, hmapped, hserves⟩ := h.CalcPhysAddr
  have hview₁ : m₁.view = m.view := funext (hmapped.view_eq h.ok)
  obtain ⟨m₂, hread, hserves₂, hview₂⟩ := hserves.ReadMem_local hin host Hart Target req flags
  rw [hview₁] at hread hview₂
  have hplain : completeRead (host.write Target 0 (getBytes m.view A L)) req =
      host.write Target 0 (getBytes m.view A L) := by
    simp [completeRead, hreq]
  rw [hplain] at hread
  generalize hh : host.write Target 0 (getBytes m.view A L) = h₁ at hread
  have hold : h₁.read Target L = getBytes m.view A L := by
    have hback := Core.host_read_write host Target (getBytes m.view A L)
    rw [getBytes_length, hh] at hback
    exact hback
  generalize hh₂ : amoApply h₁ flags Target L (leNat (host.read Data L)) = h₂
  obtain ⟨m₃, hwrite, hview₃⟩ := hserves₂.WriteMem_local hin Hart (h₂.read Target L) flags
  refine ⟨m₃, (h₂.write Target 0 (h₁.read Target L)).MarkLoadComplete req, ?_, ?_, ?_⟩
  · unfold AMOMem
    simp only [hcalc, hmapped.ok.ctrl, hread, hh₂, hwrite, Option.map_some]
  · intro k
    refine List.map_congr_left ?_
    intro j _
    change (h₂.write Target 0 (h₁.read Target L)).cell Target j = h₁.cell Target j
    rw [Host.write_cell, Host.read_length]
    by_cases hj : j < L
    · rw [if_pos (by omega), Nat.sub_zero, Host.read_getD _ _ hj]
    · rw [if_neg (by omega), ← hh₂, amoApply_cell h₁ flags Target hL _ j (by omega)]
  · have hbuf : copyBuf (h₂.read Target L) L = h₂.read Target L := by
      refine List.ext_getElem (by simp) ?_
      intro j hj hj'
      simp only [copyBuf, List.getElem_map, List.getElem_range, List.getD_eq_getElem?_getD,
        List.getElem?_eq_getElem hj', Option.getD_some]
    rw [hview₃, hview₂, hbuf, ← hh₂, amoApply_read h₁ flags Target hL, hold]

end RevMem

namespace AtomicInst

variable {a : AtomicInst} {f : RevFeature} {i : RevInst} {R : RevRegFile}

theorem size_cases (a : AtomicInst) : a.size = 4 ∨ a.size = 8 := by
  unfold size
  cases a.double <;> simp

theorem size_le_xLen (hav : a.avail R.IsRV32 = true) : a.size ≤ R.xLen := by
  unfold size RevRegFile.xLen
  unfold avail at hav
  cases hd : a.double <;> cases hrv : R.IsRV32 <;> simp_all

/-- An aligned access is inside a page. -/
theorem inside_page {A : ℕ} (hal : A % a.size = 0) :
    A % RevMem.pageSize + a.size ≤ RevMem.pageSize := by
  unfold RevMem.pageSize
  rcases a.size_cases with h | h
  · rw [h] at hal ⊢
    omega
  · rw [h] at hal ⊢
    omega

/-- The flags that the implementation functions pass. -/
def flags (a : AtomicInst) (IsRV32 : Bool) : RevFlag :=
  match a.op with
  | .lr => if IsRV32 then .F_SEXT32 else .F_SEXT64
  | .amo op => op.flag ||| AmoOp.aqrl a.aq a.rl ||| AmoOp.sext (!a.double && !IsRV32)

theorem run_lr (hop : a.op = .lr) (hav : a.avail R.IsRV32 = true) (M : RevMem) :
    a.run ⟨R, M⟩ f i = Core.LR ⟨R, M⟩ f i a.size a.aq a.rl (a.flags R.IsRV32) := by
  unfold run size flags
  unfold avail at hav
  cases hd : a.double <;> cases hrv : R.IsRV32 <;>
    simp_all [Core.lrw, Core.lrd]

theorem run_amo {op : AmoOp} (hop : a.op = .amo op) (M : RevMem) :
    a.run ⟨R, M⟩ f i = Core.AMOVal ⟨R, M⟩ f i a.size (a.flags R.IsRV32) := by
  unfold run size flags
  cases hd : a.double <;> cases hrv : R.IsRV32 <;>
    simp_all [Core.amooper, Core.amooperd]

/-- The operand of an AMO. -/
theorem operand_eq (hav : a.avail R.IsRV32 = true) (hx0 : a.ZeroRead i R) (hamo : a.isAMO = true) :
    BitVec.ofNat (8 * a.size) (leNat ((Core.regHost R).read (R.xOff i.rs2) a.size)) =
      BitVec.ofNat (8 * a.size) (R.GetX i.rs2) := by
  have hlow : leNat ((Core.regHost R).read (R.xOff i.rs2) a.size) = R.RV i.rs2 % 256 ^ a.size :=
    (leNat_map_range_mod (fun j => R.X (R.xOff i.rs2 + j)) (size_le_xLen hav)).symm
  apply BitVec.eq_of_toNat_eq
  rw [hlow, RevRegFile.RV_eq_GetX (fun hr => hx0 (.inr ⟨hamo, hr⟩)), BitVec.toNat_ofNat, BitVec.toNat_ofNat, pow256, Nat.mod_mod]

/-- What the instruction does with local memory: the old bytes replace the low
    bytes of `rd` only. -/
theorem run_local (hav : a.avail R.IsRV32 = true) (hx0 : a.ZeroRead i R)
    (hal : R.GetX i.rs1 % a.size = 0) {M : RevMem} (hs : M.Serves (R.GetX i.rs1))
    (hun : a.Unreserved M (R.GetX i.rs1)) :
    ∃ c, a.run ⟨R, M⟩ f i = some c ∧ c.R.IsRV32 = R.IsRV32 ∧ c.R.FP = R.FP ∧
      c.R.X = setBytes R.X (R.xOff i.rd) (getBytes M.view (R.GetX i.rs1) a.size ++
        getBytes R.X (R.xOff i.rd + a.size) (R.xLen - a.size)) ∧
      c.M.view = a.store M.view (R.GetX i.rs1) (R.GetX i.rs2) := by
  have hin := inside_page hal
  have haddr := RevRegFile.RV_eq_GetX (r := i.rs1) fun hr => hx0 (.inl hr)
  have hle : (getBytes M.view (R.GetX i.rs1) a.size).length ≤ R.xLen := by
    rw [getBytes_length]
    exact size_le_xLen hav
  have hread : ((Core.regHost R).write (R.xOff i.rd) 0 (getBytes M.view (R.GetX i.rs1) a.size)).read
      (R.xOff i.rd) R.xLen = getBytes M.view (R.GetX i.rs1) a.size ++
        getBytes R.X (R.xOff i.rd + a.size) (R.xLen - a.size) := by
    rw [Core.host_read_prefix _ _ hle, getBytes_length]
    congr 1
    refine List.map_congr_left fun j _ => ?_
    rw [Nat.add_assoc]
    rfl
  cases hop : a.op with
  | lr =>
    obtain ⟨m', hbase, hview⟩ := hs.LRBase_local hin (hun hop) (Core.regHost R) f.HartToExecID
      (R.xOff i.rd) a.aq.toNat a.rl.toNat (Core.atomicReq R f i) (a.flags R.IsRV32)
    refine ⟨⟨Core.putRd R i (Core.atomicReq R f i) (((Core.regHost R).write (R.xOff i.rd) 0
      (getBytes M.view (R.GetX i.rs1) a.size)).MarkLoadComplete (Core.atomicReq R f i)), m'⟩,
      ?_, rfl, rfl, ?_, ?_⟩
    · rw [run_lr hop hav, Core.LR]
      simp only [haddr, hbase, Option.map_some]
    · exact congrArg (setBytes R.X (R.xOff i.rd)) hread
    · rw [store, hop]
      exact hview
  | amo op =>
    obtain ⟨m', h', hmem, hcell, hview⟩ := hs.AMOMem_local hin a.size_cases (Core.regHost R)
      f.HartToExecID (R.xOff i.rs2) (R.xOff i.rd) (Core.atomicReq R f i) rfl
      (a.flags R.IsRV32)
    refine ⟨⟨Core.putRd R i (Core.atomicReq R f i) h', m'⟩, ?_, rfl, rfl, ?_, ?_⟩
    · rw [run_amo hop, Core.AMOVal]
      simp only [haddr, hmem, Option.map_some]
    · exact congrArg (setBytes R.X (R.xOff i.rd)) ((hcell R.xLen).trans hread)
    · rw [operand_eq hav hx0 (by rw [isAMO, hop]), flags, hop] at hview
      simp only [AmoOp.ApplyAMO_eq] at hview
      rw [store, hop]
      exact hview

/-- A word whose sign extension does not have the upper half `upper`. -/
def mismatch (A upper : ℕ) (v : ℕ) : UInt8 := if upper = 0 ∧ v = A + 3 then 128 else 0

theorem mismatch_extend (A upper : ℕ) :
    leNat (getBytes (mismatch A upper) A 4) + 256 ^ 4 * upper ≠
      extend true 32 64 (leNat (getBytes (mismatch A upper) A 4)) := by
  by_cases hupper : upper = 0
  · have hword : leNat (getBytes (mismatch A upper) A 4) = 2 ^ 31 := by
      simp [getBytes, List.range_succ, mismatch, hupper, leNat]
    rw [hword, hupper]
    decide
  · have hword : leNat (getBytes (mismatch A upper) A 4) = 0 := by
      simp [getBytes, List.range_succ, mismatch, hupper, leNat]
    have hzero : extend true 32 64 0 = 0 := by decide
    rw [hword, hzero]
    omega

theorem addr_lt (hal : R.GetX i.rs1 % a.size = 0) : R.GetX i.rs1 + 1 < W64 := by
  have hlt : R.GetX i.rs1 < 2 ^ 64 := by
    unfold RevRegFile.GetX
    split
    · have hbytes := leNat_lt (getBytes R.X (R.xOff i.rs1) R.xLen)
      rw [getBytes_length, pow256] at hbytes
      have hpow : 2 ^ (8 * R.xLen) ≤ 2 ^ 64 :=
        Nat.pow_le_pow_right (by decide) (by have := R.xLen_le; omega)
      omega
    · decide
  unfold W64
  rcases a.size_cases with h | h
  · rw [h] at hal
    omega
  · rw [h] at hal
    omega

/-- With local memory the instruction is right exactly when it fills `rd`. -/
theorem localConforms_iff (hav : a.avail R.IsRV32 = true) (hrd : i.rd ≠ 0) (hx0 : a.ZeroRead i R)
    (hal : R.GetX i.rs1 % a.size = 0) : a.LocalConforms f i R ↔ a.size = R.xLen := by
  have hle := size_le_xLen hav
  constructor
  · intro hconf
    by_contra hne
    have hsize : a.size = 4 ∧ R.xLen = 8 := by
      have hcases := a.size_cases
      have hxLen := R.xLen_cases
      omega
    generalize hupper : leNat (getBytes R.X (R.xOff i.rd + a.size) (R.xLen - a.size)) = upper
    have hserves := RevMem.onePage_serves (addr_lt hal) (mismatch (R.GetX i.rs1) upper)
    have hun : a.Unreserved (RevMem.onePage (R.GetX i.rs1) (mismatch (R.GetX i.rs1) upper))
        (R.GetX i.rs1) := by
      intro _ r hr
      exact absurd hr (List.not_mem_nil)
    have hview : getBytes (RevMem.onePage (R.GetX i.rs1) (mismatch (R.GetX i.rs1) upper)).view
        (R.GetX i.rs1) a.size = getBytes (mismatch (R.GetX i.rs1) upper) (R.GetX i.rs1) a.size := by
      refine List.map_congr_left fun j hj => RevMem.onePage_view _ ?_
      have hin := inside_page hal
      have hlt := List.mem_range.mp hj
      omega
    obtain ⟨c, hrun, hc⟩ := hconf _ hserves hun
    obtain ⟨c', hrun', hrv, -, hX, -⟩ := run_local (f := f) hav hx0 hal hserves hun
    obtain rfl := Option.some.inj (hrun.symm.trans hrun')
    have hvalue := hc.rd
    rw [RevRegFile.GetX_put hrv hX (by simp; omega) hrd, leNat_append, getBytes_length, hupper,
      hview, hsize.1, hsize.2] at hvalue
    exact mismatch_extend _ _ hvalue
  · intro hsize M hs hun
    obtain ⟨c, hrun, hrv, hFP, hX, hmem⟩ := run_local (f := f) hav hx0 hal hs hun
    have hbytes : getBytes M.view (R.GetX i.rs1) a.size ++
        getBytes R.X (R.xOff i.rd + a.size) (R.xLen - a.size) =
        getBytes M.view (R.GetX i.rs1) a.size := by
      rw [hsize, Nat.sub_self]
      exact List.append_nil _
    rw [hbytes] at hX
    have hlen : (getBytes M.view (R.GetX i.rs1) a.size).length = R.xLen := by
      rw [getBytes_length, hsize]
    refine ⟨c, hrun, ?_, fun r hr => RevRegFile.GetX_put_ne hrv hX hlen hr, hFP, hmem⟩
    have hlt := leNat_lt (getBytes M.view (R.GetX i.rs1) a.size)
    rw [getBytes_length, pow256] at hlt
    rw [RevRegFile.GetX_put hrv hX hlen hrd, ← hsize, extend_self, Nat.mod_eq_of_lt hlt]

end AtomicInst

end RevCPU
