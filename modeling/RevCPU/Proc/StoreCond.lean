import RevCPU.Proc.AtomicsCtrl

namespace RevCPU

open Lib

namespace Core

/-- `M->SC` on the registers of the instruction. The bytes of `X` behind the
    array are the host memory that follows it. -/
def SC (c : Core) (f : RevFeature) (i : RevInst) (n : ℕ) (flags : RevFlag) : Option Core :=
  (c.M.SCBase (regHost c.R) f.HartToExecID (c.R.RV i.rs1) n (c.R.xOff i.rs2) (c.R.xOff i.rd)
    flags).map fun (_, M, h) =>
      { R := RevRegFile.AdvancePC
          { c.R with X := setBytes c.R.X (c.R.xOff i.rd) (h.read (c.R.xOff i.rd) (8 * n)) } i
        M }

def scw (c : Core) (f : RevFeature) (i : RevInst) : Option Core :=
  c.SC f i 4 (if c.R.IsRV32 then .F_SEXT32 else .F_SEXT64)

def scd (c : Core) (f : RevFeature) (i : RevInst) : Option Core := c.SC f i 8 .F_SEXT64

end Core

/-- The hart holds a reservation of the address. -/
def Holds (LRSC : List Reservation) (Hart A : ℕ) : Prop := ∃ r ∈ LRSC, r.hart = Hart ∧ r.addr = A

/-- A store conditional: `sc.d` or `sc.w`. -/
structure CondInst where
  double : Bool
  deriving DecidableEq, Repr

namespace CondInst

def size (s : CondInst) : ℕ := if s.double then 8 else 4

/-- The XLENs that have the instruction. -/
def avail (s : CondInst) (IsRV32 : Bool) : Bool := !(s.double && IsRV32)

/-- The implementation function of the instruction. -/
def run (s : CondInst) (c : Core) (f : RevFeature) (i : RevInst) : Option Core :=
  if s.double then c.scd f i else c.scw f i

/-- What a store leaves: with a controller, the write request. -/
def Stored (Hart A : ℕ) (bytes : List UInt8) (M M' : RevMem) : Prop :=
  match M.ctrl with
  | none => M'.view = setBytes M.view A bytes
  | some ctrl => ∃ PAddr flags,
      M'.ctrl = some (ctrl.sendWRITERequest Hart A PAddr bytes.length bytes flags)

/-- What the instruction set says about the registers, the memory and the
    reservations before and after the instruction. -/
structure Conforms (s : CondInst) (f : RevFeature) (i : RevInst) (c c' : Core) : Prop where
  result :
    Stored f.HartToExecID (c.R.GetX i.rs1) (leBytes s.size (c.R.GetX i.rs2)) c.M c'.M ∧
        c'.R.GetX i.rd = 0 ∨
      ¬Holds c.M.LRSC f.HartToExecID (c.R.GetX i.rs1) ∧ c'.M.view = c.M.view ∧
        c'.M.ctrl = c.M.ctrl ∧ c'.R.GetX i.rd = if i.rd = 0 then 0 else 1
  others : ∀ r, r ≠ i.rd → c'.R.GetX r = c.R.GetX r
  floats : c'.R.FP = c.R.FP
  released : ¬Holds c'.M.LRSC f.HartToExecID (c.R.GetX i.rs1)

/-- The instruction is right on the registers and reservations, whatever the
    memory that can serve its address. -/
def Right (s : CondInst) (f : RevFeature) (i : RevInst) (R : RevRegFile)
    (LRSC : List Reservation) (ctrl : Option RevBasicMemCtrl) : Prop :=
  ∀ D : RevMem, D.PageTableOk → D.RangeOk (R.GetX i.rs1) s.size →
    D.HasRoom (RevMem.rangePages (R.GetX i.rs1) s.size) →
    ∃ c, s.run ⟨R, { D with LRSC, ctrl }⟩ f i = some c ∧
      s.Conforms f i ⟨R, { D with LRSC, ctrl }⟩ c

/-- Some memory can serve the range. -/
def Addressable (A n : ℕ) : Prop :=
  A + n < W64 ∧ (RevMem.pageSize < A % RevMem.pageSize + n → A / RevMem.pageSize + 1 < 2 ^ 32)

/-- When the instruction is right. Without a reservation only the low half of
    `rd` is set. A reservation is ignored when the words at the target of the
    LR and at `rs2` have no bit in common, and is kept then; otherwise the
    words behind `rd` are cleared as well. -/
def Fits (s : CondInst) (f : RevFeature) (i : RevInst) (R : RevRegFile)
    (LRSC : List Reservation) (ctrl : Option RevBasicMemCtrl) : Prop :=
  match LRSC.find? (RevMem.isFor f.HartToExecID (R.RV i.rs1)) with
  | none => ¬Holds LRSC f.HartToExecID (R.GetX i.rs1) ∧ R.GetX i.rd < 2 ^ 32
  | some r =>
    if RevMem.scTest (Core.regHost R) r.val (R.xOff i.rs2) s.size then
      (i.rs1 = 0 → R.RV 0 = 0) ∧ (i.rs2 = 0 → R.RV 0 % 256 ^ s.size = 0) ∧
      (∀ q, i.rd < q → (q - i.rd) * R.xLen < 8 * s.size → R.GetX q = 0) ∧
      ¬Holds (LRSC.eraseP (RevMem.isFor f.HartToExecID (R.RV i.rs1))) f.HartToExecID (R.GetX i.rs1) ∧
      (ctrl.isSome = true → R.GetX i.rs1 % RevMem.pageSize + s.size ≤ RevMem.pageSize)
    else
      R.RV i.rs1 ≠ R.GetX i.rs1 ∧ ¬Holds LRSC f.HartToExecID (R.GetX i.rs1) ∧
      (R.IsRV32 = true → R.GetX (i.rd + 1) = 0)

end CondInst

namespace Core

section
variable {c : Core} {f : RevFeature} {i : RevInst} {n : ℕ} {flags : RevFlag}

/-- The registers after bytes have been written from `rd` on. -/
def putBytes (R : RevRegFile) (i : RevInst) (bytes : List UInt8) : RevRegFile :=
  RevRegFile.AdvancePC { R with X := setBytes R.X (R.xOff i.rd) bytes } i

/-- What was not written is read back as it was. -/
theorem setBytes_read_write (X : ℕ → UInt8) (p : ℕ) {bytes : List UInt8} {k : ℕ}
    (hlen : bytes.length ≤ k) :
    setBytes X p ((Host.write ⟨fun q j => X (q + j), []⟩ p 0 bytes).read p k) =
      setBytes X p bytes := by
  funext v
  unfold setBytes
  rw [Host.read_length]
  by_cases hin : p ≤ v ∧ v < p + k
  · rw [if_pos hin, Host.read_getD _ _ (by omega), Host.write_cell]
    by_cases hput : v < p + bytes.length
    · rw [if_pos (by omega), if_pos (by omega)]
      rfl
    · rw [if_neg (by omega), if_neg (by omega)]
      exact congrArg X (Nat.add_sub_cancel' hin.1)
  · rw [if_neg hin, if_neg (by omega)]

/-- No reservation. -/
theorem SC_absent (hn : 0 < n)
    (hfind : c.M.LRSC.find? (RevMem.isFor f.HartToExecID (c.R.RV i.rs1)) = none) :
    c.SC f i n flags = some ⟨putBytes c.R i (leBytes 4 1), c.M⟩ := by
  simp only [SC, RevMem.SCBase, hfind, Option.map_some]
  rw [regHost, setBytes_read_write _ _ (by simp; omega)]
  rfl

section
variable {r : Reservation}
  (hfind : c.M.LRSC.find? (RevMem.isFor f.HartToExecID (c.R.RV i.rs1)) = some r)
include hfind

/-- A reservation whose test fails. -/
theorem SC_refused (hn : 0 < n) (hn32 : n ≠ 32)
    (htest : RevMem.scTest (regHost c.R) r.val (c.R.xOff i.rs2) n = false) :
    c.SC f i n flags = some ⟨putBytes c.R i (leBytes 8 1), c.M⟩ := by
  simp only [SC, RevMem.SCBase, hfind, htest, Bool.false_eq_true, if_false, if_neg hn32,
    Option.map_some]
  rw [regHost, setBytes_read_write _ _ (by simp; omega)]
  rfl

/-- A reservation whose test succeeds. -/
theorem SC_stored (htest : RevMem.scTest (regHost c.R) r.val (c.R.xOff i.rs2) n = true) :
    c.SC f i n flags =
      (c.M.WriteMemFlags f.HartToExecID (c.R.RV i.rs1) n (getBytes c.R.X (c.R.xOff i.rs2) n)
        flags).map fun M =>
          ⟨putBytes c.R i (List.replicate (8 * n) 0),
            { M with LRSC := M.LRSC.eraseP (RevMem.isFor f.HartToExecID (c.R.RV i.rs1)) }⟩ := by
  simp only [SC, RevMem.SCBase, hfind, htest, if_true, Option.map_map]
  congr 1
  funext M
  simp only [Function.comp_apply, regHost]
  rw [setBytes_read_write _ _ (by simp)]
  rfl

end

end

end Core

namespace RevRegFile

section
variable {R : RevRegFile} {i : RevInst} {bytes : List UInt8}

theorem putBytes_xOff (r : ℕ) : (Core.putBytes R i bytes).xOff r = R.xOff r := rfl

theorem putBytes_xLen : (Core.putBytes R i bytes).xLen = R.xLen := rfl

theorem xOff_eq (r : ℕ) : R.xOff r = r * R.xLen := by
  unfold xOff xLen
  split <;> omega

/-- A register in front of `rd` or behind the bytes. -/
theorem GetX_putBytes_of_outside {r : ℕ}
    (hout : r < i.rd ∨ i.rd < r ∧ bytes.length ≤ (r - i.rd) * R.xLen) :
    (Core.putBytes R i bytes).GetX r = R.GetX r := by
  have hread : getBytes (setBytes R.X (R.xOff i.rd) bytes) (R.xOff r) R.xLen =
      getBytes R.X (R.xOff r) R.xLen := by
    apply getBytes_setBytes_of_disjoint
    rw [xOff_eq, xOff_eq]
    rcases hout with hlt | ⟨hlt, hlen⟩
    · left
      rw [← Nat.succ_mul]
      exact Nat.mul_le_mul_right _ hlt
    · right
      rw [Nat.sub_mul] at hlen
      have hle := Nat.mul_le_mul_right R.xLen hlt.le
      omega
  unfold GetX
  rw [putBytes_xOff, putBytes_xLen]
  exact congrArg (fun b => if r ≠ 0 then leNat b else 0) hread

/-- A register among the bytes. -/
theorem GetX_putBytes_of_inside {r : ℕ} (hr : r ≠ 0) (hle : i.rd ≤ r)
    (hin : (r - i.rd) * R.xLen + R.xLen ≤ bytes.length) :
    (Core.putBytes R i bytes).GetX r =
      leNat ((List.range R.xLen).map fun j => bytes.getD ((r - i.rd) * R.xLen + j) 0) := by
  have hmul := Nat.mul_le_mul_right R.xLen hle
  have hsub := Nat.sub_mul r i.rd R.xLen
  unfold GetX
  rw [if_pos hr, putBytes_xOff, putBytes_xLen]
  congr 1
  refine List.map_congr_left fun j hj => ?_
  have hlt := List.mem_range.mp hj
  change setBytes R.X (R.xOff i.rd) bytes (R.xOff r + j) = _
  rw [xOff_eq, xOff_eq, setBytes, if_pos (by omega)]
  congr 1
  omega

/-- The four bytes of a 1 replace the low half of `rd`. -/
theorem GetX_low (hrd : i.rd ≠ 0) :
    (Core.putBytes R i (leBytes 4 1)).GetX i.rd = 1 + 2 ^ 32 * (R.GetX i.rd / 2 ^ 32) := by
  have hbytes : ∀ j, setBytes R.X (R.xOff i.rd) (leBytes 4 1) (R.xOff i.rd + j) =
      if j < 4 then (leBytes 4 1).getD j 0 else R.X (R.xOff i.rd + j) := by
    intro j
    unfold setBytes
    rw [leBytes_length, Nat.add_sub_cancel_left]
    by_cases hj : j < 4
    · rw [if_pos (by omega), if_pos hj]
    · rw [if_neg (by omega), if_neg hj]
  have hget : (Core.putBytes R i (leBytes 4 1)).GetX i.rd =
      leNat ((List.range R.xLen).map fun j =>
        if j < 4 then (leBytes 4 1).getD j 0 else R.X (R.xOff i.rd + j)) := by
    unfold GetX
    rw [if_pos hrd]
    exact congrArg leNat (List.map_congr_left fun j _ => hbytes j)
  have hold : R.GetX i.rd = leNat ((List.range R.xLen).map fun j => R.X (R.xOff i.rd + j)) := by
    unfold GetX
    exact if_pos hrd
  rw [hget, hold]
  rcases R.xLen_cases with hlen | hlen
  · have hlt := leNat_lt ((List.range R.xLen).map fun j => R.X (R.xOff i.rd + j))
    rw [List.length_map, List.length_range, hlen] at hlt
    rw [hlen, Nat.div_eq_of_lt (show _ < 2 ^ 32 from hlt)]
    rfl
  · rw [hlen]
    have h4 := (R.X (R.xOff i.rd + 0)).toNat_lt
    have h5 := (R.X (R.xOff i.rd + 1)).toNat_lt
    have h6 := (R.X (R.xOff i.rd + 2)).toNat_lt
    have h7 := (R.X (R.xOff i.rd + 3)).toNat_lt
    simp [List.range_succ, leNat, leBytes] at *
    omega

/-- The eight bytes of a 1 replace `rd` and, on RV32, the next register. -/
theorem GetX_word (hrd : i.rd ≠ 0) : (Core.putBytes R i (leBytes 8 1)).GetX i.rd = 1 := by
  have hle := R.xLen_le
  rw [GetX_putBytes_of_inside hrd le_rfl (by simpa)]
  rcases R.xLen_cases with hlen | hlen <;> rw [hlen, Nat.sub_self] <;> rfl

theorem GetX_next (hrv : R.IsRV32 = true) : (Core.putBytes R i (leBytes 8 1)).GetX (i.rd + 1) = 0 := by
  have hlen : R.xLen = 4 := by simp [xLen, hrv]
  rw [GetX_putBytes_of_inside (by omega) (by omega) (by simp [hlen]), hlen, Nat.add_sub_cancel_left]
  rfl

/-- Zeros from `rd` on. -/
theorem GetX_cleared {n q : ℕ} (hdvd : R.xLen ∣ 8 * n) (hle : i.rd ≤ q)
    (hin : (q - i.rd) * R.xLen < 8 * n) :
    (Core.putBytes R i (List.replicate (8 * n) 0)).GetX q = 0 := by
  by_cases hq : q = 0
  · rw [hq]
    rfl
  · obtain ⟨k, hk⟩ := hdvd
    have hpos : 0 < R.xLen := by
      rcases R.xLen_cases with hlen | hlen <;> omega
    have hlt : q - i.rd < k := by
      rw [hk, Nat.mul_comm] at hin
      exact Nat.lt_of_mul_lt_mul_left hin
    have hroom : (q - i.rd) * R.xLen + R.xLen ≤ 8 * n := by
      rw [hk, ← Nat.succ_mul, Nat.mul_comm]
      exact Nat.mul_le_mul_left _ hlt
    rw [GetX_putBytes_of_inside hq hle (by simpa)]
    have hzero : ((List.range R.xLen).map fun j =>
        (List.replicate (8 * n) (0 : UInt8)).getD ((q - i.rd) * R.xLen + j) 0) =
        leBytes R.xLen 0 := by
      refine List.ext_getElem (by simp) ?_
      intro j hj hj'
      have hj₁ : j < R.xLen := by simpa using hj
      have hbyte := leBytes_getD R.xLen 0 hj₁
      rw [List.getD_eq_getElem?_getD, List.getElem?_eq_getElem hj', Option.getD_some] at hbyte
      rw [hbyte]
      simp [List.getD_eq_getElem?_getD, List.getElem?_replicate, show (q - i.rd) * R.xLen + j < 8 * n by omega]
    rw [hzero, leNat_leBytes, Nat.zero_mod]

end

end RevRegFile

end RevCPU
