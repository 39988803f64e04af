import RevCPU.Proc.StoreCondMem

namespace RevCPU

open Lib

theorem holds_of_find {LRSC : List Reservation} {Hart A : ℕ} {r : Reservation}
    (hfind : LRSC.find? (RevMem.isFor Hart A) = some r) : Holds LRSC Hart A := by
  have hr := List.find?_some hfind
  simp only [RevMem.isFor, Bool.and_eq_true, beq_iff_eq] at hr
  exact ⟨r, List.mem_of_find?_eq_some hfind, hr⟩

theorem not_holds_of_find {LRSC : List Reservation} {Hart A : ℕ}
    (hfind : LRSC.find? (RevMem.isFor Hart A) = none) : ¬Holds LRSC Hart A := by
  rintro ⟨r, hr, hhart, haddr⟩
  have hnot := List.find?_eq_none.mp hfind r hr
  simp [RevMem.isFor, hhart, haddr] at hnot

namespace CondInst

section
variable {s : CondInst} {f : RevFeature} {i : RevInst} {R : RevRegFile} {L : List Reservation}
  {x : Option RevBasicMemCtrl}

theorem size_cases (s : CondInst) : s.size = 4 ∨ s.size = 8 := by
  unfold size
  cases s.double <;> simp

def flags (s : CondInst) (IsRV32 : Bool) : RevFlag :=
  if !s.double && IsRV32 then .F_SEXT32 else .F_SEXT64

theorem run_eq (s : CondInst) (c : Core) : s.run c f i = c.SC f i s.size (s.flags c.R.IsRV32) := by
  unfold run size flags
  cases s.double
  · cases hrv : c.R.IsRV32 <;> simp [Core.scw, hrv]
  · rfl

/-- The bytes that are stored are those of `rs2`, unless it is x0. -/
theorem data_eq (hav : s.avail R.IsRV32 = true) :
    getBytes R.X (R.xOff i.rs2) s.size = leBytes s.size (R.GetX i.rs2) ↔
      (i.rs2 = 0 → R.RV 0 % 256 ^ s.size = 0) := by
  have hle : s.size ≤ R.xLen := by
    unfold size RevRegFile.xLen
    unfold avail at hav
    cases hd : s.double <;> cases hrv : R.IsRV32 <;> simp_all
  have hlow : ∀ r, leNat (getBytes R.X (R.xOff r) s.size) = R.RV r % 256 ^ s.size := fun r =>
    (leNat_map_range_mod (fun j => R.X (R.xOff r + j)) hle).symm
  have hlen : (getBytes R.X (R.xOff i.rs2) s.size).length = s.size := getBytes_length _ _ _
  have hiff : getBytes R.X (R.xOff i.rs2) s.size = leBytes s.size (R.GetX i.rs2) ↔
      R.RV i.rs2 % 256 ^ s.size = R.GetX i.rs2 % 256 ^ s.size := by
    constructor
    · intro heq
      rw [← hlow, heq, leNat_leBytes]
    · intro heq
      have hback := leBytes_leNat (getBytes R.X (R.xOff i.rs2) s.size)
      rw [hlen, hlow, heq, ← leNat_leBytes] at hback
      rw [← hback]
      have hagain := leBytes_leNat (leBytes s.size (R.GetX i.rs2))
      rwa [leBytes_length] at hagain
  rw [hiff]
  by_cases hrs : i.rs2 = 0
  · rw [hrs]
    have hzero : R.GetX 0 = 0 := rfl
    rw [hzero, Nat.zero_mod]
    simp
  · rw [RevRegFile.RV_eq_GetX fun h => absurd h hrs]
    simp [hrs]

theorem addr_eq : R.RV i.rs1 = R.GetX i.rs1 ↔ (i.rs1 = 0 → R.RV 0 = 0) := by
  constructor
  · intro heq hrs
    rw [hrs] at heq
    exact heq
  · exact RevRegFile.RV_eq_GetX

/-- A write is the store of its bytes, unless a controller gets it in two
    requests. -/
theorem stored_iff {D : RevMem} (hok : D.PageTableOk) {A n : ℕ} (hn : 0 < n)
    (hrange : D.RangeOk A n) (hroom : D.HasRoom (RevMem.rangePages A n)) (L : List Reservation)
    (x : Option RevBasicMemCtrl) (Hart : ℕ) {Data bytes : List UInt8} (hData : Data.length = n)
    (hbytes : bytes.length = n) (flags : RevFlag) :
    ∃ m', { D with LRSC := L, ctrl := x }.WriteMemFlags Hart A n Data flags = some m' ∧
      (Stored Hart A bytes { D with LRSC := L, ctrl := x } m' ↔
        Data = bytes ∧ (x.isSome = true → A % RevMem.pageSize + n ≤ RevMem.pageSize)) := by
  cases x with
  | none =>
    obtain ⟨m', hwrite, -, hview⟩ :=
      RevMem.WriteMemFlags_local hok hrange hroom L Hart Data flags hData
    refine ⟨m', hwrite, ?_, ?_⟩
    · intro hstored
      have hfun : m'.view = setBytes D.view A bytes := hstored
      rw [hview] at hfun
      have hback := getBytes_setBytes D.view A Data
      have hback' := getBytes_setBytes D.view A bytes
      rw [hfun, hData] at hback
      rw [hbytes] at hback'
      exact ⟨hback.symm.trans hback', by simp⟩
    · rintro ⟨rfl, -⟩
      exact hview
  | some k =>
    obtain ⟨m', hwrite, hcase⟩ := RevMem.WriteMemFlags_ctrl hok hrange hroom L Hart Data flags k
    refine ⟨m', hwrite, ?_, ?_⟩
    · rintro ⟨p, fl, hone⟩
      rw [hbytes] at hone
      rcases hcase with ⟨hin, p', hp'⟩ | ⟨-, p', q, tail, htwo⟩
      · rw [hp', Option.some.injEq] at hone
        exact ⟨(RevBasicMemCtrl.sendWRITERequest_inj hn hData hbytes hone).2, fun _ => hin⟩
      · rw [htwo, Option.some.injEq] at hone
        exact absurd hone (RevBasicMemCtrl.sendWRITERequest_twice_ne hn)
    · rintro ⟨rfl, hpage⟩
      rcases hcase with ⟨-, p, hp⟩ | ⟨hout, -⟩
      · refine ⟨p, flags, ?_⟩
        rw [hData]
        exact hp
      · have hin := hpage rfl
        omega

/-- A memory that serves the address. -/
theorem exists_serving (s : CondInst) {A : ℕ} (hA : Addressable A s.size) :
    ∃ D : RevMem, D.PageTableOk ∧ D.RangeOk A s.size ∧
      D.HasRoom (RevMem.rangePages A s.size) := by
  have hsize := s.size_cases
  refine ⟨RevMem.segment A s.size, RevMem.segment_ok hA.1,
    RevMem.segment_range hA (by omega) le_rfl ?_ hA.1,
    RevMem.segment_room _ (RevMem.rangePages_card _ _)⟩
  unfold RevMem.pageSize
  omega

/-- Without a reservation of the address that is looked up. -/
theorem right_iff_of_absent (hA : Addressable (R.GetX i.rs1) s.size)
    (hfind : L.find? (RevMem.isFor f.HartToExecID (R.RV i.rs1)) = none) :
    s.Right f i R L x ↔
      ¬Holds L f.HartToExecID (R.GetX i.rs1) ∧ R.GetX i.rd < 2 ^ 32 := by
  have hpos : 0 < s.size := by
    have hsize := s.size_cases
    omega
  have hrun : ∀ D : RevMem, s.run ⟨R, { D with LRSC := L, ctrl := x }⟩ f i =
      some ⟨Core.putBytes R i (leBytes 4 1), { D with LRSC := L, ctrl := x }⟩ := by
    intro D
    rw [run_eq, Core.SC_absent hpos hfind]
  constructor
  · intro hright
    obtain ⟨D, hok, hrange, hroom⟩ := s.exists_serving hA
    obtain ⟨c, hc, hconf⟩ := hright D hok hrange hroom
    obtain rfl := Option.some.inj ((hrun D).symm.trans hc)
    refine ⟨hconf.released, ?_⟩
    by_cases hrd : i.rd = 0
    · rw [hrd]
      exact Nat.two_pow_pos 32
    · have hlow := RevRegFile.GetX_low (R := R) hrd
      rcases hconf.result with ⟨-, hzero⟩ | ⟨-, -, -, hone⟩
      · rw [hlow] at hzero
        omega
      · rw [hlow, if_neg hrd] at hone
        omega
  · rintro ⟨hfree, hlt⟩ D - - -
    refine ⟨_, hrun D, .inr ⟨hfree, rfl, rfl, ?_⟩, ?_, rfl, hfree⟩
    · by_cases hrd : i.rd = 0
      · rw [hrd]
        rfl
      · rw [RevRegFile.GetX_low hrd, if_neg hrd, Nat.div_eq_of_lt hlt, Nat.mul_zero]
    · intro r hr
      apply RevRegFile.GetX_putBytes_of_outside
      rw [leBytes_length]
      rcases Nat.lt_or_gt_of_ne hr with hlt | hgt
      · exact .inl hlt
      · refine .inr ⟨hgt, ?_⟩
        have hstep := Nat.mul_le_mul_right R.xLen (show 1 ≤ r - i.rd by omega)
        have hxLen := R.xLen_cases
        omega

/-- With one whose test fails. -/
theorem right_iff_of_refused (hA : Addressable (R.GetX i.rs1) s.size) {r : Reservation}
    (hfind : L.find? (RevMem.isFor f.HartToExecID (R.RV i.rs1)) = some r)
    (htest : RevMem.scTest (Core.regHost R) r.val (R.xOff i.rs2) s.size = false) :
    s.Right f i R L x ↔
      R.RV i.rs1 ≠ R.GetX i.rs1 ∧ ¬Holds L f.HartToExecID (R.GetX i.rs1) ∧
      (R.IsRV32 = true → R.GetX (i.rd + 1) = 0) := by
  have hsize := s.size_cases
  have hrun : ∀ D : RevMem, s.run ⟨R, { D with LRSC := L, ctrl := x }⟩ f i =
      some ⟨Core.putBytes R i (leBytes 8 1), { D with LRSC := L, ctrl := x }⟩ := by
    intro D
    rw [run_eq]
    exact Core.SC_refused (c := ⟨R, { D with LRSC := L, ctrl := x }⟩) hfind (by omega) (by omega)
      htest
  constructor
  · intro hright
    obtain ⟨D, hok, hrange, hroom⟩ := s.exists_serving hA
    obtain ⟨c, hc, hconf⟩ := hright D hok hrange hroom
    obtain rfl := Option.some.inj ((hrun D).symm.trans hc)
    refine ⟨?_, hconf.released, ?_⟩
    · intro heq
      have hheld := holds_of_find hfind
      rw [heq] at hheld
      exact hconf.released hheld
    · intro hrv
      rw [← hconf.others (i.rd + 1) (by omega)]
      exact RevRegFile.GetX_next hrv
  · rintro ⟨-, hfree, hnext⟩ D - - -
    refine ⟨_, hrun D, .inr ⟨hfree, rfl, rfl, ?_⟩, ?_, rfl, hfree⟩
    · by_cases hrd : i.rd = 0
      · rw [hrd]
        rfl
      · rw [if_neg hrd]
        exact RevRegFile.GetX_word hrd
    · intro q hq
      by_cases hnextReg : R.IsRV32 = true ∧ q = i.rd + 1
      · obtain ⟨hrv, rfl⟩ := hnextReg
        rw [hnext hrv]
        exact RevRegFile.GetX_next hrv
      · apply RevRegFile.GetX_putBytes_of_outside
        rw [leBytes_length]
        rcases Nat.lt_or_gt_of_ne hq with hlt | hgt
        · exact .inl hlt
        · refine .inr ⟨hgt, ?_⟩
          cases hrv : R.IsRV32 with
          | true =>
            have hxLen : R.xLen = 4 := by simp [RevRegFile.xLen, hrv]
            have hne : q ≠ i.rd + 1 := fun h => hnextReg ⟨hrv, h⟩
            rw [hxLen]
            omega
          | false =>
            have hxLen : R.xLen = 8 := by simp [RevRegFile.xLen, hrv]
            rw [hxLen]
            omega

section
variable {r : Reservation}
  (hfind : L.find? (RevMem.isFor f.HartToExecID (R.RV i.rs1)) = some r)
  (htest : RevMem.scTest (Core.regHost R) r.val (R.xOff i.rs2) s.size = true)
include hfind htest

/-- With one whose test succeeds. -/
theorem run_stored (M : RevMem) (hL : M.LRSC = L) :
    s.run ⟨R, M⟩ f i =
      (M.WriteMemFlags f.HartToExecID (R.RV i.rs1) s.size (getBytes R.X (R.xOff i.rs2) s.size)
        (s.flags R.IsRV32)).map fun M =>
          ⟨Core.putBytes R i (List.replicate (8 * s.size) 0),
            { M with LRSC := M.LRSC.eraseP (RevMem.isFor f.HartToExecID (R.RV i.rs1)) }⟩ := by
  rw [run_eq]
  refine Core.SC_stored (c := ⟨R, M⟩) ?_ htest
  rw [hL]
  exact hfind

/-- A dirty x0 as the address: the bytes go elsewhere, or nowhere. -/
theorem addr_of_right_local (hne : R.RV i.rs1 ≠ R.GetX i.rs1) : ¬s.Right f i R L none := by
  intro hright
  have hsize := s.size_cases
  have hrs : i.rs1 = 0 := by
    by_contra hrs
    exact hne (addr_eq.mpr fun h => absurd h hrs)
  have hzero : R.GetX i.rs1 = 0 := by
    rw [hrs]
    rfl
  rw [hzero] at hne
  unfold Right at hright
  rw [hzero] at hright
  have hW : 0 + s.size < W64 := by
    unfold W64
    omega
  have hA : Addressable 0 s.size :=
    ⟨hW, fun h => absurd h (by unfold RevMem.pageSize; omega)⟩
  by_cases hlt : R.RV i.rs1 < s.size
  · generalize hd : getBytes R.X (R.xOff i.rs2) s.size = d at *
    have hdlen : d.length = s.size := by rw [← hd, getBytes_length]
    obtain ⟨D, hok, hroom, hvalid, hview⟩ := RevMem.exists_filled (n := 2 * s.size) (by omega)
      (by unfold RevMem.pageSize; omega) (d.getD (s.size - 1) 0 + 1)
    have hpages : ∀ B, B < s.size → RevMem.rangePages B s.size = {0} := by
      intro B hB
      have hfirst : B / RevMem.pageSize = 0 :=
        Nat.div_eq_of_lt (by unfold RevMem.pageSize; omega)
      have hlast : (B + (s.size - 1)) / RevMem.pageSize = 0 :=
        Nat.div_eq_of_lt (by unfold RevMem.pageSize; omega)
      rw [RevMem.rangePages, hfirst, hlast, Finset.pair_eq_singleton]
    have hrange : ∀ B, B < s.size → D.RangeOk B s.size := by
      intro B hB
      refine ⟨hvalid B (by omega), fun v _ hv => hvalid v (by omega), ?_, ?_⟩
      · have hmod := Nat.mod_le B RevMem.pageSize
        unfold RevMem.pageSize at *
        omega
      · intro hover
        have hmod := Nat.mod_le B RevMem.pageSize
        unfold RevMem.pageSize at *
        omega
    obtain ⟨c, hc, hconf⟩ := hright D hok (hrange 0 (by omega)) (by rw [hpages 0 (by omega)]; exact hroom)
    obtain ⟨m', hwrite, -, hview'⟩ := RevMem.WriteMemFlags_local hok (hrange _ hlt)
      (by rw [hpages _ hlt]; exact hroom) L f.HartToExecID d (s.flags R.IsRV32) hdlen
    rw [run_stored hfind htest _ rfl, hd, hwrite, Option.map_some, Option.some.injEq] at hc
    have hbyte : c.M.view (R.RV i.rs1 + (s.size - 1)) = d.getD (s.size - 1) 0 := by
      rw [← hc]
      change m'.view _ = _
      rw [hview', setBytes, if_pos (by omega), Nat.add_sub_cancel_left]
    have hsame : c.M.view (R.RV i.rs1 + (s.size - 1)) = D.view (R.RV i.rs1 + (s.size - 1)) := by
      rcases hconf.result with ⟨hstored, -⟩ | ⟨-, hkept, -⟩
      · have hfun : c.M.view = setBytes D.view (R.GetX i.rs1) (leBytes s.size (R.GetX i.rs2)) :=
          hstored
        rw [hfun, hzero, setBytes, leBytes_length, if_neg (by omega)]
      · rw [hkept]
        rfl
    rw [hbyte, hview _ (by omega)] at hsame
    have hnat := congrArg UInt8.toNat hsame
    rw [UInt8.toNat_add] at hnat
    have hlt₁ := (d.getD (s.size - 1) 0).toNat_lt
    have hone : (1 : UInt8).toNat = 1 := rfl
    omega
  · obtain ⟨c, hc, -⟩ := hright (RevMem.segment 0 s.size) (RevMem.segment_ok hW)
      (RevMem.segment_range hA (by omega) le_rfl (by unfold RevMem.pageSize; omega) hW)
      (RevMem.segment_room _ (RevMem.rangePages_card _ _))
    rw [run_stored hfind htest _ rfl, RevMem.segment_fault hW (by omega)] at hc
    simp at hc

/-- With a controller the address is that of the request. -/
theorem addr_of_right_ctrl (hA : Addressable (R.GetX i.rs1) s.size) {k : RevBasicMemCtrl}
    (hright : s.Right f i R L (some k)) : R.RV i.rs1 = R.GetX i.rs1 := by
  have hpos : 0 < s.size := by
    have hsize := s.size_cases
    omega
  obtain ⟨D, hok, hrange, hroom⟩ := s.exists_serving hA
  obtain ⟨c, hc, hconf⟩ := hright D hok hrange hroom
  rw [run_stored hfind htest _ rfl] at hc
  obtain ⟨m', hwrite, rfl⟩ := Option.map_eq_some_iff.mp hc
  have hlt : s.size < 2 ^ 32 := by
    have hsize := s.size_cases
    omega
  have hsends := RevMem.WriteMemFlags_sends rfl hlt hwrite
  rcases hconf.result with ⟨⟨p, fl, hstored⟩, -⟩ | ⟨-, -, hkept, -⟩
  · rw [leBytes_length] at hstored
    have hone : m'.ctrl = _ := hstored
    rcases hsends with ⟨p', hp'⟩ | ⟨p', q, tail, htwo⟩
    · rw [hp', Option.some.injEq] at hone
      exact (RevBasicMemCtrl.sendWRITERequest_inj hpos (by simp) (by simp) hone).1
    · rw [htwo, Option.some.injEq] at hone
      exact absurd hone (RevBasicMemCtrl.sendWRITERequest_twice_ne hpos)
  · have hnone : m'.ctrl = some k := hkept
    rcases hsends with ⟨p', hp'⟩ | ⟨p', q, tail, htwo⟩
    · rw [hp', Option.some.injEq] at hnone
      exact absurd hnone (RevBasicMemCtrl.sendWRITERequest_ne hpos)
    · rw [htwo, Option.some.injEq] at hnone
      exact absurd hnone (RevBasicMemCtrl.sendWRITERequest_twice_ne_self hpos)

theorem right_iff_of_stored (hav : s.avail R.IsRV32 = true)
    (hA : Addressable (R.GetX i.rs1) s.size) :
    s.Right f i R L x ↔
      (i.rs1 = 0 → R.RV 0 = 0) ∧ (i.rs2 = 0 → R.RV 0 % 256 ^ s.size = 0) ∧
      (∀ q, i.rd < q → (q - i.rd) * R.xLen < 8 * s.size → R.GetX q = 0) ∧
      ¬Holds (L.eraseP (RevMem.isFor f.HartToExecID (R.RV i.rs1))) f.HartToExecID (R.GetX i.rs1) ∧
      (x.isSome = true → R.GetX i.rs1 % RevMem.pageSize + s.size ≤ RevMem.pageSize) := by
  have hpos : 0 < s.size := by
    have hsize := s.size_cases
    omega
  have hdvd : R.xLen ∣ 8 * s.size := by
    rcases R.xLen_cases with h | h <;> rcases s.size_cases with h' | h' <;> rw [h, h'] <;> decide
  have hrd : (Core.putBytes R i (List.replicate (8 * s.size) 0)).GetX i.rd = 0 :=
    RevRegFile.GetX_cleared hdvd le_rfl (by rw [Nat.sub_self, Nat.zero_mul]; omega)
  have hheld := holds_of_find hfind
  constructor
  · intro hright
    have haddr : R.RV i.rs1 = R.GetX i.rs1 := by
      cases x with
      | none =>
        by_contra hne
        exact addr_of_right_local hfind htest hne hright
      | some k => exact addr_of_right_ctrl hfind htest hA hright
    obtain ⟨D, hok, hrange, hroom⟩ := s.exists_serving hA
    obtain ⟨c, hc, hconf⟩ := hright D hok hrange hroom
    rw [run_stored hfind htest _ rfl] at hc
    obtain ⟨m', hwrite, rfl⟩ := Option.map_eq_some_iff.mp hc
    have hstored : Stored f.HartToExecID (R.GetX i.rs1) (leBytes s.size (R.GetX i.rs2))
        { D with LRSC := L, ctrl := x } m' := by
      rcases hconf.result with ⟨hstored, -⟩ | ⟨hfree, -⟩
      · exact hstored
      · rw [haddr] at hheld
        exact absurd hheld hfree
    obtain ⟨m₁, hwrite₁, hiff⟩ := stored_iff hok hpos
      hrange hroom L x f.HartToExecID (getBytes_length R.X (R.xOff i.rs2) s.size)
      (leBytes_length s.size (R.GetX i.rs2)) (s.flags R.IsRV32)
    have hsame : m' = m₁ := by
      rw [haddr] at hwrite
      exact Option.some.inj (hwrite.symm.trans hwrite₁)
    rw [hsame] at hstored
    have hbytes := hiff.mp hstored
    refine ⟨addr_eq.mp haddr, (data_eq hav).mp hbytes.1, ?_, ?_, hbytes.2⟩
    · intro q hq hin
      rw [← hconf.others q (by omega)]
      exact RevRegFile.GetX_cleared hdvd hq.le hin
    · have hreleased := hconf.released
      change ¬Holds (m'.LRSC.eraseP _) _ _ at hreleased
      rw [RevMem.WriteMemFlags_LRSC hwrite] at hreleased
      exact hreleased
  · rintro ⟨hzero, hdata, hclear, hreleased, hpage⟩ D hok hrange hroom
    have haddr := addr_eq.mpr hzero
    have hbytes := (data_eq hav).mpr hdata
    obtain ⟨m', hwrite, hiff⟩ := stored_iff hok hpos hrange hroom L x f.HartToExecID
      (getBytes_length R.X (R.xOff i.rs2) s.size) (leBytes_length s.size (R.GetX i.rs2))
      (s.flags R.IsRV32)
    have hstored := hiff.mpr ⟨hbytes, hpage⟩
    refine ⟨⟨Core.putBytes R i (List.replicate (8 * s.size) 0),
      { m' with LRSC := m'.LRSC.eraseP (RevMem.isFor f.HartToExecID (R.RV i.rs1)) }⟩, ?_,
      .inl ⟨hstored, hrd⟩, ?_, rfl, ?_⟩
    · rw [run_stored hfind htest _ rfl, haddr, hwrite, Option.map_some]
    · intro q hq
      by_cases hin : i.rd < q ∧ (q - i.rd) * R.xLen < 8 * s.size
      · rw [hclear q hin.1 hin.2]
        exact RevRegFile.GetX_cleared hdvd hin.1.le hin.2
      · apply RevRegFile.GetX_putBytes_of_outside
        rw [List.length_replicate]
        omega
    · change ¬Holds (m'.LRSC.eraseP _) _ _
      rw [RevMem.WriteMemFlags_LRSC hwrite]
      exact hreleased

end

/-- A store conditional is right exactly when it fits: whatever the registers,
    the reservations, the memory and whether there is a controller. -/
theorem right_iff_fits (hav : s.avail R.IsRV32 = true)
    (hA : Addressable (R.GetX i.rs1) s.size) : s.Right f i R L x ↔ s.Fits f i R L x := by
  unfold Fits
  cases hfind : L.find? (RevMem.isFor f.HartToExecID (R.RV i.rs1)) with
  | none => exact right_iff_of_absent hA hfind
  | some r =>
    simp only
    cases htest : RevMem.scTest (Core.regHost R) r.val (R.xOff i.rs2) s.size with
    | true =>
      rw [if_pos rfl]
      exact right_iff_of_stored hfind htest hav hA
    | false =>
      rw [if_neg Bool.false_ne_true]
      exact right_iff_of_refused hA hfind htest

end

/-- `sc.w x10, x5, (x6)` with a reservation of address 0 for a load to x5. -/
def scInst : RevInst := { opcode := 0b0101111, funct3 := 0b010, rd := 10, rs1 := 6, rs2 := 5, instSize := 4 }

def lrX5 : Reservation := ⟨0, 0, 0, 40⟩

/-- It is right when x5 is 1, as everything else is zero. -/
theorem sc_one_right :
    (⟨false⟩ : CondInst).Right { IsRV64 := true } scInst
      { Core.zeroRegs with X := fun v => if v = 40 then 1 else 0 } [lrX5] none := by
  refine (right_iff_fits rfl ⟨by decide, by decide⟩).mpr ?_
  refine ⟨by decide, by decide, ?_, ?_, by simp⟩
  · intro q hq hin
    have hlt : (q - 10) * 8 < 32 := hin
    have hcases : q = 11 ∨ q = 12 ∨ q = 13 := by
      change 10 < q at hq
      omega
    rcases hcases with rfl | rfl | rfl <;> decide
  · rintro ⟨r, hr, -⟩
    exact absurd hr List.not_mem_nil

/-- With all registers zero the reservation is of no use. -/
theorem sc_zero_refused : Holds [lrX5] 0 0 ∧
    ¬(⟨false⟩ : CondInst).Right { IsRV64 := true } scInst Core.zeroRegs [lrX5] none := by
  refine ⟨⟨lrX5, by simp, rfl, rfl⟩, ?_⟩
  intro hright
  have hfits := (right_iff_of_refused (r := lrX5) ⟨by decide, by decide⟩ (by decide)
    (by decide)).mp hright
  exact hfits.1 (by decide)

end CondInst

end RevCPU
