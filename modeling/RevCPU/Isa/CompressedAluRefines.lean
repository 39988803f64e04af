import RevCPU.Isa.CompressedAlu
import RevCPU.Isa.ControlRefines
import RevCPU.Isa.IntegerRefines

namespace RevCPU.Isa

/-- The entries of the formats CI, CB, CA and CR. -/
def ciEntry (opcode funct3 : ℕ) (func : ImplFunc) : RevInstEntry ImplFunc :=
  { opcode, funct3, imm := .FVal, format := .RVCTypeCI, compressed := true, func := some func }

def cbEntry (funct2 : ℕ) (func : ImplFunc) : RevInstEntry ImplFunc :=
  { opcode := 0b01, funct2, funct3 := 0b100, imm := .FVal, format := .RVCTypeCB, compressed := true,
    func := some func }

def caEntry (funct2 funct6 : ℕ) (func : ImplFunc) : RevInstEntry ImplFunc :=
  { opcode := 0b01, funct2, funct6, format := .RVCTypeCA, compressed := true, func := some func }

def crEntry (funct4 : ℕ) (func : ImplFunc) : RevInstEntry ImplFunc :=
  { opcode := 0b10, funct4, format := .RVCTypeCR, compressed := true, func := some func }

def addi4spnEntry : RevInstEntry ImplFunc :=
  { opcode := 0b00, imm := .FVal, format := .RVCTypeCIW, compressed := true,
    func := some .caddi4spn }

/-- The entries of the compressed integer instructions, and those that RV64
    adds. -/
def aluCEntries : List (RevInstEntry ImplFunc) :=
  [addi4spnEntry, ciEntry 0b01 0b000 .caddi, ciEntry 0b01 0b010 .cli, ciEntry 0b01 0b011 .CIFUNC,
    ciEntry 0b10 0b000 .cslli, cbEntry 0b00 .csrli, cbEntry 0b01 .csrai, cbEntry 0b10 .candi,
    crEntry 0b1000 .CRFUNC_1000, crEntry 0b1001 .CRFUNC_1001, caEntry 0b00 0b100011 .csub,
    caEntry 0b01 0b100011 .cxor, caEntry 0b10 0b100011 .cor, caEntry 0b11 0b100011 .cand]

def aluCEntries64 : List (RevInstEntry ImplFunc) :=
  [ciEntry 0b01 0b001 .caddiw, caEntry 0b00 0b100111 .csubw, caEntry 0b01 0b100111 .caddw]

/-- The entry is in the table, and no other one has its key. -/
structure OnlyEntry (f : RevFeature) (e : RevInstEntry ImplFunc) : Prop where
  mem : e ∈ InstTable f
  compressed : e.compressed = true
  unique : ∀ e' ∈ InstTable f, e'.compressed = true →
    CompressCEncoding e' = CompressCEncoding e → e' = e

section Entries

variable {f : RevFeature} {e : RevInstEntry ImplFunc}

theorem onlyEntry_base (hI : f.RV_I = true) (hC : f.RV_C = true) (he : e ∈ aluCEntries) :
    OnlyEntry f e := by
  have hall : ∀ e ∈ aluCEntries, e ∈ RV32ICTable ∧ e.compressed = true ∧
      ∀ e' ∈ allEntries, e'.compressed = true → CompressCEncoding e' = CompressCEncoding e →
        e' = e := by
    decide +kernel
  obtain ⟨hmem, hcompressed, hunique⟩ := hall e he
  refine ⟨?_, hcompressed, fun e' he' => hunique e' ((InstTable_sublist f).subset he')⟩
  rw [InstTable_eq, List.mem_flatMap]
  refine ⟨(RV32I, !f.IsRV64), ?_, ?_⟩
  · simp only [SeedInstTable, hI, if_true, List.mem_append]
    cases f.IsRV64 <;> simp
  · simp [entries, hC, RV32I, hmem]

/-- On RV64 the table has no entry for RV32 only. -/
theorem mem_rv64 (hrv : f.IsRV64 = true) (he : e ∈ InstTable f) :
    e ∈ allExts.flatMap fun x => x.table ++ x.ctable := by
  rw [InstTable_eq, List.mem_flatMap] at he
  obtain ⟨c, hc, he⟩ := he
  have hfst := (seed_sublist f).subset (List.mem_map_of_mem hc)
  have hsnd : c.2 = false := by
    have hall : ∀ c ∈ SeedInstTable f, c.2 = false := by
      have h32 : f.IsRV32 = false := by rw [RevFeature.IsRV32, hrv]; rfl
      unfold SeedInstTable
      simp only [hrv, h32, Bool.and_false, if_true, Bool.false_eq_true, if_false]
      cases f.RV_I <;> cases f.RV_M <;> cases f.RV_A <;> cases f.RV_F <;> cases f.RV_D <;>
        cases f.RV_ZICBOM <;> simp
    exact hall c hc
  refine List.mem_flatMap.mpr ⟨c.1, hfst, ?_⟩
  unfold entries at he
  rw [hsnd] at he
  rcases List.mem_append.mp he with h | h
  · exact List.mem_append_left _ h
  · split at h
    · exact List.mem_append_right _ (by simpa using h)
    · cases h

theorem onlyEntry_rv64 (hI : f.RV_I = true) (hC : f.RV_C = true) (hrv : f.IsRV64 = true)
    (he : e ∈ aluCEntries64) : OnlyEntry f e := by
  have hall : ∀ e ∈ aluCEntries64, e ∈ RV64ICTable ∧ e.compressed = true ∧
      ∀ e' ∈ allExts.flatMap (fun x => x.table ++ x.ctable), e'.compressed = true →
        CompressCEncoding e' = CompressCEncoding e → e' = e := by
    decide +kernel
  obtain ⟨hmem, hcompressed, hunique⟩ := hall e he
  refine ⟨?_, hcompressed, fun e' he' => hunique e' (mem_rv64 hrv he')⟩
  rw [InstTable_eq, List.mem_flatMap]
  refine ⟨(RV64I, false), by simp [SeedInstTable, hI, hrv], ?_⟩
  simp [entries, hC, RV64I, hmem]

end Entries

section Keys

variable {w : ℕ}

theorem enc_quadrant0 {l3 : ℕ} (hop : cbits w 1 0 = 0b00) (hl3 : cbits w 15 13 = l3) :
    encCompressed w = l3 <<< 4 := by
  unfold encCompressed
  simp only [opc_eq, l3_eq, hop, hl3]
  simp

theorem enc_quadrant2_low (hop : cbits w 1 0 = 0b10) (hl3 : cbits w 15 13 = 0b000) :
    encCompressed w = 0b10 := by
  unfold encCompressed
  simp only [opc_eq, l3_eq, hop, hl3]
  simp

/-- The key of the shifts and c.andi. -/
theorem enc_shift {funct2 : ℕ} (hop : cbits w 1 0 = 0b01) (hl3 : cbits w 15 13 = 0b100)
    (hf2 : cbits w 11 10 = funct2) (hne : funct2 ≠ 0b11) :
    encCompressed w = 0b01 ||| funct2 <<< 2 ||| 0b100 <<< 4 := by
  have hsel : (w &&& 0b110000000000) >>> 10 = funct2 := by
    rw [Nat.shiftRight_and_distrib, Nat.shiftRight_eq_div_pow]
    exact (Nat.and_two_pow_sub_one_eq_mod _ 2).trans hf2
  unfold encCompressed
  simp only [opc_eq, l3_eq, hop, hl3, hsel]
  simp [hne]

/-- The key of the operations on two registers. -/
theorem enc_arith {funct2 funct6 : ℕ} (hop : cbits w 1 0 = 0b01) (hf6 : cbits w 15 10 = funct6)
    (hmid : funct6 / 8 = 0b100 ∧ funct6 % 4 = 0b11) (hf2 : cbits w 6 5 = funct2) :
    encCompressed w = 0b01 ||| funct2 <<< 2 ||| funct6 <<< 12 := by
  have hl3 : cbits w 15 13 = 0b100 := by
    unfold cbits at *
    omega
  have hsel : (w &&& 0b110000000000) >>> 10 = 0b11 := by
    rw [Nat.shiftRight_and_distrib, Nat.shiftRight_eq_div_pow]
    refine (Nat.and_two_pow_sub_one_eq_mod _ 2).trans ?_
    unfold cbits at *
    omega
  have h2 : (w &&& 0b01100000) >>> 5 = funct2 := by
    rw [Nat.shiftRight_and_distrib, Nat.shiftRight_eq_div_pow]
    exact (Nat.and_two_pow_sub_one_eq_mod _ 2).trans hf2
  have h6 : (w &&& 0b1111110000000000) >>> 10 = funct6 := by
    rw [Nat.shiftRight_and_distrib, Nat.shiftRight_eq_div_pow]
    exact (Nat.and_two_pow_sub_one_eq_mod _ 6).trans hf6
  unfold encCompressed
  simp only [opc_eq, l3_eq, hop, hl3, hsel, h2, h6]
  simp

end Keys

section Immediates

variable (w : ℕ)

theorem bit12_eq : (w &&& 0b1000000000000) >>> 7 = cbits w 12 12 * 2 ^ 5 := by
  rw [Nat.shiftRight_and_distrib]
  exact shifted_field w 7 1 5

theorem low5_eq : (w &&& 0b1111100) >>> 2 = cbits w 6 2 := by
  rw [Nat.shiftRight_and_distrib, Nat.shiftRight_eq_div_pow]
  exact Nat.and_two_pow_sub_one_eq_mod _ 5

/-- The low bits of the immediate of a CI instruction, but for those with an
    order of bits of their own. -/
theorem immCI_eq (f : RevFeature) {e : RevInstEntry ImplFunc} (hcase : (e.opcode, e.funct3) ∈
      [(0b01, 0b000), (0b01, 0b001), (0b01, 0b010), (0b10, 0b000)]) :
    BitVec.ofNat 6 (DecodeCIInst f w e).imm = imm6 w := by
  have ha := cbits_lt w 12 12
  have hb := cbits_lt w 6 2
  have hshape : ∃ m ∈ [0b11111111111111111111111111000000, 0b11111111111111111111111111100000],
      (DecodeCIInst f w e).imm =
        if (cbits w 6 2 ||| cbits w 12 12 * 2 ^ 5) &&& 0b100000 ≠ 0 then
          cbits w 6 2 ||| cbits w 12 12 * 2 ^ 5 ||| m
        else cbits w 6 2 ||| cbits w 12 12 * 2 ^ 5 := by
    simp only [List.mem_cons, Prod.mk.injEq, List.not_mem_nil, or_false] at hcase
    unfold DecodeCIInst immCI
    simp only [crs2_eq, bit12_eq, low5_eq]
    rcases hcase with ⟨hop, hf3⟩ | ⟨hop, hf3⟩ | ⟨hop, hf3⟩ | ⟨hop, hf3⟩ <;> rw [hop, hf3]
    · exact ⟨0b11111111111111111111111111100000, by simp, rfl⟩
    · exact ⟨0b11111111111111111111111111100000, by simp, rfl⟩
    · by_cases hrd : DECODE_RD w = 0
      · rw [hrd]
        exact ⟨0b11111111111111111111111111100000, by simp, rfl⟩
      · exact ⟨0b11111111111111111111111111000000, by simp, by simp [hrd]⟩
    · exact ⟨0b11111111111111111111111111100000, by simp, rfl⟩
  obtain ⟨m, hm, himm⟩ := hshape
  rw [himm, imm6]
  generalize cbits w 12 12 = a at ha
  generalize cbits w 6 2 = b at hb
  have hall : ∀ m ∈ [0b11111111111111111111111111000000, 0b11111111111111111111111111100000],
      ∀ a < 2, ∀ b < 32, BitVec.ofNat 6 (if (b ||| a * 2 ^ 5) &&& 0b100000 ≠ 0 then
        b ||| a * 2 ^ 5 ||| m else b ||| a * 2 ^ 5) = BitVec.ofNat 6 (a * 2 ^ 5 + b) := by
    decide +kernel
  exact hall m hm a ha b hb

/-- The immediate of c.lui, of which 17 bits are used. -/
theorem immCI_lui (f : RevFeature) {rd : ℕ} (hrd : rd ≠ 2) :
    BitVec.ofNat 17 (immCI f.toRevFeature 0b01 0b011 rd w) = (imm6 w).signExtend 17 := by
  have ha := cbits_lt w 12 12
  have hb := cbits_lt w 6 2
  have h10 : (w &&& 0b1111100) <<< 10 = cbits w 6 2 * 2 ^ 12 := by
    refine (congrArg (· <<< 10) (shifted_field w 0 5 2)).trans ?_
    rw [Nat.shiftLeft_eq, Nat.mul_assoc]
    rfl
  have h5 : (w &&& 0b1000000000000) <<< 5 = cbits w 12 12 * 2 ^ 17 := by
    refine (congrArg (· <<< 5) (shifted_field w 0 1 12)).trans ?_
    rw [Nat.shiftLeft_eq, Nat.mul_assoc]
    rfl
  unfold immCI imm6
  simp only [crs2_eq, bit12_eq, low5_eq, h10, h5]
  generalize cbits w 12 12 = a at ha
  generalize cbits w 6 2 = b at hb
  by_cases hzero : rd = 0
  · subst hzero
    have hall : ∀ a < 2, ∀ b < 32, BitVec.ofNat 17 (if (b ||| a * 2 ^ 5) &&& 0b100000 ≠ 0 then
        b ||| a * 2 ^ 5 ||| 0b11111111111111111111111111100000 else b ||| a * 2 ^ 5) =
          (BitVec.ofNat 6 (a * 2 ^ 5 + b)).signExtend 17 := by
      decide +kernel
    exact hall a ha b hb
  · have hall : ∀ a < 2, ∀ b < 32, BitVec.ofNat 17
        ((if (b * 2 ^ 12 ||| a * 2 ^ 17) &&& 0b100000000000000000 ≠ 0 then
          b * 2 ^ 12 ||| a * 2 ^ 17 ||| 0b11111111111111000000000000000000
        else b * 2 ^ 12 ||| a * 2 ^ 17) >>> 12) =
          (BitVec.ofNat 6 (a * 2 ^ 5 + b)).signExtend 17 := by
      decide +kernel
    have himm := hall a ha b hb
    simpa [hrd, hzero] using himm

/-- The immediate of c.addi16sp. -/
theorem immCI_addi16sp (f : RevFeature) :
    BitVec.ofNat 10 (immCI f.toRevFeature 0b01 0b011 2 w) = imm16sp w := by
  have h6 : (w &&& 0b1000000) >>> 2 = cbits w 6 6 * 2 ^ 4 := by
    rw [Nat.shiftRight_and_distrib]
    exact shifted_field w 2 1 4
  have h2 : (w &&& 0b100) <<< 3 = cbits w 2 2 * 2 ^ 5 := by
    refine (congrArg (· <<< 3) (shifted_field w 0 1 2)).trans ?_
    rw [Nat.shiftLeft_eq, Nat.mul_assoc]
    rfl
  have h5 : (w &&& 0b100000) <<< 1 = cbits w 5 5 * 2 ^ 6 := by
    refine (congrArg (· <<< 1) (shifted_field w 0 1 5)).trans ?_
    rw [Nat.shiftLeft_eq, Nat.mul_assoc]
    rfl
  have h3 : (w &&& 0b11000) <<< 4 = cbits w 4 3 * 2 ^ 7 := by
    refine (congrArg (· <<< 4) (shifted_field w 0 2 3)).trans ?_
    rw [Nat.shiftLeft_eq, Nat.mul_assoc]
    rfl
  have h12 : (w &&& 0b1000000000000) >>> 3 = cbits w 12 12 * 2 ^ 9 := by
    rw [Nat.shiftRight_and_distrib]
    exact shifted_field w 3 1 9
  have ha := cbits_lt w 12 12
  have hb := cbits_lt w 4 3
  have hc := cbits_lt w 5 5
  have hd := cbits_lt w 2 2
  have he := cbits_lt w 6 6
  unfold immCI imm16sp
  simp only [h6, h2, h5, h3, h12]
  generalize cbits w 12 12 = a at ha
  generalize cbits w 4 3 = b at hb
  generalize cbits w 5 5 = c at hc
  generalize cbits w 2 2 = d at hd
  generalize cbits w 6 6 = e at he
  have hall : ∀ a < 2, ∀ b < 4, ∀ c < 2, ∀ d < 2, ∀ e < 2, BitVec.ofNat 10
      (if (e * 2 ^ 4 ||| d * 2 ^ 5 ||| c * 2 ^ 6 ||| b * 2 ^ 7 ||| a * 2 ^ 9) &&& 0b1000000000 ≠ 0
        then e * 2 ^ 4 ||| d * 2 ^ 5 ||| c * 2 ^ 6 ||| b * 2 ^ 7 ||| a * 2 ^ 9 |||
          0b11111111111111111111111000000000
        else e * 2 ^ 4 ||| d * 2 ^ 5 ||| c * 2 ^ 6 ||| b * 2 ^ 7 ||| a * 2 ^ 9) =
        BitVec.ofNat 10 (a * 2 ^ 9 + b * 2 ^ 7 + c * 2 ^ 6 + d * 2 ^ 5 + e * 2 ^ 4) := by
    decide +kernel
  exact hall a ha b hb c hc d hd e he

/-- The immediate of c.addi4spn, of which the decoder leaves out the two low
    bits. -/
theorem immCIW_eq (e : RevInstEntry ImplFunc) :
    ((DecodeCIWInst w e).imm = 0 ↔ imm4spn w = 0) ∧
    BitVec.ofNat 12 (((DecodeCIWInst w e).imm &&& 0b11111111) * 4) = (imm4spn w).setWidth 12 := by
  have hfield : (w &&& 0b1111111100000) >>> 5 = cbits w 12 5 := by
    rw [Nat.shiftRight_and_distrib, Nat.shiftRight_eq_div_pow]
    exact Nat.and_two_pow_sub_one_eq_mod _ 8
  have hx := cbits_lt w 12 5
  have hspec : imm4spn w = BitVec.ofNat 10 (cbits w 12 5 / 4 % 16 * 2 ^ 6 +
      cbits w 12 5 / 64 * 2 ^ 4 + cbits w 12 5 % 2 * 2 ^ 3 + cbits w 12 5 / 2 % 2 * 2 ^ 2) := by
    have h107 : cbits w 10 7 = cbits w 12 5 / 4 % 16 := by unfold cbits; omega
    have h1211 : cbits w 12 11 = cbits w 12 5 / 64 := by unfold cbits; omega
    have h5 : cbits w 5 5 = cbits w 12 5 % 2 := by unfold cbits; omega
    have h6 : cbits w 6 6 = cbits w 12 5 / 2 % 2 := by unfold cbits; omega
    rw [imm4spn, h107, h1211, h5, h6]
  rw [hspec]
  simp only [DecodeCIWInst, hfield]
  generalize cbits w 12 5 = x at hx
  have hall : ∀ x < 256,
      (swizzle x [1, 0, 6, 7, 2, 3, 4, 5] = 0 ↔ BitVec.ofNat 10 (x / 4 % 16 * 2 ^ 6 +
        x / 64 * 2 ^ 4 + x % 2 * 2 ^ 3 + x / 2 % 2 * 2 ^ 2) = 0) ∧
      BitVec.ofNat 12 ((swizzle x [1, 0, 6, 7, 2, 3, 4, 5] &&& 0b11111111) * 4) =
        (BitVec.ofNat 10 (x / 4 % 16 * 2 ^ 6 + x / 64 * 2 ^ 4 + x % 2 * 2 ^ 3 +
          x / 2 % 2 * 2 ^ 2)).setWidth 12 := by
    decide +kernel
  exact hall x hx

/-- The immediate of the shifts and of c.andi. -/
theorem immCB_eq (e : RevInstEntry ImplFunc) : BitVec.ofNat 6 (DecodeCBInst w e).imm = imm6 w := by
  have h12 : (w &&& 0b01000000000000) >>> 7 = cbits w 12 12 * 2 ^ 5 := bit12_eq w
  have hor : cbits w 6 2 ||| cbits w 12 12 * 2 ^ 5 = cbits w 12 12 * 2 ^ 5 + cbits w 6 2 := by
    rw [Nat.or_comm]
    exact or_eq_add 5 (by omega) (cbits_lt w 6 2)
  have himm : (DecodeCBInst w e).imm = cbits w 6 2 ||| cbits w 12 12 * 2 ^ 5 := by
    rw [← h12, ← low5_eq]
    rfl
  rw [himm, hor, imm6]

end Immediates

theorem ofNat_immExt {bits v : ℕ} (imm : ℕ) (hpos : 0 < bits) (hbits : bits ≤ 32) (hv : v ≤ 64) :
    BitVec.ofNat v (immExt imm bits) = (BitVec.ofNat bits imm).signExtend v := by
  rw [immExt_eq imm hpos hbits, ← setWidth_signExtend hv]
  apply BitVec.eq_of_toNat_eq
  rw [BitVec.toNat_ofNat, BitVec.toNat_setWidth]

section Runs

variable {f : RevFeature} {w : ℕ} (R : RevRegFile)

/-- A shift by an immediate reads six bits of it at most. -/
theorem exec_shift {op : AluOp} (hop : op.isShift = true) {imm : ℕ} {v : BitVec 6}
    (hv : BitVec.ofNat 6 imm = v) (size rd rs1 : ℕ) :
    (IntInst.opImm op false rd rs1 (BitVec.ofNat 12 imm)).exec size (view R) =
      (IntInst.opImm op false rd rs1 (v.setWidth 12)).exec size (view R) := by
  have hmod : ∀ b : BitVec 12, (b.signExtend (xlen R)).toNat % xlen R = b.toNat % xlen R := by
    intro b
    rw [BitVec.toNat_signExtend, BitVec.toNat_setWidth]
    rcases xlen_cases R with hx | hx
    · rw [hx]
      split <;> omega
    · rw [hx]
      split <;> omega
  have hsix : (BitVec.ofNat 12 imm).toNat % 64 = (v.setWidth 12).toNat % 64 := by
    rw [← hv, BitVec.toNat_setWidth, BitVec.toNat_ofNat, BitVec.toNat_ofNat]
    omega
  have hamount : ((BitVec.ofNat 12 imm).signExtend (xlen R)).toNat % xlen R =
      ((v.setWidth 12).signExtend (xlen R)).toNat % xlen R := by
    rw [hmod, hmod]
    rcases xlen_cases R with hx | hx
    · rw [hx]
      omega
    · rw [hx]
      exact hsix
  cases op with
  | sll => simp [IntInst.exec, IntState.alu, AluOp.eval, hamount]
  | srl => simp [IntInst.exec, IntState.alu, AluOp.eval, hamount]
  | sra => simp [IntInst.exec, IntState.alu, AluOp.eval, hamount]
  | _ => exact absurd hop (by decide)

theorem Executed.of_exec {t t' : IntInst} {size : ℕ} {R R' : RevRegFile}
    (h : Executed t size R R') (heq : t.exec size (view R) = t'.exec size (view R)) :
    Executed t' size R R' := by
  refine ⟨?_, ?_, h.rest⟩
  · rw [← heq]
    exact h.pc
  · rw [← heq]
    exact h.x

/-- An operation whose operands are given. -/
theorem executed_immForm (op : AluOp) (W : Bool) {i : RevInst} {rd rs1 imm : ℕ} {v : BitVec 12}
    (hrd : i.rd = rd) (hrs1 : i.rs1 = rs1) (hv : BitVec.ofNat 12 imm = v) (hsize : i.instSize = 2) :
    Executed (.opImm op W rd rs1 v) 2 R
      (oper R { i with imm } op.operator .Imm op.signed W) := by
  rw [← hrd, ← hrs1, ← hv, ← hsize]
  exact executed_opImm R { i with imm } op W

theorem executed_luiForm {i : RevInst} {rd imm : ℕ} {v : BitVec 20} (hrd : i.rd = rd)
    (hv : BitVec.ofNat 20 imm = v) (hsize : i.instSize = 2) :
    Executed (.lui rd v) 2 R (lui R { i with imm }) := by
  rw [← hrd, ← hv, ← hsize]
  exact executed_lui R { i with imm }

theorem executed_regForm {op : AluOp} {W : Bool} {i : RevInst} {rd rs1 rs2 : ℕ}
    (hrd : i.rd = rd) (hrs1 : i.rs1 = rs1) (hrs2 : i.rs2 = rs2) (hsize : i.instSize = 2) :
    Executed (.opReg op W rd rs1 rs2) 2 R (oper R i op.operator .Reg op.signed W) := by
  rw [← hrd, ← hrs1, ← hrs2, ← hsize]
  exact executed_opReg R i op W

/-- A shift by the six bits of the immediate. -/
theorem executed_shiftForm (op : AluOp) (hop : op.isShift = true) {i : RevInst} {rd rs1 : ℕ}
    {v : BitVec 6} (hrd : i.rd = rd) (hrs1 : i.rs1 = rs1) (hv : BitVec.ofNat 6 i.imm = v)
    (hsize : i.instSize = 2) :
    Executed (.opImm op false rd rs1 (v.setWidth 12)) 2 R
      (oper R i op.operator .Imm op.signed false) := by
  have hrun := executed_opImm R i op false
  rw [hrd, hrs1, hsize] at hrun
  exact hrun.of_exec (exec_shift R hop hv 2 rd rs1)

theorem executed_add (i : RevInst) :
    Executed (.opReg .add false i.rd i.rs1 i.rs2) i.instSize R (add R i) := by
  rw [add_eq_oper]
  exact executed_opReg R i .add false

/-- A write to register 0 changes nothing. -/
theorem executed_hint (op : AluOp) (W : Bool) (rs1 rs2 : ℕ) (i : RevInst) :
    Executed (.opReg op W 0 rs1 rs2) i.instSize R (AdvancePC R i) := by
  refine ⟨?_, ?_, ⟨rfl, rfl, rfl, rfl, rfl⟩⟩
  · simp only [IntInst.exec]
    rw [toNat_next]
    rfl
  · intro r
    simp only [IntInst.exec]
    rw [toNat_write, if_neg fun h => h.2 h.1]
    rfl

/-- A word with the key of an entry runs with the function of the entry. -/
theorem runsAluCWord (e : RevInstEntry ImplFunc) {t : IntInst} {i : RevInst}
    {g : RevRegFile → RevInst → RevRegFile} {coProc : ℕ → Bool} (hw : w < 2 ^ 16)
    (hC : f.RV_C = true) (he : OnlyEntry f e) (hkey : encCompressed w = CompressCEncoding e)
    (hi : decodeCFormat f w e = some i) (hg : e.func.bind compressedAlu = some g)
    (hrun : ∀ i' : RevInst, i'.rd = i.rd → i'.rs1 = i.rs1 → i'.rs2 = i.rs2 → i'.imm = i.imm →
      i'.instSize = i.instSize → Executed t 2 R (g R i')) :
    RunsAluCWord f coProc w R t := by
  obtain ⟨n, hentry, hdecode⟩ :=
    decodeCompressed_eq hw hC he.mem he.compressed hkey he.unique coProc
  rw [hi, Option.map_some] at hdecode
  exact ⟨_, e, g, hdecode, hentry, hg, hrun _ rfl rfl rfl rfl rfl⟩

end Runs

/-- A sign extension from six bits. -/
theorem immExt_imm6 {w imm : ℕ} (himm : BitVec.ofNat 6 imm = imm6 w) :
    BitVec.ofNat 12 (immExt imm 6) = (imm6 w).signExtend 12 := by
  rw [ofNat_immExt imm (by decide) (by decide) (by decide), himm]

section Forms

variable {f : RevFeature} (hI : f.RV_I = true) (hC : f.RV_C = true) (coProc : ℕ → Bool) {w : ℕ}
  (hw : w < 2 ^ 16) (R : RevRegFile)

include hI hC hw

theorem runs_addi4spn (hq : cbits w 1 0 = 0b00) (hf3 : cbits w 15 13 = 0b000)
    (himm : imm4spn w ≠ 0) : RunsAluCWord f coProc w R
      (.opImm .add false (cbits w 4 2 + 8) 2 ((imm4spn w).setWidth 12)) := by
  have hrd : (DecodeCIWInst w addi4spnEntry).rd = cbits w 4 2 + 8 := by
    refine congrArg (· + 8) ?_
    rw [Nat.shiftRight_and_distrib, Nat.shiftRight_eq_div_pow]
    exact Nat.and_two_pow_sub_one_eq_mod _ 3
  obtain ⟨hzero, hval⟩ := immCIW_eq w addi4spnEntry
  refine runsAluCWord R addi4spnEntry hw hC (onlyEntry_base hI hC (by decide))
    (enc_quadrant0 hq hf3) rfl rfl fun i hi1 hi2 hi3 himm' hsize => ?_
  have hne : i.imm ≠ 0 := by
    rw [himm']
    exact fun hi => himm (hzero.mp hi)
  unfold caddi4spn
  rw [if_neg hne]
  refine executed_immForm R .add false (hi1.trans hrd) hi2 ?_ hsize
  rw [himm', hval]

theorem runs_addi (hq : cbits w 1 0 = 0b01) (hf3 : cbits w 15 13 = 0b000) :
    RunsAluCWord f coProc w R
      (.opImm .add false (cbits w 11 7) (cbits w 11 7) ((imm6 w).signExtend 12)) := by
  refine runsAluCWord R (ciEntry 0b01 0b000 .caddi) hw hC (onlyEntry_base hI hC (by decide))
    (enc_quadrant1 hq hf3 (by decide) (by decide)) rfl rfl fun i hrd hrs1 _ himm hsize => ?_
  have himm' : BitVec.ofNat 6 i.imm = imm6 w := by
    rw [himm, immCI_eq w f (by decide)]
  exact executed_immForm R .add false (hrd.trans (rd_eq w)) (hrs1.trans (rd_eq w))
    (immExt_imm6 himm') hsize

theorem runs_addiw (hrv : f.IsRV64 = true) (hq : cbits w 1 0 = 0b01)
    (hf3 : cbits w 15 13 = 0b001) : RunsAluCWord f coProc w R
      (.opImm .add true (cbits w 11 7) (cbits w 11 7) ((imm6 w).signExtend 12)) := by
  refine runsAluCWord R (ciEntry 0b01 0b001 .caddiw) hw hC (onlyEntry_rv64 hI hC hrv (by decide))
    (enc_quadrant1 hq hf3 (by decide) (by decide)) rfl rfl fun i hrd hrs1 _ himm hsize => ?_
  have himm' : BitVec.ofNat 6 i.imm = imm6 w := by
    rw [himm, immCI_eq w f (by decide)]
  exact executed_immForm R .add true (hrd.trans (rd_eq w)) (hrs1.trans (rd_eq w))
    (immExt_imm6 himm') hsize

theorem runs_li (hq : cbits w 1 0 = 0b01) (hf3 : cbits w 15 13 = 0b010) :
    RunsAluCWord f coProc w R
      (.opImm .add false (cbits w 11 7) 0 ((imm6 w).signExtend 12)) := by
  have hrs1' : rs1CI 0b01 0b010 (DECODE_RD w) = 0 := by
    unfold rs1CI
    by_cases hzero : DECODE_RD w = 0
    · simp [hzero]
    · simp [hzero]
  refine runsAluCWord R (ciEntry 0b01 0b010 .cli) hw hC (onlyEntry_base hI hC (by decide))
    (enc_quadrant1 hq hf3 (by decide) (by decide)) rfl rfl fun i hrd hrs1 _ himm hsize => ?_
  have himm' : BitVec.ofNat 6 i.imm = imm6 w := by
    rw [himm, immCI_eq w f (by decide)]
  exact executed_immForm R .add false (hrd.trans (rd_eq w)) (hrs1.trans hrs1')
    (immExt_imm6 himm') hsize

theorem runs_addi16sp (hq : cbits w 1 0 = 0b01) (hf3 : cbits w 15 13 = 0b011)
    (hrd2 : cbits w 11 7 = 2) : RunsAluCWord f coProc w R
      (.opImm .add false 2 2 ((imm16sp w).signExtend 12)) := by
  have hrd' : DECODE_RD w = 2 := (rd_eq w).trans hrd2
  have hrs1' : rs1CI 0b01 0b011 (DECODE_RD w) = 2 := by
    rw [hrd']
    rfl
  refine runsAluCWord R (ciEntry 0b01 0b011 .CIFUNC) hw hC (onlyEntry_base hI hC (by decide))
    (enc_quadrant1 hq hf3 (by decide) (by decide)) rfl rfl fun i hrd hrs1 _ himm hsize => ?_
  unfold CIFUNC
  rw [if_pos (hrd.trans hrd')]
  refine executed_immForm R .add false (hrd.trans hrd') (hrs1.trans hrs1') ?_ hsize
  have himm' : i.imm = immCI f.toRevFeature 0b01 0b011 2 w := by
    rw [himm, ← hrd']
    rfl
  rw [himm', ofNat_immExt _ (by decide) (by decide) (by decide), immCI_addi16sp]

theorem runs_lui (hq : cbits w 1 0 = 0b01) (hf3 : cbits w 15 13 = 0b011)
    (hrd2 : cbits w 11 7 ≠ 2) :
    RunsAluCWord f coProc w R (.lui (cbits w 11 7) ((imm6 w).signExtend 20)) := by
  have hrd' : DECODE_RD w ≠ 2 := by
    rw [rd_eq]
    exact hrd2
  refine runsAluCWord R (ciEntry 0b01 0b011 .CIFUNC) hw hC (onlyEntry_base hI hC (by decide))
    (enc_quadrant1 hq hf3 (by decide) (by decide)) rfl rfl fun i hrd hrs1 _ himm hsize => ?_
  unfold CIFUNC
  rw [if_neg fun hi => hrd' (hrd.symm.trans hi)]
  refine executed_luiForm R (hrd.trans (rd_eq w)) ?_ hsize
  rw [ofNat_immExt _ (by decide) (by decide) (by decide), himm]
  refine (congrArg (BitVec.signExtend 20) (immCI_lui w f hrd')).trans ?_
  exact signExtend_signExtend (by decide) (by decide) _

theorem runs_slli (hq : cbits w 1 0 = 0b10) (hf3 : cbits w 15 13 = 0b000) :
    RunsAluCWord f coProc w R
      (.opImm .sll false (cbits w 11 7) (cbits w 11 7) ((imm6 w).setWidth 12)) := by
  refine runsAluCWord R (ciEntry 0b10 0b000 .cslli) hw hC (onlyEntry_base hI hC (by decide))
    (enc_quadrant2_low hq hf3) rfl rfl fun i hrd hrs1 _ himm hsize => ?_
  have himm' : BitVec.ofNat 6 i.imm = imm6 w := by
    rw [himm, immCI_eq w f (by decide)]
  exact executed_shiftForm R .sll rfl (hrd.trans (rd_eq w)) (hrs1.trans (rd_eq w)) himm'
    hsize

theorem runs_srli (hq : cbits w 1 0 = 0b01) (hf3 : cbits w 15 13 = 0b100)
    (hf2 : cbits w 11 10 = 0b00) : RunsAluCWord f coProc w R
      (.opImm .srl false (cbits w 9 7 + 8) (cbits w 9 7 + 8) ((imm6 w).setWidth 12)) := by
  refine runsAluCWord R (cbEntry 0b00 .csrli) hw hC (onlyEntry_base hI hC (by decide))
    (enc_shift hq hf3 hf2 (by decide)) rfl rfl fun i hrd hrs1 _ himm hsize => ?_
  have hrd' : i.rd = cbits w 9 7 + 8 := hrd.trans (congrArg (· + 8) (creg_eq w))
  have himm' : BitVec.ofNat 6 i.imm = imm6 w := by rw [himm, immCB_eq]
  exact executed_shiftForm R .srl (i := { i with rs1 := i.rd }) rfl hrd' hrd' himm' hsize

theorem runs_srai (hq : cbits w 1 0 = 0b01) (hf3 : cbits w 15 13 = 0b100)
    (hf2 : cbits w 11 10 = 0b01) : RunsAluCWord f coProc w R
      (.opImm .sra false (cbits w 9 7 + 8) (cbits w 9 7 + 8) ((imm6 w).setWidth 12)) := by
  refine runsAluCWord R (cbEntry 0b01 .csrai) hw hC (onlyEntry_base hI hC (by decide))
    (enc_shift hq hf3 hf2 (by decide)) rfl rfl fun i hrd hrs1 _ himm hsize => ?_
  have himm' : BitVec.ofNat 6 i.imm = imm6 w := by rw [himm, immCB_eq]
  exact executed_shiftForm R .sra rfl (hrd.trans (congrArg (· + 8) (creg_eq w)))
    (hrs1.trans (congrArg (· + 8) (creg_eq w))) himm' hsize

theorem runs_andi (hq : cbits w 1 0 = 0b01) (hf3 : cbits w 15 13 = 0b100)
    (hf2 : cbits w 11 10 = 0b10) : RunsAluCWord f coProc w R
      (.opImm .and false (cbits w 9 7 + 8) (cbits w 9 7 + 8) ((imm6 w).signExtend 12)) := by
  refine runsAluCWord R (cbEntry 0b10 .candi) hw hC (onlyEntry_base hI hC (by decide))
    (enc_shift hq hf3 hf2 (by decide)) rfl rfl fun i hrd hrs1 _ himm hsize => ?_
  have himm' : BitVec.ofNat 6 i.imm = imm6 w := by rw [himm, immCB_eq]
  exact executed_immForm R .and false (hrd.trans (congrArg (· + 8) (creg_eq w)))
    (hrs1.trans (congrArg (· + 8) (creg_eq w))) (immExt_imm6 himm') hsize

/-- c.mv adds to register 0, which the decoder selects when `rs2` is not 0. -/
theorem runs_mv (hq : cbits w 1 0 = 0b10) (hf4 : cbits w 15 12 = 0b1000)
    (hrs2 : cbits w 6 2 ≠ 0) :
    RunsAluCWord f coProc w R (.opReg .add false (cbits w 11 7) 0 (cbits w 6 2)) := by
  have hl3 : cbits w 15 13 = 0b100 := by
    unfold cbits at *
    omega
  have hkey := enc_quadrant2 hq hl3
  rw [hf4] at hkey
  have hne : DECODE_LOWER_CRS2 w ≠ 0 := by
    rw [crs2_eq]
    exact hrs2
  refine runsAluCWord R (crEntry 0b1000 .CRFUNC_1000) hw hC (onlyEntry_base hI hC (by decide))
    hkey rfl rfl fun i hrd hrs1 hrs2' himm hsize => ?_
  have hrs1' : i.rs1 = 0 := hrs1.trans (if_pos ⟨rfl, rfl, hne⟩)
  have hrun := executed_add R i
  rw [hrd.trans (rd_eq w), hrs1', hrs2'.trans (crs2_eq w), hsize] at hrun
  unfold CRFUNC_1000
  rw [if_pos (hrs2' ▸ hne)]
  exact hrun

/-- c.add. To register 0 it is a hint, which runs as c.ebreak does. -/
theorem runs_add (hq : cbits w 1 0 = 0b10) (hf4 : cbits w 15 12 = 0b1001)
    (hrs2 : cbits w 6 2 ≠ 0) :
    RunsAluCWord f coProc w R (.opReg .add false (cbits w 11 7) (cbits w 11 7) (cbits w 6 2)) := by
  have hl3 : cbits w 15 13 = 0b100 := by
    unfold cbits at *
    omega
  have hkey := enc_quadrant2 hq hl3
  rw [hf4] at hkey
  refine runsAluCWord R (crEntry 0b1001 .CRFUNC_1001) hw hC (onlyEntry_base hI hC (by decide))
    hkey rfl rfl fun i hrd hrs1 hrs2' himm hsize => ?_
  have hrd' : i.rd = cbits w 11 7 := hrd.trans (rd_eq w)
  have hrs1' : i.rs1 = cbits w 11 7 := hrs1.trans (rd_eq w)
  have hrs2'' : i.rs2 = cbits w 6 2 := hrs2'.trans (crs2_eq w)
  unfold CRFUNC_1001
  by_cases hzero : cbits w 11 7 = 0
  · rw [if_pos ⟨hrs1'.trans hzero, hrd'.trans hzero⟩, hzero]
    have hrun := executed_hint R .add false 0 (cbits w 6 2) i
    rwa [hsize] at hrun
  · rw [if_neg fun hi => hzero (hrd'.symm.trans hi.2),
      if_neg fun hi => hrs2 (hrs2''.symm.trans hi.1)]
    have hrun := executed_add R i
    rwa [hrd', hrs1', hrs2'', hsize] at hrun

/-- The operations on two of the eight registers. -/
theorem runs_arith {op : AluOp} {W : Bool} (hq : cbits w 1 0 = 0b01)
    (hf6 : cbits w 15 10 = if W then 0b100111 else 0b100011)
    (hf2 : (op, W, cbits w 6 5) ∈ [(AluOp.sub, false, 0b00), (.xor, false, 0b01),
      (.or, false, 0b10), (.and, false, 0b11), (.sub, true, 0b00), (.add, true, 0b01)])
    (hrv : W = true → f.IsRV64 = true) : RunsAluCWord f coProc w R
      (.opReg op W (cbits w 9 7 + 8) (cbits w 9 7 + 8) (cbits w 4 2 + 8)) := by
  have hlow : (w &&& 0b11100) >>> 2 = cbits w 4 2 := by
    rw [Nat.shiftRight_and_distrib, Nat.shiftRight_eq_div_pow]
    exact Nat.and_two_pow_sub_one_eq_mod _ 3
  have hrun : ∀ (e : RevInstEntry ImplFunc) (i : RevInst), i.rd = (DecodeCAInst w e).rd →
      i.rs1 = (DecodeCAInst w e).rs1 → i.rs2 = (DecodeCAInst w e).rs2 → i.instSize = 2 →
      Executed (.opReg op W (cbits w 9 7 + 8) (cbits w 9 7 + 8) (cbits w 4 2 + 8)) 2 R
        (oper R i op.operator .Reg op.signed W) := fun e i hrd hrs1 hrs2 hsize =>
    executed_regForm R (hrd.trans (congrArg (· + 8) (creg_eq w)))
      (hrs1.trans (congrArg (· + 8) (creg_eq w))) (hrs2.trans (congrArg (· + 8) hlow)) hsize
  simp only [List.mem_cons, Prod.mk.injEq, List.not_mem_nil, or_false] at hf2
  rcases hf2 with ⟨rfl, rfl, h2⟩ | ⟨rfl, rfl, h2⟩ | ⟨rfl, rfl, h2⟩ | ⟨rfl, rfl, h2⟩ |
    ⟨rfl, rfl, h2⟩ | ⟨rfl, rfl, h2⟩
  · exact runsAluCWord R (caEntry 0b00 0b100011 .csub) hw hC (onlyEntry_base hI hC (by decide))
      (enc_arith hq hf6 (by decide) h2) rfl rfl fun i hrd hrs1 hrs2 _ hsize =>
        hrun _ i hrd hrs1 hrs2 hsize
  · exact runsAluCWord R (caEntry 0b01 0b100011 .cxor) hw hC (onlyEntry_base hI hC (by decide))
      (enc_arith hq hf6 (by decide) h2) rfl rfl fun i hrd hrs1 hrs2 _ hsize =>
        hrun _ i hrd hrs1 hrs2 hsize
  · exact runsAluCWord R (caEntry 0b10 0b100011 .cor) hw hC (onlyEntry_base hI hC (by decide))
      (enc_arith hq hf6 (by decide) h2) rfl rfl fun i hrd hrs1 hrs2 _ hsize =>
        hrun _ i hrd hrs1 hrs2 hsize
  · exact runsAluCWord R (caEntry 0b11 0b100011 .cand) hw hC (onlyEntry_base hI hC (by decide))
      (enc_arith hq hf6 (by decide) h2) rfl rfl fun i hrd hrs1 hrs2 _ hsize =>
        hrun _ i hrd hrs1 hrs2 hsize
  · exact runsAluCWord R (caEntry 0b00 0b100111 .csubw) hw hC
      (onlyEntry_rv64 hI hC (hrv rfl) (by decide)) (enc_arith hq hf6 (by decide) h2) rfl rfl
      fun i hrd hrs1 hrs2 _ hsize => hrun _ i hrd hrs1 hrs2 hsize
  · exact runsAluCWord R (caEntry 0b01 0b100111 .caddw) hw hC
      (onlyEntry_rv64 hI hC (hrv rfl) (by decide)) (enc_arith hq hf6 (by decide) h2) rfl rfl
      fun i hrd hrs1 hrs2 _ hsize => hrun _ i hrd hrs1 hrs2 hsize

/-- Compressed integer instructions: every word of one is decoded and run as its
    expansion is, but for the PC, which advances by two, and nothing else
    changes. -/
theorem compressedAlu_refines {t : IntInst} (h : AluCWord f.IsRV64 w t) :
    RunsAluCWord f coProc w R t := by
  cases h with
  | addi4spn hq hf3 himm => exact runs_addi4spn hI hC coProc hw R hq hf3 himm
  | addi hq hf3 => exact runs_addi hI hC coProc hw R hq hf3
  | addiw hrv hq hf3 hrd => exact runs_addiw hI hC coProc hw R hrv hq hf3
  | li hq hf3 => exact runs_li hI hC coProc hw R hq hf3
  | addi16sp hq hf3 hrd himm => exact runs_addi16sp hI hC coProc hw R hq hf3 hrd
  | lui hq hf3 hrd himm => exact runs_lui hI hC coProc hw R hq hf3 hrd
  | slli hq hf3 hshamt => exact runs_slli hI hC coProc hw R hq hf3
  | srli hq hf3 hf2 hshamt => exact runs_srli hI hC coProc hw R hq hf3 hf2
  | srai hq hf3 hf2 hshamt => exact runs_srai hI hC coProc hw R hq hf3 hf2
  | andi hq hf3 hf2 => exact runs_andi hI hC coProc hw R hq hf3 hf2
  | mv hq hf4 hrs2 => exact runs_mv hI hC coProc hw R hq hf4 hrs2
  | add hq hf4 hrs2 => exact runs_add hI hC coProc hw R hq hf4 hrs2
  | arith op W hq hf6 hf2 hrv => exact runs_arith hI hC coProc hw R hq hf6 hf2 hrv

end Forms

/-- `c.addi x1, -1` on a machine RV32IC. -/
theorem compressedAlu_refines_addi :
    RunsAluCWord { IsRV64 := false } (fun _ => false) 0x10fd
      { IsRV32 := true, HasD := false, X := fun _ => 0, FP := fun _ => 0, PC := 0 }
      (.opImm .add false 1 1 0xfff) :=
  compressedAlu_refines rfl rfl (fun _ => false) (by decide) _ (.addi (by decide) (by decide))

end RevCPU.Isa
