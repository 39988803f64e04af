import RevCPU.Isa.Control

namespace RevCPU.Isa

open RevCPU.Lib

section Registers

variable (R : RevRegFile)

@[simp] theorem xlen_SetX (rd v : ℕ) : xlen (R.SetX rd v) = xlen R := rfl

@[simp] theorem xlen_SetPC (v : ℕ) : xlen (SetPC R v) = xlen R := rfl

@[simp] theorem PC_SetX (rd v : ℕ) : (R.SetX rd v).PC = R.PC := rfl

@[simp] theorem GetX_SetPC (v r : ℕ) : (SetPC R v).GetX r = R.GetX r := rfl

@[simp] theorem GetX_AdvancePC (i : RevInst) (r : ℕ) : (AdvancePC R i).GetX r = R.GetX r := rfl

theorem GetX_zero : R.GetX 0 = 0 := rfl

theorem xLen_eq : 8 * R.xLen = xlen R := by
  unfold RevRegFile.xLen xlen
  cases R.IsRV32 <;> rfl

theorem GetX_lt (r : ℕ) : R.GetX r < 2 ^ xlen R := by
  unfold RevRegFile.GetX
  split_ifs
  · have hlt := leNat_lt (getBytes R.X (R.xOff r) R.xLen)
    rw [pow256] at hlt
    simpa [getBytes, xLen_eq] using hlt
  · exact Nat.two_pow_pos _

/-- The registers after a write of one. -/
theorem GetX_SetX (rd v r : ℕ) :
    (R.SetX rd v).GetX r = if r = rd ∧ r ≠ 0 then v % 2 ^ xlen R else R.GetX r := by
  have hoff : (R.SetX rd v).xOff r = R.xOff r := rfl
  have hlen : (R.SetX rd v).xLen = R.xLen := rfl
  unfold RevRegFile.GetX
  rw [hoff, hlen]
  by_cases hr : r = 0
  · rw [if_neg (not_not.mpr hr), if_neg (not_not.mpr hr), if_neg fun h => h.2 hr]
  rw [if_pos hr, if_pos hr]
  by_cases hrd : r = rd
  · subst hrd
    have hread := getBytes_setBytes R.X (R.xOff r) (leBytes R.xLen v)
    rw [leBytes_length] at hread
    rw [if_pos ⟨rfl, hr⟩]
    simp only [RevRegFile.SetX, ne_eq, hr, not_false_eq_true, if_true]
    rw [hread, leNat_leBytes, pow256, xLen_eq]
  · rw [if_neg fun h => hrd h.1]
    have hapart : R.xOff r + R.xLen ≤ R.xOff rd ∨ R.xOff rd + R.xLen ≤ R.xOff r := by
      unfold RevRegFile.xOff RevRegFile.xLen
      cases R.IsRV32 with
      | true =>
        simp only [if_true]
        omega
      | false =>
        simp only [Bool.false_eq_true, if_false]
        omega
    unfold RevRegFile.SetX
    rw [getBytes_setBytes_of_disjoint]
    rw [leBytes_length]
    exact hapart

end Registers

section Fields

variable (w : ℕ)

theorem opc_eq : w &&& 0b11 = cbits w 1 0 := by
  rw [Nat.and_two_pow_sub_one_eq_mod w 2, cbits, Nat.pow_zero, Nat.div_one]

theorem l3_eq : (w &&& 0b1110000000000000) >>> 13 = cbits w 15 13 := by
  rw [Nat.shiftRight_and_distrib, Nat.shiftRight_eq_div_pow]
  exact Nat.and_two_pow_sub_one_eq_mod _ 3

theorem funct4_eq : (w &&& 0b1111000000000000) >>> 12 = cbits w 15 12 := by
  rw [Nat.shiftRight_and_distrib, Nat.shiftRight_eq_div_pow]
  exact Nat.and_two_pow_sub_one_eq_mod _ 4

theorem rd_eq : DECODE_RD w = cbits w 11 7 := by
  rw [DECODE_RD, Nat.shiftRight_eq_div_pow]
  exact Nat.and_two_pow_sub_one_eq_mod _ 5

theorem crs2_eq : DECODE_LOWER_CRS2 w = cbits w 6 2 := by
  rw [DECODE_LOWER_CRS2, Nat.shiftRight_eq_div_pow]
  exact Nat.and_two_pow_sub_one_eq_mod _ 5

theorem creg_eq : (w &&& 0b1110000000) >>> 7 = cbits w 9 7 := by
  rw [Nat.shiftRight_and_distrib, Nat.shiftRight_eq_div_pow]
  exact Nat.and_two_pow_sub_one_eq_mod _ 3

end Fields

/-- The bits of a swizzled number, from position `n` on, above an accumulator
    of `n` bits. -/
theorem swizzle_foldl (x : ℕ) (bits : List ℕ) {n acc : ℕ} (hacc : acc < 2 ^ n) :
    ((bits.zipIdx n).map fun b => ((x >>> b.1) &&& 1) <<< b.2).foldl (· ||| ·) acc =
      acc + ((bits.zipIdx n).map fun b => x / 2 ^ b.1 % 2 * 2 ^ b.2).sum := by
  induction bits generalizing n acc with
  | nil => rfl
  | cons b bits ih =>
    have hbit : (x >>> b) &&& 1 = x / 2 ^ b % 2 := by
      rw [Nat.shiftRight_eq_div_pow]
      exact Nat.and_two_pow_sub_one_eq_mod _ 1
    have hor : acc ||| (x / 2 ^ b % 2) <<< n = acc + x / 2 ^ b % 2 * 2 ^ n := by
      rw [Nat.or_comm, ← Nat.shiftLeft_add_eq_or_of_lt hacc, Nat.shiftLeft_eq, Nat.add_comm]
    have hlt : acc + x / 2 ^ b % 2 * 2 ^ n < 2 ^ (n + 1) := by
      have hle : x / 2 ^ b % 2 * 2 ^ n ≤ 1 * 2 ^ n := Nat.mul_le_mul_right _ (by omega)
      rw [Nat.pow_succ]
      omega
    simp only [List.zipIdx_cons, List.map_cons, List.foldl_cons, List.sum_cons]
    rw [hbit, hor, ih hlt, Nat.add_assoc]

theorem swizzle_eq (x : ℕ) (bits : List ℕ) :
    swizzle x bits = (bits.zipIdx.map fun b => x / 2 ^ b.1 % 2 * 2 ^ b.2).sum := by
  rw [swizzle, swizzle_foldl x bits (Nat.one_pos : 0 < 2 ^ 0), Nat.zero_add]

/-- The signs that the jumps and branches extend. -/
theorem immExt_jump {t : ℕ} (ht : t < 2 ^ 12) : immExt t 21 = t ∧
    immExt (immExt t 12) 21 = if t < 2 ^ 11 then t else t + (2 ^ 64 - 2 ^ 12) := by
  have hall : ∀ a < 64, ∀ b < 64, immExt (64 * a + b) 21 = 64 * a + b ∧
      immExt (immExt (64 * a + b) 12) 21 =
        if 64 * a + b < 2 ^ 11 then 64 * a + b else 64 * a + b + (2 ^ 64 - 2 ^ 12) := by
    decide +kernel
  have heq : 64 * (t / 64) + t % 64 = t := Nat.div_add_mod t 64
  have hdig := hall (t / 64) (by omega) (t % 64) (Nat.mod_lt _ (by decide))
  rwa [heq] at hdig

theorem immExt_branch : ∀ t < 2 ^ 9,
    immExt (immExt t 9) 13 = if t < 2 ^ 8 then t else t + (2 ^ 64 - 2 ^ 9) := by
  decide +kernel

/-- A bit of a field is a bit of the word. -/
theorem bit_field (w a : ℕ) {n k : ℕ} (hk : k < n) :
    w / 2 ^ a % 2 ^ n / 2 ^ k % 2 = w / 2 ^ (a + k) % 2 := by
  obtain ⟨d, rfl⟩ := Nat.exists_eq_add_of_lt hk
  have hpow : 2 ^ (k + d + 1) = 2 ^ k * 2 ^ (d + 1) := by rw [Nat.add_assoc, Nat.pow_add]
  rw [hpow, Nat.mod_mul_right_div_self, Nat.div_div_eq_div_mul, ← Nat.pow_add,
    Nat.mod_mod_of_dvd _ (Dvd.intro_left (2 ^ d) (Nat.pow_succ 2 d).symm)]

theorem two_bits (w k : ℕ) : w / 2 ^ k % 2 ^ 2 = w / 2 ^ k % 2 + w / 2 ^ (k + 1) % 2 * 2 := by
  rw [Nat.pow_succ 2 k, ← Nat.div_div_eq_div_mul]
  omega

theorem three_bits (w k : ℕ) :
    w / 2 ^ k % 2 ^ 3 = w / 2 ^ k % 2 + w / 2 ^ (k + 1) % 2 * 2 + w / 2 ^ (k + 2) % 2 * 4 := by
  rw [Nat.pow_add 2 k 2, Nat.pow_succ 2 k, ← Nat.div_div_eq_div_mul, ← Nat.div_div_eq_div_mul]
  omega

/-- The target that the decoder assembles for a jump, without its sign. -/
theorem jumpTarget_eq (w : ℕ) (e : RevInstEntry ImplFunc) :
    ((DecodeCJInst w e).jumpTarget : ℤ) = CtrlForm.jOffset w + cbits w 12 12 * 2 ^ 12 := by
  have hx : (w &&& 0b1111111111100) >>> 2 = w / 2 ^ 2 % 2 ^ 11 := by
    rw [Nat.shiftRight_and_distrib, Nat.shiftRight_eq_div_pow]
    exact Nat.and_two_pow_sub_one_eq_mod _ 11
  have h910 : cbits w 10 9 = _ := two_bits w 9
  have h35 : cbits w 5 3 = _ := three_bits w 3
  unfold CtrlForm.jOffset
  rw [h910, h35]
  simp only [DecodeCJInst, hx, swizzle_eq, Nat.shiftLeft_eq, List.zipIdx_cons, List.zipIdx_nil,
    List.map_cons, List.map_nil, List.sum_cons, List.sum_nil]
  rw [bit_field w 2 (by decide : 1 < 11), bit_field w 2 (by decide : 2 < 11),
    bit_field w 2 (by decide : 3 < 11), bit_field w 2 (by decide : 9 < 11),
    bit_field w 2 (by decide : 0 < 11), bit_field w 2 (by decide : 5 < 11),
    bit_field w 2 (by decide : 4 < 11), bit_field w 2 (by decide : 7 < 11),
    bit_field w 2 (by decide : 8 < 11), bit_field w 2 (by decide : 6 < 11),
    bit_field w 2 (by decide : 10 < 11)]
  simp only [cbits, Nat.reduceAdd, Nat.reduceSub, Nat.pow_one]
  push_cast
  ring

/-- A mask above `k` bits. -/
theorem and_shiftLeft (x m k : ℕ) : x &&& (m <<< k) = ((x >>> k) &&& m) <<< k := by
  refine Nat.eq_of_testBit_eq fun j => ?_
  simp only [Nat.testBit_and, Nat.testBit_shiftLeft, Nat.testBit_shiftRight]
  by_cases h : k ≤ j
  · simp [h]
  · simp [h]

/-- The bits of a number that is made of two fields. -/
theorem bits_split (hi : ℕ) {lo : ℕ} (hlo : lo < 2 ^ 5) {k : ℕ} :
    (k < 5 → (hi * 2 ^ 5 + lo) / 2 ^ k % 2 = lo / 2 ^ k % 2) ∧
    (hi * 2 ^ 5 + lo) / 2 ^ (5 + k) % 2 = hi / 2 ^ k % 2 := by
  have hdiv : (hi * 2 ^ 5 + lo) / 2 ^ 5 = hi := by omega
  have hmod : (hi * 2 ^ 5 + lo) % 2 ^ 5 = lo := by omega
  refine ⟨fun hk => ?_, ?_⟩
  · have hfield := bit_field (hi * 2 ^ 5 + lo) 0 hk
    rw [Nat.pow_zero, Nat.div_one, hmod, Nat.zero_add] at hfield
    exact hfield.symm
  · rw [Nat.pow_add, ← Nat.div_div_eq_div_mul, hdiv]

/-- The offset that it assembles for a branch. -/
theorem offset_eq (w : ℕ) {e : RevInstEntry ImplFunc} (he : e.opcode = 0b01 ∧ 0b110 ≤ e.funct3) :
    ((DecodeCBInst w e).offset : ℤ) = CtrlForm.bOffset w + cbits w 12 12 * 2 ^ 9 := by
  have hlow : (w &&& 0b1111100) >>> 2 = w / 2 ^ 2 % 2 ^ 5 := by
    rw [Nat.shiftRight_and_distrib, Nat.shiftRight_eq_div_pow]
    exact Nat.and_two_pow_sub_one_eq_mod _ 5
  have hhigh : (w &&& 0b1110000000000) >>> 5 = w / 2 ^ 10 % 2 ^ 3 * 2 ^ 5 := by
    rw [Nat.shiftRight_and_distrib]
    refine (and_shiftLeft (w >>> 5) 0b111 5).trans ?_
    rw [← Nat.shiftRight_add, Nat.shiftRight_eq_div_pow, Nat.and_two_pow_sub_one_eq_mod _ 3,
      Nat.shiftLeft_eq]
  have hlt : w / 2 ^ 2 % 2 ^ 5 < 2 ^ 5 := Nat.mod_lt _ (by decide)
  have hor : (w / 2 ^ 2 % 2 ^ 5) ||| w / 2 ^ 10 % 2 ^ 3 * 2 ^ 5 =
      w / 2 ^ 10 % 2 ^ 3 * 2 ^ 5 + w / 2 ^ 2 % 2 ^ 5 := by
    rw [← Nat.shiftLeft_eq, Nat.or_comm, ← Nat.shiftLeft_add_eq_or_of_lt hlt]
  have hbits := fun k => bits_split (w / 2 ^ 10 % 2 ^ 3) hlt (k := k)
  have h1011 : cbits w 11 10 = _ := two_bits w 10
  have h56 : cbits w 6 5 = _ := two_bits w 5
  have h34 : cbits w 4 3 = _ := two_bits w 3
  unfold CtrlForm.bOffset
  rw [h1011, h56, h34]
  simp only [DecodeCBInst, hlow, hhigh, hor, if_pos he, swizzle_eq, Nat.shiftLeft_eq,
    List.zipIdx_cons, List.zipIdx_nil, List.map_cons, List.map_nil, List.sum_cons, List.sum_nil]
  rw [(hbits 1).1 (by decide), (hbits 2).1 (by decide), (hbits 0).2, (hbits 1).2,
    (hbits 0).1 (by decide), (hbits 3).1 (by decide), (hbits 4).1 (by decide), (hbits 2).2,
    bit_field w 2 (by decide : 1 < 5), bit_field w 2 (by decide : 2 < 5),
    bit_field w 2 (by decide : 0 < 5), bit_field w 2 (by decide : 3 < 5),
    bit_field w 2 (by decide : 4 < 5), bit_field w 10 (by decide : 0 < 3),
    bit_field w 10 (by decide : 1 < 3), bit_field w 10 (by decide : 2 < 3)]
  simp only [cbits, Nat.reduceAdd, Nat.reduceSub, Nat.pow_one]
  push_cast
  ring

theorem cbits_lt (w hi lo : ℕ) : cbits w hi lo < 2 ^ (hi + 1 - lo) :=
  Nat.mod_lt _ (Nat.two_pow_pos _)

theorem jOffset_bounds (w : ℕ) : 0 ≤ CtrlForm.jOffset w + cbits w 12 12 * 2048 ∧
    CtrlForm.jOffset w + cbits w 12 12 * 2048 < 2048 := by
  have h1 := cbits_lt w 11 11
  have h2 := cbits_lt w 10 9
  have h3 := cbits_lt w 8 8
  have h4 := cbits_lt w 7 7
  have h5 := cbits_lt w 6 6
  have h6 := cbits_lt w 5 3
  have h7 := cbits_lt w 2 2
  unfold CtrlForm.jOffset
  omega

theorem bOffset_bounds (w : ℕ) : 0 ≤ CtrlForm.bOffset w + cbits w 12 12 * 256 ∧
    CtrlForm.bOffset w + cbits w 12 12 * 256 < 256 := by
  have h1 := cbits_lt w 11 10
  have h2 := cbits_lt w 6 5
  have h3 := cbits_lt w 4 3
  have h4 := cbits_lt w 2 2
  unfold CtrlForm.bOffset
  omega

/-- The number that stands for the offset of a jump, when its sign is not
    extended and when it is. -/
theorem jump_imm (w : ℕ) (e : RevInstEntry ImplFunc) :
    (immExt (DecodeCJInst w e).jumpTarget 21 : ℤ) =
      CtrlForm.jOffset w + cbits w 12 12 * 2 ^ 12 ∧
    (immExt (immExt (DecodeCJInst w e).jumpTarget 12) 21 : ℤ) =
      CtrlForm.jOffset w + cbits w 12 12 * 2 ^ 64 := by
  have htarget := jumpTarget_eq w e
  have hbounds := jOffset_bounds w
  have hsign := cbits_lt w 12 12
  generalize (DecodeCJInst w e).jumpTarget = t at htarget ⊢
  obtain ⟨h21, h12⟩ := immExt_jump (show t < 2 ^ 12 by omega)
  rw [h21, h12]
  refine ⟨htarget, ?_⟩
  split
  · omega
  · push_cast
    omega

theorem branch_imm (w : ℕ) {e : RevInstEntry ImplFunc} (he : e.opcode = 0b01 ∧ 0b110 ≤ e.funct3) :
    (immExt (immExt (DecodeCBInst w e).offset 9) 13 : ℤ) =
      CtrlForm.bOffset w + cbits w 12 12 * 2 ^ 64 := by
  have htarget := offset_eq w he
  have hbounds := bOffset_bounds w
  have hsign := cbits_lt w 12 12
  generalize (DecodeCBInst w e).offset = t at htarget ⊢
  rw [immExt_branch t (by omega)]
  split
  · omega
  · push_cast
    omega

end RevCPU.Isa
