import RevCPU.Program.Accesses
import RevCPU.Program.Decoded

namespace RevCPU.Program

open RevCPU.Lib RevCPU.Isa

/-- The registers, the PC and the memory of a core are those of a state of the
    specification. -/
structure Shows {n : ℕ} (c : Core) (s : Arch n) : Prop where
  width : xlen c.R = n
  pc : c.R.PC = s.int.pc.toNat
  x : ∀ r, c.R.GetX r = (s.int.x r).toNat
  mem : c.M.view = s.mem

/-- From `R` to `R'` the register of the instruction has been set to `v`, and the
    PC is that of the next instruction. -/
structure Writes (R R' : RevRegFile) (i : Isa.RevInst) (v : BitVec (xlen R)) : Prop where
  IsRV32 : R'.IsRV32 = R.IsRV32
  pc : R'.PC = (R.PC + i.instSize) % 2 ^ xlen R
  x : ∀ r, R'.GetX r = if r = i.rd ∧ r ≠ 0 then v.toNat else R.GetX r

section MulDiv

variable (R : RevRegFile) (i : Isa.RevInst)

theorem writes_wide (signed : Bool) (v : BitVec (xlen R)) :
    Writes R (AdvancePC (setX R signed i.rd v) i) i v :=
  ⟨rfl, rfl, fun r => GetX_setX R signed v i.rd r⟩

theorem writes_word (v : BitVec 32) :
    Writes R (AdvancePC (setX R true i.rd v) i) i (v.signExtend (xlen R)) :=
  ⟨rfl, rfl, fun r => GetX_setX_word R v i.rd r⟩

/-- The result of an operation of the M extension on the operands of an
    instruction. -/
def mulDivVal (op : MulDivOp) (W : Bool) : BitVec (xlen R) :=
  if W then (op.eval (getX R 32 i.rs1) (getX R 32 i.rs2)).signExtend (xlen R)
  else op.eval (getX R (xlen R) i.rs1) (getX R (xlen R) i.rs2)

theorem writes_mul : Writes R (mul R i) i (mulDivVal R i .mul false) := by
  rw [mul, oper_eq]
  exact writes_wide R i true _

theorem writes_mulw : Writes R (mulw R i) i (mulDivVal R i .mul true) := writes_word R i _

theorem writes_upper (s₁ s₂ : Bool) : Writes R (uppermul R i s₁ s₂) i
    (upperBits (xlen R)
      (numVal s₁ (getX R (xlen R) i.rs1) * numVal s₂ (getX R (xlen R) i.rs2))) := by
  rw [uppermul_eq, upperHalf_eq (xlen_pos R)]
  exact writes_wide R i false _

theorem writes_divrem (op : DivRem) (signed : Bool) : ∃ R', divrem R i op signed = some R' ∧
    Writes R R' i (isaDivRem signed (getX R (xlen R) i.rs1) (getX R (xlen R) i.rs2) op) := by
  refine ⟨_, ?_, writes_wide R i signed _⟩
  rw [divrem_eq, divremVal_eq (xlen_pos R), Option.map_some]

theorem writes_divremw (op : DivRem) (signed : Bool) :
    ∃ R', divrem R i op signed true = some R' ∧ Writes R R' i
      ((isaDivRem signed (getX R 32 i.rs1) (getX R 32 i.rs2) op).signExtend (xlen R)) := by
  refine ⟨_, ?_, writes_word R i _⟩
  simp [divrem, divremVal_eq]

/-- The function of an operation computes it. -/
theorem mulDiv_writes {op : MulDivOp} {W : Bool} (hW : W = true → op.hasWord = true) :
    integer (op.func W) = none ∧ ∃ g, mulDiv (op.func W) = some g ∧ ∀ R i, ∃ R', g R i = some R' ∧
      Writes R R' i (mulDivVal R i op W) := by
  cases W with
  | false =>
    cases op with
    | mul => exact ⟨rfl, _, rfl, fun R i => ⟨_, rfl, writes_mul R i⟩⟩
    | mulh => exact ⟨rfl, _, rfl, fun R i => ⟨_, rfl, writes_upper R i true true⟩⟩
    | mulhsu => exact ⟨rfl, _, rfl, fun R i => ⟨_, rfl, writes_upper R i true false⟩⟩
    | mulhu => exact ⟨rfl, _, rfl, fun R i => ⟨_, rfl, writes_upper R i false false⟩⟩
    | div => exact ⟨rfl, _, rfl, fun R i => writes_divrem R i .Div true⟩
    | divu => exact ⟨rfl, _, rfl, fun R i => writes_divrem R i .Div false⟩
    | rem => exact ⟨rfl, _, rfl, fun R i => writes_divrem R i .Rem true⟩
    | remu => exact ⟨rfl, _, rfl, fun R i => writes_divrem R i .Rem false⟩
  | true =>
    cases op with
    | mul => exact ⟨rfl, _, rfl, fun R i => ⟨_, rfl, writes_mulw R i⟩⟩
    | mulh | mulhsu | mulhu => exact absurd (hW rfl) (by decide)
    | div => exact ⟨rfl, _, rfl, fun R i => writes_divremw R i .Div true⟩
    | divu => exact ⟨rfl, _, rfl, fun R i => writes_divremw R i .Div false⟩
    | rem => exact ⟨rfl, _, rfl, fun R i => writes_divremw R i .Rem true⟩
    | remu => exact ⟨rfl, _, rfl, fun R i => writes_divremw R i .Rem false⟩

end MulDiv

/-- The bytes of an access are accessible, those of a store are outside of the
    code, and in 32 bits the address does not wrap around. -/
structure Accesses {n : ℕ} (V Code : ℕ → Prop) (s : Arch n) (rs1 : ℕ) (offset : BitVec 12)
    (size : ℕ) (stores : Bool) : Prop where
  exact : n = 64 ∨ ((s.int.x rs1).toNat : ℤ) + offset.toInt = s.addr rs1 offset
  inside : ∀ v, s.addr rs1 offset ≤ v → v < s.addr rs1 offset + size → V v
  apart : stores = true → ∀ v, s.addr rs1 offset ≤ v → v < s.addr rs1 offset + size → ¬Code v

/-- What an instruction may do to the memory. -/
def Permitted {n : ℕ} (V Code : ℕ → Prop) (s : Arch n) : Inst → Prop
  | .load l _ rs1 offset => Accesses V Code s rs1 offset l.size false
  | .store t rs1 _ offset => Accesses V Code s rs1 offset t.size true
  | _ => True

section States

variable {n : ℕ} {c : Core} {s : Arch n}

/-- The state of the specification is the one that the registers show. -/
theorem Shows.int_eq (h : Shows c s) : ∃ hn : xlen c.R = n, hn ▸ view c.R = s.int := by
  obtain ⟨rfl, hpc, hx, -⟩ := h
  refine ⟨rfl, ?_⟩
  have hxeq : (view c.R).x = s.int.x := by
    funext r
    apply BitVec.eq_of_toNat_eq
    rw [← hx]
    exact toNat_getX c.R r
  have hpceq : (view c.R).pc = s.int.pc := by
    apply BitVec.eq_of_toNat_eq
    rw [view, BitVec.toNat_ofNat, hpc]
    exact Nat.mod_eq_of_lt s.int.pc.isLt
  cases hs : s.int with
  | mk x pc =>
    rw [hs] at hxeq hpceq
    cases hv : view c.R with
    | mk x' pc' =>
      rw [hv] at hxeq hpceq
      obtain rfl : x' = x := hxeq
      obtain rfl : pc' = pc := hpceq
      rfl

/-- A register that is set, and the PC of the next instruction. -/
theorem Shows.written (h : Shows c s) {c' : Core} {rd : ℕ} {v : BitVec n}
    (hrv : c'.R.IsRV32 = c.R.IsRV32) (hview : c'.M.view = c.M.view)
    (hpc : c'.R.PC = (c.R.PC + 4) % 2 ^ xlen c.R)
    (hx : ∀ r, c'.R.GetX r = if r = rd ∧ r ≠ 0 then v.toNat else c.R.GetX r) :
    Shows c' { int := { x := s.int.write rd v, pc := s.int.next 4 }, mem := s.mem } := by
  have hn := h.width
  refine ⟨?_, ?_, ?_, hview.trans h.mem⟩
  · rw [← hn]
    unfold Isa.xlen
    rw [hrv]
  · rw [hpc, h.pc, hn, IntState.next, BitVec.toNat_add, BitVec.toNat_ofNat, Nat.add_mod_mod]
  · intro r
    change _ = (s.int.write rd v r).toNat
    rw [hx]
    unfold IntState.write
    split
    · rfl
    · exact h.x r

end States

section Steps

variable {f : Isa.RevFeature} {n : ℕ} {c : Core} {s : Arch n} {V Code : ℕ → Prop} {w : ℕ}

/-- The execution of a decoded instruction whose function is known. -/
theorem execute_eq {i : Isa.RevInst} {e : Isa.RevInstEntry Isa.ImplFunc} {func : Isa.ImplFunc}
    (he : (InstTable f)[i.entry]? = some e) (hfunc : e.func = some func) :
    execute f c i = runFunc f c i func := by
  simp only [execute, he, Option.bind_some, hfunc]

/-- Decoding a word and executing the result refines the instruction. -/
def RunsInst (f : Isa.RevFeature) (V : ℕ → Prop) (c : Core) (w : ℕ) (s' : Arch n) : Prop :=
  ∃ i c', Isa.DecodeInst f (fun _ => false) w = some i ∧ execute f c i = some c' ∧ Shows c' s' ∧
    c'.M.ctrl = none ∧ c'.M.Writable V

/-- An integer instruction, jump or branch. -/
theorem executes_int (h : Shows c s) (hM : c.M.Writable V) (hctrl : c.M.ctrl = none) {t : IntInst}
    (hrun : RunsWord f (fun _ => false) w c.R t) : RunsInst f V c w (s.exec (.int t)) := by
  obtain ⟨i, e, g, hdecode, he, hg, hexec⟩ := hrun
  obtain ⟨func, hfunc, hint⟩ := Option.bind_eq_some_iff.mp hg
  refine ⟨i, { c with R := g c.R i }, hdecode, ?_, ?_, hctrl, hM⟩
  · rw [execute_eq he hfunc, runFunc, hint]
  · obtain ⟨hn, hview⟩ := h.int_eq
    subst hn
    have hint' : view c.R = s.int := hview
    refine ⟨?_, ?_, ?_, h.mem⟩
    · unfold Isa.xlen
      rw [hexec.rest.IsRV32]
    · rw [Arch.exec, ← hint']
      exact hexec.pc
    · intro r
      rw [Arch.exec, ← hint']
      exact hexec.x r

theorem loadFunc_eq (l : IntLoad) : integer (loadFunc l) = none ∧ mulDiv (loadFunc l) = none ∧
    (loadFunc l).loadStore = some l.func := by
  cases l <;> exact ⟨rfl, rfl, rfl⟩

theorem storeFunc_eq (t : IntStore) : integer (storeFunc t) = none ∧
    mulDiv (storeFunc t) = none ∧ (storeFunc t).loadStore = some t.func := by
  cases t <;> exact ⟨rfl, rfl, rfl⟩

/-- The value of a load in the specification. -/
theorem loaded_eq (h : Shows c s) (l : IntLoad) (A : ℕ) :
    (s.loaded l A).toNat = l.value c.R.xLen c.M.view A := by
  have hn := h.width
  rw [← xLen_eq] at hn
  subst hn
  rw [IntLoad.value, extend, Arch.loaded, h.mem]
  cases l.signed <;> rfl

variable {i : Isa.RevInst} {e : Isa.RevInstEntry Isa.ImplFunc}

/-- The address that a load or store computes. -/
theorem Shows.effAddr (h : Shows c s) {rs1 size : ℕ} {offset : BitVec 12} {stores : Bool}
    (hrs1 : i.rs1 = rs1) (hoff : BitVec.ofNat 12 i.imm = offset)
    (hok : Accesses V Code s rs1 offset size stores) :
    c.effAddr i.toProc = s.addr rs1 offset := by
  have hn := h.width
  have hx : BitVec.ofNat n (c.R.GetX rs1) = s.int.x rs1 := by
    rw [h.x, BitVec.ofNat_toNat, BitVec.setWidth_eq]
  refine effAddr_of_exact ?_ ?_
  · change s.addr rs1 offset = (BitVec.ofNat (xlen c.R) (c.R.GetX i.rs1) +
      (BitVec.ofNat 12 i.imm).signExtend (xlen c.R)).toNat
    rw [hrs1, hoff, hn, hx, Arch.addr]
  · change xlen c.R = 64 ∨ (c.R.GetX i.rs1 : ℤ) + (BitVec.ofNat 12 i.imm).toInt = _
    rw [hrs1, hoff, hn, h.x]
    exact hok.exact

/-- A load. -/
theorem executes_load (h : Shows c s) (hM : c.M.Writable V) (hctrl : c.M.ctrl = none)
    (he : (InstTable f)[i.entry]? = some e) {l : IntLoad} (hfunc : e.func = some (loadFunc l))
    (hav : l.avail c.R.IsRV32 = true) {rd rs1 : ℕ} {offset : BitVec 12} (hrd : i.rd = rd)
    (hrs1 : i.rs1 = rs1) (hoff : BitVec.ofNat 12 i.imm = offset) (hsize : i.instSize = 4)
    (hok : Accesses V Code s rs1 offset l.size false) :
    ∃ c', execute f c i = some c' ∧ Shows c' (s.exec (.load l rd rs1 offset)) ∧
      c'.M.ctrl = none ∧ c'.M.Writable V := by
  obtain ⟨hint, hmul, hls⟩ := loadFunc_eq l
  obtain ⟨c', hrun, hctrl', hM', hview, hrv', hpc, hx⟩ := load_runs f.toRevFeature (i := i.toProc)
    hav hM hctrl (h.effAddr hrs1 hoff hok) hok.inside
  refine ⟨c', ?_, ?_, hctrl', hM'⟩
  · rw [execute_eq he hfunc, runFunc, hint, hmul]
    simp only [hls, Option.bind_some]
    exact hrun
  · refine h.written hrv' hview ?_ ?_
    · rw [hpc, ← hsize]
      rfl
    · intro r
      rw [hx, loaded_eq h, ← hrd]
      rfl

/-- A store. -/
theorem executes_store (h : Shows c s) (hM : c.M.Writable V) (hctrl : c.M.ctrl = none)
    (he : (InstTable f)[i.entry]? = some e) {t : IntStore} (hfunc : e.func = some (storeFunc t))
    {rs1 rs2 : ℕ} {offset : BitVec 12} (hrs1 : i.rs1 = rs1) (hrs2 : i.rs2 = rs2)
    (hoff : BitVec.ofNat 12 i.imm = offset) (hsize : i.instSize = 4)
    (hok : Accesses V Code s rs1 offset t.size true) :
    ∃ c', execute f c i = some c' ∧ Shows c' (s.exec (.store t rs1 rs2 offset)) ∧
      c'.M.ctrl = none ∧ c'.M.Writable V := by
  obtain ⟨hint, hmul, hls⟩ := storeFunc_eq t
  obtain ⟨c', hrun, hctrl', hM', hview, hrv', hpc, hx⟩ := store_runs f.toRevFeature (i := i.toProc)
    t hM hctrl (h.effAddr hrs1 hoff hok) hok.inside
  have hn := h.width
  refine ⟨c', ?_, ⟨?_, ?_, ?_, ?_⟩, hctrl', hM'⟩
  · rw [execute_eq he hfunc, runFunc, hint, hmul]
    simp only [hls, Option.bind_some]
    exact hrun
  · rw [← hn]
    unfold Isa.xlen
    rw [hrv']
  · have hi : i.toProc.instSize = 4 := hsize
    rw [hpc, h.pc, hi, hn]
    change _ = (s.int.next 4).toNat
    rw [IntState.next, BitVec.toNat_add, BitVec.toNat_ofNat, Nat.add_mod_mod]
  · intro r
    rw [hx]
    exact h.x r
  · have hr : c.R.GetX i.toProc.rs2 = (s.int.x rs2).toNat := by
      rw [← hrs2]
      exact h.x i.rs2
    rw [hview, h.mem, hr]
    rfl

/-- An instruction of the M extension. -/
theorem executes_mulDiv (h : Shows c s) (he : (InstTable f)[i.entry]? = some e) {op : MulDivOp}
    {W : Bool} (hfunc : e.func = some (op.func W)) (hW : W = true → op.hasWord = true)
    {rd rs1 rs2 : ℕ} (hrd : i.rd = rd) (hrs1 : i.rs1 = rs1) (hrs2 : i.rs2 = rs2)
    (hsize : i.instSize = 4) :
    ∃ R', execute f c i = some { c with R := R' } ∧
      Shows { c with R := R' } (s.exec (.mulDiv op W rd rs1 rs2)) := by
  obtain ⟨hint, g, hg, hrun⟩ := mulDiv_writes hW
  obtain ⟨R', hR', hwrites⟩ := hrun c.R i
  refine ⟨R', ?_, ?_⟩
  · rw [execute_eq he hfunc, runFunc, hint]
    simp only [hg, hR', Option.map_some]
  · have hn := h.width
    subst hn
    have hval : ∀ r, getX c.R (xlen c.R) r = s.int.x r := by
      intro r
      apply BitVec.eq_of_toNat_eq
      rw [toNat_getX, h.x]
    refine h.written
      (v := if W then (op.eval ((s.int.x rs1).setWidth 32) ((s.int.x rs2).setWidth 32)).signExtend _
        else op.eval (s.int.x rs1) (s.int.x rs2)) hwrites.IsRV32 rfl ?_ ?_
    · rw [← hsize]
      exact hwrites.pc
    · intro r
      rw [← hrd, hwrites.x, mulDivVal, ← setWidth_getX, ← setWidth_getX, hval, hval, hrs1, hrs2]

end Steps

section Words

variable {f : Isa.RevFeature} {n : ℕ} {c : Core} {s : Arch n} {V Code : ℕ → Prop} {w : ℕ}

/-- A word of an integer instruction, jump or branch runs with the function of
    its entry. -/
theorem runs_int (hf : f.RV_I = true) (hw : w < 2 ^ 32) {t : IntInst}
    (h : IntWord f.IsRV64 w t) (R : RevRegFile) : RunsWord f (fun _ => false) w R t := by
  have hmem := h.entry_mem hf
  have henc := h.encodes hw
  have hplain := t.entry_plain
  cases h with
  | lui hop =>
    refine runsWord _ hmem henc rfl rfl hplain fun i hrd hrs1 hrs2 himm hsize => ?_
    have hrun := executed_lui R i
    rwa [hrd.trans (rdField_eq w), himm, immU_eq w, hsize] at hrun
  | auipc hop =>
    refine runsWord _ hmem henc rfl rfl hplain fun i hrd hrs1 hrs2 himm hsize => ?_
    have hrun := executed_auipc R i
    rwa [hrd.trans (rdField_eq w), himm, immU_eq w, hsize] at hrun
  | jal hop =>
    refine runsWord _ hmem henc rfl rfl hplain fun i hrd hrs1 hrs2 himm hsize => ?_
    have hrun := executed_jal R i
    rwa [hrd.trans (rdField_eq w), himm, immJ_eq w, hsize] at hrun
  | jalr hop hf3 =>
    refine runsWord _ hmem henc rfl rfl hplain fun i hrd hrs1 hrs2 himm hsize => ?_
    have hrun := executed_jalr R i
    rwa [hrd.trans (rdField_eq w), hrs1.trans (rs1Field_eq w), himm, immI_eq w, hsize] at hrun
  | branch op hop hf3 =>
    obtain ⟨g, hg, hrun⟩ := executed_branch op R
    refine runsWord _ hmem henc rfl hg hplain fun i hrd hrs1 hrs2 himm hsize => ?_
    have hrun := hrun i
    rwa [hrs1.trans (rs1Field_eq w), hrs2.trans (rs2_eq w), himm, immB_eq w, hsize] at hrun
  | opImm op W hop hf3 hsub hf7 hW =>
    refine runsWord _ hmem henc rfl (integer_immFunc hsub fun hw => (hW hw).2) hplain
      fun i hrd hrs1 hrs2 himm hsize => ?_
    have hrun := executed_opImm R i op W
    rwa [hrd.trans (rdField_eq w), hrs1.trans (rs1Field_eq w), himm, immI_eq w, hsize] at hrun
  | opReg op W hop hf3 hf7 hW =>
    refine runsWord _ hmem henc rfl (integer_regFunc fun hw => (hW hw).2) hplain
      fun i hrd hrs1 hrs2 himm hsize => ?_
    have hrun := executed_opReg R i op W
    rwa [hrd.trans (rdField_eq w), hrs1.trans (rs1Field_eq w), hrs2.trans (rs2_eq w), hsize] at hrun

/-- The word of a permitted instruction is decoded and executed as the
    specification says, and the memory stays accessible. -/
theorem runs_word {t : Inst} (hf : t.enabled f = true) (hrv : c.R.IsRV32 = f.IsRV32)
    (h : Shows c s) (hM : c.M.Writable V) (hctrl : c.M.ctrl = none) (hw : w < 2 ^ 32)
    (hword : InstWord f.IsRV64 w t) (hok : Permitted V Code s t) :
    RunsInst f V c w (s.exec t) := by
  cases hword with
  | int t ht => exact executes_int h hM hctrl (runs_int hf hw ht c.R)
  | load l hop hf3 hav =>
    obtain ⟨k, hdecode, he⟩ := (InstWord.load l hop hf3 hav).decoded (fun _ => false) hf hw rfl
    have hav' : l.avail c.R.IsRV32 = true := by
      rw [hrv]
      exact hav
    let e := Inst.entry (.load l (rdField w) (rs1Field w) (immI w))
    obtain ⟨c', hrun, hshows, hctrl', hM'⟩ := executes_load
      (i := { Isa.DecodeIInst w e with entry := k, isCoProcInst := false }) h hM hctrl he rfl hav'
      (rdField_eq w) (rs1Field_eq w) (immI_eq w e) rfl hok
    exact ⟨_, c', hdecode, hrun, hshows, hctrl', hM'⟩
  | store t hop hf3 hav =>
    obtain ⟨k, hdecode, he⟩ := (InstWord.store t hop hf3 hav).decoded (fun _ => false) hf hw rfl
    let e := Inst.entry (.store t (rs1Field w) (rs2Field w) (immS w))
    obtain ⟨c', hrun, hshows, hctrl', hM'⟩ := executes_store
      (i := { Isa.DecodeSInst w e with entry := k, isCoProcInst := false }) h hM hctrl he rfl
      (rs1Field_eq w) (rs2_eq w) (immS_eq hw e) rfl hok
    exact ⟨_, c', hdecode, hrun, hshows, hctrl', hM'⟩
  | mulDiv op W hop hf3 hf7 hW =>
    obtain ⟨k, hdecode, he⟩ :=
      (InstWord.mulDiv op W hop hf3 hf7 hW).decoded (fun _ => false) hf hw rfl
    let e := Inst.entry (.mulDiv op W (rdField w) (rs1Field w) (rs2Field w))
    obtain ⟨R', hrun, hshows⟩ := executes_mulDiv
      (i := { Isa.DecodeRInst w e with entry := k, isCoProcInst := false }) h he rfl
      (fun hw => (hW hw).2)
      (rdField_eq w) (rs1Field_eq w) (rs2_eq w) rfl
    exact ⟨_, _, hdecode, hrun, hshows, hctrl, hM⟩

end Words

end RevCPU.Program
