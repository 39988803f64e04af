import RevCPU.Loader.Lines
import RevCPU.MemCtrl.Split

namespace RevCPU

open Lib

namespace RevMem

/-- A call of `WriteMem` in `WriteCacheLine`: its address, its length and where
    its bytes start in the buffer. -/
structure LineCall where
  Addr : ℕ
  Len : ℕ
  off : ℕ
  deriving DecidableEq, Repr

def LineCall.write (Data : ℕ → ℕ → Load (List UInt8)) (m : RevMem) (c : LineCall) : Load RevMem :=
  m.writeFrom c.Addr c.Len Data c.off

/-- The calls of `WriteMem` in `WriteCacheLine`. -/
def lineCalls (lineSize Addr Len : ℕ) : List LineCall :=
  (List.range (lineCount lineSize Addr Len)).map fun j =>
    ⟨lineAddr lineSize Addr Len j, lineLen lineSize Addr Len j, lineOff lineSize Addr Len j⟩

/-- The loop of `WriteCacheLine` that walks down to the base of the first line. -/
def lineBase (lineSize : ℕ) : ℕ → ℕ
  | 0 => 0
  | a + 1 => if (a + 1) % lineSize = 0 then a + 1 else lineBase lineSize a

theorem lineBase_eq (lineSize Addr : ℕ) : lineBase lineSize Addr = Addr - Addr % lineSize := by
  induction Addr with
  | zero => simp [lineBase]
  | succ a ih =>
    rw [lineBase]
    split
    · rename_i hzero
      rw [hzero, Nat.sub_zero]
    · rename_i hne
      have hmod : (a + 1) % lineSize = a % lineSize + 1 := by
        rcases Nat.eq_zero_or_pos lineSize with rfl | hpos
        · simp
        · have hlt := Nat.mod_lt a hpos
          rw [← Nat.mod_add_mod] at hne ⊢
          refine Nat.mod_eq_of_lt (Nat.lt_of_le_of_ne hlt ?_)
          intro heq
          exact hne (by rw [heq, Nat.mod_self])
      rw [ih, hmod]
      omega

section

variable {lineSize Addr Len : ℕ}

/-- The writes start below the end of the range. -/
theorem lineOff_lt_iff (hsize : 0 < lineSize) (hLen : Len ≠ 0) (j : ℕ) :
    lineOff lineSize Addr Len j < Len ↔ j < lineCount lineSize Addr Len := by
  rw [lineCount, if_neg hLen]
  cases j with
  | zero =>
    simp only [lineOff]
    have hcount := Nat.succ_pos ((Len - firstLine lineSize Addr Len + lineSize - 1) / lineSize)
    exact iff_of_true (Nat.pos_of_ne_zero hLen) hcount
  | succ j =>
    have hle : firstLine lineSize Addr Len ≤ Len := firstLine_le hsize
    have hceil : j < (Len - firstLine lineSize Addr Len + lineSize - 1) / lineSize ↔
        j * lineSize < Len - firstLine lineSize Addr Len := by
      rw [Nat.lt_iff_add_one_le, Nat.le_div_iff_mul_le hsize, Nat.succ_mul]
      omega
    simp only [lineOff, Nat.add_lt_add_iff_right, hceil]
    omega

/-- A write is not empty and ends where the next one starts, the last one at the
    end of the range. -/
theorem lineLen_spec (hsize : 0 < lineSize) {j : ℕ} (hj : lineOff lineSize Addr Len j < Len) :
    0 < lineLen lineSize Addr Len j ∧
      lineOff lineSize Addr Len j + lineLen lineSize Addr Len j =
        min (lineOff lineSize Addr Len (j + 1)) Len := by
  cases j with
  | zero =>
    have hpos : 0 < firstLine lineSize Addr Len := firstLine_pos hsize (by omega)
    have hle : firstLine lineSize Addr Len ≤ Len := firstLine_le hsize
    simp only [lineOff, lineLen, Nat.zero_mul, Nat.zero_add, Nat.add_zero]
    omega
  | succ j =>
    rw [lineOff_succ]
    simp only [lineLen, lineChunk]
    split <;> omega

theorem lineCalls_tiles_from (hsize : 0 < lineSize) (hLen : Len ≠ 0) {k n : ℕ}
    (hcount : k + n = lineCount lineSize Addr Len) (hn : 0 < n) :
    Tiles (Addr + lineOff lineSize Addr Len k)
      ((List.range' k n).map fun j =>
        (Addr + lineOff lineSize Addr Len j, lineLen lineSize Addr Len j)) (Addr + Len) := by
  induction n generalizing k with
  | zero => omega
  | succ n ih =>
    have hk : lineOff lineSize Addr Len k < Len := (lineOff_lt_iff hsize hLen k).mpr (by omega)
    obtain ⟨hpos, hend⟩ := lineLen_spec hsize hk
    rw [List.range'_succ, List.map_cons, Tiles]
    refine ⟨rfl, hpos, ?_⟩
    rw [Nat.add_assoc, hend]
    by_cases hlast : n = 0
    · have hover : ¬lineOff lineSize Addr Len (k + 1) < Len :=
        (lineOff_lt_iff hsize hLen (k + 1)).not.mpr (by omega)
      rw [hlast, Nat.min_eq_right (by omega)]
      rfl
    · have hmore : lineOff lineSize Addr Len (k + 1) < Len :=
        (lineOff_lt_iff hsize hLen (k + 1)).mpr (by omega)
      rw [Nat.min_eq_left (by omega)]
      exact ih (by omega) (by omega)

theorem lineCalls_tiles (hsize : 0 < lineSize) :
    Tiles Addr ((lineCalls lineSize Addr Len).map fun c => (Addr + c.off, c.Len)) (Addr + Len) := by
  rw [lineCalls, List.map_map, List.range_eq_range']
  by_cases hLen : Len = 0
  · rw [lineCount, if_pos hLen, hLen]
    rfl
  · have hpos : 0 < lineCount lineSize Addr Len :=
      (lineOff_lt_iff hsize hLen 0).mp (Nat.pos_of_ne_zero hLen)
    exact lineCalls_tiles_from (k := 0) hsize hLen (by omega) hpos

/-- A write longer than a line starts its lines at multiples of the line size. -/
theorem lineCalls_inLine (hsize : 0 < lineSize) (hlong : lineSize < Len) {j : ℕ}
    (hj : lineOff lineSize Addr Len j < Len) :
    InLine lineSize (Addr + lineOff lineSize Addr Len j, lineLen lineSize Addr Len j) := by
  refine (RevBasicMemCtrl.inLine_iff hsize (lineLen_spec hsize hj).1).mpr ?_
  have hfirst : firstLine lineSize Addr Len = lineSize - Addr % lineSize := if_neg (by omega)
  have hmod := Nat.mod_lt Addr hsize
  cases j with
  | zero =>
    simp only [lineOff, lineLen, Nat.add_zero, hfirst]
    omega
  | succ j =>
    have hsplit := Nat.div_add_mod Addr lineSize
    have hstart : Addr + lineOff lineSize Addr Len (j + 1) =
        lineSize * (Addr / lineSize + 1 + j) := by
      rw [lineOff, hfirst, Nat.mul_add, Nat.mul_add, Nat.mul_one, Nat.mul_comm lineSize j]
      omega
    rw [hstart, Nat.mul_mod_right]
    simp only [lineLen, lineChunk]
    split <;> omega

end

/-- `WriteCacheLine` writes its range in consecutive parts, each with its bytes of
    the buffer, and a range longer than a line in parts that stay in one line. -/
theorem WriteCacheLine_calls (ctrlLineSize : ℕ) (m : RevMem) (Addr Len : ℕ)
    (Data : ℕ → ℕ → Load (List UInt8)) :
    m.WriteCacheLine ctrlLineSize Addr Len Data =
        (lineCalls (m.cacheLine ctrlLineSize) Addr Len).foldlM (LineCall.write Data) m ∧
      lineBase (m.cacheLine ctrlLineSize) Addr = Addr - Addr % m.cacheLine ctrlLineSize ∧
      Tiles Addr ((lineCalls (m.cacheLine ctrlLineSize) Addr Len).map fun c =>
        (Addr + c.off, c.Len)) (Addr + Len) ∧
      ∀ c ∈ lineCalls (m.cacheLine ctrlLineSize) Addr Len,
        c.Addr % W64 = (Addr + c.off) % W64 ∧
          (Addr + Len ≤ W64 → c.Addr = Addr + c.off) ∧ 0 < c.Len ∧
          (m.cacheLine ctrlLineSize < Len →
            InLine (m.cacheLine ctrlLineSize) (Addr + c.off, c.Len)) := by
  have hsize := cacheLine_pos m ctrlLineSize
  refine ⟨?_, lineBase_eq _ _, lineCalls_tiles hsize, ?_⟩
  · rw [WriteCacheLine_eq, loop_eq_foldlM, lineCalls, List.foldlM_map, ← List.range_eq_range']
    rfl
  · generalize m.cacheLine ctrlLineSize = lineSize at hsize
    intro c hc
    obtain ⟨j, hj, rfl⟩ := List.mem_map.mp hc
    have hcount := List.mem_range.mp hj
    have hLen : Len ≠ 0 := by
      rintro rfl
      simp [lineCount] at hcount
    have hoff := (lineOff_lt_iff hsize hLen j).mpr hcount
    refine ⟨?_, fun hwrap => ?_, (lineLen_spec hsize hoff).1,
      fun hlong => lineCalls_inLine hsize hlong hoff⟩
    · cases j with
      | zero => rfl
      | succ j => exact Nat.mod_mod _ _
    · cases j with
      | zero => rfl
      | succ j => exact Nat.mod_eq_of_lt (by omega)

end RevMem

end RevCPU
