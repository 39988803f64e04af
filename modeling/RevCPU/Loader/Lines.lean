import RevCPU.Loader.LoadElf

namespace RevCPU

open Lib

namespace RevMem

/-- The length of the first write of `WriteCacheLine`. -/
def firstLine (lineSize Addr Len : ℕ) : ℕ :=
  if Len ≤ lineSize then Len else lineSize - Addr % lineSize

/-- Where the write `j` of `WriteCacheLine` starts in the buffer. -/
def lineOff (lineSize Addr Len : ℕ) : ℕ → ℕ
  | 0 => 0
  | j + 1 => firstLine lineSize Addr Len + j * lineSize

/-- The address of the write `j`. -/
def lineAddr (lineSize Addr Len : ℕ) : ℕ → ℕ
  | 0 => Addr
  | j + 1 => (Addr + lineOff lineSize Addr Len (j + 1)) % W64

/-- The length of the write `j`. -/
def lineLen (lineSize Addr Len : ℕ) : ℕ → ℕ
  | 0 => firstLine lineSize Addr Len
  | j + 1 => lineChunk lineSize (Len - lineOff lineSize Addr Len (j + 1))

/-- The number of writes. -/
def lineCount (lineSize Addr Len : ℕ) : ℕ :=
  if Len = 0 then 0 else (Len - firstLine lineSize Addr Len + lineSize - 1) / lineSize + 1

/-- The write `j` of `WriteCacheLine`. -/
def writeLine (lineSize Addr Len : ℕ) (Data : ℕ → ℕ → Load (List UInt8)) (j : ℕ) (m : RevMem) :
    Load RevMem :=
  m.writeFrom (lineAddr lineSize Addr Len j) (lineLen lineSize Addr Len j) Data
    (lineOff lineSize Addr Len j)

section

variable {lineSize Addr Len : ℕ}

theorem lineOff_succ (j : ℕ) : lineOff lineSize Addr Len (j + 2) =
    lineOff lineSize Addr Len (j + 1) + lineSize := by
  simp only [lineOff, Nat.succ_mul]
  omega

theorem lineAddr_succ (j : ℕ) : lineAddr lineSize Addr Len (j + 2) =
    (lineAddr lineSize Addr Len (j + 1) + lineSize) % W64 := by
  rw [lineAddr, lineAddr, lineOff_succ, Nat.mod_add_mod, Nat.add_assoc]

theorem firstLine_pos (hsize : 0 < lineSize) (hLen : Len ≠ 0) : 0 < firstLine lineSize Addr Len := by
  have hmod := Nat.mod_lt Addr hsize
  unfold firstLine
  split <;> omega

theorem firstLine_le (hsize : 0 < lineSize) : firstLine lineSize Addr Len ≤ Len := by
  unfold firstLine
  split <;> omega

/-- The lines after the first one, as a loop over their numbers. -/
theorem writeLines_eq (hsize : 0 < lineSize) {Data : ℕ → ℕ → Load (List UInt8)} {fuel j : ℕ}
    {m : RevMem} (hlt : lineOff lineSize Addr Len (j + 1) < Len)
    (hfuel : Len - lineOff lineSize Addr Len (j + 1) ≤ fuel) :
    writeLines lineSize Len Data fuel m (lineAddr lineSize Addr Len (j + 1))
        (lineOff lineSize Addr Len (j + 1)) =
      loop (writeLine lineSize Addr Len Data) (j + 1)
        ((Len - lineOff lineSize Addr Len (j + 1) + lineSize - 1) / lineSize) m := by
  induction fuel generalizing j m with
  | zero => omega
  | succ fuel ih =>
    have hchunk : lineLen lineSize Addr Len (j + 1) =
        lineChunk lineSize (Len - lineOff lineSize Addr Len (j + 1)) := rfl
    simp only [writeLines]
    rw [← hchunk]
    by_cases hmore : lineSize < Len - lineOff lineSize Addr Len (j + 1)
    · have hfull : lineLen lineSize Addr Len (j + 1) = lineSize := by
        rw [hchunk, lineChunk, if_pos hmore]
      have hoff : lineOff lineSize Addr Len (j + 1 + 1) =
          lineOff lineSize Addr Len (j + 1) + lineSize := lineOff_succ j
      have hcount : (Len - lineOff lineSize Addr Len (j + 1) + lineSize - 1) / lineSize =
          (Len - lineOff lineSize Addr Len (j + 1 + 1) + lineSize - 1) / lineSize + 1 := by
        rw [hoff, ← Nat.add_div_right _ hsize]
        congr 1
        omega
      rw [hcount, loop_succ, writeLine, hfull]
      congr 1
      funext m₁
      rw [if_pos (by omega), ← lineAddr_succ, ← hoff]
      exact ih (by omega) (by omega)
    · have hlast : lineLen lineSize Addr Len (j + 1) =
          Len - lineOff lineSize Addr Len (j + 1) := by
        rw [hchunk, lineChunk, if_neg (by omega)]
      have hcount : (Len - lineOff lineSize Addr Len (j + 1) + lineSize - 1) / lineSize = 0 + 1 := by
        rw [Nat.div_eq_of_lt_le] <;> omega
      rw [hcount, loop_succ, writeLine, hlast]
      congr 1
      funext m₁
      rw [if_neg (by omega)]
      rfl

end

theorem cacheLine_pos (m : RevMem) (ctrlLineSize : ℕ) : 0 < m.cacheLine ctrlLineSize := by
  unfold cacheLine
  simp only
  split <;> omega

/-- `WriteCacheLine` is a loop over the numbers of its writes. -/
theorem WriteCacheLine_eq (ctrlLineSize : ℕ) (m : RevMem) (Addr Len : ℕ)
    (Data : ℕ → ℕ → Load (List UInt8)) :
    m.WriteCacheLine ctrlLineSize Addr Len Data =
      loop (writeLine (m.cacheLine ctrlLineSize) Addr Len Data) 0
        (lineCount (m.cacheLine ctrlLineSize) Addr Len) m := by
  have hsize := cacheLine_pos m ctrlLineSize
  unfold WriteCacheLine
  generalize m.cacheLine ctrlLineSize = lineSize at hsize
  by_cases hzero : Len = 0
  · rw [if_pos hzero, lineCount, if_pos hzero]
    rfl
  · rw [if_neg hzero, lineCount, if_neg hzero, loop_succ]
    simp only
    by_cases hone : Len ≤ lineSize
    · have hfirst : firstLine lineSize Addr Len = Len := if_pos hone
      rw [if_pos hone, hfirst, show (Len - Len + lineSize - 1) / lineSize = 0 from
        Nat.div_eq_of_lt (by omega), writeLine]
      simp only [lineAddr, lineLen, lineOff, hfirst, loop]
      exact (bind_pure _).symm
    · have hmod := Nat.mod_lt Addr hsize
      have hle := Nat.mod_le Addr lineSize
      have hfirst : Addr - Addr % lineSize + lineSize - Addr = firstLine lineSize Addr Len := by
        rw [firstLine, if_neg hone]
        omega
      have hlt : firstLine lineSize Addr Len < Len := by
        rw [← hfirst]
        omega
      rw [if_neg hone, hfirst, writeLine]
      congr 1
      funext m₁
      have hoff : lineOff lineSize Addr Len (0 + 1) = firstLine lineSize Addr Len := by
        simp [lineOff]
      have hrest : writeLines lineSize Len Data Len m₁ (lineAddr lineSize Addr Len (0 + 1))
          (lineOff lineSize Addr Len (0 + 1)) = _ :=
        writeLines_eq hsize (by rw [hoff]; exact hlt) (by omega)
      rw [lineAddr, hoff] at hrest
      exact hrest

end RevMem

end RevCPU
