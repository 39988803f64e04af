import RevCPU.Loader.ArgLayout

namespace RevCPU

open Lib

namespace RevLoader

variable {L L' : RevLoader}

/-- What the array holds, whether or not the strings run into it. -/
theorem ArgsServed.argPtr_eq (h : L.ArgsServed) (hload : L.LoadProgramArgs = .ok L')
    (mem : ℕ → UInt8) {i : ℕ} (hi : i < L.argvOf.length) :
    L'.argPtr mem i = L.mem.memSize - stringBytes L.argvOf + stringBytes (L.argvOf.take i) := by
  obtain ⟨L'', hrun, hstack, -, -, hstored⟩ := h.stores
  rw [hload] at hrun
  obtain rfl := Except.ok.inj hrun
  have hlt := h.lt.1
  have hle := stringBytes_take_le L.argvOf i
  have hat : L.mem.stacktop + 60 + 8 * i = L.mem.stacktop + 52 + (8 + 8 * i) := by omega
  rw [argPtr, hstack, hstored, hat, getBytes_setBytes_part, ← List.drop_drop,
    List.drop_left' (leBytes_length 8 _), ptrBytes_part hi, leNat_leBytes]
  · refine Nat.mod_eq_of_lt ?_
    unfold W64 at hlt
    have hstrings := h.strings
    omega
  · rw [List.length_append, leBytes_length, ptrBytes_length]
    omega

/-- Without room for both the strings run into the array. -/
theorem ArgsServed.fits_of_laidOut (h : L.ArgsServed) (hload : L.LoadProgramArgs = .ok L')
    {mem : ℕ → UInt8} (hlaid : ArgvLaidOut L.argvOf L' mem) : L.ArgsFit := by
  obtain ⟨L'', hrun, hstack, -⟩ := h.stores
  rw [hload] at hrun
  obtain rfl := Except.ok.inj hrun
  have hn := L.argvOf_pos
  have hS := stringBytes_pos hn
  have hheader := h.header
  have hstrings := h.strings
  refine ⟨?_, ?_⟩
  · rw [← hlaid.argc]
    refine Nat.lt_of_lt_of_le (leNat_lt _) ?_
    rw [getBytes_length]
    decide
  · by_contra hover
    let v := max (L.mem.memSize - stringBytes L.argvOf) (L.mem.stacktop + 60)
    have hv : L.mem.memSize - stringBytes L.argvOf ≤ v ∧ L.mem.stacktop + 60 ≤ v ∧
        v < L.mem.memSize ∧ v < L.mem.stacktop + 60 + 8 * L.argvOf.length := by
      refine ⟨Nat.le_max_left _ _, Nat.le_max_right _ _, ?_, ?_⟩
      · exact Nat.max_lt.mpr ⟨by omega, by omega⟩
      · exact Nat.max_lt.mpr ⟨by omega, by omega⟩
    obtain ⟨i, hi, hlow, hhigh⟩ := exists_string
      (show v - (L.mem.memSize - stringBytes L.argvOf) < stringBytes L.argvOf by omega)
    have hapart := hlaid.array i hi
    rw [h.argPtr_eq hload mem hi, hstack] at hapart
    rcases hapart with hbelow | habove
    · omega
    · omega

/-- With room for both everything is where it belongs. -/
theorem ArgsServed.laidOut (h : L.ArgsServed) (hload : L.LoadProgramArgs = .ok L')
    (hfit : L.ArgsFit) (mem : ℕ → UInt8) : ArgvLaidOut L.argvOf L' mem := by
  have hptr := fun i hi => h.argPtr_eq hload mem (i := i) hi
  obtain ⟨L'', hrun, hstack, hsize, hvalid, hstored⟩ := h.stores
  rw [hload] at hrun
  obtain rfl := Except.ok.inj hrun
  obtain ⟨hcount, hroom⟩ := hfit
  have hstrings := h.strings
  have hend : ∀ i (hi : i < L.argvOf.length),
      stringBytes (L.argvOf.take i) + (L.argvOf[i].length + 1) ≤ stringBytes L.argvOf := by
    intro i hi
    rw [← stringBytes_take_succ hi]
    exact stringBytes_take_le L.argvOf (i + 1)
  have harray : (leBytes 8 (L.mem.stacktop + 60) ++
      ptrBytes L.argvOf (L.mem.memSize - stringBytes L.argvOf)).length =
        8 + 8 * L.argvOf.length := by
    rw [List.length_append, leBytes_length, ptrBytes_length]
  refine ⟨?_, ?_, ?_, ?_, ?_⟩
  · rw [hstack, hstored, getBytes_setBytes_of_disjoint _ (.inl (by omega)),
      getBytes_setBytes_of_disjoint _ (.inl (by omega))]
    have hread := getBytes_setBytes (L.mem.contents mem) (L.mem.stacktop + 48)
      (leBytes 4 L.argvOf.length)
    rw [leBytes_length] at hread
    rw [hread, leNat_leBytes]
    exact Nat.mod_eq_of_lt hcount
  · intro i hi
    have hle := hend i hi
    rw [hptr i hi, hstored, getBytes_setBytes_of_disjoint _ (.inr (by omega)),
      getBytes_setBytes_part, argBytes_part hi]
    rw [argBytes_length]
    exact hle
  · intro i j hij hj
    have hlt := stringBytes_take_lt hij hj
    rw [hptr i (Nat.lt_trans hij hj), hptr j hj]
    exact .inl (by omega)
  · intro i hi
    rw [hptr i hi, hstack]
    exact .inr (by omega)
  · intro v hv
    refine .inr ?_
    rw [hvalid]
    rw [hstack] at hv
    rcases hv with hv | ⟨i, hi, hlow, hhigh⟩
    · exact h.mem.valid v (.inl hv)
    · have hle := hend i hi
      rw [hptr i hi] at hlow hhigh
      exact h.mem.valid v (.inr ⟨by omega, by omega⟩)

/-- The loader of a memory of four pages with the argument `b`. -/
def argB : RevLoader := new [97] [98] 0 (1024 * 1024) (512 * 1024) 512 none

theorem argB_served : argB.ArgsServed := by
  have hregion : ∀ v, argB.argRegion v → 1048576 - 1024 ≤ v ∧ v < 1048576 := by
    intro v hv
    have hargs : argB.argvOf.length = 2 ∧ stringBytes argB.argvOf = 4 := by decide +kernel
    have hsizes : argB.mem.memSize = 1048576 ∧ argB.mem.stacktop = 1048576 - 1024 := by
      decide +kernel
    unfold argRegion at hv
    rw [hargs.1, hargs.2, hsizes.1, hsizes.2] at hv
    omega
  refine ⟨rfl, by decide +kernel, by decide +kernel,
    ⟨?_, ⟨{3}, by unfold RevMem.HasRoom; decide +kernel, ?_⟩, ?_, ?_⟩, fun h => absurd h (by decide)⟩
  · refine ⟨rfl, by decide +kernel, ?_, ?_, by simp [argB, new, RevMem.new], fun _ _ => rfl,
      by decide +kernel⟩
    · simp [argB, new, RevMem.new]
    · simp [argB, new, RevMem.new]
  · intro v hv
    have hin := hregion v hv
    rw [Finset.mem_singleton]
    simp only [RevMem.pageSize]
    omega
  · intro v hv
    have hin := hregion v hv
    have hsegs : argB.mem.MemSegs = [MemSegment.new (1048576 - 1024) 1024 false] := by
      decide +kernel
    have htop : (MemSegment.new (1048576 - 1024) 1024 false).contains v = true := by
      rw [MemSegment.contains, Bool.and_eq_true]
      exact ⟨decide_eq_true hin.1, decide_eq_true hin.2⟩
    simp only [RevMem.isValidVirtAddr, hsegs, List.any_cons, htop, Bool.true_or]
  · intro v hv
    have hin := hregion v hv
    simp only [RevMem.pageSize]
    omega

/-- The load of a program of one segment with an argument of 1100 characters. -/
def loadLongArg : Load RevLoader :=
  LoadElf Elf.oneSegmentFile
    (new [97] (List.replicate 1100 98) 0 (4 * 1024 * 1024) (1024 * 1024) 512 none)

end RevLoader

end RevCPU
