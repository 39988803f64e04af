import RevCPU.Loader.Loaded

namespace RevCPU

open Lib

/-- The `n` addresses from `b` on. -/
def addrBlock (b n a : ℕ) : Prop := ∃ k < n, a = (b + k) % W64

namespace RevLoader

open Elf

/-- Where `LoadProgramArgs` puts `argc`, the base pointer and the pointers to
    the arguments. -/
def argBlock (L : RevLoader) : ℕ → Prop :=
  addrBlock ((L.mem.stacktop + 48) % W64) (4 + 8 + 8 * L.argv.length)

/-- Where it puts the argument strings. -/
def argStrings (L : RevLoader) : ℕ → Prop :=
  addrBlock ((L.mem.memSize + W64 - stringBytes L.argv % W64) % W64) (stringBytes L.argv)

/-- Where the program headers are stored: the loader moves the top of the stack
    to their first byte. -/
def headerBlock (L : RevLoader) : ℕ → Prop := addrBlock L.mem.stacktop L.elfinfo.phdr_size

/-- The arguments are outside of the stack of the main thread, whose memory is
    the first thread segment, outside of its TLS and of the program headers. -/
structure ArgsApart (L : RevLoader) : Prop where
  stack : ∀ seg, L.mem.ThreadMemSegs.head? = some seg → ∀ a, argBlock L a ∨ argStrings L a →
    ¬(seg.getBaseAddr ≤ a ∧ a < L.mem.threadSp seg)
  tls : ∀ seg, L.mem.ThreadMemSegs.head? = some seg → ∀ a, argBlock L a ∨ argStrings L a →
    ¬(L.mem.threadSp seg ≤ a ∧ a < seg.getTopAddr)
  headers : ∀ a, argBlock L a ∨ argStrings L a → ¬headerBlock L a

/-- `elfinfo` after a successful `LoadElf64`. -/
theorem LoadElf64_info {f : List UInt8} {L L' : RevLoader} (h : LoadElf64 f L = .ok L') {eh : Ehdr}
    (heh : ehdr elf64 f = .ok eh) : L'.elfinfo.phdr_size = eh.e_phnum * 56 := by
  obtain ⟨eh', shstrtab, L₁, heh', -, -, himage⟩ := LoadElf64_ok h
  rw [heh] at heh'
  simp only [Except.ok.injEq] at heh'
  subst heh'
  obtain ⟨D, -, -, hinfo, -⟩ := loadImage_layout himage
  rw [hinfo]
  rfl

/-- A file with a program header: `argc` is stored over the header. -/
theorem args_in_headers {f exe args : List UInt8} {lineSize : ℕ} {MemSize H tlbSize : UInt64}
    {ctrl : Option RevBasicMemCtrl} {L : RevLoader}
    (hload : LoadElf f (new exe args lineSize MemSize H tlbSize ctrl) = .ok L)
    (h64 : IsRVElf64 f = true) {eh : Ehdr} (heh : ehdr elf64 f = .ok eh) (hph : 0 < eh.e_phnum) :
    ¬ArgsApart L := by
  obtain ⟨L₁, L₂, hclass, hargs, rfl⟩ := LoadElf_ok hload
  have hload64 : LoadElf64 f (new exe args lineSize MemSize H tlbSize ctrl) = .ok L₁ := by
    rcases hclass with ⟨h32, -⟩ | ⟨-, hload64⟩
    · simp only [IsRVElf32, IsRVElf64, Bool.and_eq_true, beq_iff_eq] at h32 h64
      rw [h32.2] at h64
      simp at h64
    · exact hload64
  have hlt : L₁.mem.memSize < W64 := by
    rw [(LoadElf64_firstThread hload64).memSize]
    exact MemSize.toNat_lt
  have hinfo : L₂.elfinfo.phdr_size = eh.e_phnum * 56 := by
    rw [(LoadProgramArgs_layout hlt hargs).2.1]
    exact LoadElf64_info hload64 heh
  intro hapart
  refine hapart.headers ((L₂.mem.stacktop + 48) % W64) (.inl ⟨0, by omega, ?_⟩) ?_
  · simp [RevMem.FenceMem]
  · refine ⟨48, ?_, rfl⟩
    show 48 < L₂.elfinfo.phdr_size
    omega

/-- The load of a program of one segment with an argument. -/
def loadArg : Load RevLoader :=
  LoadElf oneSegmentFile (new [97] [98] 0 (4 * 1024 * 1024) (1024 * 1024) 512 none)

theorem loadArg_overlaps :
    ∃ L, loadArg = .ok L ∧ L.argv = [[97], [98]] ∧ L.elfinfo.phnum = 1 ∧ ¬ArgsApart L := by
  have hsome : (loadArg.toOption.map fun L => (L.argv, L.elfinfo.phnum)) =
      some ([[97], [98]], 1) := by decide +kernel
  obtain ⟨L, hload, hfacts⟩ := Option.map_eq_some_iff.mp hsome
  rw [toOption_eq_some] at hload
  simp only [Prod.mk.injEq] at hfacts
  have heh : ehdr elf64 oneSegmentFile = .ok ⟨0x10000, 64, 120, 1, 2, 1⟩ := by decide +kernel
  exact ⟨L, hload, hfacts.1, hfacts.2,
    args_in_headers hload (by decide +kernel) heh (by decide)⟩

/-- The same load, with the address at which `argc` is stored in the header. -/
theorem argc_over_header :
    ∃ L, loadArg = .ok L ∧ argBlock L 4193272 ∧ headerBlock L 4193272 ∧ ¬ArgsApart L := by
  have hsome : (loadArg.toOption.map fun L => (L.mem.stacktop, L.elfinfo.phdr_size)) =
      some (4193224, 56) := by decide +kernel
  obtain ⟨L, hload, hfacts⟩ := Option.map_eq_some_iff.mp hsome
  rw [toOption_eq_some] at hload
  simp only [Prod.mk.injEq] at hfacts
  have hargs : argBlock L 4193272 := ⟨0, by omega, by rw [hfacts.1]; decide⟩
  have hheader : headerBlock L 4193272 := by
    refine ⟨48, ?_, ?_⟩
    · rw [hfacts.2]
      decide
    · rw [hfacts.1]
      decide
  exact ⟨L, hload, hargs, hheader, fun hapart => hapart.headers _ (.inl hargs) hheader⟩

end RevLoader

end RevCPU
