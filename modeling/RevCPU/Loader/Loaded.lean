import RevCPU.Loader.Frame

namespace RevCPU

open Lib

namespace RevLoader

open Elf

theorem fatalIf_ok {c : Prop} [Decidable c] {u : Unit} (h : fatalIf c = .ok u) : ¬c := by
  unfold fatalIf at h
  split at h
  · simp at h
  · assumption

/-- What the loops over the program headers leave as it is, and how the size of
    the thread memory follows from the TLS size. -/
structure Segmented (m m' : RevMem) : Prop where
  frame : { m'.layout with
    MemSegs := m.MemSegs, TLSBaseAddr := m.TLSBaseAddr, TLSSize := m.TLSSize,
    ThreadMemSize := m.ThreadMemSize } = m.layout
  size : m'.TLSSize = m.TLSSize ∧ m'.ThreadMemSize = m.ThreadMemSize ∨
    m'.TLSSize < W64 ∧ m'.ThreadMemSize = (RevMem.STACK_SIZE + m'.TLSSize) % W64

theorem Segmented.refl (m : RevMem) : Segmented m m := ⟨rfl, .inl ⟨rfl, rfl⟩⟩

theorem Segmented.setTLSInfo {m m' : RevMem} (h : Segmented m m') (a n : ℕ) :
    Segmented m (m'.SetTLSInfo a n) := by
  refine ⟨h.frame, .inr ⟨Nat.mod_lt _ (by decide), ?_⟩⟩
  rfl

/-- `AddRoundedMemSeg` changes the segments only. -/
theorem AddRoundedMemSeg_segs {m m' : RevMem} {a n r b : ℕ}
    (h : m.AddRoundedMemSeg a n r = some (b, m')) : ∃ segs, m' = { m with MemSegs := segs } := by
  unfold RevMem.AddRoundedMemSeg at h
  split at h
  · simp at h
  · simp only at h
    split at h
    · simp only [Option.some.injEq, Prod.mk.injEq] at h
      exact ⟨_, h.2.symm⟩
    · simp only [Option.some.injEq, Prod.mk.injEq] at h
      exact ⟨_, h.2.symm⟩

theorem Segmented.addRounded {m m' m'' : RevMem} (h : Segmented m m') {a n r b : ℕ}
    (hadd : m'.AddRoundedMemSeg a n r = some (b, m'')) : Segmented m m'' := by
  obtain ⟨segs, rfl⟩ := AddRoundedMemSeg_segs hadd
  exact ⟨h.frame, h.size⟩

/-- The steps of a pass over a program header. -/
theorem addSegment_ok {t : Tables} {tls : Bool} {i : ℕ} {L L' : RevLoader}
    (h : addSegment t tls i L = .ok L') :
    ∃ L₁, (L₁ = L ∨ tls = true ∧ ∃ a n, t.p_paddr i = .ok a ∧ t.p_memsz i = .ok n ∧
        L₁ = { L with TLSBaseAddr := a, TLSSize := n, mem := L.mem.SetTLSInfo a n }) ∧
      ∃ n, t.p_memsz i = .ok n ∧ (n = 0 ∧ L' = L₁ ∨ n ≠ 0 ∧ ∃ a b mem, t.p_paddr i = .ok a ∧
        L₁.mem.AddRoundedMemSeg a n PAGE_SIZE = some (b, mem) ∧ L' = { L₁ with mem }) := by
  unfold addSegment at h
  simp only [bind_eq_ok] at h
  obtain ⟨_, -, _, -, _, -, L₁, htls, n, hn, h⟩ := h
  refine ⟨L₁, ?_, n, hn, ?_⟩
  · split at htls
    · rename_i htrue
      unfold findTLS at htls
      rw [bind_eq_ok] at htls
      obtain ⟨_, -, htls⟩ := htls
      split at htls
      · simp only [bind_eq_ok, Except.ok.injEq] at htls
        obtain ⟨a, ha, n, hn, rfl⟩ := htls
        exact .inr ⟨htrue, a, n, ha, hn, rfl⟩
      · simp only [Except.ok.injEq] at htls
        exact .inl htls.symm
    · simp only [Except.ok.injEq] at htls
      exact .inl htls.symm
  · split at h
    · rename_i hne
      rw [bind_eq_ok] at h
      obtain ⟨a, ha, h⟩ := h
      split at h
      · simp at h
      · rename_i b mem hadd
        simp only [Except.ok.injEq] at h
        exact .inr ⟨hne, a, b, mem, ha, hadd, h.symm⟩
    · rename_i heq
      simp only [Except.ok.injEq] at h
      exact .inl ⟨by simpa using heq, h.symm⟩

/-- What passes over the program headers do to the loader and to the layout. -/
structure Added (tls : Bool) (L L' : RevLoader) : Prop where
  loader : ∃ a n mem, L' = { L with TLSBaseAddr := a, TLSSize := n, mem }
  mem : Segmented L.mem L'.mem
  sizes : tls = false → L'.mem.TLSSize = L.mem.TLSSize ∧ L'.mem.ThreadMemSize = L.mem.ThreadMemSize

theorem Added.refl (tls : Bool) (L : RevLoader) : Added tls L L :=
  ⟨⟨_, _, _, rfl⟩, Segmented.refl _, fun _ => ⟨rfl, rfl⟩⟩

theorem Added.segment {t : Tables} {tls : Bool} {i : ℕ} {L₀ L L' : RevLoader}
    (hL : Added tls L₀ L) (h : addSegment t tls i L = .ok L') : Added tls L₀ L' := by
  obtain ⟨⟨a₀, n₀, mem₀, rfl⟩, hmem, hsizes⟩ := hL
  obtain ⟨L₁, htls, n, -, hseg⟩ := addSegment_ok h
  have hfirst : Added tls L₀ L₁ := by
    rcases htls with rfl | ⟨rfl, a, n, -, -, rfl⟩
    · exact ⟨⟨a₀, n₀, mem₀, rfl⟩, hmem, hsizes⟩
    · exact ⟨⟨a, n, _, rfl⟩, hmem.setTLSInfo a n, by simp⟩
  rcases hseg with ⟨-, rfl⟩ | ⟨-, a, b, mem, -, hadd, rfl⟩
  · exact hfirst
  · obtain ⟨⟨a₁, n₁, mem₁, rfl⟩, hmem₁, hsizes₁⟩ := hfirst
    refine ⟨⟨a₁, n₁, mem, rfl⟩, hmem₁.addRounded hadd, ?_⟩
    obtain ⟨segs, rfl⟩ := AddRoundedMemSeg_segs hadd
    exact hsizes₁

/-- The loop over the program headers. -/
theorem addSegments_added {t : Tables} {tls : Bool} {i n : ℕ} {L₀ L L' : RevLoader}
    (hL : Added tls L₀ L) (h : loop (addSegment t tls) i n L = .ok L') : Added tls L₀ L' :=
  loop_invariant (fun _ L' => Added tls L₀ L') (fun _ _ _ hI hpass => hI.segment hpass) hL h

/-- The steps of a pass that loads a program header: nothing, or the bytes of
    the file and the zeros after them. -/
theorem loadSegment_ok {t : Tables} {i : ℕ} {L L' : RevLoader} (h : loadSegment t i L = .ok L') :
    ∃ ty, t.p_type i = .ok ty ∧ (ty ≠ PT_LOAD ∧ L' = L ∨ ty = PT_LOAD ∧
      ∃ n, t.p_memsz i = .ok n ∧ (n = 0 ∧ L' = L ∨ n ≠ 0 ∧ ∃ k a mem₁ mem₂,
        t.p_filesz i = .ok k ∧ t.p_paddr i = .ok a ∧
        (k = 0 ∧ mem₁ = L.mem ∨ k ≠ 0 ∧ ∃ o, t.p_offset i = .ok o ∧
          ¬t.sz < t.c.wordAdd o k ∧
          L.mem.WriteCacheLine L.lineSize a k (fileData t o) = .ok mem₁) ∧
        k ≤ n ∧
        mem₁.WriteCacheLine L.lineSize (t.c.wordAdd a k) (n - k)
          (bufData (List.replicate (n - k) 0)) = .ok mem₂ ∧
        L' = { L with mem := mem₂ })) := by
  unfold loadSegment at h
  rw [bind_eq_ok] at h
  obtain ⟨ty, hty, h⟩ := h
  refine ⟨ty, hty, ?_⟩
  split at h
  · rename_i hload
    rw [bind_eq_ok] at h
    obtain ⟨n, hn, h⟩ := h
    refine .inr ⟨hload, n, hn, ?_⟩
    split at h
    · rename_i hne
      simp only [bind_eq_ok] at h
      obtain ⟨k, hk, a, ha, mem₁, hbytes, z, hz, mem₂, hzeros, h⟩ := h
      unfold sizeSub at hz
      split at hz
      · rename_i hle
        simp only [Except.ok.injEq] at hz h
        subst hz
        refine .inr ⟨hne, k, a, mem₁, mem₂, hk, ha, ?_, hle, hzeros, h.symm⟩
        unfold loadBytes at hbytes
        split at hbytes
        · rename_i hk0
          simp only [bind_eq_ok] at hbytes
          obtain ⟨o, ho, _, hfatal, hwrite⟩ := hbytes
          exact .inr ⟨hk0, o, ho, fatalIf_ok hfatal, hwrite⟩
        · rename_i hk0
          simp only [Except.ok.injEq] at hbytes
          exact .inl ⟨by simpa using hk0, hbytes.symm⟩
      · simp at hz
    · rename_i heq
      simp only [Except.ok.injEq] at h
      exact .inl ⟨by simpa using heq, h.symm⟩
  · rename_i hload
    simp only [Except.ok.injEq] at h
    exact .inl ⟨hload, h.symm⟩

/-- Writing to the memory changes nothing else of the loader and not the layout. -/
structure Wrote (L L' : RevLoader) : Prop where
  loader : ∃ mem, L' = { L with mem }
  layout : L'.mem.layout = L.mem.layout

theorem Wrote.refl (L : RevLoader) : Wrote L L := ⟨⟨_, rfl⟩, rfl⟩

theorem Wrote.trans {L₁ L₂ L₃ : RevLoader} (h₁ : Wrote L₁ L₂) (h₂ : Wrote L₂ L₃) : Wrote L₁ L₃ := by
  obtain ⟨⟨m₂, rfl⟩, hlayout₁⟩ := h₁
  obtain ⟨⟨m₃, rfl⟩, hlayout₂⟩ := h₂
  exact ⟨⟨m₃, rfl⟩, hlayout₂.trans hlayout₁⟩

theorem loadSegment_wrote {t : Tables} {i : ℕ} {L L' : RevLoader} (h : loadSegment t i L = .ok L') :
    Wrote L L' := by
  obtain ⟨_, -, ⟨-, rfl⟩ | ⟨-, _, -, ⟨-, rfl⟩ | ⟨-, k, a, m₁, m₂, -, -, hbytes, -, hzeros, rfl⟩⟩⟩ :=
    loadSegment_ok h
  · exact Wrote.refl _
  · exact Wrote.refl _
  · refine ⟨⟨m₂, rfl⟩, ?_⟩
    rw [RevMem.WriteCacheLine_layout hzeros]
    rcases hbytes with ⟨-, rfl⟩ | ⟨-, o, -, -, hwrite⟩
    · rfl
    · exact RevMem.WriteCacheLine_layout hwrite

theorem loadSegments_wrote {t : Tables} {i n : ℕ} {L L' : RevLoader}
    (h : loop (loadSegment t) i n L = .ok L') : Wrote L L' :=
  loop_invariant (fun _ L' => Wrote L L') (fun _ _ _ hI hpass => hI.trans (loadSegment_wrote hpass))
    (Wrote.refl L) h

theorem writeBuf_wrote {L L' : RevLoader} {a : ℕ} {buf : List UInt8}
    (h : L.writeBuf a buf = .ok L') : Wrote L L' := by
  simp only [writeBuf, bind_eq_ok, Except.ok.injEq] at h
  obtain ⟨mem, hwrite, rfl⟩ := h
  exact ⟨⟨mem, rfl⟩, RevMem.WriteCacheLine_layout hwrite⟩

/-- The `elfinfo` of a file. -/
def infoOf (t : Tables) (eh : Ehdr) : ElfInfo :=
  { phnum := eh.e_phnum, phent := t.c.phdr, phdr := eh.e_phoff, phdr_size := eh.e_phnum * t.c.phdr }

/-- The steps of the second half of a load that succeeds. -/
theorem loadImage_ok {t : Tables} {eh : Ehdr} {shstrtab : ℕ} {sp : RevMem → ℕ → ℕ}
    {L L' : RevLoader} (h : loadImage t eh shstrtab sp L = .ok L') :
    ∃ E D mem₁ L₂ s mem₃,
      loop (findEnd t shstrtab) 0 eh.e_shnum {} = .ok E ∧ staticDataEnd E = .ok D ∧
      L.mem.WriteCacheLine L.lineSize (sp L.mem (eh.e_phnum * t.c.phdr)) (eh.e_phnum * t.c.phdr)
        (fileData t t.ph) = .ok mem₁ ∧
      loop (loadSegment t) 0 eh.e_phnum { L with
        elfinfo := infoOf t eh
        mem := { mem₁ with stacktop := sp L.mem (eh.e_phnum * t.c.phdr) } } = .ok L₂ ∧
      L₂.mem.InitHeap D = some mem₃ ∧ L' = { L₂ with symtable := s, mem := mem₃ } := by
  unfold loadImage at h
  simp only [bind_eq_ok] at h
  obtain ⟨E, hE, D, hD, _, -, mem₁, hheaders, L₂, hsegs, _, -, _, -, _, -, _, -, _, -, T, -, s, -,
    h⟩ := h
  split at h
  · simp at h
  · rename_i mem₃ hheap
    simp only [Except.ok.injEq] at h
    exact ⟨E, D, mem₁, L₂, s, mem₃, hE, hD, hheaders, hsegs, hheap, h.symm⟩

/-- The layout after the second half of a load. -/
theorem loadImage_layout {t : Tables} {eh : Ehdr} {shstrtab : ℕ} {sp : RevMem → ℕ → ℕ}
    {L L' : RevLoader} (h : loadImage t eh shstrtab sp L = .ok L') :
    ∃ D, D ≠ 0 ∧ L'.mem.layout = { L.mem.layout with
        stacktop := sp L.mem (eh.e_phnum * t.c.phdr)
        FreeMemSegs := L.mem.FreeMemSegs ++
          [MemSegment.new ((D + 1) % W64) L.mem.maxHeapSize false]
        heapend := (D + 1) % W64
        heapstart := (D + 1) % W64 } ∧
      L'.elfinfo = infoOf t eh ∧ L'.exe = L.exe ∧ L'.args = L.args ∧ L'.argv = L.argv := by
  obtain ⟨E, D, mem₁, L₂, s, mem₃, -, -, hheaders, hsegs, hheap, rfl⟩ := loadImage_ok h
  obtain ⟨⟨mem₂, rfl⟩, hlayout⟩ := loadSegments_wrote hsegs
  have hfirst := RevMem.WriteCacheLine_layout hheaders
  unfold RevMem.InitHeap at hheap
  split at hheap
  · simp at hheap
  · rename_i hD
    simp only [Option.some.injEq] at hheap
    subst hheap
    refine ⟨D, hD, ?_, rfl, rfl, rfl, rfl⟩
    have hmem₂ : mem₂.layout =
        { L.mem.layout with stacktop := sp L.mem (eh.e_phnum * t.c.phdr) } := by
      rw [← hfirst]
      exact hlayout
    have hall := congrArg (fun m : RevMem => { m with
      FreeMemSegs := m.FreeMemSegs ++ [MemSegment.new ((D + 1) % W64) m.maxHeapSize false]
      heapend := (D + 1) % W64
      heapstart := (D + 1) % W64 }) hmem₂
    exact hall

/-- The length of the argument strings with their zero bytes. -/
def stringBytes (args : List (List UInt8)) : ℕ := (args.map fun a => a.length + 1).sum

theorem writeStrings_ok {args : List (List UInt8)} {L L' : RevLoader} {top top' : ℕ}
    (htop : top < W64) (h : writeStrings args L top = .ok (L', top')) :
    Wrote L L' ∧ top' < W64 ∧ (top' + stringBytes args) % W64 = top := by
  induction args generalizing L top with
  | nil =>
    simp only [writeStrings, Except.ok.injEq, Prod.mk.injEq] at h
    obtain ⟨rfl, rfl⟩ := h
    exact ⟨Wrote.refl L, htop, by simpa [stringBytes] using Nat.mod_eq_of_lt htop⟩
  | cons arg rest ih =>
    simp only [writeStrings, bind_eq_ok] at h
    obtain ⟨L₁, hwrite, hrest⟩ := h
    obtain ⟨hwrote, hlt, hsum⟩ := ih (Nat.mod_lt _ (by decide)) hrest
    refine ⟨(writeBuf_wrote hwrite).trans hwrote, hlt, ?_⟩
    have hsplit : stringBytes (arg :: rest) = stringBytes rest + (arg ++ [0]).length := by
      simp only [stringBytes, List.map_cons, List.sum_cons, List.length_append, List.length_singleton]
      omega
    rw [hsplit, ← Nat.add_assoc, ← Nat.mod_add_mod, hsum]
    generalize (arg ++ [0]).length = len
    unfold W64 at *
    omega

theorem writePointers_ok {args : List (List UInt8)} {L L' : RevLoader} {top top' a : ℕ}
    (htop : top < W64) (h : writePointers args L top a = .ok (L', top')) :
    Wrote L L' ∧ top' = (top + stringBytes args) % W64 := by
  induction args generalizing L top a with
  | nil =>
    simp only [writePointers, Except.ok.injEq, Prod.mk.injEq] at h
    obtain ⟨rfl, rfl⟩ := h
    exact ⟨Wrote.refl L, by simpa [stringBytes] using (Nat.mod_eq_of_lt htop).symm⟩
  | cons arg rest ih =>
    simp only [writePointers, bind_eq_ok] at h
    obtain ⟨L₁, hwrite, hrest⟩ := h
    obtain ⟨hwrote, hsum⟩ := ih (Nat.mod_lt _ (by decide)) hrest
    refine ⟨(writeBuf_wrote hwrite).trans hwrote, ?_⟩
    rw [hsum, Nat.mod_add_mod]
    congr 1
    simp only [stringBytes, List.map_cons, List.sum_cons]
    omega

/-- What `LoadProgramArgs` does to the layout: the next thread memory is placed
    below the top of the memory. -/
theorem LoadProgramArgs_layout {L L' : RevLoader} (hsize : L.mem.memSize < W64)
    (h : L.LoadProgramArgs = .ok L') :
    L'.mem.layout = { L.mem.layout with
        NextThreadMemAddr := (L.mem.memSize + 4 * W64 - RevMem.STACK_SIZE - L.mem.TLSSize -
          PAGE_SIZE) % W64 } ∧
      L'.elfinfo = L.elfinfo ∧ L'.argv = splitStr L.args 32 (L.argv ++ [L.exe]) := by
  simp only [LoadProgramArgs, bind_eq_ok, Prod.exists, Except.ok.injEq] at h
  obtain ⟨L₁, hargc, L₂, top, hstrings, L₃, hbase, L₄, top', hpointers, rfl⟩ := h
  have hwrote₁ := writeBuf_wrote hargc
  obtain ⟨hwrote₂, hlt, hsum⟩ := writeStrings_ok hsize hstrings
  have hwrote₃ := writeBuf_wrote hbase
  obtain ⟨hwrote₄, htop⟩ := writePointers_ok hlt hpointers
  obtain ⟨⟨mem, rfl⟩, hlayout⟩ := ((hwrote₁.trans hwrote₂).trans hwrote₃).trans hwrote₄
  have hback : top' = L.mem.memSize := by
    rw [htop, ← hsum]
    congr 2
    unfold stringBytes
    rw [List.map_reverse, List.sum_reverse]
  have hmem : mem.layout = L.mem.layout := hlayout
  refine ⟨?_, rfl, rfl⟩
  rw [hback]
  have hall := congrArg (fun m : RevMem => { m with
    NextThreadMemAddr := (L.mem.memSize + 4 * W64 - RevMem.STACK_SIZE - m.TLSSize -
      PAGE_SIZE) % W64 }) hmem
  exact hall

/-- The steps of a successful `LoadElf64`. -/
theorem LoadElf64_ok {f : List UInt8} {L L' : RevLoader} (h : LoadElf64 f L = .ok L') :
    ∃ eh shstrtab L₁, ehdr elf64 f = .ok eh ∧
      Tables.sh_offset ⟨elf64, f, eh.e_phoff, eh.e_shoff⟩ eh.e_shstrndx = .ok shstrtab ∧
      loop (addSegment ⟨elf64, f, eh.e_phoff, eh.e_shoff⟩ true) 0 eh.e_phnum
        { L with Entry := eh.e_entry } = .ok L₁ ∧
      loadImage ⟨elf64, f, eh.e_phoff, eh.e_shoff⟩ eh shstrtab
        (fun mem phdr_size => (mem.stacktop + W64 - phdr_size) % W64)
        { L₁ with mem := L₁.mem.AddThreadMem.2 } = .ok L' := by
  simp only [LoadElf64, bind_eq_ok] at h
  obtain ⟨eh, heh, shstrtab, hstr, L₁, hsegs, himage⟩ := h
  exact ⟨eh, shstrtab, L₁, heh, hstr, hsegs, himage⟩

/-- The steps of a successful `LoadElf32`. -/
theorem LoadElf32_ok {f : List UInt8} {L L' : RevLoader} (h : LoadElf32 f L = .ok L') :
    ∃ eh shstrtab L₁ L₂, ehdr elf32 f = .ok eh ∧
      loop (addSegment ⟨elf32, f, eh.e_phoff, eh.e_shoff⟩ true) 0 eh.e_phnum
        { L with Entry := eh.e_entry } = .ok L₁ ∧
      loop (addSegment ⟨elf32, f, eh.e_phoff, eh.e_shoff⟩ false) 0 eh.e_phnum
        { L₁ with mem := L₁.mem.AddThreadMem.2 } = .ok L₂ ∧
      loadImage ⟨elf32, f, eh.e_phoff, eh.e_shoff⟩ eh shstrtab
        (fun mem phdr_size => (mem.stacktop + W64 - phdr_size) % 2 ^ 32) L₂ = .ok L' := by
  simp only [LoadElf32, bind_eq_ok] at h
  obtain ⟨eh, heh, shstrtab, -, L₁, hsegs, L₂, hagain, himage⟩ := h
  exact ⟨eh, shstrtab, L₁, L₂, heh, hsegs, hagain, himage⟩

/-- The steps of a successful `LoadElf`. -/
theorem LoadElf_ok {f : List UInt8} {L L' : RevLoader} (h : LoadElf f L = .ok L') :
    ∃ L₁ L₂, (IsRVElf32 f = true ∧ LoadElf32 f L = .ok L₁ ∨
        IsRVElf64 f = true ∧ LoadElf64 f L = .ok L₁) ∧
      L₁.LoadProgramArgs = .ok L₂ ∧ L' = { L₂ with mem := L₂.mem.FenceMem 0 } := by
  simp only [LoadElf, bind_eq_ok, Except.ok.injEq] at h
  obtain ⟨_, -, _, hclass, _, -, L₁, hload, L₂, hargs, rfl⟩ := h
  refine ⟨L₁, L₂, ?_, hargs, rfl⟩
  split at hload
  · exact .inl ⟨by assumption, hload⟩
  · rename_i hnot
    refine .inr ⟨?_, hload⟩
    have hone := fatalIf_ok hclass
    by_contra hnot64
    exact hone ⟨hnot, hnot64⟩

/-- The memory with the memory of its first thread, under the 1024 bytes of the
    arguments. -/
structure FirstThread (MemSize H : ℕ) (m : RevMem) : Prop where
  memSize : m.memSize = MemSize
  tlsSize : m.TLSSize < W64
  size : m.ThreadMemSize = RevMem.STACK_SIZE ∧ m.TLSSize = 4 ∨
    m.ThreadMemSize = (RevMem.STACK_SIZE + m.TLSSize) % W64
  threads : m.ThreadMemSegs = [MemSegment.new
    (((MemSize + W64 - 1024) % W64 + W64 - m.ThreadMemSize) % W64) m.ThreadMemSize false]
  heapSize : m.maxHeapSize = H

/-- The fields of `FirstThread` are all that it depends on. -/
theorem FirstThread.congr {MemSize H : ℕ} {m m' : RevMem} (h : FirstThread MemSize H m)
    (hmem : m'.memSize = m.memSize) (hheap : m'.maxHeapSize = m.maxHeapSize)
    (htls : m'.TLSSize = m.TLSSize) (hsize : m'.ThreadMemSize = m.ThreadMemSize)
    (hthreads : m'.ThreadMemSegs = m.ThreadMemSegs) : FirstThread MemSize H m' := by
  constructor
  · rw [hmem, h.memSize]
  · rw [htls]
    exact h.tlsSize
  · rw [hsize, htls]
    exact h.size
  · rw [hthreads, hsize, h.threads]
  · rw [hheap, h.heapSize]

/-- The memory after the first loop over the program headers and
    `AddThreadMem`. -/
theorem Segmented.firstThread {MemSize H tlbSize : UInt64} {ctrl : Option RevBasicMemCtrl}
    {m : RevMem} (h : Segmented (RevMem.new MemSize H tlbSize ctrl) m) :
    FirstThread MemSize.toNat (H.toNat % 2 ^ 32) m.AddThreadMem.2 := by
  have hmem : m.memSize = MemSize.toNat := by
    have h := congrArg RevMem.memSize h.frame
    exact h
  have hheap : m.maxHeapSize = H.toNat % 2 ^ 32 := by
    have h := congrArg RevMem.maxHeapSize h.frame
    exact h
  have hnext : m.NextThreadMemAddr = (MemSize.toNat + W64 - 1024) % W64 := by
    have h := congrArg RevMem.NextThreadMemAddr h.frame
    exact h
  have hthreads : m.ThreadMemSegs = [] := by
    have h := congrArg RevMem.ThreadMemSegs h.frame
    exact h
  constructor
  · exact hmem
  · rcases h.size with ⟨htls, -⟩ | ⟨hlt, -⟩
    · have hfour : m.TLSSize = 4 := htls
      show m.TLSSize < W64
      rw [hfour]
      decide
    · exact hlt
  · rcases h.size with ⟨htls, hsize⟩ | ⟨-, hsize⟩
    · exact .inl ⟨hsize, htls⟩
    · exact .inr hsize
  · simp only [RevMem.AddThreadMem, hthreads, hnext, List.nil_append]
  · exact hheap

theorem FirstThread.loadImage {MemSize H : ℕ} {t : Tables} {eh : Ehdr} {shstrtab : ℕ}
    {sp : RevMem → ℕ → ℕ} {L L' : RevLoader} (hL : FirstThread MemSize H L.mem)
    (h : loadImage t eh shstrtab sp L = .ok L') : FirstThread MemSize H L'.mem := by
  obtain ⟨D, -, hlayout, -⟩ := loadImage_layout h
  refine hL.congr ?_ ?_ ?_ ?_ ?_
  · have h := congrArg RevMem.memSize hlayout
    exact h
  · have h := congrArg RevMem.maxHeapSize hlayout
    exact h
  · have h := congrArg RevMem.TLSSize hlayout
    exact h
  · have h := congrArg RevMem.ThreadMemSize hlayout
    exact h
  · have h := congrArg RevMem.ThreadMemSegs hlayout
    exact h

theorem LoadElf64_firstThread {f exe args : List UInt8} {lineSize : ℕ}
    {MemSize H tlbSize : UInt64} {ctrl : Option RevBasicMemCtrl} {L : RevLoader}
    (h : LoadElf64 f (new exe args lineSize MemSize H tlbSize ctrl) = .ok L) :
    FirstThread MemSize.toNat (H.toNat % 2 ^ 32) L.mem := by
  obtain ⟨eh, shstrtab, L₁, -, -, hsegs, himage⟩ := LoadElf64_ok h
  have hadded := addSegments_added (Added.refl true _) hsegs
  exact FirstThread.loadImage hadded.mem.firstThread himage

theorem LoadElf32_firstThread {f exe args : List UInt8} {lineSize : ℕ}
    {MemSize H tlbSize : UInt64} {ctrl : Option RevBasicMemCtrl} {L : RevLoader}
    (h : LoadElf32 f (new exe args lineSize MemSize H tlbSize ctrl) = .ok L) :
    FirstThread MemSize.toNat (H.toNat % 2 ^ 32) L.mem := by
  obtain ⟨eh, shstrtab, L₁, L₂, -, hsegs, hagain, himage⟩ := LoadElf32_ok h
  have hadded := addSegments_added (Added.refl true _) hsegs
  have hsecond := addSegments_added (Added.refl false _) hagain
  refine FirstThread.loadImage ?_ himage
  refine hadded.mem.firstThread.congr ?_ ?_ ?_ ?_ ?_
  · have h := congrArg RevMem.memSize hsecond.mem.frame
    exact h
  · have h := congrArg RevMem.maxHeapSize hsecond.mem.frame
    exact h
  · exact (hsecond.sizes rfl).1
  · exact (hsecond.sizes rfl).2
  · have h := congrArg RevMem.ThreadMemSegs hsecond.mem.frame
    exact h

/-- The memory that a successful load leaves for the threads: the memory of the
    first thread and the top of the memory of the next one. -/
theorem LoadElf_ready {f exe args : List UInt8} {lineSize : ℕ} {MemSize H tlbSize : UInt64}
    {ctrl : Option RevBasicMemCtrl} {L : RevLoader}
    (h : LoadElf f (new exe args lineSize MemSize H tlbSize ctrl) = .ok L) :
    FirstThread MemSize.toNat (H.toNat % 2 ^ 32) L.mem ∧
      L.mem.NextThreadMemAddr =
        (MemSize.toNat + 4 * W64 - RevMem.STACK_SIZE - L.mem.TLSSize - PAGE_SIZE) % W64 := by
  obtain ⟨L₁, L₂, hload, hargs, rfl⟩ := LoadElf_ok h
  have hfirst : FirstThread MemSize.toNat (H.toNat % 2 ^ 32) L₁.mem := by
    rcases hload with ⟨-, hload⟩ | ⟨-, hload⟩
    · exact LoadElf32_firstThread hload
    · exact LoadElf64_firstThread hload
  have hlt : L₁.mem.memSize < W64 := by
    rw [hfirst.memSize]
    exact MemSize.toNat_lt
  obtain ⟨hlayout, -⟩ := LoadProgramArgs_layout hlt hargs
  have htls : L₂.mem.TLSSize = L₁.mem.TLSSize := by
    have h := congrArg RevMem.TLSSize hlayout
    exact h
  constructor
  · refine hfirst.congr ?_ ?_ htls ?_ ?_
    · have h := congrArg RevMem.memSize hlayout
      exact h
    · have h := congrArg RevMem.maxHeapSize hlayout
      exact h
    · have h := congrArg RevMem.ThreadMemSize hlayout
      exact h
    · have h := congrArg RevMem.ThreadMemSegs hlayout
      exact h
  · have hnext := congrArg RevMem.NextThreadMemAddr hlayout
    have hsame : (L₂.mem.FenceMem 0).TLSSize = L₁.mem.TLSSize := htls
    rw [hsame, ← hfirst.memSize]
    exact hnext

end RevLoader

end RevCPU
