import RevCPU.Loader.Safe

namespace RevCPU

open Lib LoadFault

namespace RevLoader

open Elf

variable {t : Tables}

/-- The loader when the loop that loads the segments starts: the static sections
    are found, and the program headers pass their check and are stored. -/
def Stored (t : Tables) (eh : Ehdr) (shstrtab : ℕ) (sp : RevMem → ℕ → ℕ) (L L₁ : RevLoader) :
    Prop :=
  ∃ E D mem, loop (findEnd t shstrtab) 0 eh.e_shnum {} = .ok E ∧ staticDataEnd E = .ok D ∧
    (eh.e_phoff + eh.e_phnum * t.c.phdr) % W64 ≤ t.sz ∧
    L.mem.WriteCacheLine L.lineSize (sp L.mem (eh.e_phnum * t.c.phdr)) (eh.e_phnum * t.c.phdr)
      (fileData t t.ph) = .ok mem ∧
    L₁ = { L with
      elfinfo := infoOf t eh
      mem := { mem with stacktop := sp L.mem (eh.e_phnum * t.c.phdr) } }

/-- What the second half of the load reads: the names of the sections before any
    check, the program headers, the segments, and the sections. -/
structure ImageInside (t : Tables) (eh : Ehdr) (shstrtab : ℕ) (sp : RevMem → ℕ → ℕ)
    (L : RevLoader) : Prop where
  ends : ∀ i < eh.e_shnum, ∀ name ∈ Tables.staticNames, t.EndInside shstrtab i name
  headers : (∃ E D, loop (findEnd t shstrtab) 0 eh.e_shnum {} = .ok E ∧ staticDataEnd E = .ok D) →
    (eh.e_phoff + eh.e_phnum * t.c.phdr) % W64 ≤ t.sz →
    LinesInside t L.mem L.lineSize (sp L.mem (eh.e_phnum * t.c.phdr)) (eh.e_phnum * t.c.phdr) t.ph
  segments : ∀ L₁, Stored t eh shstrtab sp L L₁ → ∀ i < eh.e_phnum, ∀ L',
    loop (loadSegment t) 0 i L₁ = .ok L' →
    (t.phdr i).p_type = PT_LOAD → (t.phdr i).p_memsz ≠ 0 → SegmentInside t i L'
  sections : ∀ L₁ L₂, Stored t eh shstrtab sp L L₁ → loop (loadSegment t) 0 eh.e_phnum L₁ = .ok L₂ →
    SectionsPass t eh → SectionsInside t eh shstrtab L₂.symtable

theorem staticDataEnd_avoids (E : Ends) : Avoids Stray (staticDataEnd E) := by
  unfold staticDataEnd
  split
  · exact avoids_ok _
  · split
    · exact avoids_ok _
    · split <;> simp [Stray]

/-- The second half of the load, for program headers that have been read. -/
theorem loadImage_avoids (hc : t.c.Ordered) (hlen : t.f.length < 2 ^ 63) {eh : Ehdr}
    (hsh : t.sh = eh.e_shoff) (hnum : eh.e_shnum < 2 ^ 16) (htaken : ∀ i < eh.e_phnum, Taken t i)
    (shstrtab : ℕ) (sp : RevMem → ℕ → ℕ) (L : RevLoader) :
    Avoids Stray (loadImage t eh shstrtab sp L) ↔ ImageInside t eh shstrtab sp L := by
  have hends := findEnd_avoids hc hlen shstrtab eh.e_shnum {}
  constructor
  · intro h
    rw [loadImage, avoids_bind] at h
    obtain ⟨hfind, h⟩ := h
    have hwrite : ∀ E D, loop (findEnd t shstrtab) 0 eh.e_shnum {} = .ok E →
        staticDataEnd E = .ok D → (eh.e_phoff + eh.e_phnum * t.c.phdr) % W64 ≤ t.sz →
        Avoids Stray (L.mem.WriteCacheLine L.lineSize (sp L.mem (eh.e_phnum * t.c.phdr))
          (eh.e_phnum * t.c.phdr) (fileData t t.ph)) ∧
        ∀ mem, L.mem.WriteCacheLine L.lineSize (sp L.mem (eh.e_phnum * t.c.phdr))
            (eh.e_phnum * t.c.phdr) (fileData t t.ph) = .ok mem →
          Avoids Stray (loop (loadSegment t) 0 eh.e_phnum { L with
              elfinfo := infoOf t eh
              mem := { mem with stacktop := sp L.mem (eh.e_phnum * t.c.phdr) } } >>=
            loadSections t eh shstrtab D) := by
      intro E D hE hD hfit
      have hE := h E hE
      rw [avoids_bind] at hE
      have hD := hE.2 D hD
      rw [avoids_fatalIf_bind] at hD
      have hfit := hD (Nat.not_lt.mpr hfit)
      rw [avoids_bind] at hfit
      exact hfit
    have hload : ∀ L₁, Stored t eh shstrtab sp L L₁ → ∃ D,
        Avoids Stray (loop (loadSegment t) 0 eh.e_phnum L₁ >>= loadSections t eh shstrtab D) := by
      rintro L₁ ⟨E, D, mem, hE, hD, hfit, hmem, rfl⟩
      exact ⟨D, (hwrite E D hE hD hfit).2 mem hmem⟩
    constructor
    · exact hends.mp hfind
    · rintro ⟨E, D, hE, hD⟩ hfit
      exact (writeFile_avoids _ _ _ _ _).mp (hwrite E D hE hD hfit).1
    · intro L₁ hstored i hi L' hL'
      obtain ⟨D, hpass⟩ := hload L₁ hstored
      rw [avoids_bind, avoids_loop] at hpass
      have hseg := hpass.1 i hi L' hL'
      rw [Nat.zero_add] at hseg
      exact (loadSegment_avoids hc (htaken i hi) L').mp hseg
    · intro L₁ L₂ hstored hL₂
      obtain ⟨D, hpass⟩ := hload L₁ hstored
      rw [avoids_bind] at hpass
      exact (loadSections_avoids hc hlen hsh hnum (hends.mp hfind) D L₂).mp (hpass.2 L₂ hL₂)
  · rintro ⟨hfind, hheaders, hsegments, hsections⟩
    rw [loadImage, avoids_bind]
    refine ⟨hends.mpr hfind, ?_⟩
    intro E hE
    rw [avoids_bind]
    refine ⟨staticDataEnd_avoids E, ?_⟩
    intro D hD
    rw [avoids_fatalIf_bind]
    intro hfit
    have hfit := Nat.not_lt.mp hfit
    rw [avoids_bind]
    refine ⟨(writeFile_avoids _ _ _ _ _).mpr (hheaders ⟨E, D, hE, hD⟩ hfit), ?_⟩
    intro mem hmem
    have hstored : Stored t eh shstrtab sp L _ := ⟨E, D, mem, hE, hD, hfit, hmem, rfl⟩
    rw [avoids_bind, avoids_loop]
    refine ⟨?_, ?_⟩
    · intro i hi L' hL'
      rw [Nat.zero_add]
      exact (loadSegment_avoids hc (htaken i hi) L').mpr (hsegments _ hstored i hi L' hL')
    · intro L₂ hL₂
      exact (loadSections_avoids hc hlen hsh hnum hfind D L₂).mpr (hsections _ L₂ hstored hL₂)

/-- The program headers that the first loop has taken. -/
theorem addSegments_taken (hc : t.c.Ordered) (hlen : t.f.length < 2 ^ 63) {n : ℕ} {L L' : RevLoader}
    (h : loop (addSegment t true) 0 n L = .ok L') : ∀ i < n, Taken t i := by
  intro i hi
  obtain ⟨L₁, L₂, -, hpass, -⟩ := loop_prefix hi h
  rw [Nat.zero_add] at hpass
  have hin : t.PhdrInside i := by
    rw [← addSegment_avoids hc hlen i L₁, hpass]
    exact avoids_ok L₂
  have hfits : t.PhdrFits i := by
    have hword := hc.word_pos
    have hpaddr := hc.p_paddr
    have hfilesz := hc.p_filesz
    rw [addSegment, Tables.p_offset_eq, if_pos (inside_part hin.check (by omega) (by omega)),
      Tables.p_filesz_eq, if_pos (inside_part hin.check (by omega) (by omega))] at hpass
    simp only [bind_eq_ok, Except.ok.injEq, exists_eq_left'] at hpass
    obtain ⟨_, hfatal, -⟩ := hpass
    exact Nat.not_lt.mp (fatalIf_ok hfatal)
  exact ⟨hin.rest hfits, hfits⟩

/-- The second loop over the program headers reads nothing that the first one
    has not read. -/
theorem addSegments_again {n : ℕ} (hc : t.c.Ordered) (htaken : ∀ i < n, Taken t i) (L : RevLoader) :
    Avoids Stray (loop (addSegment t false) 0 n L) := by
  rw [avoids_loop]
  intro i hi L₁ _
  rw [Nat.zero_add]
  obtain ⟨-, hoff, hpaddr, hfilesz, hmemsz⟩ := (htaken i hi).reads hc
  rw [addSegment, hoff, avoids_ok_bind, hfilesz, avoids_ok_bind, avoids_fatalIf_bind]
  intro _
  rw [if_neg (by decide), avoids_ok_bind, hmemsz, avoids_ok_bind, avoids_ite, hpaddr, avoids_ok_bind]
  refine ⟨?_, fun _ => avoids_ok _⟩
  intro _
  split <;> simp [Stray]

/-- Everything that a load reads lies in the file, as far as the load comes:
    the section header of the names, each program header, and from the state
    `start` after the memory segments on, the image. -/
structure FileInside (t : Tables) (eh : Ehdr) (start : Load RevLoader) (sp : RevMem → ℕ → ℕ)
    (L : RevLoader) : Prop where
  strings : Inside t.f (t.shdrOff eh.e_shstrndx + t.c.sh_offset) t.c.word
  headers : ∀ i < eh.e_phnum, ∀ L', loop (addSegment t true) 0 i L = .ok L' → t.PhdrInside i
  image : ∀ L', start = .ok L' → ImageInside t eh (t.shdr eh.e_shstrndx).sh_offset sp L'

/-- The first half of `LoadElf64`. -/
def start64 (f : List UInt8) (L : RevLoader) : Load RevLoader := do
  let L ← loop (addSegment (tables elf64 f) true) 0 (header elf64 f).e_phnum L
  .ok { L with mem := L.mem.AddThreadMem.2 }

/-- The first half of `LoadElf32`. -/
def start32 (f : List UInt8) (L : RevLoader) : Load RevLoader := do
  let L ← loop (addSegment (tables elf32 f) true) 0 (header elf32 f).e_phnum L
  loop (addSegment (tables elf32 f) false) 0 (header elf32 f).e_phnum
    { L with mem := L.mem.AddThreadMem.2 }

/-- What `LoadElf64` reads lies in the file. -/
def Inside64 (f : List UInt8) (L : RevLoader) : Prop :=
  FileInside (tables elf64 f) (header elf64 f)
    (start64 f { L with Entry := (header elf64 f).e_entry })
    (fun mem phdr_size => (mem.stacktop + W64 - phdr_size) % W64)
    { L with Entry := (header elf64 f).e_entry }

/-- What `LoadElf32` reads lies in the file. -/
def Inside32 (f : List UInt8) (L : RevLoader) : Prop :=
  FileInside (tables elf32 f) (header elf32 f)
    (start32 f { L with Entry := (header elf32 f).e_entry })
    (fun mem phdr_size => (mem.stacktop + W64 - phdr_size) % 2 ^ 32)
    { L with Entry := (header elf32 f).e_entry }

theorem inside_header {f : List UInt8} (hmin : 64 ≤ f.length) {o n : ℕ} (h : o + n ≤ 64) :
    Inside f o n := by
  intro k hk
  rw [Nat.mod_eq_of_lt (by omega)]
  omega

theorem ehdr_eq {c : Layout} (hc : c.Ordered) {f : List UInt8} (hmin : 64 ≤ f.length) :
    ehdr c f = .ok (header c f) := by
  have hword : ∀ o ∈ [c.e_entry, c.e_phoff, c.e_shoff], Inside f o c.word :=
    fun o ho => inside_header hmin (hc.e_words o ho)
  have hhalf : ∀ o ∈ [c.e_phnum, c.e_shnum, c.e_shstrndx], Inside f o 2 :=
    fun o ho => inside_header hmin (hc.e_halves o ho)
  simp only [ehdr, Elf.read, readLE_eq]
  rw [if_pos (hword _ (by simp)), if_pos (hword _ (by simp)), if_pos (hword _ (by simp)),
    if_pos (hhalf _ (by simp)), if_pos (hhalf _ (by simp)), if_pos (hhalf _ (by simp))]
  rfl

theorem header_shnum_lt (c : Layout) (f : List UInt8) : (header c f).e_shnum < 2 ^ 16 := by
  have hlt := leNat_lt (getBytes (byteAt f) c.e_shnum 2)
  rw [getBytes_length] at hlt
  exact hlt

/-- A load up to the image: `rest` stands for the steps after the first loop over
    the program headers. -/
theorem load_avoids {f : List UInt8} {c : Layout} (hc : c.Ordered) (hmax : f.length < 2 ^ 63)
    (rest : RevLoader → Load RevLoader)
    (hrest : (∀ i < (header c f).e_phnum, Taken (tables c f) i) → ∀ L₁, Avoids Stray (rest L₁))
    (sp : RevMem → ℕ → ℕ) (L : RevLoader) :
    Avoids Stray ((tables c f).sh_offset (header c f).e_shstrndx >>= fun shstrtab =>
        loop (addSegment (tables c f) true) 0 (header c f).e_phnum L >>= fun L₁ =>
        rest L₁ >>= loadImage (tables c f) (header c f) shstrtab sp) ↔
      FileInside (tables c f) (header c f)
        (loop (addSegment (tables c f) true) 0 (header c f).e_phnum L >>= rest) sp L := by
  have hc' : (tables c f).c.Ordered := hc
  have hmax' : (tables c f).f.length < 2 ^ 63 := hmax
  rw [Tables.sh_offset_eq, avoids_read_bind, avoids_bind, avoids_loop]
  simp only [Nat.zero_add, addSegment_avoids hc' hmax']
  constructor
  · rintro ⟨hstr, hheaders, himage⟩
    refine ⟨hstr, hheaders, ?_⟩
    intro L₂ hstart
    rw [bind_eq_ok] at hstart
    obtain ⟨L₁, hloop, hL₂⟩ := hstart
    have himage := himage L₁ hloop
    rw [avoids_bind] at himage
    exact (loadImage_avoids hc' hmax' rfl (header_shnum_lt c f)
      (addSegments_taken hc' hmax' hloop) _ sp L₂).mp (himage.2 L₂ hL₂)
  · rintro ⟨hstr, hheaders, himage⟩
    refine ⟨hstr, hheaders, ?_⟩
    intro L₁ hloop
    have htaken := addSegments_taken hc' hmax' hloop
    rw [avoids_bind]
    refine ⟨hrest htaken L₁, ?_⟩
    intro L₂ hL₂
    refine (loadImage_avoids hc' hmax' rfl (header_shnum_lt c f) htaken _ sp L₂).mpr (himage L₂ ?_)
    rw [bind_eq_ok]
    exact ⟨L₁, hloop, hL₂⟩

/-- A loader with 4 MiB of memory. -/
def smallLoader : RevLoader := new [97] [] 0 (4 * 1024 * 1024) (1024 * 1024) 512 none

/-- A header with a section table that is not in the file. -/
def headerOnlyFile : List UInt8 :=
  ehdr64 { e_entry := 0x10000, e_phoff := 64, e_shoff := 0x100000, e_phnum := 0, e_shnum := 1,
           e_shstrndx := 0 }

/-- A segment of 8 bytes with 16 bytes in the file. -/
def longSegmentFile : List UInt8 := textFile [phdr64 PT_LOAD 265 0x10000 16 8] 0x10000

end RevLoader

end RevCPU
