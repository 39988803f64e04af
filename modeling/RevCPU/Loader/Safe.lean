import RevCPU.Loader.Guards

namespace RevCPU

open Lib LoadFault

namespace RevMem

variable {lineSize Addr Len : ℕ}

/-- A write from a buffer reads the bytes that it takes after the translation. -/
theorem writeFrom_avoids {m : RevMem} {A L Total : ℕ} {Data : ℕ → ℕ → Load (List UInt8)} :
    Avoids Stray (m.writeFrom A L Data Total) ↔
      ∀ r adj m', (m.RevokeFuture A).translate A L = some (r, adj, m') →
        Avoids Stray (Data Total (m.bytesTaken L adj)) := by
  unfold writeFrom
  split
  · rename_i hnone
    simp [hnone, Stray]
  · rename_i r adj m₁ htr
    rw [avoids_bind]
    constructor
    · rintro ⟨hdata, -⟩ r' adj' m' htr'
      rw [htr] at htr'
      simp only [Option.some.injEq, Prod.mk.injEq] at htr'
      rw [← htr'.2.1]
      exact hdata
    · intro h
      refine ⟨h r adj m₁ htr, ?_⟩
      intro bytes _
      split <;> simp [Stray]

end RevMem

namespace RevLoader

open Elf RevMem

variable {t : Tables}

/-- The bytes of the file that the writes of `WriteCacheLine` take, as far as
    the addresses of the writes are translated, lie in the file. -/
def LinesInside (t : Tables) (m : RevMem) (ctrlLineSize Addr Len ptr : ℕ) : Prop :=
  ∀ j < lineCount (m.cacheLine ctrlLineSize) Addr Len, ∀ m',
    loop (writeLine (m.cacheLine ctrlLineSize) Addr Len (fileData t ptr)) 0 j m = .ok m' →
    ∀ r adj m'', (m'.RevokeFuture (lineAddr (m.cacheLine ctrlLineSize) Addr Len j)).translate
        (lineAddr (m.cacheLine ctrlLineSize) Addr Len j)
        (lineLen (m.cacheLine ctrlLineSize) Addr Len j) = some (r, adj, m'') →
      Inside t.f (ptr + lineOff (m.cacheLine ctrlLineSize) Addr Len j)
        (m'.bytesTaken (lineLen (m.cacheLine ctrlLineSize) Addr Len j) adj)

theorem fileData_avoids (ptr o n : ℕ) :
    Avoids Stray (fileData t ptr o n) ↔ Inside t.f (ptr + o) n := by
  rw [fileData, readBytes_eq]
  by_cases h : Inside t.f (ptr + o) n
  · simp [h]
  · simp [h, Stray]

theorem writeFile_avoids (m : RevMem) (ctrlLineSize Addr Len ptr : ℕ) :
    Avoids Stray (m.WriteCacheLine ctrlLineSize Addr Len (fileData t ptr)) ↔
      LinesInside t m ctrlLineSize Addr Len ptr := by
  rw [WriteCacheLine_eq, avoids_loop]
  simp only [Nat.zero_add, writeLine, writeFrom_avoids, fileData_avoids]
  rfl

/-- A buffer of the loader has all its bytes. -/
theorem writeBuf_avoids (m : RevMem) (ctrlLineSize Addr Len : ℕ) (buf : List UInt8) :
    Avoids Stray (m.WriteCacheLine ctrlLineSize Addr Len (bufData buf)) := by
  rw [WriteCacheLine_eq, avoids_loop]
  intro j _ m' _
  rw [writeLine, writeFrom_avoids]
  intro r adj m'' _
  exact avoids_ok _

/-- The program header is in the file and has passed the check of its segment. -/
structure Taken (t : Tables) (i : ℕ) : Prop where
  inside : Inside t.f (t.phdrOff i) (t.c.p_memsz + t.c.word)
  fits : t.PhdrFits i

/-- The part of a loadable segment that the file gives lies in the file, and
    when it is written the segment is not longer in the file than in memory. -/
structure SegmentInside (t : Tables) (i : ℕ) (L : RevLoader) : Prop where
  bytes : (t.phdr i).p_filesz ≠ 0 →
    LinesInside t L.mem L.lineSize (t.phdr i).p_paddr (t.phdr i).p_filesz (t.phdr i).p_offset
  size : (∃ mem, loadBytes t L i (t.phdr i).p_paddr (t.phdr i).p_filesz = .ok mem) →
    (t.phdr i).p_filesz ≤ (t.phdr i).p_memsz

theorem Taken.reads {i : ℕ} (hc : t.c.Ordered) (h : Taken t i) :
    t.p_type i = .ok (t.phdr i).p_type ∧ t.p_offset i = .ok (t.phdr i).p_offset ∧
      t.p_paddr i = .ok (t.phdr i).p_paddr ∧ t.p_filesz i = .ok (t.phdr i).p_filesz ∧
      t.p_memsz i = .ok (t.phdr i).p_memsz := by
  have hoff := hc.p_offset
  have hpaddr := hc.p_paddr
  have hfilesz := hc.p_filesz
  have hmemsz := hc.p_memsz
  have hpart : ∀ p k, p + k ≤ t.c.p_memsz + t.c.word → Inside t.f (t.phdrOff i + p) k := by
    intro p k hle
    exact inside_part (o := 0) h.inside (by omega) (by omega)
  refine ⟨?_, ?_, ?_, ?_, ?_⟩
  · rw [Tables.p_type_eq, if_pos (show Inside t.f (t.phdrOff i) 4 from hpart 0 4 (by omega))]
  · rw [Tables.p_offset_eq, if_pos (hpart _ _ (by omega))]
  · rw [Tables.p_paddr_eq, if_pos (hpart _ _ (by omega))]
  · rw [Tables.p_filesz_eq, if_pos (hpart _ _ (by omega))]
  · rw [Tables.p_memsz_eq, if_pos (hpart _ _ (by omega))]

/-- What follows a value that is known. -/
theorem avoids_ok_bind {α β : Type} {v : α} {f : α → Load β} :
    Avoids Stray ((.ok v : Load α) >>= f) ↔ Avoids Stray (f v) := Iff.rfl

theorem loadBytes_avoids {i : ℕ} (hc : t.c.Ordered) (h : Taken t i) (L : RevLoader) :
    Avoids Stray (loadBytes t L i (t.phdr i).p_paddr (t.phdr i).p_filesz) ↔
      ((t.phdr i).p_filesz ≠ 0 → LinesInside t L.mem L.lineSize (t.phdr i).p_paddr
        (t.phdr i).p_filesz (t.phdr i).p_offset) := by
  obtain ⟨-, hoff, -⟩ := h.reads hc
  have hfits : ¬t.sz < t.c.wordAdd (t.phdr i).p_offset (t.phdr i).p_filesz := Nat.not_lt.mpr h.fits
  rw [loadBytes, avoids_ite, hoff, avoids_ok_bind, avoids_fatalIf_bind, writeFile_avoids]
  simp only [hfits, not_false_eq_true, true_implies, avoids_ok, implies_true, and_true]

/-- A pass of the loop that loads the segments. -/
theorem loadSegment_avoids {i : ℕ} (hc : t.c.Ordered) (h : Taken t i) (L : RevLoader) :
    Avoids Stray (loadSegment t i L) ↔
      ((t.phdr i).p_type = PT_LOAD → (t.phdr i).p_memsz ≠ 0 → SegmentInside t i L) := by
  obtain ⟨htype, -, hpaddr, hfilesz, hmemsz⟩ := h.reads hc
  rw [loadSegment, htype, avoids_ok_bind, avoids_ite, hmemsz, avoids_ok_bind, avoids_ite, hfilesz,
    avoids_ok_bind, hpaddr, avoids_ok_bind, avoids_bind, loadBytes_avoids hc h]
  simp only [avoids_sizeSub_bind, avoids_ok, implies_true, and_true]
  constructor
  · intro hall hload hne
    obtain ⟨hbytes, hrest⟩ := hall hload hne
    refine ⟨hbytes, ?_⟩
    rintro ⟨mem, hmem⟩
    exact (hrest mem hmem).1
  · intro hall hload hne
    have hseg := hall hload hne
    refine ⟨hseg.bytes, ?_⟩
    intro mem hmem
    refine ⟨hseg.size ⟨mem, hmem⟩, ?_⟩
    rw [avoids_bind]
    exact ⟨writeBuf_avoids _ _ _ _ _, fun _ _ => avoids_ok _⟩

/-- The strings that the loop over the section headers reads for a section that
    has bytes in the file and passes the check of its place. -/
def NamesInside (t : Tables) (shstrtab i : ℕ) : Prop :=
  (t.shdr i).sh_type &&& SHT_NOBITS = 0 → t.ShdrFits i →
    StrInside t.f (shstrtab + (t.shdr i).sh_name) strtabName ∧
      StrInside t.f (shstrtab + (t.shdr i).sh_name) symtabName

/-- The whole section header is in the file. -/
def ShdrInside (t : Tables) (i : ℕ) : Prop := Inside t.f (t.shdrOff i) t.c.shdr

theorem ShdrInside.reads {i : ℕ} (hc : t.c.Ordered) (h : ShdrInside t i) :
    t.sh_type i = .ok (t.shdr i).sh_type ∧ t.sh_offset i = .ok (t.shdr i).sh_offset ∧
      t.sh_size i = .ok (t.shdr i).sh_size := by
  have haddr := hc.sh_addr
  have hoff := hc.sh_offset
  have hsize := hc.sh_size
  have hshdr := hc.shdr
  have hpart : ∀ p k, p + k ≤ t.c.shdr → Inside t.f (t.shdrOff i + p) k := by
    intro p k hle
    exact inside_part (o := 0) h (by omega) (by omega)
  refine ⟨?_, ?_, ?_⟩
  · rw [Tables.sh_type_eq, if_pos (hpart _ _ (by omega))]
  · rw [Tables.sh_offset_eq, if_pos (hpart _ _ (by omega))]
  · rw [Tables.sh_size_eq, if_pos (hpart _ _ (by omega))]

theorem ShdrInside.named {i : ℕ} (hc : t.c.Ordered) (h : ShdrInside t i) (shstrtab : ℕ)
    (name : List UInt8) : t.named shstrtab i name =
      if StrInside t.f (shstrtab + (t.shdr i).sh_name) name then
        .ok (strAt t.f (shstrtab + (t.shdr i).sh_name) name) else .error .outside := by
  have haddr := hc.sh_addr
  have hoff := hc.sh_offset
  have hsize := hc.sh_size
  have hshdr := hc.shdr
  have hname : Inside t.f (t.shdrOff i) 4 :=
    inside_part (a := t.shdrOff i) (o := 0) (p := 0) h (by omega) (by omega)
  rw [Tables.named_eq]
  simp only [hname, true_and]

/-- A pass of the loop over the section headers. -/
theorem checkSection_avoids {i : ℕ} (hc : t.c.Ordered) (h : ShdrInside t i) (shstrtab : ℕ)
    (T : TabIdx) : Avoids Stray (checkSection t shstrtab i T) ↔ NamesInside t shstrtab i := by
  obtain ⟨htype, hoff, hsize⟩ := h.reads hc
  rw [checkSection, htype, avoids_ok_bind, avoids_ite, hoff, avoids_ok_bind, hsize, avoids_ok_bind,
    avoids_fatalIf_bind, h.named hc, avoids_read_bind]
  simp only [h.named hc, avoids_read_bind, avoids_ok, implies_true, and_true, true_and, ne_eq,
    not_not, Nat.not_lt]
  rfl

/-- The bytes that a pass of the loop over the symbols reads; the length left
    for the name in the string table is not negative. -/
structure SymbolInside (t : Tables) (str sy : Shdr) (i : ℕ) : Prop where
  st_name : Inside t.f (sy.sh_offset + t.c.sym * i) 4
  length : numAt t.f (sy.sh_offset + t.c.sym * i) 4 ≤ str.sh_size
  string : numAt t.f (sy.sh_offset + t.c.sym * i) 4 < str.sh_size →
    LenInside t.f (str.sh_offset + numAt t.f (sy.sh_offset + t.c.sym * i) 4)
      ((str.sh_size - numAt t.f (sy.sh_offset + t.c.sym * i) 4) % 2 ^ 32)
  value : numAt t.f (sy.sh_offset + t.c.sym * i) 4 < str.sh_size →
    lenAt t.f (str.sh_offset + numAt t.f (sy.sh_offset + t.c.sym * i) 4)
        ((str.sh_size - numAt t.f (sy.sh_offset + t.c.sym * i) 4) % 2 ^ 32) <
      (str.sh_size - numAt t.f (sy.sh_offset + t.c.sym * i) 4) % 2 ^ 32 →
    Inside t.f (sy.sh_offset + t.c.sym * i + t.c.st_value) t.c.word

/-- A pass of the loop over the symbols. -/
theorem loadSymbol_avoids (str sy : Shdr) (i : ℕ) (s : List (List UInt8 × ℕ)) :
    Avoids Stray (loadSymbol t str.sh_offset sy.sh_offset str.sh_size i s) ↔
      SymbolInside t str sy i := by
  have hname : t.st_name sy.sh_offset i =
      if Inside t.f (sy.sh_offset + t.c.sym * i) 4 then
        .ok (numAt t.f (sy.sh_offset + t.c.sym * i) 4) else .error .outside := readLE_eq _ _
  have hvalue : t.st_value sy.sh_offset i =
      if Inside t.f (sy.sh_offset + t.c.sym * i + t.c.st_value) t.c.word then
        .ok (numAt t.f (sy.sh_offset + t.c.sym * i + t.c.st_value) t.c.word)
      else .error .outside := readLE_eq _ _
  rw [loadSymbol, hname, avoids_read_bind, avoids_sizeSub_bind, avoids_fatalIf_bind, boundedLen_eq,
    avoids_read_bind, avoids_fatalIf_bind, readBytes_eq, avoids_read_bind, hvalue, avoids_read_bind]
  simp only [avoids_ok, and_true, ge_iff_le, Nat.not_le]
  constructor
  · rintro ⟨hin, hle, hrest⟩
    exact ⟨hin, hle, fun hlt => (hrest hlt).1, fun hlt hlen => ((hrest hlt).2 hlen).2⟩
  · intro h
    refine ⟨h.st_name, h.length, fun hlt => ⟨h.string hlt, fun hlen => ⟨?_, h.value hlt hlen⟩⟩⟩
    refine inside_part (p := 0) (o := 0) (h.string hlt) (by omega) ?_
    omega

/-- The symbols: those that are reached are inside of the file, and the index of
    32 bits counts them all. -/
structure SymbolsInside (t : Tables) (T : TabIdx) (s : List (List UInt8 × ℕ)) : Prop where
  symbol : ∀ i < min ((t.shdr T.symtabidx).sh_size / t.c.sym) (2 ^ 32), ∀ s',
    loop (loadSymbol t (t.shdr T.strtabidx).sh_offset (t.shdr T.symtabidx).sh_offset
      (t.shdr T.strtabidx).sh_size) 0 i s = .ok s' →
    SymbolInside t (t.shdr T.strtabidx) (t.shdr T.symtabidx) i
  count : (∃ s', loop (loadSymbol t (t.shdr T.strtabidx).sh_offset (t.shdr T.symtabidx).sh_offset
      (t.shdr T.strtabidx).sh_size) 0
      (min ((t.shdr T.symtabidx).sh_size / t.c.sym) (2 ^ 32)) s = .ok s') →
    (t.shdr T.symtabidx).sh_size / t.c.sym < 2 ^ 32

theorem loadSymbols_avoids (hc : t.c.Ordered) {T : TabIdx} (hstr : ShdrInside t T.strtabidx)
    (hsym : ShdrInside t T.symtabidx) (s : List (List UInt8 × ℕ)) :
    Avoids Stray (loadSymbols t T s) ↔
      (T.strtabidx ≠ 0 ∧ T.symtabidx ≠ 0 → SymbolsInside t T s) := by
  obtain ⟨-, hoff, hsize⟩ := hstr.reads hc
  obtain ⟨-, hoff', hsize'⟩ := hsym.reads hc
  rw [loadSymbols, avoids_ite, hoff, avoids_ok_bind, hoff', avoids_ok_bind, hsize', avoids_ok_bind,
    avoids_ite, hsize, avoids_ok_bind, avoids_bind, avoids_loop]
  simp only [avoids_ok, implies_true, and_true, true_and, Nat.zero_add, loadSymbol_avoids, avoids_ite,
    avoids_error, Stray, not_true_eq_false, ge_iff_le, imp_false, Nat.not_le]
  constructor
  · intro hall hidx
    by_cases hzero : (t.shdr T.symtabidx).sh_size / t.c.sym = 0
    · constructor
      · intro i hi
        omega
      · intro _
        omega
    · obtain ⟨hpass, hcount⟩ := hall hidx hzero
      refine ⟨hpass, ?_⟩
      rintro ⟨s', hs'⟩
      exact hcount s' hs'
  · intro hall hidx _
    obtain ⟨hpass, hcount⟩ := hall hidx
    exact ⟨hpass, fun s' hs' => hcount ⟨s', hs'⟩⟩

/-- The indices that the loop over the section headers leaves. -/
theorem checkSection_ok {shstrtab i : ℕ} {T T' : TabIdx}
    (h : checkSection t shstrtab i T = .ok T') :
    (T'.strtabidx = T.strtabidx ∨ T'.strtabidx = i) ∧
      (T'.symtabidx = T.symtabidx ∨ T'.symtabidx = i) := by
  unfold checkSection at h
  rw [bind_eq_ok] at h
  obtain ⟨_, -, h⟩ := h
  split at h
  · simp only [Except.ok.injEq] at h
    rw [h]
    exact ⟨.inl rfl, .inl rfl⟩
  · simp only [bind_eq_ok, Except.ok.injEq] at h
    obtain ⟨_, -, _, -, _, -, isStrtab, -, isSymtab, -, rfl⟩ := h
    cases isStrtab <;> cases isSymtab <;> simp

theorem checkSections_index {shstrtab n : ℕ} {T : TabIdx} (hn : 0 < n)
    (h : loop (checkSection t shstrtab) 0 n {} = .ok T) : T.strtabidx < n ∧ T.symtabidx < n := by
  have hinv := loop_invariant (fun i (T : TabIdx) => (T.strtabidx = 0 ∨ T.strtabidx < i) ∧
    (T.symtabidx = 0 ∨ T.symtabidx < i)) (by
      intro i T T' ⟨hstr, hsym⟩ hpass
      obtain ⟨hstr', hsym'⟩ := checkSection_ok hpass
      omega) ⟨.inl rfl, .inl rfl⟩ h
  omega

/-- The part of the load after the segments. -/
def loadSections (t : Tables) (eh : Ehdr) (shstrtab StaticDataEnd : ℕ) (L : RevLoader) :
    Load RevLoader := do
  fatalIf (t.sz < (eh.e_shoff + eh.e_shnum * t.c.shdr) % W64)
  fatalIf (eh.e_shstrndx ≥ eh.e_shnum)
  let sh_offset ← t.sh_offset eh.e_shstrndx
  let sh_size ← t.sh_size eh.e_shstrndx
  fatalIf (t.sz < t.c.wordAdd sh_offset sh_size)
  let T ← loop (checkSection t shstrtab) 0 eh.e_shnum {}
  let symtable ← loadSymbols t T L.symtable
  match L.mem.InitHeap StaticDataEnd with
  | none => .error .fatal
  | some mem => .ok { L with symtable, mem }

/-- What the part of the load after the segments reads: when the section headers
    pass their check, the strings and the symbols that are reached. -/
structure SectionsInside (t : Tables) (eh : Ehdr) (shstrtab : ℕ) (s : List (List UInt8 × ℕ)) :
    Prop where
  names : ∀ i < eh.e_shnum, ∀ T, loop (checkSection t shstrtab) 0 i {} = .ok T →
    NamesInside t shstrtab i
  symbols : ∀ T, loop (checkSection t shstrtab) 0 eh.e_shnum {} = .ok T →
    T.strtabidx ≠ 0 ∧ T.symtabidx ≠ 0 → SymbolsInside t T s

/-- The section headers pass the checks that follow the load of the segments. -/
structure SectionsPass (t : Tables) (eh : Ehdr) : Prop where
  table : (eh.e_shoff + eh.e_shnum * t.c.shdr) % W64 ≤ t.sz
  index : eh.e_shstrndx < eh.e_shnum
  strings : t.ShdrFits eh.e_shstrndx

/-- The check of the table of the section headers is enough once the name of a
    section has been read. -/
theorem shdrs_inside (hc : t.c.Ordered) (hlen : t.f.length < 2 ^ 63) {eh : Ehdr}
    (hsh : t.sh = eh.e_shoff) (hnum : eh.e_shnum < 2 ^ 16) (hfirst : Inside t.f (t.shdrOff 0) 4)
    (htable : (eh.e_shoff + eh.e_shnum * t.c.shdr) % W64 ≤ t.sz) {i : ℕ} (hi : i < eh.e_shnum) :
    ShdrInside t i := by
  have hsmall := hc.small.2
  have hstart := hfirst 0 (by omega)
  have hle : t.c.shdr * i + t.c.shdr ≤ eh.e_shnum * t.c.shdr := by
    rw [← Nat.mul_succ, Nat.mul_comm]
    exact Nat.mul_le_mul_right _ hi
  have hbound : eh.e_shnum * t.c.shdr ≤ 2 ^ 16 * 64 := Nat.mul_le_mul (by omega) hsmall
  intro k hk
  simp only [Tables.shdrOff, Tables.sz, hsh, Nat.mul_zero, Nat.add_zero] at *
  unfold W64 at htable
  omega

theorem loadSections_avoids (hc : t.c.Ordered) (hlen : t.f.length < 2 ^ 63) {eh : Ehdr}
    (hsh : t.sh = eh.e_shoff) (hnum : eh.e_shnum < 2 ^ 16) {shstrtab : ℕ}
    (hends : ∀ i < eh.e_shnum, ∀ name ∈ Tables.staticNames, t.EndInside shstrtab i name) (D : ℕ)
    (L : RevLoader) : Avoids Stray (loadSections t eh shstrtab D L) ↔
      (SectionsPass t eh → SectionsInside t eh shstrtab L.symtable) := by
  have hshdr : (eh.e_shoff + eh.e_shnum * t.c.shdr) % W64 ≤ t.sz → eh.e_shstrndx < eh.e_shnum →
      ∀ i < eh.e_shnum, ShdrInside t i := by
    intro htable hidx i hi
    have hname := (hends 0 (by omega) bssName (by simp [Tables.staticNames])).sh_name
    exact shdrs_inside hc hlen hsh hnum hname htable hi
  rw [loadSections, avoids_fatalIf_bind, avoids_fatalIf_bind]
  constructor
  · rintro h ⟨htable, hidx, hstrings⟩
    have hall := hshdr htable hidx
    obtain ⟨-, hoff, hsize⟩ := (hall _ hidx).reads hc
    have h := h (by omega) (by omega)
    rw [hoff, avoids_ok_bind, hsize, avoids_ok_bind, avoids_fatalIf_bind] at h
    have h := h (Nat.not_lt.mpr hstrings)
    rw [avoids_bind, avoids_loop] at h
    obtain ⟨hnames, hrest⟩ := h
    constructor
    · intro i hi T hT
      have hpass := hnames i hi T hT
      rw [Nat.zero_add] at hpass
      exact (checkSection_avoids hc (hall i hi) shstrtab T).mp hpass
    · intro T hT
      obtain ⟨hstr, hsym⟩ := checkSections_index (by omega) hT
      have hsymbols := hrest T hT
      rw [avoids_bind] at hsymbols
      exact (loadSymbols_avoids hc (hall _ hstr) (hall _ hsym) _).mp hsymbols.1
  · intro h htable hidx
    have htable := Nat.not_lt.mp htable
    have hidx : eh.e_shstrndx < eh.e_shnum := by omega
    have hall := hshdr htable hidx
    obtain ⟨-, hoff, hsize⟩ := (hall _ hidx).reads hc
    rw [hoff, avoids_ok_bind, hsize, avoids_ok_bind, avoids_fatalIf_bind]
    intro hstrings
    have hin := h ⟨htable, hidx, Nat.not_lt.mp hstrings⟩
    rw [avoids_bind, avoids_loop]
    refine ⟨?_, ?_⟩
    · intro i hi T hT
      rw [Nat.zero_add]
      exact (checkSection_avoids hc (hall i hi) shstrtab T).mpr (hin.names i hi T hT)
    · intro T hT
      obtain ⟨hstr, hsym⟩ := checkSections_index (by omega) hT
      rw [avoids_bind]
      refine ⟨(loadSymbols_avoids hc (hall _ hstr) (hall _ hsym) _).mpr (hin.symbols T hT), ?_⟩
      intro s _
      split <;> simp [Stray]

end RevLoader

end RevCPU
