import RevCPU.Loader.Lines
import RevCPU.Loader.Loaded

namespace RevCPU

open Lib

namespace LoadFault

/-- The faults that the loader does not report: a byte is read outside of the
    file, a size is negative, or the load does not end. -/
def Stray : LoadFault → Prop
  | fatal | memory => False
  | outside | negative | endless => True

end LoadFault

open LoadFault

section Rules

variable {α β : Type}

/-- A read of the file, and what follows it. -/
theorem avoids_read_bind {c : Prop} [Decidable c] {v : α} {f : α → Load β} :
    Avoids Stray ((if c then .ok v else .error .outside) >>= f) ↔ c ∧ Avoids Stray (f v) := by
  by_cases h : c
  · rw [if_pos h, avoids_bind]
    simp [h]
  · rw [if_neg h, avoids_bind]
    simp [h, Stray]

theorem avoids_fatalIf_bind {c : Prop} [Decidable c] {f : Unit → Load β} :
    Avoids Stray (fatalIf c >>= f) ↔ (¬c → Avoids Stray (f ())) := by
  unfold fatalIf
  by_cases h : c
  · rw [if_pos h, avoids_bind]
    simp [h, Stray]
  · rw [if_neg h, avoids_bind]
    simp only [avoids_ok, true_and, h, not_false_eq_true, true_implies]
    exact ⟨fun hall => hall (), fun hone _ => hone⟩

theorem avoids_sizeSub_bind {a b : ℕ} {f : ℕ → Load β} :
    Avoids Stray (sizeSub a b >>= f) ↔ b ≤ a ∧ Avoids Stray (f (a - b)) := by
  unfold sizeSub
  by_cases h : b ≤ a
  · rw [if_pos h, avoids_bind]
    simp [h]
  · rw [if_neg h, avoids_bind]
    simp [h, Stray]

end Rules

namespace Elf

/-- The fields of a program header that the loader uses. -/
structure Phdr where
  p_type : ℕ
  p_offset : ℕ
  p_paddr : ℕ
  p_filesz : ℕ
  p_memsz : ℕ
  deriving DecidableEq, Repr

/-- The fields of a section header that the loader uses. -/
structure Shdr where
  sh_name : ℕ
  sh_type : ℕ
  sh_addr : ℕ
  sh_offset : ℕ
  sh_size : ℕ
  deriving DecidableEq, Repr

/-- The header of a file that has all its bytes. -/
def header (c : Layout) (f : List UInt8) : Ehdr :=
  { e_entry := numAt f c.e_entry c.word
    e_phoff := numAt f c.e_phoff c.word
    e_shoff := numAt f c.e_shoff c.word
    e_phnum := numAt f c.e_phnum 2
    e_shnum := numAt f c.e_shnum 2
    e_shstrndx := numAt f c.e_shstrndx 2 }

/-- The tables of such a file. -/
def tables (c : Layout) (f : List UInt8) : Tables :=
  { c, f, ph := (header c f).e_phoff, sh := (header c f).e_shoff }

/-- How the fields that the loader reads follow each other in a structure. -/
structure Layout.Ordered (c : Layout) : Prop where
  word_pos : 0 < c.word
  p_offset : 4 ≤ c.p_offset
  p_paddr : c.p_offset + c.word ≤ c.p_paddr
  p_filesz : c.p_paddr + c.word ≤ c.p_filesz
  p_memsz : c.p_filesz + c.word ≤ c.p_memsz
  phdr : c.p_memsz + c.word ≤ c.phdr
  sh_addr : 8 ≤ c.sh_addr
  sh_offset : c.sh_addr + c.word ≤ c.sh_offset
  sh_size : c.sh_offset + c.word ≤ c.sh_size
  shdr : c.sh_size + c.word ≤ c.shdr
  small : c.phdr ≤ 64 ∧ c.shdr ≤ 64
  e_words : ∀ o ∈ [c.e_entry, c.e_phoff, c.e_shoff], o + c.word ≤ 64
  e_halves : ∀ o ∈ [c.e_phnum, c.e_shnum, c.e_shstrndx], o + 2 ≤ 64

theorem elf64_ordered : elf64.Ordered := by constructor <;> decide

theorem elf32_ordered : elf32.Ordered := by constructor <;> decide

namespace Tables

variable (t : Tables)

/-- Where the program header `i` starts. -/
def phdrOff (i : ℕ) : ℕ := t.ph + t.c.phdr * i

/-- Where the section header `i` starts. -/
def shdrOff (i : ℕ) : ℕ := t.sh + t.c.shdr * i

/-- The program header `i`; bytes outside of the file count as zero. -/
def phdr (i : ℕ) : Phdr :=
  { p_type := numAt t.f (t.phdrOff i) 4
    p_offset := numAt t.f (t.phdrOff i + t.c.p_offset) t.c.word
    p_paddr := numAt t.f (t.phdrOff i + t.c.p_paddr) t.c.word
    p_filesz := numAt t.f (t.phdrOff i + t.c.p_filesz) t.c.word
    p_memsz := numAt t.f (t.phdrOff i + t.c.p_memsz) t.c.word }

/-- The section header `i`; bytes outside of the file count as zero. -/
def shdr (i : ℕ) : Shdr :=
  { sh_name := numAt t.f (t.shdrOff i) 4
    sh_type := numAt t.f (t.shdrOff i + 4) 4
    sh_addr := numAt t.f (t.shdrOff i + t.c.sh_addr) t.c.word
    sh_offset := numAt t.f (t.shdrOff i + t.c.sh_offset) t.c.word
    sh_size := numAt t.f (t.shdrOff i + t.c.sh_size) t.c.word }

/-- The segment of the program header passes the check of its place in the file. -/
def PhdrFits (i : ℕ) : Prop :=
  t.c.wordAdd (t.phdr i).p_offset (t.phdr i).p_filesz ≤ t.sz

/-- The section passes the check of its place in the file. -/
def ShdrFits (i : ℕ) : Prop :=
  t.c.wordAdd (t.shdr i).sh_offset (t.shdr i).sh_size ≤ t.sz

/-- The bytes of a program header that the loop for the memory segments reads:
    the offset and the size for the check, then the type and the rest. -/
structure PhdrInside (i : ℕ) : Prop where
  check : Inside t.f (t.phdrOff i + t.c.p_offset) (t.c.p_filesz + t.c.word - t.c.p_offset)
  rest : t.PhdrFits i → Inside t.f (t.phdrOff i) (t.c.p_memsz + t.c.word)

/-- The bytes that the search for a section of a given name reads. -/
structure EndInside (shstrtab i : ℕ) (name : List UInt8) : Prop where
  sh_name : Inside t.f (t.shdrOff i) 4
  string : StrInside t.f (shstrtab + (t.shdr i).sh_name) name
  found : strAt t.f (shstrtab + (t.shdr i).sh_name) name = true →
    Inside t.f (t.shdrOff i + t.c.sh_addr) (t.c.sh_size + t.c.word - t.c.sh_addr)

instance (shstrtab i : ℕ) (name : List UInt8) : Decidable (t.EndInside shstrtab i name) :=
  decidable_of_iff (Inside t.f (t.shdrOff i) 4 ∧
      StrInside t.f (shstrtab + (t.shdr i).sh_name) name ∧
      (strAt t.f (shstrtab + (t.shdr i).sh_name) name = true →
        Inside t.f (t.shdrOff i + t.c.sh_addr) (t.c.sh_size + t.c.word - t.c.sh_addr)))
    ⟨fun h => ⟨h.1, h.2.1, h.2.2⟩, fun h => ⟨h.sh_name, h.string, h.found⟩⟩

/-- The names of the sections that hold static data. -/
def staticNames : List (List UInt8) := [bssName, textName, dataName]

section Reads

variable {t} (i : ℕ)

theorem p_type_eq : t.p_type i =
    if Inside t.f (t.phdrOff i) 4 then .ok (t.phdr i).p_type else .error .outside := readLE_eq _ _

theorem p_offset_eq : t.p_offset i = if Inside t.f (t.phdrOff i + t.c.p_offset) t.c.word then
    .ok (t.phdr i).p_offset else .error .outside := readLE_eq _ _

theorem p_paddr_eq : t.p_paddr i = if Inside t.f (t.phdrOff i + t.c.p_paddr) t.c.word then
    .ok (t.phdr i).p_paddr else .error .outside := readLE_eq _ _

theorem p_filesz_eq : t.p_filesz i = if Inside t.f (t.phdrOff i + t.c.p_filesz) t.c.word then
    .ok (t.phdr i).p_filesz else .error .outside := readLE_eq _ _

theorem p_memsz_eq : t.p_memsz i = if Inside t.f (t.phdrOff i + t.c.p_memsz) t.c.word then
    .ok (t.phdr i).p_memsz else .error .outside := readLE_eq _ _

theorem sh_name_eq : t.sh_name i =
    if Inside t.f (t.shdrOff i) 4 then .ok (t.shdr i).sh_name else .error .outside := readLE_eq _ _

theorem sh_type_eq : t.sh_type i =
    if Inside t.f (t.shdrOff i + 4) 4 then .ok (t.shdr i).sh_type else .error .outside :=
  readLE_eq _ _

theorem sh_addr_eq : t.sh_addr i = if Inside t.f (t.shdrOff i + t.c.sh_addr) t.c.word then
    .ok (t.shdr i).sh_addr else .error .outside := readLE_eq _ _

theorem sh_offset_eq : t.sh_offset i = if Inside t.f (t.shdrOff i + t.c.sh_offset) t.c.word then
    .ok (t.shdr i).sh_offset else .error .outside := readLE_eq _ _

theorem sh_size_eq : t.sh_size i = if Inside t.f (t.shdrOff i + t.c.sh_size) t.c.word then
    .ok (t.shdr i).sh_size else .error .outside := readLE_eq _ _

/-- The comparison of a section's name. -/
theorem named_eq (shstrtab : ℕ) (name : List UInt8) : t.named shstrtab i name =
    if Inside t.f (t.shdrOff i) 4 ∧ StrInside t.f (shstrtab + (t.shdr i).sh_name) name then
      .ok (strAt t.f (shstrtab + (t.shdr i).sh_name) name) else .error .outside := by
  rw [named, sh_name_eq]
  by_cases hname : Inside t.f (t.shdrOff i) 4
  · rw [if_pos hname]
    refine (compareStr_eq _ _).trans ?_
    by_cases hstr : StrInside t.f (shstrtab + (t.shdr i).sh_name) name
    · rw [if_pos hstr, if_pos ⟨hname, hstr⟩]
    · rw [if_neg hstr, if_neg (fun h => hstr h.2)]
  · rw [if_neg hname, if_neg (fun h => hname h.1)]
    rfl

end Reads

end Tables

end Elf

/-- Two fields with everything between them: the file is too short for the
    offsets to wrap around in it. -/
theorem inside_span {f : List UInt8} (hlen : f.length < 2 ^ 63) {a n o k : ℕ} (hn : 0 < n)
    (hk : 0 < k) (hspan : o + k ≤ 2 ^ 62) (hfirst : Inside f a n) (hlast : Inside f (a + o) k) :
    Inside f a (o + k) := by
  intro j hj
  have h₁ := hfirst 0 hn
  have h₂ := hlast (k - 1) (by omega)
  omega

namespace Elf

/-- Part of a block of the file, at an offset from another place. -/
theorem inside_part {f : List UInt8} {a o n p k : ℕ} (h : Inside f (a + o) n) (hlow : o ≤ p)
    (hhigh : p + k ≤ o + n) : Inside f (a + p) k := by
  have hin := Inside.sub (o := p - o) h (show p - o + k ≤ n by omega)
  rwa [show a + o + (p - o) = a + p by omega] at hin

/-- Two fields of a structure with everything between them. -/
theorem inside_fields {f : List UInt8} (hlen : f.length < 2 ^ 63) {a o n p k : ℕ} (hn : 0 < n)
    (hk : 0 < k) (hle : o ≤ p) (hsmall : p + k ≤ 64) (hfirst : Inside f (a + o) n)
    (hlast : Inside f (a + p) k) : Inside f (a + o) (p + k - o) := by
  rw [show p + k - o = p - o + k by omega]
  refine inside_span hlen hn hk (by omega) hfirst ?_
  rwa [show a + o + (p - o) = a + p by omega]

end Elf

namespace RevLoader

open Elf

variable {t : Tables}

/-- A pass of the loop for the memory segments. -/
theorem addSegment_avoids (hc : t.c.Ordered) (hlen : t.f.length < 2 ^ 63) (i : ℕ)
    (L : RevLoader) : Avoids Stray (addSegment t true i L) ↔ t.PhdrInside i := by
  unfold addSegment
  rw [Tables.p_offset_eq, avoids_read_bind, Tables.p_filesz_eq, avoids_read_bind,
    avoids_fatalIf_bind, avoids_bind, if_pos rfl, findTLS, Tables.p_type_eq, avoids_read_bind]
  simp only [Tables.p_memsz_eq, Tables.p_paddr_eq, avoids_read_bind, avoids_ite, avoids_ok,
    implies_true, and_true]
  have hword := hc.word_pos
  have hpaddr := hc.p_paddr
  have hfilesz := hc.p_filesz
  have hmemsz := hc.p_memsz
  have hphdr := hc.phdr
  have hsmall := hc.small.1
  constructor
  · rintro ⟨hoff, hsize, hrest⟩
    refine ⟨inside_fields hlen hword hword (by omega) (by omega) hoff hsize, ?_⟩
    intro hfits
    obtain ⟨⟨htype, htls⟩, hafter⟩ := hrest (Nat.not_lt.mpr hfits)
    refine inside_fields (o := 0) hlen (by omega) hword (by omega) (by omega) htype ?_
    by_cases hty : (t.phdr i).p_type = PT_TLS
    · exact (htls hty).2
    · refine (hafter L ?_).1
      rw [if_pos htype]
      exact if_neg hty
  · rintro ⟨hcheck, hall⟩
    have haddr : Inside t.f (t.phdrOff i + t.c.p_paddr) t.c.word :=
      inside_part hcheck (by omega) (by omega)
    refine ⟨inside_part hcheck (by omega) (by omega), inside_part hcheck (by omega) (by omega), ?_⟩
    intro hfits
    have hin := hall (Nat.not_lt.mp hfits)
    have htype : Inside t.f (t.phdrOff i) 4 := inside_part (a := t.phdrOff i) (o := 0) (p := 0) hin (by omega) (by omega)
    have hmem : Inside t.f (t.phdrOff i + t.c.p_memsz) t.c.word :=
      inside_part (o := 0) hin (by omega) (by omega)
    refine ⟨⟨htype, fun _ => ⟨haddr, hmem⟩⟩, ?_⟩
    intro L₁ _
    refine ⟨hmem, fun _ => ⟨haddr, ?_⟩⟩
    split <;> simp [Stray]

theorem sectionEnd_eq (hc : t.c.Ordered) (hlen : t.f.length < 2 ^ 63) (i : ℕ) :
    sectionEnd t i =
      if Inside t.f (t.shdrOff i + t.c.sh_addr) (t.c.sh_size + t.c.word - t.c.sh_addr) then
        .ok (t.c.wordAdd (t.shdr i).sh_addr (t.shdr i).sh_size) else .error .outside := by
  have hword := hc.word_pos
  have hoff := hc.sh_offset
  have hsize := hc.sh_size
  have hshdr := hc.shdr
  have hsmall := hc.small.2
  rw [sectionEnd, Tables.sh_addr_eq, Tables.sh_size_eq]
  by_cases hin : Inside t.f (t.shdrOff i + t.c.sh_addr) (t.c.sh_size + t.c.word - t.c.sh_addr)
  · rw [if_pos hin, if_pos (inside_part hin (by omega) (by omega)),
      if_pos (inside_part hin (by omega) (by omega))]
    rfl
  · rw [if_neg hin]
    by_cases h₁ : Inside t.f (t.shdrOff i + t.c.sh_addr) t.c.word
    · rw [if_pos h₁, if_neg]
      · rfl
      · intro h₂
        exact hin (inside_fields hlen hword hword (by omega) (by omega) h₁ h₂)
    · rw [if_neg h₁]
      rfl

/-- The end of a section, as the file gives it. -/
theorem noteEnd_eq (hc : t.c.Ordered) (hlen : t.f.length < 2 ^ 63) (shstrtab i : ℕ)
    (name : List UInt8) (set : ℕ → Ends) (E : Ends) :
    noteEnd t shstrtab i name set E = if t.EndInside shstrtab i name then
      .ok (if strAt t.f (shstrtab + (t.shdr i).sh_name) name then
        set (t.c.wordAdd (t.shdr i).sh_addr (t.shdr i).sh_size) else E)
      else .error .outside := by
  rw [noteEnd, Tables.named_eq]
  by_cases hname : Inside t.f (t.shdrOff i) 4 ∧ StrInside t.f (shstrtab + (t.shdr i).sh_name) name
  · rw [if_pos hname]
    show (if strAt t.f (shstrtab + (t.shdr i).sh_name) name = true then _ else _) = _
    by_cases hfound : strAt t.f (shstrtab + (t.shdr i).sh_name) name = true
    · rw [if_pos hfound, if_pos hfound, sectionEnd_eq hc hlen]
      by_cases hin : Inside t.f (t.shdrOff i + t.c.sh_addr) (t.c.sh_size + t.c.word - t.c.sh_addr)
      · rw [if_pos hin, if_pos ⟨hname.1, hname.2, fun _ => hin⟩]
        rfl
      · rw [if_neg hin, if_neg (fun h => hin (h.found hfound))]
        rfl
    · rw [if_neg hfound, if_neg hfound, if_pos ⟨hname.1, hname.2, fun h => absurd h hfound⟩]
  · rw [if_neg hname, if_neg (fun h => hname ⟨h.sh_name, h.string⟩)]
    rfl

/-- The loop that looks for the static sections. -/
theorem findEnd_avoids (hc : t.c.Ordered) (hlen : t.f.length < 2 ^ 63) (shstrtab n : ℕ) (E : Ends) :
    Avoids Stray (loop (findEnd t shstrtab) 0 n E) ↔
      ∀ i < n, ∀ name ∈ Tables.staticNames, t.EndInside shstrtab i name := by
  have hpass : ∀ i E, Avoids Stray (findEnd t shstrtab i E) →
      ∀ name ∈ Tables.staticNames, t.EndInside shstrtab i name := by
    intro i E h
    rw [findEnd, noteEnd_eq hc hlen, avoids_read_bind, noteEnd_eq hc hlen, avoids_read_bind] at h
    obtain ⟨hbss, htext, hdata⟩ := h
    have hlast : t.EndInside shstrtab i dataName := by
      by_contra hnot
      rw [noteEnd_eq hc hlen, if_neg hnot] at hdata
      simp [Stray] at hdata
    simpa [Tables.staticNames] using ⟨hbss, htext, hlast⟩
  have hok : ∀ i E, (∀ name ∈ Tables.staticNames, t.EndInside shstrtab i name) →
      ∃ E', findEnd t shstrtab i E = .ok E' := by
    intro i E h
    simp only [Tables.staticNames, List.mem_cons, List.not_mem_nil, or_false, forall_eq_or_imp,
      forall_eq] at h
    obtain ⟨hbss, htext, hdata⟩ := h
    simp only [findEnd, noteEnd_eq hc hlen, hbss, htext, hdata, if_true]
    exact ⟨_, rfl⟩
  have hall := avoids_loop_guard hpass hok (i := 0) (n := n) (a := E)
  simpa using hall

end RevLoader

end RevCPU
