import RevCPU.Lib.Image
import RevCPU.Mem.Access
import RevCPU.Mem.Heap

namespace RevCPU

open Lib

/-- What ends a load. -/
inductive LoadFault
  | fatal
  | memory
  | outside
  | negative
  | endless
  deriving DecidableEq, Repr

abbrev Load := Except LoadFault

/-- `output->fatal` under a condition. -/
def fatalIf (c : Prop) [Decidable c] : Load Unit := if c then .error .fatal else .ok ()

/-- A size that is computed by a subtraction. -/
def sizeSub (a b : ℕ) : Load ℕ := if b ≤ a then .ok (a - b) else .error .negative

namespace Elf

/-- The layout of the structures of an ELF class: the size of an address in
    bytes, the size of each structure and the offset of each field in it. -/
structure Layout where
  word : ℕ
  e_entry : ℕ
  e_phoff : ℕ
  e_shoff : ℕ
  e_phnum : ℕ
  e_shnum : ℕ
  e_shstrndx : ℕ
  phdr : ℕ
  p_offset : ℕ
  p_paddr : ℕ
  p_filesz : ℕ
  p_memsz : ℕ
  shdr : ℕ
  sh_addr : ℕ
  sh_offset : ℕ
  sh_size : ℕ
  sym : ℕ
  st_value : ℕ
  deriving DecidableEq, Repr

/-- `Elf64_Ehdr`, `Elf64_Phdr`, `Elf64_Shdr` and `Elf64_Sym`. -/
def elf64 : Layout :=
  { word := 8
    e_entry := 24, e_phoff := 32, e_shoff := 40, e_phnum := 56, e_shnum := 60, e_shstrndx := 62
    phdr := 56, p_offset := 8, p_paddr := 24, p_filesz := 32, p_memsz := 40
    shdr := 64, sh_addr := 16, sh_offset := 24, sh_size := 32
    sym := 24, st_value := 8 }

/-- `Elf32_Ehdr`, `Elf32_Phdr`, `Elf32_Shdr` and `Elf32_Sym`. -/
def elf32 : Layout :=
  { word := 4
    e_entry := 24, e_phoff := 28, e_shoff := 32, e_phnum := 44, e_shnum := 48, e_shstrndx := 50
    phdr := 32, p_offset := 4, p_paddr := 12, p_filesz := 16, p_memsz := 20
    shdr := 40, sh_addr := 12, sh_offset := 16, sh_size := 20
    sym := 16, st_value := 4 }

def PT_LOAD : ℕ := 1
def PT_TLS : ℕ := 7
def SHT_NOBITS : ℕ := 8

/-- `__PAGE_SIZE__` of `RevMem.h`. -/
def PAGE_SIZE : ℕ := 4096

namespace Layout

/-- The sum of two words. -/
def wordAdd (c : Layout) (a b : ℕ) : ℕ := (a + b) % 2 ^ (8 * c.word)

end Layout

/-- The fields of the ELF header that the loader uses. -/
structure Ehdr where
  e_entry : ℕ
  e_phoff : ℕ
  e_shoff : ℕ
  e_phnum : ℕ
  e_shnum : ℕ
  e_shstrndx : ℕ
  deriving DecidableEq, Repr

/-- A number of the file; the file image is the mapping of the whole file. -/
def read (f : List UInt8) (off n : ℕ) : Load ℕ := readLE f .outside off n

/-- The ELF header at the start of the file. -/
def ehdr (c : Layout) (f : List UInt8) : Load Ehdr := do
  let e_entry ← read f c.e_entry c.word
  let e_phoff ← read f c.e_phoff c.word
  let e_shoff ← read f c.e_shoff c.word
  let e_phnum ← read f c.e_phnum 2
  let e_shnum ← read f c.e_shnum 2
  let e_shstrndx ← read f c.e_shstrndx 2
  .ok { e_entry, e_phoff, e_shoff, e_phnum, e_shnum, e_shstrndx }

/-- The file, its layout and the pointers `ph` and `sh` into it. -/
structure Tables where
  c : Layout
  f : List UInt8
  ph : ℕ
  sh : ℕ
  deriving DecidableEq, Repr

namespace Tables

variable (t : Tables)

def sz : ℕ := t.f.length

def p_type (i : ℕ) : Load ℕ := read t.f (t.ph + t.c.phdr * i) 4
def p_offset (i : ℕ) : Load ℕ := read t.f (t.ph + t.c.phdr * i + t.c.p_offset) t.c.word
def p_paddr (i : ℕ) : Load ℕ := read t.f (t.ph + t.c.phdr * i + t.c.p_paddr) t.c.word
def p_filesz (i : ℕ) : Load ℕ := read t.f (t.ph + t.c.phdr * i + t.c.p_filesz) t.c.word
def p_memsz (i : ℕ) : Load ℕ := read t.f (t.ph + t.c.phdr * i + t.c.p_memsz) t.c.word

def sh_name (i : ℕ) : Load ℕ := read t.f (t.sh + t.c.shdr * i) 4
def sh_type (i : ℕ) : Load ℕ := read t.f (t.sh + t.c.shdr * i + 4) 4
def sh_addr (i : ℕ) : Load ℕ := read t.f (t.sh + t.c.shdr * i + t.c.sh_addr) t.c.word
def sh_offset (i : ℕ) : Load ℕ := read t.f (t.sh + t.c.shdr * i + t.c.sh_offset) t.c.word
def sh_size (i : ℕ) : Load ℕ := read t.f (t.sh + t.c.shdr * i + t.c.sh_size) t.c.word

def st_name (sym i : ℕ) : Load ℕ := read t.f (sym + t.c.sym * i) 4
def st_value (sym i : ℕ) : Load ℕ := read t.f (sym + t.c.sym * i + t.c.st_value) t.c.word

/-- `strcmp` of the name of a section with a constant. -/
def named (shstrtab : ℕ) (i : ℕ) (name : List UInt8) : Load Bool := do
  let sh_name ← t.sh_name i
  compareStr t.f .outside (shstrtab + sh_name) name

end Tables

/-- `.bss`, `.text`, `.data`, `.strtab` and `.symtab` as bytes. -/
def bssName : List UInt8 := [46, 98, 115, 115]
def textName : List UInt8 := [46, 116, 101, 120, 116]
def dataName : List UInt8 := [46, 100, 97, 116, 97]
def strtabName : List UInt8 := [46, 115, 116, 114, 116, 97, 98]
def symtabName : List UInt8 := [46, 115, 121, 109, 116, 97, 98]

/-- The bytes of an `Elf64_Ehdr`. -/
def ehdr64 (eh : Ehdr) : List UInt8 :=
  [0x7f, 69, 76, 70, 2, 1, 1, 0] ++ List.replicate 8 0 ++ leBytes 2 2 ++ leBytes 2 243 ++
    leBytes 4 1 ++ leBytes 8 eh.e_entry ++ leBytes 8 eh.e_phoff ++ leBytes 8 eh.e_shoff ++
    leBytes 4 0 ++ leBytes 2 64 ++ leBytes 2 56 ++ leBytes 2 eh.e_phnum ++ leBytes 2 64 ++
    leBytes 2 eh.e_shnum ++ leBytes 2 eh.e_shstrndx

/-- The bytes of an `Elf64_Phdr`. -/
def phdr64 (p_type p_offset p_paddr p_filesz p_memsz : ℕ) : List UInt8 :=
  leBytes 4 p_type ++ leBytes 4 5 ++ leBytes 8 p_offset ++ leBytes 8 p_paddr ++
    leBytes 8 p_paddr ++ leBytes 8 p_filesz ++ leBytes 8 p_memsz ++ leBytes 8 4096

/-- The bytes of an `Elf64_Shdr`. -/
def shdr64 (sh_name sh_type sh_addr sh_offset sh_size : ℕ) : List UInt8 :=
  leBytes 4 sh_name ++ leBytes 4 sh_type ++ leBytes 8 0 ++ leBytes 8 sh_addr ++
    leBytes 8 sh_offset ++ leBytes 8 sh_size ++ leBytes 4 0 ++ leBytes 4 0 ++ leBytes 8 1 ++
    leBytes 8 0

/-- The names of a text section and of the table of the section names. -/
def sectionNames : List UInt8 :=
  0 :: textName ++ 0 :: [46, 115, 104, 115, 116, 114, 116, 97, 98, 0]

/-- An executable file with the given program headers: the header, the program
    headers, the headers of a text section from `textAddr` on and of the section
    names, the names and 16 bytes of code. -/
def textFile (phdrs : List (List UInt8)) (textAddr : ℕ) : List UInt8 :=
  let e_shoff := 64 + 56 * phdrs.length
  ehdr64 { e_entry := textAddr, e_phoff := 64, e_shoff, e_phnum := phdrs.length, e_shnum := 2,
           e_shstrndx := 1 } ++ phdrs.flatten ++
    shdr64 1 1 textAddr (e_shoff + 128) 16 ++ shdr64 7 3 0 (e_shoff + 128) 17 ++ sectionNames ++
    List.replicate 16 19

/-- A file with one segment of 32 bytes at 0x10000, 16 of them in the file. -/
def oneSegmentFile : List UInt8 := textFile [phdr64 PT_LOAD 265 0x10000 16 32] 0x10000

end Elf

end RevCPU
