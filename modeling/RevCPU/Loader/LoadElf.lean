import RevCPU.Loader.Elf

namespace RevCPU

open Lib

namespace RevMem

/-- The constructors of `RevMem` with `SetTLBSize` and `SetMaxHeapSize`, which
    take an `unsigned`. -/
def new (MemSize maxHeapSize tlbSize : UInt64) (ctrl : Option RevBasicMemCtrl) : RevMem :=
  let stacktop := (MemSize.toNat + W64 - 1024) % W64
  { memSize := MemSize.toNat
    tlbSize := tlbSize.toNat % 2 ^ 32
    maxHeapSize := maxHeapSize.toNat % 2 ^ 32
    ctrl
    ThreadMemSize := STACK_SIZE
    NextThreadMemAddr := (MemSize.toNat + W64 - 1024) % W64
    stacktop
    MemSegs := [MemSegment.new stacktop 1024 false] }

/-- `GetMemTop`. -/
def GetMemTop (m : RevMem) : ℕ := m.memSize

/-- `getLineSize`, with the line size that the controller reports. -/
def getLineSize (m : RevMem) (ctrlLineSize : ℕ) : ℕ := if m.ctrl.isSome then ctrlLineSize else 64

/-- The number of bytes that `WriteMem` takes from its buffer after the
    translation: with a controller both requests of a write that walks off its
    page carry `Len` bytes. -/
def bytesTaken (m : RevMem) (Len : ℕ) : Option (ℕ × ℕ) → ℕ
  | some (span, _) => if m.ctrl.isSome then headLen Len span + Len else Len
  | none => Len

/-- `WriteMem` of bytes that lie at `Total` in a buffer `Data`; they are read
    after the translation of the address. -/
def writeFrom (m : RevMem) (Addr Len : ℕ) (Data : ℕ → ℕ → Load (List UInt8)) (Total : ℕ) :
    Load RevMem :=
  match (m.RevokeFuture Addr).translate Addr Len with
  | none => .error .memory
  | some (_, adj, _) => do
    let bytes ← Data Total (m.bytesTaken Len adj)
    match m.WriteMem 0 Addr Len bytes with
    | none => .error .memory
    | some m => .ok m

/-- The line size of `WriteCacheLine`, 64 bytes by default. -/
def cacheLine (m : RevMem) (ctrlLineSize : ℕ) : ℕ :=
  let lineSize := m.getLineSize ctrlLineSize
  if lineSize = 0 then 64 else lineSize

/-- `TmpSize` in the loop of `WriteCacheLine`. -/
def lineChunk (lineSize rest : ℕ) : ℕ := if rest > lineSize then lineSize else rest

/-- The loop of `WriteCacheLine` over the lines after the first one; `fuel`
    bounds the number of lines. -/
def writeLines (lineSize Len : ℕ) (Data : ℕ → ℕ → Load (List UInt8)) :
    ℕ → RevMem → ℕ → ℕ → Load RevMem
  | 0, m, _, _ => .ok m
  | fuel + 1, m, TmpAddr, Total => do
    let TmpSize := lineChunk lineSize (Len - Total)
    let m ← m.writeFrom TmpAddr TmpSize Data Total
    if Total + TmpSize < Len then
      writeLines lineSize Len Data fuel m ((TmpAddr + TmpSize) % W64) (Total + TmpSize)
    else .ok m

/-- `WriteCacheLine`. -/
def WriteCacheLine (ctrlLineSize : ℕ) (m : RevMem) (Addr Len : ℕ)
    (Data : ℕ → ℕ → Load (List UInt8)) : Load RevMem :=
  if Len = 0 then .ok m
  else
    let lineSize := m.cacheLine ctrlLineSize
    if Len ≤ lineSize then m.writeFrom Addr Len Data 0
    else do
      let BaseCacheAddr := Addr - Addr % lineSize
      let TmpSize := BaseCacheAddr + lineSize - Addr
      let m ← m.writeFrom Addr TmpSize Data 0
      writeLines lineSize Len Data Len m ((Addr + TmpSize) % W64) TmpSize

end RevMem

/-- The fields of `ElfInfo` that the loader sets. -/
structure ElfInfo where
  phnum : ℕ := 0
  phent : ℕ := 0
  phdr : ℕ := 0
  phdr_size : ℕ := 0
  deriving DecidableEq, Repr

/-- The state of `RevLoader`; `lineSize` is the line size that the memory
    controller reports. -/
structure RevLoader where
  exe : List UInt8
  args : List UInt8
  lineSize : ℕ := 0
  mem : RevMem
  Entry : ℕ := 0
  TLSBaseAddr : ℕ := 0
  TLSSize : ℕ := 0
  elfinfo : ElfInfo := {}
  symtable : List (List UInt8 × ℕ) := []
  argv : List (List UInt8) := []

namespace RevLoader

open Elf

/-- Bytes of the file at a pointer. -/
def fileData (t : Tables) (ptr : ℕ) (o n : ℕ) : Load (List UInt8) :=
  readBytes t.f .outside (ptr + o) n

/-- Bytes of a buffer of the loader. -/
def bufData (buf : List UInt8) (o n : ℕ) : Load (List UInt8) := .ok ((buf.drop o).take n)

/-- The check for the TLS segment in the first loop over the program headers. -/
def findTLS (t : Tables) (i : ℕ) (L : RevLoader) : Load RevLoader := do
  let p_type ← t.p_type i
  if p_type = PT_TLS then do
    let p_paddr ← t.p_paddr i
    let p_memsz ← t.p_memsz i
    .ok { L with
      TLSBaseAddr := p_paddr
      TLSSize := p_memsz
      mem := L.mem.SetTLSInfo p_paddr p_memsz }
  else .ok L

/-- A pass of the loop that adds memory segments for the program headers; with
    `tls` it looks for the TLS segment. -/
def addSegment (t : Tables) (tls : Bool) (i : ℕ) (L : RevLoader) : Load RevLoader := do
  let p_offset ← t.p_offset i
  let p_filesz ← t.p_filesz i
  fatalIf (t.sz < t.c.wordAdd p_offset p_filesz)
  let L ← (if tls then findTLS t i L else .ok L)
  let p_memsz ← t.p_memsz i
  if p_memsz ≠ 0 then do
    let p_paddr ← t.p_paddr i
    match L.mem.AddRoundedMemSeg p_paddr p_memsz PAGE_SIZE with
    | none => .error .fatal
    | some (_, mem) => .ok { L with mem }
  else .ok L

/-- The ends of the static sections that the loader looks for. -/
structure Ends where
  BSSEnd : ℕ := 0
  TextEnd : ℕ := 0
  DataEnd : ℕ := 0
  deriving DecidableEq, Repr

def sectionEnd (t : Tables) (i : ℕ) : Load ℕ := do
  let sh_addr ← t.sh_addr i
  let sh_size ← t.sh_size i
  .ok (t.c.wordAdd sh_addr sh_size)

/-- The end of a section when it has the name, for the field that `set` sets. -/
def noteEnd (t : Tables) (shstrtab i : ℕ) (name : List UInt8) (set : ℕ → Ends) (E : Ends) :
    Load Ends := do
  let found ← t.named shstrtab i name
  if found then do
    let e ← sectionEnd t i
    .ok (set e)
  else .ok E

/-- A pass of the loop over the section headers that looks for the static
    sections. -/
def findEnd (t : Tables) (shstrtab i : ℕ) (E : Ends) : Load Ends := do
  let E ← noteEnd t shstrtab i bssName (fun e => { E with BSSEnd := e }) E
  let E ← noteEnd t shstrtab i textName (fun e => { E with TextEnd := e }) E
  noteEnd t shstrtab i dataName (fun e => { E with DataEnd := e }) E

/-- `StaticDataEnd`. -/
def staticDataEnd (E : Ends) : Load ℕ :=
  if E.BSSEnd > 0 then .ok E.BSSEnd
  else if E.DataEnd > 0 then .ok E.DataEnd
  else if E.TextEnd > 0 then .ok E.TextEnd
  else .error .fatal

/-- The bytes of the file of a loadable program header. -/
def loadBytes (t : Tables) (L : RevLoader) (i p_paddr p_filesz : ℕ) : Load RevMem :=
  if p_filesz ≠ 0 then do
    let p_offset ← t.p_offset i
    fatalIf (t.sz < t.c.wordAdd p_offset p_filesz)
    L.mem.WriteCacheLine L.lineSize p_paddr p_filesz (fileData t p_offset)
  else .ok L.mem

/-- A pass of the loop that loads the program headers. -/
def loadSegment (t : Tables) (i : ℕ) (L : RevLoader) : Load RevLoader := do
  let p_type ← t.p_type i
  if p_type = PT_LOAD then do
    let p_memsz ← t.p_memsz i
    if p_memsz ≠ 0 then do
      let p_filesz ← t.p_filesz i
      let p_paddr ← t.p_paddr i
      let mem ← loadBytes t L i p_paddr p_filesz
      let zeros ← sizeSub p_memsz p_filesz
      let mem ← mem.WriteCacheLine L.lineSize (t.c.wordAdd p_paddr p_filesz) zeros
        (bufData (List.replicate zeros 0))
      .ok { L with mem }
    else .ok L
  else .ok L

/-- `strtabidx` and `symtabidx`. -/
structure TabIdx where
  strtabidx : ℕ := 0
  symtabidx : ℕ := 0
  deriving DecidableEq, Repr

/-- A pass of the loop that checks the section headers and looks for the symbol
    table. -/
def checkSection (t : Tables) (shstrtab i : ℕ) (T : TabIdx) : Load TabIdx := do
  let sh_type ← t.sh_type i
  if sh_type &&& SHT_NOBITS ≠ 0 then .ok T
  else do
    let sh_offset ← t.sh_offset i
    let sh_size ← t.sh_size i
    fatalIf (t.sz < t.c.wordAdd sh_offset sh_size)
    let isStrtab ← t.named shstrtab i strtabName
    let T := if isStrtab then { T with strtabidx := i } else T
    let isSymtab ← t.named shstrtab i symtabName
    .ok (if isSymtab then { T with symtabidx := i } else T)

/-- `symtable[name] = value`. -/
def setSymbol (name : List UInt8) (value : ℕ) (s : List (List UInt8 × ℕ)) :
    List (List UInt8 × ℕ) :=
  (s.filter fun e => e.1 != name) ++ [(name, value)]

/-- A pass of the loop over the symbols. -/
def loadSymbol (t : Tables) (strtab sym strsize i : ℕ) (s : List (List UInt8 × ℕ)) :
    Load (List (List UInt8 × ℕ)) := do
  let st_name ← t.st_name sym i
  let maxlen ← sizeSub strsize st_name
  let maxlen := maxlen % 2 ^ 32
  fatalIf (st_name ≥ strsize)
  let len ← boundedLen t.f .outside (strtab + st_name) maxlen
  fatalIf (len ≥ maxlen)
  let name ← readBytes t.f .outside (strtab + st_name) len
  let value ← t.st_value sym i
  .ok (setSymbol name value s)

/-- The loop over the symbols. Its index has 32 bits: with 2^32 symbols or more
    it does not end. -/
def loadSymbols (t : Tables) (T : TabIdx) (s : List (List UInt8 × ℕ)) :
    Load (List (List UInt8 × ℕ)) :=
  if T.strtabidx ≠ 0 ∧ T.symtabidx ≠ 0 then do
    let strtab ← t.sh_offset T.strtabidx
    let sym ← t.sh_offset T.symtabidx
    let symsize ← t.sh_size T.symtabidx
    let count := symsize / t.c.sym
    if count = 0 then .ok s
    else do
      let strsize ← t.sh_size T.strtabidx
      let s ← loop (loadSymbol t strtab sym strsize) 0 (min count (2 ^ 32)) s
      if count ≥ 2 ^ 32 then .error .endless else .ok s
  else .ok s

/-- The second half of the load: the static sections, the program headers on
    the stack at `sp`, the segments, the section headers, the symbols and the
    heap. -/
def loadImage (t : Tables) (eh : Ehdr) (shstrtab : ℕ) (sp : RevMem → ℕ → ℕ) (L : RevLoader) :
    Load RevLoader := do
  let E ← loop (findEnd t shstrtab) 0 eh.e_shnum {}
  let StaticDataEnd ← staticDataEnd E
  fatalIf (t.sz < (eh.e_phoff + eh.e_phnum * t.c.phdr) % W64)
  let elfinfo : ElfInfo :=
    { phnum := eh.e_phnum, phent := t.c.phdr, phdr := eh.e_phoff,
      phdr_size := eh.e_phnum * t.c.phdr }
  let sp := sp L.mem elfinfo.phdr_size
  let mem ← L.mem.WriteCacheLine L.lineSize sp elfinfo.phdr_size (fileData t t.ph)
  let L := { L with elfinfo, mem := { mem with stacktop := sp } }
  let L ← loop (loadSegment t) 0 eh.e_phnum L
  fatalIf (t.sz < (eh.e_shoff + eh.e_shnum * t.c.shdr) % W64)
  fatalIf (eh.e_shstrndx ≥ eh.e_shnum)
  let sh_offset ← t.sh_offset eh.e_shstrndx
  let sh_size ← t.sh_size eh.e_shstrndx
  fatalIf (t.sz < t.c.wordAdd sh_offset sh_size)
  let T ← loop (checkSection t shstrtab) 0 eh.e_shnum {}
  let symtable ← loadSymbols t T L.symtable
  match L.mem.InitHeap StaticDataEnd with
  | none => .error .fatal
  | some mem => .ok { L with symtable, mem }

/-- `LoadElf64`. -/
def LoadElf64 (f : List UInt8) (L : RevLoader) : Load RevLoader := do
  let eh ← ehdr elf64 f
  let t : Tables := { c := elf64, f, ph := eh.e_phoff, sh := eh.e_shoff }
  let shstrtab ← t.sh_offset eh.e_shstrndx
  let L := { L with Entry := eh.e_entry }
  let L ← loop (addSegment t true) 0 eh.e_phnum L
  let L := { L with mem := L.mem.AddThreadMem.2 }
  loadImage t eh shstrtab (fun mem phdr_size => (mem.stacktop + W64 - phdr_size) % W64) L

/-- `LoadElf32`, which adds the memory segments a second time after the memory
    of the first thread and computes the stack pointer in 32 bits. -/
def LoadElf32 (f : List UInt8) (L : RevLoader) : Load RevLoader := do
  let eh ← ehdr elf32 f
  let t : Tables := { c := elf32, f, ph := eh.e_phoff, sh := eh.e_shoff }
  let shstrtab ← t.sh_offset eh.e_shstrndx
  let L := { L with Entry := eh.e_entry }
  let L ← loop (addSegment t true) 0 eh.e_phnum L
  let L := { L with mem := L.mem.AddThreadMem.2 }
  let L ← loop (addSegment t false) 0 eh.e_phnum L
  loadImage t eh shstrtab (fun mem phdr_size => (mem.stacktop + W64 - phdr_size) % 2 ^ 32) L

end RevLoader

end RevCPU
