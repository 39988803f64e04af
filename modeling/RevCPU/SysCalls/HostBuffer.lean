import RevCPU.Proc.StoreRequests
import RevCPU.SysCalls.Write

namespace RevCPU

open Lib

namespace SysCalls

/-- The result of the host's `read` into a buffer of `size` bytes: the number it
    returns and the bytes it delivers, none at the end of the file and after an
    error. -/
structure HostRead (size : ℕ) where
  rc : ℤ
  data : List UInt8
  fits : data.length ≤ size
  count : data.length = rc.toNat

/-- `TmpBuf` after the call: it has been constructed with zeros. -/
def HostRead.TmpBuf {size : ℕ} (r : HostRead size) : List UInt8 :=
  r.data ++ List.replicate (size - r.data.length) 0

theorem HostRead.TmpBuf_length {size : ℕ} (r : HostRead size) : r.TmpBuf.length = size := by
  have hfits := r.fits
  simp only [TmpBuf, List.length_append, List.length_replicate]
  omega

/-- The calls of `sendWRITERequest` that have put these operations on the queue. -/
def writeCalls (ops : List RevMemOp) : List (ℕ × Call) :=
  ops.map fun op => (op.seq, .WRITE op.Hart op.Addr op.PAddr op.Size op.membuf op.flags)

namespace Machine

variable {κ : Type}

/-- The memory of the machine with its controller. -/
def memory (s : Machine κ) (e : Site) : RevMem :=
  { s.M with ctrl := if e.hasCtrl then some s.sys.ctrl else none }

/-- `WriteMem` of `n` bytes from an object of the host. -/
def WriteMem (s : Machine κ) (e : Site) (A n : ℕ) (Data : List UInt8) : Option (Machine κ) :=
  ((s.memory e).WriteMem e.HartToExecID A n Data).map fun M =>
    let ctrl := M.ctrl.getD s.sys.ctrl
    let sent := ctrl.rqstQ.drop s.sys.ctrl.rqstQ.length
    { s with
      M := { M with ctrl := none }
      sys := { s.sys with ctrl, issued := s.sys.issued ++ writeCalls sent } }

/-- `ECALL_read`; a file descriptor without access is a fatal error. -/
def ECALL_read (e : Site) (FindFD : ℤ → Bool) (read : ℤ → (size : ℕ) → HostRead size)
    (s : Machine κ) : Option (Machine κ × EcallStatus) :=
  let fd := (BitVec.ofNat 32 (s.X a0)).toInt
  let BufAddr := s.X a1
  let BufSize := s.X a2
  if FindFD fd then
    let r := read fd BufSize
    (s.WriteMem e BufAddr BufSize r.TmpBuf).map fun s =>
      ({ s with X := Function.update s.X a0 (intX e r.rc) }, .SUCCESS)
  else none

/-- `ECALL_getcwd`. `CWD` is the memory of the host from `CWD.c_str()` on. -/
def ECALL_getcwd (e : Site) (CWD : List UInt8) (s : Machine κ) :
    Option (Machine κ × EcallStatus) :=
  let BufAddr := s.X a0
  let size := s.X a1
  (s.WriteMem e BufAddr size CWD).map fun s => (s, .SUCCESS)

/-- The bytes of the memory; behind a controller these are given. -/
def contents (s : Machine κ) (e : Site) (mem : ℕ → UInt8) : ℕ → UInt8 :=
  if e.hasCtrl then mem else s.M.view

/-- The bytes of the memory after a call; the controller has sent the requests
    that the call has put on its queue. -/
def contentsAfter (s s' : Machine κ) (e : Site) (mem : ℕ → UInt8) : ℕ → UInt8 :=
  if e.hasCtrl then
    RevMemOp.applyStores mem (s'.sys.ctrl.rqstQ.drop s.sys.ctrl.rqstQ.length)
  else s'.M.view

/-- The memory serves a write: without a controller in at most two pages, with
    one in a single page. -/
structure Served (s : Machine κ) (e : Site) (A L : ℕ) : Prop where
  localMem : e.hasCtrl = false → { s.M with ctrl := none }.PageTableOk ∧
    { s.M with ctrl := none }.RangeOk A L ∧ s.M.HasRoom (RevMem.rangePages A L)
  ctrl : e.hasCtrl = true → (s.memory e).StaysOnPage A L ∧
    (((s.memory e).RevokeFuture A).translate A L).isSome = true

/-- The address is a segmentation fault: no segment has it, and the TLB has not kept
    it. -/
def Refuses (s : Machine κ) (A : ℕ) : Prop :=
  s.M.TLB.lookup A = none ∧ s.M.isValidVirtAddr A = false

theorem CalcPhysAddr_refused {m : RevMem} {p A : ℕ} (htlb : m.TLB.lookup A = none)
    (hvalid : m.isValidVirtAddr A = false) : m.CalcPhysAddr p A = none := by
  have hsearch : m.SearchTLB A = (RevMem.INVALID_ADDR, m) := by
    unfold RevMem.SearchTLB
    rw [htlb]
  unfold RevMem.CalcPhysAddr
  rw [hsearch]
  simp only [hvalid]
  rfl

theorem Refuses.translate {s : Machine κ} {A : ℕ} (h : s.Refuses A) (e : Site) (L : ℕ) :
    ((s.memory e).RevokeFuture A).translate A L = none := by
  have hcalc : ((s.memory e).RevokeFuture A).CalcPhysAddr (A / RevMem.pageSize) A = none :=
    CalcPhysAddr_refused h.1 h.2
  unfold RevMem.translate
  simp only [hcalc]

theorem Refuses.WriteMem {s : Machine κ} {A : ℕ} (h : s.Refuses A) (e : Site) (L : ℕ)
    (Data : List UInt8) : s.WriteMem e A L Data = none := by
  have htr := h.translate e L
  unfold Machine.WriteMem RevMem.WriteMem RevMem.WriteMemFlags
  simp only [htr, Option.map_none]

theorem Served.not_refuses {s : Machine κ} {e : Site} {A L : ℕ} (h : s.Served e A L) :
    ¬ s.Refuses A := by
  intro hrefuses
  cases hctrl : e.hasCtrl with
  | false =>
    have hstart : s.M.isValidVirtAddr A = true := (h.localMem hctrl).2.1.start
    rw [hrefuses.2] at hstart
    exact absurd hstart (by decide)
  | true =>
    have hsome := (h.ctrl hctrl).2
    rw [hrefuses.translate e L] at hsome
    exact absurd hsome (by decide)

theorem stored_take (mem : ℕ → UInt8) {A L : ℕ} {Data : List UInt8} (hlen : L ≤ Data.length) :
    (fun v => if A ≤ v ∧ v < A + L then Data.getD (v - A) 0 else mem v) =
      setBytes mem A (Data.take L) := by
  funext v
  unfold setBytes
  rw [List.length_take, Nat.min_eq_left hlen]
  split
  · rename_i hin
    rw [List.getD_eq_getElem?_getD, List.getD_eq_getElem?_getD, List.getElem?_take,
      if_pos (by omega)]
  · rfl

theorem copyBuf_congr {D D' : List UInt8} {n : ℕ} (h : ∀ i < n, D.getD i 0 = D'.getD i 0) :
    copyBuf D n = copyBuf D' n :=
  List.map_congr_left fun i hi => h i (List.mem_range.mp hi)

/-- A local write reads the bytes of its length only. -/
theorem WriteMemFlags_reads {m : RevMem} (hok : m.PageTableOk) {A L : ℕ} (hrange : m.RangeOk A L)
    (hroom : m.HasRoom (RevMem.rangePages A L)) (Hart : ℕ) (flags : RevFlag) {D D' : List UInt8}
    (h : D.take L = D'.take L) :
    m.WriteMemFlags Hart A L D flags = m.WriteMemFlags Hart A L D' flags := by
  have hget : ∀ i < L, D.getD i 0 = D'.getD i 0 := by
    intro i hi
    have hi' := congrArg (fun bs => bs[i]?.getD 0) h
    simp only [List.getElem?_take, if_pos hi] at hi'
    simpa only [List.getD_eq_getElem?_getD] using hi'
  obtain ⟨f, adj, m₁, htr, -, hmapped, -, hcase⟩ := RevMem.translate_mapped (hok.revoke A)
    (hroom.of_pageMap rfl rfl rfl) (hrange.congr fun _ => rfl) (Finset.Subset.refl _)
  have hctrl := hmapped.ok.ctrl
  unfold RevMem.WriteMemFlags
  rcases hcase with ⟨-, rfl⟩ | ⟨span, q, g, rfl, hpos, hspan, -, -⟩
  · simp only [htr, hctrl, copyBuf_congr hget]
  · have hoff := Nat.mod_lt A (by decide : 0 < RevMem.pageSize)
    have hle : span ≤ L := by omega
    have hback : copyBuf (D.drop (L - span)) span = copyBuf (D'.drop (L - span)) span := by
      refine copyBuf_congr fun i hi => ?_
      have hi' := hget (L - span + i) (by omega)
      simpa only [List.getD_eq_getElem?_getD, List.getElem?_drop] using hi'
    have hfront : copyBuf D (L - span) = copyBuf D' (L - span) :=
      copyBuf_congr fun i hi => hget i (by omega)
    simp only [htr, hctrl, RevMem.headLen_eq hle, hfront, hback]

/-- What a write does that is served: it stores the bytes of its length and reads
    no others. -/
theorem WriteMem_served {s : Machine κ} {e : Site} {A L : ℕ} (h : s.Served e A L)
    {Data : List UInt8} (hlen : L ≤ Data.length) :
    ∃ s', (∀ Data', Data'.take L = Data.take L → s.WriteMem e A L Data' = some s') ∧
      ∀ mem, s.contentsAfter s' e mem = setBytes (s.contents e mem) A (Data.take L) := by
  cases hctrl : e.hasCtrl with
  | false =>
    obtain ⟨hok, hrange, hroom⟩ := h.localMem hctrl
    have hmemory : s.memory e = { s.M with ctrl := none } := by
      rw [memory, hctrl]
      rfl
    obtain ⟨m', hwrite, -, -, -, hview⟩ := RevMem.WriteMemFlags_view hok
      (hroom.of_pageMap rfl rfl rfl) hrange (Finset.Subset.refl _) e.HartToExecID Data .F_NONE
    have hall : ∀ Data', Data'.take L = Data.take L →
        (s.memory e).WriteMem e.HartToExecID A L Data' = some m' := by
      intro Data' htake
      rw [hmemory, RevMem.WriteMem, WriteMemFlags_reads hok hrange (hroom.of_pageMap rfl rfl rfl)
        e.HartToExecID .F_NONE htake, hwrite]
    refine ⟨_, fun Data' htake => by rw [WriteMem, hall Data' htake]; rfl, fun mem => ?_⟩
    unfold contentsAfter contents
    rw [hctrl, ← stored_take _ hlen]
    exact funext hview
  | true =>
    obtain ⟨hstays, hsome⟩ := h.ctrl hctrl
    have hmemory : (s.memory e).ctrl = some s.sys.ctrl := by
      rw [memory, hctrl]
      rfl
    have htake : (Data.take L).length = L := by rw [List.length_take, Nat.min_eq_left hlen]
    have hrun : ∃ m', (s.memory e).WriteMem e.HartToExecID A L (Data.take L) = some m' := by
      obtain ⟨⟨p, adj, m₁⟩, htr⟩ := Option.isSome_iff_exists.mp hsome
      cases adj with
      | none => exact ⟨_, RevMem.WriteMemFlags_one hmemory htr _⟩
      | some r => exact ⟨_, RevMem.WriteMemFlags_two hmemory htr _⟩
    obtain ⟨m', hm'⟩ := hrun
    obtain ⟨⟨m₂, k', ops, hwrite, hk', hqueue, -, -, happly⟩, hreads⟩ :=
      (RevMem.stores_exactly_iff .WriteMem hmemory htake hm').mpr hstays
    have hall : ∀ Data', Data'.take L = Data.take L →
        (s.memory e).WriteMem e.HartToExecID A L Data' = some m₂ := by
      intro Data' hsame
      have hread := hreads (Data'.drop L)
      rw [← hsame, List.take_append_drop, hsame, hwrite] at hread
      exact hread
    refine ⟨_, fun Data' hsame => by rw [WriteMem, hall Data' hsame]; rfl, fun mem => ?_⟩
    unfold contentsAfter contents
    rw [if_pos hctrl, if_pos hctrl]
    simp only [hk', Option.getD_some, hqueue, List.drop_left]
    exact happly mem

/-- Outside of the `n` bytes at `A` the memory is as before. -/
def ChangesAtMost (s s' : Machine κ) (e : Site) (mem : ℕ → UInt8) (A n : ℕ) : Prop :=
  ∀ v, v < A ∨ A + n ≤ v → s.contentsAfter s' e mem v = s.contents e mem v

/-- A store of `L` bytes stays within `n` of them exactly when the others are
    in the memory already. -/
theorem setBytes_within_iff (mem : ℕ → UInt8) (A n : ℕ) (Data : List UInt8) :
    (∀ v, v < A ∨ A + n ≤ v → setBytes mem A Data v = mem v) ↔
      ∀ i, n ≤ i → i < Data.length → Data.getD i 0 = mem (A + i) := by
  constructor
  · intro h i hn hi
    have hv := h (A + i) (.inr (by omega))
    rw [setBytes, if_pos ⟨by omega, by omega⟩, Nat.add_sub_cancel_left] at hv
    exact hv
  · intro h v hv
    unfold setBytes
    split
    · rename_i hin
      have hi := h (v - A) (by omega) (by omega)
      rw [hi]
      congr 1
      omega
    · rfl

/-- A served write stays within `n` bytes. -/
theorem changesAtMost_iff {s s' : Machine κ} {e : Site} {mem : ℕ → UInt8} {A L : ℕ}
    {Data : List UInt8} (hlen : L ≤ Data.length)
    (hafter : s.contentsAfter s' e mem = setBytes (s.contents e mem) A (Data.take L)) (n : ℕ) :
    s.ChangesAtMost s' e mem A n ↔
      ∀ i, n ≤ i → i < L → Data.getD i 0 = s.contents e mem (A + i) := by
  unfold ChangesAtMost
  rw [hafter, setBytes_within_iff, List.length_take, Nat.min_eq_left hlen]
  refine forall_congr' fun i => forall_congr' fun _ => forall_congr' fun hi => ?_
  rw [List.getD_eq_getElem?_getD, List.getElem?_take, if_pos hi, ← List.getD_eq_getElem?_getD]

end Machine

/-- The system calls that pass on what the host produces. -/
inductive HostCall
  | read (FindFD : ℤ → Bool) (host : ℤ → (size : ℕ) → HostRead size)
  | getcwd (CWD : List UInt8)

namespace HostCall

variable {κ : Type}

/-- The path with its terminator and what follows it in the memory of the host. -/
def c_str (CWD : List UInt8) (tail : ℕ → UInt8) (size : ℕ) : List UInt8 :=
  CWD ++ 0 :: getBytes tail 0 size

/-- The handler. -/
def run (c : HostCall) (e : Site) (tail : ℕ → UInt8) (s : Machine κ) :
    Option (Machine κ × EcallStatus) :=
  match c with
  | .read FindFD host => s.ECALL_read e FindFD host
  | .getcwd CWD => s.ECALL_getcwd e (c_str CWD tail (s.X a1))

/-- The address of the buffer. -/
def addr (c : HostCall) (X : ℕ → ℕ) : ℕ :=
  match c with
  | .read _ _ => X a1
  | .getcwd _ => X a0

/-- The size of the buffer. -/
def size (c : HostCall) (X : ℕ → ℕ) : ℕ :=
  match c with
  | .read _ _ => X a2
  | .getcwd _ => X a1

/-- The number of bytes that the call produces. -/
def produced (c : HostCall) (X : ℕ → ℕ) : ℕ :=
  match c with
  | .read _ host => (host (Machine.fdOf X) (X a2)).rc.toNat
  | .getcwd CWD => min (X a1) (CWD.length + 1)

/-- The call changes at most the bytes that it produces, and reads nothing behind
    the terminator. -/
structure Within (c : HostCall) (e : Site) (s : Machine κ) (mem : ℕ → UInt8) : Prop where
  frame : ∀ tail s' status, c.run e tail s = some (s', status) →
    s.ChangesAtMost s' e mem (c.addr s.X) (c.produced s.X)
  reads : ∀ tail tail', c.run e tail s = c.run e tail' s

/-- What keeps a call within them: behind the bytes that are delivered the buffer
    is zero, and it ends with the terminator. -/
def Fits (c : HostCall) (e : Site) (s : Machine κ) (mem : ℕ → UInt8) : Prop :=
  match c with
  | .read FindFD host => FindFD (Machine.fdOf s.X) = true →
      ∀ i, (host (Machine.fdOf s.X) (s.X a2)).rc.toNat ≤ i → i < s.X a2 →
        s.contents e mem (s.X a1 + i) = 0
  | .getcwd CWD => s.X a1 ≤ CWD.length + 1

theorem TmpBuf_getD {size : ℕ} (r : HostRead size) {i : ℕ} (hi : r.rc.toNat ≤ i) :
    r.TmpBuf.getD i 0 = 0 := by
  have hcount := r.count
  rw [HostRead.TmpBuf, List.getD_eq_getElem?_getD, List.getElem?_append_right (by omega),
    List.getElem?_replicate]
  split <;> rfl

theorem length_le_c_str (CWD : List UInt8) (tail : ℕ → UInt8) (size : ℕ) :
    size ≤ (c_str CWD tail size).length := by
  simp only [c_str, List.length_append, List.length_cons, getBytes_length]
  omega

variable {e : Site} {s : Machine κ} {mem : ℕ → UInt8}

theorem read_within_iff (FindFD : ℤ → Bool) (host : ℤ → (size : ℕ) → HostRead size)
    (h : s.Served e (s.X a1) (s.X a2)) :
    (read FindFD host).Within e s mem ↔ (read FindFD host).Fits e s mem := by
  have hlen := (host (Machine.fdOf s.X) (s.X a2)).TmpBuf_length
  obtain ⟨s₁, hwrite, hafter⟩ := Machine.WriteMem_served h (Nat.le_of_eq hlen.symm)
  have hrun : ∀ tail, (read FindFD host).run e tail s =
      if FindFD (Machine.fdOf s.X) then
        some (({ s₁ with
          X := Function.update s₁.X a0 (Machine.intX e (host (Machine.fdOf s.X) (s.X a2)).rc) } :
            Machine κ), .SUCCESS)
      else none := by
    intro tail
    have hmem := hwrite _ rfl
    unfold Machine.fdOf at hmem ⊢
    unfold run Machine.ECALL_read
    simp only [hmem, Option.map_some]
  have hiff := Machine.changesAtMost_iff (Nat.le_of_eq hlen.symm) (hafter mem)
    (host (Machine.fdOf s.X) (s.X a2)).rc.toNat
  constructor
  · intro hwithin hfd i hi hlt
    have hframe := hwithin.frame (fun _ => 0) _ _ ((hrun _).trans (if_pos hfd))
    rw [← hiff.mp hframe i hi hlt, TmpBuf_getD _ hi]
  · intro hfits
    refine ⟨?_, fun _ _ => rfl⟩
    intro tail s' status hrun'
    rw [hrun tail] at hrun'
    split at hrun'
    · rename_i hfd
      obtain ⟨rfl, -⟩ := Prod.mk.inj (Option.some.inj hrun')
      exact hiff.mpr fun i hi hlt => by rw [TmpBuf_getD _ hi, hfits hfd i hi hlt]
    · exact absurd hrun' (by simp)

theorem getcwd_within_iff (CWD : List UInt8) (h : s.Served e (s.X a0) (s.X a1)) :
    (getcwd CWD).Within e s mem ↔ (getcwd CWD).Fits e s mem := by
  constructor
  · intro hwithin
    show s.X a1 ≤ CWD.length + 1
    by_contra hlong
    let old := s.contents e mem (s.X a0 + (CWD.length + 1))
    obtain ⟨s₁, hwrite, hafter⟩ :=
      Machine.WriteMem_served h (length_le_c_str CWD (fun _ => old + 1) (s.X a1))
    have hrun : (getcwd CWD).run e (fun _ => old + 1) s = some (s₁, .SUCCESS) := by
      unfold run Machine.ECALL_getcwd
      simp only [hwrite _ rfl, Option.map_some]
    have hbyte := (Machine.changesAtMost_iff (length_le_c_str CWD (fun _ => old + 1) (s.X a1))
      (hafter mem) _).mp (hwithin.frame _ _ _ hrun) (CWD.length + 1)
      (Nat.min_le_right _ _) (by omega)
    have hpos : 0 < s.X a1 := by omega
    rw [c_str, List.getD_eq_getElem?_getD, List.getElem?_append_right (by omega),
      Nat.add_sub_cancel_left, List.getElem?_cons_succ, ← List.getD_eq_getElem?_getD,
      getBytes_getD _ _ hpos] at hbyte
    exact absurd hbyte (by simp [old])
  · intro hfits
    have hle : s.X a1 ≤ CWD.length + 1 := hfits
    have htake : ∀ tail, (c_str CWD tail (s.X a1)).take (s.X a1) = (CWD ++ [0]).take (s.X a1) := by
      intro tail
      have hsplit : c_str CWD tail (s.X a1) = (CWD ++ [0]) ++ getBytes tail 0 (s.X a1) := by
        rw [c_str, List.append_assoc]
        rfl
      rw [hsplit, List.take_append_of_le_length (by simpa using hle)]
    obtain ⟨s₁, hwrite, hafter⟩ :=
      Machine.WriteMem_served h (length_le_c_str CWD (fun _ => 0) (s.X a1))
    have hrun : ∀ tail, (getcwd CWD).run e tail s = some (s₁, .SUCCESS) := by
      intro tail
      unfold run Machine.ECALL_getcwd
      simp only [hwrite _ ((htake tail).trans (htake _).symm), Option.map_some]
    refine ⟨?_, fun tail tail' => (hrun tail).trans (hrun tail').symm⟩
    intro tail s' status hrun'
    obtain ⟨rfl, -⟩ := Prod.mk.inj (Option.some.inj ((hrun tail).symm.trans hrun'))
    refine (Machine.changesAtMost_iff (length_le_c_str CWD (fun _ => 0) (s.X a1)) (hafter mem)
      _).mpr fun i hi hlt => ?_
    have hmin : produced (getcwd CWD) s.X = s.X a1 := Nat.min_eq_left hle
    omega

/-- A call on a buffer that is refused does not return. -/
theorem within_of_refuses (c : HostCall) (h : s.Refuses (c.addr s.X)) : c.Within e s mem := by
  have hrun : ∀ tail, c.run e tail s = none := by
    intro tail
    cases c with
    | read FindFD host =>
      have hnone := fun D => Machine.Refuses.WriteMem (A := s.X a1) h e (s.X a2) D
      unfold run Machine.ECALL_read
      simp only [hnone, Option.map_none, ite_self]
    | getcwd CWD =>
      have hnone := fun D => Machine.Refuses.WriteMem (A := s.X a0) h e (s.X a1) D
      unfold run Machine.ECALL_getcwd
      simp only [hnone, Option.map_none]
  refine ⟨?_, fun tail tail' => (hrun tail).trans (hrun tail').symm⟩
  intro tail s' status hsome
  rw [hrun tail] at hsome
  exact absurd hsome (by simp)

/-- A call whose buffer the memory refuses or serves stays within what it produces
    exactly when the buffer is refused or the call fits. -/
theorem within_iff (c : HostCall)
    (h : s.Refuses (c.addr s.X) ∨ s.Served e (c.addr s.X) (c.size s.X)) :
    c.Within e s mem ↔ s.Refuses (c.addr s.X) ∨ c.Fits e s mem := by
  rcases h with hrefuses | hserved
  · exact ⟨fun _ => .inl hrefuses, fun _ => within_of_refuses c hrefuses⟩
  · have hiff : c.Within e s mem ↔ c.Fits e s mem := by
      cases c with
      | read FindFD host => exact read_within_iff FindFD host hserved
      | getcwd CWD => exact getcwd_within_iff CWD hserved
    rw [hiff, or_iff_right hserved.not_refuses]

/-- The `ecall` without a controller. -/
def localSite : Site := { Machine.site with hasCtrl := false }

/-- A hart with these arguments of a system call. -/
def withArgs (M : RevMem) (args : List ℕ) : Machine Unit :=
  { Machine.machine Unit with M, X := fun r => args.getD (r - a0) 0 }

/-- A host that delivers a single byte. -/
def oneByte (_ : ℤ) (size : ℕ) : HostRead size :=
  if h : 1 ≤ size then ⟨1, [7], h, rfl⟩ else ⟨0, [], Nat.zero_le _, rfl⟩

/-- A host at the end of the file. -/
def endOfFile (_ : ℤ) (size : ℕ) : HostRead size := ⟨0, [], Nat.zero_le _, rfl⟩

theorem oneByte_within :
    (read (fun _ => true) oneByte).Within localSite (withArgs RevMem.pageMem [0, 64, 1])
      fun _ => 0 := by
  have hserved : (withArgs RevMem.pageMem [0, 64, 1]).Served localSite 64 1 := by
    refine ⟨fun _ => ⟨RevMem.pageMem_ok, RevMem.pageMem_range (by decide) (by decide), ?_⟩,
      fun h => absurd h (by decide)⟩
    unfold RevMem.HasRoom
    decide
  refine (within_iff _ (.inr hserved)).mpr (.inr ?_)
  intro _ i hle hlt
  exact absurd (Nat.lt_of_le_of_lt hle hlt) (by decide)

/-- A memory whose first page has the value 7 in every byte. -/
def page7 : RevMem :=
  { RevMem.pageMem with
    pageMap := [(0, 0)]
    nextPage := 1
    physMem := fun a => if a < RevMem.pageSize then 7 else 0 }

/-- At the end of the file `read` clears the buffer, and `getcwd` copies what follows
    the path `/` on the host. -/
theorem short_result_not_within :
    ¬ (read (fun _ => true) endOfFile).Within localSite (withArgs page7 [0, 64, 4]) (fun _ => 0) ∧
    ¬ (getcwd [47]).Within localSite (withArgs page7 [64, 4]) (fun _ => 0) := by
  constructor
  · intro h
    have hread : (((read (fun _ => true) endOfFile).run localSite (fun _ => 0)
        (withArgs page7 [0, 64, 4])).map fun p => p.1.M.view 64) = some 0 := by decide +kernel
    obtain ⟨⟨s', status⟩, hrun, hbyte⟩ := Option.map_eq_some_iff.mp hread
    have hframe := h.frame _ _ _ hrun 64 (.inr (by decide))
    have hkept : s'.M.view 64 = 7 := hframe
    exact absurd (hbyte.symm.trans hkept) (by decide)
  · intro h
    have hreads := congrArg (fun r => r.map fun p => p.1.M.view 66)
      (h.reads (fun _ => 1) fun _ => 2)
    exact absurd hreads (by decide +kernel)

end HostCall

end SysCalls

end RevCPU
