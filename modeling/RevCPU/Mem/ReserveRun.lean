import Mathlib.Data.List.Nodup
import RevCPU.Lib.Run
import RevCPU.Lib.Since
import RevCPU.Mem.Reserve
import RevCPU.Mem.Translation

namespace RevCPU

open Lib

/-- The kinds of accesses that the law of the reservations speaks about; an AMO
    is a write. -/
inductive AccessKind
  | LR
  | SC
  | write
  deriving DecidableEq, Repr

/-- An access of hart `hart` of core `core`; `ok` is what `LRBase` and `SCBase`
    return. -/
structure Access where
  core : ℕ
  hart : ℕ
  addr : ℕ
  len : ℕ
  kind : AccessKind
  ok : Bool
  deriving DecidableEq, Repr

/-- Two ranges of 64-bit addresses have a byte in common. -/
def Overlap (a n b k : ℕ) : Prop :=
  ∃ i < n, ∃ j < k, (a + i) % W64 = (b + j) % W64

instance (a n b k : ℕ) : Decidable (Overlap a n b k) :=
  inferInstanceAs (Decidable (∃ i < n, ∃ j < k, (a + i) % W64 = (b + j) % W64))

theorem Overlap.mono {a n b k k' : ℕ} (hk : k ≤ k') (h : Overlap a n b k) : Overlap a n b k' := by
  obtain ⟨i, hi, j, hj, heq⟩ := h
  exact ⟨i, hi, j, by omega, heq⟩

namespace Access

def writes (x : Access) : Bool := x.kind == .write || x.kind == .SC && x.ok

/-- An LR of the hart to the address. -/
def Reserves (core hart addr : ℕ) (x : Access) : Prop :=
  x.kind = .LR ∧ x.core = core ∧ x.hart = hart ∧ x.addr = addr

/-- The access is no SC of the hart, and no write of another one to the bytes. -/
def Spares (core hart addr n : ℕ) (x : Access) : Prop :=
  ¬(x.kind = .SC ∧ x.core = core ∧ x.hart = hart) ∧
  ¬(x.writes = true ∧ ¬(x.core = core ∧ x.hart = hart) ∧ Overlap x.addr x.len addr n)

instance (core hart addr : ℕ) : DecidablePred (Reserves core hart addr) :=
  fun x => inferInstanceAs (Decidable (x.kind = .LR ∧ x.core = core ∧ x.hart = hart ∧ x.addr = addr))

instance (core hart addr n : ℕ) : DecidablePred (Spares core hart addr n) :=
  fun x => inferInstanceAs (Decidable (
    ¬(x.kind = .SC ∧ x.core = core ∧ x.hart = hart) ∧
    ¬(x.writes = true ∧ ¬(x.core = core ∧ x.hart = hart) ∧ Overlap x.addr x.len addr n)))

theorem Spares.mono {core hart addr n n' : ℕ} {x : Access} (hn : n ≤ n')
    (h : Spares core hart addr n' x) : Spares core hart addr n x :=
  ⟨h.1, fun hw => h.2 ⟨hw.1, hw.2.1, hw.2.2.mono hn⟩⟩

end Access

/-- The hart executed an LR to the address, and since then no SC, and no other
    hart wrote the `n` bytes there. -/
def Reserved (hist : List Access) (core hart addr n : ℕ) : Prop :=
  Since (Access.Spares core hart addr n) (Access.Reserves core hart addr) hist

instance (hist : List Access) (core hart addr n : ℕ) : Decidable (Reserved hist core hart addr n) :=
  inferInstanceAs (Decidable (Since _ _ hist))

/-- The core whose LR made the reservation: the last one that was granted. -/
def holder (hist : List Access) (r : Reservation) : Option ℕ :=
  (hist.find? fun x => x.kind == .LR && x.ok && x.hart == r.hart && x.addr == r.addr).map
    Access.core

/-- A call that the harts of the cores make on the memory that they share. The
    size of an LR, an SC or an AMO is 8 bytes or 4. `other` stands for all that
    happens between these calls: it changes the memory and the registers and
    leaves the reservations. -/
inductive ResCall
  | LR (core hart addr : ℕ) (wide : Bool) (Target aq rl : ℕ) (req : MemReq) (flags : RevFlag)
  | SC (core hart addr : ℕ) (wide : Bool) (Data Target : ℕ) (flags : RevFlag)
  | AMO (core hart addr : ℕ) (wide : Bool) (Data Target : ℕ) (req : MemReq) (flags : RevFlag)
  | store (core hart addr Len : ℕ) (Data : List UInt8) (flags : RevFlag)
  | other (mem : RevMem) (host : Host)

/-- `sizeof(T)` of the access. -/
def accessLen (wide : Bool) : ℕ := if wide then 8 else 4

theorem accessLen_le (wide : Bool) : accessLen wide ≤ 8 := by
  cases wide <;> decide

/-- The shared memory with the registers of all harts and the history of the
    accesses, newest first. -/
structure ResSys where
  mem : RevMem
  host : Host
  hist : List Access

namespace ResSys

def init (mem : RevMem) (host : Host) : ResSys := { mem, host, hist := [] }

def step (s : ResSys) : ResCall → Option ResSys
  | .LR c h a w t aq rl q f =>
    (s.mem.LRBase s.host h a (accessLen w) t aq rl q f).map fun (ok, mem, host) =>
      { mem, host, hist := ⟨c, h, a, accessLen w, .LR, ok⟩ :: s.hist }
  | .SC c h a w d t f =>
    (s.mem.SCBase s.host h a (accessLen w) d t f).map fun (ok, mem, host) =>
      { mem, host, hist := ⟨c, h, a, accessLen w, .SC, ok⟩ :: s.hist }
  | .AMO c h a w d t q f =>
    (s.mem.AMOMem s.host h a (accessLen w) d t q f).map fun (mem, host) =>
      { mem, host, hist := ⟨c, h, a, accessLen w, .write, true⟩ :: s.hist }
  | .store c h a n d f =>
    (s.mem.WriteMemFlags h a n d f).map fun mem =>
      { s with mem, hist := ⟨c, h, a, n, .write, true⟩ :: s.hist }
  | .other mem host => if mem.LRSC = s.mem.LRSC then some { s with mem, host } else none

/-- The law of LR and SC at a call: an SC that succeeds has a reservation. -/
def Atomic (s : ResSys) : ResCall → Prop
  | .SC c h a w d t f => ∀ mem host,
      s.mem.SCBase s.host h a (accessLen w) d t f = some (true, mem, host) →
      Reserved s.hist c h a (accessLen w)
  | _ => True

/-- A write of the hart meets no reservation of another hart. -/
def Undisturbed (s : ResSys) (core hart addr n : ℕ) : Prop :=
  ∀ r ∈ s.mem.LRSC, Overlap addr n r.addr 8 → r.hart = hart ∧ holder s.hist r = some core

/-- The condition on a call. A write meets no reservation of another hart. The
    hart of an SC holds no reservation of another address, and the reservation
    that the SC finds passes the test if and only if the core of the SC made
    it. -/
def Exclusive (s : ResSys) : ResCall → Prop
  | .SC c h a w d _ _ =>
      (∀ r ∈ s.mem.LRSC, r.hart = h → holder s.hist r = some c → r.addr = a) ∧
      ∀ r ∈ s.mem.LRSC, r.hart = h → r.addr = a →
        (RevMem.scTest s.host r.val d (accessLen w) = true ↔ holder s.hist r = some c) ∧
        (holder s.hist r = some c → s.Undisturbed c h a (accessLen w))
  | .AMO c h a w _ _ _ _ => s.Undisturbed c h a (accessLen w)
  | .store c h a n _ _ => s.Undisturbed c h a n
  | _ => True

instance (s : ResSys) (core hart addr n : ℕ) : Decidable (s.Undisturbed core hart addr n) :=
  inferInstanceAs (Decidable (∀ r ∈ s.mem.LRSC, _ → _))

instance (s : ResSys) : (call : ResCall) → Decidable (s.Exclusive call)
  | .SC _ _ _ _ _ _ _ => inferInstanceAs (Decidable ((∀ r ∈ s.mem.LRSC, _ → _) ∧
      ∀ r ∈ s.mem.LRSC, _ → _))
  | .AMO c h a w _ _ _ _ => inferInstanceAs (Decidable (s.Undisturbed c h a (accessLen w)))
  | .store c h a n _ _ => inferInstanceAs (Decidable (s.Undisturbed c h a n))
  | .LR _ _ _ _ _ _ _ _ _ => inferInstanceAs (Decidable True)
  | .other _ _ => inferInstanceAs (Decidable True)

/-- The invariant behind `Atomic`: no two reservations of an address, and each
    reservation is one of the core that made it. -/
structure Guarded (s : ResSys) : Prop where
  distinct : s.mem.LRSC.Pairwise fun r r' => r.addr ≠ r'.addr
  reserved : ∀ r ∈ s.mem.LRSC, ∃ c, holder s.hist r = some c ∧ Reserved s.hist c r.hart r.addr 8

end ResSys

/-- The access is an LR that made the reservation. -/
def Access.Grants (x : Access) (r : Reservation) : Prop :=
  x.kind = .LR ∧ x.ok = true ∧ x.hart = r.hart ∧ x.addr = r.addr

theorem holder_cons_of_not {x : Access} {r : Reservation} (hist : List Access)
    (hx : ¬x.Grants r) : holder (x :: hist) r = holder hist r := by
  have hfalse : (x.kind == .LR && x.ok && x.hart == r.hart && x.addr == r.addr) = false := by
    rw [Bool.eq_false_iff]
    intro htrue
    simp only [Bool.and_eq_true, beq_iff_eq] at htrue
    exact hx ⟨htrue.1.1.1, htrue.1.1.2, htrue.1.2, htrue.2⟩
  simp [holder, hfalse]

theorem holder_cons_of_grants {x : Access} {r : Reservation} (hist : List Access)
    (hx : x.Grants r) : holder (x :: hist) r = some x.core := by
  obtain ⟨hkind, hok, hhart, haddr⟩ := hx
  simp [holder, hkind, hok, hhart, haddr]

namespace ResSys

theorem Guarded.init {mem : RevMem} (hmem : mem.LRSC = []) (host : Host) :
    (init mem host).Guarded := by
  constructor
  case distinct => simp [ResSys.init, hmem]
  case reserved => simp [ResSys.init, hmem]

/-- An access that makes no reservation and spares those that are left keeps
    the invariant. -/
theorem Guarded.spared {s : ResSys} (h : s.Guarded) {mem : RevMem} (host : Host) {x : Access}
    (hsub : mem.LRSC.Sublist s.mem.LRSC)
    (hx : ∀ r ∈ mem.LRSC, ∀ c, holder s.hist r = some c →
      ¬x.Grants r ∧ x.Spares c r.hart r.addr 8) :
    Guarded { mem, host, hist := x :: s.hist } := by
  constructor
  case distinct => exact h.distinct.sublist hsub
  case reserved =>
    intro r hr
    obtain ⟨c, hc, hreserved⟩ := h.reserved r (hsub.subset hr)
    obtain ⟨hgrants, hspares⟩ := hx r hr c hc
    exact ⟨c, by rw [holder_cons_of_not _ hgrants, hc], Since.later hspares hreserved⟩

/-- A write that meets no reservation of another hart. -/
theorem spares_of_undisturbed {s : ResSys} {x : Access} {r : Reservation} {c : ℕ}
    (hkind : x.kind = .write) (hfree : s.Undisturbed x.core x.hart x.addr x.len)
    (hr : r ∈ s.mem.LRSC) (hc : holder s.hist r = some c) :
    ¬x.Grants r ∧ x.Spares c r.hart r.addr 8 := by
  refine ⟨fun hg => by simp [Access.Grants, hkind] at hg, fun hsc => by simp [hkind] at hsc, ?_⟩
  rintro ⟨-, hother, hoverlap⟩
  obtain ⟨hhart, hcore⟩ := hfree r hr hoverlap
  rw [hc, Option.some.injEq] at hcore
  exact hother ⟨hcore.symm, hhart.symm⟩

theorem Guarded.LR {s s' : ResSys} (h : s.Guarded) {c hart a t aq rl : ℕ} {w : Bool} {q : MemReq}
    {f : RevFlag} (hs : s.step (.LR c hart a w t aq rl q f) = some s') : s'.Guarded := by
  obtain ⟨⟨ok, mem, host⟩, hlr, rfl⟩ := Option.map_eq_some_iff.mp hs
  rcases RevMem.LRBase_cases hlr with ⟨rfl, hmem⟩ | ⟨rfl, hne, hmem⟩
  · refine h.spared host (by rw [hmem]) ?_
    intro r _ c' _
    exact ⟨fun hg => by simp [Access.Grants] at hg, by simp [Access.Spares, Access.writes]⟩
  · constructor
    case distinct =>
      simp only [hmem, List.pairwise_append, List.pairwise_singleton, List.mem_singleton,
        forall_eq, true_and]
      exact ⟨h.distinct, hne⟩
    case reserved =>
      intro r hr
      simp only [hmem, List.mem_append, List.mem_singleton] at hr
      rcases hr with hr | rfl
      · obtain ⟨c', hc', hreserved⟩ := h.reserved r hr
        refine ⟨c', ?_, Since.later (by simp [Access.Spares, Access.writes]) hreserved⟩
        rw [holder_cons_of_not, hc']
        exact fun hg => hne r hr hg.2.2.2.symm
      · exact ⟨c, holder_cons_of_grants _ ⟨rfl, rfl, rfl, rfl⟩, Since.now _ ⟨rfl, rfl, rfl, rfl⟩⟩

/-- After an SC that found its reservation no reservation of the address is
    left. -/
theorem ne_of_mem_eraseP {l : List Reservation} {hart a : ℕ}
    (hdistinct : l.Pairwise fun r r' => r.addr ≠ r'.addr) {r₀ : Reservation}
    (hfind : l.find? (RevMem.isFor hart a) = some r₀) {r : Reservation}
    (hr : r ∈ l.eraseP (RevMem.isFor hart a)) : r.addr ≠ a := by
  obtain ⟨hfor, l₁, l₂, rfl, hl₁⟩ := List.find?_eq_some_iff_append.mp hfind
  have haddr : r₀.addr = a := by
    simp only [RevMem.isFor, Bool.and_eq_true, beq_iff_eq] at hfor
    exact hfor.2
  rw [List.eraseP_append_right _ (by simpa using hl₁), List.eraseP_cons_of_pos hfor,
    List.mem_append] at hr
  rw [List.pairwise_append, List.pairwise_cons] at hdistinct
  rw [← haddr]
  rcases hr with hr | hr
  · exact hdistinct.2.2 r hr r₀ (by simp)
  · exact (hdistinct.2.1.1 r hr).symm

theorem isFor_iff {hart a : ℕ} {r : Reservation} :
    RevMem.isFor hart a r = true ↔ r.hart = hart ∧ r.addr = a := by
  simp [RevMem.isFor]

theorem Guarded.SC {s s' : ResSys} (h : s.Guarded) {c hart a d t : ℕ} {w : Bool} {f : RevFlag}
    (hok : s.Exclusive (.SC c hart a w d t f)) (hs : s.step (.SC c hart a w d t f) = some s') :
    s'.Guarded := by
  obtain ⟨hown, hfound⟩ := hok
  obtain ⟨⟨ok, mem, host⟩, hsc, rfl⟩ := Option.map_eq_some_iff.mp hs
  rcases RevMem.SCBase_cases hsc with ⟨rfl, hmem, hwhy⟩ | ⟨rfl, ⟨r₀, hr₀, htest⟩, hmem⟩
  · refine h.spared host (by rw [hmem]) ?_
    intro r hr c' hc'
    rw [hmem] at hr
    refine ⟨fun hg => by simp [Access.Grants] at hg, ?_, by simp [Access.writes]⟩
    rintro ⟨-, rfl, rfl⟩
    have haddr := hown r hr rfl hc'
    have hfor : RevMem.isFor r.hart a r = true := isFor_iff.mpr ⟨rfl, haddr⟩
    rcases hwhy with hnone | ⟨r₁, hr₁, htest⟩
    · rw [List.find?_eq_none] at hnone
      exact hnone r hr hfor
    · have hr₁a := (isFor_iff.mp (List.find?_some hr₁)).2
      have hnodup : (s.mem.LRSC.map Reservation.addr).Nodup := List.pairwise_map.mpr h.distinct
      have hsame : r₁ = r := List.inj_on_of_nodup_map hnodup (List.mem_of_find?_eq_some hr₁) hr
        (hr₁a.trans haddr.symm)
      have htrue := (hfound r hr rfl haddr).1.mpr hc'
      rw [hsame, htrue] at htest
      exact absurd htest (by simp)
  · refine h.spared host (by rw [hmem]; exact List.eraseP_sublist) ?_
    intro r hr c' hc'
    rw [hmem] at hr
    have hne := ne_of_mem_eraseP h.distinct hr₀ hr
    have hmem' := List.mem_of_mem_eraseP hr
    obtain ⟨hhart₀, haddr₀⟩ := isFor_iff.mp (List.find?_some hr₀)
    obtain ⟨hiff, hfree⟩ := hfound r₀ (List.mem_of_find?_eq_some hr₀) hhart₀ haddr₀
    refine ⟨fun hg => by simp [Access.Grants] at hg, ?_, ?_⟩
    · rintro ⟨-, rfl, rfl⟩
      exact hne (hown r hmem' rfl hc')
    · rintro ⟨-, hother, hoverlap⟩
      obtain ⟨hhart, hcore⟩ := hfree (hiff.mp htest) r hmem' hoverlap
      rw [hc', Option.some.injEq] at hcore
      exact hother ⟨hcore.symm, hhart.symm⟩

theorem Guarded.step {s s' : ResSys} {call : ResCall} (h : s.Guarded) (hok : s.Exclusive call)
    (hs : s.step call = some s') : s'.Guarded := by
  cases call with
  | LR c hart a w t aq rl q f => exact h.LR hs
  | SC c hart a w d t f => exact h.SC hok hs
  | AMO c hart a w d t q f =>
    obtain ⟨⟨mem, host⟩, hamo, rfl⟩ := Option.map_eq_some_iff.mp hs
    have hmem := RevMem.AMOMem_LRSC hamo
    refine h.spared host (by rw [hmem]) ?_
    intro r hr c' hc'
    exact spares_of_undisturbed rfl hok (by rwa [hmem] at hr) hc'
  | store c hart a n d f =>
    obtain ⟨mem, hwrite, rfl⟩ := Option.map_eq_some_iff.mp hs
    have hmem := RevMem.WriteMemFlags_LRSC hwrite
    refine h.spared s.host (by rw [hmem]) ?_
    intro r hr c' hc'
    exact spares_of_undisturbed rfl hok (by rwa [hmem] at hr) hc'
  | other mem host =>
    simp only [ResSys.step, Option.ite_none_right_eq_some, Option.some.injEq] at hs
    obtain ⟨hmem, rfl⟩ := hs
    constructor
    case distinct =>
      rw [hmem]
      exact h.distinct
    case reserved =>
      intro r hr
      exact h.reserved r (by rwa [hmem] at hr)

/-- A guarded state meets the law at the next call. -/
theorem Guarded.atomic {s : ResSys} {call : ResCall} (h : s.Guarded) (hok : s.Exclusive call) :
    s.Atomic call := by
  cases call with
  | SC c hart a w d t f =>
    intro mem host hsc
    rcases RevMem.SCBase_cases hsc with ⟨hfalse, -⟩ | ⟨-, ⟨r, hr, htest⟩, -⟩
    · cases hfalse
    · have hmem := List.mem_of_find?_eq_some hr
      obtain ⟨hhart, haddr⟩ := isFor_iff.mp (List.find?_some hr)
      have hcore := (hok.2 r hmem hhart haddr).1.mp htest
      obtain ⟨c', hc', hreserved⟩ := h.reserved r hmem
      rw [hcore, Option.some.injEq] at hc'
      rw [← hc', hhart, haddr] at hreserved
      exact hreserved.mono (fun x hx => hx.mono (accessLen_le w)) fun _ hx => hx
  | _ => trivial

/-- LR and SC are atomic in every run of calls that meet `Exclusive`, over a
    memory that starts with no reservation. -/
theorem sc_atomic {mem : RevMem} {host : Host} {tr : List (ResSys × ResCall)} {s : ResSys}
    (hmem : mem.LRSC = []) (hrun : Run step (init mem host) tr s)
    (hok : ∀ p ∈ tr, p.1.Exclusive p.2) : ∀ p ∈ tr, p.1.Atomic p.2 := by
  have hinv := hrun.invariant Guarded Exclusive (Guarded.init hmem host)
    (fun _ _ _ h hok hs => h.step hok hs) hok
  intro p hp
  exact (hinv.2 p hp).atomic (hok p hp)

/-- A memory of one page that holds ones, and registers that hold zero except
    register 2. -/
def onesMem : RevMem :=
  { RevMem.oneSegment RevMem.pageSize with physMem := fun _ => 1 }

def onesHost : Host := ⟨fun p i => if p = 2 ∧ i = 0 then 1 else 0, []⟩

def lrWord (core : ℕ) : ResCall := .LR core 0 64 false 1 0 0 {} .F_SEXT64

def scWord (core : ℕ) : ResCall := .SC core 0 64 false 2 3 .F_SEXT64

/-- Hart 1 of core 0 stores a word, at the same address or at another one. -/
def storeBetween (addr : ℕ) : ResCall := .store 0 1 addr 4 [7, 0, 0, 0] .F_NONE

/-- The calls up to the SC, what the SC returns and whether it has a
    reservation. -/
def scOutcome (core : ℕ) (calls : List ResCall) : Option (Option Bool × Bool) :=
  (exec step (init onesMem onesHost) calls).map fun s =>
    ((s.mem.SCBase s.host 0 64 4 2 3 .F_SEXT64).map Prod.fst, decide (Reserved s.hist core 0 64 4))

theorem not_atomic_of_scOutcome {core : ℕ} {calls : List ResCall}
    (h : scOutcome core calls = some (some true, false)) :
    ∃ tr s, Run step (init onesMem onesHost) tr s ∧ ∃ p ∈ tr, ¬p.1.Atomic p.2 := by
  obtain ⟨s, hexec, hout⟩ := Option.map_eq_some_iff.mp h
  simp only [Prod.mk.injEq, decide_eq_false_iff_not] at hout
  obtain ⟨hsc, hres⟩ := hout
  obtain ⟨⟨ok, mem, host⟩, hscbase, rfl⟩ := Option.map_eq_some_iff.mp hsc
  have hstep : s.step (scWord core) = some ⟨mem, host, ⟨core, 0, 64, 4, .SC, true⟩ :: s.hist⟩ :=
    Option.map_eq_some_iff.mpr ⟨_, hscbase, rfl⟩
  refine ⟨_, _, (run_of_exec calls hexec).snoc hstep, (s, scWord core),
    List.mem_append_right _ (List.mem_singleton.mpr rfl), ?_⟩
  intro hatomic
  exact hres (hatomic mem host hscbase)

/-- The store of another hart between the LR and the SC, and the SC of another
    core on the hart number of the LR: both SCs succeed. -/
theorem sc_after_store :
    (∃ tr s, Run step (init onesMem onesHost) tr s ∧ ∃ p ∈ tr, ¬p.1.Atomic p.2) ∧
    scOutcome 0 [lrWord 0, storeBetween 64] = some (some true, false) ∧
    scOutcome 1 [lrWord 0] = some (some true, false) := by
  have hstore : scOutcome 0 [lrWord 0, storeBetween 64] = some (some true, false) := by
    decide +kernel
  exact ⟨not_atomic_of_scOutcome hstore, hstore, by decide +kernel⟩

theorem sc_after_lr :
    ∃ tr s, Run step (init onesMem onesHost) tr s ∧
      (s.hist.map Access.ok = [true, true, true]) ∧ ∀ p ∈ tr, p.1.Atomic p.2 := by
  have hsome : ((exec step (init onesMem onesHost) [lrWord 0, storeBetween 128, scWord 0]).map
      fun s => s.hist.map Access.ok) = some [true, true, true] := by decide +kernel
  obtain ⟨s, hexec, hhist⟩ := Option.map_eq_some_iff.mp hsome
  have hrun := run_of_exec _ hexec
  refine ⟨_, s, hrun, hhist, sc_atomic rfl hrun ?_⟩
  decide +kernel

end ResSys

end RevCPU
