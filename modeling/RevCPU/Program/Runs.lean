import RevCPU.Lib.Progress
import RevCPU.Program.Fetching
import RevCPU.Program.Refines

namespace RevCPU.Program

open RevCPU.Lib RevCPU.Isa

/-- XLEN of a machine. -/
def XLEN (f : Isa.RevFeature) : ℕ := if f.IsRV64 then 64 else 32

/-- The instruction at the PC can be fetched: its words and those that are read
    ahead of it are code, and its words are not the value that stands for a word
    that has not come. -/
structure Fetches {n : ℕ} (depth : ℕ) (Code : ℕ → Prop) (s : Arch n) : Prop where
  even : s.int.pc.toNat % 2 = 0
  ahead : ∀ v, s.int.pc.toNat / 4 * 4 ≤ v → v < s.int.pc.toNat / 4 * 4 + 4 * depth + 4 → Code v
  filled : ∀ i ≤ 1, leNat (getBytes s.mem (s.int.pc.toNat / 4 * 4 + 4 * i) 4) ≠ 0xDEADBEEF

/-- A step of the specification: a program ends at address 0, where it stays. -/
def Step (f : Isa.RevFeature) (depth : ℕ) (V Code : ℕ → Prop) (s s' : Arch (XLEN f)) : Prop :=
  s.int.pc = 0 ∧ s' = s ∨
  s.int.pc ≠ 0 ∧ Fetches depth Code s ∧
    ∃ t : Inst, t.enabled f = true ∧ InstWord f.IsRV64 s.word t ∧ Permitted V Code s t ∧
      s' = s.exec t

namespace OneHart

/-- The allocator gives the streams of the tick memory that no stream has. -/
def Fresh (s : OneHart) (bufs : ℕ × ℕ) : Prop :=
  ∀ st ∈ s.sfetch.streams, st.buf ≠ bufs.1 ∧ st.buf ≠ bufs.2

/-- The words of a program that no stream has. -/
def missing (s : OneHart) : ℕ := s.sfetch.missing s.core.R.PC

/-- The core shows a state of the specification, its memory is accessible, and
    its prefetcher holds the words of the code as they were loaded. -/
structure Follows {n : ℕ} (depth : ℕ) (V Code : ℕ → Prop) (mem : ℕ → UInt8) (s : OneHart)
    (a : Arch n) : Prop where
  shows : Shows s.core a
  memory : s.core.M.Writable V
  ctrl : s.core.M.ctrl = none
  sfetch : s.sfetch.Idle (fun v => (mem v).toBitVec) depth
  code : ∀ v, Code v → a.mem v = mem v

end OneHart

section Words

/-- A word of the prefetcher is the word of the memory. -/
theorem memWord_toNat (g : ℕ → UInt8) {A : ℕ} (hA : A + 4 ≤ W64) :
    (memWord (fun v => (g v).toBitVec) A).toNat = leNat (getBytes g A 4) := by
  have hmod : ∀ i < 4, (A + i) % W64 = A + i := fun i hi => Nat.mod_eq_of_lt (by omega)
  have h0 := hmod 0 (by decide)
  have h1 := hmod 1 (by decide)
  have h2 := hmod 2 (by decide)
  have h3 := hmod 3 (by decide)
  have hbytes : getBytes g A 4 = [g A, g (A + 1), g (A + 2), g (A + 3)] := rfl
  have happend : ∀ {n : ℕ} (x : BitVec n) (y : BitVec n),
      (x ++ y).toNat = x.toNat * 2 ^ n + y.toNat := by
    intro n x y
    rw [BitVec.toNat_append, ← Nat.shiftLeft_add_eq_or_of_lt y.isLt, Nat.shiftLeft_eq]
  rw [Nat.add_zero] at h0
  simp only [memWord, memHalf, happend, Nat.add_assoc, Nat.reduceAdd, h0, h1, h2, h3, hbytes, leNat,
    UInt8.toNat_toBitVec]
  omega

variable {n depth : ℕ} {Code : ℕ → Prop} {s : Arch n} {mem : ℕ → UInt8}

/-- The words that are read for the instruction are those of the code. -/
theorem Fetches.fillWords (h : Fetches depth Code s) (hbound : ∀ v, Code v → v + 1 < W64) {A v : ℕ}
    (hA : A = s.int.pc.toNat ∨ A = (s.int.pc.toNat + 2) % W64)
    (hv : v ∈ RevPrefetcher.fillWords depth A) : v % 4 = 0 ∧ ∀ i < 4, Code (v + i) := by
  refine ⟨RevPrefetcher.fillWords_aligned hv, ?_⟩
  obtain ⟨y, hy, rfl⟩ := List.mem_map.mp hv
  rw [List.mem_range] at hy
  have hlast := hbound _ (h.ahead (s.int.pc.toNat / 4 * 4 + 4 * depth + 3) (by omega) (by omega))
  have heven := h.even
  have hAlt : A < W64 := by
    rcases hA with rfl | rfl
    · omega
    · exact Nat.mod_lt _ (by decide)
  have hcase : A = s.int.pc.toNat ∨ A = s.int.pc.toNat + 2 := by
    rcases hA with hA | hA
    · exact .inl hA
    · refine .inr (hA.trans (Nat.mod_eq_of_lt ?_))
      omega
  rw [RevPrefetcher.align_of_lt hAlt]
  have hword : (A - A % 4 + y * 4) % W64 = A - A % 4 + y * 4 := Nat.mod_eq_of_lt (by omega)
  intro i hi
  rw [hword]
  exact h.ahead _ (by omega) (by omega)

theorem Fetches.sameWords (h : Fetches depth Code s) (hbound : ∀ v, Code v → v + 1 < W64)
    (hcode : ∀ v, Code v → s.mem v = mem v) {A : ℕ}
    (hA : A = s.int.pc.toNat ∨ A = (s.int.pc.toNat + 2) % W64) :
    RevPrefetcher.SameWords depth (fun v => (s.mem v).toBitVec) (fun v => (mem v).toBitVec) A := by
  intro v hv
  obtain ⟨-, hin⟩ := h.fillWords hbound hA hv
  have hlt := hbound _ (hin 3 (by decide))
  have hbytes : getBytes s.mem v 4 = getBytes mem v 4 :=
    List.map_congr_left fun i hi => hcode _ (hin i (List.mem_range.mp hi))
  apply BitVec.eq_of_toNat_eq
  rw [memWord_toNat _ (by omega), memWord_toNat _ (by omega), hbytes]

/-- The words of the instruction are there once they have been read. -/
theorem Fetches.fetchable (h : Fetches depth Code s) (hdepth : 0 < depth)
    (hsmall : depth * 4 < 2 ^ 32) (hbound : ∀ v, Code v → v + 1 < W64)
    (hcode : ∀ v, Code v → s.mem v = mem v) :
    RevPrefetcher.Fetchable (fun v => (mem v).toBitVec) depth s.int.pc.toNat := by
  have hlast := hbound _ (h.ahead (s.int.pc.toNat / 4 * 4 + 4 * depth + 3) (by omega) (by omega))
  have heven := h.even
  have hword : ∀ i ≤ 1, memWord (fun v => (mem v).toBitVec) (s.int.pc.toNat / 4 * 4 + 4 * i) ≠
      REVPREF_INIT_ADDR := by
    intro i hi habs
    have hbytes : getBytes s.mem (s.int.pc.toNat / 4 * 4 + 4 * i) 4 =
        getBytes mem (s.int.pc.toNat / 4 * 4 + 4 * i) 4 :=
      List.map_congr_left fun j hj => hcode _ (h.ahead _ (by omega) (by
        have hj' := List.mem_range.mp hj
        omega))
    have hnat := congrArg BitVec.toNat habs
    rw [memWord_toNat _ (by omega), ← hbytes] at hnat
    exact h.filled i hi hnat
  intro a ha
  have hmod : depth * 4 % 2 ^ 32 = depth * 4 := Nat.mod_eq_of_lt hsmall
  have hcases : ∃ i ≤ 1, a - a % 4 = s.int.pc.toNat / 4 * 4 + 4 * i := by
    unfold RevPrefetcher.halves at ha
    split at ha
    · rw [List.mem_singleton] at ha
      exact ⟨0, by decide, by omega⟩
    · rw [List.mem_cons, List.mem_singleton] at ha
      rcases ha with rfl | rfl
      · exact ⟨0, by decide, by omega⟩
      · refine ⟨1, Nat.le_refl _, ?_⟩
        rw [Nat.mod_eq_of_lt (by omega)]
        omega
  obtain ⟨i, hi, hai⟩ := hcases
  refine ⟨hai ▸ hword i hi, by omega, ?_⟩
  rw [hmod, hai]
  omega

end Words

/-- A permitted instruction does not change the code. -/
theorem Permitted.code {n : ℕ} {V Code : ℕ → Prop} {s : Arch n} {t : Inst}
    (h : Permitted V Code s t) {v : ℕ} (hv : Code v) : (s.exec t).mem v = s.mem v := by
  cases t with
  | store t rs1 rs2 offset =>
    change setBytes s.mem (s.addr rs1 offset) (leBytes t.size (s.int.x rs2).toNat) v = s.mem v
    rw [setBytes, leBytes_length]
    refine if_neg fun hin => ?_
    exact h.apart rfl v hin.1 hin.2 hv
  | _ => rfl

theorem InstWord.ne_zero {rv64 : Bool} {w : ℕ} {t : Inst} (h : InstWord rv64 w t) : w ≠ 0 := by
  rintro rfl
  cases h with
  | int t h =>
    cases h with
    | opImm op W hop => cases W <;> simp at hop
    | opReg op W hop => cases W <;> simp at hop
    | branch op hop => simp at hop
    | _ hop => simp at hop
  | load l hop => simp at hop
  | store t hop => simp at hop
  | mulDiv op W hop => cases W <;> simp at hop

namespace OneHart

section Tick

variable {f : Isa.RevFeature} {n depth : ℕ} {V Code : ℕ → Prop} {mem : ℕ → UInt8} {s : OneHart}
  {a : Arch n}

theorem Follows.bytes_eq (h : s.Follows depth V Code mem a) :
    s.bytes = fun v => (a.mem v).toBitVec := by
  rw [← h.shows.mem]
  rfl

/-- A call of the prefetcher whose reads are accessible. -/
theorem Follows.fetchCall (h : s.Follows depth V Code mem a) {e : FetchEvent}
    {pref : RevPrefetcher} (hstep : s.sfetch.step s.bytes e = some pref)
    (hwords : ∀ A, s.sfetch.fillOf e = some A → ∀ v ∈ RevPrefetcher.fillWords depth A,
      v % 4 = 0 ∧ ∀ i < 4, V (v + i)) :
    ∃ M, s.fetchCall e = some ⟨{ s.core with M }, pref⟩ ∧ M.ctrl = none ∧ M.Writable V ∧
      M.view = s.core.M.view := by
  unfold OneHart.fetchCall MappedFetch.step
  cases hfill : s.sfetch.fillOf e with
  | none =>
    simp only [hstep, Option.map_some]
    exact ⟨s.core.M, rfl, h.ctrl, h.memory, rfl⟩
  | some A =>
    obtain ⟨M, hread, hctrl, hM, hview⟩ := h.memory.readWords h.ctrl
      (fun v hv => (hwords A hfill v hv).1) fun v hv => (hwords A hfill v hv).2
    simp only [hstep, h.sfetch.depth_eq, hread, Option.map_some]
    exact ⟨M, rfl, hctrl, hM, hview⟩

/-- Reading the memory for the prefetcher leaves what the core shows. -/
theorem Follows.fetched (h : s.Follows depth V Code mem a) {M : RevMem} (hctrl : M.ctrl = none)
    (hM : M.Writable V) (hview : M.view = s.core.M.view) {pref : RevPrefetcher}
    (hpref : pref.Idle (fun v => (mem v).toBitVec) depth) :
    Follows depth V Code mem ⟨{ s.core with M }, pref⟩ a :=
  ⟨⟨h.shows.width, h.shows.pc, h.shows.x, hview.trans h.shows.mem⟩, hM, hctrl, hpref, h.code⟩

variable (hVC : ∀ v, Code v → V v) (hdepth : 0 < depth) (hsmall : depth * 4 < 2 ^ 32)

include hVC in
/-- The words that a call reads at the PC. -/
theorem Follows.callWords (h : s.Follows depth V Code mem a) (hfetch : Fetches depth Code a)
    {buf : ℕ} {e : FetchEvent}
    (he : e = .IsAvail 0 buf s.core.R.PC ∨ e = .InstFetch 0 buf s.core.R.PC) {A : ℕ}
    (hA : s.sfetch.fillOf e = some A) :
    ∀ v ∈ RevPrefetcher.fillWords depth A, v % 4 = 0 ∧ ∀ i < 4, V (v + i) := by
  have hbound : ∀ v, Code v → v + 1 < W64 := fun v hv => h.memory.lt (hVC v hv)
  have hcase := RevPrefetcher.fillOf_cases he hA
  rw [h.shows.pc] at hcase
  intro v hv
  obtain ⟨haligned, hin⟩ := hfetch.fillWords hbound hcase hv
  exact ⟨haligned, fun i hi => hVC _ (hin i hi)⟩

include hVC hdepth hsmall in
/-- `PrefetchInst` says that the instruction is there, or it has begun a stream for
    one of its words. -/
theorem Follows.PrefetchInst (h : s.Follows depth V Code mem a) (hpc : a.int.pc ≠ 0)
    (hfetch : Fetches depth Code a) {buf : ℕ} (hfresh : ∀ st ∈ s.sfetch.streams, st.buf ≠ buf) :
    ∃ avail s', s.PrefetchInst buf = some (avail, s') ∧ s'.Follows depth V Code mem a ∧
      s'.core.R = s.core.R ∧
      (avail = true ∧ s'.sfetch = s.sfetch ∧ s.sfetch.Ready s.core.R.PC ∨
        avail = false ∧ s'.missing < s.missing) := by
  have hbound : ∀ v, Code v → v + 1 < W64 := fun v hv => h.memory.lt (hVC v hv)
  have hPC := h.shows.pc
  have hne : s.core.R.PC ≠ 0 := by
    intro hzero
    rw [hPC] at hzero
    exact hpc (BitVec.eq_of_toNat_eq hzero)
  have heven := hfetch.even
  have hfetchable := hfetch.fetchable hdepth hsmall hbound h.code
  rw [← hPC] at heven hfetchable
  obtain ⟨avail, pref, hcall, hidle, hcase⟩ := h.sfetch.IsAvail heven hfetchable hfresh 0
  have hsame := fun {A : ℕ} hA => hfetch.sameWords (A := A) hbound h.code hA
  have hreal : s.sfetch.IsAvail s.bytes 0 buf s.core.R.PC = some (avail, pref) := by
    rw [h.bytes_eq, ← hcall, hPC]
    have hd := h.sfetch.depth_eq
    exact RevPrefetcher.IsAvail_congr (hd ▸ hsame (.inl rfl)) (hd ▸ hsame (.inr rfl))
  have hstep : s.sfetch.step s.bytes (.IsAvail 0 buf s.core.R.PC) = some pref := by
    rw [RevPrefetcher.step, hreal]
    rfl
  obtain ⟨M, hM, hctrl, hwritable, hview⟩ := h.fetchCall hstep
    fun A hA => h.callWords hVC hfetch (.inl rfl) hA
  refine ⟨avail, ⟨{ s.core with M }, pref⟩, ?_, h.fetched hctrl hwritable hview hidle, rfl, ?_⟩
  · simp only [OneHart.PrefetchInst, if_neg hne, hreal, hM, Option.map_some]
  · rcases hcase with ⟨hav, hsame, hready⟩ | ⟨hav, hlt⟩
    · exact .inl ⟨hav, hsame, hready⟩
    · exact .inr ⟨hav, hlt⟩

include hVC hdepth in
/-- `FetchAndDecodeInst` decodes the word at the PC. -/
theorem Follows.FetchAndDecodeInst (h : s.Follows depth V Code mem a)
    (hfetch : Fetches depth Code a) (hready : s.sfetch.Ready s.core.R.PC) {buf : ℕ}
    (hfresh : ∀ st ∈ s.sfetch.streams, st.buf ≠ buf) {i : Isa.RevInst}
    (hdecode : Isa.DecodeInst f (fun _ => false) a.word = some i) (hword : a.word ≠ 0) :
    ∃ s', FetchAndDecodeInst f s buf = some (i, s') ∧ s'.Follows depth V Code mem a := by
  have hbound : ∀ v, Code v → v + 1 < W64 := fun v hv => h.memory.lt (hVC v hv)
  have hPC := h.shows.pc
  have heven := hfetch.even
  rw [← hPC] at heven
  obtain ⟨pref, hcall, hidle⟩ := h.sfetch.InstFetch heven hready hfresh 0
  have hsame := fun {A : ℕ} hA => hfetch.sameWords (A := A) hbound h.code hA
  have hreal : s.sfetch.InstFetch s.bytes 0 buf s.core.R.PC =
      some (⟨true, true, memWord (fun v => (mem v).toBitVec) s.core.R.PC⟩, pref) := by
    rw [h.bytes_eq, ← hcall, hPC]
    have hd := h.sfetch.depth_eq
    exact RevPrefetcher.InstFetch_congr (hd ▸ hsame (.inl rfl)) (hd ▸ hsame (.inr rfl))
  have hlast := hbound _
    (hfetch.ahead (a.int.pc.toNat / 4 * 4 + 4 * depth + 3) (by omega) (by omega))
  have hinst : (memWord (fun v => (mem v).toBitVec) s.core.R.PC).toNat = a.word := by
    have hev := hfetch.even
    rw [hPC, memWord_toNat _ (by omega), Arch.word]
    refine congrArg leNat (List.map_congr_left fun j hj => ?_)
    have hj' := List.mem_range.mp hj
    exact (h.code _ (hfetch.ahead _ (by omega) (by omega))).symm
  have hstep : s.sfetch.step s.bytes (.InstFetch 0 buf s.core.R.PC) = some pref := by
    rw [RevPrefetcher.step, hreal]
    rfl
  obtain ⟨M, hM, hctrl, hwritable, hview⟩ := h.fetchCall hstep
    fun A hA => h.callWords hVC hfetch (.inr rfl) hA
  refine ⟨⟨{ s.core with M }, pref⟩, ?_, h.fetched hctrl hwritable hview hidle⟩
  have hne : ¬(memWord (fun v => (mem v).toBitVec) s.core.R.PC = 0) := by
    intro hzero
    rw [hzero] at hinst
    exact hword hinst.symm
  simp only [OneHart.FetchAndDecodeInst, hreal, hne, or_false, Bool.true_eq_false, if_false, hM,
    hinst, hdecode, Option.map_some]

include hVC hdepth hsmall in
/-- A tick executes the instruction at the PC, or it has begun a stream for one of
    its words. -/
theorem Follows.ClockTick (hn : n = XLEN f) (h : s.Follows depth V Code mem a)
    (hpc : a.int.pc ≠ 0) (hfetch : Fetches depth Code a) {t : Inst} (hf : t.enabled f = true)
    (hword : InstWord f.IsRV64 a.word t) (hok : Permitted V Code a t) {bufs : ℕ × ℕ}
    (hfresh : s.Fresh bufs) :
    ∃ s', ClockTick f s bufs = some s' ∧
      (s'.Follows depth V Code mem a ∧ s'.missing < s.missing ∨
        s'.Follows depth V Code mem (a.exec t)) := by
  obtain ⟨avail, s₁, hprefetch, h₁, hR, hcase⟩ :=
    h.PrefetchInst hVC hdepth hsmall hpc hfetch fun st hst => (hfresh st hst).1
  unfold OneHart.ClockTick
  rw [hprefetch]
  rcases hcase with ⟨rfl, hsfetch, hready⟩ | ⟨rfl, hlt⟩
  swap
  · exact ⟨s₁, rfl, .inl ⟨h₁, hlt⟩⟩
  have hrv : ∀ c : Core, Shows c a → c.R.IsRV32 = f.IsRV32 := by
    intro c hc
    have hwidth := hc.width
    rw [hn, XLEN, Isa.xlen] at hwidth
    unfold RevFeature.IsRV32
    cases hc32 : c.R.IsRV32 <;> cases h64 : f.IsRV64 <;> simp_all
  have hwlt : a.word < 2 ^ 32 := by
    have hlt := leNat_lt (getBytes a.mem a.int.pc.toNat 4)
    rw [getBytes_length] at hlt
    exact hlt
  obtain ⟨i, -, hdecode, -⟩ :=
    runs_word hf (hrv _ h₁.shows) h₁.shows h₁.memory h₁.ctrl hwlt hword hok
  have hne : a.word ≠ 0 := by
    intro hzero
    rw [hzero] at hdecode
    exact InstWord.ne_zero hword hzero
  obtain ⟨s₂, hfetched, h₂⟩ := h₁.FetchAndDecodeInst (f := f) hVC hdepth hfetch
    (by rw [hsfetch, hR]; exact hready)
    (fun st hst => (hfresh st (hsfetch ▸ hst)).2) hdecode hne
  obtain ⟨i', c', hdecode', hexec, hshows, hctrl, hM⟩ :=
    runs_word hf (hrv _ h₂.shows) h₂.shows h₂.memory h₂.ctrl hwlt hword hok
  obtain rfl : i = i' := by
    rw [hdecode] at hdecode'
    exact Option.some.inj hdecode'
  simp only [hfetched, hexec, Option.map_some]
  refine ⟨_, rfl, .inr ⟨hshows, hM, hctrl, h₂.sfetch, fun v hv => ?_⟩⟩
  exact (hok.code hv).trans (h₂.code v hv)

end Tick

end OneHart

section Programs

variable {f : Isa.RevFeature} {depth : ℕ} {V Code : ℕ → Prop} {s₀ : OneHart}
  {a : ℕ → Arch (XLEN f)} {N : ℕ}

/-- The ticks follow the specification. -/
theorem ticks_follow (hVC : ∀ v, Code v → V v) (hdepth : 0 < depth) (hsmall : depth * 4 < 2 ^ 32)
    (mem : ℕ → UInt8) (hspec : ∀ k < N, Step f depth V Code (a k) (a (k + 1))) :
    Lib.Follows (OneHart.ClockTick f) OneHart.Fresh (OneHart.Follows depth V Code mem)
      OneHart.missing 2 a N := by
  refine ⟨fun k _ s _ => RevPrefetcher.missing_le _ _, ?_⟩
  intro k hk s h bufs hfresh
  rcases hspec k hk with ⟨hpc, hsame⟩ | ⟨hpc, hfetch, t, hf, hword, hok, hnext⟩
  · have hzero : s.core.R.PC = 0 := by
      rw [h.shows.pc, hpc]
      rfl
    refine ⟨s, ?_, .inr (hsame ▸ h)⟩
    simp only [OneHart.ClockTick, OneHart.PrefetchInst, if_pos hzero]
  · rw [hnext]
    exact h.ClockTick hVC hdepth hsmall rfl hpc hfetch hf hword hok hfresh

/-- Programs run as the specification says: with local memory, every run of clock
    ticks shows a state of the specification's run, it is at least one instruction
    further for every three ticks, and the next tick meets no fatal error. The
    program may use the instructions of RV32IM or RV64IM without the fences and
    the system instructions, on accessible memory, and it does not write its own
    code. -/
theorem program_runs (hVC : ∀ v, Code v → V v) (hdepth : 0 < depth) (hsmall : depth * 4 < 2 ^ 32)
    (hsfetch : s₀.sfetch = RevPrefetcher.init depth false) (hM : s₀.core.M.Writable V)
    (hctrl : s₀.core.M.ctrl = none) (hshows : Shows s₀.core (a 0))
    (hspec : ∀ k < N, Step f depth V Code (a k) (a (k + 1)))
    {tr : List (OneHart × (ℕ × ℕ))} {s : OneHart} (hrun : Run (OneHart.ClockTick f) s₀ tr s)
    (hfresh : ∀ p ∈ tr, p.1.Fresh p.2) (hlen : tr.length ≤ N) :
    (∃ k ≤ tr.length, Shows s.core (a k) ∧ tr.length ≤ 3 * k + 2) ∧
      (tr.length < N → ∀ bufs, s.Fresh bufs → (OneHart.ClockTick f s bufs).isSome = true) := by
  have hfollows := ticks_follow hVC hdepth hsmall (a 0).mem hspec
  have hinit : s₀.Follows depth V Code (a 0).mem (a 0) := by
    refine ⟨hshows, hM, hctrl, ?_, fun v _ => rfl⟩
    rw [hsfetch]
    exact ⟨RevPrefetcher.Sound.init _ _ _, rfl, rfl, rfl⟩
  refine ⟨?_, fun hlt bufs hbufs => hfollows.accepts hinit hrun hfresh hlt hbufs⟩
  obtain ⟨k, hk, h, hcount⟩ := hfollows.run hinit hrun hfresh hlen
  exact ⟨k, hk, h.shows, by omega⟩

end Programs

section Sample

/-- The code of a function at 0x100: `addi x1, x0, 7`, `sw x1, 0x400(x0)`,
    `lw x2, 0x400(x0)`, `mul x3, x1, x2` and `jalr x0, 0(x0)`. -/
def squareCode : List UInt8 :=
  [0x93, 0x00, 0x70, 0x00, 0x23, 0x20, 0x10, 0x40, 0x03, 0x21, 0x00, 0x40, 0xB3, 0x81, 0x20, 0x02,
    0x67, 0x00, 0x00, 0x00]

def squareProgram : List Inst :=
  [.int (.opImm .add false 1 0 7), .store .sw 0 1 0x400, .load .lw 2 0 0x400,
    .mulDiv .mul false 3 1 2, .int (.jalr 0 0 0)]

/-- A memory with the code in its first page. -/
def squareMem : RevMem :=
  { RevMem.pageMem with
    physMem := fun a => if a < RevMem.pageSize then squareCode.getD (a - 0x100) 0 else 0
    pageMap := [(0, 0)]
    nextPage := 1 }

def squareHart : OneHart where
  core := { R := { IsRV32 := false, HasD := false, X := fun _ => 0, FP := fun _ => 0, PC := 0x100 }
            M := squareMem }
  sfetch := RevPrefetcher.init 2 false

def squareRun : ℕ → Arch 64
  | 0 => { int := { x := fun _ => 0, pc := 0x100 }, mem := squareMem.view }
  | k + 1 =>
    match squareProgram[k]? with
    | some t => (squareRun k).exec t
    | none => squareRun k

def squareFeature : Isa.RevFeature := { IsRV64 := true, RV_M := true }

def squareBufs : List (ℕ × ℕ) := (List.range 5).map fun k => (2 * k + 1, 2 * k + 2)

def squareValid (v : ℕ) : Prop := 0x100 ≤ v ∧ v < 0x800
def squareIsCode (v : ℕ) : Prop := 0x100 ≤ v ∧ v < 0x200


theorem squareMem_lookup (p : ℕ) : squareMem.pageMap.lookup p = if p = 0 then some 0 else none := by
  cases p with
  | zero => rfl
  | succ p => rfl

theorem squareMem_writable : squareMem.Writable squareValid := by
  refine ⟨⟨rfl, RevMem.pageMem_ok.tops, ?_, ?_, by simp [squareMem, RevMem.pageMem], ?_,
    (by decide : 1 ≤ RevMem.maxFrames), Nat.mul_le_mul_right _ (by decide : 1 ≤ 4)⟩, ⟨{0}, ?_, ?_⟩,
    ?_, ?_⟩
  · intro p f hp
    change squareMem.pageMap.lookup p = some f at hp
    rw [squareMem_lookup] at hp
    split at hp
    · rw [← Option.some.inj hp]
      exact Nat.one_pos
    · simp at hp
  · intro p q f hp hq
    change squareMem.pageMap.lookup p = some f at hp
    change squareMem.pageMap.lookup q = some f at hq
    rw [squareMem_lookup] at hp hq
    split at hp
    · split at hq
      · omega
      · simp at hq
    · simp at hp
  · intro a ha
    exact if_neg (by simp only [squareMem, Nat.one_mul] at ha; omega)
  · unfold RevMem.HasRoom
    decide
  · intro v hv
    rw [Finset.mem_singleton]
    exact Nat.div_eq_of_lt (Nat.lt_trans hv.2 (by decide))
  · intro v hv
    have hv2 := hv.2
    have hlt : 0x800 < 2 * RevMem.pageSize := by decide
    exact (RevMem.pageMem_range (A := v) (L := 0) (by omega) (by omega)).1
  · intro v hv
    exact Nat.lt_of_le_of_lt (Nat.div_le_self _ _) (Nat.lt_trans hv.2 (by decide))

theorem squareRun_pc : ∀ k < 5, (squareRun k).int.pc.toNat = 0x100 + 4 * k := by
  decide +kernel

theorem squareRun_fetches {k : ℕ} (hk : k < 5) : Fetches 2 squareIsCode (squareRun k) := by
  have hpc := squareRun_pc k hk
  have hfilled : ∀ k < 5, ∀ i ≤ 1, leNat (getBytes (squareRun k).mem
      ((squareRun k).int.pc.toNat / 4 * 4 + 4 * i) 4) ≠ 0xDEADBEEF := by decide +kernel
  refine ⟨by omega, ?_, hfilled k hk⟩
  intro v hlow hhigh
  exact ⟨by omega, by omega⟩

theorem squareRun_accesses (s : Arch 64) {size : ℕ} (hsize : size ≤ 8) (stores : Bool)
    (hzero : s.int.x 0 = 0) : Accesses squareValid squareIsCode s 0 0x400 size stores := by
  have haddr : s.addr 0 0x400 = 0x400 := by
    rw [Arch.addr, hzero]
    rfl
  refine ⟨.inl rfl, ?_, ?_⟩
  · rw [haddr]
    exact fun v hlow hhigh => ⟨by omega, by omega⟩
  · rw [haddr]
    intro _ v hlow _ hcode
    have hlt := hcode.2
    omega

/-- The instructions of the function are steps of the specification. -/
theorem squareRun_inst : ∀ k < 5, ∃ t, squareProgram[k]? = some t ∧
    t.enabled squareFeature = true ∧ InstWord true (squareRun k).word t ∧
      Permitted squareValid squareIsCode (squareRun k) t := by
  have hwords : ∀ k < 5, (squareRun k).word =
      [0x00700093, 0x40102023, 0x40002103, 0x022081B3, 0x00000067].getD k 0 := by decide +kernel
  have hx : ∀ k < 5, (squareRun k).int.x 0 = 0 := by decide +kernel
  intro k hk
  have hzero := hx k hk
  rw [hwords k hk]
  generalize squareRun k = s at hzero
  match k, hk with
  | 0, _ =>
    exact ⟨_, rfl, rfl, .int _ (.opImm .add false rfl rfl (by decide) (by decide) (by decide)),
      trivial⟩
  | 1, _ => exact ⟨_, rfl, rfl, .store .sw rfl rfl rfl, squareRun_accesses s (by decide) true hzero⟩
  | 2, _ => exact ⟨_, rfl, rfl, .load .lw rfl rfl rfl, squareRun_accesses s (by decide) false hzero⟩
  | 3, _ => exact ⟨_, rfl, rfl, .mulDiv .mul false rfl rfl rfl (by decide), trivial⟩
  | 4, _ => exact ⟨_, rfl, rfl, .int _ (.jalr rfl rfl), trivial⟩

theorem squareRun_step {k : ℕ} (hk : k < 5) :
    Step squareFeature 2 squareValid squareIsCode (squareRun k) (squareRun (k + 1)) := by
  obtain ⟨t, ht, henabled, hword, hok⟩ := squareRun_inst k hk
  have hpc : ∀ k < 5, (squareRun k).int.pc ≠ 0 := by decide +kernel
  refine .inr ⟨hpc k hk, squareRun_fetches hk, t, henabled, hword, hok, ?_⟩
  simp only [squareRun, ht]
  rfl

instance (s : OneHart) (bufs : ℕ × ℕ) : Decidable (s.Fresh bufs) :=
  inferInstanceAs (Decidable (∀ st ∈ s.sfetch.streams, _))

theorem squareHart_shows : Shows squareHart.core (squareRun 0) := by
  refine ⟨rfl, rfl, fun r => ?_, rfl⟩
  change (if r ≠ 0 then leNat (getBytes (fun _ => 0) (8 * r) 8) else 0) = 0
  split
  · rfl
  · rfl

/-- The first five ticks of the function. -/
theorem program_runs_square : ∃ tr s, Run (OneHart.ClockTick squareFeature) squareHart tr s ∧
    tr.length = 5 ∧ ∃ k ≤ 5, Shows s.core (squareRun k) ∧ 5 ≤ 3 * k + 2 := by
  have hsome : (exec (OneHart.ClockTick squareFeature) squareHart squareBufs).isSome = true := by
    decide +kernel
  obtain ⟨s, hs⟩ := Option.isSome_iff_exists.mp hsome
  have hrun := run_of_exec squareBufs hs
  have hlen : (trace (OneHart.ClockTick squareFeature) squareHart squareBufs).length = 5 := by
    decide +kernel
  have hfresh : ∀ p ∈ trace (OneHart.ClockTick squareFeature) squareHart squareBufs,
      p.1.Fresh p.2 := by decide +kernel
  have hcode : ∀ v, squareIsCode v → squareValid v :=
    fun v hv => ⟨hv.1, Nat.lt_trans hv.2 (by decide)⟩
  obtain ⟨⟨k, hk, hstate, hcount⟩, -⟩ := program_runs (f := squareFeature) (a := squareRun) (N := 5)
    hcode (by decide : 0 < 2) (by decide) rfl squareMem_writable rfl squareHart_shows
    (fun k hk => squareRun_step hk) hrun hfresh (Nat.le_of_eq hlen)
  rw [hlen] at hk hcount
  exact ⟨_, s, hrun, hlen, k, hk, hstate, hcount⟩

end Sample

end RevCPU.Program
