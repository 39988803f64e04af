import RevCPU.Mem.RangeCheck
import RevCPU.Proc.LoadClosed
import RevCPU.Proc.StoreCondMem

namespace RevCPU

open Lib

/-- The two overloads of `WriteMem`. -/
inductive WriteCall
  | WriteMem
  | WriteMemFlags (flags : RevFlag)

namespace WriteCall

def run (w : WriteCall) (m : RevMem) (Hart Addr Len : ℕ) (Data : List UInt8) : Option RevMem :=
  match w with
  | WriteMem => m.WriteMem Hart Addr Len Data
  | WriteMemFlags flags => m.WriteMemFlags Hart Addr Len Data flags

def flags : WriteCall → RevFlag
  | WriteMem => .F_NONE
  | WriteMemFlags flags => flags

theorem run_eq (w : WriteCall) (m : RevMem) (Hart Addr Len : ℕ) (Data : List UInt8) :
    w.run m Hart Addr Len Data = m.WriteMemFlags Hart Addr Len Data w.flags := by
  cases w <;> rfl

end WriteCall

namespace RevMemOp

/-- The bytes that requests carry, with their addresses. -/
def carried (ops : List RevMemOp) : Set (ℕ × UInt8) :=
  {x | ∃ op ∈ ops, ∃ i < op.Size, x = (op.Addr + i, op.membuf.getD i 0)}

/-- The memory after the requests, in their order. -/
def applyStores (mem : ℕ → UInt8) (ops : List RevMemOp) : ℕ → UInt8 :=
  ops.foldl (fun mem op => setBytes mem op.Addr op.membuf) mem

end RevMemOp

namespace RevMem

/-- The requests that a write adds to the queue carry exactly the bytes of the
    data, applied in order they are the store, and the write depends on no byte
    behind the data. -/
structure StoresExactly (k : RevBasicMemCtrl) (write : List UInt8 → Option RevMem) (A : ℕ)
    (Data : List UInt8) : Prop where
  requests : ∃ m' k' ops, write Data = some m' ∧ m'.ctrl = some k' ∧ k'.rqstQ = k.rqstQ ++ ops ∧
    (∀ op ∈ ops, op.Op = .MemOpWRITE) ∧
    RevMemOp.carried ops = {x | ∃ i < Data.length, x = (A + i, Data.getD i 0)} ∧
    ∀ mem, RevMemOp.applyStores mem ops = setBytes mem A Data
  reads : ∀ tail, write (Data ++ tail) = write Data

/-- A write of `L` bytes does not walk off the page of its address, or all of its
    bytes are past the end of this page. -/
def StaysOnPage (m : RevMem) (A L : ℕ) : Prop :=
  L = 0 ∨ L < 2 ^ 32 ∧ ∀ p span q m',
    (m.RevokeFuture A).translate A L = some (p, some (span, q), m') → span = L

section

variable {m m' : RevMem} {k : RevBasicMemCtrl} {Hart A L p span q : ℕ} {Data : List UInt8}
  {flags : RevFlag}

/-- What a write on one page sends. -/
theorem WriteMemFlags_one (hctrl : m.ctrl = some k)
    (htr : (m.RevokeFuture A).translate A L = some (p, none, m')) (Data : List UInt8) :
    m.WriteMemFlags Hart A L Data flags =
      some { m' with ctrl := some (k.sendWRITERequest Hart A p (L % 2 ^ 32) Data flags) } := by
  have hsame : m'.ctrl = some k := (translate_keeps_ctrl htr).trans hctrl
  simp only [WriteMemFlags, htr, hsame]

/-- What a write that walks off its page sends. -/
theorem WriteMemFlags_two (hctrl : m.ctrl = some k)
    (htr : (m.RevokeFuture A).translate A L = some (p, some (span, q), m')) (Data : List UInt8) :
    m.WriteMemFlags Hart A L Data flags =
      some { m' with ctrl := some ((k.sendWRITERequest Hart A p (L % 2 ^ 32) Data
        flags).sendWRITERequest Hart A q (L % 2 ^ 32) (Data.drop (headLen L span)) flags) } := by
  have hsame : m'.ctrl = some k := (translate_keeps_ctrl htr).trans hctrl
  simp only [WriteMemFlags, htr, hsame]

theorem span_lt (htr : m.translate A L = some (p, some (span, q), m')) : span < 2 ^ 32 := by
  unfold translate at htr
  simp only at htr
  split at htr
  · simp at htr
  · split at htr
    · split at htr
      · simp at htr
      · simp only [Option.some.injEq, Prod.mk.injEq] at htr
        rw [← htr.2.1.1]
        exact Nat.mod_lt _ (by decide)
    · simp at htr

/-- Every request of a write has the address of the write and its length in 32
    bits. -/
theorem WriteMemFlags_queue (hctrl : m.ctrl = some k)
    (hwrite : m.WriteMemFlags Hart A L Data flags = some m') :
    ∃ k' ops, m'.ctrl = some k' ∧ k'.rqstQ = k.rqstQ ++ ops ∧
      ∀ op ∈ ops, op.Addr = A ∧ op.Size = L % 2 ^ 32 := by
  have hsend : ∀ (k : RevBasicMemCtrl) p b, ∃ ops,
      (k.sendWRITERequest Hart A p (L % 2 ^ 32) b flags).rqstQ = k.rqstQ ++ ops ∧
        ∀ op ∈ ops, op.Addr = A ∧ op.Size = L % 2 ^ 32 := by
    intro k p b
    by_cases hn : L % 2 ^ 32 = 0
    · exact ⟨[], by rw [RevBasicMemCtrl.sendWRITERequest, if_pos hn, List.append_nil], by simp⟩
    · exact ⟨_, RevBasicMemCtrl.sendWRITERequest_queue (Nat.pos_of_ne_zero hn), by simp⟩
  cases htr : (m.RevokeFuture A).translate A L with
  | none => simp [WriteMemFlags, htr] at hwrite
  | some t =>
    obtain ⟨p, adj, m₁⟩ := t
    cases adj with
    | none =>
      rw [WriteMemFlags_one hctrl htr, Option.some.injEq] at hwrite
      obtain ⟨ops, hops, hall⟩ := hsend k p Data
      exact ⟨_, ops, by rw [← hwrite], hops, hall⟩
    | some r =>
      rw [WriteMemFlags_two hctrl htr, Option.some.injEq] at hwrite
      obtain ⟨ops, hops, hall⟩ := hsend k p Data
      obtain ⟨ops', hops', hall'⟩ := hsend (k.sendWRITERequest Hart A p (L % 2 ^ 32) Data flags) r.2
        (Data.drop (headLen L r.1))
      refine ⟨_, ops ++ ops', by rw [← hwrite], by rw [hops', hops, List.append_assoc], ?_⟩
      intro op hop
      exact (List.mem_append.mp hop).elim (hall op) (hall' op)

/-- The request of a whole write. -/
def wholeStore (k : RevBasicMemCtrl) (Hart A p : ℕ) (Data : List UInt8) (flags : RevFlag) : RevMemOp :=
  { ptr := k.nextPtr, seq := k.nextPtr, Hart, Addr := A, PAddr := p, Size := Data.length,
    Op := .MemOpWRITE, flags, membuf := Data }

theorem copyBuf_append (hlen : Data.length = L) (tail : List UInt8) :
    copyBuf (Data ++ tail) L = Data := by
  refine List.ext_getElem (by simp [hlen]) ?_
  intro i hi hi'
  simp only [copyBuf, List.getElem_map, List.getElem_range, List.getD_eq_getElem?_getD,
    List.getElem?_append_left hi', List.getElem?_eq_getElem hi', Option.getD_some]

theorem sendWRITERequest_whole (k : RevBasicMemCtrl) (Hart A p : ℕ) (flags : RevFlag)
    (hlen : Data.length = L) (hpos : 0 < L) (tail : List UInt8) :
    (k.sendWRITERequest Hart A p L (Data ++ tail) flags).rqstQ =
      k.rqstQ ++ [wholeStore k Hart A p Data flags] ∧
    k.sendWRITERequest Hart A p L (Data ++ tail) flags =
      k.sendWRITERequest Hart A p L Data flags := by
  refine ⟨?_, ?_⟩
  · rw [RevBasicMemCtrl.sendWRITERequest_queue hpos, copyBuf_append hlen, wholeStore, hlen]
  · rw [RevBasicMemCtrl.sendWRITERequest, RevBasicMemCtrl.sendWRITERequest, copyBuf_append hlen,
      copyBuf_of_length hlen]

/-- Requests of the whole write, one or more, are the store. -/
theorem carried_whole {ops : List RevMemOp} (hne : ops ≠ [])
    (hall : ∀ op ∈ ops, op.Addr = A ∧ op.Size = Data.length ∧ op.membuf = Data) :
    RevMemOp.carried ops = {x | ∃ i < Data.length, x = (A + i, Data.getD i 0)} ∧
      ∀ mem, RevMemOp.applyStores mem ops = setBytes mem A Data := by
  refine ⟨Set.ext fun x => ⟨?_, ?_⟩, ?_⟩
  · rintro ⟨op, hop, i, hi, rfl⟩
    obtain ⟨haddr, hsize, hbuf⟩ := hall op hop
    exact ⟨i, by omega, by rw [haddr, hbuf]⟩
  · rintro ⟨i, hi, rfl⟩
    obtain ⟨op, hop⟩ := List.exists_mem_of_ne_nil ops hne
    obtain ⟨haddr, hsize, hbuf⟩ := hall op hop
    exact ⟨op, hop, i, by omega, by rw [haddr, hbuf]⟩
  · have hagain : ∀ mem, setBytes (setBytes mem A Data) A Data = setBytes mem A Data := by
      intro mem
      funext v
      unfold setBytes
      split <;> rfl
    induction ops with
    | nil => exact absurd rfl hne
    | cons op ops ih =>
      intro mem
      obtain ⟨haddr, -, hbuf⟩ := hall op List.mem_cons_self
      rw [RevMemOp.applyStores, List.foldl_cons, haddr, hbuf]
      by_cases hops : ops = []
      · rw [hops]
        rfl
      · have hrest := ih hops (fun op hop => hall op (List.mem_cons_of_mem _ hop))
          (setBytes mem A Data)
        rw [hagain] at hrest
        exact hrest

theorem exact_of_zero (hctrl : m.ctrl = some k)
    (hwrite : m.WriteMemFlags Hart A 0 [] flags = some m') :
    StoresExactly k (fun D => m.WriteMemFlags Hart A 0 D flags) A [] := by
  have hnone : ∀ (k : RevBasicMemCtrl) p b, k.sendWRITERequest Hart A p (0 % 2 ^ 32) b flags = k :=
    fun _ _ _ => rfl
  cases htr : (m.RevokeFuture A).translate A 0 with
  | none => simp [WriteMemFlags, htr] at hwrite
  | some t =>
    obtain ⟨p, adj, m₁⟩ := t
    have hsame : ∀ D, m.WriteMemFlags Hart A 0 D flags = some { m₁ with ctrl := some k } := by
      intro D
      cases adj with
      | none => rw [WriteMemFlags_one hctrl htr, hnone]
      | some r => rw [WriteMemFlags_two hctrl htr, hnone, hnone]
    refine ⟨⟨_, k, [], hsame [], rfl, by simp, by simp, ?_, fun mem => ?_⟩, fun tail => ?_⟩
    · simp [RevMemOp.carried]
    · funext v
      simp [RevMemOp.applyStores, setBytes]
    · exact (hsame _).trans (hsame _).symm

/-- A write that stays on its page, or lies behind its end, is exact. -/
theorem exact_of_pos (hctrl : m.ctrl = some k) (hlen : Data.length = L) (hpos : 0 < L)
    (hwrite : m.WriteMemFlags Hart A L Data flags = some m') (hsmall : L < 2 ^ 32)
    (hspan : ∀ p span q m₁,
      (m.RevokeFuture A).translate A L = some (p, some (span, q), m₁) → span = L) :
    StoresExactly k (fun D => m.WriteMemFlags Hart A L D flags) A Data := by
  have hmod : L % 2 ^ 32 = L := Nat.mod_eq_of_lt hsmall
  have hwhole : ∀ (k : RevBasicMemCtrl) p, (wholeStore k Hart A p Data flags).Op = .MemOpWRITE ∧
      (wholeStore k Hart A p Data flags).Addr = A ∧
      (wholeStore k Hart A p Data flags).Size = Data.length ∧
      (wholeStore k Hart A p Data flags).membuf = Data := fun _ _ => ⟨rfl, rfl, rfl, rfl⟩
  cases htr : (m.RevokeFuture A).translate A L with
  | none => simp [WriteMemFlags, htr] at hwrite
  | some t =>
    obtain ⟨p, adj, m₁⟩ := t
    cases adj with
    | none =>
      obtain ⟨hqueue, -⟩ := sendWRITERequest_whole k Hart A p flags hlen hpos []
      rw [List.append_nil] at hqueue
      have hall : ∀ op ∈ [wholeStore k Hart A p Data flags],
          op.Op = .MemOpWRITE ∧ op.Addr = A ∧ op.Size = Data.length ∧ op.membuf = Data := by
        intro op hop
        rw [List.mem_singleton.mp hop]
        exact hwhole k p
      obtain ⟨hcarried, happly⟩ := carried_whole (by simp) fun op hop => (hall op hop).2
      refine ⟨⟨_, _, _, WriteMemFlags_one hctrl htr Data, rfl, ?_, fun op hop => (hall op hop).1,
        hcarried, happly⟩, fun tail => ?_⟩
      · rw [hmod, hqueue]
      · rw [WriteMemFlags_one hctrl htr, WriteMemFlags_one hctrl htr, hmod,
          (sendWRITERequest_whole k Hart A p flags hlen hpos tail).2]
    | some r =>
      obtain ⟨span, q⟩ := r
      obtain rfl := hspan p span q m₁ htr
      have hhead : ∀ D : List UInt8, D.drop (headLen span span) = D := by
        intro D
        rw [headLen_eq (Nat.le_refl _), Nat.sub_self, List.drop_zero]
      obtain ⟨hqueue, -⟩ := sendWRITERequest_whole k Hart A p flags hlen hpos []
      obtain ⟨hqueue', -⟩ := sendWRITERequest_whole (k.sendWRITERequest Hart A p span Data flags)
        Hart A q flags hlen hpos []
      rw [List.append_nil] at hqueue hqueue'
      have hall : ∀ op ∈ [wholeStore k Hart A p Data flags] ++
            [wholeStore (k.sendWRITERequest Hart A p span Data flags) Hart A q Data flags],
          op.Op = .MemOpWRITE ∧ op.Addr = A ∧ op.Size = Data.length ∧ op.membuf = Data := by
        intro op hop
        rcases List.mem_append.mp hop with hop | hop
        · rw [List.mem_singleton.mp hop]
          exact hwhole k p
        · rw [List.mem_singleton.mp hop]
          exact hwhole _ q
      obtain ⟨hcarried, happly⟩ := carried_whole (by simp) fun op hop => (hall op hop).2
      refine ⟨⟨_, _, _, WriteMemFlags_two hctrl htr Data, rfl, ?_, fun op hop => (hall op hop).1,
        hcarried, happly⟩, fun tail => ?_⟩
      · rw [hmod, hhead, hqueue', hqueue, List.append_assoc]
      · rw [WriteMemFlags_two hctrl htr, WriteMemFlags_two hctrl htr, hmod, hhead, hhead,
          (sendWRITERequest_whole k Hart A p flags hlen hpos tail).2,
          (sendWRITERequest_whole (k.sendWRITERequest Hart A p span Data flags) Hart A q flags hlen
            hpos tail).2]

/-- A write of 2 ^ 32 bytes or more does not carry its last byte. -/
theorem not_exact_of_long (hctrl : m.ctrl = some k) (hlen : Data.length = L) (hlong : 2 ^ 32 ≤ L) :
    ¬StoresExactly k (fun D => m.WriteMemFlags Hart A L D flags) A Data := by
  rintro ⟨⟨r, k₁, ops, hwrite, hk₁, hqueue, -, hcarried, -⟩, -⟩
  obtain ⟨k₂, ops', hk₂, hqueue', hall⟩ := WriteMemFlags_queue hctrl hwrite
  obtain rfl : k₁ = k₂ := Option.some.inj (hk₁.symm.trans hk₂)
  obtain rfl : ops = ops' := List.append_cancel_left (hqueue.symm.trans hqueue')
  have hlast : (A + (L - 1), Data.getD (L - 1) 0) ∈ RevMemOp.carried ops := by
    rw [hcarried]
    exact ⟨L - 1, by omega, rfl⟩
  obtain ⟨op, hop, i, hi, heq⟩ := hlast
  obtain ⟨haddr, hsize⟩ := hall op hop
  have haddr' := congrArg Prod.fst heq
  simp only at haddr'
  have hlt := Nat.mod_lt L (by decide : 0 < 2 ^ 32)
  omega

/-- A write that leaves its page reads past the data. -/
theorem not_exact_of_split (hctrl : m.ctrl = some k) (hlen : Data.length = L) (hpos : 0 < L)
    (hsmall : L < 2 ^ 32) {p span q : ℕ} {m₁ : RevMem}
    (htr : (m.RevokeFuture A).translate A L = some (p, some (span, q), m₁)) (hne : span ≠ L) :
    ¬StoresExactly k (fun D => m.WriteMemFlags Hart A L D flags) A Data := by
  rintro ⟨-, hreads⟩
  have hmod : L % 2 ^ 32 = L := Nat.mod_eq_of_lt hsmall
  have hCur : 0 < headLen L span := by
    have hspan := span_lt htr
    unfold headLen W64
    split <;> omega
  have hsame := hreads (List.replicate (headLen L span) 1)
  rw [WriteMemFlags_two hctrl htr, WriteMemFlags_two hctrl htr, hmod] at hsame
  have hctrls := congrArg RevMem.ctrl (Option.some.inj hsame)
  have hqueues := congrArg RevBasicMemCtrl.rqstQ (Option.some.inj hctrls)
  simp only [RevBasicMemCtrl.sendWRITERequest_queue hpos, List.append_assoc,
    List.append_cancel_left_eq, List.singleton_append, List.cons.injEq, RevMemOp.mk.injEq] at hqueues
  have hbufs : copyBuf ((Data ++ List.replicate (headLen L span) 1).drop (headLen L span)) L =
      copyBuf (Data.drop (headLen L span)) L := by
    tauto
  have hbyte := congrArg (fun buf => buf.getD (L - 1) 0) hbufs
  simp only [copyBuf_getD (Nat.sub_lt hpos Nat.one_pos), List.getD_eq_getElem?_getD,
    List.getElem?_drop] at hbyte
  rw [List.getElem?_append_right (by omega), List.getElem?_eq_none (by omega : Data.length ≤ _),
    List.getElem?_replicate_of_lt (by omega)] at hbyte
  simp at hbyte

/-- Either overload hands over exactly the store if and only if it does not walk
    off the page of its address, or starts behind it. -/
theorem stores_exactly_iff (w : WriteCall) (hctrl : m.ctrl = some k) (hlen : Data.length = L)
    (hwrite : w.run m Hart A L Data = some m') :
    StoresExactly k (w.run m Hart A L) A Data ↔ m.StaysOnPage A L := by
  have hrun : w.run m Hart A L = fun D => m.WriteMemFlags Hart A L D w.flags := funext (w.run_eq m Hart A L)
  rw [hrun] at hwrite ⊢
  by_cases hzero : L = 0
  · subst hzero
    obtain rfl := List.length_eq_zero_iff.mp hlen
    exact iff_of_true (exact_of_zero hctrl hwrite) (.inl rfl)
  have hpos : 0 < L := Nat.pos_of_ne_zero hzero
  constructor
  · intro hexact
    have hsmall : L < 2 ^ 32 := by
      by_contra hlong
      exact not_exact_of_long hctrl hlen (by omega) hexact
    refine .inr ⟨hsmall, fun p span q m₁ htr => ?_⟩
    by_contra hne
    exact not_exact_of_split hctrl hlen hpos hsmall htr hne hexact
  · rintro (rfl | ⟨hsmall, hspan⟩)
    · exact absurd rfl hzero
    · exact exact_of_pos hctrl hlen hpos hwrite hsmall hspan

/-- The TLB has no translation of the address but that of its page. -/
def AgreesAt (m : RevMem) (A : ℕ) : Prop :=
  ∀ p, m.TLB.lookup A = some p →
    ∃ f, m.pageMap.lookup (A / pageSize) = some f ∧ p = frameBase f + A % pageSize

theorem frameBase_mod (f : ℕ) : frameBase f = f % 2 ^ 14 * pageSize := by
  unfold frameBase pageSize
  omega

/-- The first translation of an access whose address the TLB translates right. -/
theorem AgreesAt.calc (h : m.AgreesAt A) (hcalc : m.CalcPhysAddr (A / pageSize) A = some (p, m')) :
    p = frameBase (m.frameOf (A / pageSize)) + A % pageSize ∧
      m'.pageAt (A / pageSize) = (m.frameOf (A / pageSize), m') := by
  unfold frameOf
  cases htlb : m.TLB.lookup A with
  | some r =>
    obtain ⟨f, hf, rfl⟩ := h r htlb
    have hne : frameBase f + A % pageSize ≠ INVALID_ADDR := by
      have hmod := Nat.mod_lt f (by decide : 0 < 2 ^ 14)
      have hoff := Nat.mod_lt A (by decide : 0 < pageSize)
      rw [frameBase_mod]
      unfold pageSize at hoff ⊢
      unfold INVALID_ADDR W64
      omega
    rw [CalcPhysAddr_hit htlb hne, Option.some.injEq, Prod.mk.injEq] at hcalc
    obtain ⟨rfl, rfl⟩ := hcalc
    rw [hf]
    exact ⟨rfl, pageAt_of_lookup hf⟩
  | none =>
    have hvalid : m.isValidVirtAddr A = true := by
      rcases (CalcPhysAddr_spec hcalc).2 with ⟨e, he, rfl⟩ | hvalid
      · rw [List.lookup_eq_none_iff] at htlb
        exact absurd (htlb e he) (by simp)
      · exact hvalid
    rw [CalcPhysAddr_miss htlb hvalid] at hcalc
    cases hmap : m.pageMap.lookup (A / pageSize) with
    | some f =>
      simp only [hmap, Option.some.injEq, Prod.mk.injEq] at hcalc
      obtain ⟨rfl, rfl⟩ := hcalc
      exact ⟨rfl, pageAt_of_lookup (by rw [AddToTLB_pageMap, hmap]; rfl)⟩
    | none =>
      simp only [hmap, Option.some.injEq, Prod.mk.injEq] at hcalc
      obtain ⟨rfl, rfl⟩ := hcalc
      refine ⟨rfl, pageAt_of_lookup ?_⟩
      rw [AddToTLB_pageMap]
      simp only [mapNext, lookup_concat hmap, if_true]
      rfl

/-- A write whose address the TLB translates right stays on its page exactly if
    its last byte is on it; in the last frame of 32 bits the end of the page is
    miscomputed. -/
theorem staysOnPage_iff (h : m.AgreesAt A) {t : ℕ × Option (ℕ × ℕ) × RevMem}
    (htr : (m.RevokeFuture A).translate A L = some t) :
    m.StaysOnPage A L ↔
      L = 0 ∨ A % pageSize + L ≤ pageSize ∧ m.frameOf (A / pageSize) % 2 ^ 14 ≠ 2 ^ 14 - 1 := by
  have hfree : (m.RevokeFuture A).AgreesAt A := h
  cases hcalc : (m.RevokeFuture A).CalcPhysAddr (A / pageSize) A with
  | none => simp [translate, hcalc] at htr
  | some r =>
    obtain ⟨p, m₁⟩ := r
    obtain ⟨hp, hpage⟩ := hfree.calc hcalc
    have hf : (m.RevokeFuture A).frameOf (A / pageSize) = m.frameOf (A / pageSize) := rfl
    rw [hf] at hp hpage
    have hmod := Nat.mod_lt (m.frameOf (A / pageSize)) (by decide : 0 < 2 ^ 14)
    have hoff := Nat.mod_lt A (by decide : 0 < pageSize)
    rw [frameBase_mod] at hp
    unfold StaysOnPage
    simp only [translate, hcalc, hpage, frameBase_mod] at htr ⊢
    generalize m.frameOf (A / pageSize) % 2 ^ 14 = g at *
    generalize hend : (g * pageSize + pageSize) % 2 ^ 32 = endOfPage at *
    by_cases hcross : (p + L) % W64 > endOfPage
    · simp only [if_pos hcross] at htr ⊢
      split at htr
      · simp at htr
      · rename_i q m₂ hadj
        have hspan : L ≠ 0 → L < 2 ^ 32 → ((p + L) % W64 - endOfPage) % 2 ^ 32 ≠ L := by
          intro hzero hsmall
          unfold pageSize at *
          unfold W64 at *
          omega
        constructor
        · rintro (hzero | ⟨hsmall, hall⟩)
          · exact .inl hzero
          · by_cases hzero : L = 0
            · exact .inl hzero
            · exact absurd (hall _ _ q m₂ rfl) (hspan hzero hsmall)
        · rintro (hzero | ⟨hin, hg⟩)
          · exact .inl hzero
          · unfold pageSize at *
            unfold W64 at *
            omega
    · simp only [if_neg hcross]
      constructor
      · rintro (hzero | ⟨hsmall, -⟩)
        · exact .inl hzero
        · unfold pageSize at *
          unfold W64 at *
          omega
      · rintro (hzero | ⟨hin, hg⟩)
        · exact .inl hzero
        · refine .inr ⟨?_, by simp⟩
          unfold pageSize at hin
          omega

end

/-- A memory with a controller and the segment [262000, 263000), which lies in
    two pages. -/
def twoPageMem : RevMem :=
  { memSize := 2 ^ 20, maxHeapSize := 0, ThreadMemSize := STACK_SIZE, NextThreadMemAddr := 0,
    ctrl := some {}, MemSegs := [MemSegment.new 262000 1000 false] }

theorem store_inside_exact :
    StoresExactly {} (WriteCall.WriteMem.run twoPageMem 0 262000 4) 262000 [1, 2, 3, 4] := by
  have hrun : (WriteCall.WriteMem.run twoPageMem 0 262000 4 [1, 2, 3, 4]).isSome = true := rfl
  have hlen : ([1, 2, 3, 4] : List UInt8).length = 4 := rfl
  refine (stores_exactly_iff .WriteMem rfl hlen (Option.some_get hrun).symm).mpr ?_
  refine .inr ⟨by decide, fun p span q m₁ htr => ?_⟩
  have hone : ((twoPageMem.RevokeFuture 262000).translate 262000 4).map (fun t => t.2.1) =
      some none := rfl
  rw [htr] at hone
  simp at hone

/-- A store of four bytes, two on each page: both requests are of four bytes at
    its address, and the second one reads two bytes past the data. -/
theorem store_across_pages :
    ¬StoresExactly {} (WriteCall.WriteMem.run twoPageMem 0 262142 4) 262142 [1, 2, 3, 4] := by
  have hsplit : ((twoPageMem.RevokeFuture 262142).translate 262142 4).map (fun t => t.2.1) =
      some (some (2, 262144)) := rfl
  obtain ⟨⟨p, adj, m₁⟩, htr, hadj⟩ := Option.map_eq_some_iff.mp hsplit
  obtain rfl : adj = some (2, 262144) := hadj
  have hlen : ([1, 2, 3, 4] : List UInt8).length = 4 := rfl
  exact not_exact_of_split rfl hlen (by decide) (by decide) htr (by decide)

end RevMem

end RevCPU
