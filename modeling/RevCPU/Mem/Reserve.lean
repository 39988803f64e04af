import RevCPU.Mem.Access

namespace RevCPU

open Lib

/-- Word `i` of the `uint64_t` array at a host pointer. -/
def Host.word (h : Host) (p i : ℕ) : BitVec 64 :=
  BitVec.ofNat 64 (leNat ((List.range 8).map fun j => h.cell p (8 * i + j)))

namespace RevMem

/-- `LRBase`: whether the reservation is made, and the memory and the host
    after it. Any reservation of the address refuses it. -/
def LRBase (m : RevMem) (h : Host) (Hart Addr Len Target aq rl : ℕ) (req : MemReq)
    (flags : RevFlag) : Option (Bool × RevMem × Host) :=
  if m.LRSC.any fun r => r.addr == Addr then some (false, m, h.write Target 0 (leBytes 4 1))
  else
    let r : Reservation := ⟨Hart, Addr, aq ||| rl <<< 1, Target⟩
    let m := { m with LRSC := m.LRSC ++ [r] }
    match m.CalcPhysAddr (Addr / pageSize) Addr with
    | none => none
    | some (physAddr, m) =>
      match m.ctrl with
      | some ctrl =>
        let ctrl := ctrl.sendREADLOCKRequest Hart Addr physAddr Len (some Target) req flags
        some (true, { m with ctrl }, h)
      | none =>
        (m.physRead physAddr Len).map fun bytes =>
          (true, m, (h.write Target 0 bytes).MarkLoadComplete req)

/-- The test of `SCBase` on the words at the target of the LR and at the data
    of the SC: both are folded with a shift by one bit for each word. -/
def scTest (h : Host) (val Data Len : ℕ) : Bool :=
  if Len = 32 then
    let fold (p : ℕ) : BitVec 32 :=
      (List.range Len).foldl (fun A i => A ||| (h.word p i).setWidth 32 <<< i) 0
    (fold val &&& fold Data) != 0
  else
    let fold (p : ℕ) : BitVec 64 := (List.range Len).foldl (fun A i => A ||| h.word p i <<< i) 0
    (fold val &&& fold Data) != 0

/-- The reservation that `SCBase` finds. -/
def isFor (Hart Addr : ℕ) (r : Reservation) : Bool := r.hart == Hart && r.addr == Addr

/-- `SCBase`. A failed test leaves the reservation; after a success `Len` words
    of the target are zero. -/
def SCBase (m : RevMem) (h : Host) (Hart Addr Len Data Target : ℕ) (flags : RevFlag) :
    Option (Bool × RevMem × Host) :=
  match m.LRSC.find? (isFor Hart Addr) with
  | none => some (false, m, h.write Target 0 (leBytes 4 1))
  | some r =>
    if scTest h r.val Data Len then
      (m.WriteMemFlags Hart Addr Len (h.read Data Len) flags).map fun m =>
        (true, { m with LRSC := m.LRSC.eraseP (isFor Hart Addr) },
          h.write Target 0 (List.replicate (8 * Len) 0))
    else some (false, m, h.write Target 0 (leBytes (if Len = 32 then 4 else 8) 1))

/-- The operation of `AMOMem` on the value that it has read into the target. -/
def amoApply (h : Host) (flags : RevFlag) (Target Len operand : ℕ) : Host :=
  if Len = 4 then h.store Target 4 (ApplyAMO flags (h.load Target 4) (BitVec.ofNat 32 operand))
  else h.store Target 8 (ApplyAMO flags (h.load Target 8) (BitVec.ofNat 64 operand))

/-- `AMOMem`. -/
def AMOMem (m : RevMem) (h : Host) (Hart Addr Len Data Target : ℕ) (req : MemReq)
    (flags : RevFlag) : Option (RevMem × Host) :=
  match m.CalcPhysAddr (Addr / pageSize) Addr with
  | none => none
  | some (physAddr, m) =>
    match m.ctrl with
    | some ctrl =>
      let ctrl := ctrl.sendAMORequest Hart Addr physAddr Len (h.read Data Len) (some Target) req flags
      some ({ m with ctrl }, h)
    | none =>
      let TmpD := leNat (h.read Data Len)
      match m.ReadMem h Hart Addr Len Target req flags with
      | none => none
      | some (m, h) =>
        let TmpT := h.read Target Len
        let h := amoApply h flags Target Len TmpD
        (m.WriteMemFlags Hart Addr Len (h.read Target Len) flags).map fun m =>
          (m, (h.write Target 0 TmpT).MarkLoadComplete req)

/-- Translations and accesses leave the reservations alone. -/
theorem AddToTLB_LRSC (m : RevMem) (v p : ℕ) : (m.AddToTLB v p).LRSC = m.LRSC := by
  unfold AddToTLB
  split
  · rfl
  · split <;> rfl

theorem SearchTLB_LRSC (m : RevMem) (v : ℕ) : (m.SearchTLB v).2.LRSC = m.LRSC := by
  unfold SearchTLB
  split <;> rfl

theorem CalcPhysAddr_LRSC {m m' : RevMem} {page v r : ℕ} (h : m.CalcPhysAddr page v = some (r, m')) :
    m'.LRSC = m.LRSC := by
  have hsearch := SearchTLB_LRSC m v
  unfold CalcPhysAddr at h
  cases hs : m.SearchTLB v with
  | mk r₁ m₁ =>
    rw [hs] at hsearch
    simp only [hs] at h
    split at h
    · split at h
      · split at h
        · simp only [Option.some.injEq, Prod.mk.injEq] at h
          obtain ⟨-, rfl⟩ := h
          exact (AddToTLB_LRSC _ _ _).trans hsearch
        · simp only [Option.some.injEq, Prod.mk.injEq] at h
          obtain ⟨-, rfl⟩ := h
          exact (AddToTLB_LRSC _ _ _).trans hsearch
      · simp at h
    · simp only [Option.some.injEq, Prod.mk.injEq] at h
      obtain ⟨-, rfl⟩ := h
      exact hsearch

theorem pageAt_LRSC (m : RevMem) (page : ℕ) : (m.pageAt page).2.LRSC = m.LRSC := by
  unfold pageAt
  split <;> rfl

theorem translate_LRSC {m m' : RevMem} {Addr Len p : ℕ} {adj : Option (ℕ × ℕ)}
    (h : m.translate Addr Len = some (p, adj, m')) : m'.LRSC = m.LRSC := by
  simp only [translate] at h
  cases hcalc : m.CalcPhysAddr (Addr / pageSize) Addr with
  | none => simp [hcalc] at h
  | some r =>
    obtain ⟨p₁, m₁⟩ := r
    have h₁ := (pageAt_LRSC m₁ (Addr / pageSize)).trans (CalcPhysAddr_LRSC hcalc)
    simp only [hcalc] at h
    split at h
    · split at h
      · simp at h
      · rename_i p₂ m₂ hcalc₂
        simp only [Option.some.injEq, Prod.mk.injEq] at h
        obtain ⟨-, -, rfl⟩ := h
        exact (CalcPhysAddr_LRSC hcalc₂).trans h₁
    · simp only [Option.some.injEq, Prod.mk.injEq] at h
      obtain ⟨-, -, rfl⟩ := h
      exact h₁

theorem physWrite_LRSC {m m' : RevMem} {p : ℕ} {bytes : List UInt8}
    (h : m.physWrite p bytes = some m') : m'.LRSC = m.LRSC := by
  unfold physWrite at h
  split at h
  · simp only [Option.some.injEq] at h
    rw [← h]
  · simp at h

theorem WriteMemFlags_LRSC {m m' : RevMem} {Hart Addr Len : ℕ} {Data : List UInt8}
    {flags : RevFlag} (h : m.WriteMemFlags Hart Addr Len Data flags = some m') :
    m'.LRSC = m.LRSC := by
  unfold WriteMemFlags at h
  cases htr : (m.RevokeFuture Addr).translate Addr Len with
  | none => simp [htr] at h
  | some t =>
    obtain ⟨p, adj, m₁⟩ := t
    have h₁ : m₁.LRSC = m.LRSC := (translate_LRSC htr).trans rfl
    refine Eq.trans ?_ h₁
    cases hadj : adj with
    | some sp =>
      simp only [htr, hadj] at h
      split at h
      · simp only [Option.some.injEq] at h
        rw [← h]
      · split at h
        · simp at h
        · rename_i m₃ hfront
          exact (physWrite_LRSC h).trans (physWrite_LRSC hfront)
    | none =>
      simp only [htr, hadj] at h
      split at h
      · simp only [Option.some.injEq] at h
        rw [← h]
      · exact physWrite_LRSC h

theorem ReadMem_LRSC {m m' : RevMem} {h h' : Host} {Hart Addr Len Target : ℕ} {req : MemReq}
    {flags : RevFlag} (hread : m.ReadMem h Hart Addr Len Target req flags = some (m', h')) :
    m'.LRSC = m.LRSC := by
  unfold ReadMem at hread
  cases htr : m.translate Addr Len with
  | none => simp [htr] at hread
  | some t =>
    obtain ⟨p, adj, m₁⟩ := t
    refine Eq.trans ?_ (translate_LRSC htr)
    cases hadj : adj with
    | some sp =>
      simp only [htr, hadj] at hread
      split at hread
      · simp at hread
      · rename_i m₂ h₂ hfront
        obtain ⟨bytes, -, hm⟩ := Option.map_eq_some_iff.mp hread
        simp only [Prod.mk.injEq] at hm
        rw [← hm.1]
        split at hfront
        · simp only [Option.some.injEq, Prod.mk.injEq] at hfront
          rw [← hfront.1]
        · obtain ⟨_, -, hm₂⟩ := Option.map_eq_some_iff.mp hfront
          simp only [Prod.mk.injEq] at hm₂
          rw [← hm₂.1]
    | none =>
      simp only [htr, hadj] at hread
      split at hread
      · simp only [Option.some.injEq, Prod.mk.injEq] at hread
        rw [← hread.1]
      · obtain ⟨_, -, hm⟩ := Option.map_eq_some_iff.mp hread
        simp only [Prod.mk.injEq] at hm
        rw [← hm.1]

theorem AMOMem_LRSC {m m' : RevMem} {h h' : Host} {Hart Addr Len Data Target : ℕ} {req : MemReq}
    {flags : RevFlag} (hamo : m.AMOMem h Hart Addr Len Data Target req flags = some (m', h')) :
    m'.LRSC = m.LRSC := by
  unfold AMOMem at hamo
  cases hcalc : m.CalcPhysAddr (Addr / pageSize) Addr with
  | none => simp [hcalc] at hamo
  | some r =>
    obtain ⟨p₁, m₁⟩ := r
    refine Eq.trans ?_ (CalcPhysAddr_LRSC hcalc)
    simp only [hcalc] at hamo
    split at hamo
    · simp only [Option.some.injEq, Prod.mk.injEq] at hamo
      rw [← hamo.1]
    · split at hamo
      · simp at hamo
      · rename_i m₂ h₂ hread
        obtain ⟨m₃, hwrite, hm⟩ := Option.map_eq_some_iff.mp hamo
        simp only [Prod.mk.injEq] at hm
        rw [← hm.1]
        exact (WriteMemFlags_LRSC hwrite).trans (ReadMem_LRSC hread)

/-- What `LRBase` does to the reservations. -/
theorem LRBase_cases {m m' : RevMem} {h h' : Host} {Hart Addr Len Target aq rl : ℕ} {req : MemReq}
    {flags : RevFlag} {ok : Bool}
    (hlr : m.LRBase h Hart Addr Len Target aq rl req flags = some (ok, m', h')) :
    ok = false ∧ m'.LRSC = m.LRSC ∨
    ok = true ∧ (∀ r ∈ m.LRSC, r.addr ≠ Addr) ∧
      m'.LRSC = m.LRSC ++ [⟨Hart, Addr, aq ||| rl <<< 1, Target⟩] := by
  unfold LRBase at hlr
  split at hlr
  · simp only [Option.some.injEq, Prod.mk.injEq] at hlr
    obtain ⟨rfl, rfl, -⟩ := hlr
    exact Or.inl ⟨rfl, rfl⟩
  · rename_i hany
    have hne : ∀ r ∈ m.LRSC, r.addr ≠ Addr := by simpa using hany
    right
    dsimp only at hlr
    split at hlr
    · simp at hlr
    · rename_i p₁ m₁ hcalc
      have h₁ := CalcPhysAddr_LRSC hcalc
      split at hlr
      · simp only [Option.some.injEq, Prod.mk.injEq] at hlr
        obtain ⟨rfl, rfl, -⟩ := hlr
        exact ⟨rfl, hne, h₁⟩
      · obtain ⟨_, -, hm⟩ := Option.map_eq_some_iff.mp hlr
        simp only [Prod.mk.injEq] at hm
        obtain ⟨rfl, rfl, -⟩ := hm
        exact ⟨rfl, hne, h₁⟩

/-- What `SCBase` does to the reservations. -/
theorem SCBase_cases {m m' : RevMem} {h h' : Host} {Hart Addr Len Data Target : ℕ} {flags : RevFlag}
    {ok : Bool} (hsc : m.SCBase h Hart Addr Len Data Target flags = some (ok, m', h')) :
    (ok = false ∧ m'.LRSC = m.LRSC ∧ (m.LRSC.find? (isFor Hart Addr) = none ∨
      ∃ r, m.LRSC.find? (isFor Hart Addr) = some r ∧ scTest h r.val Data Len = false)) ∨
    ok = true ∧ (∃ r, m.LRSC.find? (isFor Hart Addr) = some r ∧ scTest h r.val Data Len = true) ∧
      m'.LRSC = m.LRSC.eraseP (isFor Hart Addr) := by
  unfold SCBase at hsc
  split at hsc
  · rename_i hnone
    simp only [Option.some.injEq, Prod.mk.injEq] at hsc
    obtain ⟨rfl, rfl, -⟩ := hsc
    exact Or.inl ⟨rfl, rfl, Or.inl hnone⟩
  · rename_i r hr
    split at hsc
    · rename_i htest
      obtain ⟨m₁, hwrite, hm⟩ := Option.map_eq_some_iff.mp hsc
      simp only [Prod.mk.injEq] at hm
      obtain ⟨rfl, rfl, -⟩ := hm
      refine Or.inr ⟨rfl, ⟨r, hr, htest⟩, ?_⟩
      dsimp only
      rw [WriteMemFlags_LRSC hwrite]
    · rename_i htest
      simp only [Option.some.injEq, Prod.mk.injEq] at hsc
      obtain ⟨rfl, rfl, -⟩ := hsc
      exact Or.inl ⟨rfl, rfl, Or.inr ⟨r, hr, by simpa using htest⟩⟩

end RevMem

end RevCPU
