import Mathlib.Data.List.Induction
import RevCPU.MemCtrl.Arrival

namespace RevCPU

open Lib

namespace RevBasicMemCtrl

/-- The responses to consecutive requests from `A` on, given by their ids and
    sizes. -/
def answersFrom (mem : ℕ → UInt8) : ℕ → List (ℕ × ℕ) → List ReadResp
  | _, [] => []
  | A, (id, n) :: parts =>
    { id, pAddr := A, size := n, data := getBytes mem A n } :: answersFrom mem (A + n) parts

/-- The operation is split into these requests. -/
structure Partition (op : RevMemOp) (parts : List (ℕ × ℕ)) : Prop where
  two : 2 ≤ parts.length
  pos : ∀ q ∈ parts, 0 < q.2
  ids : (parts.map Prod.fst).Nodup
  size : (parts.map Prod.snd).sum = op.Size
  split : op.SplitRqst = parts.length

/-- The operation with target `p` waits for these responses. The other
    operations in flight, AMOs among them, have other targets. -/
structure Waiting (s : RevBasicMemCtrl) (op : RevMemOp) (p : ℕ) (ids : List ℕ)
    (evs : List ReadResp) : Prop where
  awaits : Awaits s op evs
  foreign : ∀ n ∈ s.outstanding, n.1 ∉ ids → n.2.ptr ≠ op.ptr ∧ n.2.target ≠ some p
  table : ∀ e ∈ s.AMOTable, e.memop.ptr ≠ op.ptr → e.memop.target ≠ some p

/-- The responses to the requests `ids` among those of a run. -/
def received (ids : List ℕ) (tr : List ((RevBasicMemCtrl × Host) × Arrival)) : List ReadResp :=
  tr.filterMap fun q => q.2.own ids

/-- The last of the responses finds the target with all bytes of the memory
    before it extends them and finishes the operation, and the others only copy
    their bytes: in every order and between responses to other operations. -/
def Reassembles (op : RevMemOp) (p : ℕ) (parts : List (ℕ × ℕ)) : Prop :=
  ∀ (mem : ℕ → UInt8) (s s₁ : RevBasicMemCtrl) (h h₁ : Host)
    (tr : List ((RevBasicMemCtrl × Host) × Arrival)) (ev : ReadResp),
    Waiting s op p (parts.map Prod.fst) (answersFrom mem op.Addr parts) →
    Run arrive (s, h) tr (s₁, h₁) →
    (∀ q ∈ tr, q.2.id ∈ parts.map Prod.fst →
      ∃ e ∈ answersFrom mem op.Addr parts, q.2 = .read e) →
    ev ∈ answersFrom mem op.Addr parts →
    (received (parts.map Prod.fst) tr ++ [ev]).Nodup →
    ((received (parts.map Prod.fst) tr).length + 1 < parts.length →
      s₁.handleReadResp h₁ ev = some (s₁.afterRead ev.id, copyResp h₁ op p ev)) ∧
    ((received (parts.map Prod.fst) tr).length + 1 = parts.length →
      (copyResp h₁ op p ev).read p op.Size = getBytes mem op.Addr op.Size ∧
      s₁.handleReadResp h₁ ev =
        (finishRead { s₁ with requests := s₁.requests.erase ev.id } (copyResp h₁ op p ev) op
          (s₁.AMOTable.any (AMOEntry.isFor op))).map fun (s, h) =>
            ({ s.eraseOutstanding ev.id with num_read := s.num_read - 1 }, h))

section
variable {mem : ℕ → UInt8} {op : RevMemOp} {parts : List (ℕ × ℕ)}

theorem answersFrom_ids (mem : ℕ → UInt8) (A : ℕ) (parts : List (ℕ × ℕ)) :
    (answersFrom mem A parts).map ReadResp.id = parts.map Prod.fst := by
  induction parts generalizing A with
  | nil => rfl
  | cons q parts ih =>
    obtain ⟨id, n⟩ := q
    simp only [answersFrom, List.map_cons, ih]

theorem answersFrom_length (mem : ℕ → UInt8) (A : ℕ) (parts : List (ℕ × ℕ)) :
    (answersFrom mem A parts).length = parts.length := by
  have hlen := congrArg List.length (answersFrom_ids mem A parts)
  simpa using hlen

/-- Every response lies in the range and has the bytes of the memory. -/
theorem answersFrom_range {A : ℕ} {ev : ReadResp} (hev : ev ∈ answersFrom mem A parts) :
    A ≤ ev.pAddr ∧ ev.pAddr + ev.size ≤ A + (parts.map Prod.snd).sum ∧
      ev.data = getBytes mem ev.pAddr ev.size := by
  induction parts generalizing A with
  | nil => exact absurd hev List.not_mem_nil
  | cons q parts ih =>
    obtain ⟨id, n⟩ := q
    simp only [List.map_cons, List.sum_cons]
    rcases List.mem_cons.mp hev with rfl | hev
    · exact ⟨le_rfl, by simp, rfl⟩
    · obtain ⟨hlow, hhigh, hdata⟩ := ih hev
      exact ⟨by omega, by omega, hdata⟩

/-- Every byte of the range is in one of the responses. -/
theorem answersFrom_covers (parts : List (ℕ × ℕ)) (mem : ℕ → UInt8) {A v : ℕ} (hlow : A ≤ v)
    (hhigh : v < A + (parts.map Prod.snd).sum) :
    ∃ ev ∈ answersFrom mem A parts, ev.pAddr ≤ v ∧ v < ev.pAddr + ev.size := by
  induction parts generalizing A with
  | nil =>
    simp only [List.map_nil, List.sum_nil] at hhigh
    omega
  | cons q parts ih =>
    obtain ⟨id, n⟩ := q
    simp only [List.map_cons, List.sum_cons] at hhigh
    by_cases hin : v < A + n
    · exact ⟨_, List.mem_cons_self, hlow, hin⟩
    · obtain ⟨ev, hev, hbrings⟩ := ih (A := A + n) (by omega) (by omega)
      exact ⟨ev, List.mem_cons_of_mem _ hev, hbrings⟩

theorem Partition.answers (hpart : Partition op parts) {ev : ReadResp}
    (hev : ev ∈ answersFrom mem op.Addr parts) : Answers op mem ev := by
  obtain ⟨hlow, hhigh, hdata⟩ := answersFrom_range hev
  rw [hpart.size] at hhigh
  refine ⟨hlow, hhigh, hdata, ?_⟩
  intro hone
  have htwo := hpart.two
  rw [hpart.split] at hone
  omega

theorem Partition.nodup (hpart : Partition op parts) (mem : ℕ → UInt8) :
    (answersFrom mem op.Addr parts).Nodup := by
  apply List.Nodup.of_map ReadResp.id
  rw [answersFrom_ids]
  exact hpart.ids

end

theorem Awaits.perm {s : RevBasicMemCtrl} {op : RevMemOp} {evs evs' : List ReadResp}
    (hs : Awaits s op evs) (hperm : evs.Perm evs') : Awaits s op evs' :=
  ⟨fun e he => hs.requests e (hperm.mem_iff.mpr he), fun e he => hs.lookup e (hperm.mem_iff.mpr he),
    (hperm.map ReadResp.id).nodup_iff.mp hs.distinct, hs.count.trans hperm.length_eq,
    fun hone => hperm.length_eq ▸ hs.split hone⟩

namespace Waiting

section
variable {s : RevBasicMemCtrl} {op : RevMemOp} {p : ℕ} {ids : List ℕ} {evs : List ReadResp}
  {h : Host}

/-- A response to another operation. -/
theorem other (hw : Waiting s op p ids evs) (hids : ∀ e ∈ evs, e.id ∈ ids)
    {a : Arrival} (ha : a.id ∉ ids) {s' : RevBasicMemCtrl} {h' : Host}
    (harr : arrive (s, h) a = some (s', h')) :
    Waiting s' op p ids evs ∧ h'.cell p = h.cell p := by
  obtain ⟨op', hop'⟩ := arrive_lookup harr
  obtain ⟨hptr, htgt⟩ := hw.foreign _ (mem_of_lookup hop') ha
  have htable : ∀ e ∈ s.AMOTable, AMOEntry.isFor op' e = true → e.memop.target ≠ some p := by
    intro e he hfor
    apply hw.table e he
    simp only [AMOEntry.isFor, Bool.and_eq_true, beq_iff_eq] at hfor
    rw [hfor.2]
    exact hptr
  have helse := arrive_elsewhere hop' htgt htable harr
  have hne : ∀ e ∈ evs, e.id ≠ a.id := fun e he heq => ha (heq ▸ hids e he)
  refine ⟨⟨⟨?_, ?_, hw.awaits.distinct, ?_, hw.awaits.split⟩, ?_, ?_⟩, helse.cell⟩
  · intro e he
    rw [helse.requests]
    exact (List.mem_erase_of_ne (hne e he)).mpr (hw.awaits.requests e he)
  · intro e he
    rw [helse.outstanding, lookup_eraseP_ne (hne e he)]
    exact hw.awaits.lookup e he
  · have herase := countP_eraseP_key (fun n : ℕ × RevMemOp => n.2.ptr == op.ptr) hop'
    have hcount := hw.awaits.count
    have hfalse : (op'.ptr == op.ptr) = false := by simpa using hptr
    simp only [hfalse, Bool.false_eq_true, if_false] at herase
    simp only [getNumSplitRqsts, helse.outstanding] at hcount ⊢
    omega
  · intro n hn
    rw [helse.outstanding] at hn
    exact hw.foreign n (List.mem_of_mem_eraseP hn)
  · intro e he hptr'
    rcases helse.table e he with he | hnone
    · exact hw.table e he hptr'
    · rw [hnone]
      simp

/-- A response to the operation that is not the last one. -/
theorem part {e : ReadResp} (hw : Waiting s op p ids (e :: evs)) (hne : evs ≠ [])
    (htgt : op.target = some p) :
    arrive (s, h) (.read e) = some (s.afterRead e.id, copyResp h op p e) ∧
      Waiting (s.afterRead e.id) op p ids evs :=
  ⟨hw.awaits.read_part hne htgt h, hw.awaits.afterRead,
    fun n hn => hw.foreign n (List.mem_of_mem_eraseP hn), hw.table⟩

end

end Waiting

/-- The copies of several responses, one after the other. -/
def copyAll (op : RevMemOp) (p : ℕ) (h : Host) (evs : List ReadResp) : Host :=
  evs.foldl (fun h ev => copyResp h op p ev) h

theorem copyAll_snoc (op : RevMemOp) (p : ℕ) (h : Host) (evs : List ReadResp) (ev : ReadResp) :
    copyAll op p h (evs ++ [ev]) = copyResp (copyAll op p h evs) op p ev := by
  simp [copyAll]

theorem copyResp_congr {h h' : Host} {p : ℕ} (heq : h.cell p = h'.cell p) (op : RevMemOp)
    (ev : ReadResp) : (copyResp h op p ev).cell p = (copyResp h' op p ev).cell p := by
  funext i
  unfold copyResp
  split
  · rw [Host.write_cell, Host.write_cell, heq]
  · rw [Host.write_cell, Host.write_cell, heq]

theorem Arrival.own_of_not_mem {ids : List ℕ} {a : Arrival} (ha : a.id ∉ ids) :
    a.own ids = none := by
  cases a with
  | read ev => exact if_neg ha
  | _ => rfl

section
variable {mem : ℕ → UInt8} {op : RevMemOp} {parts : List (ℕ × ℕ)} {p : ℕ} {s : RevBasicMemCtrl}
  {h : Host}

/-- Before its last response an operation waits for the others, and its target
    has been changed by its own responses only. -/
theorem run_waiting (htgt : op.target = some p)
    (hw : Waiting s op p (parts.map Prod.fst) (answersFrom mem op.Addr parts))
    {tr : List ((RevBasicMemCtrl × Host) × Arrival)} {c : RevBasicMemCtrl × Host}
    (hrun : Run arrive (s, h) tr c)
    (hown : ∀ q ∈ tr, q.2.id ∈ parts.map Prod.fst →
      ∃ e ∈ answersFrom mem op.Addr parts, q.2 = .read e)
    {ev : ReadResp} (hev : ev ∈ answersFrom mem op.Addr parts)
    (hnodup : (received (parts.map Prod.fst) tr ++ [ev]).Nodup) :
    ∃ rest, (received (parts.map Prod.fst) tr ++ ev :: rest).Perm (answersFrom mem op.Addr parts) ∧
      Waiting c.1 op p (parts.map Prod.fst) (ev :: rest) ∧
      c.2.cell p = (copyAll op p h (received (parts.map Prod.fst) tr)).cell p := by
  have hid : ∀ e ∈ answersFrom mem op.Addr parts, e.id ∈ parts.map Prod.fst := by
    intro e he
    rw [← answersFrom_ids mem op.Addr parts]
    exact List.mem_map_of_mem he
  induction hrun with
  | nil =>
    obtain ⟨l₁, l₂, hsplit⟩ := List.append_of_mem hev
    have hperm : (ev :: (l₁ ++ l₂)).Perm (answersFrom mem op.Addr parts) := by
      rw [hsplit]
      exact List.perm_middle.symm
    exact ⟨l₁ ++ l₂, hperm, ⟨hw.awaits.perm hperm.symm, hw.foreign, hw.table⟩, rfl⟩
  | @snoc tr c c' a hrun hstep ih =>
    have hsnoc : received (parts.map Prod.fst) (tr ++ [(c, a)]) =
        received (parts.map Prod.fst) tr ++ (a.own (parts.map Prod.fst)).toList := by
      unfold received
      rw [List.filterMap_append]
      cases hown' : a.own (parts.map Prod.fst) <;> simp [hown']
    have hown₀ := hown (c, a) (by simp)
    have hprefix : (received (parts.map Prod.fst) tr ++ [ev]).Nodup := by
      refine hnodup.sublist ?_
      rw [hsnoc, List.append_assoc]
      exact (List.sublist_append_right _ _).append_left _
    obtain ⟨rest, hperm, hwait, hcell⟩ := ih (fun q hq => hown q (by simp [hq])) hprefix
    obtain ⟨s₁, h₁⟩ := c
    obtain ⟨s₂, h₂⟩ := c'
    by_cases ha : a.id ∈ parts.map Prod.fst
    · obtain ⟨e, he, rfl⟩ := hown₀ ha
      have hown₁ : Arrival.own (parts.map Prod.fst) (.read e) = some e := if_pos ha
      rw [hsnoc, hown₁, Option.toList_some] at hnodup ⊢
      have hne : e ≠ ev := by
        rintro rfl
        simp [List.nodup_append] at hnodup
      have hnew : e ∉ received (parts.map Prod.fst) tr := by
        intro hmem
        rw [List.append_assoc] at hnodup
        exact List.disjoint_of_nodup_append hnodup hmem (by simp)
      have hrest : e ∈ rest := by
        have hmem := hperm.mem_iff.mpr he
        simpa [hnew, hne] using hmem
      obtain ⟨l₁, l₂, rfl⟩ := List.append_of_mem hrest
      have hmove : (ev :: (l₁ ++ e :: l₂)).Perm (e :: ev :: (l₁ ++ l₂)) :=
        (List.perm_middle.cons ev).trans (List.Perm.swap _ _ _)
      have hwait' : Waiting s₁ op p (parts.map Prod.fst) (e :: ev :: (l₁ ++ l₂)) :=
        ⟨hwait.awaits.perm hmove, hwait.foreign, hwait.table⟩
      obtain ⟨hread, hafter⟩ := hwait'.part (h := h₁) (by simp) htgt
      obtain ⟨rfl, rfl⟩ := Prod.mk.inj (Option.some.inj (hread.symm.trans hstep))
      refine ⟨l₁ ++ l₂, ?_, hafter, ?_⟩
      · rw [List.append_assoc]
        exact (hmove.symm.append_left _).trans hperm
      · rw [copyAll_snoc]
        exact copyResp_congr hcell op e
    · rw [hsnoc, Arrival.own_of_not_mem ha, Option.toList_none, List.append_nil]
      have hids : ∀ e ∈ ev :: rest, e.id ∈ parts.map Prod.fst := fun e he =>
        hid e (hperm.mem_iff.mp (List.mem_append.mpr (.inr he)))
      obtain ⟨hwait', hsame⟩ := hwait.other hids ha hstep
      exact ⟨rest, hperm, hwait', hsame.trans hcell⟩

/-- Copies at small offsets put the bytes where they belong. -/
theorem copyAll_cell {evs : List ReadResp} (hans : ∀ ev ∈ evs, Answers op mem ev)
    (hoff : ∀ ev ∈ evs, ev.pAddr - op.Addr < 2 ^ 8) (h : Host) {i : ℕ}
    (hi : ∃ ev ∈ evs, ReadResp.Brings op ev i) :
    (copyAll op p h evs).cell p i = mem (op.Addr + i) := by
  induction evs using List.reverseRecOn with
  | nil => simp at hi
  | append_singleton evs ev ih =>
    rw [copyAll_snoc, copyResp_cell_of_lt (hans ev (by simp)) (hoff ev (by simp))]
    by_cases hin : ReadResp.Brings op ev i
    · rw [if_pos hin]
    · rw [if_neg hin]
      refine ih (fun e he => hans e (by simp [he])) (fun e he => hoff e (by simp [he])) ?_
      obtain ⟨e, he, hbrings⟩ := hi
      rcases List.mem_append.mp he with he | he
      · exact ⟨e, he, hbrings⟩
      · rw [List.mem_singleton.mp he] at hbrings
        exact absurd hbrings hin

/-- What the property says at a response, whether it is copied well or not. -/
theorem response_step (h₁ : Host) (htgt : op.target = some p) {s₁ : RevBasicMemCtrl} {ev : ReadResp}
    {rest : List ReadResp} (hw : Waiting s₁ op p (parts.map Prod.fst) (ev :: rest)) :
    (rest ≠ [] → s₁.handleReadResp h₁ ev = some (s₁.afterRead ev.id, copyResp h₁ op p ev)) ∧
    (rest = [] → s₁.handleReadResp h₁ ev =
      (finishRead { s₁ with requests := s₁.requests.erase ev.id } (copyResp h₁ op p ev) op
        (s₁.AMOTable.any (AMOEntry.isFor op))).map fun (s, h) =>
          ({ s.eraseOutstanding ev.id with num_read := s.num_read - 1 }, h)) := by
  refine ⟨fun hne => hw.awaits.read_part hne htgt h₁, ?_⟩
  rintro rfl
  exact hw.awaits.read_last htgt h₁

/-- Where the last of the requests starts. -/
def lastStart (parts : List (ℕ × ℕ)) : ℕ := (parts.dropLast.map Prod.snd).sum

theorem answersFrom_append (mem : ℕ → UInt8) (A : ℕ) (xs ys : List (ℕ × ℕ)) :
    answersFrom mem A (xs ++ ys) =
      answersFrom mem A xs ++ answersFrom mem (A + (xs.map Prod.snd).sum) ys := by
  induction xs generalizing A with
  | nil => rfl
  | cons q xs ih =>
    obtain ⟨id, n⟩ := q
    simp only [List.cons_append, answersFrom, ih, List.map_cons, List.sum_cons, Nat.add_assoc]

/-- A request starts in front of the last one and ends there, or is the last
    one. -/
theorem answersFrom_start {A : ℕ} {ev : ReadResp} (hev : ev ∈ answersFrom mem A parts) :
    ev.pAddr + ev.size ≤ A + lastStart parts ∨ ev.pAddr = A + lastStart parts := by
  have hne : parts ≠ [] := by
    rintro rfl
    exact absurd hev List.not_mem_nil
  rw [← List.dropLast_append_getLast hne, answersFrom_append] at hev
  rcases List.mem_append.mp hev with hev | hev
  · exact .inl (answersFrom_range hev).2.1
  · right
    rw [List.mem_singleton.mp hev]
    rfl

/-- Split reads whose last part starts in the first 256 bytes. -/
theorem reassembles_of_lastStart (hpart : Partition op parts) (htgt : op.target = some p)
    (hlast : lastStart parts < 2 ^ 8) : Reassembles op p parts := by
  intro mem s s₁ h h₁ tr ev hw hrun hown hev hnodup
  obtain ⟨rest, hperm, hwait, hcell⟩ := run_waiting htgt hw hrun hown hev hnodup
  have hlen := hperm.length_eq
  rw [List.length_append, List.length_cons, answersFrom_length] at hlen
  obtain ⟨hmid, hend⟩ := response_step h₁ htgt hwait
  refine ⟨?_, ?_⟩
  · intro hmore
    apply hmid
    rintro rfl
    simp only [List.length_nil] at hlen
    omega
  · intro hall
    have hrest : rest = [] := List.length_eq_zero_iff.mp (by omega)
    refine ⟨?_, hend hrest⟩
    subst hrest
    have hoff : ∀ e ∈ answersFrom mem op.Addr parts, e.pAddr - op.Addr < 2 ^ 8 := by
      intro e he
      have hstart := answersFrom_start he
      omega
    have hbytes : (copyResp h₁ op p ev).cell p =
        (copyAll op p h (received (parts.map Prod.fst) tr ++ [ev])).cell p := by
      rw [copyAll_snoc]
      exact copyResp_congr hcell op ev
    refine List.map_congr_left fun i hi => ?_
    have hlt := List.mem_range.mp hi
    obtain ⟨e, he, hfrom, hto⟩ := answersFrom_covers parts mem
      (Nat.le_add_right op.Addr i) (by rw [hpart.size]; omega)
    rw [hbytes]
    refine copyAll_cell (fun e he => hpart.answers (hperm.mem_iff.mp he))
      (fun e he => hoff e (hperm.mem_iff.mp he)) h ⟨e, hperm.mem_iff.mpr he, hfrom, hto⟩

/-- A memory with one byte that is not zero. -/
def spot (a v : ℕ) : UInt8 := if v = a then 1 else 0

/-- A byte at a start past the first 256 is not copied to its place. -/
theorem copyAll_spot (hpart : Partition op parts) (hlast : 2 ^ 8 ≤ lastStart parts)
    (evs : List ReadResp)
    (hevs : ∀ ev ∈ evs, ev ∈ answersFrom (spot (op.Addr + lastStart parts)) op.Addr parts) :
    (copyAll op p ⟨fun _ _ => 0, []⟩ evs).cell p (lastStart parts) = 0 := by
  induction evs using List.reverseRecOn with
  | nil => rfl
  | append_singleton evs ev ih =>
    have hprev := ih fun e he => hevs e (by simp [he])
    have hev := hevs ev (by simp)
    have hstart := answersFrom_start hev
    obtain ⟨hlow, -, hdata⟩ := answersFrom_range hev
    have hsplit : op.SplitRqst > 1 := by
      have htwo := hpart.two
      rw [hpart.split]
      omega
    rw [copyAll_snoc, copyResp, if_pos hsplit, Host.write_cell, copyBuf_length]
    generalize hk : (ev.pAddr - op.Addr) % 2 ^ 32 % 2 ^ 8 = k
    by_cases hin : k ≤ lastStart parts ∧ lastStart parts < k + ev.size
    · rw [if_pos hin, copyBuf_getD (by omega), hdata, getBytes_getD _ _ (by omega), spot]
      apply if_neg
      intro heq
      omega
    · rw [if_neg hin]
      exact hprev

/-- The responses in the order of their addresses, up to one of them. -/
theorem run_prefix (htgt : op.target = some p) {l₁ l₂ : List ReadResp}
    (hw : Waiting s op p (parts.map Prod.fst) (l₁ ++ l₂)) (hne : l₂ ≠ []) :
    ∃ tr s₁ h₁, Run arrive (s, h) tr (s₁, h₁) ∧ tr.map Prod.snd = l₁.map .read ∧
      Waiting s₁ op p (parts.map Prod.fst) l₂ := by
  induction l₁ using List.reverseRecOn generalizing l₂ with
  | nil => exact ⟨[], s, h, .nil, rfl, hw⟩
  | append_singleton l₁ e ih =>
    rw [List.append_assoc] at hw
    obtain ⟨tr, s₁, h₁, hrun, htr, hwait⟩ := ih hw (by simp)
    obtain ⟨hread, hafter⟩ := Waiting.part (h := h₁) hwait hne htgt
    refine ⟨tr ++ [((s₁, h₁), .read e)], _, _, hrun.snoc hread, ?_, hafter⟩
    rw [List.map_append, htr, List.map_append]
    rfl

end

/-- A controller that waits for the responses to one operation. -/
def onlyOp (op : RevMemOp) (ids : List ℕ) : RevBasicMemCtrl :=
  { requests := ids, outstanding := ids.map fun id => (id, op) }

theorem onlyOp_waiting {op : RevMemOp} {parts : List (ℕ × ℕ)} (hpart : Partition op parts) (p : ℕ)
    (mem : ℕ → UInt8) :
    Waiting (onlyOp op (parts.map Prod.fst)) op p (parts.map Prod.fst)
      (answersFrom mem op.Addr parts) := by
  have hid : ∀ e ∈ answersFrom mem op.Addr parts, e.id ∈ parts.map Prod.fst := by
    intro e he
    rw [← answersFrom_ids mem op.Addr parts]
    exact List.mem_map_of_mem he
  refine ⟨⟨hid, ?_, ?_, ?_, ?_⟩, ?_, ?_⟩
  · intro e he
    apply lookup_of_mem
    · simpa [onlyOp, Function.comp_def] using hpart.ids
    · exact List.mem_map.mpr ⟨e.id, hid e he, rfl⟩
  · rw [answersFrom_ids]
    exact hpart.ids
  · rw [answersFrom_length]
    simp [getNumSplitRqsts, onlyOp, List.countP_map, Function.comp_def]
  · intro hone
    have htwo := hpart.two
    rw [hpart.split] at hone
    omega
  · intro n hn hout
    obtain ⟨id, hid', rfl⟩ := List.mem_map.mp hn
    exact absurd hid' hout
  · intro e he
    exact absurd he List.not_mem_nil

theorem lastStart_lt {op : RevMemOp} {parts : List (ℕ × ℕ)} (hpart : Partition op parts) :
    lastStart parts < op.Size := by
  have hne : parts ≠ [] := by
    rintro rfl
    exact absurd hpart.two (by decide)
  have hsize := hpart.size
  rw [← List.dropLast_append_getLast hne, List.map_append, List.sum_append] at hsize
  have hpos := hpart.pos _ (List.getLast_mem hne)
  simp only [List.map_cons, List.map_nil, List.sum_cons, List.sum_nil] at hsize
  unfold lastStart
  omega

/-- With one spot in the memory, the target misses it after all responses. -/
theorem lastStart_of_reassembles {op : RevMemOp} {p : ℕ} {parts : List (ℕ × ℕ)}
    (hpart : Partition op parts) (htgt : op.target = some p) (hright : Reassembles op p parts) :
    lastStart parts < 2 ^ 8 := by
  by_contra hlarge
  have hspot := copyAll_spot (p := p) hpart (Nat.le_of_not_lt hlarge) (answersFrom
    (spot (op.Addr + lastStart parts)) op.Addr parts) fun _ hev => hev
  generalize hmem : spot (op.Addr + lastStart parts) = mem at hspot
  have hlen := answersFrom_length mem op.Addr parts
  have hne : answersFrom mem op.Addr parts ≠ [] := by
    intro hnil
    have htwo := hpart.two
    rw [hnil, List.length_nil] at hlen
    omega
  have hsplit := List.dropLast_append_getLast hne
  generalize (answersFrom mem op.Addr parts).dropLast = before at hsplit
  generalize (answersFrom mem op.Addr parts).getLast hne = ev at hsplit
  have hw := onlyOp_waiting hpart p mem
  rw [← hsplit] at hw hspot hlen
  obtain ⟨tr, s₁, h₁, hrun, htr, -⟩ := run_prefix (h := ⟨fun _ _ => 0, []⟩) htgt hw (by simp)
  have hown : ∀ q ∈ tr, ∃ e ∈ before, q.2 = .read e := by
    intro q hq
    have hq₂ : q.2 ∈ before.map .read := htr ▸ List.mem_map_of_mem hq
    obtain ⟨e, he, heq⟩ := List.mem_map.mp hq₂
    exact ⟨e, he, heq.symm⟩
  have hid : ∀ e ∈ before ++ [ev], e.id ∈ parts.map Prod.fst := by
    intro e he
    rw [← answersFrom_ids mem op.Addr parts, ← hsplit]
    exact List.mem_map_of_mem he
  have hreceived : received (parts.map Prod.fst) tr = before := by
    have hmap : received (parts.map Prod.fst) tr =
        (tr.map Prod.snd).filterMap fun a => a.own (parts.map Prod.fst) := by
      rw [List.filterMap_map]
      rfl
    rw [hmap, htr, List.filterMap_map]
    refine (List.filterMap_congr fun e he => ?_).trans List.filterMap_some
    exact if_pos (hid e (by simp [he]))
  have hnodup := hpart.nodup mem
  rw [← hsplit] at hnodup
  have hown' : ∀ q ∈ tr, q.2.id ∈ parts.map Prod.fst →
      ∃ e ∈ answersFrom mem op.Addr parts, q.2 = .read e := by
    intro q hq _
    obtain ⟨e, he, heq⟩ := hown q hq
    exact ⟨e, hsplit ▸ List.mem_append_left _ he, heq⟩
  have hev : ev ∈ answersFrom mem op.Addr parts := hsplit ▸ by simp
  rw [hsplit] at hw
  obtain ⟨-, -, -, hcell⟩ := run_waiting htgt hw hrun hown' hev (by rwa [hreceived])
  obtain ⟨hread, -⟩ := (hright mem _ s₁ _ h₁ tr ev hw hrun hown' hev (by rwa [hreceived])).2
    (by rw [hreceived]; simpa using hlen)
  have hbyte := congrArg (fun l => l.getD (lastStart parts) 0) hread
  have hlt := lastStart_lt hpart
  simp only [Host.read_getD _ _ hlt, getBytes_getD _ _ hlt] at hbyte
  rw [copyResp_congr hcell, hreceived, ← copyAll_snoc, hspot, ← hmem, spot, if_pos rfl] at hbyte
  exact absurd hbyte (by decide)

/-- A split read is put together from the responses exactly when its last part
    starts in the first 256 bytes. -/
theorem reassembles_iff {op : RevMemOp} {p : ℕ} {parts : List (ℕ × ℕ)} (hpart : Partition op parts)
    (htgt : op.target = some p) : Reassembles op p parts ↔ lastStart parts < 2 ^ 8 :=
  ⟨lastStart_of_reassembles hpart htgt, reassembles_of_lastStart hpart htgt⟩

/-- A read of 8 bytes, four from each of two lines. -/
def halvesOp : RevMemOp :=
  { ptr := 0, seq := 0, Hart := 0, Addr := 60, PAddr := 60, Size := 8, Op := .MemOpREAD,
    flags := .F_NONE, SplitRqst := 2, target := some 5 }

theorem halves_reassemble : Reassembles halvesOp 5 [(0, 4), (1, 4)] :=
  (reassembles_iff ⟨by decide, by decide, by decide, by decide, by decide⟩ rfl).mpr (by decide)

/-- A read of four lines of 64 bytes and one byte of the next loses that byte. -/
theorem long_read_loses_byte :
    ¬Reassembles { halvesOp with Addr := 0, Size := 257, SplitRqst := 5 } 5
      [(0, 64), (1, 64), (2, 64), (3, 64), (4, 1)] := by
  intro hright
  have hlt := lastStart_of_reassembles ⟨by decide, by decide, by decide, by decide, by decide⟩ rfl
    hright
  exact absurd hlt (by decide)

end RevBasicMemCtrl

end RevCPU
