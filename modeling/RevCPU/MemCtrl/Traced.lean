import RevCPU.MemCtrl.InFlight

namespace RevCPU

open Lib RevBasicMemCtrl

namespace Call

/-- The call changes the memory. -/
def writes : Call → Bool
  | WRITE .. | AMO .. => true
  | _ => false

/-- The bytes that the call brings along. -/
def operand (c : Call) : List UInt8 := (c.memOp 0).membuf

end Call

namespace Effect

def covers (e : Effect) (a : ℕ) : Bool := decide (e.addr ≤ a) && decide (a < e.addr + e.data.length)

def val (e : Effect) (a : ℕ) : UInt8 := e.data.getD (a - e.addr) 0

/-- The effect as an access to the memory. -/
def access (e : Effect) : Lib.Access ℕ ℕ UInt8 := ⟨e.seq, e.write, e.covers, e.val⟩

theorem covers_iff {e : Effect} {a : ℕ} :
    e.covers a = true ↔ e.addr ≤ a ∧ a < e.addr + e.data.length := by
  simp [covers]

end Effect

/-- The byte that the reads, or the writes, of an operation had at an address. -/
def logAt (log : List Effect) (write : Bool) (seq a : ℕ) : Option UInt8 :=
  (log.find? fun e => e.seq == seq && e.write == write && e.covers a).map fun e => e.val a

theorem logAt_concat (log : List Effect) (e : Effect) (write : Bool) (seq a : ℕ) :
    logAt (log ++ [e]) write seq a =
      (logAt log write seq a).or
        (if e.seq = seq ∧ e.write = write ∧ e.covers a = true then some (e.val a) else none) := by
  unfold logAt
  rw [List.find?_append]
  cases hfind : log.find? fun e => e.seq == seq && e.write == write && e.covers a with
  | some x => simp
  | none =>
    simp only [Option.map_none, Option.none_or]
    by_cases h : e.seq = seq ∧ e.write = write ∧ e.covers a = true
    · simp [List.find?, h]
    · rw [if_neg h]
      have hfalse : (e.seq == seq && e.write == write && e.covers a) = false := by
        rw [Bool.eq_false_iff]
        intro htrue
        simp only [Bool.and_eq_true, beq_iff_eq] at htrue
        exact h ⟨htrue.1.1, htrue.1.2, htrue.2⟩
      simp [List.find?, hfalse]

theorem logAt_concat_of_ne {log : List Effect} {e : Effect} {write : Bool} {seq a : ℕ}
    (h : e.seq ≠ seq ∨ e.write ≠ write ∨ e.covers a = false) :
    logAt (log ++ [e]) write seq a = logAt log write seq a := by
  rw [logAt_concat, if_neg, Option.or_none]
  rintro ⟨h₁, h₂, h₃⟩
  rcases h with h | h | h
  · exact h h₁
  · exact h h₂
  · rw [h₃] at h
    simp at h

theorem logAt_concat_of_some {log : List Effect} (e : Effect) {write : Bool} {seq a : ℕ} {v : UInt8}
    (h : logAt log write seq a = some v) : logAt (log ++ [e]) write seq a = some v := by
  rw [logAt_concat, h]
  rfl

theorem logAt_eq_none_of_seq {log : List Effect} {seq : ℕ} (h : ∀ e ∈ log, e.seq ≠ seq)
    (write : Bool) (a : ℕ) : logAt log write seq a = none := by
  unfold logAt
  rw [Option.map_eq_none_iff, List.find?_eq_none]
  intro e he
  simp [h e he]

namespace RevMemOp

/-- The address is one of the bytes of the operation. -/
def Touches (op : RevMemOp) (a : ℕ) : Prop := op.Addr ≤ a ∧ a < op.Addr + op.Size

end RevMemOp

namespace Backed

/-- A request of the operation is in flight for the address. -/
def Waits (s : Backed) (op : RevMemOp) (a : ℕ) : Prop :=
  ∃ r ∈ s.sys.ctrl.memIface, (r.id, op) ∈ s.sys.ctrl.outstanding ∧ r.pAddr ≤ a ∧ a < r.pAddr + r.size

/-- Such a request has not taken effect. -/
def Undone (s : Backed) (op : RevMemOp) (a : ℕ) : Prop :=
  ∃ r ∈ s.sys.ctrl.memIface, (r.id, op) ∈ s.sys.ctrl.outstanding ∧ r.pAddr ≤ a ∧
    a < r.pAddr + r.size ∧ s.done.lookup r.id = none

/-- What the log and the target of an operation hold while it is worked on.
    `undone` and `waits` are the addresses where the operation has not taken
    effect, and where it has not been answered. -/
structure Tracks (log : List Effect) (h : Host) (undone waits : ℕ → Prop) (c : Call)
    (op : RevMemOp) : Prop where
  final : ∀ a, logAt log (op.Op == .MemOpWRITE) op.seq a = none ↔ ¬op.Touches a ∨ undone a
  unwritten : op.Op = .MemOpREAD → ∀ a, logAt log true op.seq a = none
  arrived : op.Op = .MemOpREAD → ∀ p, c.target = some p → ∀ i < op.Size, ¬waits (op.Addr + i) →
    logAt log false op.seq (op.Addr + i) = some (h.cell p i)
  half : op.Op = .MemOpWRITE → c.isAMO = true → ∀ p, c.target = some p →
    (∀ i < op.Size, logAt log false op.seq (op.Addr + i) = some (h.cell p i)) ∧
      op.membuf = amoNew op.flags op.Size (h.read p op.Size) c.operand

/-- What they hold once it is answered. -/
structure Retired (log : List Effect) (returned : List (ℕ × List UInt8)) (k : ℕ) (c : Call) :
    Prop where
  final : ∀ i < c.Size, logAt log c.writes k (c.Addr + i) ≠ none
  value : c.reads = true → ∃ old, (k, old) ∈ returned ∧ old.length = c.Size ∧
    ∀ i < c.Size, logAt log false k (c.Addr + i) = some (old.getD i 0)

/-- An effect is one of its call: it is inside the range of the call, where the
    call has had no such effect before and has not written; a read finds the
    memory; a write brings the operand or the result of the AMO on the bytes
    that it has read. -/
structure Logged (m₀ : ℕ → UInt8) (c : Call) (l : List Effect) (e : Effect) : Prop where
  fence : c.isFence = false
  inside : ∀ a, e.covers a = true → c.Addr ≤ a ∧ a < c.Addr + c.Size
  fresh : ∀ a, e.covers a = true → logAt l e.write e.seq a = none ∧ logAt l true e.seq a = none
  kind : (e.write = true → c.writes = true) ∧ (e.write = false → c.reads = true)
  read : e.write = false → ∀ a, e.covers a = true → e.val a = after m₀ (l.map Effect.access) a
  write : e.write = true → c.isAMO = false → ∀ a, e.covers a = true →
    e.val a = c.operand.getD (a - c.Addr) 0
  amo : e.write = true → c.isAMO = true → ∃ old, old.length = c.Size ∧
    (∀ i < c.Size, logAt l false e.seq (c.Addr + i) = some (old.getD i 0)) ∧
    ∀ a, e.covers a = true → e.val a = (amoNew c.flags c.Size old c.operand).getD (a - c.Addr) 0

/-- The addresses where an operation still has to take effect, or to be
    answered: all of them while it is queued. -/
def NotDone (s : Backed) (op : RevMemOp) (a : ℕ) : Prop := op ∈ s.sys.ctrl.rqstQ ∨ s.Undone op a

def NotAnswered (s : Backed) (op : RevMemOp) (a : ℕ) : Prop := op ∈ s.sys.ctrl.rqstQ ∨ s.Waits op a

/-- The invariant of the controller in front of a memory: how the bytes go from
    the memory to the targets and back. -/
structure Traced (P : Params) (m₀ : ℕ → UInt8) (s : Backed) : Prop where
  flight : s.sys.InFlight P
  doneIds : (s.done.map Prod.fst).Nodup ∧ ∀ d ∈ s.done, d.1 ∈ s.sys.ctrl.requests
  doneData : ∀ r ∈ s.sys.ctrl.memIface, ∀ op, (r.id, op) ∈ s.sys.ctrl.outstanding →
    op.Op = .MemOpREAD → ∀ data, s.done.lookup r.id = some data → data.length = r.size ∧
      ∀ j < r.size, logAt s.log false op.seq (r.pAddr + j) = some (data.getD j 0)
  tracks : ∀ op ∈ s.sys.ctrl.live, ∀ c, (op.seq, c) ∈ s.sys.issued → c.isFence = false →
    Tracks s.log s.sys.host (s.NotDone op) (s.NotAnswered op) c op
  retired : ∀ k c, (k, c) ∈ s.sys.issued → c.isFence = false → (∀ op ∈ s.sys.ctrl.live, op.seq ≠ k) →
    Retired s.log s.returned k c
  memory : s.mem = after m₀ (s.log.map Effect.access)
  logged : ∀ l₁ e l₂, s.log = l₁ ++ e :: l₂ →
    ∃ c, (e.seq, c) ∈ s.sys.issued ∧ Logged m₀ c l₁ e

end Backed

end RevCPU
