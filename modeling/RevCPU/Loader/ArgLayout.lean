import RevCPU.Loader.ArgWrites

namespace RevCPU

open Lib

namespace RevLoader

section

variable {args : List (List UInt8)} {i j : ℕ}

theorem stringBytes_take_le (args : List (List UInt8)) (i : ℕ) :
    stringBytes (args.take i) ≤ stringBytes args := by
  have hsplit := stringBytes_append (args.take i) (args.drop i)
  rw [List.take_append_drop] at hsplit
  omega

/-- A string ends where the next one starts. -/
theorem stringBytes_take_succ (hi : i < args.length) :
    stringBytes (args.take (i + 1)) = stringBytes (args.take i) + (args[i].length + 1) := by
  rw [List.take_add_one, List.getElem?_eq_getElem hi, stringBytes_append]
  rfl

theorem stringBytes_take_lt (hij : i < j) (hj : j < args.length) :
    stringBytes (args.take i) + (args[i].length + 1) ≤ stringBytes (args.take j) := by
  have hle := stringBytes_take_le (args.take j) (i + 1)
  rw [List.take_take, Nat.min_eq_left hij, stringBytes_take_succ] at hle
  exact hle

/-- The addresses as they are stored. -/
theorem ptrBytes_part (hi : i < args.length) (top : ℕ) :
    ((ptrBytes args top).drop (8 * i)).take 8 = leBytes 8 (top + stringBytes (args.take i)) := by
  induction args generalizing top i with
  | nil => exact absurd hi (Nat.not_lt_zero i)
  | cons arg args ih =>
    cases i with
    | zero => exact List.take_left' (leBytes_length 8 top)
    | succ i =>
      have hskip : 8 * (i + 1) = (leBytes 8 top).length + 8 * i := by
        rw [leBytes_length]
        omega
      rw [ptrBytes, hskip, ← List.drop_drop, List.drop_left, ih (Nat.lt_of_succ_lt_succ hi), List.take_succ_cons,
        stringBytes_cons, Nat.add_assoc]

/-- The strings as they are stored. -/
theorem argBytes_part (hi : i < args.length) :
    ((argBytes args).drop (stringBytes (args.take i))).take (args[i].length + 1) =
      args[i] ++ [0] := by
  induction args generalizing i with
  | nil => exact absurd hi (Nat.not_lt_zero i)
  | cons arg args ih =>
    have hcons : argBytes (arg :: args) = (arg ++ [0]) ++ argBytes args := rfl
    have hlen : (arg ++ [0]).length = arg.length + 1 := by simp
    cases i with
    | zero =>
      rw [hcons]
      exact List.take_left' hlen
    | succ i =>
      rw [hcons, List.take_succ_cons, stringBytes_cons, ← hlen, ← List.drop_drop,
        List.drop_left]
      exact ih (Nat.lt_of_succ_lt_succ hi)

/-- The strings follow one another without a gap. -/
theorem exists_string {k : ℕ} (hk : k < stringBytes args) :
    ∃ i, ∃ hi : i < args.length, stringBytes (args.take i) ≤ k ∧
      k < stringBytes (args.take i) + (args[i].length + 1) := by
  induction args generalizing k with
  | nil => exact absurd hk (Nat.not_lt_zero k)
  | cons arg args ih =>
    rw [stringBytes_cons] at hk
    by_cases hfirst : k < arg.length + 1
    · exact ⟨0, Nat.succ_pos _, Nat.zero_le k, by simpa [stringBytes] using hfirst⟩
    · obtain ⟨i, hi, hlow, hhigh⟩ := ih (k := k - (arg.length + 1)) (by omega)
      refine ⟨i + 1, Nat.succ_lt_succ hi, ?_, ?_⟩
      · rw [List.take_succ_cons, stringBytes_cons]
        omega
      · rw [List.take_succ_cons, stringBytes_cons, List.getElem_cons_succ]
        omega

end

/-- `argv` of a loader that has been constructed. -/
def argvOf (L : RevLoader) : List (List UInt8) := splitStr L.args 32 [L.exe]

/-- Where `LoadProgramArgs` writes: from the count to the end of the array, and
    below the top of the memory. -/
def argRegion (L : RevLoader) (v : ℕ) : Prop :=
  L.mem.stacktop + 48 ≤ v ∧ v < L.mem.stacktop + 60 + 8 * L.argvOf.length ∨
    L.mem.memSize - stringBytes L.argvOf ≤ v ∧ v < L.mem.memSize

/-- The memory serves what `LoadProgramArgs` writes. The stack starts below the
    1024 bytes at the top; behind a controller neither block crosses a page. -/
structure ArgsServed (L : RevLoader) : Prop where
  argv : L.argv = []
  header : L.mem.stacktop + 1024 ≤ L.mem.memSize
  strings : stringBytes L.argvOf ≤ L.mem.memSize
  mem : L.mem.Writable L.argRegion
  onePage : L.mem.ctrl.isSome = true →
    (L.mem.stacktop + 48) % RevMem.pageSize + (12 + 8 * L.argvOf.length) ≤ RevMem.pageSize ∧
    (L.mem.memSize - stringBytes L.argvOf) % RevMem.pageSize + stringBytes L.argvOf ≤
      RevMem.pageSize

/-- The strings and the array do not meet, and the count fits its four bytes. -/
def ArgsFit (L : RevLoader) : Prop :=
  L.argvOf.length < 2 ^ 32 ∧
    L.mem.stacktop + 60 + 8 * L.argvOf.length + stringBytes L.argvOf ≤ L.mem.memSize

/-- The pointer `i` of the array. -/
def argPtr (L : RevLoader) (mem : ℕ → UInt8) (i : ℕ) : ℕ :=
  leNat (getBytes (L.mem.contents mem) (L.mem.stacktop + 60 + 8 * i) 8)

/-- Of two blocks one ends before the other. -/
def BlocksApart (a m b n : ℕ) : Prop := a + m ≤ b ∨ b + n ≤ a

/-- The count, the array and the strings are in the memory, apart from one
    another, at the top of it or at valid addresses. -/
structure ArgvLaidOut (argv : List (List UInt8)) (L : RevLoader) (mem : ℕ → UInt8) : Prop where
  argc : leNat (getBytes (L.mem.contents mem) (L.mem.stacktop + 48) 4) = argv.length
  copies : ∀ i (hi : i < argv.length),
    getBytes (L.mem.contents mem) (L.argPtr mem i) (argv[i].length + 1) = argv[i] ++ [0]
  apart : ∀ i j (hij : i < j) (hj : j < argv.length),
    BlocksApart (L.argPtr mem i) (argv[i].length + 1) (L.argPtr mem j) (argv[j].length + 1)
  array : ∀ i (hi : i < argv.length), BlocksApart (L.argPtr mem i) (argv[i].length + 1)
    (L.mem.stacktop + 60) (8 * argv.length)
  inside : ∀ v, (L.mem.stacktop + 48 ≤ v ∧ v < L.mem.stacktop + 60 + 8 * argv.length ∨
      ∃ i, ∃ hi : i < argv.length, L.argPtr mem i ≤ v ∧
        v < L.argPtr mem i + (argv[i].length + 1)) →
    L.mem.memSize - 1024 ≤ v ∧ v < L.mem.memSize ∨ L.mem.isValidVirtAddr v = true

section

variable {L : RevLoader}

/-- The argument strings and the name have at least a terminator. -/
theorem argvOf_pos (L : RevLoader) : 0 < L.argvOf.length := by
  unfold argvOf splitStr
  split
  · exact Nat.one_pos
  · rw [List.length_append, List.length_singleton]
    omega

theorem stringBytes_pos {args : List (List UInt8)} (h : 0 < args.length) : 0 < stringBytes args := by
  cases args with
  | nil => exact absurd h (Nat.not_lt_zero 0)
  | cons arg args =>
    rw [stringBytes_cons]
    omega

/-- The blocks end below the top of the address space. -/
theorem ArgsServed.lt (h : L.ArgsServed) :
    L.mem.memSize < W64 ∧ L.mem.stacktop + 60 + 8 * L.argvOf.length < W64 := by
  have hn := L.argvOf_pos
  have hS := stringBytes_pos hn
  have hstrings := h.strings
  have htop : L.argRegion (L.mem.memSize - 1) := .inr (by omega)
  have harray : L.argRegion (L.mem.stacktop + 60 + 8 * L.argvOf.length - 1) := .inl (by omega)
  have hlt := h.mem.lt htop
  have hlt' := h.mem.lt harray
  omega

/-- The count and the strings are stored. -/
theorem ArgsServed.stores_strings (h : L.ArgsServed) :
    ∃ m₁ m₂, { L with argv := L.argvOf }.writeBuf (L.mem.stacktop + 48)
        (leBytes 4 L.argvOf.length) = .ok { L with argv := L.argvOf, mem := m₁ } ∧
      writeStrings L.argvOf.reverse { L with argv := L.argvOf, mem := m₁ } L.mem.memSize =
        .ok ({ L with argv := L.argvOf, mem := m₂ }, L.mem.memSize - stringBytes L.argvOf) ∧
      m₂.Writable L.argRegion ∧ m₂.ctrl.isSome = L.mem.ctrl.isSome ∧
      ∀ mem, m₂.contents mem = setBytes (setBytes (L.mem.contents mem) (L.mem.stacktop + 48)
        (leBytes 4 L.argvOf.length)) (L.mem.memSize - stringBytes L.argvOf)
        (argBytes L.argvOf) := by
  obtain ⟨hlt, -⟩ := h.lt
  obtain ⟨m₁, hcount, hm₁, hctrl₁, hstored₁⟩ := writeBuf_stores
    (L := { L with argv := L.argvOf }) (a := L.mem.stacktop + 48) h.mem
    (leBytes 4 L.argvOf.length) (by simp) (fun v hlow hhigh => .inl ⟨hlow, by
      rw [leBytes_length] at hhigh
      omega⟩) fun hctrl => by
        have hin := (h.onePage hctrl).1
        rw [leBytes_length]
        omega
  obtain ⟨m₂, hstrs, hm₂, hctrl₂, hstored₂⟩ := writeStrings_stores
    (L := { L with argv := L.argvOf, mem := m₁ }) L.argvOf.reverse hm₁ hlt
    (by rw [stringBytes_reverse]; exact h.strings)
    (fun v hlow hhigh => .inr ⟨by rw [stringBytes_reverse] at hlow; exact hlow, hhigh⟩)
    fun hctrl => by
      rw [stringBytes_reverse]
      exact (h.onePage (by rw [← hctrl₁]; exact hctrl)).2
  rw [stringBytes_reverse] at hstrs hstored₂
  rw [List.reverse_reverse] at hstored₂
  refine ⟨m₁, m₂, hcount, hstrs, hm₂, hctrl₂.trans hctrl₁, fun mem => ?_⟩
  rw [hstored₂, hstored₁]

/-- The base address and the array are stored. -/
theorem ArgsServed.stores_array (h : L.ArgsServed) {m : RevMem} (hm : m.Writable L.argRegion)
    (hctrl : m.ctrl.isSome = L.mem.ctrl.isSome) :
    ∃ m₁ m₂, { L with argv := L.argvOf, mem := m }.writeBuf (L.mem.stacktop + 52)
        (leBytes 8 (L.mem.stacktop + 60)) = .ok { L with argv := L.argvOf, mem := m₁ } ∧
      writePointers L.argvOf { L with argv := L.argvOf, mem := m₁ }
          (L.mem.memSize - stringBytes L.argvOf) (L.mem.stacktop + 60) =
        .ok ({ L with argv := L.argvOf, mem := m₂ },
          L.mem.memSize - stringBytes L.argvOf + stringBytes L.argvOf) ∧
      ∀ mem, m₂.contents mem = setBytes (m.contents mem) (L.mem.stacktop + 52)
        (leBytes 8 (L.mem.stacktop + 60) ++
          ptrBytes L.argvOf (L.mem.memSize - stringBytes L.argvOf)) := by
  obtain ⟨hlt, harray⟩ := h.lt
  have hstrings := h.strings
  obtain ⟨m₁, hbase, hm₁, hctrl₁, hstored₁⟩ := writeBuf_stores
    (L := { L with argv := L.argvOf, mem := m }) (a := L.mem.stacktop + 52) hm
    (leBytes 8 (L.mem.stacktop + 60)) (by simp) (fun v hlow hhigh => .inl ⟨by omega, by
      rw [leBytes_length] at hhigh
      omega⟩) fun hsome => by
        have hin := (h.onePage (by rw [← hctrl]; exact hsome)).1
        rw [leBytes_length]
        simp only [RevMem.pageSize] at *
        omega
  obtain ⟨m₂, hptrs, -, -, hstored₂⟩ := writePointers_stores
    (L := { L with argv := L.argvOf, mem := m₁ }) (a := L.mem.stacktop + 60) L.argvOf hm₁
    (show L.mem.memSize - stringBytes L.argvOf + stringBytes L.argvOf < W64 by omega) harray
    (fun v hlow hhigh => .inl ⟨by omega, hhigh⟩) fun hsome => by
      have hin := (h.onePage (by rw [← hctrl, ← hctrl₁]; exact hsome)).1
      simp only [RevMem.pageSize] at *
      omega
  refine ⟨m₁, m₂, hbase, hptrs, fun mem => ?_⟩
  have hlen : (leBytes 8 (L.mem.stacktop + 60)).length = 8 := leBytes_length 8 _
  rw [hstored₂, hstored₁, setBytes_append, hlen]

/-- The memory after `LoadProgramArgs`: the count, the strings and then the array
    with its base address. -/
theorem ArgsServed.stores (h : L.ArgsServed) :
    ∃ L', L.LoadProgramArgs = .ok L' ∧ L'.mem.stacktop = L.mem.stacktop ∧
      L'.mem.memSize = L.mem.memSize ∧
      (∀ v, L'.mem.isValidVirtAddr v = L.mem.isValidVirtAddr v) ∧
      ∀ mem, L'.mem.contents mem =
        setBytes (setBytes (setBytes (L.mem.contents mem) (L.mem.stacktop + 48)
          (leBytes 4 L.argvOf.length)) (L.mem.memSize - stringBytes L.argvOf)
          (argBytes L.argvOf)) (L.mem.stacktop + 52)
          (leBytes 8 (L.mem.stacktop + 60) ++
            ptrBytes L.argvOf (L.mem.memSize - stringBytes L.argvOf)) := by
  obtain ⟨hlt, harray⟩ := h.lt
  obtain ⟨m₁, m₂, hcount, hstrs, hm₂, hctrl₂, hstored₂⟩ := h.stores_strings
  obtain ⟨m₃, m₄, hbase, hptrs, hstored₄⟩ := h.stores_array hm₂ hctrl₂
  have hcountMod : (L.mem.stacktop + 48) % W64 = L.mem.stacktop + 48 :=
    Nat.mod_eq_of_lt (by omega)
  have hbaseMod : (L.mem.stacktop + 48 + 4) % W64 = L.mem.stacktop + 52 :=
    Nat.mod_eq_of_lt (by omega)
  have harrayMod : (L.mem.stacktop + 52 + 8) % W64 = L.mem.stacktop + 60 :=
    Nat.mod_eq_of_lt (by omega)
  have hargs : splitStr L.args 32 (L.argv ++ [L.exe]) = L.argvOf := by
    rw [h.argv]
    rfl
  have hrun : ∃ x, L.LoadProgramArgs = .ok { L with
      argv := L.argvOf
      mem := { m₄ with NextThreadMemAddr := x } } := by
    unfold LoadProgramArgs
    simp only [hargs, RevMem.GetMemTop, hcountMod, hbaseMod, harrayMod, hcount, hstrs, hbase,
      hptrs, bind, Except.bind]
    exact ⟨_, rfl⟩
  obtain ⟨x, hrun⟩ := hrun
  obtain ⟨hlayout, -, -⟩ := LoadProgramArgs_layout hlt hrun
  have hstack := congrArg RevMem.stacktop hlayout
  have hsize := congrArg RevMem.memSize hlayout
  have hsegs := congrArg (fun m v => RevMem.isValidVirtAddr m v) hlayout
  refine ⟨_, hrun, hstack, hsize, fun v => congrFun hsegs v, fun mem => ?_⟩
  have hsame : { m₄ with NextThreadMemAddr := x }.contents mem = m₄.contents mem := rfl
  rw [hsame, hstored₄, hstored₂]

end

end RevLoader

end RevCPU
