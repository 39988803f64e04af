import RevCPU.Loader.Writable

namespace RevCPU

open Lib

namespace RevLoader

/-- The argument strings as they are stored, each with its terminator. -/
def argBytes (args : List (List UInt8)) : List UInt8 := args.flatMap (· ++ [0])

/-- The addresses of strings that are stored from `top` on. -/
def ptrBytes : List (List UInt8) → ℕ → List UInt8
  | [], _ => []
  | arg :: rest, top => leBytes 8 top ++ ptrBytes rest (top + (arg.length + 1))

section

variable {V : ℕ → Prop} {L : RevLoader} {args : List (List UInt8)} {a top : ℕ}

theorem stringBytes_cons (arg : List UInt8) (args : List (List UInt8)) :
    stringBytes (arg :: args) = arg.length + 1 + stringBytes args := by
  simp only [stringBytes, List.map_cons, List.sum_cons]

theorem stringBytes_append (xs ys : List (List UInt8)) :
    stringBytes (xs ++ ys) = stringBytes xs + stringBytes ys := by
  simp only [stringBytes, List.map_append, List.sum_append]

theorem stringBytes_reverse (args : List (List UInt8)) :
    stringBytes args.reverse = stringBytes args := by
  rw [stringBytes, List.map_reverse, List.sum_reverse, stringBytes]

@[simp] theorem argBytes_length (args : List (List UInt8)) :
    (argBytes args).length = stringBytes args := by
  induction args with
  | nil => rfl
  | cons arg args ih =>
    rw [stringBytes_cons, ← ih]
    simp only [argBytes, List.flatMap_cons, List.length_append, List.length_singleton]

@[simp] theorem ptrBytes_length (args : List (List UInt8)) (top : ℕ) :
    (ptrBytes args top).length = 8 * args.length := by
  induction args generalizing top with
  | nil => rfl
  | cons arg args ih =>
    simp only [ptrBytes, List.length_append, leBytes_length, ih, List.length_cons]
    omega

/-- A buffer of the loader is stored. -/
theorem writeBuf_stores (h : L.mem.Writable V) (buf : List UInt8) (hpos : 0 < buf.length)
    (hrange : ∀ v, a ≤ v → v < a + buf.length → V v)
    (hone : L.mem.ctrl.isSome = true → a % RevMem.pageSize + buf.length ≤ RevMem.pageSize) :
    ∃ m', L.writeBuf a buf = .ok { L with mem := m' } ∧ m'.Writable V ∧
      m'.ctrl.isSome = L.mem.ctrl.isSome ∧
      ∀ mem, m'.contents mem = setBytes (L.mem.contents mem) a buf := by
  obtain ⟨m', hwrite, hm', hsame, hstored⟩ := h.WriteCacheLine L.lineSize hpos hrange hone
  refine ⟨m', ?_, hm', hsame, hstored⟩
  simp only [writeBuf, hwrite, bind, Except.bind]

/-- The strings are stored below `top`, the first one last. -/
theorem writeStrings_stores (args : List (List UInt8)) (h : L.mem.Writable V) (htop : top < W64)
    (hle : stringBytes args ≤ top) (hrange : ∀ v, top - stringBytes args ≤ v → v < top → V v)
    (hone : L.mem.ctrl.isSome = true →
      (top - stringBytes args) % RevMem.pageSize + stringBytes args ≤ RevMem.pageSize) :
    ∃ m', writeStrings args L top = .ok ({ L with mem := m' }, top - stringBytes args) ∧
      m'.Writable V ∧ m'.ctrl.isSome = L.mem.ctrl.isSome ∧
      ∀ mem, m'.contents mem =
        setBytes (L.mem.contents mem) (top - stringBytes args) (argBytes args.reverse) := by
  induction args generalizing L top with
  | nil =>
    refine ⟨L.mem, rfl, h, rfl, fun mem => ?_⟩
    funext v
    rw [setBytes, if_neg]
    simp [argBytes]
  | cons arg args ih =>
    rw [stringBytes_cons] at hle hrange hone ⊢
    have hlen : (arg ++ [0]).length = arg.length + 1 := by simp
    have hnext : (top + W64 - (arg ++ [0]).length % W64) % W64 = top - (arg.length + 1) := by
      rw [hlen]
      unfold W64 at *
      omega
    obtain ⟨m₁, hwrite, hm₁, hsame, hstored⟩ :=
      writeBuf_stores (a := top - (arg.length + 1)) h (arg ++ [0]) (by omega)
        (fun v hlow hhigh => hrange v (by omega) (by omega)) fun hctrl => by
          have hpage := hone hctrl
          rw [hlen]
          simp only [RevMem.pageSize] at *
          omega
    obtain ⟨m', hrest, hm', hsame', hstored'⟩ := ih (L := { L with mem := m₁ }) hm₁
      (show top - (arg.length + 1) < W64 by omega) (by omega)
      (fun v hlow hhigh => hrange v (by omega) (by omega)) fun hctrl => by
        rw [Nat.sub_sub]
        have hpage := hone (by rw [← hsame]; exact hctrl)
        omega
    rw [Nat.sub_sub] at hrest hstored'
    refine ⟨m', ?_, hm', hsame'.trans hsame, fun mem => ?_⟩
    · simp only [writeStrings, hnext, hwrite, bind, Except.bind]
      exact hrest
    · have hsplit : argBytes (arg :: args).reverse = argBytes args.reverse ++ (arg ++ [0]) := by
        simp only [argBytes, List.reverse_cons, List.flatMap_append, List.flatMap_cons,
          List.flatMap_nil, List.append_nil]
      have hbelow : top - (arg.length + 1 + stringBytes args) + (argBytes args.reverse).length =
          top - (arg.length + 1) := by
        rw [argBytes_length, stringBytes_reverse]
        omega
      rw [hstored', hstored, hsplit, setBytes_append _ _ (argBytes args.reverse), hbelow]
      exact setBytes_comm _ (.inr (by omega))

/-- The addresses of the strings are stored from `a` on. -/
theorem writePointers_stores (args : List (List UInt8)) (h : L.mem.Writable V)
    (htop : top + stringBytes args < W64) (ha : a + 8 * args.length < W64)
    (hrange : ∀ v, a ≤ v → v < a + 8 * args.length → V v)
    (hone : L.mem.ctrl.isSome = true →
      a % RevMem.pageSize + 8 * args.length ≤ RevMem.pageSize) :
    ∃ m', writePointers args L top a = .ok ({ L with mem := m' }, top + stringBytes args) ∧
      m'.Writable V ∧ m'.ctrl.isSome = L.mem.ctrl.isSome ∧
      ∀ mem, m'.contents mem = setBytes (L.mem.contents mem) a (ptrBytes args top) := by
  induction args generalizing L top a with
  | nil =>
    refine ⟨L.mem, rfl, h, rfl, fun mem => ?_⟩
    funext v
    rw [setBytes, if_neg]
    simp [ptrBytes]
  | cons arg args ih =>
    rw [stringBytes_cons] at htop ⊢
    rw [List.length_cons] at ha hrange hone
    obtain ⟨m₁, hwrite, hm₁, hsame, hstored⟩ :=
      writeBuf_stores (a := a) h (leBytes 8 top) (by simp)
        (fun v hlow hhigh => hrange v hlow (by rw [leBytes_length] at hhigh; omega)) fun hctrl => by
          have hpage := hone hctrl
          rw [leBytes_length]
          omega
    have hnextTop : (top + (arg.length + 1)) % W64 = top + (arg.length + 1) :=
      Nat.mod_eq_of_lt (by omega)
    have hnext : (a + 8) % W64 = a + 8 := Nat.mod_eq_of_lt (by omega)
    obtain ⟨m', hrest, hm', hsame', hstored'⟩ := ih (L := { L with mem := m₁ }) (a := a + 8) hm₁
      (show top + (arg.length + 1) + stringBytes args < W64 by omega) (by omega)
      (fun v hlow hhigh => hrange v (by omega) (by omega)) fun hctrl => by
        have hpage := hone (by rw [← hsame]; exact hctrl)
        simp only [RevMem.pageSize] at *
        omega
    refine ⟨m', ?_, hm', hsame'.trans hsame, fun mem => ?_⟩
    · simp only [writePointers, hwrite, hnextTop, hnext, bind, Except.bind]
      rw [Nat.add_assoc top] at hrest
      exact hrest
    · have hlen : (leBytes 8 top).length = 8 := leBytes_length 8 top
      rw [hstored', hstored, ptrBytes, setBytes_append, hlen]

end

end RevLoader

end RevCPU
