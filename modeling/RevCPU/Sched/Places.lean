import RevCPU.Lib.Sum
import RevCPU.Sched.Ticked

namespace RevCPU.Sched

open Lib

/-- A thread is known by its id and its register file. -/
def RevThread.key (t : RevThread) : ℕ × ℕ := (t.ID, t.VirtRegState)

/-- One for the thread with the key `q`. -/
def hit (q : ℕ × ℕ) (t : RevThread) : ℕ := if t.key = q then 1 else 0

theorem hit_congr {q : ℕ × ℕ} {t t' : RevThread} (hkey : t'.key = t.key) : hit q t' = hit q t := by
  unfold hit
  rw [hkey]

@[simp] theorem hit_state (q : ℕ × ℕ) (t : RevThread) (st : ThreadState) :
    hit q { t with State := st } = hit q t := rfl

/-- How often a thread is in a list. -/
def occ (q : ℕ × ℕ) (ts : List RevThread) : ℕ := (ts.map RevThread.key).count q

@[simp] theorem occ_nil (q : ℕ × ℕ) : occ q [] = 0 := rfl

@[simp] theorem occ_cons (q : ℕ × ℕ) (t : RevThread) (ts : List RevThread) :
    occ q (t :: ts) = occ q ts + hit q t := by
  unfold occ hit
  rw [List.map_cons, List.count_cons]
  simp only [beq_iff_eq]

@[simp] theorem occ_append (q : ℕ × ℕ) (ts us : List RevThread) : occ q (ts ++ us) = occ q ts + occ q us := by
  unfold occ
  rw [List.map_append, List.count_append]

theorem occ_perm (q : ℕ × ℕ) {ts us : List RevThread} (h : ts.Perm us) : occ q ts = occ q us :=
  (h.map _).count_eq q

theorem occ_pos {t : RevThread} {ts : List RevThread} (h : t ∈ ts) : 0 < occ t.key ts :=
  List.count_pos_iff.mpr (List.mem_map.mpr ⟨t, h, rfl⟩)

/-- How often a thread is on a hart. -/
def hartOcc (q : ℕ × ℕ) : Option RevThread → ℕ
  | none => 0
  | some t => hit q t

/-- How often a thread is on the harts of a core. -/
def hartsOcc (q : ℕ × ℕ) (numHarts : ℕ) (Harts : ℕ → Option RevThread) : ℕ :=
  ∑ h ∈ Finset.range numHarts, hartOcc q (Harts h)

/-- A thread comes to a hart or leaves it. -/
theorem hartsOcc_update (q : ℕ × ℕ) {numHarts h : ℕ} (hlt : h < numHarts) (Harts : ℕ → Option RevThread)
    (o : Option RevThread) :
    hartsOcc q numHarts (Function.update Harts h o) + hartOcc q (Harts h) =
      hartsOcc q numHarts Harts + hartOcc q o := by
  have hcomp : (fun k => hartOcc q (Function.update Harts h o k)) =
      Function.update (fun k => hartOcc q (Harts k)) h (hartOcc q o) := by
    funext k
    exact Function.apply_update (fun _ => hartOcc q) Harts h o k
  unfold hartsOcc
  rw [hcomp]
  exact sum_range_update hlt _ _

namespace View

/-- How often a core holds a thread. -/
def occ (q : ℕ × ℕ) (v : View) : ℕ := hartsOcc q v.numHarts v.Harts + Sched.occ q v.changed

theorem create_occ (q : ℕ × ℕ) (v : View) (NewTID : ℕ) :
    (v.create NewTID).occ q = v.occ q + hit q { ID := NewTID, VirtRegState := v.nextReg } := by
  unfold occ create
  simp only [occ_append, occ_cons, occ_nil]
  omega

/-- A thread that leaves a hart is among those that have changed their state. -/
theorem pop_occ (q : ℕ × ℕ) {v : View} {h : ℕ} {t : RevThread} (t' : RevThread) (hlt : h < v.numHarts)
    (hart : v.Harts h = some t) (hkey : t'.key = t.key) : (v.pop h t').occ q = v.occ q := by
  have hupdate := hartsOcc_update q hlt v.Harts none
  simp only [hart, hartOcc] at hupdate
  unfold occ pop
  simp only [occ_append, occ_cons, occ_nil, hit_congr hkey]
  omega

theorem finish_occ (q : ℕ × ℕ) {v : View} {h : ℕ} {t : RevThread} (hlt : h < v.numHarts)
    (hart : v.Harts h = some t) : (v.finish h t).occ q = v.occ q :=
  pop_occ q _ hlt hart rfl

theorem join_occ (q : ℕ × ℕ) {v : View} {h : ℕ} {t : RevThread} (a0 : ℕ) (hlt : h < v.numHarts)
    (hart : v.Harts h = some t) : (v.join h t a0).occ q = v.occ q :=
  pop_occ q { t with State := .BLOCKED, WaitingToJoinTID := a0 % 2 ^ 32 } hlt hart rfl

/-- `IdleHarts` is the set of the harts without a thread. -/
def IdleOk (v : View) : Prop := ∀ h < v.numHarts, v.IdleHarts h = true ↔ v.Harts h = none

theorem IdleOk.pop {v : View} (hidle : v.IdleOk) (h : ℕ) (t : RevThread) : (v.pop h t).IdleOk := by
  intro k hk
  by_cases hkh : k = h
  · simp [View.pop, hkh]
  · simpa [View.pop, hkh] using hidle k hk

end View

/-- The states in which a thread is handed to `RevCPU`. -/
def RevThread.Handed (t : RevThread) : Prop :=
  t.State = .START ∨ t.State = .BLOCKED ∨ t.State = .DONE

namespace CoreState

variable {c c' : CoreState}

/-- Every thread that a core had or has created is still there. -/
theorem Outcome.occ (hout : Outcome c c') (q : ℕ × ℕ) :
    c'.view.occ q + c.created.count q = c.view.occ q + c'.created.count q := by
  have hcreated : c'.created = c'.view.created := rfl
  have hcount : ∀ NewTID, (c.view.create NewTID).created.count q =
      c.created.count q + hit q { ID := NewTID, VirtRegState := c.view.nextReg } := by
    intro NewTID
    simp only [View.create, List.count_append, List.count_cons, List.count_nil, beq_iff_eq,
      Nat.zero_add, hit, RevThread.key]
    rfl
  cases hout with
  | stay hview =>
    rw [hcreated, hview]
    rfl
  | @create NewTID hview =>
    rw [hcreated, hview, View.create_occ, hcount]
    omega
  | @finish h t hlt hart hview =>
    rw [hcreated, hview, View.finish_occ q hlt hart]
    rfl
  | @createFinish NewTID h t hlt hart hview =>
    have hcreate := hcount NewTID
    have hocc := View.finish_occ (v := c.view.create NewTID) q hlt hart
    rw [View.create_occ] at hocc
    rw [hcreated, hview, hocc]
    change _ = _ + (c.view.create NewTID).created.count q
    omega
  | @join h a0 t hlt hart hview =>
    rw [hcreated, hview, View.join_occ q a0 hlt hart]
    rfl

/-- What else holds of the threads after a call of `ClockTick`. -/
theorem Outcome.idleOk (hout : Outcome c c') (hidle : c.view.IdleOk) : c'.view.IdleOk := by
  cases hout with
  | stay hview => rw [hview]; exact hidle
  | create hview => rw [hview]; exact hidle
  | finish hlt hart hview => rw [hview]; exact hidle.pop _ _
  | @createFinish NewTID h t hlt hart hview =>
    rw [hview]
    exact View.IdleOk.pop (v := c.view.create NewTID) hidle _ _
  | @join h a0 t hlt hart hview =>
    rw [hview]
    exact hidle.pop h { t with State := .BLOCKED, WaitingToJoinTID := a0 % 2 ^ 32 }

/-- A hart has the same thread after a tick, or none. -/
theorem Outcome.harts (hout : Outcome c c') :
    c'.proc.numHarts = c.proc.numHarts ∧
      ∀ h t, c'.proc.Harts h = some t → c.proc.Harts h = some t := by
  have hnum : c'.proc.numHarts = c'.view.numHarts := rfl
  have hharts : c'.proc.Harts = c'.view.Harts := rfl
  have hpop : ∀ (v : View) k u h t, (v.pop k u).Harts h = some t → v.Harts h = some t := by
    intro v k u h t ht
    by_cases hk : h = k
    · simp [View.pop, hk] at ht
    · simpa [View.pop, hk] using ht
  rw [hnum, hharts]
  cases hout with
  | stay hview =>
    rw [hview]
    exact ⟨rfl, fun _ _ ht => ht⟩
  | create hview =>
    rw [hview]
    exact ⟨rfl, fun _ _ ht => ht⟩
  | finish _ _ hview =>
    rw [hview]
    exact ⟨rfl, hpop c.view _ _⟩
  | @createFinish NewTID _ _ _ _ hview =>
    rw [hview]
    exact ⟨rfl, hpop (c.view.create NewTID) _ _⟩
  | @join h a0 t _ _ hview _ =>
    rw [hview]
    exact ⟨rfl, hpop c.view h { t with State := .BLOCKED, WaitingToJoinTID := a0 % 2 ^ 32 }⟩

theorem Outcome.handed (hout : Outcome c c')
    (hhanded : ∀ t ∈ c.proc.ThreadsThatChangedState, t.Handed) :
    ∀ t ∈ c'.proc.ThreadsThatChangedState, t.Handed := by
  have hchanged : c'.proc.ThreadsThatChangedState = c'.view.changed := rfl
  intro t ht
  rw [hchanged] at ht
  cases hout with
  | stay hview => rw [hview] at ht; exact hhanded t ht
  | create hview =>
    rw [hview] at ht
    rcases List.mem_append.mp ht with ht | ht
    · exact hhanded t ht
    · rw [List.mem_singleton.mp ht]
      exact .inl rfl
  | finish _ _ hview =>
    rw [hview] at ht
    rcases List.mem_append.mp ht with ht | ht
    · exact hhanded t ht
    · rw [List.mem_singleton.mp ht]
      exact .inr (.inr rfl)
  | createFinish _ _ hview =>
    rw [hview] at ht
    rcases List.mem_append.mp ht with ht | ht
    · rcases List.mem_append.mp ht with ht | ht
      · exact hhanded t ht
      · rw [List.mem_singleton.mp ht]
        exact .inl rfl
    · rw [List.mem_singleton.mp ht]
      exact .inr (.inr rfl)
  | join _ _ hview _ =>
    rw [hview] at ht
    rcases List.mem_append.mp ht with ht | ht
    · exact hhanded t ht
    · rw [List.mem_singleton.mp ht]
      exact .inr (.inl rfl)

theorem Outcome.created (hout : Outcome c c') : c.created <+: c'.created := by
  change c.created <+: c'.view.created
  cases hout with
  | stay hview => rw [hview]; exact List.prefix_refl _
  | create hview => rw [hview]; exact List.prefix_append ..
  | finish _ _ hview => rw [hview]; exact List.prefix_refl _
  | createFinish _ _ hview => rw [hview]; exact List.prefix_append ..
  | join _ _ hview _ => rw [hview]; exact List.prefix_refl _

/-- The addresses of the register files are handed out in order. -/
def Fresh (c : CoreState) : Prop := c.created.map Prod.snd = List.range c.nextReg

theorem Outcome.fresh (hout : Outcome c c') (hfresh : c.Fresh) : c'.Fresh := by
  have hcreated : c'.created = c'.view.created := rfl
  have hnext : c'.nextReg = c'.view.nextReg := rfl
  have hcreate : ∀ NewTID, (c.view.create NewTID).created.map Prod.snd =
      List.range (c.view.create NewTID).nextReg := by
    intro NewTID
    simp only [View.create, List.map_append, List.range_succ]
    exact congrArg (· ++ [c.view.nextReg]) hfresh
  unfold Fresh
  rw [hcreated, hnext]
  cases hout with
  | stay hview => rw [hview]; exact hfresh
  | create hview => rw [hview]; exact hcreate _
  | finish _ _ hview => rw [hview]; exact hfresh
  | createFinish _ _ hview => rw [hview]; exact hcreate _
  | join _ _ hview _ => rw [hview]; exact hfresh

end CoreState

end RevCPU.Sched
