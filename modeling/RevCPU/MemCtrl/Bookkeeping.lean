import Mathlib.Data.List.Perm.Subperm
import RevCPU.Lib.Assoc
import RevCPU.MemCtrl.Steps

namespace RevCPU

open Lib RevBasicMemCtrl

/-- The records that the controller keeps of its requests agree: `requests`,
    `outstanding` and the requests in flight are the same requests in the order
    of their dispatch, under distinct ids. -/
structure RevBasicMemCtrl.Bookkeeping (s : RevBasicMemCtrl) : Prop where
  ids : s.outstanding.map Prod.fst = s.requests
  iface : s.memIface.map (fun r => (r.id, r.cls)) = s.outstanding.map fun n => (n.1, n.2.Op)
  nodup : s.requests.Nodup
  lt : ∀ id ∈ s.requests, id < s.nextId
  kinds : ∀ n ∈ s.outstanding, n.2.Op ≠ .MemOpFENCE ∧ n.2.Op ≠ .MemOpAMO

namespace RevBasicMemCtrl.Bookkeeping

variable {s s' : RevBasicMemCtrl}

theorem keys_nodup (hs : s.Bookkeeping) : (s.outstanding.map Prod.fst).Nodup := by
  rw [hs.ids]
  exact hs.nodup

/-- Distinct ids below `nextId`: no more requests than ids. -/
theorem outstanding_length_le (hs : s.Bookkeeping) : s.outstanding.length ≤ s.nextId := by
  have hsub : s.requests.Subperm (List.range s.nextId) :=
    hs.nodup.subperm fun id hid => List.mem_range.mpr (hs.lt id hid)
  calc s.outstanding.length = s.requests.length := by rw [← hs.ids, List.length_map]
    _ ≤ s.nextId := by simpa using hsub.length_le

/-- The invariant reads only the four records and the next id. -/
theorem congr (hs : s.Bookkeeping) (hreq : s'.requests = s.requests)
    (hout : s'.outstanding = s.outstanding) (hmem : s'.memIface = s.memIface)
    (hid : s'.nextId = s.nextId) : s'.Bookkeeping := by
  constructor
  · rw [hout, hreq]; exact hs.ids
  · rw [hout, hmem]; exact hs.iface
  · rw [hreq]; exact hs.nodup
  · rw [hreq, hid]; exact hs.lt
  · rw [hout]; exact hs.kinds

theorem sendParts (hs : s.Bookkeeping) {op : RevMemOp} (hfence : op.Op ≠ .MemOpFENCE)
    (hamo : op.Op ≠ .MemOpAMO) (flags : RevFlag) (ps : List Part) :
    (s.sendParts op flags ps).Bookkeeping := by
  constructor
  · simp only [sendParts_outstanding, sendParts_requests, List.map_append, List.map_map, hs.ids]
    congr 1
    exact List.map_id _
  · simp only [sendParts_memIface, sendParts_outstanding, List.map_append, List.map_map, hs.iface]
    congr 1
    rw [← List.zipIdx_map_snd s.nextId ps, List.map_map]
    refine List.map_congr_left fun p _ => ?_
    simp
  · rw [sendParts_requests, List.nodup_append]
    refine ⟨hs.nodup, List.nodup_range', ?_⟩
    intro a ha b hb
    have hlt := hs.lt a ha
    have hge := (List.mem_range'_1.mp hb).1
    omega
  · intro id hid
    rw [sendParts_requests, List.mem_append] at hid
    rw [sendParts_nextId]
    rcases hid with hid | hid
    · have hlt := hs.lt id hid
      omega
    · exact (List.mem_range'_1.mp hid).2
  · intro n hn
    rw [sendParts_outstanding, List.mem_append, List.mem_map] at hn
    rcases hn with hn | ⟨id, -, rfl⟩
    · exact hs.kinds n hn
    · exact ⟨hfence, hamo⟩

theorem answered (hs : s.Bookkeeping) (id : ℕ) : (s.answered id).Bookkeeping := by
  constructor
  · rw [RevBasicMemCtrl.answered, map_fst_eraseP_key, hs.ids]
  · have herase : ∀ {γ : Type} (l : List γ) (f : γ → ℕ × MemOp),
        (l.eraseP fun x => (f x).1 == id).map f = (l.map f).eraseP fun n => n.1 == id := by
      intro γ l f
      rw [List.eraseP_map]
      rfl
    calc (s.memIface.eraseP fun r => r.id == id).map (fun r => (r.id, r.cls))
        = (s.memIface.map fun r => (r.id, r.cls)).eraseP fun n => n.1 == id := herase _ _
      _ = (s.outstanding.map fun n => (n.1, n.2.Op)).eraseP fun n => n.1 == id := by rw [hs.iface]
      _ = (s.outstanding.eraseP fun n => n.1 == id).map fun n => (n.1, n.2.Op) :=
          (herase s.outstanding fun n => (n.1, n.2.Op)).symm
  · exact hs.nodup.erase id
  · intro id' hid
    exact hs.lt id' (List.mem_of_mem_erase hid)
  · intro n hn
    exact hs.kinds n (List.mem_of_mem_eraseP hn)

/-- The request in flight under an id has the kind of the operation recorded
    for it. -/
theorem cls_eq (hs : s.Bookkeeping) {r : StdRqst} {op : RevMemOp}
    (hr : s.memIface.find? (fun x => x.id == r.id) = some r)
    (hop : s.outstanding.lookup r.id = some op) : r.cls = op.Op := by
  have hmem : (r.id, r.cls) ∈ s.outstanding.map fun n => (n.1, n.2.Op) := by
    rw [← hs.iface]
    exact List.mem_map.mpr ⟨r, List.mem_of_find?_eq_some hr, rfl⟩
  obtain ⟨n, hn, heq⟩ := List.mem_map.mp hmem
  simp only [Prod.mk.injEq] at heq
  have hlookup : s.outstanding.lookup n.1 = some n.2 := lookup_of_mem hs.keys_nodup hn
  rw [heq.1, hop, Option.some.injEq] at hlookup
  rw [hlookup, heq.2]

theorem processed (hs : s.Bookkeeping) {P : Params} {t : TMax} (hproc : Processed P s t s') :
    s'.Bookkeeping := by
  cases hproc with
  | idle => exact hs
  | fence hcand hop => exact hs.congr rfl rfl rfl rfl
  | @dispatch i op hcand hfence hamo hpend =>
    have hfence' : (splitOp P op).Op ≠ .MemOpFENCE := by simpa using hfence
    have hamo' : (splitOp P op).Op ≠ .MemOpAMO := by simpa using hamo
    exact (hs.sendParts hfence' hamo' _ _).congr rfl rfl rfl rfl

theorem responded (hs : s.Bookkeeping) {h h' : Host} {r : StdRqst} {data : List UInt8}
    (hresp : Responded s h r data s' h') : s'.Bookkeeping := by
  cases hresp <;> exact (hs.answered r.id).congr rfl rfl rfl rfl

end RevBasicMemCtrl.Bookkeeping

namespace CtrlSys

/-- The controller as `RevBasicMemCtrl` constructs it. -/
def init (host : Host) : CtrlSys := { ctrl := {}, host }

theorem Stepped.bookkeeping {P : Params} {s s' : CtrlSys} {ev : Event} (h : Stepped P s ev s')
    (hs : s.ctrl.Bookkeeping) : s'.ctrl.Bookkeeping := by
  cases h with
  | skip | wait | start => exact hs
  | send => exact hs.congr rfl rfl rfl rfl
  | clear => exact hs.congr rfl rfl rfl rfl
  | process htick hproc hfence => exact hs.processed hproc
  | response htick hr hresp => exact hs.responded hresp

theorem init_bookkeeping (host : Host) : (init host).ctrl.Bookkeeping := by
  constructor <;> simp [init]

end CtrlSys

end RevCPU
