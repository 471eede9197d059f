import DnsRelay.Store.PendingMap
import Mathlib.Data.Finset.Card
import Mathlib.Data.Finset.Image

/-!
# The pending map as a partial function

`dr_pending_map_get` views the map as a partial function from IDs to requests. The
invariant says where it is defined and what the counter counts; insert, remove and
the timeout scan are updates of the view at one ID.
-/
namespace DnsRelay.Store

open DnsRelay.Foundation
open DnsRelay.Wire

section View

variable (map : DrPendingMap) (query : PendingQuery) {id k : UInt16}

@[simp] theorem slots_fill_self : (map.fill query id).slots id = query.request id :=
  Function.update_self ..

@[simp] theorem slots_clear_self : (map.clear id).slots id = .zero := Function.update_self ..

theorem slots_fill_of_ne (h : k ≠ id) : (map.fill query id).slots k = map.slots k :=
  Function.update_of_ne h ..

theorem slots_clear_of_ne (h : k ≠ id) : (map.clear id).slots k = map.slots k :=
  Function.update_of_ne h ..

end View

theorem drPendingMapGet_eq_some {map : DrPendingMap} {id : UInt16} {request : DrPendingRequest} :
    drPendingMapGet map id = some request ↔
      (map.slots id).active = true ∧ map.slots id = request := by
  simp [drPendingMapGet]

theorem drPendingMapGet_eq_none {map : DrPendingMap} {id : UInt16} :
    drPendingMapGet map id = none ↔ (map.slots id).active = false := by
  simp [drPendingMapGet]

/-- A slot that is cleared holds no request, every other one holds what it held. -/
theorem get_clear (pendingMap : DrPendingMap) (id k : UInt16) :
    drPendingMapGet (pendingMap.clear id) k =
      if k = id then none else drPendingMapGet pendingMap k := by
  by_cases hk : k = id
  · subst hk
    rw [if_pos rfl, drPendingMapGet, slots_clear_self]
    rfl
  · rw [if_neg hk, drPendingMapGet, drPendingMapGet, slots_clear_of_ne pendingMap hk]

theorem drPendingMapRemove_cases (map : DrPendingMap) (id : UInt16) :
    ((map.slots id).active = false ∧ drPendingMapRemove map id = (map, none)) ∨
      ((map.slots id).active = true ∧
        drPendingMapRemove map id = (map.clear id, some (map.slots id))) := by
  cases h : (map.slots id).active <;> simp [drPendingMapRemove, drPendingMapGet, h]

theorem active_of_overdue {request : DrPendingRequest} {nowMs : UInt64} {timeoutMs : UInt32}
    (h : request.overdue nowMs timeoutMs = true) : request.active = true := by
  simp only [DrPendingRequest.overdue, Bool.and_eq_true] at h
  exact h.1

def allIds : Finset UInt16 := (Finset.range DR_PENDING_SLOT_COUNT).image UInt16.ofNat

theorem mem_allIds (id : UInt16) : id ∈ allIds := by
  refine Finset.mem_image.mpr ⟨id.toNat, Finset.mem_range.mpr id.toNat_lt, ?_⟩
  exact UInt16.ofNat_toNat

/-- The IDs whose slot is active. -/
def DrPendingMap.activeIds (map : DrPendingMap) : Finset UInt16 :=
  allIds.filter (fun id => (map.slots id).active = true)

theorem mem_activeIds {map : DrPendingMap} {id : UInt16} :
    id ∈ map.activeIds ↔ (map.slots id).active = true := by
  simp [DrPendingMap.activeIds, mem_allIds]

structure PendingInv (map : DrPendingMap) : Prop where
  reserved : (map.slots 0).active = false
  cursor : map.nextId ≠ 0
  indexed : ∀ id, (map.slots id).active = true → (map.slots id).upstreamId = id
  counted : map.activeCount = map.activeIds.card

theorem pendingInv_init : PendingInv drPendingMapInit where
  reserved := rfl
  cursor := by decide
  indexed id h := by cases h
  counted := by
    rw [eq_comm, DrPendingMap.activeIds, drPendingMapInit, Finset.card_eq_zero,
      Finset.filter_eq_empty_iff]
    exact fun id _ => Bool.false_ne_true

theorem activeIds_fill (map : DrPendingMap) (query : PendingQuery) (id : UInt16) :
    (map.fill query id).activeIds = insert id map.activeIds := by
  ext k
  rw [Finset.mem_insert, mem_activeIds, mem_activeIds]
  by_cases h : k = id
  · subst h
    simp [PendingQuery.request]
  · simp [slots_fill_of_ne map query h, h]

theorem activeIds_clear (map : DrPendingMap) (id : UInt16) :
    (map.clear id).activeIds = map.activeIds.erase id := by
  ext k
  rw [Finset.mem_erase, mem_activeIds, mem_activeIds]
  by_cases h : k = id
  · subst h
    simp [DrPendingRequest.zero]
  · simp [slots_clear_of_ne map h, h]

theorem PendingInv.fill {map : DrPendingMap} (h : PendingInv map) (query : PendingQuery)
    {id : UInt16} (hid : id ≠ 0) (hfree : (map.slots id).active = false) :
    PendingInv (map.fill query id) where
  reserved := by rw [slots_fill_of_ne map query (Ne.symm hid)]; exact h.reserved
  cursor := nextCandidate_ne_zero id
  indexed k hk := by
    by_cases hki : k = id
    · subst hki
      simp [PendingQuery.request]
    · rw [slots_fill_of_ne map query hki] at hk ⊢
      exact h.indexed k hk
  counted := by
    have hnew : id ∉ map.activeIds := by rw [mem_activeIds, hfree]; exact Bool.false_ne_true
    rw [activeIds_fill, Finset.card_insert_of_notMem hnew, ← h.counted]
    rfl

theorem PendingInv.clear {map : DrPendingMap} (h : PendingInv map) {id : UInt16}
    (hactive : (map.slots id).active = true) : PendingInv (map.clear id) where
  reserved := by
    have hne : (0 : UInt16) ≠ id := by
      intro heq
      subst heq
      rw [h.reserved] at hactive
      cases hactive
    rw [slots_clear_of_ne map hne]
    exact h.reserved
  cursor := h.cursor
  indexed k hk := by
    by_cases hki : k = id
    · subst hki
      simp [DrPendingRequest.zero] at hk
    · rw [slots_clear_of_ne map hki] at hk ⊢
      exact h.indexed k hk
  counted := by
    rw [activeIds_clear, Finset.card_erase_of_mem (mem_activeIds.mpr hactive), ← h.counted]
    rfl

/-- What is taken out was counted, so the counter does not wrap. -/
theorem PendingInv.activeCount_pos {map : DrPendingMap} (h : PendingInv map) {id : UInt16}
    (hactive : (map.slots id).active = true) : 0 < map.activeCount := by
  rw [h.counted]
  exact Finset.card_pos.mpr ⟨id, mem_activeIds.mpr hactive⟩

/-- The counter bounds the number of active requests. -/
theorem PendingInv.length_le_activeCount {map : DrPendingMap} (h : PendingInv map)
    {ids : List UInt16} (hnodup : ids.Nodup) (hactive : ∀ id ∈ ids, (map.slots id).active = true) :
    ids.length ≤ map.activeCount := by
  rw [h.counted, ← List.toFinset_card_of_nodup hnodup]
  apply Finset.card_le_card
  intro id hid
  exact mem_activeIds.mpr (hactive id (List.mem_toFinset.mp hid))

inductive PendingCall where
  | insert (query : PendingQuery)
  | get (upstreamId : UInt16)
  | remove (upstreamId : UInt16)
  | popExpired (nowMs : UInt64) (timeoutMs : UInt32)

def PendingCall.apply (map : DrPendingMap) : PendingCall → DrPendingMap
  | .insert query => (drPendingMapInsert map query).1
  | .get _ => map
  | .remove upstreamId => (drPendingMapRemove map upstreamId).1
  | .popExpired nowMs timeoutMs => (drPendingMapPopExpired map nowMs timeoutMs).1

/-- The map after a sequence of calls on the initial map. -/
def pendingAfter (calls : List PendingCall) : DrPendingMap :=
  calls.foldl PendingCall.apply drPendingMapInit

theorem PendingInv.insert {map : DrPendingMap} (h : PendingInv map) (query : PendingQuery) :
    PendingInv (drPendingMapInsert map query).1 := by
  rcases drPendingMapInsert_cases map query with heq | ⟨id, hid, hfree, heq⟩ <;> rw [heq]
  · exact h
  · exact h.fill query hid hfree

theorem PendingInv.remove {map : DrPendingMap} (h : PendingInv map) (id : UInt16) :
    PendingInv (drPendingMapRemove map id).1 := by
  rcases drPendingMapRemove_cases map id with ⟨_, heq⟩ | ⟨hactive, heq⟩ <;> rw [heq]
  · exact h
  · exact h.clear hactive

theorem PendingInv.popExpired {map : DrPendingMap} (h : PendingInv map) (nowMs : UInt64)
    (timeoutMs : UInt32) : PendingInv (drPendingMapPopExpired map nowMs timeoutMs).1 := by
  rcases drPendingMapPopExpired_cases map nowMs timeoutMs with ⟨heq, _⟩ | ⟨id, hover, _, heq⟩ <;>
    rw [heq]
  · exact h
  · exact h.clear (active_of_overdue hover)

theorem PendingInv.apply {map : DrPendingMap} (h : PendingInv map) (call : PendingCall) :
    PendingInv (call.apply map) := by
  cases call with
  | insert query => exact h.insert query
  | get id => exact h
  | remove id => exact h.remove id
  | popExpired nowMs timeoutMs => exact h.popExpired nowMs timeoutMs

theorem pendingInv_pendingAfter (calls : List PendingCall) : PendingInv (pendingAfter calls) :=
  List.foldlRecOn calls PendingCall.apply pendingInv_init (fun _ h call _ => h.apply call)

/-- After any calls the map is a partial function on the IDs 1 to 65535: inserts extend it at a
fresh ID and fail only when it is total, the other calls undefine it at one ID. -/
theorem pending_map_partial_function (calls : List PendingCall) :
    PendingInv (pendingAfter calls) ∧
    (∀ query : PendingQuery, query.Valid → query.qname.octets.length ≤ DR_DNS_MAX_DOMAIN_LEN →
      ((drPendingMapInsert (pendingAfter calls) query).2 = none ↔
        ∀ id, id ≠ 0 → (drPendingMapGet (pendingAfter calls) id).isSome) ∧
      ∀ id, (drPendingMapInsert (pendingAfter calls) query).2 = some id →
        id ≠ 0 ∧ drPendingMapGet (pendingAfter calls) id = none ∧
        drPendingMapGet (drPendingMapInsert (pendingAfter calls) query).1 id =
          some { active := true, upstreamId := id, clientId := query.clientId,
                 clientAddr := query.clientAddr, queryPacket := query.queryPacket,
                 startedMs := query.startedMs, qname := query.qname, qtype := query.qtype,
                 qclass := query.qclass }) ∧
    (∀ query : PendingQuery,
      ((drPendingMapInsert (pendingAfter calls) query).2 = none →
        (drPendingMapInsert (pendingAfter calls) query).1 = pendingAfter calls) ∧
      ∀ k, (drPendingMapInsert (pendingAfter calls) query).2 ≠ some k →
        (drPendingMapInsert (pendingAfter calls) query).1.slots k = (pendingAfter calls).slots k) ∧
    (∀ id, (drPendingMapRemove (pendingAfter calls) id).2 = drPendingMapGet (pendingAfter calls) id ∧
      drPendingMapGet (drPendingMapRemove (pendingAfter calls) id).1 id = none ∧
      (∀ request, (drPendingMapRemove (pendingAfter calls) id).2 = some request →
        (drPendingMapRemove (pendingAfter calls) id).1.activeCount + 1 =
          (pendingAfter calls).activeCount) ∧
      ∀ k, k ≠ id →
        (drPendingMapRemove (pendingAfter calls) id).1.slots k = (pendingAfter calls).slots k) ∧
    ∀ nowMs timeoutMs,
      (drPendingMapPopExpired (pendingAfter calls) nowMs timeoutMs = (pendingAfter calls, none) ∨
        ∃ id request, drPendingMapGet (pendingAfter calls) id = some request ∧
          (drPendingMapPopExpired (pendingAfter calls) nowMs timeoutMs).2 = some request ∧
          drPendingMapGet (drPendingMapPopExpired (pendingAfter calls) nowMs timeoutMs).1 id = none ∧
          (drPendingMapPopExpired (pendingAfter calls) nowMs timeoutMs).1.activeCount + 1 =
            (pendingAfter calls).activeCount ∧
          ∀ k, k ≠ id → (drPendingMapPopExpired (pendingAfter calls) nowMs timeoutMs).1.slots k =
            (pendingAfter calls).slots k) := by
  have hinv := pendingInv_pendingAfter calls
  generalize pendingAfter calls = map at hinv ⊢
  have hclear {id : UInt16} (hactive : (map.slots id).active = true) :
      (map.clear id).activeCount + 1 = map.activeCount :=
    Nat.sub_add_cancel (hinv.activeCount_pos hactive)
  refine ⟨hinv, fun query hvalid hname => ⟨?_, ?_⟩, fun query => ?_, fun id => ?_,
    fun nowMs timeoutMs => ?_⟩
  · rw [drPendingMapInsert_eq_none_iff hvalid]
    simp [drPendingMapGet]
  · intro id hid
    rcases drPendingMapInsert_cases map query with heq | ⟨k, hk, hfree, heq⟩
    · rw [heq] at hid
      cases hid
    · rw [heq] at hid ⊢
      cases hid
      refine ⟨hk, drPendingMapGet_eq_none.mpr hfree, drPendingMapGet_eq_some.mpr ?_⟩
      rw [slots_fill_self, PendingQuery.request, CString.truncate_of_le hname]
      exact ⟨rfl, rfl⟩
  · rcases drPendingMapInsert_cases map query with heq | ⟨k, hk, hfree, heq⟩ <;> rw [heq]
    · exact ⟨fun _ => rfl, fun _ _ => rfl⟩
    · exact ⟨nofun, fun j hj => slots_fill_of_ne map query (fun h => hj (h ▸ rfl))⟩
  · rcases drPendingMapRemove_cases map id with ⟨hfree, heq⟩ | ⟨hactive, heq⟩ <;> rw [heq]
    · exact ⟨(drPendingMapGet_eq_none.mpr hfree).symm, drPendingMapGet_eq_none.mpr hfree, nofun,
        fun _ _ => rfl⟩
    · refine ⟨(drPendingMapGet_eq_some.mpr ⟨hactive, rfl⟩).symm, ?_, fun _ _ => hclear hactive,
        fun k hk => slots_clear_of_ne map hk⟩
      rw [get_clear, if_pos rfl]
  · rcases drPendingMapPopExpired_cases map nowMs timeoutMs with ⟨heq, _⟩ | ⟨id, hover, _, heq⟩
    · exact Or.inl heq
    · have hactive := active_of_overdue hover
      rw [heq]
      refine Or.inr ⟨id, _, drPendingMapGet_eq_some.mpr ⟨hactive, rfl⟩, rfl, ?_, hclear hactive,
        fun k hk => slots_clear_of_ne map hk⟩
      rw [get_clear, if_pos rfl]

/-- A query from 10.0.0.9 for the root name. -/
def rootQuery : PendingQuery where
  clientId := 7
  clientAddr := [2, 0, 0x30, 0x39, 10, 0, 0, 9]
  queryPacket := [0, 7, 1, 0, 0, 1, 0, 0, 0, 0, 0, 0, 0, 0, 1, 0, 1]
  qname := cstr [0x2e]
  qtype := 1
  qclass := 1
  startedMs := 5

theorem rootQuery_valid : rootQuery.Valid := ⟨by decide, by decide, by decide, by decide⟩

theorem pending_map_partial_function_rootQuery :
    drPendingMapGet (drPendingMapInsert (pendingAfter [.remove 3]) rootQuery).1 1 =
      some { active := true, upstreamId := 1, clientId := 7, clientAddr := rootQuery.clientAddr,
             queryPacket := rootQuery.queryPacket, startedMs := 5, qname := cstr [0x2e], qtype := 1,
             qclass := 1 } :=
  (((pending_map_partial_function [.remove 3]).2.1 rootQuery rootQuery_valid (by decide)).2 1
    (by decide)).2.2

end DnsRelay.Store
