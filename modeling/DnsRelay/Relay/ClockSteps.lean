import DnsRelay.Relay.Timeouts

/-!
# Timeouts under a clock that is set back

The timeout scan subtracts in 64 bits. When the clock is behind the start of a request
the difference wraps, so a request the clock has not even reached passes for overdue.
Here the test is read on the integers for every pair of clock readings, which says
exactly which maps the scan takes an undue request from.
-/
namespace DnsRelay.Relay

open DnsRelay.Foundation
open DnsRelay.Wire
open DnsRelay.Store

/-- The clock is behind the start of the request, and the difference wraps past the timeout. -/
def Early (nowMs : UInt64) (timeoutMs : UInt32) (request : DrPendingRequest) : Prop :=
  nowMs.toNat < request.startedMs.toNat ∧
    request.startedMs.toNat + timeoutMs.toNat ≤ nowMs.toNat + 2 ^ 64

instance (nowMs : UInt64) (timeoutMs : UInt32) (request : DrPendingRequest) :
    Decidable (Early nowMs timeoutMs request) := inferInstanceAs (Decidable (_ ∧ _))

/-- The test of the scan on any two clock readings. -/
theorem overdue_iff {request : DrPendingRequest} {nowMs : UInt64} {timeoutMs : UInt32} :
    request.overdue nowMs timeoutMs = true ↔ request.active = true ∧
      (Due nowMs timeoutMs request ∨ Early nowMs timeoutMs request) := by
  by_cases hnow : request.startedMs ≤ nowMs
  · have hle := UInt64.le_iff_toNat_le.mp hnow
    rw [overdue_iff_due timeoutMs (fun _ => hnow), or_iff_left]
    intro hearly
    exact absurd hearly.1 (Nat.not_lt.mpr hle)
  · have hlt := UInt64.lt_iff_toNat_lt.mp (UInt64.not_le.mp hnow)
    have hstarted := request.startedMs.toNat_lt
    have hage : (nowMs - request.startedMs).toNat =
        2 ^ 64 - request.startedMs.toNat + nowMs.toNat := by
      rw [UInt64.toNat_sub, Nat.mod_eq_of_lt (by omega)]
    rw [DrPendingRequest.overdue, Bool.and_eq_true, decide_eq_true_eq, ge_iff_le,
      UInt64.le_iff_toNat_le, hage, UInt32.toNat_toUInt64]
    apply and_congr_right
    intro _
    unfold Due Early
    omega

/-- Every request the call takes out of the map is due. -/
def PopsOnlyDue (pendingMap : DrPendingMap) (nowMs : UInt64) (timeoutMs : UInt32) : Prop :=
  ∀ id request, drPendingMapGet pendingMap id = some request →
    drPendingMapGet (drPendingMapPopExpired pendingMap nowMs timeoutMs).1 id = none →
    Due nowMs timeoutMs request

/-- What one call takes out: the first overdue request. -/
theorem popped_iff {pendingMap : DrPendingMap} {nowMs : UInt64} {timeoutMs : UInt32} {id : UInt16}
    (hactive : (pendingMap.slots id).active = true) :
    drPendingMapGet (drPendingMapPopExpired pendingMap nowMs timeoutMs).1 id = none ↔
      (pendingMap.slots id).overdue nowMs timeoutMs = true ∧
        ∀ k < id, (pendingMap.slots k).overdue nowMs timeoutMs = false := by
  have hget : drPendingMapGet pendingMap id = some (pendingMap.slots id) :=
    drPendingMapGet_eq_some.mpr ⟨hactive, rfl⟩
  rcases drPendingMapPopExpired_cases pendingMap nowMs timeoutMs with
    ⟨heq, hnone⟩ | ⟨first, hover, hfirst, heq⟩
  · rw [heq, hget]
    simp [hnone id]
  · rw [heq, get_clear, hget]
    constructor
    · intro hgone
      by_cases hid : id = first
      · rw [hid]
        exact ⟨hover, hfirst⟩
      · rw [if_neg hid] at hgone
        cases hgone
    · intro h
      obtain ⟨hover', hfirst'⟩ := h
      rw [if_pos]
      -- two first overdue requests are one
      apply UInt16.le_antisymm
      · apply UInt16.not_lt.mp
        intro hlt
        rw [hfirst' first hlt] at hover
        cases hover
      · apply UInt16.not_lt.mp
        intro hlt
        rw [hfirst id hlt] at hover'
        cases hover'

theorem exists_first_overdue {pendingMap : DrPendingMap} {nowMs : UInt64} {timeoutMs : UInt32}
    {id : UInt16} (hover : (pendingMap.slots id).overdue nowMs timeoutMs = true) :
    ∃ first ≤ id, (pendingMap.slots first).overdue nowMs timeoutMs = true ∧
      ∀ k < first, (pendingMap.slots k).overdue nowMs timeoutMs = false := by
  rcases drPendingMapPopExpired_cases pendingMap nowMs timeoutMs with
    ⟨_, hnone⟩ | ⟨first, hover', hfirst, _⟩
  · rw [hnone id] at hover
    cases hover
  · refine ⟨first, UInt16.not_lt.mp (fun hlt => ?_), hover', hfirst⟩
    rw [hfirst id hlt] at hover
    cases hover

theorem Early.not_due {nowMs : UInt64} {timeoutMs : UInt32} {request : DrPendingRequest}
    (h : Early nowMs timeoutMs request) : ¬ Due nowMs timeoutMs request := by
  have hbehind := h.1
  unfold Due
  omega

/-- The scan takes a request that is not due exactly when one that is early comes before every
request that is due. -/
theorem pops_only_due_iff (pendingMap : DrPendingMap) (nowMs : UInt64) (timeoutMs : UInt32) :
    PopsOnlyDue pendingMap nowMs timeoutMs ↔
      ∀ id, (pendingMap.slots id).active = true → Early nowMs timeoutMs (pendingMap.slots id) →
        ∃ id' < id, (pendingMap.slots id').active = true ∧
          Due nowMs timeoutMs (pendingMap.slots id') := by
  constructor
  · intro hdue id hactive hearly
    obtain ⟨first, hle, hover, hfirst⟩ :=
      exists_first_overdue (overdue_iff.mpr ⟨hactive, Or.inr hearly⟩)
    have hfirstActive := (overdue_iff.mp hover).1
    have hpopped := hdue first _ (drPendingMapGet_eq_some.mpr ⟨hfirstActive, rfl⟩)
      ((popped_iff hfirstActive).mpr ⟨hover, hfirst⟩)
    refine ⟨first, UInt16.lt_of_le_of_ne hle ?_, hfirstActive, hpopped⟩
    intro hsame
    rw [hsame] at hpopped
    exact hearly.not_due hpopped
  · intro hbehind id request hget hgone
    obtain ⟨hactive, rfl⟩ := drPendingMapGet_eq_some.mp hget
    obtain ⟨hover, hfirst⟩ := (popped_iff hactive).mp hgone
    rcases (overdue_iff.mp hover).2 with hdue | hearly
    · exact hdue
    · obtain ⟨id', hlt, hactive', hdue'⟩ := hbehind id hactive hearly
      have hover' := overdue_iff.mpr ⟨hactive', Or.inl hdue'⟩
      rw [hfirst id' hlt] at hover'
      cases hover'

/-- The loop of the server goes on to the last overdue request, so there the order of the slots does
not help: it yields only requests that are due exactly when no request is early. -/
theorem expiry_loop_only_due_iff (pendingMap : DrPendingMap) (nowMs : UInt64) (timeoutMs : UInt32) :
    ∃ last yielded,
      popAll nowMs timeoutMs (DR_PENDING_SLOT_COUNT + 1) pendingMap = some (last, yielded) ∧
      ((∀ request ∈ yielded, Due nowMs timeoutMs request) ↔
        ∀ id, (pendingMap.slots id).active = true → ¬ Early nowMs timeoutMs (pendingMap.slots id)) := by
  obtain ⟨ids, _, hmem, hpopped⟩ := popAll_spec nowMs timeoutMs (DR_PENDING_SLOT_COUNT + 1)
    pendingMap (Nat.lt_succ_of_le (card_overdueIds_le _ _ _))
  refine ⟨_, _, hpopped, ?_⟩
  constructor
  · intro hdue id hactive hearly
    have hid := (hmem id).mpr (overdue_iff.mpr ⟨hactive, Or.inr hearly⟩)
    exact hearly.not_due (hdue _ (List.mem_map_of_mem hid))
  · intro hnone request hrequest
    obtain ⟨id, hid, rfl⟩ := List.mem_map.mp hrequest
    obtain ⟨hactive, hwhy⟩ := overdue_iff.mp ((hmem id).mp hid)
    exact hwhy.resolve_right (hnone id hactive)

/-- A query entered at 5 ms is timed out when the clock is set back to 4 ms. -/
theorem clock_back_times_out : ¬ ∀ (pendingMap : DrPendingMap) (nowMs : UInt64) (timeoutMs : UInt32),
    0 < timeoutMs → PopsOnlyDue pendingMap nowMs timeoutMs := by
  intro hall
  have hget : drPendingMapGet (drPendingMapInit.fill rootQuery 1) 1 = some (rootQuery.request 1) := by
    rw [drPendingMapGet_eq_some, slots_fill_self]
    exact ⟨rfl, rfl⟩
  have hgone : drPendingMapGet (drPendingMapPopExpired (drPendingMapInit.fill rootQuery 1) 4 5000).1 1
      = none := by
    decide +kernel
  have hdue := hall _ 4 5000 (by decide) 1 _ hget hgone
  revert hdue
  decide

end DnsRelay.Relay
