import DnsRelay.Relay.Server
import DnsRelay.Store.PendingInvariant

/-!
# What a tick can do

One pass of the main loop over the timeouts clears every overdue slot and no other, and
offers each of these requests an answer of its own. The loop ends because each pass
clears a slot, so the budget of one pass for each slot is never used up.
-/
namespace DnsRelay.Relay

open DnsRelay.Foundation
open DnsRelay.Wire
open DnsRelay.Store

def overdueIds (pendingMap : DrPendingMap) (nowMs : UInt64) (timeoutMs : UInt32) : Finset UInt16 :=
  allIds.filter (fun id => (pendingMap.slots id).overdue nowMs timeoutMs = true)

theorem mem_overdueIds {pendingMap : DrPendingMap} {nowMs : UInt64} {timeoutMs : UInt32}
    {id : UInt16} : id ∈ overdueIds pendingMap nowMs timeoutMs ↔
      (pendingMap.slots id).overdue nowMs timeoutMs = true := by
  simp [overdueIds, mem_allIds]

theorem zero_not_overdue (nowMs : UInt64) (timeoutMs : UInt32) :
    DrPendingRequest.zero.overdue nowMs timeoutMs = false := rfl

theorem overdueIds_clear (pendingMap : DrPendingMap) (nowMs : UInt64) (timeoutMs : UInt32)
    (id : UInt16) : overdueIds (pendingMap.clear id) nowMs timeoutMs =
      (overdueIds pendingMap nowMs timeoutMs).erase id := by
  ext k
  rw [Finset.mem_erase, mem_overdueIds, mem_overdueIds]
  by_cases h : k = id
  · subst h
    simp [zero_not_overdue]
  · simp [slots_clear_of_ne pendingMap h, h]

/-- `dr_pending_map_pop_expired` until it returns 0: the map left and the requests it yielded, in
order; nothing when `passes` calls are not enough. -/
def popAll (nowMs : UInt64) (timeoutMs : UInt32) :
    Nat → DrPendingMap → Option (DrPendingMap × List DrPendingRequest)
  | 0, _ => none
  | passes + 1, pendingMap =>
    match drPendingMapPopExpired pendingMap nowMs timeoutMs with
    | (pendingMap, none) => some (pendingMap, [])
    | (pendingMap, some request) =>
      (popAll nowMs timeoutMs passes pendingMap).map (fun r => (r.1, request :: r.2))

theorem slots_clearAll (ids : List UInt16) (pendingMap : DrPendingMap) (k : UInt16) :
    (ids.foldl DrPendingMap.clear pendingMap).slots k =
      if k ∈ ids then .zero else pendingMap.slots k := by
  induction ids generalizing pendingMap with
  | nil => rfl
  | cons id ids ih =>
    rw [List.foldl_cons, ih]
    by_cases hk : k = id
    · subst hk
      simp
    · rw [slots_clear_of_ne pendingMap hk]
      simp [hk]

theorem activeCount_clearAll (ids : List UInt16) (pendingMap : DrPendingMap) :
    (ids.foldl DrPendingMap.clear pendingMap).activeCount = pendingMap.activeCount - ids.length := by
  induction ids generalizing pendingMap with
  | nil => rfl
  | cons id ids ih =>
    have hone : (pendingMap.clear id).activeCount = pendingMap.activeCount - 1 := rfl
    rw [List.foldl_cons, ih, hone, List.length_cons]
    omega

/-- The loop ends, and yields the overdue requests in the order of their IDs. Each call takes the
smallest overdue ID, so what is left for the next one lies above it. -/
theorem popAll_spec (nowMs : UInt64) (timeoutMs : UInt32) : ∀ passes (pendingMap : DrPendingMap),
    (overdueIds pendingMap nowMs timeoutMs).card < passes →
    ∃ ids : List UInt16, ids.Pairwise (· < ·) ∧
      (∀ id, id ∈ ids ↔ (pendingMap.slots id).overdue nowMs timeoutMs = true) ∧
      popAll nowMs timeoutMs passes pendingMap =
        some (ids.foldl DrPendingMap.clear pendingMap, ids.map pendingMap.slots) := by
  intro passes
  induction passes with
  | zero =>
    intro pendingMap hcard
    exact absurd hcard (Nat.not_lt_zero _)
  | succ passes ih =>
    intro pendingMap hcard
    rw [popAll]
    rcases drPendingMapPopExpired_cases pendingMap nowMs timeoutMs with
      ⟨heq, hnone⟩ | ⟨id, hover, hfirst, heq⟩ <;> rw [heq]
    · exact ⟨[], List.Pairwise.nil, fun id => by simp [hnone id], rfl⟩
    · have hfewer : (overdueIds (pendingMap.clear id) nowMs timeoutMs).card < passes := by
        have hpos := Finset.card_pos.mpr ⟨id, mem_overdueIds.mpr hover⟩
        rw [overdueIds_clear, Finset.card_erase_of_mem (mem_overdueIds.mpr hover)]
        omega
      obtain ⟨ids, hsorted, hmem, hrest⟩ := ih (pendingMap.clear id) hfewer
      have hne : ∀ k ∈ ids, k ≠ id := by
        intro k hk heq
        rw [hmem, heq, slots_clear_self, zero_not_overdue] at hk
        cases hk
      have hkept : ∀ k ∈ ids, (pendingMap.clear id).slots k = pendingMap.slots k :=
        fun k hk => slots_clear_of_ne pendingMap (hne k hk)
      have habove : ∀ k ∈ ids, id < k := by
        intro k hk
        have hk' := (hmem k).mp hk
        rw [hkept k hk] at hk'
        apply UInt16.lt_of_le_of_ne _ (Ne.symm (hne k hk))
        apply UInt16.not_lt.mp
        intro hlt
        rw [hfirst k hlt] at hk'
        cases hk'
      refine ⟨id :: ids, List.pairwise_cons.mpr ⟨habove, hsorted⟩, fun k => ?_, ?_⟩
      · by_cases hk : k = id
        · simp [hk, hover]
        · rw [List.mem_cons, hmem, slots_clear_of_ne pendingMap hk]
          simp [hk]
      · dsimp only
        rw [hrest, List.map_congr_left hkept]
        rfl

/-- The answers to timed out requests, in order. -/
def timeoutAnswers (sent : Nat → Bool) : Nat → List DrPendingRequest → List Send
  | _, [] => []
  | expiredCount, request :: requests =>
    respondWithError request.queryPacket DR_DNS_RCODE_SERVFAIL (.timeout request.upstreamId)
      request.clientAddr (sent expiredCount) ++ timeoutAnswers sent (expiredCount + 1) requests

/-- The loop of the server answers what the calls yield. -/
theorem timeoutLoop_eq {nowMs : UInt64} {timeoutMs : UInt32} (sent : Nat → Bool) :
    ∀ {passes : Nat} (expiredCount : Nat) {pendingMap last : DrPendingMap}
      {requests : List DrPendingRequest},
      popAll nowMs timeoutMs (passes + 1) pendingMap = some (last, requests) →
      timeoutLoop nowMs timeoutMs sent passes expiredCount pendingMap =
        (last, timeoutAnswers sent expiredCount requests) := by
  intro passes
  induction passes with
  | zero =>
    intro expiredCount pendingMap last requests h
    rw [popAll] at h
    rcases drPendingMapPopExpired_cases pendingMap nowMs timeoutMs with
      ⟨heq, _⟩ | ⟨id, _, _, heq⟩ <;> rw [heq] at h
    · cases h
      rfl
    · cases h
  | succ passes ih =>
    intro expiredCount pendingMap last requests h
    rw [popAll] at h
    rw [timeoutLoop]
    rcases drPendingMapPopExpired_cases pendingMap nowMs timeoutMs with
      ⟨heq, _⟩ | ⟨id, _, _, heq⟩ <;> rw [heq] at h ⊢
    · cases h
      rfl
    · obtain ⟨⟨last', requests'⟩, hrest, hr⟩ := Option.map_eq_some_iff.mp h
      cases hr
      dsimp only
      rw [ih (expiredCount + 1) hrest]
      rfl

/-- The answers to the requests under some IDs, in order. -/
def timeoutSends (slots : UInt16 → DrPendingRequest) (sent : Nat → Bool) :
    Nat → List UInt16 → List Send
  | _, [] => []
  | expiredCount, id :: ids =>
    respondWithError (slots id).queryPacket DR_DNS_RCODE_SERVFAIL (.timeout (slots id).upstreamId)
      (slots id).clientAddr (sent expiredCount) ++ timeoutSends slots sent (expiredCount + 1) ids

theorem timeoutAnswers_map (slots : UInt16 → DrPendingRequest) (sent : Nat → Bool)
    (ids : List UInt16) (expiredCount : Nat) :
    timeoutAnswers sent expiredCount (ids.map slots) = timeoutSends slots sent expiredCount ids := by
  induction ids generalizing expiredCount with
  | nil => rfl
  | cons id ids ih => rw [List.map_cons, timeoutAnswers, timeoutSends, ih]

/-- The loop takes out the overdue requests, each once, and answers them in that order. -/
theorem timeoutLoop_spec (nowMs : UInt64) (timeoutMs : UInt32) (sent : Nat → Bool)
    (passes expiredCount : Nat) (pendingMap : DrPendingMap)
    (hcard : (overdueIds pendingMap nowMs timeoutMs).card ≤ passes) :
    ∃ ids : List UInt16, ids.Nodup ∧
      (∀ id, id ∈ ids ↔ (pendingMap.slots id).overdue nowMs timeoutMs = true) ∧
      (∀ id, (timeoutLoop nowMs timeoutMs sent passes expiredCount pendingMap).1.slots id =
        if id ∈ ids then .zero else pendingMap.slots id) ∧
      (timeoutLoop nowMs timeoutMs sent passes expiredCount pendingMap).2 =
        timeoutSends pendingMap.slots sent expiredCount ids := by
  obtain ⟨ids, hsorted, hmem, hpopped⟩ :=
    popAll_spec nowMs timeoutMs (passes + 1) pendingMap (Nat.lt_succ_of_le hcard)
  have hnodup : ids.Nodup := hsorted.imp (fun hlt => UInt16.ne_of_lt hlt)
  rw [timeoutLoop_eq sent expiredCount hpopped]
  exact ⟨ids, hnodup, hmem, slots_clearAll ids pendingMap, timeoutAnswers_map _ _ _ _⟩

theorem card_overdueIds_le (pendingMap : DrPendingMap) (nowMs : UInt64) (timeoutMs : UInt32) :
    (overdueIds pendingMap nowMs timeoutMs).card ≤ DR_PENDING_SLOT_COUNT := by
  apply (Finset.card_filter_le _ _).trans
  exact Finset.card_image_le.trans (Nat.le_of_eq (Finset.card_range _))

/-- A tick clears exactly the overdue slots, answers the requests in them in some order, and clears
the expired entries of the cache. -/
theorem expireAll_spec (server : DrServer) (nowMs : UInt64) (sent : Nat → Bool) :
    ∃ ids : List UInt16, ids.Nodup ∧
      (∀ id, id ∈ ids ↔
        (server.pendingMap.slots id).overdue nowMs server.upstreamTimeoutMs = true) ∧
      (∀ id, (expireAll server nowMs sent).1.pendingMap.slots id =
        if id ∈ ids then .zero else server.pendingMap.slots id) ∧
      (expireAll server nowMs sent).1.cache = drCacheExpire server.cache nowMs ∧
      (expireAll server nowMs sent).2 = timeoutSends server.pendingMap.slots sent 0 ids := by
  obtain ⟨ids, hnodup, hmem, hslots, hsends⟩ := timeoutLoop_spec nowMs server.upstreamTimeoutMs sent
    DR_PENDING_SLOT_COUNT 0 server.pendingMap (card_overdueIds_le _ _ _)
  exact ⟨ids, hnodup, hmem, hslots, rfl, hsends⟩

/-- The timeout has passed, read on the integers. -/
def Due (nowMs : UInt64) (timeoutMs : UInt32) (request : DrPendingRequest) : Prop :=
  request.startedMs.toNat + timeoutMs.toNat ≤ nowMs.toNat

instance (nowMs : UInt64) (timeoutMs : UInt32) (request : DrPendingRequest) :
    Decidable (Due nowMs timeoutMs request) := inferInstanceAs (Decidable (_ ≤ _))

/-- As long as the clock is not behind the start, the unsigned test of the scan does not wrap. -/
theorem overdue_iff_due {request : DrPendingRequest} {nowMs : UInt64} (timeoutMs : UInt32)
    (hnow : request.active = true → request.startedMs ≤ nowMs) :
    request.overdue nowMs timeoutMs = true ↔
      request.active = true ∧ Due nowMs timeoutMs request := by
  rw [DrPendingRequest.overdue, Bool.and_eq_true, decide_eq_true_eq]
  constructor
  · intro h
    obtain ⟨hactive, hage⟩ := h
    have hle := UInt64.le_iff_toNat_le.mp (hnow hactive)
    have hage' := UInt64.le_iff_toNat_le.mp hage
    rw [UInt64.toNat_sub_of_le _ _ (hnow hactive), UInt32.toNat_toUInt64] at hage'
    exact ⟨hactive, by unfold Due; omega⟩
  · intro h
    obtain ⟨hactive, hdue⟩ := h
    have hle := UInt64.le_iff_toNat_le.mp (hnow hactive)
    unfold Due at hdue
    refine ⟨hactive, UInt64.le_iff_toNat_le.mpr ?_⟩
    rw [UInt64.toNat_sub_of_le _ _ (hnow hactive), UInt32.toNat_toUInt64]
    omega

/-- The request in a slot is overdue when it is pending and due. -/
theorem overdue_iff_pending_due {pendingMap : DrPendingMap} {id : UInt16} {nowMs : UInt64}
    (timeoutMs : UInt32) (hnow : (pendingMap.slots id).active = true →
      (pendingMap.slots id).startedMs ≤ nowMs) :
    (pendingMap.slots id).overdue nowMs timeoutMs = true ↔
      ∃ request, drPendingMapGet pendingMap id = some request ∧ Due nowMs timeoutMs request := by
  rw [overdue_iff_due timeoutMs hnow]
  simp only [drPendingMapGet_eq_some]
  constructor
  · intro h
    exact ⟨_, ⟨h.1, rfl⟩, h.2⟩
  · intro h
    obtain ⟨request, ⟨hactive, heq⟩, hdue⟩ := h
    exact ⟨hactive, heq ▸ hdue⟩

/-- On every reachable pending map the expiry loop of the server ends. It yields the active requests
that are due, each once and in the order of their IDs, clears exactly their slots, counts them
out, and leaves no request that is due. -/
theorem expiry_loop_exact (calls : List PendingCall) (nowMs : UInt64) (timeoutMs : UInt32)
    (sent : Nat → Bool)
    (hnow : ∀ id, ((pendingAfter calls).slots id).active = true →
      ((pendingAfter calls).slots id).startedMs ≤ nowMs) :
    ∃ last yielded,
      popAll nowMs timeoutMs (DR_PENDING_SLOT_COUNT + 1) (pendingAfter calls) =
        some (last, yielded) ∧
      timeoutLoop nowMs timeoutMs sent DR_PENDING_SLOT_COUNT 0 (pendingAfter calls) =
        (last, timeoutAnswers sent 0 yielded) ∧
      (∀ request, request ∈ yielded ↔
        ∃ id, drPendingMapGet (pendingAfter calls) id = some request ∧
          Due nowMs timeoutMs request) ∧
      yielded.Pairwise (fun a b => a.upstreamId < b.upstreamId) ∧
      (∀ id, (∃ request, drPendingMapGet (pendingAfter calls) id = some request ∧
          Due nowMs timeoutMs request) → last.slots id = .zero) ∧
      (∀ id, (¬ ∃ request, drPendingMapGet (pendingAfter calls) id = some request ∧
          Due nowMs timeoutMs request) → last.slots id = (pendingAfter calls).slots id) ∧
      last.activeCount + yielded.length = (pendingAfter calls).activeCount ∧
      ∀ id request, drPendingMapGet last id = some request → ¬ Due nowMs timeoutMs request := by
  have hinv := pendingInv_pendingAfter calls
  generalize pendingAfter calls = pendingMap at hinv hnow ⊢
  obtain ⟨ids, hsorted, hmem, hpopped⟩ := popAll_spec nowMs timeoutMs (DR_PENDING_SLOT_COUNT + 1)
    pendingMap (Nat.lt_succ_of_le (card_overdueIds_le _ _ _))
  have hdue (id : UInt16) : id ∈ ids ↔ ∃ request,
      drPendingMapGet pendingMap id = some request ∧ Due nowMs timeoutMs request := by
    rw [hmem, overdue_iff_pending_due timeoutMs (hnow id)]
  have hactive : ∀ id ∈ ids, (pendingMap.slots id).active = true :=
    fun id hid => active_of_overdue ((hmem id).mp hid)
  have hslots := slots_clearAll ids pendingMap
  have hcount : ids.length ≤ pendingMap.activeCount :=
    hinv.length_le_activeCount (hsorted.imp (fun hlt => UInt16.ne_of_lt hlt)) hactive
  refine ⟨_, _, hpopped, timeoutLoop_eq sent 0 hpopped, ?_, ?_, ?_, ?_, ?_, ?_⟩
  · intro request
    rw [List.mem_map]
    constructor
    · intro h
      obtain ⟨id, hid, heq⟩ := h
      obtain ⟨request', hget, hdue'⟩ := (hdue id).mp hid
      have hsame := (drPendingMapGet_eq_some.mp hget).2.symm.trans heq
      exact ⟨id, hsame ▸ hget, hsame ▸ hdue'⟩
    · intro h
      obtain ⟨id, hget, hdue'⟩ := h
      exact ⟨id, (hdue id).mpr ⟨request, hget, hdue'⟩, (drPendingMapGet_eq_some.mp hget).2⟩
  · rw [List.pairwise_map]
    apply hsorted.imp_of_mem
    intro a b ha hb hlt
    rw [hinv.indexed a (hactive a ha), hinv.indexed b (hactive b hb)]
    exact hlt
  · intro id h
    rw [hslots, if_pos ((hdue id).mpr h)]
  · intro id h
    rw [hslots, if_neg (fun hid => h ((hdue id).mp hid))]
  · rw [activeCount_clearAll, List.length_map]
    omega
  · intro id request hget hdue'
    obtain ⟨hstill, heq⟩ := drPendingMapGet_eq_some.mp hget
    rw [hslots] at hstill heq
    by_cases hid : id ∈ ids
    · rw [if_pos hid] at hstill
      cases hstill
    · rw [if_neg hid] at hstill heq
      exact hid ((hdue id).mpr ⟨request, drPendingMapGet_eq_some.mpr ⟨hstill, heq⟩, hdue'⟩)

/-- The query of the root name, entered at a time. -/
def rootQueryAt (startedMs : UInt64) : PendingQuery := { rootQuery with startedMs }

/-- Four queries are entered at 2, 8, 1 and 5 ms, and the third of them is answered. -/
def staggeredCalls : List PendingCall :=
  [.insert (rootQueryAt 2), .insert (rootQueryAt 8), .insert (rootQueryAt 1),
    .insert (rootQueryAt 5), .remove 3]

theorem slots_staggeredCalls (id : UInt16) : (pendingAfter staggeredCalls).slots id =
    if id = 1 then (rootQueryAt 2).request 1
    else if id = 2 then (rootQueryAt 8).request 2
    else if id = 4 then (rootQueryAt 5).request 4
    else .zero := by
  have hmap : pendingAfter staggeredCalls =
      ((((drPendingMapInit.fill (rootQueryAt 2) 1).fill (rootQueryAt 8) 2).fill
        (rootQueryAt 1) 3).fill (rootQueryAt 5) 4).clear 3 := rfl
  rw [hmap]
  by_cases h3 : id = 3
  · subst h3
    exact slots_clear_self _
  rw [slots_clear_of_ne _ h3]
  by_cases h4 : id = 4
  · subst h4
    exact slots_fill_self _ _
  rw [slots_fill_of_ne _ _ h4, slots_fill_of_ne _ _ h3, if_neg h4]
  by_cases h2 : id = 2
  · subst h2
    exact slots_fill_self _ _
  rw [slots_fill_of_ne _ _ h2, if_neg h2]
  by_cases h1 : id = 1
  · subst h1
    exact slots_fill_self _ _
  rw [slots_fill_of_ne _ _ h1, if_neg h1]
  rfl

theorem get_staggeredCalls {id : UInt16} {request : DrPendingRequest} :
    drPendingMapGet (pendingAfter staggeredCalls) id = some request ↔
      id = 1 ∧ request = (rootQueryAt 2).request 1 ∨ id = 2 ∧ request = (rootQueryAt 8).request 2 ∨
        id = 4 ∧ request = (rootQueryAt 5).request 4 := by
  rw [drPendingMapGet_eq_some, slots_staggeredCalls]
  constructor
  · rintro ⟨hactive, rfl⟩
    split at hactive
    · next h => simp [h]
    split at hactive
    · next h => simp [h]
    split at hactive
    · next h => simp [h]
    · cases hactive
  · rintro (⟨rfl, rfl⟩ | ⟨rfl, rfl⟩ | ⟨rfl, rfl⟩) <;> exact ⟨rfl, rfl⟩

/-- At 10 ms the two that have waited for 5 ms are yielded. The one that has not stays. -/
theorem expiry_loop_exact_staggeredCalls : ∃ last,
    popAll 10 5 (DR_PENDING_SLOT_COUNT + 1) (pendingAfter staggeredCalls) =
      some (last, [(rootQueryAt 2).request 1, (rootQueryAt 5).request 4]) ∧
    last.activeCount = 1 ∧
    drPendingMapGet last 2 = some ((rootQueryAt 8).request 2) := by
  have hnow : ∀ id, ((pendingAfter staggeredCalls).slots id).active = true →
      ((pendingAfter staggeredCalls).slots id).startedMs ≤ 10 := by
    intro id hactive
    rcases get_staggeredCalls.mp (drPendingMapGet_eq_some.mpr ⟨hactive, rfl⟩) with
      ⟨_, heq⟩ | ⟨_, heq⟩ | ⟨_, heq⟩ <;> rw [heq] <;> decide
  obtain ⟨last, yielded, hpopped, _, hyielded, hsorted, _, hkept, hcount, _⟩ :=
    expiry_loop_exact staggeredCalls 10 5 (fun _ => true) hnow
  have hmem (request : DrPendingRequest) : request ∈ yielded ↔
      request ∈ [(rootQueryAt 2).request 1, (rootQueryAt 5).request 4] := by
    rw [hyielded, List.mem_pair]
    constructor
    · rintro ⟨id, hget, hdue⟩
      rcases get_staggeredCalls.mp hget with ⟨_, rfl⟩ | ⟨_, rfl⟩ | ⟨_, rfl⟩
      · exact Or.inl rfl
      · exact absurd hdue (by decide)
      · exact Or.inr rfl
    · rintro (rfl | rfl)
      · exact ⟨1, rfl, by decide⟩
      · exact ⟨4, rfl, by decide⟩
  have hlater : ¬ ∃ request, drPendingMapGet (pendingAfter staggeredCalls) 2 = some request ∧
      Due 10 5 request := by
    rintro ⟨request, hget, hdue⟩
    rcases get_staggeredCalls.mp hget with ⟨hid, _⟩ | ⟨_, rfl⟩ | ⟨hid, _⟩
    · cases hid
    · exact absurd hdue (by decide)
    · cases hid
  have hnodup : yielded.Nodup := by
    refine hsorted.imp (fun hlt heq => ?_)
    rw [heq] at hlt
    exact UInt16.lt_irrefl _ hlt
  have hlist : yielded = [(rootQueryAt 2).request 1, (rootQueryAt 5).request 4] :=
    ((List.perm_ext_iff_of_nodup hnodup (by decide)).mpr hmem).eq_of_pairwise
      (fun _ _ _ _ hlt hgt => absurd hgt (UInt16.lt_asymm hlt)) hsorted (by decide)
  subst hlist
  refine ⟨last, hpopped, Nat.add_right_cancel hcount, ?_⟩
  rw [drPendingMapGet_eq_some, hkept 2 hlater]
  exact ⟨rfl, rfl⟩

end DnsRelay.Relay
