import DnsRelay.Foundation.Cyclic
import DnsRelay.Wire.Header

/-!
# Pending requests

`pending_map.c`: the 65536 slots that hold the queries forwarded to the upstream
server, indexed by the transaction ID the relay chose. The slot array is a function
of the ID. A socket address is the list of its first `client_addr_len` octets, and a
stored datagram the list of its `query_len` octets.
-/
namespace DnsRelay.Store

open DnsRelay.Foundation
open DnsRelay.Wire

def DR_PENDING_SLOT_COUNT : Nat := 65536

/-- `sizeof(struct sockaddr_storage)`. -/
def sizeofSockaddrStorage : Nat := 128

abbrev Sockaddr := Bytes

structure DrPendingRequest where
  active : Bool
  upstreamId : UInt16
  clientId : UInt16
  clientAddr : Sockaddr
  queryPacket : Bytes
  startedMs : UInt64
  qname : CString
  qtype : UInt16
  qclass : UInt16
  deriving DecidableEq

/-- `memset(request, 0, sizeof(*request))`. -/
def DrPendingRequest.zero : DrPendingRequest where
  active := false
  upstreamId := 0
  clientId := 0
  clientAddr := []
  queryPacket := []
  startedMs := 0
  qname := cstr []
  qtype := 0
  qclass := 0

structure DrPendingMap where
  slots : UInt16 → DrPendingRequest
  nextId : UInt16
  activeCount : Nat

def drPendingMapInit : DrPendingMap where
  slots := fun _ => .zero
  nextId := 1
  activeCount := 0

def drPendingMapGet (map : DrPendingMap) (upstreamId : UInt16) : Option DrPendingRequest :=
  if (map.slots upstreamId).active then some (map.slots upstreamId) else none

/-- `candidate + 1` in sixteen bits, with 0 replaced by 1. -/
def nextCandidate (candidate : UInt16) : UInt16 :=
  if candidate + 1 = 0 then 1 else candidate + 1

/-- What a caller of `dr_pending_map_insert` passes in. -/
structure PendingQuery where
  clientId : UInt16
  clientAddr : Sockaddr
  queryPacket : Bytes
  qname : CString
  qtype : UInt16
  qclass : UInt16
  startedMs : UInt64
  deriving DecidableEq

/-- The request stored for a query under a free ID. -/
def PendingQuery.request (query : PendingQuery) (candidate : UInt16) : DrPendingRequest where
  active := true
  upstreamId := candidate
  clientId := query.clientId
  clientAddr := query.clientAddr
  queryPacket := query.queryPacket
  startedMs := query.startedMs
  qname := query.qname.truncate DR_DNS_MAX_DOMAIN_LEN
  qtype := query.qtype
  qclass := query.qclass

/-- Store a query in a slot, count it and move the cursor on. -/
def DrPendingMap.fill (map : DrPendingMap) (query : PendingQuery) (candidate : UInt16) :
    DrPendingMap where
  slots := Function.update map.slots candidate (query.request candidate)
  nextId := nextCandidate candidate
  activeCount := map.activeCount + 1

/-- The attempts loop; the result is the map and `*upstream_id` on success. -/
def insertLoop (map : DrPendingMap) (query : PendingQuery) :
    Nat → UInt16 → DrPendingMap × Option UInt16
  | 0, _ => (map, none)
  | attempts + 1, candidate =>
    if (map.slots candidate).active then insertLoop map query attempts (nextCandidate candidate)
    else (map.fill query candidate, some candidate)

/-- The ID the search starts from. -/
def DrPendingMap.firstCandidate (map : DrPendingMap) : UInt16 :=
  if map.nextId = 0 then 1 else map.nextId

def drPendingMapInsert (map : DrPendingMap) (query : PendingQuery) : DrPendingMap × Option UInt16 :=
  if query.queryPacket.length = 0 ∨ query.queryPacket.length > DR_DNS_MAX_PACKET_SIZE ∨
      query.clientAddr.length = 0 ∨ query.clientAddr.length > sizeofSockaddrStorage then (map, none)
  else insertLoop map query (DR_PENDING_SLOT_COUNT - 1) map.firstCandidate

/-- Zero a slot and count it out. -/
def DrPendingMap.clear (map : DrPendingMap) (id : UInt16) : DrPendingMap :=
  { map with
    slots := Function.update map.slots id .zero
    activeCount := map.activeCount - 1 }

def drPendingMapRemove (map : DrPendingMap) (upstreamId : UInt16) :
    DrPendingMap × Option DrPendingRequest :=
  match drPendingMapGet map upstreamId with
  | none => (map, none)
  | some request => (map.clear upstreamId, some request)

/-- The unsigned age test of the timeout scan. -/
def DrPendingRequest.overdue (request : DrPendingRequest) (nowMs : UInt64) (timeoutMs : UInt32) :
    Bool :=
  request.active && nowMs - request.startedMs ≥ timeoutMs.toUInt64

/-- The scan from slot `index` on, with `n` slots left. -/
def popExpiredLoop (map : DrPendingMap) (nowMs : UInt64) (timeoutMs : UInt32) :
    Nat → Nat → DrPendingMap × Option DrPendingRequest
  | 0, _ => (map, none)
  | n + 1, index =>
    let request := map.slots (UInt16.ofNat index)
    if request.overdue nowMs timeoutMs then (map.clear (UInt16.ofNat index), some request)
    else popExpiredLoop map nowMs timeoutMs n (index + 1)

def drPendingMapPopExpired (map : DrPendingMap) (nowMs : UInt64) (timeoutMs : UInt32) :
    DrPendingMap × Option DrPendingRequest :=
  popExpiredLoop map nowMs timeoutMs DR_PENDING_SLOT_COUNT 0

theorem insertLoop_eq (map : DrPendingMap) (query : PendingQuery) (attempts : Nat)
    (candidate : UInt16) : insertLoop map query attempts candidate =
      match scanFrom nextCandidate (fun id => !(map.slots id).active) attempts candidate with
      | none => (map, none)
      | some id => (map.fill query id, some id) := by
  induction attempts generalizing candidate with
  | zero => rfl
  | succ attempts ih =>
    rw [insertLoop, scanFrom]
    by_cases h : (map.slots candidate).active
    · rw [if_pos h, if_neg (by simp [h]), ih]
    · rw [if_neg h, if_pos (by simp [h])]

/-- The arguments `dr_pending_map_insert` does not reject. -/
structure PendingQuery.Valid (query : PendingQuery) : Prop where
  packet_pos : 1 ≤ query.queryPacket.length
  packet_le : query.queryPacket.length ≤ DR_DNS_MAX_PACKET_SIZE
  addr_pos : 1 ≤ query.clientAddr.length
  addr_le : query.clientAddr.length ≤ sizeofSockaddrStorage

/-- Position of an ID on the ring 1, 2, …, 65535. -/
def ringPosition (id : UInt16) : Nat := id.toNat - 1

theorem toNat_ne_zero {id : UInt16} (h : id ≠ 0) : id.toNat ≠ 0 :=
  fun h0 => h (UInt16.toNat_inj.mp h0)

theorem nextCandidate_ne_zero (candidate : UInt16) : nextCandidate candidate ≠ 0 := by
  unfold nextCandidate
  split
  · decide
  · assumption

theorem firstCandidate_ne_zero (map : DrPendingMap) : map.firstCandidate ≠ 0 := by
  unfold DrPendingMap.firstCandidate
  split
  · decide
  · assumption

/-- The candidates go round the 65535 IDs other than 0. -/
theorem candidate_cycle :
    Cycle nextCandidate (DR_PENDING_SLOT_COUNT - 1) (fun id => id ≠ 0) ringPosition where
  step candidate h := by
    refine ⟨nextCandidate_ne_zero candidate, ?_⟩
    have hlt : candidate.toNat < 65536 := candidate.toNat_lt
    have hpos := toNat_ne_zero h
    have hadd : (candidate + 1).toNat = (candidate.toNat + 1) % 65536 := UInt16.toNat_add _ _
    simp only [nextCandidate, ringPosition, DR_PENDING_SLOT_COUNT]
    split
    · next hz =>
      have h0 : (candidate + 1).toNat = 0 := congrArg UInt16.toNat hz
      change 1 - 1 = _
      omega
    · next hz =>
      have h0 := toNat_ne_zero hz
      omega
  lt id h := by
    have hlt : id.toNat < 65536 := id.toNat_lt
    have hpos := toNat_ne_zero h
    simp only [ringPosition, DR_PENDING_SLOT_COUNT]
    omega
  inj a b ha hb h := by
    have hpos := toNat_ne_zero ha
    have hpos' := toNat_ne_zero hb
    simp only [ringPosition] at h
    exact UInt16.toNat_inj.mp (by omega)

/-- An insert stores the query under a free ID other than 0, or leaves the map as it was. -/
theorem drPendingMapInsert_cases (map : DrPendingMap) (query : PendingQuery) :
    drPendingMapInsert map query = (map, none) ∨
      ∃ id, id ≠ 0 ∧ (map.slots id).active = false ∧
        drPendingMapInsert map query = (map.fill query id, some id) := by
  unfold drPendingMapInsert
  split
  · exact Or.inl rfl
  · rw [insertLoop_eq]
    cases hscan : scanFrom nextCandidate (fun id => !(map.slots id).active)
        (DR_PENDING_SLOT_COUNT - 1) map.firstCandidate with
    | none => exact Or.inl rfl
    | some id =>
      obtain ⟨k, _, rfl, hfree, _⟩ := scanFrom_eq_some hscan
      exact Or.inr ⟨_, (candidate_cycle.iterate (firstCandidate_ne_zero map) k).1,
        by simpa using hfree, rfl⟩

theorem drPendingMapInsert_of_invalid (map : DrPendingMap) {query : PendingQuery}
    (h : ¬ query.Valid) : drPendingMapInsert map query = (map, none) := by
  rw [drPendingMapInsert, if_pos]
  by_contra hnot
  exact h ⟨by omega, by omega, by omega, by omega⟩

/-- A valid insert is refused only when every ID but 0 is taken. -/
theorem drPendingMapInsert_eq_none_iff {map : DrPendingMap} {query : PendingQuery}
    (hvalid : query.Valid) :
    (drPendingMapInsert map query).2 = none ↔ ∀ id, id ≠ 0 → (map.slots id).active = true := by
  obtain ⟨h1, h2, h3, h4⟩ := hvalid
  have hround := candidate_cycle.scan_eq_none (p := fun id => !(map.slots id).active)
    (firstCandidate_ne_zero map)
  simp only [Bool.not_eq_false'] at hround
  rw [← hround, drPendingMapInsert, if_neg (by omega), insertLoop_eq]
  cases scanFrom nextCandidate (fun id => !(map.slots id).active) (DR_PENDING_SLOT_COUNT - 1)
    map.firstCandidate <;> simp

/-- A free cursor is the ID returned. -/
theorem insert_at_cursor {map : DrPendingMap} {query : PendingQuery} (hvalid : query.Valid)
    (hcursor : map.nextId ≠ 0) (hfree : (map.slots map.nextId).active = false) :
    drPendingMapInsert map query = (map.fill query map.nextId, some map.nextId) := by
  obtain ⟨h1, h2, h3, h4⟩ := hvalid
  have hfirst : map.firstCandidate = map.nextId := if_neg hcursor
  rw [drPendingMapInsert, if_neg (by omega), hfirst]
  exact if_neg (by simp [hfree])

theorem popExpiredLoop_cases (map : DrPendingMap) (nowMs : UInt64) (timeoutMs : UInt32) :
    ∀ n index : Nat, index + n = DR_PENDING_SLOT_COUNT →
      (popExpiredLoop map nowMs timeoutMs n index = (map, none) ∧
        ∀ id : UInt16, index ≤ id.toNat → (map.slots id).overdue nowMs timeoutMs = false) ∨
      ∃ id : UInt16, index ≤ id.toNat ∧ (map.slots id).overdue nowMs timeoutMs = true ∧
        (∀ j : UInt16, index ≤ j.toNat → j.toNat < id.toNat →
          (map.slots j).overdue nowMs timeoutMs = false) ∧
        popExpiredLoop map nowMs timeoutMs n index = (map.clear id, some (map.slots id)) := by
  intro n
  induction n with
  | zero =>
    intro index hindex
    refine Or.inl ⟨rfl, fun id hid => ?_⟩
    have hlt : id.toNat < 65536 := id.toNat_lt
    simp only [DR_PENDING_SLOT_COUNT] at hindex
    omega
  | succ n ih =>
    intro index hindex
    have hnat : (UInt16.ofNat index).toNat = index := by
      simp only [DR_PENDING_SLOT_COUNT] at hindex
      rw [UInt16.toNat_ofNat']
      omega
    rw [popExpiredLoop]
    by_cases h : (map.slots (UInt16.ofNat index)).overdue nowMs timeoutMs
    · rw [if_pos h]
      exact Or.inr ⟨_, by omega, h, fun j hlo hhi => by omega, rfl⟩
    · rw [if_neg h]
      -- a slot at `index` is this one, every other is covered by the rest of the scan
      have hhere : ∀ j : UInt16, ¬ index + 1 ≤ j.toNat → index ≤ j.toNat →
          (map.slots j).overdue nowMs timeoutMs = false := by
        intro j hnot hlo
        rw [← UInt16.toNat_inj.mp (show (UInt16.ofNat index).toNat = j.toNat by omega)]
        simpa using h
      rcases ih (index + 1) (by omega) with ⟨heq, hnone⟩ | ⟨id, hlo, hover, hbefore, heq⟩
      · refine Or.inl ⟨heq, fun j hj => ?_⟩
        by_cases hnext : index + 1 ≤ j.toNat
        · exact hnone j hnext
        · exact hhere j hnext hj
      · refine Or.inr ⟨id, by omega, hover, fun j hj hlt => ?_, heq⟩
        by_cases hnext : index + 1 ≤ j.toNat
        · exact hbefore j hnext hlt
        · exact hhere j hnext hj

/-- The timeout scan takes out the overdue request with the smallest ID, if there is one. -/
theorem drPendingMapPopExpired_cases (map : DrPendingMap) (nowMs : UInt64) (timeoutMs : UInt32) :
    (drPendingMapPopExpired map nowMs timeoutMs = (map, none) ∧
      ∀ id, (map.slots id).overdue nowMs timeoutMs = false) ∨
    ∃ id, (map.slots id).overdue nowMs timeoutMs = true ∧
      (∀ j : UInt16, j < id → (map.slots j).overdue nowMs timeoutMs = false) ∧
      drPendingMapPopExpired map nowMs timeoutMs = (map.clear id, some (map.slots id)) := by
  rcases popExpiredLoop_cases map nowMs timeoutMs DR_PENDING_SLOT_COUNT 0 (Nat.zero_add _) with
    ⟨heq, hnone⟩ | ⟨id, _, hover, hbefore, heq⟩
  · exact Or.inl ⟨heq, fun id => hnone id (Nat.zero_le _)⟩
  · exact Or.inr ⟨id, hover, fun j hj => hbefore j (Nat.zero_le _) hj, heq⟩

end DnsRelay.Store
