import DnsRelay.Foundation.Occupancy
import DnsRelay.Relay.CacheHistory

/-!
# Every reply belongs to one query

Each slot of the pending map is a cell over time: a query is put in by the event that
forwards it and taken out by the event that relays or times out its answer. A reply
sent while a query is handled belongs to that query; any other reply belongs to the
query that was put into the slot it is taken from. Transaction IDs, questions and
addresses of clients play no part in this, so equal ones cannot mix replies up.
-/
namespace DnsRelay.Relay

open DnsRelay.Foundation
open DnsRelay.Wire
open DnsRelay.Store

/-- The ID of the pending request that a packet answers. -/
def Cause.pendingId : Cause → Option UInt16
  | .relay upstreamId => some upstreamId
  | .timeout upstreamId => some upstreamId
  | _ => none

/-- The sends of an event, with what stands behind each. -/
inductive SendBy (server : DrServer) : Event → Send → Prop where
  | answer {d : Datagram} {nowMs : UInt64} {sent : Bool} {s : Send}
      (hquery : u16At d.packet 2 &&& 0x8000 = 0) (h : DirectAnswer d.packet d.src s) :
      SendBy server (.datagram d nowMs sent) s
  | forward {d : Datagram} {nowMs : UInt64} {sent : Bool} {id : UInt16}
      (h : Forwarded server d nowMs sent id (receive server d nowMs sent)) :
      SendBy server (.datagram d nowMs sent)
        { cause := .forward id, packet := drDnsWriteId d.packet id, dst := server.upstreamAddr, sent }
  | relay {d : Datagram} {nowMs : UInt64} {sent : Bool} {request : DrPendingRequest}
      {responseQuery : DrParsedQuery} (h : Authentic server d request responseQuery) :
      SendBy server (.datagram d nowMs sent)
        { cause := .relay (drDnsReadId d.packet), packet := drDnsWriteId d.packet request.clientId,
          dst := request.clientAddr, sent }
  | timeout {nowMs : UInt64} {sents : Nat → Bool} {id : UInt16} {ok : Bool} {s : Send}
      (hover : (server.pendingMap.slots id).overdue nowMs server.upstreamTimeoutMs = true)
      (h : s ∈ respondWithError (server.pendingMap.slots id).queryPacket DR_DNS_RCODE_SERVFAIL
        (.timeout (server.pendingMap.slots id).upstreamId) (server.pendingMap.slots id).clientAddr ok) :
      SendBy server (.tick nowMs sents) s

theorem mem_timeoutSends {slots : UInt16 → DrPendingRequest} {sent : Nat → Bool} {s : Send}
    {ids : List UInt16} : ∀ expiredCount, s ∈ timeoutSends slots sent expiredCount ids →
      ∃ id ∈ ids, ∃ ok, s ∈ respondWithError (slots id).queryPacket DR_DNS_RCODE_SERVFAIL
        (.timeout (slots id).upstreamId) (slots id).clientAddr ok := by
  induction ids with
  | nil => exact fun _ h => by cases h
  | cons id ids ih =>
    intro expiredCount h
    rw [timeoutSends, List.mem_append] at h
    rcases h with h | h
    · exact ⟨id, List.mem_cons_self, _, h⟩
    · obtain ⟨k, hk, hs⟩ := ih _ h
      exact ⟨k, List.mem_cons_of_mem _ hk, hs⟩

theorem sendBy_of_mem {server : DrServer} {e : Event} {s : Send}
    (hcached : CachedResponses server.cache) (hs : s ∈ (step server e).2) : SendBy server e s := by
  cases e with
  | tick nowMs sents =>
    obtain ⟨ids, _, hmem, _, _, hsends⟩ := expireAll_spec server nowMs sents
    rw [step, hsends] at hs
    obtain ⟨id, hid, ok, hs⟩ := mem_timeoutSends 0 hs
    exact .timeout ((hmem id).mp hid) hs
  | datagram d nowMs sent =>
    rw [step] at hs
    rcases receive_cases server d nowMs sent with
      ⟨request, responseQuery, hauthentic⟩ | ⟨id, hforwarded⟩ | hsettled
    · rw [receive_of_authentic hauthentic, List.mem_singleton] at hs
      rw [hs]
      exact .relay hauthentic
    · rw [hforwarded.sends, List.mem_singleton] at hs
      rw [hs]
      exact .forward hforwarded
    · obtain ⟨_, hquery, hanswer⟩ := hsettled.sends s hs
      exact .answer hquery (hanswer hcached)

/-- A datagram makes the relay send at most one packet. -/
theorem receive_sends (server : DrServer) (d : Datagram) (nowMs : UInt64) (sent : Bool) :
    ∀ s ∈ (receive server d nowMs sent).2, (receive server d nowMs sent).2 = [s] := by
  intro s hs
  rcases receive_cases server d nowMs sent with
    ⟨request, responseQuery, hauthentic⟩ | ⟨id, hforwarded⟩ | hsettled
  · rw [receive_of_authentic hauthentic, List.mem_singleton] at hs
    rw [receive_of_authentic hauthentic, hs]
  · rw [hforwarded.sends, List.mem_singleton] at hs
    rw [hforwarded.sends, hs]
  · exact (hsettled.sends s hs).1

/-- The answers of a tick go out under different IDs. -/
theorem timeoutSends_causes {slots : UInt16 → DrPendingRequest} {sent : Nat → Bool}
    {ids : List UInt16} (hnodup : ids.Nodup) (hindexed : ∀ id ∈ ids, (slots id).upstreamId = id) :
    ∀ expiredCount, ((timeoutSends slots sent expiredCount ids).map Send.cause).Nodup := by
  induction ids with
  | nil => exact fun _ => List.nodup_nil
  | cons id ids ih =>
    intro expiredCount
    obtain ⟨hnot, hrest⟩ := List.nodup_cons.mp hnodup
    have htail := ih hrest (fun k hk => hindexed k (List.mem_cons_of_mem _ hk)) (expiredCount + 1)
    have hid := hindexed id List.mem_cons_self
    rw [timeoutSends]
    cases hfirst : respondWithError (slots id).queryPacket DR_DNS_RCODE_SERVFAIL
        (.timeout (slots id).upstreamId) (slots id).clientAddr (sent expiredCount) with
    | nil => exact htail
    | cons s rest =>
      have hs : s ∈ respondWithError (slots id).queryPacket DR_DNS_RCODE_SERVFAIL
          (.timeout (slots id).upstreamId) (slots id).clientAddr (sent expiredCount) := by
        rw [hfirst]
        exact List.mem_cons_self
      have hone : s :: rest = [s] := hfirst.symm.trans (sendBuilt_eq hs)
      rw [hone, List.singleton_append, List.map_cons, List.nodup_cons]
      refine ⟨fun hmem => ?_, htail⟩
      obtain ⟨s', hs', hcause⟩ := List.mem_map.mp hmem
      obtain ⟨k, hk, ok, hs'⟩ := mem_timeoutSends _ hs'
      rw [(mem_respondWithError hs').1, (mem_respondWithError hs).1, hid,
        hindexed k (List.mem_cons_of_mem _ hk), Cause.timeout.injEq] at hcause
      rw [hcause] at hk
      exact hnot hk

theorem responseTo_writeId {packet : Bytes} (hheader : DR_DNS_HEADER_SIZE ≤ packet.length)
    (hresponse : u16At packet 2 &&& 0x8000 ≠ 0) (clientId : UInt16) :
    ResponseTo clientId (drDnsWriteId packet clientId) := by
  have hlen : DR_DNS_HEADER_SIZE ≤ (drDnsWriteId packet clientId).length := by
    rwa [length_drDnsWriteId]
  simp only [DR_DNS_HEADER_SIZE] at hheader
  refine ⟨hlen, drDnsReadId_writeId clientId (by omega), ?_⟩
  rw [u16At_congr (octet_drDnsWriteId (le_refl 2)) (octet_drDnsWriteId (by omega))]
  exact hresponse

/-- Nothing is pending and nothing is cached. -/
structure Fresh (server : DrServer) : Prop where
  pending : ∀ id, drPendingMapGet server.pendingMap id = none
  cached : occupied server.cache.entries = []

theorem fresh_start (timeoutMs : UInt32) (upstream : Sockaddr) (table : DrLocalTable)
    (capacity : Nat) : Fresh (drServerStart timeoutMs upstream table capacity) :=
  ⟨fun _ => rfl, occupied_init capacity⟩

section Run

variable (start : DrServer) (run : Nat → Event)

/-- The request pending under an ID in front of event `n`. -/
def pendingAt (id : UInt16) (n : Nat) : Option DrPendingRequest :=
  drPendingMapGet (stateAt step start run n).pendingMap id

/-- The packet `k` of event `n` replies to the query of event `m`: it was sent while the query was
handled, or it answers the request that event `m` put into a slot. -/
def Answers (m n k : Nat) : Prop :=
  ∃ s, (outputAt step start run n)[k]? = some s ∧ ((s.cause = .answer ∧ m = n) ∨
    ∃ id request, s.cause.pendingId = some id ∧ HeldSince (pendingAt start run id) m n request)

variable {start run}

/-- The request a query becomes. -/
structure EnteredBy (d : Datagram) (id : UInt16) (request : DrPendingRequest) : Prop where
  query : u16At d.packet 2 &&& 0x8000 = 0
  clientId : request.clientId = drDnsReadId d.packet
  clientAddr : request.clientAddr = d.src
  queryPacket : request.queryPacket = d.packet
  upstreamId : request.upstreamId = id

theorem step_slot {id : UInt16} {n : Nat} {request : DrPendingRequest}
    (h : pendingAt start run id (n + 1) = some request) :
    pendingAt start run id n = some request ∨ pendingAt start run id n = none ∧
      ∃ d nowMs, run n = .datagram d nowMs true ∧ EnteredBy d id request ∧
        Forwarded (stateAt step start run n) d nowMs true id
          (step (stateAt step start run n) (run n)) := by
  obtain ⟨hactive, hslot⟩ := drPendingMapGet_eq_some.mp h
  rw [stateAt] at hactive hslot
  rcases step_active hactive with ⟨hbefore, hsame⟩ | ⟨d, nowMs, hevent, hforwarded⟩
  · exact Or.inl (drPendingMapGet_eq_some.mpr ⟨hbefore, hsame.symm.trans hslot⟩)
  · obtain ⟨parsed, hentered, hrequest⟩ := hforwarded.entered
    refine Or.inr ⟨drPendingMapGet_eq_none.mpr hentered.free, d, nowMs, hevent, ?_, hforwarded⟩
    rw [← hslot, hrequest rfl]
    exact ⟨hentered.accepted.query, hentered.accepted.id, rfl, rfl, rfl⟩

theorem slot_occupancy (hfresh : Fresh start) (id : UInt16) : Occupancy (pendingAt start run id) where
  empty := hfresh.pending id
  kept n a b ha hb := by
    rcases step_slot hb with hsame | ⟨hfree, _⟩
    · exact Option.some.inj (hsame.symm.trans ha)
    · rw [hfree] at ha
      cases ha

/-- What put a request into its slot. -/
theorem entered_of_held {id : UInt16} {m n : Nat} {request : DrPendingRequest}
    (h : HeldSince (pendingAt start run id) m n request) :
    ∃ d nowMs, run m = .datagram d nowMs true ∧ EnteredBy d id request ∧
      Forwarded (stateAt step start run m) d nowMs true id
        (step (stateAt step start run m) (run m)) := by
  rcases step_slot h.first with hsame | ⟨_, hentered⟩
  · rw [h.put] at hsame
    cases hsame
  · exact hentered

theorem cachedResponses_stateAt (hfresh : Fresh start) (n : Nat) :
    CachedResponses (stateAt step start run n).cache := by
  intro e he
  obtain ⟨m, _, d, sent, request, responseQuery, minTtl, _, hauthentic, hpacket, _, _, hcollect, _⟩ :=
    storedBy_of_occupied hfresh.cached n e he
  rw [hpacket]
  exact ⟨hauthentic.response, minTtl, hcollect⟩

/-- A reply that is not sent at once goes to the client of the request pending under the ID it is
sent for, and that request is pending no longer. -/
theorem reply_of_pending (hfresh : Fresh start) {n : Nat} {s : Send} {id : UInt16}
    (hs : s ∈ outputAt step start run n) (hcause : s.cause.pendingId = some id) :
    ∃ request, pendingAt start run id n = some request ∧ pendingAt start run id (n + 1) = none ∧
      s.dst = request.clientAddr ∧ ResponseTo request.clientId s.packet := by
  have hby := sendBy_of_mem (cachedResponses_stateAt hfresh n) hs
  generalize hevent : run n = e at hby
  cases hby with
  | answer hquery h =>
    rw [h.cause] at hcause
    cases hcause
  | forward h => cases hcause
  | @relay d nowMs sent request responseQuery h =>
    cases hcause
    refine ⟨request, h.answers.pending, ?_, rfl, responseTo_writeId h.answers.header h.response _⟩
    rw [pendingAt, stateAt, hevent, step, receive_of_authentic h, maybeCacheResponse_pendingMap,
      drPendingMapGet_eq_none]
    exact congrArg DrPendingRequest.active (slots_clear_self _)
  | @timeout nowMs sents timedOut ok _ hover h =>
    have hactive := active_of_overdue hover
    have hpending : pendingAt start run timedOut n =
        some ((stateAt step start run n).pendingMap.slots timedOut) :=
      drPendingMapGet_eq_some.mpr ⟨hactive, rfl⟩
    obtain ⟨m, hheld⟩ := (slot_occupancy hfresh timedOut).heldSince hpending
    obtain ⟨d, _, _, hentered, _⟩ := entered_of_held hheld
    obtain ⟨hc, hdst, _, herror⟩ := mem_respondWithError h
    rw [hc, hentered.upstreamId] at hcause
    cases hcause
    have hreply := herror.reply
    rw [hentered.queryPacket, ← hentered.clientId] at hreply
    refine ⟨_, hpending, ?_, hdst, hreply⟩
    obtain ⟨ids, _, hmem, hslots, _⟩ := expireAll_spec (stateAt step start run n) nowMs sents
    rw [pendingAt, stateAt, hevent, step, drPendingMapGet_eq_none, hslots, if_pos ((hmem _).mpr hover)]
    rfl

theorem indexed_of_active (hfresh : Fresh start) {n : Nat} {id : UInt16}
    (hactive : ((stateAt step start run n).pendingMap.slots id).active = true) :
    ((stateAt step start run n).pendingMap.slots id).upstreamId = id := by
  obtain ⟨m, hheld⟩ := (slot_occupancy hfresh id).heldSince
    (drPendingMapGet_eq_some.mpr ⟨hactive, rfl⟩)
  obtain ⟨_, _, _, hentered, _⟩ := entered_of_held hheld
  exact hentered.upstreamId

/-- Every reply belongs to an earlier query, or to the one at hand. -/
theorem reply_answers (hfresh : Fresh start) {n k : Nat} {s : Send}
    (hs : (outputAt step start run n)[k]? = some s) (hreply : ∀ id, s.cause ≠ .forward id) :
    ∃ m d nowMs sent, m ≤ n ∧ run m = .datagram d nowMs sent ∧ u16At d.packet 2 &&& 0x8000 = 0 ∧
      s.dst = d.src ∧ ResponseTo (drDnsReadId d.packet) s.packet ∧ Answers start run m n k := by
  have hmem := List.mem_of_getElem? hs
  have hpending {id : UInt16} (hcause : s.cause.pendingId = some id) :
      ∃ m d nowMs sent, m ≤ n ∧ run m = .datagram d nowMs sent ∧ u16At d.packet 2 &&& 0x8000 = 0 ∧
        s.dst = d.src ∧ ResponseTo (drDnsReadId d.packet) s.packet ∧ Answers start run m n k := by
    obtain ⟨request, hslot, _, hdst, hresponse⟩ := reply_of_pending hfresh hmem hcause
    obtain ⟨m, hheld⟩ := (slot_occupancy hfresh id).heldSince hslot
    obtain ⟨d, nowMs, hevent, hentered, _⟩ := entered_of_held hheld
    rw [hentered.clientAddr] at hdst
    rw [hentered.clientId] at hresponse
    exact ⟨m, d, nowMs, true, hheld.before.le, hevent, hentered.query, hdst, hresponse, s, hs,
      Or.inr ⟨id, request, hcause, hheld⟩⟩
  cases hcause : s.cause with
  | forward id => exact absurd hcause (hreply id)
  | relay id => exact hpending (congrArg Cause.pendingId hcause)
  | timeout id => exact hpending (congrArg Cause.pendingId hcause)
  | answer =>
    have hby := sendBy_of_mem (cachedResponses_stateAt hfresh n) hmem
    generalize hevent : run n = e at hby
    cases hby with
    | @answer d nowMs sent _ hquery h =>
      exact ⟨n, d, nowMs, sent, le_refl n, hevent, hquery, h.dst, h.reply, s, hs,
        Or.inl ⟨hcause, rfl⟩⟩
    | forward h => cases hcause
    | relay h => cases hcause
    | timeout hover h =>
      rw [(mem_respondWithError h).1] at hcause
      cases hcause

/-- A reply belongs to one query only. -/
theorem Answers.unique_query {m m' n k : Nat} (h : Answers start run m n k)
    (h' : Answers start run m' n k) : m = m' := by
  obtain ⟨s, hs, hcase⟩ := h
  obtain ⟨s', hs', hcase'⟩ := h'
  cases hs.symm.trans hs'
  rcases hcase with ⟨hcause, rfl⟩ | ⟨id, request, hcause, hheld⟩ <;>
    rcases hcase' with ⟨hcause', rfl⟩ | ⟨id', request', hcause', hheld'⟩
  · rfl
  · rw [hcause] at hcause'
    cases hcause'
  · rw [hcause'] at hcause
    cases hcause
  · cases hcause.symm.trans hcause'
    exact hheld.unique hheld'

/-- No event sends two packets for the same cause. -/
theorem causes_nodup (hfresh : Fresh start) (n : Nat) :
    ((outputAt step start run n).map Send.cause).Nodup := by
  rw [outputAt]
  cases hevent : run n with
  | tick nowMs sents =>
    obtain ⟨ids, hnodup, hmem, _, _, hsends⟩ :=
      expireAll_spec (stateAt step start run n) nowMs sents
    rw [step, hsends]
    exact timeoutSends_causes hnodup
      (fun id hid => indexed_of_active hfresh (active_of_overdue ((hmem id).mp hid))) 0
  | datagram d nowMs sent =>
    rw [step]
    cases hsends : (receive (stateAt step start run n) d nowMs sent).2 with
    | nil => exact List.nodup_nil
    | cons s rest =>
      have hone := receive_sends _ d nowMs sent s (by rw [hsends]; exact List.mem_cons_self)
      rw [← hsends, hone]
      exact List.nodup_singleton _

/-- What an event sends for a pending request is of one kind. -/
theorem cause_eq (hfresh : Fresh start) {n : Nat} {s s' : Send} {id : UInt16}
    (hs : s ∈ outputAt step start run n) (hs' : s' ∈ outputAt step start run n)
    (hcause : s.cause.pendingId = some id) (hcause' : s'.cause.pendingId = some id) :
    s.cause = s'.cause := by
  have hby := sendBy_of_mem (cachedResponses_stateAt hfresh n) hs
  have hby' := sendBy_of_mem (cachedResponses_stateAt hfresh n) hs'
  cases hevent : run n with
  | tick nowMs sents =>
    have hkind {s : Send} (hby : SendBy (stateAt step start run n) (.tick nowMs sents) s)
        (hcause : s.cause.pendingId = some id) : s.cause = .timeout id := by
      cases hby with
      | timeout hover h =>
        rw [(mem_respondWithError h).1] at hcause ⊢
        exact congrArg Cause.timeout (Option.some.inj hcause)
    rw [hevent] at hby hby'
    rw [hkind hby hcause, hkind hby' hcause']
  | datagram d nowMs sent =>
    rw [outputAt, hevent, step] at hs hs'
    rw [receive_sends _ d nowMs sent s hs, List.mem_singleton] at hs'
    rw [hs']

theorem position_unique (hfresh : Fresh start) {n k k' : Nat} {s s' : Send}
    (hs : (outputAt step start run n)[k]? = some s) (hs' : (outputAt step start run n)[k']? = some s')
    (hcause : s.cause = s'.cause) : k = k' := by
  have hlt := (List.getElem?_eq_some_iff.mp hs).1
  refine (List.getElem?_inj (by rw [List.length_map]; exact hlt) (causes_nodup hfresh n)).mp ?_
  rw [List.getElem?_map, List.getElem?_map, hs, hs']
  exact congrArg some hcause

/-- A query gets at most one reply. -/
theorem Answers.unique_reply (hfresh : Fresh start) {m n k n' k' : Nat}
    (h : Answers start run m n k) (h' : Answers start run m n' k') : n = n' ∧ k = k' := by
  obtain ⟨s, hs, hcase⟩ := h
  obtain ⟨s', hs', hcase'⟩ := h'
  have hmem := List.mem_of_getElem? hs
  have hmem' := List.mem_of_getElem? hs'
  -- an event that puts a request into a slot sends nothing but the forward
  have hforward {id : UInt16} {n : Nat} {request : DrPendingRequest}
      (hheld : HeldSince (pendingAt start run id) m n request) :
      ∀ s ∈ outputAt step start run m, s.cause = .forward id := by
    obtain ⟨d, nowMs, _, _, hforwarded⟩ := entered_of_held hheld
    intro s hs
    rw [outputAt, hforwarded.sends, List.mem_singleton] at hs
    rw [hs]
  rcases hcase with ⟨hcause, rfl⟩ | ⟨id, request, hcause, hheld⟩ <;>
    rcases hcase' with ⟨hcause', rfl⟩ | ⟨id', request', hcause', hheld'⟩
  · exact ⟨rfl, position_unique hfresh hs hs' (hcause.trans hcause'.symm)⟩
  · rw [hforward hheld' s hmem] at hcause
    cases hcause
  · rw [hforward hheld s' hmem'] at hcause'
    cases hcause'
  · have hid : id = id' := by
      obtain ⟨d, nowMs, _, _, hforwarded⟩ := entered_of_held hheld
      have hfirst := hforward hheld' _ (by
        rw [outputAt, hforwarded.sends]
        exact List.mem_cons_self)
      exact Cause.forward.inj hfirst
    subst hid
    obtain ⟨_, _, htaken, _⟩ := reply_of_pending hfresh hmem hcause
    obtain ⟨_, _, htaken', _⟩ := reply_of_pending hfresh hmem' hcause'
    have hn : n = n' := TakenOut.unique ⟨hheld, htaken⟩ ⟨hheld', htaken'⟩
    subst hn
    exact ⟨rfl, position_unique hfresh hs hs' (cause_eq hfresh hmem hmem' hcause hcause')⟩

end Run

end DnsRelay.Relay
