import DnsRelay.Relay.Attribution
import DnsRelay.Wire.LocalAnswer

/-!
# The RD bit of the replies

The relay copies RD from the query into every packet it builds itself. A response from
the cache is sent with the flags it was stored with, and these copy RD from the query
that was forwarded for it.
-/
namespace DnsRelay.Relay

open DnsRelay.Foundation
open DnsRelay.Wire
open DnsRelay.Store

/-- The RD bit in its place among the flags. -/
def rd (packet : Bytes) : UInt16 := u16At packet 2 &&& 0x0100

/-- Every packet sent in answer to a query has its RD bit. -/
def CopiesRd (query : Bytes) (sends : List Send) : Prop :=
  ∀ s ∈ sends, s.cause = .answer → rd s.packet = rd query

theorem rd_of_error {query : Bytes} {rcode : UInt8} {cause : Cause} {dst : Sockaddr} {sent : Bool}
    {s : Send} (h : s ∈ respondWithError query rcode cause dst sent) : rd s.packet = rd query := by
  obtain ⟨out, responseLen, hbuilt, rfl⟩ := mem_sendBuilt h
  exact (errorAnswer_of_built (List.length_replicate ..) hbuilt).rd

theorem rd_of_table {server : DrServer} {packet : Bytes} {parsed : DrParsedQuery}
    {clientAddr : Sockaddr} {sent : Bool} {sends : List Send} {s : Send} (h : Accepted packet parsed)
    (htable : answerFromTable server packet parsed clientAddr sent = some sends) (hs : s ∈ sends) :
    rd s.packet = rd packet := by
  rcases answerFromTable_cases htable with ⟨_, rfl⟩ | ⟨_, rfl⟩
  · exact rd_of_error hs
  · obtain ⟨_, _, labels, hpacket⟩ := mem_sendLocal hs
    obtain ⟨_, _, _, hparsed⟩ := parsedAs_of_ok h.parses
    rw [rd, hpacket, (u16At_headerBytes _ _).2.1, answerHeader_rd, hparsed.flags, rd]

/-- The hit that answers a query without the upstream server. -/
structure AnsweredBy (server : DrServer) (d : Datagram) (nowMs : UInt64) (e : DrCacheEntry) : Prop where
  query : ∃ parsed, Accepted d.packet parsed ∧
    ¬ Reserved server.localTable (cstr parsed.qname, parsed.qtype, parsed.qclass) ∧
    e.hits (cstr parsed.qname) parsed.qtype parsed.qclass nowMs = true
  entry : e ∈ server.cache.entries

theorem AnsweredBy.occupied {server : DrServer} {d : Datagram} {nowMs : UInt64} {e : DrCacheEntry}
    (h : AnsweredBy server d nowMs e) : e ∈ occupied server.cache.entries := by
  obtain ⟨parsed, _, _, hhits⟩ := h.query
  exact mem_occupied.mpr ⟨h.entry, inUse_of_hits hhits⟩

/-- Only a hit answers with something the relay did not build. -/
theorem rd_or_hit {server : DrServer} {d : Datagram} {nowMs : UInt64} {sent : Bool} {s : Send}
    (hs : s ∈ (receive server d nowMs sent).2) (hcause : s.cause = .answer) :
    rd s.packet = rd d.packet ∨
      ∃ e clientId, AnsweredBy server d nowMs e ∧ s.packet = e.answer nowMs clientId := by
  rcases receive_outcome server d nowMs sent with ⟨_, houtcome⟩ | ⟨_, houtcome⟩
  · generalize receive server d nowMs sent = r at hs houtcome
    cases houtcome with
    | ignored => cases hs
    | relayed =>
      rw [List.mem_singleton.mp hs] at hcause
      cases hcause
  · generalize receive server d nowMs sent = r at hs houtcome
    cases houtcome with
    | ignored => cases hs
    | rejected => exact Or.inl (rd_of_error hs)
    | refused => exact Or.inl (rd_of_error hs)
    | fromTable haccepted htable => exact Or.inl (rd_of_table haccepted htable hs)
    | @cached parsed cache answer haccepted htable hhit =>
      have hremote := answerFromTable_eq_none_iff.mp htable
      rw [List.mem_singleton.mp hs]
      rcases drCacheLookup_cases server.cache (cstr parsed.qname) parsed.qtype parsed.qclass nowMs
        parsed.id with ⟨heq, _⟩ | ⟨pre, e, suf, hsplit, he, _, heq⟩ <;> rw [heq] at hhit <;> cases hhit
      exact Or.inr ⟨e, parsed.id, ⟨⟨parsed, haccepted, hremote, he⟩, by rw [hsplit]; simp⟩, rfl⟩
    | forwarded =>
      rw [List.mem_singleton.mp hs] at hcause
      cases hcause
    | unsent =>
      rw [List.mem_singleton.mp hs] at hcause
      cases hcause

/-- The slot that answers a query is the only one that does. -/
theorem exists_answer_of_hit {capacity : Nat} {server : DrServer} {d : Datagram} {nowMs : UInt64}
    {e : DrCacheEntry} (hinv : CacheInv capacity server.cache) (h : AnsweredBy server d nowMs e)
    (sent : Bool) :
    ∃ s ∈ (receive server d nowMs sent).2, s.cause = .answer ∧
      ∃ clientId, s.packet = e.answer nowMs clientId := by
  obtain ⟨parsed, haccepted, hremote, hhits⟩ := h.query
  rcases drCacheLookup_cases server.cache (cstr parsed.qname) parsed.qtype parsed.qclass nowMs
    parsed.id with ⟨_, hnone⟩ | ⟨pre, found, suf, hsplit, hfound, _, heq⟩
  · rw [hnone e h.entry] at hhits
    cases hhits
  · have hmem : found ∈ server.cache.entries := by rw [hsplit]; simp
    have hkey : e.question = found.question :=
      (question_of_hits hhits).trans (question_of_hits hfound).symm
    have hsame : e = found :=
      hinv.eq_of_question h.entry (inUse_of_hits hhits) hmem (inUse_of_hits hfound) hkey
    subst hsame
    rw [receive_of_hit haccepted hremote heq sent]
    exact ⟨_, List.mem_singleton_self _, rfl, parsed.id, rfl⟩

section Run

variable (start : DrServer) (run : Nat → Event)

/-- The upstream server copies the RD bit of the query it answers. -/
def EchoesRd : Prop :=
  ∀ m d nowMs sent request responseQuery, run m = .datagram d nowMs sent →
    Authentic (stateAt step start run m) d request responseQuery →
    rd d.packet = rd request.queryPacket

/-- The slot holds the response to the query of event `k`. -/
def FetchedFor (k : Nat) (e : DrCacheEntry) : Prop :=
  ∃ m d sent request responseQuery, run m = .datagram d e.storedAtMs sent ∧
    Authentic (stateAt step start run m) d request responseQuery ∧ e.packet = d.packet ∧
    HeldSince (pendingAt start run (drDnsReadId d.packet)) k m request

/-- If event `n` hits the cache, the query the response was fetched for had the same RD bit. -/
def SharesRd (n : Nat) (d : Datagram) (nowMs : UInt64) : Prop :=
  ∀ e k origin originMs sent, AnsweredBy (stateAt step start run n) d nowMs e →
    FetchedFor start run k e → run k = .datagram origin originMs sent →
    rd origin.packet = rd d.packet

variable {start run}

/-- Every slot in use holds the response to the query of an earlier event. -/
theorem fetchedFor_of_occupied (hfresh : Fresh start) {n : Nat} {e : DrCacheEntry}
    (he : e ∈ occupied (stateAt step start run n).cache.entries) : ∃ k, FetchedFor start run k e := by
  obtain ⟨m, _, d, sent, request, responseQuery, _, hevent, hauthentic, hpacket, _⟩ :=
    storedBy_of_occupied hfresh.cached n e he
  obtain ⟨k, hheld⟩ := (slot_occupancy hfresh (drDnsReadId d.packet)).heldSince
    hauthentic.answers.pending
  exact ⟨k, m, d, sent, request, responseQuery, hevent, hauthentic, hpacket, hheld⟩

/-- A response in the cache has the RD bit of the query it was fetched for. -/
theorem FetchedFor.rd (hecho : EchoesRd start run) {k : Nat} {e : DrCacheEntry}
    (h : FetchedFor start run k e) :
    ∃ origin originMs, run k = .datagram origin originMs true ∧ rd e.packet = rd origin.packet := by
  obtain ⟨m, d, sent, request, responseQuery, hevent, hauthentic, hpacket, hheld⟩ := h
  obtain ⟨origin, originMs, horigin, hentered, _⟩ := entered_of_held hheld
  refine ⟨origin, originMs, horigin, ?_⟩
  rw [hpacket, hecho m d _ sent request responseQuery hevent hauthentic, hentered.queryPacket]

/-- A reply from the cache has the RD bit the response was stored with. -/
theorem rd_of_hit (hfresh : Fresh start) {n : Nat} {d : Datagram} {nowMs : UInt64} {e : DrCacheEntry}
    (h : AnsweredBy (stateAt step start run n) d nowMs e) (clientId : UInt16) :
    rd (e.answer nowMs clientId) = rd e.packet := by
  obtain ⟨_, minTtl, hcollect⟩ := cachedResponses_stateAt hfresh n e h.occupied
  rw [rd, rd, (header_answer hcollect nowMs clientId).2]

end Run

/-- In every run whose upstream server echoes RD, what a query is answered at once has its RD bit
exactly when no hit hands it the response to a query with the other one. -/
theorem rd_copied_iff (timeoutMs : UInt32) (upstream : Sockaddr) (table : DrLocalTable)
    (capacity : Nat) (run : Nat → Event)
    (hecho : EchoesRd (drServerStart timeoutMs upstream table capacity) run)
    (n : Nat) (d : Datagram) (nowMs : UInt64) (sent : Bool) (hevent : run n = .datagram d nowMs sent) :
    CopiesRd d.packet (outputAt step (drServerStart timeoutMs upstream table capacity) run n) ↔
      SharesRd (drServerStart timeoutMs upstream table capacity) run n d nowMs := by
  have hfresh := fresh_start timeoutMs upstream table capacity
  have hinv := cacheInv_stateAt timeoutMs upstream table capacity run n
  rw [outputAt, hevent, step]
  constructor
  · intro h e k origin originMs ok hhit hfetched horigin
    obtain ⟨s, hs, hcause, clientId, hpacket⟩ := exists_answer_of_hit hinv hhit sent
    obtain ⟨origin', originMs', horigin', hrd⟩ := hfetched.rd hecho
    rw [horigin] at horigin'
    cases horigin'
    rw [← h s hs hcause, hpacket, rd_of_hit hfresh hhit, hrd]
  · intro h s hs hcause
    rcases rd_or_hit hs hcause with hcopied | ⟨e, clientId, hhit, hpacket⟩
    · exact hcopied
    · obtain ⟨k, hfetched⟩ := fetchedFor_of_occupied hfresh hhit.occupied
      obtain ⟨origin, originMs, horigin, hrd⟩ := hfetched.rd hecho
      rw [hpacket, rd_of_hit hfresh hhit, hrd]
      exact h e k origin originMs true hhit hfetched horigin

/-- The query for `a` of 10.0.0.8, who does not ask for recursion. -/
def plainQuery : Datagram where
  src := [2, 0, 0x30, 0x39, 10, 0, 0, 8]
  packet := [0, 8, 0, 0, 0, 1, 0, 0, 0, 0, 0, 0, 1, 0x61, 0, 0, 1, 0, 1]
  received_pos := by simp
  received_le := by simp [DR_DNS_MAX_PACKET_SIZE]

/-- It follows a query with RD and the answer to it. -/
def mixedRun : Nat → Event
  | 0 => .datagram (letterQuery 0x61) 0 true
  | 1 => .datagram (letterAnswer 1 0x61) 0 true
  | _ + 2 => .datagram plainQuery 0 true

theorem mixedRun_echoes : EchoesRd busyStart mixedRun := by
  intro m d nowMs sent request responseQuery hevent hauthentic
  -- only event 1 is a response
  have hresponse := hauthentic.response
  rcases m with _ | _ | k
  · injection hevent with hd
    rw [← hd] at hresponse
    exact absurd hresponse (by decide +kernel)
  · injection hevent with hd
    have hpending : (drPendingMapGet (stateAt step busyStart mixedRun 1).pendingMap
        (drDnsReadId (letterAnswer 1 0x61).packet)).map DrPendingRequest.queryPacket =
        some (letterQuery 0x61).packet := by decide +kernel
    rw [hd, hauthentic.answers.pending] at hpending
    rw [Option.some.inj hpending, ← hd]
    decide +kernel
  · injection hevent with hd
    rw [← hd] at hresponse
    exact absurd hresponse (by decide +kernel)

theorem rd_copied_iff_mixedRun :
    CopiesRd plainQuery.packet (outputAt step busyStart mixedRun 2) ↔
      SharesRd busyStart mixedRun 2 plainQuery 0 :=
  rd_copied_iff 5000 [2, 0, 0, 53, 8, 8, 8, 8] .zero 2 mixedRun mixedRun_echoes 2 plainQuery 0 true rfl

/-- The query without RD is answered with RD set. -/
theorem plainQuery_rd_set : EchoesRd busyStart mixedRun ∧ rd plainQuery.packet = 0 ∧
    (outputAt step busyStart mixedRun 2).map (fun s => (s.cause, s.dst, rd s.packet)) =
      [(.answer, plainQuery.src, 0x0100)] ∧
    ¬ CopiesRd plainQuery.packet (outputAt step busyStart mixedRun 2) := by
  have hsends : (outputAt step busyStart mixedRun 2).map (fun s => (s.cause, s.dst, rd s.packet)) =
      [(.answer, plainQuery.src, 0x0100)] := by decide +kernel
  refine ⟨mixedRun_echoes, by decide +kernel, hsends, ?_⟩
  intro hcopies
  obtain ⟨s, heq, hfields⟩ := List.map_eq_singleton_iff.mp hsends
  rw [Prod.mk.injEq, Prod.mk.injEq] at hfields
  obtain ⟨hcause, _, hset⟩ := hfields
  have hcopied := hcopies s (by rw [heq]; exact List.mem_singleton_self s) hcause
  rw [hset] at hcopied
  exact absurd hcopied (by decide +kernel)

end DnsRelay.Relay
