import DnsRelay.Relay.Server
import DnsRelay.Store.PendingInvariant

/-!
# What one datagram can do

Each handler is inverted once: the inductive relations below list the ways it can end,
with the tests that led there, the server it leaves and the packets it sends. The
invariants of the relay are proved by cases over them, never by unfolding a handler.
-/
namespace DnsRelay.Relay

open DnsRelay.Foundation
open DnsRelay.Wire
open DnsRelay.Store

/-- A standard query whose question can be parsed: what reaches the local table. -/
structure Accepted (packet : Bytes) (parsed : DrParsedQuery) : Prop where
  query : u16At packet 2 &&& 0x8000 = 0
  opcode : drDnsGetOpcode packet = 0
  parses : drDnsParseQuery packet = .ok parsed

/-- The name of a parsed question fits the array it is kept in. -/
theorem length_cstr_qname {packet : Bytes} {parsed : DrParsedQuery}
    (h : drDnsParseQuery packet = .ok parsed) :
    (cstr parsed.qname).octets.length ≤ DR_DNS_MAX_DOMAIN_LEN := by
  obtain ⟨labels, jumps, extent, hparsed⟩ := parsedAs_of_ok h
  rw [hparsed.cstr_qname]
  exact (length_cstr_le _).trans hparsed.text

theorem Accepted.header {packet : Bytes} {parsed : DrParsedQuery} (h : Accepted packet parsed) :
    DR_DNS_HEADER_SIZE ≤ packet.length := by
  obtain ⟨labels, jumps, extent, hparsed⟩ := parsedAs_of_ok h.parses
  exact hparsed.header

inductive ClientOutcome (server : DrServer) (packet : Bytes) (clientAddr : Sockaddr)
    (nowMs : UInt64) (sent : Bool) : DrServer × List Send → Prop where
  | ignored (h : packet.length < DR_DNS_HEADER_SIZE ∨ u16At packet 2 &&& 0x8000 ≠ 0) :
      ClientOutcome server packet clientAddr nowMs sent (server, [])
  | rejected {rcode : UInt8} (hheader : DR_DNS_HEADER_SIZE ≤ packet.length)
      (hquery : u16At packet 2 &&& 0x8000 = 0) (hnot : ∀ parsed, ¬ Accepted packet parsed) :
      ClientOutcome server packet clientAddr nowMs sent
        (server, respondWithError packet rcode .answer clientAddr sent)
  | fromTable {parsed : DrParsedQuery} {sends : List Send} (h : Accepted packet parsed)
      (htable : answerFromTable server packet parsed clientAddr sent = some sends) :
      ClientOutcome server packet clientAddr nowMs sent (server, sends)
  | cached {parsed : DrParsedQuery} {cache : DrCache} {answer : Bytes} (h : Accepted packet parsed)
      (htable : answerFromTable server packet parsed clientAddr sent = none)
      (hhit : drCacheLookup server.cache (cstr parsed.qname) parsed.qtype parsed.qclass nowMs
        parsed.id = (cache, some answer)) :
      ClientOutcome server packet clientAddr nowMs sent
        ({ server with cache }, [{ cause := .answer, packet := answer, dst := clientAddr, sent }])
  | refused {parsed : DrParsedQuery} {cache : DrCache} (h : Accepted packet parsed)
      (htable : answerFromTable server packet parsed clientAddr sent = none)
      (hmiss : drCacheLookup server.cache (cstr parsed.qname) parsed.qtype parsed.qclass nowMs
        parsed.id = (cache, none)) :
      ClientOutcome server packet clientAddr nowMs sent
        ({ server with cache },
          respondWithError packet DR_DNS_RCODE_REFUSED .answer clientAddr sent)
  | forwarded {parsed : DrParsedQuery} {cache : DrCache} {id : UInt16} (h : Accepted packet parsed)
      (htable : answerFromTable server packet parsed clientAddr sent = none)
      (hmiss : drCacheLookup server.cache (cstr parsed.qname) parsed.qtype parsed.qclass nowMs
        parsed.id = (cache, none))
      (hid : id ≠ 0) (hfree : (server.pendingMap.slots id).active = false) (hsent : sent = true) :
      ClientOutcome server packet clientAddr nowMs sent
        ({ server with
            cache
            pendingMap := server.pendingMap.fill (pendingQuery packet parsed clientAddr nowMs) id },
          [{ cause := .forward id, packet := drDnsWriteId packet id, dst := server.upstreamAddr,
             sent }])
  | unsent {parsed : DrParsedQuery} {cache : DrCache} {id : UInt16} (h : Accepted packet parsed)
      (htable : answerFromTable server packet parsed clientAddr sent = none)
      (hmiss : drCacheLookup server.cache (cstr parsed.qname) parsed.qtype parsed.qclass nowMs
        parsed.id = (cache, none))
      (hid : id ≠ 0) (hfree : (server.pendingMap.slots id).active = false) (hsent : sent = false) :
      ClientOutcome server packet clientAddr nowMs sent
        ({ server with
            cache
            pendingMap :=
              (server.pendingMap.fill (pendingQuery packet parsed clientAddr nowMs) id).clear id },
          [{ cause := .forward id, packet := drDnsWriteId packet id, dst := server.upstreamAddr,
             sent }])

/-- The forwarding section, for a query that missed the cache. -/
theorem forwardQuery_outcome {server : DrServer} {packet : Bytes} {parsed : DrParsedQuery}
    {clientAddr : Sockaddr} {nowMs : UInt64} {sent : Bool} {cache : DrCache}
    (h : Accepted packet parsed)
    (htable : answerFromTable server packet parsed clientAddr sent = none)
    (hmiss : drCacheLookup server.cache (cstr parsed.qname) parsed.qtype parsed.qclass nowMs
      parsed.id = (cache, none)) :
    ClientOutcome server packet clientAddr nowMs sent
      (forwardQuery { server with cache } packet parsed clientAddr nowMs sent) := by
  rw [forwardQuery]
  rcases drPendingMapInsert_cases server.pendingMap (pendingQuery packet parsed clientAddr nowMs) with
    heq | ⟨id, hid, hfree, heq⟩ <;> rw [heq]
  · exact .refused h htable hmiss
  · cases hsent : sent with
    | true =>
      rw [hsent] at htable
      exact .forwarded h htable hmiss hid hfree rfl
    | false =>
      rw [hsent] at htable
      have hactive : ((server.pendingMap.fill (pendingQuery packet parsed clientAddr nowMs) id).slots
          id).active = true := by rw [slots_fill_self]; rfl
      have hremove := drPendingMapRemove_cases
        (server.pendingMap.fill (pendingQuery packet parsed clientAddr nowMs) id) id
      rw [hactive] at hremove
      obtain ⟨_, hremove⟩ := hremove.resolve_left (fun h => by cases h.1)
      dsimp only
      rw [if_neg Bool.false_ne_true, hremove]
      exact .unsent h htable hmiss hid hfree rfl

theorem handleQuery_outcome {server : DrServer} {packet : Bytes} {parsed : DrParsedQuery}
    (clientAddr : Sockaddr) (nowMs : UInt64) (sent : Bool) (h : Accepted packet parsed) :
    ClientOutcome server packet clientAddr nowMs sent
      (handleQuery server packet parsed clientAddr nowMs sent) := by
  rw [handleQuery]
  cases htable : answerFromTable server packet parsed clientAddr sent with
  | some sends => exact .fromTable h htable
  | none =>
    dsimp only
    rcases hlookup : drCacheLookup server.cache (cstr parsed.qname) parsed.qtype parsed.qclass nowMs
      parsed.id with ⟨cache, answer⟩
    cases answer with
    | some answer => exact .cached h htable hlookup
    | none => exact forwardQuery_outcome h htable hlookup

theorem handleClientPacket_outcome (server : DrServer) (packet : Bytes) (clientAddr : Sockaddr)
    (nowMs : UInt64) (sent : Bool) :
    ClientOutcome server packet clientAddr nowMs sent
      (handleClientPacket server packet clientAddr nowMs sent) := by
  rw [handleClientPacket, drDnsParseHeader_eq]
  by_cases hshort : packet.length < DR_DNS_HEADER_SIZE
  · rw [if_pos hshort]
    exact .ignored (Or.inl hshort)
  rw [if_neg hshort]
  dsimp only [headerAt]
  have hheader : DR_DNS_HEADER_SIZE ≤ packet.length := Nat.le_of_not_lt hshort
  by_cases hquery : u16At packet 2 &&& 0x8000 = 0
  · rw [if_neg (not_not.mpr hquery)]
    by_cases hone : u16At packet 4 = 1
    · rw [if_neg (not_not.mpr hone)]
      by_cases hopcode : drDnsGetOpcode packet = 0
      · rw [if_neg (not_not.mpr hopcode)]
        cases hparse : drDnsParseQuery packet with
        | ok parsed => exact handleQuery_outcome clientAddr nowMs sent ⟨hquery, hopcode, hparse⟩
        | fail e =>
          exact .rejected hheader hquery (fun parsed h => by cases hparse.symm.trans h.parses)
        | stuck =>
          exact .rejected hheader hquery (fun parsed h => by cases hparse.symm.trans h.parses)
      · rw [if_pos hopcode]
        exact .rejected hheader hquery (fun parsed h => hopcode h.opcode)
    · rw [if_pos hone]
      refine .rejected hheader hquery (fun parsed h => hone ?_)
      obtain ⟨labels, jumps, extent, hparsed⟩ := parsedAs_of_ok h.parses
      exact hparsed.qdcount
  · rw [if_pos hquery]
    exact .ignored (Or.inr hquery)

/-- The response answers the question that is pending under its transaction ID. -/
structure Matches (pendingMap : DrPendingMap) (packet : Bytes) (request : DrPendingRequest)
    (responseQuery : DrParsedQuery) : Prop where
  pending : drPendingMapGet pendingMap (drDnsReadId packet) = some request
  parses : drDnsParseQuery packet = .ok responseQuery
  qname : cstr responseQuery.qname = request.qname
  qtype : responseQuery.qtype = request.qtype
  qclass : responseQuery.qclass = request.qclass

theorem Matches.header {pendingMap : DrPendingMap} {packet : Bytes} {request : DrPendingRequest}
    {responseQuery : DrParsedQuery} (h : Matches pendingMap packet request responseQuery) :
    DR_DNS_HEADER_SIZE ≤ packet.length := by
  obtain ⟨labels, jumps, extent, hparsed⟩ := parsedAs_of_ok h.parses
  exact hparsed.header

theorem Matches.qname_le {pendingMap : DrPendingMap} {packet : Bytes} {request : DrPendingRequest}
    {responseQuery : DrParsedQuery} (h : Matches pendingMap packet request responseQuery) :
    request.qname.octets.length ≤ DR_DNS_MAX_DOMAIN_LEN := by
  rw [← h.qname]
  exact length_cstr_qname h.parses

/-- The server in front of `maybe_cache_response`. -/
def withoutPending (server : DrServer) (id : UInt16) : DrServer :=
  { server with pendingMap := server.pendingMap.clear id }

inductive UpstreamOutcome (server : DrServer) (packet : Bytes) (nowMs : UInt64) (sent : Bool) :
    DrServer × List Send → Prop where
  | ignored (h : ∀ request responseQuery, ¬ Matches server.pendingMap packet request responseQuery) :
      UpstreamOutcome server packet nowMs sent (server, [])
  | relayed {request : DrPendingRequest} {responseQuery : DrParsedQuery}
      (h : Matches server.pendingMap packet request responseQuery) :
      UpstreamOutcome server packet nowMs sent
        ((maybeCacheResponse (withoutPending server (drDnsReadId packet)) request packet nowMs).1,
          [{ cause := .relay (drDnsReadId packet), packet := drDnsWriteId packet request.clientId,
             dst := request.clientAddr, sent }])

theorem handleUpstreamPacket_outcome (server : DrServer) (packet : Bytes) (nowMs : UInt64)
    (sent : Bool) :
    UpstreamOutcome server packet nowMs sent (handleUpstreamPacket server packet nowMs sent) := by
  rw [handleUpstreamPacket]
  dsimp only
  cases hget : drPendingMapGet server.pendingMap (drDnsReadId packet) with
  | none => exact .ignored (fun request responseQuery h => by cases hget.symm.trans h.pending)
  | some request =>
    dsimp only
    cases hparse : drDnsParseQuery packet with
    | fail e => exact .ignored (fun request responseQuery h => by cases hparse.symm.trans h.parses)
    | stuck => exact .ignored (fun request responseQuery h => by cases hparse.symm.trans h.parses)
    | ok responseQuery =>
      dsimp only
      split
      · next hdiffer =>
        refine .ignored (fun request' responseQuery' h => ?_)
        cases hget.symm.trans h.pending
        cases hparse.symm.trans h.parses
        rcases hdiffer with hdiffer | hdiffer | hdiffer
        · exact hdiffer h.qname
        · exact hdiffer h.qtype
        · exact hdiffer h.qclass
      · next hsame =>
        obtain ⟨hactive, hslot⟩ := drPendingMapGet_eq_some.mp hget
        have hremove := drPendingMapRemove_cases server.pendingMap (drDnsReadId packet)
        rw [hactive] at hremove
        obtain ⟨_, hremove⟩ := hremove.resolve_left (fun h => by cases h.1)
        rw [hremove, hslot]
        simp only [not_or, not_not] at hsame
        exact .relayed ⟨hget, hparse, hsame.1, hsame.2.1, hsame.2.2⟩

/-- Caching a response is at most one put under the key of the request. -/
theorem maybeCacheResponse_cases (server : DrServer) (request : DrPendingRequest) (packet : Bytes)
    (nowMs : UInt64) :
    maybeCacheResponse server request packet nowMs = (server, false) ∨
      ∃ patches minTtl, drDnsGetRcode packet = DR_DNS_RCODE_NOERROR ∧
        drDnsCollectTtls packet = .ok (patches, minTtl) ∧ patches.count ≠ 0 ∧ minTtl ≠ 0 ∧
        maybeCacheResponse server request packet nowMs =
          ({ server with
              cache := (drCachePut server.cache request.qname request.qtype request.qclass packet
                patches minTtl nowMs).1 },
            (drCachePut server.cache request.qname request.qtype request.qclass packet patches minTtl
              nowMs).2) := by
  unfold maybeCacheResponse
  by_cases hrcode : drDnsGetRcode packet = DR_DNS_RCODE_NOERROR
  · rw [if_neg (not_not.mpr hrcode)]
    cases hcollect : drDnsCollectTtls packet with
    | stuck => exact Or.inl rfl
    | fail e => exact Or.inl rfl
    | ok r =>
      obtain ⟨patches, minTtl⟩ := r
      dsimp only
      split
      · exact Or.inl rfl
      · next hworth =>
        rw [not_or] at hworth
        exact Or.inr ⟨patches, minTtl, hrcode, rfl, hworth.1, hworth.2, rfl⟩
  · rw [if_pos hrcode]
    exact Or.inl rfl

end DnsRelay.Relay
