import DnsRelay.Relay.Outcomes
import DnsRelay.Store.CacheInvariant
import DnsRelay.Wire.AgedMessage

/-!
# Replies

The packets a client is sent: error responses, local answers, cached and relayed
responses. All of them are responses with the transaction ID the client chose.
-/
namespace DnsRelay.Relay

open DnsRelay.Foundation
open DnsRelay.Wire
open DnsRelay.Store

/-- A response with a given transaction ID. -/
structure ResponseTo (clientId : UInt16) (packet : Bytes) : Prop where
  header : DR_DNS_HEADER_SIZE ≤ packet.length
  id : drDnsReadId packet = clientId
  response : u16At packet 2 &&& 0x8000 ≠ 0

theorem responseTo_headerBytes {h : DrDnsHeader} (rest : Bytes)
    (hresponse : h.flags &&& 0x8000 = 0x8000) : ResponseTo h.id (headerBytes h ++ rest) := by
  obtain ⟨hid, hflags, _⟩ := u16At_headerBytes h rest
  have hlen : DR_DNS_HEADER_SIZE ≤ (headerBytes h ++ rest).length := by
    rw [List.length_append, length_headerBytes]
    exact Nat.le_add_right _ _
  have hbound := hlen
  simp only [DR_DNS_HEADER_SIZE] at hbound
  refine ⟨hlen, ?_, ?_⟩
  · rw [drDnsReadId, if_pos (by omega), hid]
  · rw [hflags, hresponse]
    decide

theorem mem_sendBuilt {built : Call (Bytes × Nat)} {cause : Cause} {dst : Sockaddr} {sent : Bool}
    {s : Send} (h : s ∈ sendBuilt built cause dst sent) :
    ∃ out responseLen, built = .ok (out, responseLen) ∧
      s = { cause, packet := out.take responseLen, dst, sent } := by
  unfold sendBuilt at h
  split at h
  · next out responseLen => exact ⟨out, responseLen, rfl, List.mem_singleton.mp h⟩
  · cases h

theorem sendBuilt_eq {built : Call (Bytes × Nat)} {cause : Cause} {dst : Sockaddr} {sent : Bool}
    {s : Send} (h : s ∈ sendBuilt built cause dst sent) : sendBuilt built cause dst sent = [s] := by
  unfold sendBuilt at h ⊢
  split at h
  · rw [List.mem_singleton.mp h]
  · cases h

/-- An error response: the ID of the query, the error code, and no answers. -/
structure ErrorResponseTo (query : Bytes) (rcode : UInt8) (packet : Bytes) : Prop where
  reply : ResponseTo (drDnsReadId query) packet
  rcode : drDnsGetRcode packet = rcode &&& 0x0f
  ancount : u16At packet 6 = 0

theorem mem_respondWithError {query : Bytes} {rcode : UInt8} {cause : Cause} {dst : Sockaddr}
    {sent : Bool} {s : Send} (h : s ∈ respondWithError query rcode cause dst sent) :
    s.cause = cause ∧ s.dst = dst ∧ s.sent = sent ∧ ErrorResponseTo query rcode s.packet := by
  obtain ⟨out, responseLen, hbuilt, rfl⟩ := mem_sendBuilt h
  obtain ⟨question, hlen, _, _, _, _, hout⟩ :=
    (drDnsBuildErrorResponse_sat query rcode (List.length_replicate ..)).of_eq_ok hbuilt
  dsimp only at hout ⊢
  rw [hout]
  have hreply := responseTo_headerBytes question
    (errorHeader_response (headerAt query) rcode responseLen)
  have hid : drDnsReadId query = (errorHeader (headerAt query) rcode responseLen).id := by
    simp only [DR_DNS_HEADER_SIZE] at hlen
    rw [drDnsReadId, if_pos (by omega)]
    rfl
  rw [← hid] at hreply
  obtain ⟨_, hflags, hancount⟩ :=
    u16At_headerBytes (errorHeader (headerAt query) rcode responseLen) question
  refine ⟨rfl, rfl, rfl, hreply, ?_, hancount⟩
  rw [drDnsGetRcode, if_pos hreply.header, hflags]
  exact errorHeader_rcode _ _ _

theorem Accepted.id {packet : Bytes} {parsed : DrParsedQuery} (h : Accepted packet parsed) :
    parsed.id = drDnsReadId packet := by
  obtain ⟨labels, jumps, extent, hparsed⟩ := parsedAs_of_ok h.parses
  have hheader := hparsed.header
  simp only [DR_DNS_HEADER_SIZE] at hheader
  rw [hparsed.id, drDnsReadId, if_pos (by omega)]

/-- A reply to a query, sent while it is handled. -/
structure DirectAnswer (query : Bytes) (clientAddr : Sockaddr) (s : Send) : Prop where
  cause : s.cause = .answer
  dst : s.dst = clientAddr
  reply : ResponseTo (drDnsReadId query) s.packet

theorem directAnswer_of_error {query : Bytes} {rcode : UInt8} {clientAddr : Sockaddr} {sent : Bool}
    {s : Send} (h : s ∈ respondWithError query rcode .answer clientAddr sent) :
    DirectAnswer query clientAddr s := by
  obtain ⟨hcause, hdst, _, herror⟩ := mem_respondWithError h
  exact ⟨hcause, hdst, herror.reply⟩

/-- What the local table ends the handling with: an NXDOMAIN or, on a hit, a local answer. -/
theorem answerFromTable_cases {server : DrServer} {packet : Bytes} {parsed : DrParsedQuery}
    {clientAddr : Sockaddr} {sent : Bool} {sends : List Send}
    (htable : answerFromTable server packet parsed clientAddr sent = some sends) :
    ((drLocalTableLookup server.localTable (cstr parsed.qname)).kind = .blocked ∧
        sends = respondWithError packet DR_DNS_RCODE_NXDOMAIN .answer clientAddr sent) ∨
      ((drLocalTableLookup server.localTable (cstr parsed.qname)).kind = .hit ∧
        sends = sendBuilt (drDnsBuildAResponse packet parsed
          (drLocalTableLookup server.localTable (cstr parsed.qname)).ipv4Be
          (drLocalTableLookup server.localTable (cstr parsed.qname)).ttl response) .answer clientAddr
          sent) := by
  unfold answerFromTable at htable
  dsimp only at htable
  split at htable
  · split at htable
    · next hblocked => exact Or.inl ⟨hblocked, (Option.some.inj htable).symm⟩
    · split at htable
      · next hhit => exact Or.inr ⟨hhit.2, (Option.some.inj htable).symm⟩
      · cases htable
  · cases htable

/-- A local answer is its header, the question and one record. -/
theorem mem_sendLocal {packet : Bytes} {parsed : DrParsedQuery} {ipv4Be : Ipv4Be} {ttl : UInt32}
    {cause : Cause} {dst : Sockaddr} {sent : Bool} {s : Send}
    (h : s ∈ sendBuilt (drDnsBuildAResponse packet parsed ipv4Be ttl response) cause dst sent) :
    s.cause = cause ∧ s.dst = dst ∧ ∃ labels, s.packet = headerBytes (answerHeader parsed) ++
      (questionBytes labels parsed.qtype parsed.qclass ++ answerBytes ttl ipv4Be) := by
  obtain ⟨out, responseLen, hbuilt, rfl⟩ := mem_sendBuilt h
  obtain ⟨labels, _, _, _, hout⟩ :=
    (drDnsBuildAResponse_sat packet parsed ipv4Be ttl (List.length_replicate ..)).of_eq_ok hbuilt
  exact ⟨rfl, rfl, labels, hout.trans (List.append_assoc ..)⟩

theorem directAnswer_of_table {server : DrServer} {packet : Bytes} {parsed : DrParsedQuery}
    {clientAddr : Sockaddr} {sent : Bool} {sends : List Send} {s : Send} (h : Accepted packet parsed)
    (htable : answerFromTable server packet parsed clientAddr sent = some sends) (hs : s ∈ sends) :
    DirectAnswer packet clientAddr s := by
  rcases answerFromTable_cases htable with ⟨_, rfl⟩ | ⟨_, rfl⟩
  · exact directAnswer_of_error hs
  · obtain ⟨hcause, hdst, labels, hpacket⟩ := mem_sendLocal hs
    refine ⟨hcause, hdst, ?_⟩
    rw [hpacket, ← h.id]
    exact responseTo_headerBytes _ (answerHeader_response parsed)

theorem answerFromTable_singleton {server : DrServer} {packet : Bytes} {parsed : DrParsedQuery}
    {clientAddr : Sockaddr} {sent : Bool} {sends : List Send} {s : Send}
    (htable : answerFromTable server packet parsed clientAddr sent = some sends) (hs : s ∈ sends) :
    sends = [s] := by
  rcases answerFromTable_cases htable with ⟨_, rfl⟩ | ⟨_, rfl⟩
  · exact sendBuilt_eq hs
  · exact sendBuilt_eq hs

/-- Patching TTLs does not reach into the header, whatever the elapsed time. -/
theorem header_answer {e : DrCacheEntry} {minTtl : UInt32}
    (hcollect : drDnsCollectTtls e.packet = .ok (e.ttlPatches, minTtl)) (nowMs : UInt64)
    (clientId : UInt16) :
    u16At (e.answer nowMs clientId) 0 = clientId ∧
      u16At (e.answer nowMs clientId) 2 = u16At e.packet 2 := by
  rw [DrCacheEntry.answer, drDnsApplyTtlPatches_eq]
  obtain ⟨hid, hothers⟩ := patched_header hcollect ((nowMs - e.storedAtMs) / 1000).toUInt32 clientId
  exact ⟨hid, u16At_congr (hothers 2 (by omega) (by decide)) (hothers 3 (by omega) (by decide))⟩

theorem responseTo_answer {e : DrCacheEntry} {minTtl : UInt32}
    (hcollect : drDnsCollectTtls e.packet = .ok (e.ttlPatches, minTtl))
    (hresponse : u16At e.packet 2 &&& 0x8000 ≠ 0) (nowMs : UInt64) (clientId : UInt16) :
    ResponseTo clientId (e.answer nowMs clientId) := by
  obtain ⟨records, hwalk, _⟩ := (drDnsCollectTtls_sat e.packet).of_eq_ok hcollect
  obtain ⟨hid, hflags⟩ := header_answer hcollect nowMs clientId
  have hlength : (e.answer nowMs clientId).length = e.packet.length := by
    rw [DrCacheEntry.answer, drDnsApplyTtlPatches_eq]
    exact (length_applyPatches _ _ _).trans (length_drDnsWriteId _ _)
  have hheader := hwalk.header
  rw [← hlength] at hheader
  refine ⟨hheader, ?_, ?_⟩
  · simp only [DR_DNS_HEADER_SIZE] at hheader
    rw [drDnsReadId, if_pos (by omega), hid]
  · rw [hflags]
    exact hresponse

/-- The cached packets are responses with the patches collected from them. -/
def CachedResponses (cache : DrCache) : Prop :=
  ∀ e ∈ occupied cache.entries, u16At e.packet 2 &&& 0x8000 ≠ 0 ∧
    ∃ minTtl, drDnsCollectTtls e.packet = .ok (e.ttlPatches, minTtl)

theorem responseTo_of_hit {cache cache' : DrCache} (hcached : CachedResponses cache) {qname : CString}
    {qtype qclass : UInt16} {nowMs : UInt64} {clientId : UInt16} {answer : Bytes}
    (hhit : drCacheLookup cache qname qtype qclass nowMs clientId = (cache', some answer)) :
    ResponseTo clientId answer := by
  rcases drCacheLookup_cases cache qname qtype qclass nowMs clientId with
    ⟨heq, _⟩ | ⟨pre, m, suf, hsplit, hm, _, heq⟩ <;> rw [heq] at hhit <;> cases hhit
  have huse := inUse_of_hits hm
  obtain ⟨hresponse, minTtl, hcollect⟩ := hcached m (mem_occupied.mpr ⟨by rw [hsplit]; simp, huse⟩)
  exact responseTo_answer hcollect hresponse nowMs clientId

end DnsRelay.Relay
