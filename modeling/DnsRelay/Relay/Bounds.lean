import DnsRelay.Relay.Attribution

/-!
# What the arrays hold

A slot keeps packets, names and addresses in arrays of fixed size, and `sendto` is given
the length a slot or a builder reports. What a slot holds was checked when it was copied
in, at another time than it is used; so that each length fits its array is a fact about
runs.
-/
namespace DnsRelay.Relay

open DnsRelay.Foundation
open DnsRelay.Wire
open DnsRelay.Store

/-- A header and what follows it, in an array of `DR_DNS_MAX_PACKET_SIZE` octets. -/
structure Sized (packet : Bytes) : Prop where
  header : DR_DNS_HEADER_SIZE ≤ packet.length
  room : packet.length ≤ DR_DNS_MAX_PACKET_SIZE

structure RequestFits (request : DrPendingRequest) : Prop where
  query : Sized request.queryPacket
  qname : request.qname.octets.length ≤ DR_DNS_MAX_DOMAIN_LEN
  addr_pos : 1 ≤ request.clientAddr.length
  addr_le : request.clientAddr.length ≤ sizeofSockaddrStorage

/-- The patches lie behind the header, inside the packet and apart from each other. -/
structure EntryFits (entry : DrCacheEntry) : Prop where
  packet : Sized entry.packet
  qname : entry.qname.octets.length ≤ DR_DNS_MAX_DOMAIN_LEN
  patches : ∀ p ∈ entry.ttlPatches.items,
    DR_DNS_HEADER_SIZE ≤ p.ttlOffset ∧ p.ttlOffset + 4 ≤ entry.packet.length
  apart : entry.ttlPatches.items.Pairwise (fun p q => p.ttlOffset + 4 ≤ q.ttlOffset)

structure SlotsFit (server : DrServer) : Prop where
  requests : ∀ id, (server.pendingMap.slots id).active = true → RequestFits (server.pendingMap.slots id)
  entries : ∀ entry ∈ occupied server.cache.entries, EntryFits entry

theorem Sized.writeId {packet : Bytes} (h : Sized packet) (id : UInt16) :
    Sized (drDnsWriteId packet id) := by
  constructor
  · rw [length_drDnsWriteId]
    exact h.header
  · rw [length_drDnsWriteId]
    exact h.room

theorem sized_of_accepted {d : Datagram} {parsed : DrParsedQuery} (h : Accepted d.packet parsed) :
    Sized d.packet :=
  ⟨h.header, d.received_le⟩

theorem sized_of_error {query : Bytes} {rcode : UInt8} {cause : Cause} {dst : Sockaddr} {sent : Bool}
    {s : Send} (h : s ∈ respondWithError query rcode cause dst sent) : Sized s.packet := by
  refine ⟨(mem_respondWithError h).2.2.2.reply.header, ?_⟩
  obtain ⟨out, responseLen, hbuilt, rfl⟩ := mem_sendBuilt h
  obtain ⟨_, _, _, _, hle, _⟩ :=
    (drDnsBuildErrorResponse_sat query rcode (List.length_replicate ..)).of_eq_ok hbuilt
  exact (List.length_take_le _ _).trans hle

theorem sized_of_table {server : DrServer} {packet : Bytes} {parsed : DrParsedQuery}
    {clientAddr : Sockaddr} {sent : Bool} {sends : List Send} {s : Send} (h : Accepted packet parsed)
    (htable : answerFromTable server packet parsed clientAddr sent = some sends) (hs : s ∈ sends) :
    Sized s.packet := by
  have hheader := (directAnswer_of_table h htable hs).reply.header
  rcases answerFromTable_cases htable with ⟨_, rfl⟩ | ⟨_, rfl⟩
  · exact sized_of_error hs
  · obtain ⟨out, responseLen, hbuilt, rfl⟩ := mem_sendBuilt hs
    obtain ⟨_, _, hle, _⟩ :=
      (drDnsBuildAResponse_sat packet parsed _ _ (List.length_replicate ..)).of_eq_ok hbuilt
    exact ⟨hheader, (List.length_take_le _ _).trans hle⟩

theorem length_answer (entry : DrCacheEntry) (nowMs : UInt64) (clientId : UInt16) :
    (entry.answer nowMs clientId).length = entry.packet.length := by
  rw [DrCacheEntry.answer, drDnsApplyTtlPatches_eq]
  dsimp only
  rw [length_applyPatches, length_drDnsWriteId]

theorem sized_of_hit {cache cache' : DrCache} (hfit : ∀ entry ∈ occupied cache.entries, EntryFits entry)
    {qname : CString} {qtype qclass : UInt16} {nowMs : UInt64} {clientId : UInt16} {answer : Bytes}
    (hhit : drCacheLookup cache qname qtype qclass nowMs clientId = (cache', some answer)) :
    Sized answer := by
  rcases drCacheLookup_cases cache qname qtype qclass nowMs clientId with
    ⟨heq, _⟩ | ⟨pre, m, suf, hsplit, hm, _, heq⟩ <;> rw [heq] at hhit <;> cases hhit
  have hmem : m ∈ occupied cache.entries := mem_occupied.mpr ⟨by rw [hsplit]; simp, inUse_of_hits hm⟩
  have hsized := (hfit m hmem).packet
  constructor
  · rw [length_answer]
    exact hsized.header
  · rw [length_answer]
    exact hsized.room

theorem sized_of_client {server : DrServer} (h : SlotsFit server) {d : Datagram} {nowMs : UInt64}
    {sent : Bool} {s : Send} (hs : s ∈ (handleClientPacket server d.packet d.src nowMs sent).2) :
    Sized s.packet := by
  have houtcome := handleClientPacket_outcome server d.packet d.src nowMs sent
  generalize handleClientPacket server d.packet d.src nowMs sent = r at hs houtcome
  cases houtcome with
  | ignored => cases hs
  | rejected => exact sized_of_error hs
  | fromTable haccepted htable => exact sized_of_table haccepted htable hs
  | cached _ _ hhit =>
    rw [List.mem_singleton.mp hs]
    exact sized_of_hit h.entries hhit
  | refused => exact sized_of_error hs
  | forwarded haccepted =>
    rw [List.mem_singleton.mp hs]
    exact (sized_of_accepted haccepted).writeId _
  | unsent haccepted =>
    rw [List.mem_singleton.mp hs]
    exact (sized_of_accepted haccepted).writeId _

theorem sized_of_mem {server : DrServer} (h : SlotsFit server) {e : Event} {s : Send}
    (hs : s ∈ (step server e).2) : Sized s.packet := by
  cases e with
  | tick nowMs sents =>
    obtain ⟨ids, _, _, _, _, hsends⟩ := expireAll_spec server nowMs sents
    rw [step, hsends] at hs
    obtain ⟨_, _, _, hs⟩ := mem_timeoutSends 0 hs
    exact sized_of_error hs
  | datagram d nowMs sent =>
    rw [step] at hs
    rcases receive_outcome server d nowMs sent with ⟨_, houtcome⟩ | ⟨hclient, _⟩
    · generalize receive server d nowMs sent = r at hs houtcome
      cases houtcome with
      | ignored => cases hs
      | relayed hmatches =>
        have hsized : Sized d.packet := ⟨hmatches.header, d.received_le⟩
        rw [List.mem_singleton.mp hs]
        exact hsized.writeId _
    · rw [receive, hclient] at hs
      exact sized_of_client h hs

/-- An address is stored with the query only if it fits. -/
theorem src_of_forwarded {server : DrServer} {d : Datagram} {nowMs : UInt64} {sent : Bool} {id : UInt16}
    (h : Forwarded server d nowMs sent id (receive server d nowMs sent)) :
    1 ≤ d.src.length ∧ d.src.length ≤ sizeofSockaddrStorage := by
  obtain ⟨parsed, hentered, _⟩ := h.entered
  have hsends := h.sends
  rcases hlookup : drCacheLookup server.cache (cstr parsed.qname) parsed.qtype parsed.qclass nowMs
      parsed.id with ⟨cache, _ | answer⟩
  · rw [receive_of_miss hentered.accepted hentered.remote hlookup, forwardQuery] at hsends
    by_contra hbad
    have hrefused : drPendingMapInsert server.pendingMap (pendingQuery d.packet parsed d.src nowMs) =
        (server.pendingMap, none) := by
      refine if_pos ?_
      simp only [pendingQuery]
      omega
    dsimp only at hsends
    rw [hrefused] at hsends
    dsimp only at hsends
    have hmem : Send.mk (.forward id) (drDnsWriteId d.packet id) server.upstreamAddr sent ∈
        respondWithError d.packet DR_DNS_RCODE_REFUSED .answer d.src sent := by
      rw [hsends]
      exact List.mem_singleton_self _
    cases (mem_respondWithError hmem).1
  · rw [receive_of_hit hentered.accepted hentered.remote hlookup] at hsends
    cases hsends

theorem requestFits_step {server : DrServer} (h : SlotsFit server) (e : Event) {id : UInt16}
    (hactive : ((step server e).1.pendingMap.slots id).active = true) :
    RequestFits ((step server e).1.pendingMap.slots id) := by
  rcases step_active hactive with ⟨hbefore, hsame⟩ | ⟨d, nowMs, rfl, hforwarded⟩
  · rw [hsame]
    exact h.requests id hbefore
  · obtain ⟨hpos, hle⟩ := src_of_forwarded hforwarded
    obtain ⟨parsed, hentered, hslot⟩ := hforwarded.entered
    rw [hslot rfl]
    exact ⟨sized_of_accepted hentered.accepted, CString.length_truncate_le _ _, hpos, hle⟩

theorem entryFits_new {server : DrServer} {d : Datagram} {request : DrPendingRequest}
    {patches : DrTtlPatchList} {minTtl : UInt32} (h : Cacheable server d request patches minTtl)
    (nowMs tick : UInt64) : EntryFits (newEntry request.qname request.qtype request.qclass d.packet
      patches minTtl nowMs tick) := by
  obtain ⟨responseQuery, hauthentic⟩ := h.authentic
  obtain ⟨records, hwalk, hitems, _⟩ := (drDnsCollectTtls_sat d.packet).of_eq_ok h.collected
  obtain ⟨hplace, hapart⟩ := hwalk.patches
  rw [← hitems] at hplace hapart
  exact ⟨⟨hauthentic.answers.header, d.received_le⟩, CString.length_truncate_le _ _,
    fun p hp => ⟨(hplace p hp).1, (hplace p hp).2.1⟩, hapart⟩

theorem SlotsFit.step {server : DrServer} (h : SlotsFit server) (e : Event) :
    SlotsFit (Relay.step server e).1 where
  requests _ hactive := requestFits_step h e hactive
  entries entry hentry := by
    rcases step_occupied hentry with ⟨old, hold, _, rfl⟩ | ⟨_, _, _, _, _, _, _, hcacheable, rfl⟩
    · have hfits := h.entries old hold
      exact ⟨hfits.packet, hfits.qname, hfits.patches, hfits.apart⟩
    · exact entryFits_new hcacheable _ _

/-- In every run each array keeps within its size: what a pending request and a cached response hold
fits, each patch of a TTL lies inside its packet, and each packet that is sent has a header and at
most 512 octets. -/
theorem arrays_in_bounds (timeoutMs : UInt32) (upstream : Sockaddr) (table : DrLocalTable)
    (capacity : Nat) (run : Nat → Event) (n : Nat) :
    let start := drServerStart timeoutMs upstream table capacity
    SlotsFit (stateAt step start run n) ∧ ∀ s ∈ outputAt step start run n, Sized s.packet := by
  intro start
  have hfresh : Fresh start := fresh_start timeoutMs upstream table capacity
  have hstart : SlotsFit start := by
    constructor
    · intro id hactive
      cases hactive
    · intro entry hentry
      rw [hfresh.cached] at hentry
      cases hentry
  have hfits : SlotsFit (stateAt step start run n) :=
    stateAt_invariant (P := SlotsFit) (fun _ e h => h.step e) hstart run n
  exact ⟨hfits, fun s hs => sized_of_mem hfits hs⟩

end DnsRelay.Relay
