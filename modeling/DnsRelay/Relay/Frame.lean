import DnsRelay.Relay.Outcomes
import DnsRelay.Store.CacheInvariant

/-!
# What a datagram leaves alone

Whether a datagram touches a pending request or stores a response depends on it being
authentic. Everything else it can do is to add a request, clear what has expired or
move a tick. The statements hold in any state, so in particular in those a run reaches.
-/
namespace DnsRelay.Relay

open DnsRelay.Foundation
open DnsRelay.Wire
open DnsRelay.Store

/-- From the upstream address, a response, and matching the request pending under its ID. -/
structure Authentic (server : DrServer) (d : Datagram) (request : DrPendingRequest)
    (responseQuery : DrParsedQuery) : Prop where
  source : drSockaddrEqual d.src server.upstreamAddr = true
  response : u16At d.packet 2 &&& 0x8000 ≠ 0
  answers : Matches server.pendingMap d.packet request responseQuery

theorem isUpstreamResponse_iff (server : DrServer) (d : Datagram) :
    isUpstreamResponse server d = true ↔ DR_DNS_HEADER_SIZE ≤ d.packet.length ∧
      u16At d.packet 2 &&& 0x8000 ≠ 0 ∧ drSockaddrEqual d.src server.upstreamAddr = true := by
  simp [isUpstreamResponse, drDnsIsResponse, and_assoc]

/-- The ways a datagram can be received. -/
theorem receive_outcome (server : DrServer) (d : Datagram) (nowMs : UInt64) (sent : Bool) :
    (isUpstreamResponse server d = true ∧
        UpstreamOutcome server d.packet nowMs sent (receive server d nowMs sent)) ∨
      (isUpstreamResponse server d = false ∧
        ClientOutcome server d.packet d.src nowMs sent (receive server d nowMs sent)) := by
  rw [receive]
  cases hdispatch : isUpstreamResponse server d with
  | true => exact Or.inl ⟨rfl, handleUpstreamPacket_outcome server d.packet nowMs sent⟩
  | false => exact Or.inr ⟨rfl, handleClientPacket_outcome server d.packet d.src nowMs sent⟩

/-- An accepted query reaches the local table, wherever it comes from. -/
theorem receive_of_accepted {d : Datagram} {parsed : DrParsedQuery} (h : Accepted d.packet parsed)
    (server : DrServer) (nowMs : UInt64) (sent : Bool) :
    receive server d nowMs sent = handleQuery server d.packet parsed d.src nowMs sent := by
  have hdispatch : ¬ isUpstreamResponse server d = true :=
    fun hup => ((isUpstreamResponse_iff server d).mp hup).2.1 h.query
  obtain ⟨labels, jumps, extent, hparsed⟩ := parsedAs_of_ok h.parses
  have hheader := h.header
  rw [receive, if_neg hdispatch, handleClientPacket, drDnsParseHeader_eq, if_neg (by omega)]
  dsimp only [headerAt]
  rw [if_neg (not_not.mpr h.query), if_neg (not_not.mpr hparsed.qdcount),
    if_neg (not_not.mpr h.opcode), h.parses]

/-- A client datagram stores nothing in the cache and touches no active request. -/
theorem ClientOutcome.frame {server : DrServer} {packet : Bytes} {clientAddr : Sockaddr}
    {nowMs : UInt64} {sent : Bool} {r : DrServer × List Send}
    (h : ClientOutcome server packet clientAddr nowMs sent r) :
    (r.1.pendingMap = server.pendingMap ∨
      ∃ id, (server.pendingMap.slots id).active = false ∧
        ∀ k, k ≠ id → r.1.pendingMap.slots k = server.pendingMap.slots k) ∧
    List.Forall₂ (SlotKept nowMs) server.cache.entries r.1.cache.entries := by
  have hsame : List.Forall₂ (SlotKept nowMs) server.cache.entries server.cache.entries :=
    List.forall₂_same.mpr (fun e _ => Or.inl rfl)
  have hlookup {parsed : DrParsedQuery} {cache : DrCache} {answer : Option Bytes}
      (heq : drCacheLookup server.cache (cstr parsed.qname) parsed.qtype parsed.qclass nowMs
        parsed.id = (cache, answer)) :
      List.Forall₂ (SlotKept nowMs) server.cache.entries cache.entries := by
    have hslots := drCacheLookup_slots server.cache (cstr parsed.qname) parsed.qtype parsed.qclass
      nowMs parsed.id
    rwa [heq] at hslots
  cases h with
  | ignored => exact ⟨Or.inl rfl, hsame⟩
  | rejected => exact ⟨Or.inl rfl, hsame⟩
  | fromTable => exact ⟨Or.inl rfl, hsame⟩
  | cached _ _ hhit => exact ⟨Or.inl rfl, hlookup hhit⟩
  | refused _ _ hmiss => exact ⟨Or.inl rfl, hlookup hmiss⟩
  | forwarded _ _ hmiss _ hfree =>
    exact ⟨Or.inr ⟨_, hfree, fun k hk => slots_fill_of_ne _ _ hk⟩, hlookup hmiss⟩
  | unsent _ _ hmiss _ hfree =>
    refine ⟨Or.inr ⟨_, hfree, fun k hk => ?_⟩, hlookup hmiss⟩
    exact (slots_clear_of_ne _ hk).trans (slots_fill_of_ne _ _ hk)

/-- Caching the response to a request stores nothing under another key. -/
theorem maybeCacheResponse_slots (server : DrServer) (request : DrPendingRequest) (packet : Bytes)
    (nowMs : UInt64) (hname : request.qname.octets.length ≤ DR_DNS_MAX_DOMAIN_LEN) :
    List.Forall₂ (fun e e' => SlotKept nowMs e e' ∨
        e'.question = (request.qname, request.qtype, request.qclass))
      server.cache.entries (maybeCacheResponse server request packet nowMs).1.cache.entries := by
  rcases maybeCacheResponse_cases server request packet nowMs with
    heq | ⟨patches, minTtl, _, _, _, _, heq⟩ <;> rw [heq]
  · exact List.forall₂_same.mpr (fun e _ => Or.inl (Or.inl rfl))
  · refine (drCachePut_slots server.cache request.qname request.qtype request.qclass packet patches
      minTtl nowMs).imp ?_
    intro e e' hslot
    rcases hslot with hkept | rfl
    · exact Or.inl hkept
    · exact Or.inr (question_newEntry hname)

theorem maybeCacheResponse_pendingMap (server : DrServer) (request : DrPendingRequest)
    (packet : Bytes) (nowMs : UInt64) :
    (maybeCacheResponse server request packet nowMs).1.pendingMap = server.pendingMap := by
  rcases maybeCacheResponse_cases server request packet nowMs with heq | ⟨_, _, _, _, _, _, heq⟩ <;>
    rw [heq]

theorem ClientOutcome.eq_of_response {server : DrServer} {packet : Bytes} {clientAddr : Sockaddr}
    {nowMs : UInt64} {sent : Bool} {r : DrServer × List Send}
    (h : ClientOutcome server packet clientAddr nowMs sent r)
    (hresponse : u16At packet 2 &&& 0x8000 ≠ 0 ∨ packet.length < DR_DNS_HEADER_SIZE) :
    r = (server, []) := by
  have haccepted {parsed : DrParsedQuery} (h : Accepted packet parsed) : False := by
    have hheader := h.header
    rcases hresponse with hqr | hshort
    · exact hqr h.query
    · omega
  cases h with
  | ignored => rfl
  | rejected hheader hquery =>
    rcases hresponse with hqr | hshort
    · exact absurd hquery hqr
    · omega
  | fromTable h => exact (haccepted h).elim
  | cached h => exact (haccepted h).elim
  | refused h => exact (haccepted h).elim
  | forwarded h => exact (haccepted h).elim
  | unsent h => exact (haccepted h).elim

/-- Authentic datagrams are dispatched to `handle_upstream_packet`. -/
theorem Authentic.dispatched {server : DrServer} {d : Datagram} {request : DrPendingRequest}
    {responseQuery : DrParsedQuery} (h : Authentic server d request responseQuery) :
    isUpstreamResponse server d = true :=
  (isUpstreamResponse_iff server d).mpr ⟨h.answers.header, h.response, h.source⟩

/-- What is received without being authentic is ignored by `handle_upstream_packet` or handled as a
client's. -/
theorem receive_of_not_authentic {server : DrServer} {d : Datagram}
    (hnot : ∀ request responseQuery, ¬ Authentic server d request responseQuery) (nowMs : UInt64)
    (sent : Bool) :
    receive server d nowMs sent = (server, []) ∨
      ClientOutcome server d.packet d.src nowMs sent (receive server d nowMs sent) := by
  rcases receive_outcome server d nowMs sent with ⟨hdispatch, houtcome⟩ | ⟨_, houtcome⟩
  · obtain ⟨_, hresponse, hsource⟩ := (isUpstreamResponse_iff server d).mp hdispatch
    generalize receive server d nowMs sent = r at houtcome
    cases houtcome with
    | ignored => exact Or.inl rfl
    | relayed hmatches => exact absurd ⟨hsource, hresponse, hmatches⟩ (hnot _ _)
  · exact Or.inr houtcome

theorem active_kept_of_not_authentic {server : DrServer} {d : Datagram}
    (hnot : ∀ request responseQuery, ¬ Authentic server d request responseQuery) (nowMs : UInt64)
    (sent : Bool) {k : UInt16} (hk : (server.pendingMap.slots k).active = true) :
    (receive server d nowMs sent).1.pendingMap.slots k = server.pendingMap.slots k := by
  rcases receive_of_not_authentic hnot nowMs sent with heq | houtcome
  · rw [heq]
  · rcases houtcome.frame.1 with heq | ⟨id, hfree, hothers⟩
    · rw [heq]
    · apply hothers k
      intro heq
      subst heq
      rw [hfree] at hk
      cases hk

/-- An authentic datagram ends the pending request it answers. -/
theorem receive_of_authentic {server : DrServer} {d : Datagram} {request : DrPendingRequest}
    {responseQuery : DrParsedQuery} (h : Authentic server d request responseQuery) (nowMs : UInt64)
    (sent : Bool) :
    receive server d nowMs sent =
      ((maybeCacheResponse (withoutPending server (drDnsReadId d.packet)) request d.packet nowMs).1,
        [{ cause := .relay (drDnsReadId d.packet), packet := drDnsWriteId d.packet request.clientId,
           dst := request.clientAddr, sent }]) := by
  rcases receive_outcome server d nowMs sent with ⟨_, houtcome⟩ | ⟨hdispatch, _⟩
  · generalize receive server d nowMs sent = r at houtcome
    cases houtcome with
    | ignored hnone => exact absurd h.answers (hnone _ _)
    | relayed hmatches =>
      cases hmatches.pending.symm.trans h.answers.pending
      rfl
  · rw [h.dispatched] at hdispatch
    cases hdispatch

/-- A relay that waits for the answer of 8.8.8.8 to a query for the root name. -/
def waitingServer : DrServer :=
  { drServerStart 5000 [2, 0, 0, 53, 8, 8, 8, 8] .zero 1 with
    pendingMap := drPendingMapInit.fill rootQuery 1 }

/-- The answer, from any address. -/
def rootReply (src : Sockaddr) : Datagram where
  src := src
  packet := [0, 1, 0x80, 0, 0, 1, 0, 0, 0, 0, 0, 0, 0, 0, 1, 0, 1]
  received_pos := by decide
  received_le := by decide

end DnsRelay.Relay
