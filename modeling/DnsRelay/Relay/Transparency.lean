import DnsRelay.Relay.Steps
import DnsRelay.Wire.IdRewrite

/-!
# Datagrams of any length

`recvfrom` cuts a datagram to the buffer it is given, and the relay takes what it gets
for the datagram. What it passes on is what it got under another ID, so a datagram
longer than the buffer leaves it without its end.
-/
namespace DnsRelay.Relay

open DnsRelay.Foundation
open DnsRelay.Wire
open DnsRelay.Store

/-- `recvfrom` with a buffer of `DR_DNS_MAX_PACKET_SIZE` octets, as POSIX has it for a UDP socket. -/
def recvfrom (src : Sockaddr) (raw : Bytes) : Option Datagram :=
  if h : 0 < raw.length then
    some {
      src := src
      packet := raw.take DR_DNS_MAX_PACKET_SIZE
      received_pos := by
        rw [List.length_take]
        exact Nat.lt_min.mpr ⟨by decide, h⟩
      received_le := List.length_take_le _ _ }
  else none

/-- The main loop behind `select`, when a datagram of any length has arrived. -/
def arrive (server : DrServer) (src : Sockaddr) (raw : Bytes) (nowMs : UInt64) (sent : Bool) :
    DrServer × List Send :=
  match recvfrom src raw with
  | none => (server, [])
  | some d => receive server d nowMs sent

/-- A packet on its way from one side to the other, not made by the relay itself. -/
def Send.passedOn (s : Send) : Bool :=
  match s.cause with
  | .forward _ => true
  | .relay _ => true
  | _ => false

/-- The TC bit. -/
def Truncated (packet : Bytes) : Prop := u16At packet 2 &&& 0x0200 ≠ 0

/-- What is passed on is the whole datagram except for its ID, or says that it is not. -/
def PassedWhole (raw : Bytes) (sends : List Send) : Prop :=
  ∀ s ∈ sends, s.passedOn = true →
    AgreeFrom 2 raw s.packet ∨ (DR_DNS_MAX_PACKET_SIZE < raw.length ∧ Truncated s.packet)

/-- A response to a pending request, or a query that neither the local table nor the cache answers
while an ID is free. -/
def PassesOn (server : DrServer) (d : Datagram) (nowMs : UInt64) : Prop :=
  (∃ request responseQuery, Authentic server d request responseQuery) ∨
    ∃ parsed, Accepted d.packet parsed ∧
      ¬ Reserved server.localTable (cstr parsed.qname, parsed.qtype, parsed.qclass) ∧
      (∀ e ∈ server.cache.entries,
        e.hits (cstr parsed.qname) parsed.qtype parsed.qclass nowMs = false) ∧
      (pendingQuery d.packet parsed d.src nowMs).Valid ∧
      ∃ id, id ≠ 0 ∧ (server.pendingMap.slots id).active = false

/-- A query that misses table and cache is entered or refused. -/
theorem receive_of_unanswered {server : DrServer} {d : Datagram} {parsed : DrParsedQuery}
    {nowMs : UInt64} (h : Accepted d.packet parsed)
    (hremote : ¬ Reserved server.localTable (cstr parsed.qname, parsed.qtype, parsed.qclass))
    (hmiss : ∀ e ∈ server.cache.entries,
      e.hits (cstr parsed.qname) parsed.qtype parsed.qclass nowMs = false) (sent : Bool) :
    ∃ cache, receive server d nowMs sent =
      forwardQuery { server with cache } d.packet parsed d.src nowMs sent := by
  rcases drCacheLookup_cases server.cache (cstr parsed.qname) parsed.qtype parsed.qclass nowMs
    parsed.id with ⟨heq, _⟩ | ⟨pre, m, suf, hsplit, hm, _, _⟩
  · exact ⟨_, receive_of_miss h hremote heq sent⟩
  · rw [hmiss m (by rw [hsplit]; simp)] at hm
    cases hm

/-- What is passed on carries the octets received, and was due to be passed on. -/
theorem passesOn_of_send {server : DrServer} {d : Datagram} {nowMs : UInt64} {sent : Bool} {s : Send}
    (hs : s ∈ (receive server d nowMs sent).2) (hpassed : s.passedOn = true) :
    PassesOn server d nowMs ∧ ∃ id, s.packet = drDnsWriteId d.packet id := by
  have hanswer : s.cause ≠ .answer := by
    intro hcause
    rw [Send.passedOn, hcause] at hpassed
    cases hpassed
  rcases receive_outcome server d nowMs sent with ⟨hdispatch, houtcome⟩ | ⟨_, houtcome⟩
  · obtain ⟨_, hresponse, hsource⟩ := (isUpstreamResponse_iff server d).mp hdispatch
    generalize receive server d nowMs sent = r at hs houtcome
    cases houtcome with
    | ignored => cases hs
    | relayed hmatches =>
      rw [List.mem_singleton.mp hs]
      exact ⟨Or.inl ⟨_, _, hsource, hresponse, hmatches⟩, _, rfl⟩
  · rcases houtcome.forwarded_or_answered with ⟨id, hforwarded⟩ | hanswers
    · have hpacket : ∃ id, s.packet = drDnsWriteId d.packet id := by
        rw [hforwarded.sends, List.mem_singleton] at hs
        exact ⟨id, by rw [hs]⟩
      obtain ⟨parsed, hentered, _⟩ := hforwarded.entered
      have hmiss : ∀ e ∈ server.cache.entries,
          e.hits (cstr parsed.qname) parsed.qtype parsed.qclass nowMs = false := by
        rcases drCacheLookup_cases server.cache (cstr parsed.qname) parsed.qtype parsed.qclass nowMs
          parsed.id with ⟨_, hnone⟩ | ⟨_, _, _, _, _, _, heq⟩
        · exact hnone
        · rw [receive_of_hit hentered.accepted hentered.remote heq sent, List.mem_singleton] at hs
          exact absurd (by rw [hs]) hanswer
      obtain ⟨cache, heq⟩ := receive_of_unanswered hentered.accepted hentered.remote hmiss sent
      have hvalid : (pendingQuery d.packet parsed d.src nowMs).Valid := by
        by_contra hinvalid
        rw [heq, forwardQuery, drPendingMapInsert_of_invalid _ hinvalid] at hs
        exact hanswer (mem_respondWithError hs).1
      exact ⟨Or.inr ⟨parsed, hentered.accepted, hentered.remote, hmiss, hvalid, id, hentered.id_ne,
        hentered.free⟩, hpacket⟩
    · exact absurd (hanswers s hs) hanswer

/-- What is due to be passed on is passed on. -/
theorem exists_send_of_passesOn {server : DrServer} {d : Datagram} {nowMs : UInt64}
    (h : PassesOn server d nowMs) (sent : Bool) :
    ∃ s ∈ (receive server d nowMs sent).2, s.passedOn = true := by
  rcases h with ⟨request, responseQuery, hauthentic⟩ | ⟨parsed, haccepted, hremote, hmiss, hvalid, hfree⟩
  · rw [receive_of_authentic hauthentic]
    exact ⟨_, List.mem_singleton_self _, rfl⟩
  · obtain ⟨cache, heq⟩ := receive_of_unanswered haccepted hremote hmiss sent
    rw [heq, forwardQuery]
    dsimp only
    rcases drPendingMapInsert_cases server.pendingMap (pendingQuery d.packet parsed d.src nowMs) with
      hrefused | ⟨id, _, _, hinserted⟩
    · have hnone : (drPendingMapInsert server.pendingMap
          (pendingQuery d.packet parsed d.src nowMs)).2 = none := by rw [hrefused]
      obtain ⟨id, hid, hidle⟩ := hfree
      rw [(drPendingMapInsert_eq_none_iff hvalid).mp hnone id hid] at hidle
      cases hidle
    · rw [hinserted]
      dsimp only
      split
      · exact ⟨_, List.mem_singleton_self _, rfl⟩
      · exact ⟨_, List.mem_singleton_self _, rfl⟩

/-- The cut is behind the flags. -/
theorem truncated_take (raw : Bytes) : Truncated (raw.take DR_DNS_MAX_PACKET_SIZE) ↔ Truncated raw := by
  have hoctet (i : Nat) (hi : i < DR_DNS_MAX_PACKET_SIZE) :
      octet (raw.take DR_DNS_MAX_PACKET_SIZE) i = octet raw i := by
    rw [octet, octet, List.getD_eq_getElem?_getD, List.getElem?_take_of_lt hi,
      ← List.getD_eq_getElem?_getD]
  rw [Truncated, Truncated, u16At_congr (hoctet 2 (by decide)) (hoctet 3 (by decide))]

theorem truncated_writeId (packet : Bytes) (id : UInt16) :
    Truncated (drDnsWriteId packet id) ↔ Truncated packet := by
  rw [Truncated, Truncated, u16At_congr (octet_drDnsWriteId (Nat.le_refl 2))
    (octet_drDnsWriteId (by omega))]

/-- What is passed on of a datagram is whole exactly when the datagram fits the buffer, has the TC bit
set already, or is one the relay does not pass on. -/
theorem passed_whole_iff (server : DrServer) (src : Sockaddr) (raw : Bytes) (nowMs : UInt64)
    (sent : Bool) :
    PassedWhole raw (arrive server src raw nowMs sent).2 ↔
      raw.length ≤ DR_DNS_MAX_PACKET_SIZE ∨ Truncated raw ∨
        ∀ d, recvfrom src raw = some d → ¬ PassesOn server d nowMs := by
  rw [arrive]
  by_cases hempty : 0 < raw.length
  case neg =>
    have hnone : recvfrom src raw = none := dif_neg hempty
    rw [hnone]
    refine iff_of_true (fun s hs => by cases hs) (Or.inl ?_)
    simp only [DR_DNS_MAX_PACKET_SIZE]
    omega
  obtain ⟨d, hd, hpacket⟩ : ∃ d, recvfrom src raw = some d ∧
      d.packet = raw.take DR_DNS_MAX_PACKET_SIZE := ⟨_, dif_pos hempty, rfl⟩
  rw [hd]
  simp only [Option.some.injEq, forall_eq']
  constructor
  · intro h
    by_contra hnot
    simp only [not_or, not_not, Nat.not_le] at hnot
    obtain ⟨hlong, htc, hpasses⟩ := hnot
    obtain ⟨s, hs, hpassed⟩ := exists_send_of_passesOn hpasses sent
    obtain ⟨_, id, hcopy⟩ := passesOn_of_send hs hpassed
    rw [hpacket] at hcopy
    rcases h s hs hpassed with hwhole | ⟨_, hmarked⟩
    · have hlength := hwhole.length
      rw [hcopy, length_drDnsWriteId, List.length_take] at hlength
      omega
    · rw [hcopy, truncated_writeId, truncated_take] at hmarked
      exact htc hmarked
  · intro h s hs hpassed
    obtain ⟨hpasses, id, hcopy⟩ := passesOn_of_send hs hpassed
    by_cases hfits : raw.length ≤ DR_DNS_MAX_PACKET_SIZE
    · rw [hpacket, List.take_of_length_le hfits] at hcopy
      rw [hcopy]
      exact Or.inl (agreeFrom_writeId raw id)
    · rcases h with hshort | htc | hnot
      · exact absurd hshort hfits
      · rw [hcopy, hpacket, truncated_writeId, truncated_take]
        exact Or.inr ⟨Nat.lt_of_not_le hfits, htc⟩
      · exact absurd hpasses hnot

/-- The query of 10.0.0.9 for the root name. -/
def rootClient : Datagram where
  src := rootQuery.clientAddr
  packet := rootQuery.queryPacket
  received_pos := by decide
  received_le := by decide

/-- A TXT record for the root name in a response of 513 octets. -/
def longReply : Bytes :=
  [0, 1, 0x81, 0x80, 0, 1, 0, 1, 0, 0, 0, 0, 0, 0, 1, 0, 1,
    0, 0, 16, 0, 1, 0, 0, 0, 60, 1, 0xe5] ++
    255 :: List.replicate 255 0x61 ++ 228 :: List.replicate 228 0x61

/-- It reaches the client without its last octet, and nothing in it says so. -/
theorem longReply_cut :
    let server := (receive (drServerStart 5000 [2, 0, 0, 53, 8, 8, 8, 8] .zero 1) rootClient 0 true).1
    longReply.length = 513 ∧ recvfrom [2, 0, 0, 53, 8, 8, 8, 8] longReply ≠ none ∧
      ¬ PassedWhole longReply (arrive server [2, 0, 0, 53, 8, 8, 8, 8] longReply 9 true).2 ∧
      (arrive server [2, 0, 0, 53, 8, 8, 8, 8] longReply 9 true).2.map
          (fun s => (s.cause, s.packet.length, u16At s.packet 2)) = [(.relay 1, 512, 0x8180)] := by
  intro server
  have hsends : (arrive server [2, 0, 0, 53, 8, 8, 8, 8] longReply 9 true).2.map
      (fun s => (s.cause, s.packet.length, u16At s.packet 2)) = [(.relay 1, 512, 0x8180)] := by
    decide +kernel
  refine ⟨by decide +kernel, by decide +kernel, ?_, hsends⟩
  intro hwhole
  obtain ⟨s, hs⟩ := List.map_eq_singleton_iff.mp hsends
  obtain ⟨heq, hfields⟩ := hs
  rw [Prod.mk.injEq, Prod.mk.injEq] at hfields
  obtain ⟨hcause, hlength, hflags⟩ := hfields
  have hpassed : s.passedOn = true := by rw [Send.passedOn, hcause]
  rcases hwhole s (by rw [heq]; exact List.mem_singleton_self s) hpassed with hagree | ⟨_, hmarked⟩
  · have hsame := hagree.length
    rw [hlength] at hsame
    exact absurd hsame (by decide +kernel)
  · rw [Truncated, hflags] at hmarked
    exact hmarked (by decide)

end DnsRelay.Relay
