import DnsRelay.Relay.Replies
import DnsRelay.Relay.Steps

/-!
# The local table comes first

No question that the local table answers by itself is ever forwarded, so none is ever
cached: a key enters the pending map from a query the table passed on, and the cache
only through the pending map. The queries themselves are answered without looking at
either store.
-/
namespace DnsRelay.Relay

open DnsRelay.Foundation
open DnsRelay.Wire
open DnsRelay.Store

/-- No question the local table answers is pending or cached. -/
structure LocalInv (server : DrServer) : Prop where
  pending : ∀ id, (server.pendingMap.slots id).active = true →
    ¬ Reserved server.localTable ((server.pendingMap.slots id).qname,
      (server.pendingMap.slots id).qtype, (server.pendingMap.slots id).qclass)
  cached : ∀ e ∈ occupied server.cache.entries, ¬ Reserved server.localTable e.question

theorem localInv_start (timeoutMs : UInt32) (upstream : Sockaddr) (table : DrLocalTable)
    (capacity : Nat) : LocalInv (drServerStart timeoutMs upstream table capacity) where
  pending id h := by cases h
  cached e he := by
    rw [drServerStart, occupied_init] at he
    cases he

theorem LocalInv.step {server : DrServer} (h : LocalInv server) (e : Event) :
    LocalInv (step server e).1 where
  pending id hactive := by
    rw [(step_settings server e).table]
    rcases step_active hactive with ⟨hbefore, hslot⟩ | ⟨d, nowMs, _, hforwarded⟩
    · rw [hslot]
      exact h.pending id hbefore
    · obtain ⟨parsed, hentered, hslot⟩ := hforwarded.entered
      rw [hslot rfl, PendingQuery.request, pendingQuery,
        CString.truncate_of_le (length_cstr_qname hentered.accepted.parses)]
      exact hentered.remote
  cached entry hentry := by
    rw [(step_settings server e).table]
    rcases step_occupied hentry with
      ⟨old, hold, tick, rfl⟩ | ⟨d, nowMs, sent, request, patches, minTtl, _, hcacheable, rfl⟩
    · exact h.cached old hold
    · obtain ⟨responseQuery, hauthentic⟩ := hcacheable.authentic
      obtain ⟨hactive, hslot⟩ := drPendingMapGet_eq_some.mp hauthentic.answers.pending
      have hpending := h.pending _ hactive
      rw [hslot] at hpending
      rw [question_newEntry hauthentic.answers.qname_le]
      exact hpending

theorem localInv_stateAt (timeoutMs : UInt32) (upstream : Sockaddr) (table : DrLocalTable)
    (capacity : Nat) (run : Nat → Event) (n : Nat) :
    LocalInv (stateAt step (drServerStart timeoutMs upstream table capacity) run n) :=
  stateAt_invariant (fun _ e h => h.step e) (localInv_start timeoutMs upstream table capacity) run n

/-- A query the local table answers ends there. -/
theorem receive_of_reserved {server : DrServer} {d : Datagram} {parsed : DrParsedQuery}
    (h : Accepted d.packet parsed)
    (hreserved : Reserved server.localTable (cstr parsed.qname, parsed.qtype, parsed.qclass))
    (nowMs : UInt64) (sent : Bool) :
    (receive server d nowMs sent).1 = server ∧
      answerFromTable server d.packet parsed d.src sent = some (receive server d nowMs sent).2 := by
  rw [receive_of_accepted h, handleQuery]
  cases htable : answerFromTable server d.packet parsed d.src sent with
  | none => exact absurd hreserved (answerFromTable_eq_none_iff.mp htable)
  | some sends => exact ⟨rfl, rfl⟩

/-- In every reachable state neither store holds a question the local table answers. A blocked query
gets nothing but NXDOMAIN, an A query for a listed name nothing but the listed address, and both
leave the relay as it was. -/
theorem local_table_prevails (timeoutMs : UInt32) (upstream : Sockaddr) (table : DrLocalTable)
    (capacity : Nat) (run : Nat → Event) (n : Nat) :
    let server := stateAt step (drServerStart timeoutMs upstream table capacity) run n
    (∀ id, (server.pendingMap.slots id).active = true →
      ¬ Reserved table ((server.pendingMap.slots id).qname, (server.pendingMap.slots id).qtype,
        (server.pendingMap.slots id).qclass)) ∧
    (∀ e ∈ server.cache.entries, e.inUse = true → ¬ Reserved table (e.qname, e.qtype, e.qclass)) ∧
    ∀ d nowMs sent parsed, Accepted d.packet parsed → parsed.qclass = 1 →
      ((drLocalTableLookup table (cstr parsed.qname)).kind = .blocked →
        (receive server d nowMs sent).1 = server ∧
        ∀ s ∈ (receive server d nowMs sent).2, s.cause = .answer ∧ s.dst = d.src ∧
          ErrorResponseTo d.packet DR_DNS_RCODE_NXDOMAIN s.packet) ∧
      (parsed.qtype = 1 → (drLocalTableLookup table (cstr parsed.qname)).kind = .hit →
        (receive server d nowMs sent).1 = server ∧
        ∀ s ∈ (receive server d nowMs sent).2, s.cause = .answer ∧ s.dst = d.src ∧
          ∃ labels, s.packet = headerBytes (answerHeader parsed) ++
            questionBytes labels parsed.qtype parsed.qclass ++
            answerBytes (drLocalTableLookup table (cstr parsed.qname)).ttl
              (drLocalTableLookup table (cstr parsed.qname)).ipv4Be) := by
  intro server
  have hinv := localInv_stateAt timeoutMs upstream table capacity run n
  have htable : server.localTable = table :=
    (settings_stateAt (drServerStart timeoutMs upstream table capacity) run n).table
  change LocalInv server at hinv
  refine ⟨fun id hactive => ?_, fun e he huse => ?_, fun d nowMs sent parsed h hclass =>
    ⟨fun hblocked => ?_, fun htype hhit => ?_⟩⟩
  · rw [← htable]
    exact hinv.pending id hactive
  · rw [← htable]
    exact hinv.cached e (mem_occupied.mpr ⟨he, huse⟩)
  · have hreserved : Reserved server.localTable (cstr parsed.qname, parsed.qtype, parsed.qclass) := by
      rw [htable]
      exact ⟨hclass, Or.inl hblocked⟩
    obtain ⟨hsame, hsends⟩ := receive_of_reserved h hreserved nowMs sent
    refine ⟨hsame, fun s hs => ?_⟩
    rw [answerFromTable, if_pos hclass, htable] at hsends
    dsimp only at hsends
    rw [if_pos hblocked] at hsends
    rw [← Option.some.inj hsends] at hs
    obtain ⟨hcause, hdst, _, herror⟩ := mem_respondWithError hs
    exact ⟨hcause, hdst, herror⟩
  · have hreserved : Reserved server.localTable (cstr parsed.qname, parsed.qtype, parsed.qclass) := by
      rw [htable]
      exact ⟨hclass, Or.inr ⟨htype, hhit⟩⟩
    obtain ⟨hsame, hsends⟩ := receive_of_reserved h hreserved nowMs sent
    refine ⟨hsame, fun s hs => ?_⟩
    rw [answerFromTable, if_pos hclass, htable] at hsends
    dsimp only at hsends
    rw [if_neg (by rw [hhit]; decide), if_pos ⟨htype, hhit⟩] at hsends
    rw [← Option.some.inj hsends] at hs
    obtain ⟨hcause, hdst, labels, hpacket⟩ := mem_sendLocal hs
    exact ⟨hcause, hdst, labels, hpacket.trans (List.append_assoc ..).symm⟩

/-- A table of one slot that blocks the name a. -/
def blockingTable : DrLocalTable where
  entries := [{ domain := some (cstr [0x61]), ipv4Be := Ipv4Be.zero, inUse := true }]
  size := 1
  localTtl := 60

/-- A query for the IPv6 address of the blocked name. -/
def blockedQuery : Datagram where
  src := [2, 0, 0x30, 0x39, 10, 0, 0, 9]
  packet := [0, 7, 1, 0, 0, 1, 0, 0, 0, 0, 0, 0, 1, 0x61, 0, 0, 28, 0, 1]
  received_pos := by decide
  received_le := by decide

theorem local_table_prevails_blockedQuery :
    (receive (drServerStart 5000 [] blockingTable 1) blockedQuery 9 true).2.length = 1 ∧
      ∀ s ∈ (receive (drServerStart 5000 [] blockingTable 1) blockedQuery 9 true).2,
        s.cause = .answer ∧ s.dst = blockedQuery.src ∧
          ErrorResponseTo blockedQuery.packet DR_DNS_RCODE_NXDOMAIN s.packet := by
  have haccepted : Accepted blockedQuery.packet
      ⟨7, 0x0100, 28, 1, 0, 0, 0x61 :: List.replicate 255 0, 19⟩ :=
    ⟨by decide +kernel, by decide +kernel, by decide +kernel⟩
  exact ⟨by decide +kernel, (((local_table_prevails 5000 [] blockingTable 1
    (fun _ => .tick 0 (fun _ => true)) 0).2.2 blockedQuery 9 true _ haccepted rfl).1
      (by decide +kernel)).2⟩

end DnsRelay.Relay
