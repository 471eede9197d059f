import DnsRelay.Relay.Frame
import DnsRelay.Relay.Replies
import DnsRelay.Relay.Timeouts

/-!
# Steps of the relay

What any event can have done, seen from the state behind it: a request that is active
was active before or has just been entered, and a response in the cache was there
before or has just been stored. Invariants over runs follow by one case each.
-/
namespace DnsRelay.Relay

open DnsRelay.Foundation
open DnsRelay.Wire
open DnsRelay.Store

/-- The settings that no step changes. -/
structure SameSettings (server server' : DrServer) : Prop where
  timeout : server'.upstreamTimeoutMs = server.upstreamTimeoutMs
  upstream : server'.upstreamAddr = server.upstreamAddr
  table : server'.localTable = server.localTable

theorem maybeCacheResponse_settings (server : DrServer) (request : DrPendingRequest) (packet : Bytes)
    (nowMs : UInt64) : SameSettings server (maybeCacheResponse server request packet nowMs).1 := by
  rcases maybeCacheResponse_cases server request packet nowMs with heq | ⟨_, _, _, _, _, _, heq⟩ <;>
    rw [heq] <;> exact ⟨rfl, rfl, rfl⟩

theorem step_settings (server : DrServer) (e : Event) : SameSettings server (step server e).1 := by
  cases e with
  | tick nowMs sent => exact ⟨rfl, rfl, rfl⟩
  | datagram d nowMs sent =>
    rw [step]
    rcases receive_outcome server d nowMs sent with ⟨_, houtcome⟩ | ⟨_, houtcome⟩
    · generalize receive server d nowMs sent = r at houtcome
      cases houtcome with
      | ignored => exact ⟨rfl, rfl, rfl⟩
      | relayed =>
        obtain ⟨htimeout, hupstream, htable⟩ := maybeCacheResponse_settings
          (withoutPending server (drDnsReadId d.packet)) _ d.packet nowMs
        exact ⟨htimeout, hupstream, htable⟩
    · generalize receive server d nowMs sent = r at houtcome
      cases houtcome <;> exact ⟨rfl, rfl, rfl⟩

theorem settings_stateAt (start : DrServer) (run : Nat → Event) (n : Nat) :
    SameSettings start (stateAt step start run n) := by
  apply stateAt_invariant (P := SameSettings start) _ ⟨rfl, rfl, rfl⟩
  intro server e h
  obtain ⟨htimeout, hupstream, htable⟩ := step_settings server e
  exact ⟨htimeout.trans h.timeout, hupstream.trans h.upstream, htable.trans h.table⟩

/-- A question of class IN the local table answers by itself. -/
def Reserved (table : DrLocalTable) (question : Question) : Prop :=
  question.2.2 = 1 ∧ ((drLocalTableLookup table question.1).kind = .blocked ∨
    question.2.1 = 1 ∧ (drLocalTableLookup table question.1).kind = .hit)

theorem answerFromTable_eq_none_iff {server : DrServer} {packet : Bytes} {parsed : DrParsedQuery}
    {clientAddr : Sockaddr} {sent : Bool} :
    answerFromTable server packet parsed clientAddr sent = none ↔
      ¬ Reserved server.localTable (cstr parsed.qname, parsed.qtype, parsed.qclass) := by
  rw [answerFromTable, Reserved]
  dsimp only
  by_cases hclass : parsed.qclass = 1
  · rw [if_pos hclass]
    by_cases hblocked : (drLocalTableLookup server.localTable (cstr parsed.qname)).kind = .blocked
    · rw [if_pos hblocked]
      exact iff_of_false (fun h => by cases h) (fun h => h ⟨hclass, Or.inl hblocked⟩)
    · rw [if_neg hblocked]
      by_cases hhit : parsed.qtype = 1 ∧
          (drLocalTableLookup server.localTable (cstr parsed.qname)).kind = .hit
      · rw [if_pos hhit]
        exact iff_of_false (fun h => by cases h) (fun h => h ⟨hclass, Or.inr hhit⟩)
      · rw [if_neg hhit]
        exact iff_of_true rfl (fun h => h.2.elim hblocked hhit)
  · rw [if_neg hclass]
    exact iff_of_true rfl (fun h => hclass h.1)

/-- A hit on the cache changes the cache as the lookup does, and nothing else. -/
theorem receive_of_hit {server : DrServer} {d : Datagram} {parsed : DrParsedQuery}
    (h : Accepted d.packet parsed)
    (hremote : ¬ Reserved server.localTable (cstr parsed.qname, parsed.qtype, parsed.qclass))
    {nowMs : UInt64} {cache : DrCache} {answer : Bytes}
    (hhit : drCacheLookup server.cache (cstr parsed.qname) parsed.qtype parsed.qclass nowMs
      parsed.id = (cache, some answer)) (sent : Bool) :
    receive server d nowMs sent =
      ({ server with cache }, [{ cause := .answer, packet := answer, dst := d.src, sent }]) := by
  rw [receive_of_accepted h, handleQuery, answerFromTable_eq_none_iff.mpr hremote]
  dsimp only
  rw [hhit]

/-- A query that misses table and cache goes on to the forwarding section. -/
theorem receive_of_miss {server : DrServer} {d : Datagram} {parsed : DrParsedQuery}
    (h : Accepted d.packet parsed)
    (hremote : ¬ Reserved server.localTable (cstr parsed.qname, parsed.qtype, parsed.qclass))
    {nowMs : UInt64} {cache : DrCache}
    (hmiss : drCacheLookup server.cache (cstr parsed.qname) parsed.qtype parsed.qclass nowMs
      parsed.id = (cache, none)) (sent : Bool) :
    receive server d nowMs sent =
      forwardQuery { server with cache } d.packet parsed d.src nowMs sent := by
  rw [receive_of_accepted h, handleQuery, answerFromTable_eq_none_iff.mpr hremote]
  dsimp only
  rw [hmiss]

/-- A client query that is left to the upstream server, entered under a free ID. -/
structure Entered (server : DrServer) (d : Datagram) (parsed : DrParsedQuery) (id : UInt16) : Prop where
  accepted : Accepted d.packet parsed
  remote : ¬ Reserved server.localTable (cstr parsed.qname, parsed.qtype, parsed.qclass)
  id_ne : id ≠ 0
  free : (server.pendingMap.slots id).active = false

/-- A datagram whose query was entered under an ID and handed to the upstream server; it stays entered
if that worked. -/
structure Forwarded (server : DrServer) (d : Datagram) (nowMs : UInt64) (sent : Bool) (id : UInt16)
    (r : DrServer × List Send) : Prop where
  entered : ∃ parsed, Entered server d parsed id ∧ (sent = true → r.1.pendingMap.slots id =
    (pendingQuery d.packet parsed d.src nowMs).request id)
  failed : sent = false → (r.1.pendingMap.slots id).active = false
  others : ∀ k, k ≠ id → r.1.pendingMap.slots k = server.pendingMap.slots k
  sends : r.2 = [{ cause := .forward id, packet := drDnsWriteId d.packet id,
                   dst := server.upstreamAddr, sent }]

/-- A client datagram that was answered at once, or not at all. -/
structure Settled (server : DrServer) (d : Datagram) (r : DrServer × List Send) : Prop where
  pendingMap : r.1.pendingMap = server.pendingMap
  sends : ∀ s ∈ r.2, r.2 = [s] ∧ u16At d.packet 2 &&& 0x8000 = 0 ∧
    (CachedResponses server.cache → DirectAnswer d.packet d.src s)

theorem settled_of_error {server server' : DrServer} {d : Datagram} {rcode : UInt8} {sent : Bool}
    (hsame : server'.pendingMap = server.pendingMap) (hquery : u16At d.packet 2 &&& 0x8000 = 0) :
    Settled server d (server', respondWithError d.packet rcode .answer d.src sent) :=
  ⟨hsame, fun _ hs => ⟨sendBuilt_eq hs, hquery, fun _ => directAnswer_of_error hs⟩⟩

/-- A query the upstream server has to answer is forwarded once it has an ID. -/
theorem forwarded_of_inserted {server : DrServer} {d : Datagram} {parsed : DrParsedQuery}
    {cache : DrCache} {id : UInt16} {nowMs : UInt64} {sent : Bool} (h : Accepted d.packet parsed)
    (htable : answerFromTable server d.packet parsed d.src sent = none) (hne : id ≠ 0)
    (hfree : (server.pendingMap.slots id).active = false) :
    Forwarded server d nowMs sent id
      ({ server with
          cache
          pendingMap :=
            if sent then server.pendingMap.fill (pendingQuery d.packet parsed d.src nowMs) id
            else (server.pendingMap.fill (pendingQuery d.packet parsed d.src nowMs) id).clear id },
        [{ cause := .forward id, packet := drDnsWriteId d.packet id, dst := server.upstreamAddr,
           sent }]) := by
  have hentered : Entered server d parsed id :=
    ⟨h, answerFromTable_eq_none_iff.mp htable, hne, hfree⟩
  constructor
  case entered =>
    refine ⟨parsed, hentered, fun hok => ?_⟩
    dsimp only
    rw [if_pos hok]
    exact slots_fill_self _ _
  case failed =>
    intro hfailed
    dsimp only
    rw [if_neg (by rw [hfailed]; exact Bool.false_ne_true), slots_clear_self]
    rfl
  case others =>
    intro k hk
    dsimp only
    split
    · exact slots_fill_of_ne _ _ hk
    · exact (slots_clear_of_ne _ hk).trans (slots_fill_of_ne _ _ hk)
  case sends => rfl

/-- A client datagram is forwarded or settled at once. -/
theorem ClientOutcome.forwarded_or_settled {server : DrServer} {d : Datagram} {nowMs : UInt64}
    {sent : Bool} {r : DrServer × List Send}
    (h : ClientOutcome server d.packet d.src nowMs sent r) :
    (∃ id, Forwarded server d nowMs sent id r) ∨ Settled server d r := by
  cases h with
  | ignored => exact Or.inr ⟨rfl, fun s hs => by cases hs⟩
  | rejected hheader hquery => exact Or.inr (settled_of_error rfl hquery)
  | refused haccepted => exact Or.inr (settled_of_error rfl haccepted.query)
  | fromTable haccepted htable =>
    refine Or.inr ⟨rfl, fun s hs => ⟨?_, haccepted.query, fun _ => ?_⟩⟩
    · exact answerFromTable_singleton htable hs
    · exact directAnswer_of_table haccepted htable hs
  | cached haccepted htable hhit =>
    refine Or.inr ⟨rfl, fun s hs => ?_⟩
    rw [List.mem_singleton.mp hs]
    refine ⟨rfl, haccepted.query, fun hcached => ⟨rfl, rfl, ?_⟩⟩
    rw [← haccepted.id]
    exact responseTo_of_hit hcached hhit
  | forwarded haccepted htable hmiss hne hfree hsent =>
    subst hsent
    exact Or.inl ⟨_, forwarded_of_inserted haccepted htable hne hfree⟩
  | unsent haccepted htable hmiss hne hfree hsent =>
    subst hsent
    exact Or.inl ⟨_, forwarded_of_inserted haccepted htable hne hfree⟩

/-- What a client datagram makes the relay send is an answer to it, or its forward. -/
theorem ClientOutcome.forwarded_or_answered {server : DrServer} {d : Datagram} {nowMs : UInt64}
    {sent : Bool} {r : DrServer × List Send}
    (h : ClientOutcome server d.packet d.src nowMs sent r) :
    (∃ id, Forwarded server d nowMs sent id r) ∨ ∀ s ∈ r.2, s.cause = .answer := by
  cases h with
  | ignored => exact Or.inr (fun s hs => by cases hs)
  | rejected => exact Or.inr (fun s hs => (mem_respondWithError hs).1)
  | refused => exact Or.inr (fun s hs => (mem_respondWithError hs).1)
  | fromTable haccepted htable =>
    exact Or.inr (fun s hs => (directAnswer_of_table haccepted htable hs).cause)
  | cached => exact Or.inr (fun s hs => by rw [List.mem_singleton.mp hs])
  | forwarded haccepted htable hmiss hne hfree hsent =>
    subst hsent
    exact Or.inl ⟨_, forwarded_of_inserted haccepted htable hne hfree⟩
  | unsent haccepted htable hmiss hne hfree hsent =>
    subst hsent
    exact Or.inl ⟨_, forwarded_of_inserted haccepted htable hne hfree⟩

/-- Every forward comes from a query just entered. -/
theorem forwarded_of_cause {server : DrServer} {d : Datagram} {nowMs : UInt64} {sent : Bool} {s : Send}
    {id : UInt16} (hs : s ∈ (receive server d nowMs sent).2) (hcause : s.cause = .forward id) :
    Forwarded server d nowMs sent id (receive server d nowMs sent) := by
  rcases receive_outcome server d nowMs sent with ⟨_, houtcome⟩ | ⟨_, houtcome⟩
  · generalize receive server d nowMs sent = r at hs houtcome
    cases houtcome with
    | ignored => cases hs
    | relayed =>
      rw [List.mem_singleton.mp hs] at hcause
      cases hcause
  · rcases houtcome.forwarded_or_answered with ⟨entered, hforwarded⟩ | hanswers
    · have hmem := hs
      rw [hforwarded.sends, List.mem_singleton] at hmem
      rw [hmem] at hcause
      cases hcause
      exact hforwarded
    · rw [hanswers s hs] at hcause
      cases hcause

/-- A datagram answers a pending request, is forwarded, or is settled at once. -/
theorem receive_cases (server : DrServer) (d : Datagram) (nowMs : UInt64) (sent : Bool) :
    (∃ request responseQuery, Authentic server d request responseQuery) ∨
      (∃ id, Forwarded server d nowMs sent id (receive server d nowMs sent)) ∨
      Settled server d (receive server d nowMs sent) := by
  by_cases hauthentic : ∃ request responseQuery, Authentic server d request responseQuery
  · exact Or.inl hauthentic
  · simp only [not_exists] at hauthentic
    rcases receive_of_not_authentic hauthentic nowMs sent with heq | houtcome
    · rw [heq]
      exact Or.inr (Or.inr ⟨rfl, fun s hs => by cases hs⟩)
    · exact Or.inr houtcome.forwarded_or_settled

/-- An active request was active before the step, or the step entered it. -/
theorem step_active {server : DrServer} {e : Event} {id : UInt16}
    (h : ((step server e).1.pendingMap.slots id).active = true) :
    ((server.pendingMap.slots id).active = true ∧
        (step server e).1.pendingMap.slots id = server.pendingMap.slots id) ∨
      ∃ d nowMs, e = .datagram d nowMs true ∧ Forwarded server d nowMs true id (step server e) := by
  -- a slot that is as it was, or was cleared
  have hkept {request : DrPendingRequest} (hactive : request.active = true)
      (hslot : request = server.pendingMap.slots id ∨ request = .zero) :
      (server.pendingMap.slots id).active = true ∧ request = server.pendingMap.slots id := by
    rcases hslot with rfl | rfl
    · exact ⟨hactive, rfl⟩
    · cases hactive
  cases e with
  | tick nowMs sent =>
    obtain ⟨ids, _, _, hslots, _⟩ := expireAll_spec server nowMs sent
    refine Or.inl (hkept h ?_)
    rw [step, hslots]
    split
    · exact Or.inr rfl
    · exact Or.inl rfl
  | datagram d nowMs sent =>
    rw [step] at h ⊢
    rcases receive_cases server d nowMs sent with
      ⟨request, responseQuery, hauthentic⟩ | ⟨entered, hforwarded⟩ | hsettled
    · rw [receive_of_authentic hauthentic, maybeCacheResponse_pendingMap] at h ⊢
      refine Or.inl (hkept h ?_)
      by_cases hid : id = drDnsReadId d.packet
      · subst hid
        exact Or.inr (slots_clear_self _)
      · exact Or.inl (slots_clear_of_ne _ hid)
    · by_cases hid : id = entered
      · subst hid
        cases hsent : sent with
        | true =>
          rw [hsent] at hforwarded
          exact Or.inr ⟨d, nowMs, rfl, hforwarded⟩
        | false =>
          rw [hforwarded.failed hsent] at h
          cases h
      · exact Or.inl (hkept h (Or.inl (hforwarded.others id hid)))
    · exact Or.inl (hkept h (Or.inl (by rw [hsettled.pendingMap])))

/-- A datagram makes at most one call on the cache. -/
theorem receive_cache (server : DrServer) (d : Datagram) (nowMs : UInt64) (sent : Bool) :
    (receive server d nowMs sent).1.cache = server.cache ∨ ∃ call : CacheCall, call.NameFits ∧
      (receive server d nowMs sent).1.cache = (CacheCall.step server.cache call).1 := by
  have hlookup {parsed : DrParsedQuery} {cache : DrCache} {answer : Option Bytes}
      (heq : drCacheLookup server.cache (cstr parsed.qname) parsed.qtype parsed.qclass nowMs
        parsed.id = (cache, answer)) :
      ∃ call : CacheCall, call.NameFits ∧ cache = (CacheCall.step server.cache call).1 :=
    ⟨.lookup (cstr parsed.qname) parsed.qtype parsed.qclass nowMs parsed.id, trivial, by
      rw [CacheCall.step, heq]⟩
  rcases receive_outcome server d nowMs sent with ⟨_, houtcome⟩ | ⟨_, houtcome⟩
  · generalize receive server d nowMs sent = r at houtcome
    cases houtcome with
    | ignored => exact Or.inl rfl
    | @relayed request responseQuery hmatches =>
      rcases maybeCacheResponse_cases (withoutPending server (drDnsReadId d.packet)) request d.packet
          nowMs with heq | ⟨patches, minTtl, _, _, _, _, heq⟩ <;> rw [heq]
      · exact Or.inl rfl
      · exact Or.inr ⟨.put request.qname request.qtype request.qclass d.packet patches minTtl nowMs,
          hmatches.qname_le, rfl⟩
  · generalize receive server d nowMs sent = r at houtcome
    cases houtcome with
    | ignored => exact Or.inl rfl
    | rejected => exact Or.inl rfl
    | fromTable => exact Or.inl rfl
    | cached _ _ hhit => exact Or.inr (hlookup hhit)
    | refused _ _ hmiss => exact Or.inr (hlookup hmiss)
    | forwarded _ _ hmiss => exact Or.inr (hlookup hmiss)
    | unsent _ _ hmiss => exact Or.inr (hlookup hmiss)

/-- An upstream response to a pending request that is worth caching. -/
structure Cacheable (server : DrServer) (d : Datagram) (request : DrPendingRequest)
    (patches : DrTtlPatchList) (minTtl : UInt32) : Prop where
  authentic : ∃ responseQuery, Authentic server d request responseQuery
  noerror : drDnsGetRcode d.packet = DR_DNS_RCODE_NOERROR
  collected : drDnsCollectTtls d.packet = .ok (patches, minTtl)
  patched : patches.count ≠ 0
  positive : minTtl ≠ 0

/-- A slot in use after a step held the same response before, or the step stored it. -/
theorem step_occupied {server : DrServer} {e : Event} {entry : DrCacheEntry}
    (h : entry ∈ occupied (step server e).1.cache.entries) :
    (∃ old ∈ occupied server.cache.entries, ∃ tick, entry = old.touch tick) ∨
      ∃ d nowMs sent request patches minTtl, e = .datagram d nowMs sent ∧
        Cacheable server d request patches minTtl ∧
        entry = newEntry request.qname request.qtype request.qclass d.packet patches minTtl nowMs
          (server.cache.tick + 1) := by
  obtain ⟨hmem, huse⟩ := mem_occupied.mp h
  -- a slot that no put wrote
  have hkept (nowMs : UInt64) {old : DrCacheEntry} (hold : old ∈ server.cache.entries)
      (hslot : SlotKept nowMs old entry) :
      ∃ old ∈ occupied server.cache.entries, ∃ tick, entry = old.touch tick := by
    rcases hslot with rfl | ⟨_, rfl⟩ | ⟨holduse, tick, rfl⟩
    · exact ⟨entry, mem_occupied.mpr ⟨hold, huse⟩, entry.lastUsedTick, rfl⟩
    · cases huse
    · exact ⟨old, mem_occupied.mpr ⟨hold, holduse⟩, tick, rfl⟩
  cases e with
  | tick nowMs sent =>
    obtain ⟨_, _, _, _, hcache, _⟩ := expireAll_spec server nowMs sent
    rw [step, hcache] at hmem
    obtain ⟨old, hold, hslot⟩ := mem_of_forall₂ (drCacheExpire_slots server.cache nowMs) entry hmem
    exact Or.inl (hkept nowMs hold hslot)
  | datagram d nowMs sent =>
    rw [step] at hmem
    by_cases hauthentic : ∃ request responseQuery, Authentic server d request responseQuery
    · obtain ⟨request, responseQuery, hauthentic⟩ := hauthentic
      rw [receive_of_authentic hauthentic] at hmem
      rcases maybeCacheResponse_cases (withoutPending server (drDnsReadId d.packet)) request d.packet
          nowMs with heq | ⟨patches, minTtl, hrcode, hcollect, hpatched, hpositive, heq⟩ <;>
        rw [heq] at hmem
      · exact Or.inl (hkept nowMs hmem (Or.inl rfl))
      · obtain ⟨old, hold, hslot | hnew⟩ := mem_of_forall₂ (drCachePut_slots server.cache request.qname
          request.qtype request.qclass d.packet patches minTtl nowMs) entry hmem
        · exact Or.inl (hkept nowMs hold hslot)
        · exact Or.inr ⟨d, nowMs, sent, request, patches, minTtl, rfl,
            ⟨⟨responseQuery, hauthentic⟩, hrcode, hcollect, hpatched, hpositive⟩, hnew⟩
    · simp only [not_exists] at hauthentic
      rcases receive_of_not_authentic hauthentic nowMs sent with heq | houtcome
      · rw [heq] at hmem
        exact Or.inl (hkept nowMs hmem (Or.inl rfl))
      · obtain ⟨old, hold, hslot⟩ := mem_of_forall₂ houtcome.frame.2 entry hmem
        exact Or.inl (hkept nowMs hold hslot)

end DnsRelay.Relay
