import DnsRelay.Relay.Abstraction
import DnsRelay.Relay.CacheHistory
import Mathlib.Data.List.Sort

/-!
# The relay does what it is for

The server and the abstract relay send the same packets. The relation between their
states has one part for each store: the table holds the rules, the active slots are the
waiting queries, and the cache represents the recency list. Each event keeps all three,
as long as the clock does not run backwards.
-/
namespace DnsRelay.Relay

open DnsRelay.Foundation
open DnsRelay.Wire
open DnsRelay.Store

theorem demand_question {packet : Bytes} {parsed : DrParsedQuery}
    (h : demand packet = .question parsed) : Accepted packet parsed := by
  unfold demand at h
  split at h
  · cases h
  · next hquery =>
    rw [not_or, not_not] at hquery
    split at h
    · cases h
    · next hopcode =>
      cases hparse : drDnsParseQuery packet with
      | stuck =>
        rw [hparse] at h
        cases h
      | fail e =>
        rw [hparse] at h
        cases h
      | ok parsed' =>
        rw [hparse] at h
        cases h
        obtain ⟨_, _, _, hparsed⟩ := parsedAs_of_ok hparse
        refine ⟨hquery.2, by_contra (fun hne => hopcode ⟨hparsed.qdcount, hne⟩), hparse⟩

/-- The tests of `handle_client_packet` read off the demand. -/
theorem handleClientPacket_demand (server : DrServer) (packet : Bytes) (clientAddr : Sockaddr)
    (nowMs : UInt64) (sent : Bool) : handleClientPacket server packet clientAddr nowMs sent =
      match demand packet with
      | .nothing => (server, [])
      | .malformed rcode => (server, respondWithError packet rcode .answer clientAddr sent)
      | .question parsed => handleQuery server packet parsed clientAddr nowMs sent := by
  rw [handleClientPacket, drDnsParseHeader_eq, demand]
  by_cases hshort : packet.length < DR_DNS_HEADER_SIZE
  · rw [if_pos hshort, if_pos (Or.inl hshort)]
  rw [if_neg hshort]
  dsimp only [headerAt]
  by_cases hquery : u16At packet 2 &&& 0x8000 = 0
  · rw [if_neg (not_not.mpr hquery), if_neg (not_or.mpr ⟨hshort, not_not.mpr hquery⟩)]
    by_cases hone : u16At packet 4 = 1
    · rw [if_neg (not_not.mpr hone)]
      by_cases hopcode : drDnsGetOpcode packet = 0
      · rw [if_neg (not_not.mpr hopcode), if_neg (fun h => h.2 hopcode)]
        cases drDnsParseQuery packet <;> rfl
      · rw [if_pos hopcode, if_pos ⟨hone, hopcode⟩]
    · -- a packet without exactly one question does not parse
      rw [if_pos hone, if_neg (fun h => hone h.1)]
      cases hparse : drDnsParseQuery packet with
      | stuck => rfl
      | fail e => rfl
      | ok parsed =>
        obtain ⟨_, _, _, hparsed⟩ := parsedAs_of_ok hparse
        exact absurd hparsed.qdcount hone
  · rw [if_pos hquery, if_pos (Or.inr hquery)]

theorem maybeCacheResponse_worth (server : DrServer) (request : DrPendingRequest) (packet : Bytes)
    (nowMs : UInt64) : (maybeCacheResponse server request packet nowMs).1 =
      match worthKeeping packet with
      | none => server
      | some (patches, minTtl) =>
        { server with
          cache := (drCachePut server.cache request.qname request.qtype request.qclass packet patches
            minTtl nowMs).1 } := by
  rw [maybeCacheResponse, worthKeeping]
  by_cases hrcode : drDnsGetRcode packet = DR_DNS_RCODE_NOERROR
  · rw [if_neg (not_not.mpr hrcode), if_pos hrcode]
    cases drDnsCollectTtls packet with
    | stuck => rfl
    | fail e => rfl
    | ok ttls =>
      obtain ⟨patches, minTtl⟩ := ttls
      by_cases hworth : patches.count = 0 ∨ minTtl = 0
      · rcases hworth with hnone | hzero
        · simp [Outcome.toOption, Option.filter, hnone]
        · simp [Outcome.toOption, Option.filter, hzero]
      · rw [not_or] at hworth
        simp [Outcome.toOption, Option.filter, hworth]
  · rw [if_pos hrcode, if_neg hrcode]

theorem worthKeeping_eq_some {packet : Bytes} {patches : DrTtlPatchList} {minTtl : UInt32} :
    worthKeeping packet = some (patches, minTtl) ↔
      drDnsGetRcode packet = DR_DNS_RCODE_NOERROR ∧
        drDnsCollectTtls packet = .ok (patches, minTtl) ∧ patches.count ≠ 0 ∧ minTtl ≠ 0 := by
  rw [worthKeeping]
  by_cases hrcode : drDnsGetRcode packet = DR_DNS_RCODE_NOERROR
  · rw [if_pos hrcode, Option.filter_eq_some_iff, decide_eq_true_eq]
    cases drDnsCollectTtls packet <;> simp [Outcome.toOption, hrcode]
  · simp [hrcode]

/-- The table answers as its rules do. -/
theorem answerFromTable_ruling {server : DrServer} {rules : List (CString × Ipv4Be)}
    (hrules : Loaded server.localTable rules) (httl : TtlSet server.localTable) (packet : Bytes)
    (parsed : DrParsedQuery) (clientAddr : Sockaddr) (sent : Bool) :
    answerFromTable server packet parsed clientAddr sent =
      match ruling rules (askedQuestion parsed) with
      | .silent => none
      | .blocked => some (respondWithError packet DR_DNS_RCODE_NXDOMAIN .answer clientAddr sent)
      | .address ipv4Be =>
        some (sendBuilt (drDnsBuildAResponse packet parsed ipv4Be DR_LOCAL_TABLE_TTL response) .answer
          clientAddr sent) := by
  rw [answerFromTable, ruling, askedQuestion, hrules.lookup]
  dsimp only
  by_cases hclass : parsed.qclass = 1
  · rw [if_pos hclass, if_pos hclass]
    cases hrule : (drDnsNormalizeName (cstr parsed.qname)
        (DR_DNS_MAX_DOMAIN_LEN + 1)).toOption.bind (lastRule rules) with
    | none => simp
    | some ipv4Be =>
      have hne : server.localTable.entries ≠ [] := by
        rcases hrules with ⟨_, rfl⟩ | hinv
        · obtain ⟨_, _, hnone⟩ := Option.bind_eq_some_iff.mp hrule
          cases hnone
        · exact hinv.shape.entries_ne_nil
      rw [httl hne]
      by_cases hzero : ipv4Be = .zero
      · simp [hzero, respondWithError]
      · by_cases htype : parsed.qtype = 1 <;> simp [hzero, htype]
  · rw [if_neg hclass, if_neg hclass]

def waitingOf (request : DrPendingRequest) : Waiting where
  clientId := request.clientId
  client := request.clientAddr
  query := request.queryPacket
  question := (request.qname, request.qtype, request.qclass)
  since := request.startedMs.toNat

/-- The active slots hold the waiting queries, entered in the past. -/
structure PendingSim (now : Nat) (pendingMap : DrPendingMap) (waiting : UInt16 → Option Waiting)
    (cursor : UInt16) : Prop where
  waiting : ∀ id, waiting id = (drPendingMapGet pendingMap id).map waitingOf
  indexed : ∀ id, (pendingMap.slots id).active = true → (pendingMap.slots id).upstreamId = id
  started : ∀ id, (pendingMap.slots id).active = true → (pendingMap.slots id).startedMs.toNat ≤ now
  cursor : pendingMap.firstCandidate = cursor

namespace PendingSim

variable {now : Nat} {pendingMap : DrPendingMap} {waiting : UInt16 → Option Waiting} {cursor : UInt16}

theorem init : PendingSim 0 drPendingMapInit (fun _ => none) 1 where
  waiting _ := rfl
  indexed _ h := by cases h
  started _ h := by cases h
  cursor := rfl

theorem advance (h : PendingSim now pendingMap waiting cursor) {later : Nat} (hle : now ≤ later) :
    PendingSim later pendingMap waiting cursor :=
  ⟨h.waiting, h.indexed, fun id hactive => (h.started id hactive).trans hle, h.cursor⟩

theorem isNone_iff (h : PendingSim now pendingMap waiting cursor) (id : UInt16) :
    (waiting id).isNone = !(pendingMap.slots id).active := by
  rw [h.waiting, drPendingMapGet]
  cases (pendingMap.slots id).active <;> rfl

theorem of_active (h : PendingSim now pendingMap waiting cursor) {id : UInt16}
    (hactive : (pendingMap.slots id).active = true) :
    waiting id = some (waitingOf (pendingMap.slots id)) := by
  rw [h.waiting, drPendingMapGet, if_pos hactive]
  rfl

/-- Slots that are cleared stop waiting. -/
theorem cleared (h : PendingSim now pendingMap waiting cursor) {left : DrPendingMap}
    {gone : UInt16 → Prop} [DecidablePred gone]
    (hslots : ∀ id, left.slots id = if gone id then .zero else pendingMap.slots id)
    (hnext : left.nextId = pendingMap.nextId) :
    PendingSim now left (fun id => if gone id then none else waiting id) cursor where
  waiting id := by
    rw [drPendingMapGet, hslots]
    split
    · rfl
    · rw [h.waiting, drPendingMapGet]
  indexed id hactive := by
    rw [hslots] at hactive ⊢
    split at hactive
    · cases hactive
    · next hstays =>
      rw [if_neg hstays]
      exact h.indexed id hactive
  started id hactive := by
    rw [hslots] at hactive ⊢
    split at hactive
    · cases hactive
    · next hstays =>
      rw [if_neg hstays]
      exact h.started id hactive
  cursor := by
    rw [← h.cursor, DrPendingMap.firstCandidate, DrPendingMap.firstCandidate, hnext]

theorem clear (h : PendingSim now pendingMap waiting cursor) (id : UInt16) :
    PendingSim now (pendingMap.clear id) (Function.update waiting id none) cursor := by
  have hslots : ∀ k, (pendingMap.clear id).slots k = if k = id then .zero else pendingMap.slots k := by
    intro k
    by_cases hk : k = id
    · rw [if_pos hk, hk, slots_clear_self]
    · rw [if_neg hk, slots_clear_of_ne _ hk]
  have hsim := h.cleared hslots rfl
  refine ⟨fun k => ?_, hsim.indexed, hsim.started, hsim.cursor⟩
  rw [← hsim.waiting k, Function.update_apply]

/-- A query that is entered waits under its ID. -/
theorem fill (h : PendingSim now pendingMap waiting cursor) {query : PendingQuery}
    (hnow : query.startedMs.toNat ≤ now) (id : UInt16) : PendingSim now (pendingMap.fill query id)
      (Function.update waiting id (some (waitingOf (query.request id)))) (nextCandidate id) where
  waiting k := by
    rw [drPendingMapGet, Function.update_apply]
    by_cases hk : k = id
    · subst hk
      rw [if_pos rfl, slots_fill_self]
      rfl
    · rw [if_neg hk, slots_fill_of_ne _ _ hk, h.waiting, drPendingMapGet]
  indexed k hactive := by
    by_cases hk : k = id
    · subst hk
      rw [slots_fill_self]
      rfl
    · rw [slots_fill_of_ne _ _ hk] at hactive ⊢
      exact h.indexed k hactive
  started k hactive := by
    by_cases hk : k = id
    · subst hk
      rw [slots_fill_self]
      exact hnow
    · rw [slots_fill_of_ne _ _ hk] at hactive ⊢
      exact h.started k hactive
  cursor := if_neg (nextCandidate_ne_zero id)

/-- An insert takes the ID the abstract relay takes. -/
theorem insert_eq {relay : AbstractRelay} (h : PendingSim now pendingMap relay.waiting relay.cursor)
    {query : PendingQuery} (hvalid : query.Valid) : drPendingMapInsert pendingMap query =
      match relay.freeId with
      | none => (pendingMap, none)
      | some id => (pendingMap.fill query id, some id) := by
  obtain ⟨hpos, hle, haddrPos, haddrLe⟩ := hvalid
  have hfree : (fun id => (relay.waiting id).isNone) = fun id => !(pendingMap.slots id).active :=
    funext h.isNone_iff
  have hloop := insertLoop_eq pendingMap query (DR_PENDING_SLOT_COUNT - 1) pendingMap.firstCandidate
  rw [← hfree, h.cursor] at hloop
  rw [drPendingMapInsert, if_neg (by omega), h.cursor]
  exact hloop

theorem overdue_iff {settings : Settings} {relay : AbstractRelay} {nowMs : UInt64} {timeoutMs : UInt32}
    (h : PendingSim nowMs.toNat pendingMap relay.waiting relay.cursor)
    (htimeout : timeoutMs.toNat = settings.timeout) (id : UInt16) :
    (pendingMap.slots id).overdue nowMs timeoutMs = true ↔
      (relay.waiting id).any (fun w => w.since + settings.timeout ≤ nowMs.toNat) = true := by
  rw [overdue_iff_due timeoutMs (fun hactive => UInt64.le_iff_toNat_le.mpr (h.started id hactive)),
    Due, htimeout, h.waiting, drPendingMapGet]
  cases (pendingMap.slots id).active with
  | false => simp
  | true => simp [waitingOf]

end PendingSim

theorem ids_sorted : ((List.range DR_PENDING_SLOT_COUNT).map UInt16.ofNat).Pairwise (· < ·) := by
  rw [List.pairwise_map]
  apply List.pairwise_lt_range.imp_of_mem
  intro a b ha hb hlt
  rw [List.mem_range, DR_PENDING_SLOT_COUNT] at ha hb
  rw [UInt16.lt_iff_toNat_lt, UInt16.toNat_ofNat_of_lt' ha, UInt16.toNat_ofNat_of_lt' hb]
  exact hlt

/-- What the expiry loop yields is due, in the same order. -/
theorem due_eq {settings : Settings} {relay : AbstractRelay} {pendingMap : DrPendingMap}
    {nowMs : UInt64} {timeoutMs : UInt32}
    (h : PendingSim nowMs.toNat pendingMap relay.waiting relay.cursor)
    (htimeout : timeoutMs.toNat = settings.timeout) {ids : List UInt16}
    (hsorted : ids.Pairwise (· < ·))
    (hmem : ∀ id, id ∈ ids ↔ (pendingMap.slots id).overdue nowMs timeoutMs = true) :
    AbstractRelay.due settings relay nowMs.toNat = ids := by
  have hirrefl : Std.Irrefl (fun a b : UInt16 => a < b) := ⟨UInt16.lt_irrefl⟩
  have hasymm : Std.Antisymm (fun a b : UInt16 => a < b) :=
    ⟨fun a b hab hba => absurd hba (UInt16.lt_asymm hab)⟩
  unfold AbstractRelay.due
  refine List.Pairwise.eq_of_mem_iff (ids_sorted.filter _) hsorted ?_
  intro id
  rw [List.mem_filter, hmem, h.overdue_iff htimeout]
  refine and_iff_right (List.mem_map.mpr ⟨id.toNat, List.mem_range.mpr id.toNat_lt, ?_⟩)
  exact UInt16.ofNat_toNat

theorem nextId_clearAll (ids : List UInt16) (pendingMap : DrPendingMap) :
    (ids.foldl DrPendingMap.clear pendingMap).nextId = pendingMap.nextId := by
  induction ids generalizing pendingMap with
  | nil => rfl
  | cons id ids ih => exact ih (pendingMap.clear id)

theorem timeoutSends_eq {relay : AbstractRelay} {now : Nat} {pendingMap : DrPendingMap}
    (h : PendingSim now pendingMap relay.waiting relay.cursor) (sent : Nat → Bool) {ids : List UInt16}
    (hactive : ∀ id ∈ ids, (pendingMap.slots id).active = true) : ∀ expiredCount,
    timeoutSends pendingMap.slots sent expiredCount ids =
      (ids.zipIdx expiredCount).flatMap (fun pair => relay.giveUp pair.1 (sent pair.2)) := by
  induction ids with
  | nil => exact fun _ => rfl
  | cons id ids ih =>
    intro expiredCount
    obtain ⟨hid, hrest⟩ := List.forall_mem_cons.mp hactive
    rw [timeoutSends, ih hrest, List.zipIdx_cons, List.flatMap_cons, AbstractRelay.giveUp,
      h.of_active hid, h.indexed id hid]
    rfl

structure Represents (settings : Settings) (now : Nat) (server : DrServer) (relay : AbstractRelay) :
    Prop where
  timeout : server.upstreamTimeoutMs.toNat = settings.timeout
  upstream : server.upstreamAddr = settings.upstream
  rules : Loaded server.localTable settings.rules
  ttl : TtlSet server.localTable
  pending : PendingSim now server.pendingMap relay.waiting relay.cursor
  cache : ∃ ranked, CacheSim settings.capacity now server.cache relay.recent ranked

/-- The same packets, related states, and at most one tick of the cache. -/
structure StepSim (settings : Settings) (now : Nat) (server : DrServer)
    (r : DrServer × List Send) (r' : AbstractRelay × List Send) : Prop where
  sends : r.2 = r'.2
  state : Represents settings now r.1 r'.1
  tick : r.1.cache.tick.toNat ≤ server.cache.tick.toNat + 1

namespace Represents

variable {settings : Settings} {now : Nat} {server : DrServer} {relay : AbstractRelay}

theorem advance (h : Represents settings now server relay) {later : Nat} (hle : now ≤ later) :
    Represents settings later server relay := by
  obtain ⟨ranked, hcache⟩ := h.cache
  exact ⟨h.timeout, h.upstream, h.rules, h.ttl, h.pending.advance hle, _, hcache.advance hle⟩

theorem unchanged (h : Represents settings now server relay) (sends : List Send) :
    StepSim settings now server (server, sends) (relay, sends) :=
  ⟨rfl, h, Nat.le_succ _⟩

theorem tickStep {nowMs : UInt64} (h : Represents settings nowMs.toNat server relay)
    (sent : Nat → Bool) : StepSim settings nowMs.toNat server (expireAll server nowMs sent)
      (AbstractRelay.tick settings relay nowMs.toNat sent) := by
  obtain ⟨ids, hsorted, hmem, hpopped⟩ := popAll_spec nowMs server.upstreamTimeoutMs
    (DR_PENDING_SLOT_COUNT + 1) server.pendingMap (Nat.lt_succ_of_le (card_overdueIds_le _ _ _))
  obtain ⟨ranked, hcache⟩ := h.cache
  have hdue := due_eq h.pending h.timeout hsorted hmem
  have hactive : ∀ id ∈ ids, (server.pendingMap.slots id).active = true :=
    fun id hid => active_of_overdue ((hmem id).mp hid)
  have hsends := timeoutSends_eq h.pending sent hactive 0
  rw [expireAll, timeoutLoop_eq sent 0 hpopped, AbstractRelay.tick, hdue, timeoutAnswers_map]
  refine ⟨hsends, ⟨h.timeout, h.upstream, h.rules, h.ttl, ?_, _, hcache.expire⟩, ?_⟩
  · exact h.pending.cleared (slots_clearAll ids server.pendingMap) (nextId_clearAll ids _)
  · dsimp only
    rw [drCacheExpire_eq]
    exact Nat.le_succ _

/-- A query that neither the rules nor the cache answer. -/
theorem forwardStep {nowMs : UInt64} (h : Represents settings nowMs.toNat server relay)
    {packet : Bytes} {parsed : DrParsedQuery} {clientAddr : Sockaddr}
    (hparse : drDnsParseQuery packet = .ok parsed)
    (hvalid : (pendingQuery packet parsed clientAddr nowMs).Valid) (sent : Bool) :
    (forwardQuery server packet parsed clientAddr nowMs sent).2 =
        (AbstractRelay.forward settings relay packet parsed clientAddr nowMs.toNat sent).2 ∧
      Represents settings nowMs.toNat (forwardQuery server packet parsed clientAddr nowMs sent).1
        (AbstractRelay.forward settings relay packet parsed clientAddr nowMs.toNat sent).1 ∧
      (forwardQuery server packet parsed clientAddr nowMs sent).1.cache = server.cache := by
  rw [forwardQuery, AbstractRelay.forward, h.pending.insert_eq hvalid]
  cases hfree : relay.freeId with
  | none => exact ⟨rfl, h, rfl⟩
  | some id =>
    have hwaits : waitingOf ((pendingQuery packet parsed clientAddr nowMs).request id) =
        { clientId := parsed.id, client := clientAddr, query := packet,
          question := askedQuestion parsed, since := nowMs.toNat } := by
      rw [waitingOf, PendingQuery.request, pendingQuery]
      dsimp only
      rw [CString.truncate_of_le (length_cstr_qname hparse)]
      rfl
    have hnow : (pendingQuery packet parsed clientAddr nowMs).startedMs.toNat ≤ nowMs.toNat := le_refl _
    have hfill := h.pending.fill hnow id
    dsimp only
    cases sent with
    | true =>
      rw [hwaits] at hfill
      exact ⟨by rw [h.upstream]; rfl,
        ⟨h.timeout, h.upstream, h.rules, h.ttl, hfill, h.cache⟩, rfl⟩
    | false =>
      obtain ⟨k, _, rfl, hidle, _⟩ := scanFrom_eq_some hfree
      generalize nextCandidate^[k] relay.cursor = id at *
      have hremove : (drPendingMapRemove (server.pendingMap.fill
          (pendingQuery packet parsed clientAddr nowMs) id) id).1 =
            (server.pendingMap.fill (pendingQuery packet parsed clientAddr nowMs) id).clear id := by
        rw [drPendingMapRemove, drPendingMapGet, slots_fill_self]
        rfl
      -- the slot was free before, so nothing changes but the cursor
      have hclear := hfill.clear id
      have hsame : Function.update relay.waiting id none = relay.waiting :=
        Function.update_eq_self_iff.mpr (Option.isNone_iff_eq_none.mp hidle).symm
      rw [Function.update_idem, hsame] at hclear
      rw [if_neg Bool.false_ne_true, if_neg Bool.false_ne_true, hremove]
      exact ⟨by rw [h.upstream],
        ⟨h.timeout, h.upstream, h.rules, h.ttl, hclear, h.cache⟩, rfl⟩

theorem askStep {nowMs : UInt64} (h : Represents settings nowMs.toNat server relay)
    (htick : server.cache.tick.toNat + 1 < 2 ^ 64) {packet : Bytes} {parsed : DrParsedQuery}
    {clientAddr : Sockaddr} (hparse : drDnsParseQuery packet = .ok parsed)
    (hvalid : (pendingQuery packet parsed clientAddr nowMs).Valid) (sent : Bool) :
    StepSim settings nowMs.toNat server (handleQuery server packet parsed clientAddr nowMs sent)
      (AbstractRelay.ask settings relay packet parsed clientAddr nowMs sent) := by
  rw [handleQuery, AbstractRelay.ask, answerFromTable_ruling h.rules h.ttl]
  cases ruling settings.rules (askedQuestion parsed) with
  | blocked => exact h.unchanged _
  | address ipv4Be => exact h.unchanged _
  | silent =>
    obtain ⟨ranked, hcache⟩ := h.cache
    obtain ⟨hfound, hnext, hle⟩ := hcache.lookup htick (cstr parsed.qname) parsed.qtype parsed.qclass
      parsed.id
    dsimp only [askedQuestion]
    generalize drCacheLookup server.cache (cstr parsed.qname) parsed.qtype parsed.qclass nowMs
      parsed.id = looked at hfound hnext hle ⊢
    generalize Recency.lookup nowMs.toNat (cstr parsed.qname, parsed.qtype, parsed.qclass)
      relay.recent = looked' at hfound hnext ⊢
    obtain ⟨cache, answer⟩ := looked
    obtain ⟨recent, found⟩ := looked'
    have hstate : Represents settings nowMs.toNat { server with cache } { relay with recent } :=
      ⟨h.timeout, h.upstream, h.rules, h.ttl, h.pending, hnext⟩
    cases found with
    | some found =>
      obtain rfl : answer = some (found.value.answer nowMs parsed.id) := hfound
      exact ⟨rfl, hstate, hle⟩
    | none =>
      obtain rfl : answer = none := hfound
      obtain ⟨hsends, hforward, hkept⟩ := hstate.forwardStep hparse hvalid sent
      refine ⟨hsends, hforward, ?_⟩
      rw [hkept]
      exact hle

theorem hearStep {nowMs : UInt64} (h : Represents settings nowMs.toNat server relay)
    (htick : server.cache.tick.toNat + 1 < 2 ^ 64) (hcap : 1 ≤ settings.capacity) {packet : Bytes}
    (hpacket : packet.length ≤ DR_DNS_MAX_PACKET_SIZE)
    (hclock : nowMs.toNat + 2 ^ 32 * 1000 ≤ 2 ^ 64) (sent : Bool) :
    StepSim settings nowMs.toNat server (handleUpstreamPacket server packet nowMs sent)
      (AbstractRelay.hear settings relay packet nowMs sent) := by
  have houtcome := handleUpstreamPacket_outcome server packet nowMs sent
  generalize handleUpstreamPacket server packet nowMs sent = r at houtcome
  have hwaiting := h.pending.waiting (drDnsReadId packet)
  rw [AbstractRelay.hear]
  cases houtcome with
  | ignored hnone =>
    cases hget : drPendingMapGet server.pendingMap (drDnsReadId packet) with
    | none =>
      rw [hwaiting, hget]
      exact h.unchanged []
    | some request =>
      rw [hwaiting, hget]
      cases hparse : drDnsParseQuery packet with
      | stuck => exact h.unchanged []
      | fail e => exact h.unchanged []
      | ok parsed =>
        have hdiffer : ¬ askedQuestion parsed = (waitingOf request).question := by
          intro heq
          rw [askedQuestion, waitingOf, Prod.mk.injEq, Prod.mk.injEq] at heq
          exact hnone request parsed ⟨hget, hparse, heq.1, heq.2.1, heq.2.2⟩
        simp only [Option.map_some, Outcome.toOption]
        rw [if_neg hdiffer]
        exact h.unchanged []
  | @relayed request parsed hmatches =>
    have hsame : askedQuestion parsed = (waitingOf request).question := by
      rw [askedQuestion, waitingOf, hmatches.qname, hmatches.qtype, hmatches.qclass]
    rw [hwaiting, hmatches.pending, hmatches.parses]
    simp only [Option.map_some, Outcome.toOption]
    rw [if_pos hsame, maybeCacheResponse_worth]
    obtain ⟨ranked, hcache⟩ := h.cache
    have hclear := h.pending.clear (drDnsReadId packet)
    cases hworth : worthKeeping packet with
    | none =>
      exact ⟨rfl, ⟨h.timeout, h.upstream, h.rules, h.ttl, hclear, ranked, hcache⟩, Nat.le_succ _⟩
    | some ttls =>
      obtain ⟨patches, minTtl⟩ := ttls
      have hlt := minTtl.toNat_lt
      obtain ⟨_, hput, hle⟩ := hcache.put htick hcap request.qtype request.qclass patches
        hmatches.qname_le (by omega) hpacket (worthKeeping_eq_some.mp hworth).2.2.2
      exact ⟨rfl, ⟨h.timeout, h.upstream, h.rules, h.ttl, hclear, hput⟩, hle⟩

end Represents

def Event.nowMs : Event → UInt64
  | .tick nowMs _ => nowMs
  | .datagram _ nowMs _ => nowMs

/-- The expiry of the longest TTL fits 64 bits, and `recvfrom` has written a source address. -/
def Event.Fits : Event → Prop
  | .tick nowMs _ => nowMs.toNat + 2 ^ 32 * 1000 ≤ 2 ^ 64
  | .datagram d nowMs _ => nowMs.toNat + 2 ^ 32 * 1000 ≤ 2 ^ 64 ∧
      1 ≤ d.src.length ∧ d.src.length ≤ sizeofSockaddrStorage

theorem Represents.step {settings : Settings} {server : DrServer} {relay : AbstractRelay} {e : Event}
    (h : Represents settings e.nowMs.toNat server relay)
    (htick : server.cache.tick.toNat + 1 < 2 ^ 64) (hcap : 1 ≤ settings.capacity) (hfits : e.Fits) :
    StepSim settings e.nowMs.toNat server (step server e) (AbstractRelay.step settings relay e) := by
  cases e with
  | tick nowMs sent => exact h.tickStep sent
  | datagram d nowMs sent =>
    obtain ⟨hclock, hpos, hle⟩ := hfits
    rw [Relay.step, AbstractRelay.step, receive, AbstractRelay.receive, isUpstreamResponse, h.upstream]
    split
    · exact h.hearStep htick hcap d.received_le hclock sent
    · rw [handleClientPacket_demand]
      cases hdemand : demand d.packet with
      | nothing => exact h.unchanged []
      | malformed rcode => exact h.unchanged _
      | question parsed =>
        exact h.askStep htick (demand_question hdemand).parses
          ⟨d.received_pos, d.received_le, hpos, hle⟩ sent

/-- The states are related, and the events to come are in order and within range. -/
def RelayRun (settings : Settings) (server : DrServer) (relay : AbstractRelay) (events : List Event) :
    Prop :=
  ∃ now, Represents settings now server relay ∧
    (∀ e ∈ events, now ≤ e.nowMs.toNat ∧ e.Fits) ∧
    events.Pairwise (fun a b => a.nowMs ≤ b.nowMs) ∧
    server.cache.tick.toNat + events.length < 2 ^ 64

theorem RelayRun.step {settings : Settings} (hcap : 1 ≤ settings.capacity) {server : DrServer}
    {relay : AbstractRelay} {e : Event} {events : List Event}
    (h : RelayRun settings server relay (e :: events)) :
    (step server e).2 = (AbstractRelay.step settings relay e).2 ∧
      RelayRun settings (step server e).1 (AbstractRelay.step settings relay e).1 events := by
  obtain ⟨now, hstate, hevents, horder, hcount⟩ := h
  obtain ⟨⟨hlater, hfits⟩, hrest⟩ := List.forall_mem_cons.mp hevents
  obtain ⟨hfirst, horder⟩ := List.pairwise_cons.mp horder
  rw [List.length_cons] at hcount
  obtain ⟨hsends, hnext, htick⟩ := (hstate.advance hlater).step (by omega) hcap hfits
  refine ⟨hsends, _, hnext, fun e' he' => ⟨UInt64.le_iff_toNat_le.mp (hfirst e' he'), ?_⟩, horder, ?_⟩
  · exact (hrest e' he').2
  · omega

/-- A table loaded from nothing has its rules and its TTL. -/
theorem loaded_of_insertAll {rules : List (CString × Ipv4Be)} {table : DrLocalTable}
    (hload : insertAll .zero rules = .ok table) : Loaded table rules ∧ TtlSet table := by
  obtain ⟨_, hinsert, hrules⟩ := insertAll_loaded rules .zero [] (Or.inl ⟨rfl, rfl⟩)
  cases hload.symm.trans hinsert
  have httl : TtlSet .zero := fun hne => absurd rfl hne
  exact ⟨hrules, httl.insertAll hload⟩

theorem represents_start {timeoutMs : UInt32} {upstream : Sockaddr} {rules : List (CString × Ipv4Be)}
    {table : DrLocalTable} (hload : insertAll .zero rules = .ok table) (capacity : Nat) :
    Represents ⟨timeoutMs.toNat, upstream, rules, capacity⟩ 0
      (drServerStart timeoutMs upstream table capacity) .start := by
  obtain ⟨hrules, httl⟩ := loaded_of_insertAll hload
  -- a call at time 0 may follow, so the cache is related at time 0
  have hrun : CacheRun capacity (drCacheInit capacity) [] [.expire 0] :=
    cacheRun_init (fun call hc => by rw [List.mem_singleton.mp hc]; trivial)
      (List.pairwise_singleton _ _) (by simp)
  obtain ⟨now, ranked, hcache, hcalls, _⟩ := hrun
  obtain rfl : now = 0 := Nat.le_zero.mp (hcalls _ (List.mem_singleton_self _)).1
  exact ⟨rfl, rfl, hrules, httl, PendingSim.init, ranked, hcache⟩

/-- In every run along a clock that does not go back, the relay sends the packets the abstract relay
sends: its slots, hashes, counters and ticks do not show. -/
theorem relay_refines_abstract (timeoutMs : UInt32) (upstream : Sockaddr)
    (rules : List (CString × Ipv4Be)) (table : DrLocalTable) (capacity : Nat) (events : List Event)
    (hload : insertAll .zero rules = .ok table) (hcap : 1 ≤ capacity) (hfits : ∀ e ∈ events, e.Fits)
    (horder : events.Pairwise (fun a b => a.nowMs ≤ b.nowMs)) (hcount : events.length < 2 ^ 64) :
    outputs step (drServerStart timeoutMs upstream table capacity) events =
      outputs (AbstractRelay.step ⟨timeoutMs.toNat, upstream, rules, capacity⟩) .start events := by
  refine outputs_eq_of_simulation (R := RelayRun ⟨timeoutMs.toNat, upstream, rules, capacity⟩)
    (fun _ _ _ _ h => h.step hcap) events _ _ ?_
  refine ⟨0, represents_start hload capacity, fun e he => ⟨Nat.zero_le _, hfits e he⟩, horder, ?_⟩
  change 0 + events.length < 2 ^ 64
  omega

/-- A query is forwarded, answered, and asked again; another one times out. -/
def shortRun : List Event :=
  [.datagram (letterQuery 0x61) 0 true, .datagram (letterAnswer 1 0x61) 20 true,
    .datagram (letterQuery 0x61) 1500 true, .datagram (letterQuery 0x63) 2000 true,
    .tick 7000 (fun _ => true)]

theorem relay_refines_abstract_shortRun : ∃ table,
    insertAll .zero [(cstr [0x62], ⟨10, 0, 0, 1⟩)] = .ok table ∧
      outputs step (drServerStart 5000 [2, 0, 0, 53, 8, 8, 8, 8] table 2) shortRun =
        outputs (AbstractRelay.step
          ⟨5000, [2, 0, 0, 53, 8, 8, 8, 8], [(cstr [0x62], ⟨10, 0, 0, 1⟩)], 2⟩) .start shortRun := by
  obtain ⟨table, hload, _⟩ :=
    insertAll_loaded [(cstr [0x62], ⟨10, 0, 0, 1⟩)] .zero [] (Or.inl ⟨rfl, rfl⟩)
  refine ⟨table, hload, relay_refines_abstract 5000 _ _ table 2 shortRun hload (by decide) ?_ ?_ ?_⟩
  · intro e he
    simp only [shortRun, List.mem_cons, List.not_mem_nil, or_false] at he
    rcases he with rfl | rfl | rfl | rfl | rfl <;> simp [Event.Fits, letterQuery, letterAnswer,
      sizeofSockaddrStorage]
  · simp [shortRun, Event.nowMs]
  · decide

end DnsRelay.Relay
