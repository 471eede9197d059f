import DnsRelay.Relay.Attribution
import Mathlib.Algebra.BigOperators.Group.Finset.Basic

/-!
# What becomes of the forwards

Every forward that was sent is relayed, given up by a tick, or still pending, so the
counter of the pending map can be told from the packets of the run alone. The relay
refuses a query exactly when the counts leave no ID for it.
-/
namespace DnsRelay.Relay

open DnsRelay.Foundation
open DnsRelay.Wire
open DnsRelay.Store

def Cause.isForward : Cause → Bool
  | .forward _ => true
  | _ => false

def Cause.isRelay : Cause → Bool
  | .relay _ => true
  | _ => false

def forwardsIn (sends : List Send) : Nat := sends.countP (fun s => s.sent && s.cause.isForward)

def relaysIn (sends : List Send) : Nat := sends.countP (fun s => s.cause.isRelay)

/-- The requests a tick gives up. -/
def expiriesIn (server : DrServer) : Event → Nat
  | .tick nowMs _ => (overdueIds server.pendingMap nowMs server.upstreamTimeoutMs).card
  | .datagram _ _ _ => 0

/-- The books of one event. -/
structure Balanced (server : DrServer) (expired : Nat) (r : DrServer × List Send) : Prop where
  inv : PendingInv r.1.pendingMap
  count : r.1.pendingMap.activeCount + relaysIn r.2 + expired =
    server.pendingMap.activeCount + forwardsIn r.2

theorem forwardsIn_eq_zero {sends : List Send} (h : ∀ s ∈ sends, s.cause.isForward = false) :
    forwardsIn sends = 0 := by
  rw [forwardsIn, List.countP_eq_zero]
  intro s hs
  rw [h s hs, Bool.and_false]
  exact Bool.false_ne_true

theorem relaysIn_eq_zero {sends : List Send} (h : ∀ s ∈ sends, s.cause.isRelay = false) :
    relaysIn sends = 0 := by
  rw [relaysIn, List.countP_eq_zero]
  intro s hs
  rw [h s hs]
  exact Bool.false_ne_true

/-- Answers to the query at hand move nothing. -/
theorem balanced_of_answers {server server' : DrServer} {sends : List Send}
    (hinv : PendingInv server.pendingMap) (hsame : server'.pendingMap = server.pendingMap)
    (hanswers : ∀ s ∈ sends, s.cause = .answer) : Balanced server 0 (server', sends) := by
  refine ⟨hsame ▸ hinv, ?_⟩
  dsimp only
  rw [hsame, relaysIn_eq_zero (fun s hs => by rw [hanswers s hs]; rfl),
    forwardsIn_eq_zero (fun s hs => by rw [hanswers s hs]; rfl)]

theorem pendingInv_clearAll {ids : List UInt16} (hnodup : ids.Nodup) :
    ∀ {map : DrPendingMap}, PendingInv map → (∀ id ∈ ids, (map.slots id).active = true) →
      PendingInv (ids.foldl DrPendingMap.clear map) := by
  induction ids with
  | nil => exact fun h _ => h
  | cons id ids ih =>
    intro map h hactive
    obtain ⟨hnot, hrest⟩ := List.nodup_cons.mp hnodup
    refine ih hrest (h.clear (hactive id List.mem_cons_self)) (fun k hk => ?_)
    have hne : k ≠ id := by
      rintro rfl
      exact hnot hk
    rw [slots_clear_of_ne map hne]
    exact hactive k (List.mem_cons_of_mem _ hk)

/-- A tick takes out as many requests as are overdue. -/
theorem balanced_tick {server : DrServer} (hinv : PendingInv server.pendingMap) (nowMs : UInt64)
    (sents : Nat → Bool) :
    Balanced server (expiriesIn server (.tick nowMs sents)) (expireAll server nowMs sents) := by
  obtain ⟨ids, hsorted, hmem, hpopped⟩ := popAll_spec nowMs server.upstreamTimeoutMs
    (DR_PENDING_SLOT_COUNT + 1) server.pendingMap (Nat.lt_succ_of_le (card_overdueIds_le _ _ _))
  have hnodup : ids.Nodup := hsorted.imp (fun hlt => UInt16.ne_of_lt hlt)
  have hactive : ∀ id ∈ ids, (server.pendingMap.slots id).active = true :=
    fun id hid => active_of_overdue ((hmem id).mp hid)
  have hcard : expiriesIn server (.tick nowMs sents) = ids.length := by
    have hset : overdueIds server.pendingMap nowMs server.upstreamTimeoutMs = ids.toFinset := by
      ext id
      rw [mem_overdueIds, List.mem_toFinset, hmem]
    rw [expiriesIn, hset, List.toFinset_card_of_nodup hnodup]
  have hle := hinv.length_le_activeCount hnodup hactive
  have hcauses : ∀ s ∈ timeoutAnswers sents 0 (ids.map server.pendingMap.slots),
      ∃ id, s.cause = .timeout id := by
    intro s hs
    rw [timeoutAnswers_map] at hs
    obtain ⟨id, _, ok, hs⟩ := mem_timeoutSends 0 hs
    exact ⟨_, (mem_respondWithError hs).1⟩
  have hforwards : forwardsIn (timeoutAnswers sents 0 (ids.map server.pendingMap.slots)) = 0 := by
    refine forwardsIn_eq_zero (fun s hs => ?_)
    obtain ⟨id, hcause⟩ := hcauses s hs
    rw [hcause]
    rfl
  have hrelays : relaysIn (timeoutAnswers sents 0 (ids.map server.pendingMap.slots)) = 0 := by
    refine relaysIn_eq_zero (fun s hs => ?_)
    obtain ⟨id, hcause⟩ := hcauses s hs
    rw [hcause]
    rfl
  rw [expireAll, timeoutLoop_eq sents 0 hpopped]
  refine ⟨pendingInv_clearAll hnodup hinv hactive, ?_⟩
  dsimp only
  rw [activeCount_clearAll, hcard, hforwards, hrelays]
  omega

theorem balanced_upstream {server : DrServer} (hinv : PendingInv server.pendingMap) {packet : Bytes}
    {nowMs : UInt64} {sent : Bool} {r : DrServer × List Send}
    (h : UpstreamOutcome server packet nowMs sent r) : Balanced server 0 r := by
  cases h with
  | ignored => exact balanced_of_answers hinv rfl (fun s hs => by cases hs)
  | @relayed request responseQuery hmatches =>
    have hactive := (drPendingMapGet_eq_some.mp hmatches.pending).1
    have hpos := hinv.activeCount_pos hactive
    constructor
    · rw [maybeCacheResponse_pendingMap]
      exact hinv.clear hactive
    · dsimp only
      rw [maybeCacheResponse_pendingMap, forwardsIn_eq_zero (fun s hs => by
        rw [List.mem_singleton.mp hs]
        rfl)]
      change server.pendingMap.activeCount - 1 + 1 + 0 = server.pendingMap.activeCount + 0
      omega

theorem balanced_client {server : DrServer} (hinv : PendingInv server.pendingMap) {packet : Bytes}
    {clientAddr : Sockaddr} {nowMs : UInt64} {sent : Bool} {r : DrServer × List Send}
    (h : ClientOutcome server packet clientAddr nowMs sent r) : Balanced server 0 r := by
  cases h with
  | ignored => exact balanced_of_answers hinv rfl (fun s hs => by cases hs)
  | rejected => exact balanced_of_answers hinv rfl (fun s hs => (mem_respondWithError hs).1)
  | refused => exact balanced_of_answers hinv rfl (fun s hs => (mem_respondWithError hs).1)
  | fromTable haccepted htable =>
    exact balanced_of_answers hinv rfl (fun s hs => (directAnswer_of_table haccepted htable hs).cause)
  | cached => exact balanced_of_answers hinv rfl (fun s hs => by rw [List.mem_singleton.mp hs])
  | forwarded _ _ _ hid hfree hsent =>
    subst hsent
    exact ⟨hinv.fill _ hid hfree, rfl⟩
  | @unsent parsed cache id _ _ _ hid hfree hsent =>
    subst hsent
    have hfilled := hinv.fill (pendingQuery packet parsed clientAddr nowMs) hid hfree
    refine ⟨hfilled.clear ?_, rfl⟩
    rw [slots_fill_self]
    rfl

theorem step_balanced {server : DrServer} (hinv : PendingInv server.pendingMap) (e : Event) :
    Balanced server (expiriesIn server e) (step server e) := by
  cases e with
  | tick nowMs sents => exact balanced_tick hinv nowMs sents
  | datagram d nowMs sent =>
    rw [step]
    rcases receive_outcome server d nowMs sent with ⟨_, houtcome⟩ | ⟨_, houtcome⟩
    · exact balanced_upstream hinv houtcome
    · exact balanced_client hinv houtcome

section Run

variable (start : DrServer) (run : Nat → Event)

/-- The queries forwarded by the first `n` events. -/
def forwards (n : Nat) : Nat := ∑ m ∈ Finset.range n, forwardsIn (outputAt step start run m)

def relays (n : Nat) : Nat := ∑ m ∈ Finset.range n, relaysIn (outputAt step start run m)

def expiries (n : Nat) : Nat :=
  ∑ m ∈ Finset.range n, expiriesIn (stateAt step start run m) (run m)

variable {start run}

theorem pendingInv_stateAt (h : PendingInv start.pendingMap) (n : Nat) :
    PendingInv (stateAt step start run n).pendingMap :=
  stateAt_invariant (P := fun server : DrServer => PendingInv server.pendingMap)
    (fun _ e h => (step_balanced h e).inv) h run n

theorem books_balance (h : PendingInv start.pendingMap) (hempty : start.pendingMap.activeCount = 0)
    (n : Nat) : forwards start run n =
      relays start run n + expiries start run n + (stateAt step start run n).pendingMap.activeCount := by
  induction n with
  | zero =>
    simp [forwards, relays, expiries, stateAt, hempty]
  | succ n ih =>
    have hinv : PendingInv (stateAt step start run n).pendingMap := pendingInv_stateAt h n
    have hstep := (step_balanced hinv (run n)).count
    rw [forwards, relays, expiries, Finset.sum_range_succ, Finset.sum_range_succ,
      Finset.sum_range_succ, ← forwards, ← relays, ← expiries, stateAt, ih]
    rw [outputAt]
    omega

end Run

theorem card_allIds : allIds.card = DR_PENDING_SLOT_COUNT := by
  rw [allIds, Finset.card_image_of_injOn, Finset.card_range]
  intro a ha b hb heq
  have hlt := Finset.mem_range.mp (Finset.mem_coe.mp ha)
  have hlt' := Finset.mem_range.mp (Finset.mem_coe.mp hb)
  have hnat : a % 65536 = b % 65536 := by
    rw [← UInt16.toNat_ofNat', ← UInt16.toNat_ofNat', heq]
  simp only [DR_PENDING_SLOT_COUNT] at hlt hlt'
  omega

/-- The counter has its largest value when every ID but 0 is taken. -/
theorem pendingInv_full_iff {map : DrPendingMap} (h : PendingInv map) :
    (∀ id, id ≠ 0 → (map.slots id).active = true) ↔ map.activeCount = DR_PENDING_SLOT_COUNT - 1 := by
  have hsubset : map.activeIds ⊆ allIds.erase 0 := by
    intro id hid
    refine Finset.mem_erase.mpr ⟨?_, mem_allIds id⟩
    rintro rfl
    rw [mem_activeIds, h.reserved] at hid
    cases hid
  have hcard : (allIds.erase 0).card = DR_PENDING_SLOT_COUNT - 1 := by
    rw [Finset.card_erase_of_mem (mem_allIds 0), card_allIds]
  rw [h.counted, ← hcard]
  constructor
  · intro hall
    have hsame : map.activeIds = allIds.erase 0 :=
      hsubset.antisymm (fun id hid => mem_activeIds.mpr (hall id (Finset.mem_erase.mp hid).1))
    rw [hsame]
  · intro heq id hid
    have hsame := Finset.eq_of_subset_of_card_le hsubset heq.ge
    rw [← mem_activeIds, hsame]
    exact Finset.mem_erase.mpr ⟨hid, mem_allIds id⟩

/-- In every run the forwards that were sent are the relays, the requests given up and the pending
ones. A query for the upstream server is refused exactly when the forwards are 65535 ahead of the
relays and the requests given up, and is forwarded otherwise. -/
theorem refused_iff_full (timeoutMs : UInt32) (upstream : Sockaddr) (table : DrLocalTable)
    (capacity : Nat) (run : Nat → Event) (n : Nat) :
    let start := drServerStart timeoutMs upstream table capacity
    let server := stateAt step start run n
    forwards start run n = relays start run n + expiries start run n + server.pendingMap.activeCount ∧
    ∀ d nowMs sent parsed, run n = .datagram d nowMs sent → Accepted d.packet parsed →
      1 ≤ d.src.length → d.src.length ≤ sizeofSockaddrStorage →
      ¬ Reserved table (cstr parsed.qname, parsed.qtype, parsed.qclass) →
      (drCacheLookup server.cache (cstr parsed.qname) parsed.qtype parsed.qclass nowMs parsed.id).2 =
        none →
      (forwards start run n = relays start run n + expiries start run n + 65535 →
        outputAt step start run n =
          respondWithError d.packet DR_DNS_RCODE_REFUSED .answer d.src sent) ∧
      (forwards start run n ≠ relays start run n + expiries start run n + 65535 →
        ∃ id, outputAt step start run n = [{ cause := .forward id, packet := drDnsWriteId d.packet id,
                                             dst := upstream, sent }]) := by
  intro start server
  have hinv : PendingInv server.pendingMap := pendingInv_stateAt pendingInv_init n
  have hbooks : forwards start run n = relays start run n + expiries start run n +
      server.pendingMap.activeCount := books_balance pendingInv_init rfl n
  obtain ⟨_, hupstream, htable⟩ := settings_stateAt start run n
  refine ⟨hbooks, fun d nowMs sent parsed hevent haccepted hpos hle hremote hmiss => ?_⟩
  have hvalid : (pendingQuery d.packet parsed d.src nowMs).Valid :=
    ⟨d.received_pos, d.received_le, hpos, hle⟩
  have hlookup : drCacheLookup server.cache (cstr parsed.qname) parsed.qtype parsed.qclass nowMs
      parsed.id = ((drCacheLookup server.cache (cstr parsed.qname) parsed.qtype parsed.qclass nowMs
        parsed.id).1, none) := Prod.ext rfl hmiss
  have hsends : outputAt step start run n = (forwardQuery { server with
      cache := (drCacheLookup server.cache (cstr parsed.qname) parsed.qtype parsed.qclass nowMs
        parsed.id).1 } d.packet parsed d.src nowMs sent).2 := by
    rw [outputAt, hevent, step, receive_of_miss haccepted (htable ▸ hremote) hlookup]
  have hrefuses : (drPendingMapInsert server.pendingMap
        (pendingQuery d.packet parsed d.src nowMs)).2 = none ↔
      forwards start run n = relays start run n + expiries start run n + 65535 := by
    rw [drPendingMapInsert_eq_none_iff hvalid, pendingInv_full_iff hinv, hbooks, Nat.add_left_cancel_iff]
    rfl
  rw [hsends, forwardQuery]
  dsimp only
  rcases drPendingMapInsert_cases server.pendingMap (pendingQuery d.packet parsed d.src nowMs) with
    heq | ⟨id, _, _, heq⟩ <;> rw [heq] at hrefuses ⊢
  · exact ⟨fun _ => rfl, fun hroom => absurd (hrefuses.mp rfl) hroom⟩
  · refine ⟨fun hfull => absurd (hrefuses.mpr hfull) (Option.some_ne_none id), fun _ => ⟨id, ?_⟩⟩
    have hdst : server.upstreamAddr = upstream := hupstream
    rw [← hdst]
    cases sent <;> rfl

/-- The second query finds room. -/
theorem refused_iff_full_busyRun : ∃ id, outputAt step busyStart busyRun 2 =
    [{ cause := .forward id, packet := drDnsWriteId (letterQuery 0x62).packet id,
       dst := [2, 0, 0, 53, 8, 8, 8, 8], sent := true }] := by
  obtain ⟨hbooks, hdecides⟩ := refused_iff_full 5000 [2, 0, 0, 53, 8, 8, 8, 8] .zero 2 busyRun 2
  have hempty : (stateAt step (drServerStart 5000 [2, 0, 0, 53, 8, 8, 8, 8] .zero 2) busyRun
      2).pendingMap.activeCount = 0 := by decide +kernel
  have hmiss : (drCacheLookup (stateAt step busyStart busyRun 2).cache
      (cstr (0x62 :: List.replicate 255 0)) 1 1 0 7).2 = none := by decide +kernel
  have hremote : ¬ Reserved .zero (cstr (0x62 :: List.replicate 255 0), 1, 1) := by
    rintro ⟨_, hblocked | ⟨_, hhit⟩⟩
    · cases hblocked
    · cases hhit
  have hquery := hdecides (letterQuery 0x62) 0 true _ rfl letterQuery_accepted (by decide) (by decide)
    hremote hmiss
  refine hquery.2 (fun hfull => ?_)
  rw [hbooks, hempty] at hfull
  omega

end DnsRelay.Relay
