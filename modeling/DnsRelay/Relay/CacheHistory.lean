import DnsRelay.Relay.LocalPriority

/-!
# Where the cached responses come from

Every slot in use is traced back to the upstream datagram that was stored in it. The
shape of the slot array, one slot for each key and the size counting them, is kept by
any run; the ticks tell the slots apart until the 64-bit counter wraps, which takes
2^64 accesses.
-/
namespace DnsRelay.Relay

open DnsRelay.Foundation
open DnsRelay.Wire
open DnsRelay.Store

section History

variable (start : DrServer) (run : Nat → Event)

/-- The slot holds what the event `m` of a run brought. -/
def StoredBy (m : Nat) (e : DrCacheEntry) : Prop :=
  ∃ d sent request responseQuery minTtl, run m = .datagram d e.storedAtMs sent ∧
    Authentic (stateAt step start run m) d request responseQuery ∧
    e.packet = d.packet ∧ e.question = (request.qname, request.qtype, request.qclass) ∧
    drDnsGetRcode d.packet = DR_DNS_RCODE_NOERROR ∧
    drDnsCollectTtls d.packet = .ok (e.ttlPatches, minTtl) ∧ 1 ≤ e.ttlPatches.count ∧
    1 ≤ minTtl.toNat ∧ e.expireAtMs = e.storedAtMs + minTtl.toUInt64 * 1000

variable {start run}

theorem StoredBy.touch {m : Nat} {e : DrCacheEntry} (h : StoredBy start run m e) (tick : UInt64) :
    StoredBy start run m (e.touch tick) := h

theorem storedBy_newEntry {m : Nat} {d : Datagram} {nowMs : UInt64} {sent : Bool}
    {request : DrPendingRequest} {patches : DrTtlPatchList} {minTtl : UInt32}
    (hevent : run m = .datagram d nowMs sent)
    (h : Cacheable (stateAt step start run m) d request patches minTtl) (tick : UInt64) :
    StoredBy start run m (newEntry request.qname request.qtype request.qclass d.packet patches minTtl
      nowMs tick) := by
  obtain ⟨responseQuery, hauthentic⟩ := h.authentic
  refine ⟨d, sent, request, responseQuery, minTtl, hevent, hauthentic, rfl, ?_, h.noerror,
    h.collected, Nat.one_le_iff_ne_zero.mpr h.patched, ?_, rfl⟩
  · exact question_newEntry hauthentic.answers.qname_le
  · exact Nat.one_le_iff_ne_zero.mpr (fun h0 => h.positive (UInt32.toNat_inj.mp h0))

/-- Every slot in use was stored by an earlier event of the run. -/
theorem storedBy_of_occupied (hempty : occupied start.cache.entries = []) (n : Nat) :
    ∀ e ∈ occupied (stateAt step start run n).cache.entries, ∃ m, m < n ∧ StoredBy start run m e := by
  induction n with
  | zero =>
    intro e he
    rw [stateAt, hempty] at he
    cases he
  | succ n ih =>
    intro e he
    rcases step_occupied he with
      ⟨old, hold, tick, rfl⟩ | ⟨d, nowMs, sent, request, patches, minTtl, hevent, hcacheable, rfl⟩
    · obtain ⟨m, hm, hstored⟩ := ih old hold
      exact ⟨m, Nat.lt_succ_of_lt hm, hstored.touch tick⟩
    · exact ⟨n, Nat.lt_succ_self n, storedBy_newEntry hevent hcacheable _⟩

end History

theorem cacheInv_step {capacity : Nat} {server : DrServer} (h : CacheInv capacity server.cache)
    (e : Event) : CacheInv capacity (step server e).1.cache := by
  cases e with
  | tick nowMs sent => exact h.expire nowMs
  | datagram d nowMs sent =>
    rw [step]
    rcases receive_cache server d nowMs sent with heq | ⟨call, hname, heq⟩ <;> rw [heq]
    · exact h
    · exact h.step hname

theorem cacheInv_stateAt (timeoutMs : UInt32) (upstream : Sockaddr) (table : DrLocalTable)
    (capacity : Nat) (run : Nat → Event) (n : Nat) :
    CacheInv capacity (stateAt step (drServerStart timeoutMs upstream table capacity) run n).cache :=
  stateAt_invariant (P := fun server : DrServer => CacheInv capacity server.cache)
    (fun _ e h => cacheInv_step h e) (CacheInv.init capacity) run n

def Event.isDatagram : Event → Bool
  | .tick _ _ => false
  | .datagram _ _ _ => true

/-- The datagrams among the first `n` events of a run. -/
def datagrams (run : Nat → Event) (n : Nat) : Nat :=
  (List.range n).countP (fun m => (run m).isDatagram)

theorem datagrams_succ (run : Nat → Event) (n : Nat) :
    datagrams run (n + 1) = datagrams run n + if (run n).isDatagram then 1 else 0 := by
  rw [datagrams, List.range_succ, List.countP_append, List.countP_singleton]
  rfl

/-- The counter runs behind the number of datagrams, so it does not wrap before they are 2^64. -/
theorem tickInv_stateAt {start : DrServer} {run : Nat → Event} (htick : start.cache.tick = 0)
    (hstart : TickInv start.cache) (n : Nat) (hcount : datagrams run n < 2 ^ 64) :
    TickInv (stateAt step start run n).cache ∧
      (stateAt step start run n).cache.tick.toNat ≤ datagrams run n := by
  induction n with
  | zero =>
    rw [stateAt, htick]
    exact ⟨hstart, Nat.zero_le _⟩
  | succ n ih =>
    rw [datagrams_succ] at hcount ⊢
    rw [stateAt]
    obtain ⟨hinv, hle⟩ := ih (by omega)
    cases hevent : run n with
    | tick nowMs sent =>
      rw [hevent] at hcount
      refine ⟨hinv.expire nowMs, ?_⟩
      rw [step]
      change (drCacheExpire _ nowMs).tick.toNat ≤ _
      rw [drCacheExpire_eq]
      exact hle.trans (Nat.le_add_right _ _)
    | datagram d nowMs sent =>
      rw [hevent] at hcount
      have hnext : datagrams run n + 1 < 2 ^ 64 := hcount
      rw [step]
      rcases receive_cache (stateAt step start run n) d nowMs sent with heq | ⟨call, _, heq⟩ <;>
        rw [heq]
      · exact ⟨hinv, hle.trans (Nat.le_add_right _ _)⟩
      · refine ⟨hinv.step (by omega) call, ?_⟩
        have hstep := tick_step_le (show (stateAt step start run n).cache.tick.toNat + 1 < 2 ^ 64 by
          omega) call
        change _ ≤ datagrams run n + 1
        omega

/-- The cache after any run: one slot for each key, the size counting them, and every response as
the upstream server sent it. The ticks are distinct until 2^64 datagrams have come in. -/
theorem cached_responses_traced (timeoutMs : UInt32) (upstream : Sockaddr) (table : DrLocalTable)
    (capacity : Nat) (run : Nat → Event) (n : Nat) :
    let start := drServerStart timeoutMs upstream table capacity
    let cache := (stateAt step start run n).cache
    cache.size = (occupied cache.entries).length ∧ cache.size ≤ capacity ∧
    ((occupied cache.entries).map DrCacheEntry.question).Nodup ∧
    (datagrams run n < 2 ^ 64 →
      ((occupied cache.entries).map DrCacheEntry.lastUsedTick).Nodup ∧
      ∀ e ∈ occupied cache.entries, e.lastUsedTick ≤ cache.tick) ∧
    ∀ e ∈ occupied cache.entries, ∃ m, m < n ∧ ∃ d sent request parsed minTtl,
      run m = .datagram d e.storedAtMs sent ∧
      drSockaddrEqual d.src upstream = true ∧
      drPendingMapGet (stateAt step start run m).pendingMap (drDnsReadId d.packet) = some request ∧
      e.question = (request.qname, request.qtype, request.qclass) ∧
      e.packet = d.packet ∧ u16At e.packet 2 &&& 0x8000 ≠ 0 ∧
      drDnsGetRcode e.packet = DR_DNS_RCODE_NOERROR ∧
      drDnsParseQuery e.packet = .ok parsed ∧
      (cstr parsed.qname, parsed.qtype, parsed.qclass) = e.question ∧
      drDnsCollectTtls e.packet = .ok (e.ttlPatches, minTtl) ∧ 1 ≤ e.ttlPatches.count ∧
      1 ≤ minTtl.toNat ∧ e.expireAtMs = e.storedAtMs + 1000 * minTtl.toUInt64 ∧
      (e.storedAtMs.toNat + 1000 * minTtl.toNat < 2 ^ 64 →
        e.expireAtMs.toNat = e.storedAtMs.toNat + 1000 * minTtl.toNat) := by
  intro start cache
  have hinv : CacheInv capacity cache := cacheInv_stateAt timeoutMs upstream table capacity run n
  refine ⟨hinv.counted, hinv.size_le, hinv.keys, fun hcount => ?_, fun e he => ?_⟩
  · have hempty : TickInv start.cache := TickInv.init capacity
    obtain ⟨hticks, _⟩ := tickInv_stateAt rfl hempty n hcount
    exact ⟨hticks.distinct, hticks.reached⟩
  · obtain ⟨m, hm, d, sent, request, responseQuery, minTtl, hevent, hauthentic, hpacket, hkey,
      hrcode, hcollect, hpatched, hpositive, hexpires⟩ :=
      storedBy_of_occupied (occupied_init capacity) n e he
    have hupstream : (stateAt step start run m).upstreamAddr = upstream :=
      (settings_stateAt start run m).upstream
    have hsource := hauthentic.source
    rw [hupstream] at hsource
    refine ⟨m, hm, d, sent, request, responseQuery, minTtl, hevent, hsource,
      hauthentic.answers.pending, hkey, hpacket, ?_⟩
    rw [hpacket, hkey]
    refine ⟨hauthentic.response, hrcode, hauthentic.answers.parses, ?_, hcollect, hpatched, hpositive,
      ?_, fun hroom => ?_⟩
    · rw [hauthentic.answers.qname, hauthentic.answers.qtype, hauthentic.answers.qclass]
    · rw [hexpires, UInt64.mul_comm]
    · rw [hexpires, newEntry_expiresAt (by omega), Nat.mul_comm]

/-- A query for the address of a name of one letter, from 10.0.0.9. -/
def letterQuery (letter : UInt8) : Datagram where
  src := [2, 0, 0x30, 0x39, 10, 0, 0, 9]
  packet := [0, 7, 1, 0, 0, 1, 0, 0, 0, 0, 0, 0, 1, letter, 0, 0, 1, 0, 1]
  received_pos := by simp
  received_le := by simp [DR_DNS_MAX_PACKET_SIZE]

/-- The answer of 8.8.8.8 under an ID, valid for 300 seconds. -/
def letterAnswer (id : UInt8) (letter : UInt8) : Datagram where
  src := [2, 0, 0, 53, 8, 8, 8, 8]
  packet := [0, id, 0x81, 0x80, 0, 1, 0, 1, 0, 0, 0, 0, 1, letter, 0, 0, 1, 0, 1,
    0xc0, 0x0c, 0, 1, 0, 1, 0, 0, 1, 0x2c, 0, 4, 10, 0, 0, 8]
  received_pos := by simp
  received_le := by simp [DR_DNS_MAX_PACKET_SIZE]

/-- Two names are looked up and cached, then the second is asked for again and again. -/
def busyRun : Nat → Event
  | 0 => .datagram (letterQuery 0x61) 0 true
  | 1 => .datagram (letterAnswer 1 0x61) 0 true
  | 2 => .datagram (letterQuery 0x62) 0 true
  | 3 => .datagram (letterAnswer 2 0x62) 0 true
  | _ + 4 => .datagram (letterQuery 0x62) 0 true

def busyStart : DrServer := drServerStart 5000 [2, 0, 0, 53, 8, 8, 8, 8] .zero 2

/-- The cached answer for a letter. -/
def letterEntry (id letter : UInt8) (tick : UInt64) : DrCacheEntry :=
  newEntry (cstr [letter]) 1 1 (letterAnswer id letter).packet ⟨[⟨25, 300⟩], by decide⟩ 300 0 tick

/-- The cache of the run with the counter at `tick`. -/
def busyCache (tick : UInt64) : DrCache where
  entries := [letterEntry 1 0x61 1, letterEntry 2 0x62 tick]
  size := 2
  tick := tick

theorem busyRun_four : (stateAt step busyStart busyRun 4).cache = busyCache 2 := by
  decide +kernel

theorem busyCache_lookup (tick : UInt64) : ∃ answer,
    drCacheLookup (busyCache tick) (cstr [0x62]) 1 1 0 7 = (busyCache (tick + 1), some answer) :=
  ⟨_, rfl⟩

theorem letterQuery_accepted : Accepted (letterQuery 0x62).packet
    ⟨7, 0x0100, 1, 1, 0, 0, 0x62 :: List.replicate 255 0, 19⟩ :=
  ⟨by decide +kernel, by decide +kernel, by decide +kernel⟩

/-- Every further query moves the counter on by one. -/
theorem busyRun_cache (k : Nat) :
    (stateAt step busyStart busyRun (k + 4)).cache = busyCache (2 + UInt64.ofNat k) := by
  induction k with
  | zero => exact busyRun_four
  | succ k ih =>
    have htable : (stateAt step busyStart busyRun (k + 4)).localTable = .zero :=
      (settings_stateAt busyStart busyRun (k + 4)).table
    have hremote : ¬ Reserved (stateAt step busyStart busyRun (k + 4)).localTable
        (cstr (0x62 :: List.replicate 255 0), 1, 1) := by
      rw [htable]
      rintro ⟨_, hblocked | ⟨_, hhit⟩⟩
      · cases hblocked
      · cases hhit
    obtain ⟨answer, hlookup⟩ := busyCache_lookup (2 + UInt64.ofNat k)
    have hname : cstr (0x62 :: List.replicate 255 0) = cstr [0x62] := by decide +kernel
    rw [← ih, ← hname] at hlookup
    have hevent : busyRun (k + 4) = .datagram (letterQuery 0x62) 0 true := rfl
    rw [show k + 1 + 4 = k + 4 + 1 from rfl, stateAt, hevent, step,
      receive_of_hit letterQuery_accepted hremote hlookup true, UInt64.ofNat_add, ← UInt64.add_assoc]
    rfl

theorem cached_responses_traced_busyRun :
    (stateAt step busyStart busyRun 4).cache.size = 2 ∧
      ((occupied (stateAt step busyStart busyRun 4).cache.entries).map
        DrCacheEntry.lastUsedTick).Nodup := by
  have htraced := cached_responses_traced 5000 [2, 0, 0, 53, 8, 8, 8, 8] .zero 2 busyRun 4
  have hcount : datagrams busyRun 4 < 2 ^ 64 := by decide +kernel
  refine ⟨by rw [busyRun_four, busyCache], ?_⟩
  rw [busyStart]
  exact (htraced.2.2.2.1 hcount).1

/-- After 2^64 accesses the counter is back at 0 and behind the ticks it gave out, and one access
later it gives the first tick out again. -/
theorem busyRun_ticks_wrap :
    (∃ e ∈ occupied (stateAt step busyStart busyRun (2 ^ 64 + 2)).cache.entries,
      ¬ e.lastUsedTick ≤ (stateAt step busyStart busyRun (2 ^ 64 + 2)).cache.tick) ∧
    ¬ ((occupied (stateAt step busyStart busyRun (2 ^ 64 + 3)).cache.entries).map
      DrCacheEntry.lastUsedTick).Nodup := by
  constructor
  · rw [show 2 ^ 64 + 2 = (2 ^ 64 - 2) + 4 from rfl, busyRun_cache]
    exact ⟨letterEntry 1 0x61 1, by decide +kernel, by decide +kernel⟩
  · rw [show 2 ^ 64 + 3 = (2 ^ 64 - 1) + 4 from rfl, busyRun_cache]
    decide +kernel

end DnsRelay.Relay
