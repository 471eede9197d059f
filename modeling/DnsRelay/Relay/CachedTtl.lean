import DnsRelay.Relay.Outcomes
import DnsRelay.Store.CacheInvariant
import DnsRelay.Wire.AgedMessage

/-!
# Answers from the cache

A response stored by `maybe_cache_response` is handed out aged by the whole seconds
since it was stored. The entry is followed through any later calls on the cache that
do not store another response under its key.
-/
namespace DnsRelay.Relay

open DnsRelay.Foundation
open DnsRelay.Wire
open DnsRelay.Store

/-- A slot with a response stored at `storedMs`, whatever its key and its tick. -/
structure Holds (packet : Bytes) (patches : DrTtlPatchList) (minTtl : UInt32) (storedMs : UInt64)
    (e : DrCacheEntry) : Prop where
  packet : e.packet = packet
  patches : e.ttlPatches = patches
  stored : e.storedAtMs = storedMs
  expires : e.expireAtMs = storedMs + minTtl.toUInt64 * 1000

/-- The elapsed seconds of an entry that has not expired fit 32 bits and are fewer than the smallest
TTL. An expiry time that wrapped lies in front of the time the entry was stored. -/
theorem elapsed_of_unexpired {storedMs nowMs : UInt64} {minTtl : UInt32} (hle : storedMs ≤ nowMs)
    (hlt : nowMs < storedMs + minTtl.toUInt64 * 1000) :
    ((nowMs - storedMs) / 1000).toUInt32.toNat = (nowMs.toNat - storedMs.toNat) / 1000 ∧
      ((nowMs - storedMs) / 1000).toUInt32 < minTtl := by
  have hle := UInt64.le_iff_toNat_le.mp hle
  have hlt := UInt64.lt_iff_toNat_lt.mp hlt
  have hmin : minTtl.toNat < 4294967296 := minTtl.toNat_lt
  have hmul : (minTtl.toUInt64 * 1000).toNat = minTtl.toNat * 1000 := by
    rw [UInt64.toNat_mul, UInt32.toNat_toUInt64]
    exact Nat.mod_eq_of_lt (by change minTtl.toNat * 1000 < _; omega)
  rw [UInt64.toNat_add, hmul] at hlt
  have hage : nowMs.toNat - storedMs.toNat < minTtl.toNat * 1000 := by
    have hstored : storedMs.toNat < 18446744073709551616 := storedMs.toNat_lt
    omega
  have hdiv : ((nowMs - storedMs) / 1000).toNat = (nowMs.toNat - storedMs.toNat) / 1000 := by
    rw [UInt64.toNat_div, UInt64.toNat_sub_of_le _ _ (UInt64.le_iff_toNat_le.mpr hle)]
    rfl
  have hcast : ((nowMs - storedMs) / 1000).toUInt32.toNat =
      (nowMs.toNat - storedMs.toNat) / 1000 := by
    rw [UInt64.toNat_toUInt32, hdiv]
    omega
  exact ⟨hcast, UInt32.lt_iff_toNat_lt.mpr (by omega)⟩

/-- What a hit on a slot hands out. -/
theorem answer_aged {packet : Bytes} {patches : DrTtlPatchList} {minTtl : UInt32}
    {storedMs nowMs : UInt64} {e : DrCacheEntry} (h : Holds packet patches minTtl storedMs e)
    (hcollect : drDnsCollectTtls packet = .ok (patches, minTtl)) (hle : storedMs ≤ nowMs)
    (hlive : nowMs < e.expireAtMs) (clientId : UInt16) :
    Aged packet patches minTtl ((nowMs.toNat - storedMs.toNat) / 1000) clientId
      (e.answer nowMs clientId) := by
  rw [h.expires] at hlive
  obtain ⟨hcast, helapsed⟩ := elapsed_of_unexpired hle hlive
  have haged := aged_applyPatches hcollect helapsed clientId
  rw [hcast] at haged
  rw [DrCacheEntry.answer, h.packet, h.patches, h.stored, drDnsApplyTtlPatches_eq]
  exact haged

/-- Whatever the clock says, a hit hands out the response under the new ID. -/
theorem answer_rewritten {packet : Bytes} {patches : DrTtlPatchList} {minTtl : UInt32}
    {storedMs : UInt64} {e : DrCacheEntry} (h : Holds packet patches minTtl storedMs e)
    (hcollect : drDnsCollectTtls packet = .ok (patches, minTtl)) (nowMs : UInt64) (clientId : UInt16) :
    Rewritten packet patches clientId (e.answer nowMs clientId) := by
  rw [DrCacheEntry.answer, h.packet, h.patches, drDnsApplyTtlPatches_eq]
  exact rewritten_applyPatches hcollect _ clientId

/-- The slots in use under a key hold one response. -/
def KeyHolds (key : Question) (packet : Bytes) (patches : DrTtlPatchList) (minTtl : UInt32)
    (storedMs : UInt64) (cache : DrCache) : Prop :=
  ∀ e ∈ occupied cache.entries, e.question = key → Holds packet patches minTtl storedMs e

/-- No response is stored under the key along the calls. -/
def KeepsKey (key : Question) : DrCache → List CacheCall → Prop
  | _, [] => True
  | cache, call :: calls =>
    (call.putKey = some key → (CacheCall.step cache call).2 ≠ .stored true) ∧
      KeepsKey key (CacheCall.step cache call).1 calls

section Follow

variable {key : Question} {packet : Bytes} {patches : DrTtlPatchList} {minTtl : UInt32}
  {storedMs : UInt64} {cache : DrCache}

theorem holds_of_slotKept {nowMs : UInt64} {e e' : DrCacheEntry} (hkept : SlotKept nowMs e e')
    (huse : e'.inUse = true) (hkey : e'.question = key)
    (h : e.inUse = true → e.question = key → Holds packet patches minTtl storedMs e) :
    Holds packet patches minTtl storedMs e' := by
  rcases hkept with rfl | ⟨_, rfl⟩ | ⟨he, tick, rfl⟩
  · exact h huse hkey
  · cases huse
  · obtain ⟨hpacket, hpatches, hstored, hexpires⟩ := h he hkey
    exact ⟨hpacket, hpatches, hstored, hexpires⟩

/-- Calls that store nothing under the key leave its entry as it is, up to the tick. -/
theorem KeyHolds.step (h : KeyHolds key packet patches minTtl storedMs cache) {call : CacheCall}
    (hname : call.NameFits)
    (hother : call.putKey = some key → (CacheCall.step cache call).2 ≠ .stored true) :
    KeyHolds key packet patches minTtl storedMs (CacheCall.step cache call).1 := by
  have hkeep {nowMs : UInt64} {cache' : DrCache}
      (hslots : List.Forall₂ (SlotKept nowMs) cache.entries cache'.entries) :
      KeyHolds key packet patches minTtl storedMs cache' := by
    intro e' he' hkey
    obtain ⟨hmem, huse⟩ := mem_occupied.mp he'
    obtain ⟨e, he, hkept⟩ := mem_of_forall₂ hslots e' hmem
    exact holds_of_slotKept hkept huse hkey (fun hu => h e (mem_occupied.mpr ⟨he, hu⟩))
  cases call with
  | lookup qname qtype qclass nowMs clientId =>
    exact hkeep (drCacheLookup_slots cache qname qtype qclass nowMs clientId)
  | expire nowMs => exact hkeep (drCacheExpire_slots cache nowMs)
  | put qname qtype qclass packet' patches' minTtl' nowMs =>
    by_cases hkeyed : (CacheCall.put qname qtype qclass packet' patches' minTtl' nowMs).putKey =
        some key
    · -- a put under the key that was turned down
      have hnot := hother hkeyed
      rcases drCachePut_cases cache qname qtype qclass packet' patches' minTtl' nowMs with
        ⟨heq, _⟩ | ⟨_, _, pre, m, suf, size, _, heq, _⟩
      · rw [CacheCall.step, heq]
        exact h
      · rw [CacheCall.step, heq] at hnot
        exact absurd rfl hnot
    · intro e' he' hkey
      obtain ⟨hmem, huse⟩ := mem_occupied.mp he'
      obtain ⟨e, he, hkept | rfl⟩ := mem_of_forall₂
        (drCachePut_slots cache qname qtype qclass packet' patches' minTtl' nowMs) e' hmem
      · exact holds_of_slotKept hkept huse hkey (fun hu => h e (mem_occupied.mpr ⟨he, hu⟩))
      · refine absurd ?_ hkeyed
        rw [← hkey, question_newEntry hname]
        rfl

theorem KeyHolds.after {calls : List CacheCall}
    (h : KeyHolds key packet patches minTtl storedMs cache) (hname : ∀ call ∈ calls, call.NameFits)
    (hkeeps : KeepsKey key cache calls) :
    KeyHolds key packet patches minTtl storedMs (after CacheCall.step cache calls) := by
  induction calls generalizing cache with
  | nil => exact h
  | cons call calls ih =>
    exact ih (h.step (hname call List.mem_cons_self) hkeeps.1)
      (fun c hc => hname c (List.mem_cons_of_mem _ hc)) hkeeps.2

/-- A put leaves its response as the only one under its key. -/
theorem keyHolds_put {capacity : Nat} (hinv : CacheInv capacity cache) {qname : CString}
    (hname : qname.octets.length ≤ DR_DNS_MAX_DOMAIN_LEN) (qtype qclass : UInt16) (nowMs : UInt64)
    (hstored : (drCachePut cache qname qtype qclass packet patches minTtl nowMs).2 = true) :
    KeyHolds (qname, qtype, qclass) packet patches minTtl nowMs
      (drCachePut cache qname qtype qclass packet patches minTtl nowMs).1 := by
  have hnext := hinv.put hname qtype qclass packet patches minTtl nowMs
  rcases drCachePut_cases cache qname qtype qclass packet patches minTtl nowMs with
    ⟨heq, _⟩ | ⟨_, _, pre, m, suf, size, _, heq, _⟩
  · rw [heq] at hstored
    cases hstored
  · rw [heq] at hnext ⊢
    intro e he hkey
    obtain ⟨hmem, huse⟩ := mem_occupied.mp he
    have hnew : e = newEntry qname qtype qclass packet patches minTtl nowMs (cache.tick + 1) := by
      apply hnext.eq_of_question hmem huse (by simp) rfl
      rw [hkey, question_newEntry hname]
    rw [hnew]
    exact ⟨rfl, rfl, rfl, rfl⟩

end Follow

/-- Whatever is called on the cache between storing a response and a hit on it, the hit hands out
the response aged by the seconds since it was stored. -/
theorem cached_response_ages (capacity : Nat) (server server' : DrServer)
    (request : DrPendingRequest) (packet : Bytes) (storedMs : UInt64) (earlier later : List CacheCall)
    (hserver : server.cache = after CacheCall.step (drCacheInit capacity) earlier)
    (hname : request.qname.octets.length ≤ DR_DNS_MAX_DOMAIN_LEN)
    (hearlier : ∀ call ∈ earlier, call.NameFits) (hlater : ∀ call ∈ later, call.NameFits)
    (hstored : maybeCacheResponse server request packet storedMs = (server', true))
    (hkeeps : KeepsKey (request.qname, request.qtype, request.qclass) server'.cache later)
    (nowMs : UInt64) (hle : storedMs ≤ nowMs) (clientId : UInt16) (cache : DrCache) (out : Bytes)
    (hhit : drCacheLookup (after CacheCall.step server'.cache later) request.qname request.qtype
      request.qclass nowMs clientId = (cache, some out)) :
    ∃ patches minTtl, drDnsCollectTtls packet = .ok (patches, minTtl) ∧
      ((nowMs - storedMs) / 1000).toUInt32.toNat = (nowMs.toNat - storedMs.toNat) / 1000 ∧
      (∀ p ∈ patches.items, ((nowMs - storedMs) / 1000).toUInt32 < p.originalTtl) ∧
      Aged packet patches minTtl ((nowMs.toNat - storedMs.toNat) / 1000) clientId out := by
  have hinv := cacheInv_after capacity hearlier
  rw [← hserver] at hinv
  rcases maybeCacheResponse_cases server request packet storedMs with
    heq | ⟨patches, minTtl, _, hcollect, _, hworth, heq⟩
  · rw [heq] at hstored
    cases hstored
  rw [heq] at hstored
  obtain ⟨hserver', haccepted⟩ := Prod.mk.inj hstored
  have hholds := keyHolds_put hinv hname request.qtype request.qclass storedMs haccepted
  rw [← hserver'] at hkeeps hhit
  have hafter := hholds.after hlater hkeeps
  rcases drCacheLookup_cases _ request.qname request.qtype request.qclass nowMs clientId with
    ⟨hmiss, _⟩ | ⟨pre, m, suf, hsplit, hm, _, hfound⟩
  · rw [hmiss] at hhit
    cases hhit
  · rw [hfound] at hhit
    obtain ⟨hlive, hkey⟩ := (hits_iff m request.qname request.qtype request.qclass nowMs).mp hm
    obtain ⟨huse, hunexpired⟩ := (liveAt_iff m _).mp hlive
    have hm := hafter m (mem_occupied.mpr ⟨by rw [hsplit]; simp, huse⟩) hkey
    have hlt := UInt64.lt_iff_toNat_lt.mpr hunexpired
    have haged := answer_aged hm hcollect hle hlt clientId
    rw [hm.expires] at hlt
    obtain ⟨hcast, helapsed⟩ := elapsed_of_unexpired hle hlt
    refine ⟨patches, minTtl, hcollect, hcast, fun p hp => ?_, ?_⟩
    · exact UInt32.lt_of_lt_of_le helapsed (minTtl_le_of_collect hcollect hworth p hp)
    · cases hhit
      exact haged

/-- An answer for the root name with one A record that is valid for 300 seconds. -/
def rootAnswer : Bytes :=
  [0, 7, 0x81, 0x80, 0, 1, 0, 1, 0, 0, 0, 0, 0, 0, 1, 0, 1,
    0, 0, 1, 0, 1, 0, 0, 1, 0x2c, 0, 4, 10, 0, 0, 9]

theorem cached_response_ages_rootAnswer : ∃ patches minTtl,
    drDnsCollectTtls rootAnswer = .ok (patches, minTtl) ∧
      Aged rootAnswer patches minTtl 61 9
        [0, 9, 0x81, 0x80, 0, 1, 0, 1, 0, 0, 0, 0, 0, 0, 1, 0, 1,
          0, 0, 1, 0, 1, 0, 0, 0, 0xef, 0, 4, 10, 0, 0, 9] := by
  obtain ⟨patches, minTtl, hcollect, _, _, haged⟩ := cached_response_ages 1
    (drServerStart 5000 [] .zero 1) _ (rootQuery.request 7) rootAnswer 5000 [] [] rfl (by decide)
    (by simp) (by simp) (Prod.ext rfl (by decide +kernel)) trivial 66500 (by decide) 9 _
    [0, 9, 0x81, 0x80, 0, 1, 0, 1, 0, 0, 0, 0, 0, 0, 1, 0, 1,
      0, 0, 1, 0, 1, 0, 0, 0, 0xef, 0, 4, 10, 0, 0, 9] (Prod.ext rfl (by decide +kernel))
  exact ⟨patches, minTtl, hcollect, haged⟩

end DnsRelay.Relay
