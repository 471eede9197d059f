import DnsRelay.Foundation.Recency
import DnsRelay.Foundation.Transition
import DnsRelay.Store.Cache

/-!
# The cache refines a recency list

The slots of the cache, read in decreasing order of `last_used_tick` and without the
expired ones, are the live entries of a recency list. Expired slots are removed
lazily, so the relation compares live parts only; it is kept by put, lookup and
expire as long as time does not run backwards.
-/
namespace DnsRelay.Store

open DnsRelay.Foundation
open DnsRelay.Wire

/-- The question triple a cache entry is filed under. -/
abbrev Question := CString × UInt16 × UInt16

/-- What an entry holds besides its key, its expiry and its recency. -/
structure StoredResponse where
  packet : Bytes
  ttlPatches : DrTtlPatchList
  storedAtMs : UInt64

/-- The packet a hit hands out, as computed from the stored data. -/
def StoredResponse.answer (r : StoredResponse) (nowMs : UInt64) (clientId : UInt16) : Bytes :=
  { clearEntry with
      packet := r.packet
      ttlPatches := r.ttlPatches
      storedAtMs := r.storedAtMs }.answer nowMs clientId

namespace DrCacheEntry

def question (e : DrCacheEntry) : Question := (e.qname, e.qtype, e.qclass)

def dated (e : DrCacheEntry) : Dated Question StoredResponse where
  key := e.question
  value := { packet := e.packet, ttlPatches := e.ttlPatches, storedAtMs := e.storedAtMs }
  expiresAt := e.expireAtMs.toNat

/-- In use and not expired at a time. -/
def liveAt (now : Nat) (e : DrCacheEntry) : Bool := e.inUse && now < e.expireAtMs.toNat

def stamp (e : DrCacheEntry) : Nat := e.lastUsedTick.toNat

end DrCacheEntry

theorem liveAt_iff (e : DrCacheEntry) (now : Nat) :
    e.liveAt now = true ↔ e.inUse = true ∧ now < e.expireAtMs.toNat := by
  simp [DrCacheEntry.liveAt]

theorem live_dated {e : DrCacheEntry} {now : Nat} (h : e.liveAt now = true) :
    Recency.live now e.dated = true :=
  decide_eq_true ((liveAt_iff e now).mp h).2

theorem expired_iff (e : DrCacheEntry) (nowMs : UInt64) :
    e.expired nowMs = true ↔ e.inUse = true ∧ ¬ e.liveAt nowMs.toNat = true := by
  rw [liveAt_iff, DrCacheEntry.expired, Bool.and_eq_true, decide_eq_true_eq,
    UInt64.le_iff_toNat_le]
  constructor
  · intro hexpired
    obtain ⟨huse, hle⟩ := hexpired
    exact ⟨huse, fun hlive => by omega⟩
  · intro hdead
    obtain ⟨huse, hdead⟩ := hdead
    exact ⟨huse, Nat.le_of_not_lt (fun hlt => hdead ⟨huse, hlt⟩)⟩

theorem isMatch_iff (e : DrCacheEntry) (qname : CString) (qtype qclass : UInt16) :
    isMatch e qname qtype qclass = true ↔ e.inUse = true ∧ e.question = (qname, qtype, qclass) := by
  simp only [isMatch, DrCacheEntry.question, Bool.and_eq_true, beq_iff_eq, Prod.mk.injEq]
  tauto

theorem hits_iff (e : DrCacheEntry) (qname : CString) (qtype qclass : UInt16) (nowMs : UInt64) :
    e.hits qname qtype qclass nowMs = true ↔
      e.liveAt nowMs.toNat = true ∧ e.question = (qname, qtype, qclass) := by
  rw [DrCacheEntry.hits, Bool.and_eq_true, isMatch_iff, Bool.not_eq_true', ← Bool.not_eq_true,
    expired_iff]
  constructor
  · rintro ⟨⟨huse, hkey⟩, hnot⟩
    exact ⟨by simpa [huse] using hnot, hkey⟩
  · intro hhit
    obtain ⟨hlive, hkey⟩ := hhit
    exact ⟨⟨((liveAt_iff e _).mp hlive).1, hkey⟩, fun hdead => hdead.2 hlive⟩

theorem inUse_of_hits {e : DrCacheEntry} {qname : CString} {qtype qclass : UInt16} {nowMs : UInt64}
    (h : e.hits qname qtype qclass nowMs = true) : e.inUse = true := by
  rw [DrCacheEntry.hits, Bool.and_eq_true, isMatch_iff] at h
  exact h.1.1

theorem question_of_hits {e : DrCacheEntry} {qname : CString} {qtype qclass : UInt16}
    {nowMs : UInt64} (h : e.hits qname qtype qclass nowMs = true) :
    e.question = (qname, qtype, qclass) :=
  ((hits_iff e qname qtype qclass nowMs).mp h).2

/-- Clearing expired slots does not touch the live part. -/
theorem filter_liveAt_purged (nowMs : UInt64) (entries : List DrCacheEntry) :
    (entries.map (DrCacheEntry.purged nowMs)).filter (DrCacheEntry.liveAt nowMs.toNat) =
      entries.filter (DrCacheEntry.liveAt nowMs.toNat) := by
  induction entries with
  | nil => rfl
  | cons e entries ih =>
    by_cases hexp : e.expired nowMs = true
    · have hdead := ((expired_iff e nowMs).mp hexp).2
      have hclear : clearEntry.liveAt nowMs.toNat = false := rfl
      simp [DrCacheEntry.purged, hexp, hdead, hclear, ih]
    · simp [DrCacheEntry.purged, hexp, List.filter_cons, ih]

structure CacheSim (capacity now : Nat) (cache : DrCache) (l : List (Dated Question StoredResponse))
    (ranked : List DrCacheEntry) : Prop where
  slots : cache.entries.length = capacity
  ranks : Ranked DrCacheEntry.stamp (DrCacheEntry.liveAt now) cache.entries ranked
  represents : ranked.map DrCacheEntry.dated = l.filter (Recency.live now)
  stamps : ∀ e ∈ ranked, e.stamp ≤ cache.tick.toNat
  bounded : Recency.Bounded capacity l

namespace CacheSim

variable {capacity now : Nat} {cache : DrCache} {l : List (Dated Question StoredResponse)}
  {ranked : List DrCacheEntry}

theorem advance (h : CacheSim capacity now cache l ranked) {later : Nat} (hle : now ≤ later) :
    CacheSim capacity later cache l (ranked.filter (DrCacheEntry.liveAt later)) where
  slots := h.slots
  ranks := h.ranks.filter (fun e he => by
    rw [liveAt_iff] at he ⊢
    exact ⟨he.1, by omega⟩)
  represents := by
    have huse : ∀ e ∈ ranked, e.liveAt later = Recency.live later e.dated := by
      intro e he
      have hlive := (liveAt_iff e now).mp (h.ranks.mem.mp he).2
      rw [DrCacheEntry.liveAt, hlive.1, Bool.true_and]
      rfl
    rw [List.filter_congr huse,
      show (fun e : DrCacheEntry => Recency.live later e.dated) =
        Recency.live later ∘ DrCacheEntry.dated from rfl, ← List.filter_map, h.represents,
      List.filter_filter]
    apply List.filter_congr
    intro d _
    simp only [Recency.live, Bool.and_eq_left_iff_imp, decide_eq_true_eq]
    omega
  stamps e he := h.stamps e (List.mem_filter.mp he).1
  bounded := h.bounded

theorem keys (h : CacheSim capacity now cache l ranked) :
    (ranked.map DrCacheEntry.question).Nodup := by
  have hsub := (List.filter_sublist (p := Recency.live now) (l := l)).map Dated.key
  have hnodup := h.bounded.keys.sublist hsub
  rw [← h.represents, List.map_map] at hnodup
  exact hnodup

theorem mem_list (h : CacheSim capacity now cache l ranked) {e : DrCacheEntry} (he : e ∈ ranked) :
    e.dated ∈ l ∧ Recency.live now e.dated = true := by
  have hmem : e.dated ∈ l.filter (Recency.live now) := h.represents ▸ List.mem_map_of_mem he
  exact List.mem_filter.mp hmem

theorem expire {nowMs : UInt64} (h : CacheSim capacity nowMs.toNat cache l ranked) :
    CacheSim capacity nowMs.toNat (drCacheExpire cache nowMs) (l.filter (Recency.live nowMs.toNat))
      ranked := by
  rw [drCacheExpire_eq]
  exact
    { slots := by rw [List.length_map]; exact h.slots
      ranks := h.ranks.congr (filter_liveAt_purged nowMs cache.entries)
      represents := by
        rw [h.represents, List.filter_filter]
        exact List.filter_congr (fun d _ => (Bool.and_self _).symm)
      stamps := h.stamps
      bounded := h.bounded.sublist List.filter_sublist }

/-- Entries under other keys, on both sides. -/
theorem others (h : CacheSim capacity now cache l ranked) (key : Question) :
    (ranked.filter (fun e => e.question ≠ key)).map DrCacheEntry.dated =
      Recency.others now key l := by
  rw [Recency.others, ← h.represents, List.filter_map]
  rfl

theorem no_key {qname : CString} {qtype qclass : UInt16} {nowMs : UInt64}
    (h : CacheSim capacity nowMs.toNat cache l ranked)
    (hnone : ∀ e ∈ ranked, e.hits qname qtype qclass nowMs = false) :
    ∀ e ∈ ranked, e.question ≠ (qname, qtype, qclass) := by
  intro e he hkey
  have hhit := (hits_iff e qname qtype qclass nowMs).mpr ⟨(h.ranks.mem.mp he).2, hkey⟩
  rw [hnone e he] at hhit
  cases hhit

theorem tick_succ (htick : cache.tick.toNat + 1 < 2 ^ 64) :
    (cache.tick + 1).toNat = cache.tick.toNat + 1 := by
  rw [UInt64.toNat_add]
  exact Nat.mod_eq_of_lt htick

/-- `x` is live and bears the stamp of the access at hand. -/
structure JustStamped (cache : DrCache) (now : Nat) (x : DrCacheEntry) : Prop where
  stamp : x.stamp = cache.tick.toNat + 1
  live : x.liveAt now = true

theorem newer (h : CacheSim capacity now cache l ranked) {x : DrCacheEntry}
    (hx : JustStamped cache now x) : ∀ a ∈ ranked, a.stamp < x.stamp := by
  intro a ha
  have hle := h.stamps a ha
  rw [hx.stamp]
  omega

section Write

variable {pre suf : List DrCacheEntry} {m x : DrCacheEntry} {size : Nat}

/-- One slot written with a fresh stamp: the relation holds again once the two sides agree. -/
theorem write {l' : List (Dated Question StoredResponse)} {ranked' : List DrCacheEntry}
    (h : CacheSim capacity now cache l ranked) (htick : cache.tick.toNat + 1 < 2 ^ 64)
    (hx : JustStamped cache now x) (hsub : ranked' ⊆ ranked)
    (hlen : (pre ++ m :: suf).length = capacity)
    (hranks : Ranked DrCacheEntry.stamp (DrCacheEntry.liveAt now) (pre ++ x :: suf) (x :: ranked'))
    (hrep : (x :: ranked').map DrCacheEntry.dated = l'.filter (Recency.live now))
    (hbounded : Recency.Bounded capacity l') :
    CacheSim capacity now { entries := pre ++ x :: suf, size, tick := cache.tick + 1 } l'
      (x :: ranked') where
  slots := by simpa using hlen
  ranks := hranks
  represents := hrep
  stamps e he := by
    dsimp only
    rw [tick_succ htick]
    rcases List.mem_cons.mp he with rfl | he
    · exact Nat.le_of_eq hx.stamp
    · exact Nat.le_succ_of_le (h.stamps e (hsub he))
  bounded := hbounded

/-- Writing over the live entry with the same key is an insertion: the others fit beside it. -/
theorem write_over (h : CacheSim capacity now cache l ranked)
    (htick : cache.tick.toNat + 1 < 2 ^ 64) (hcap : 1 ≤ capacity) (hx : JustStamped cache now x)
    (hlen : (pre ++ m :: suf).length = capacity)
    (hranks : Ranked DrCacheEntry.stamp (DrCacheEntry.liveAt now) (pre ++ m :: suf) ranked)
    (hm : m.liveAt now = true) (hkey : m.question = x.question) :
    ∃ ranked', CacheSim capacity now { entries := pre ++ x :: suf, size, tick := cache.tick + 1 }
      (Recency.insert capacity now x.dated l) ranked' := by
  have hmem : m ∈ ranked := hranks.mem.mpr ⟨by simp, hm⟩
  have hlt : (ranked.filter (fun e => e.question ≠ m.question)).length < ranked.length :=
    List.length_filter_lt_length_iff_exists.mpr ⟨m, hmem, by simp⟩
  have hcount := hranks.perm.length_eq
  have hle := List.length_filter_le (DrCacheEntry.liveAt now) (pre ++ m :: suf)
  have hroom : (Recency.others now x.question l).length < capacity := by
    rw [← h.others, List.length_map, ← hkey]
    omega
  refine ⟨_, h.write htick hx List.filter_sublist.subset hlen
    (hranks.replace h.keys hm hx.live (h.newer hx)) ?_ (h.bounded.insert hcap now x.dated)⟩
  rw [Recency.filter_live_insert (live_dated hx.live), Recency.insert_of_room hroom, List.map_cons,
    hkey, h.others]
  rfl

/-- With no entry under the key, the others are all the live entries. -/
theorem others_of_absent (h : CacheSim capacity now cache l ranked) {key : Question}
    (habsent : ∀ e ∈ ranked, e.question ≠ key) :
    ranked.map DrCacheEntry.dated = Recency.others now key l := by
  rw [← h.others, List.filter_eq_self.mpr (by simpa using habsent)]

/-- Writing into a slot that is not live is an insertion that evicts nothing. -/
theorem write_free (h : CacheSim capacity now cache l ranked)
    (htick : cache.tick.toNat + 1 < 2 ^ 64) (hcap : 1 ≤ capacity) (hx : JustStamped cache now x)
    (hlen : (pre ++ m :: suf).length = capacity)
    (hranks : Ranked DrCacheEntry.stamp (DrCacheEntry.liveAt now) (pre ++ m :: suf) ranked)
    (habsent : ∀ e ∈ ranked, e.question ≠ x.question) (hm : m.liveAt now = false) :
    ∃ ranked', CacheSim capacity now { entries := pre ++ x :: suf, size, tick := cache.tick + 1 }
      (Recency.insert capacity now x.dated l) ranked' := by
  have hcount := hranks.perm.length_eq
  have hroom : (Recency.others now x.question l).length < capacity := by
    have hle := List.length_filter_le (DrCacheEntry.liveAt now) (pre ++ suf)
    rw [List.filter_append, List.filter_cons_of_neg (by simp [hm]), ← List.filter_append] at hcount
    rw [← h.others_of_absent habsent, List.length_map]
    simp only [List.length_append, List.length_cons] at hlen hle
    omega
  refine ⟨_, h.write htick hx (List.Subset.refl _) hlen (hranks.fill hm hx.live (h.newer hx)) ?_
    (h.bounded.insert hcap now x.dated)⟩
  rw [Recency.filter_live_insert (live_dated hx.live), Recency.insert_of_room hroom, List.map_cons,
    h.others_of_absent habsent]
  rfl

/-- Writing over the oldest of slots that are all live is an insertion that evicts the last entry. -/
theorem write_oldest (h : CacheSim capacity now cache l ranked)
    (htick : cache.tick.toNat + 1 < 2 ^ 64) (hcap : 1 ≤ capacity) (hx : JustStamped cache now x)
    (hlen : (pre ++ m :: suf).length = capacity)
    (hranks : Ranked DrCacheEntry.stamp (DrCacheEntry.liveAt now) (pre ++ m :: suf) ranked)
    (habsent : ∀ e ∈ ranked, e.question ≠ x.question)
    (hfull : ∀ e ∈ pre ++ m :: suf, e.liveAt now = true)
    (holdest : ∀ e ∈ pre ++ m :: suf, m.stamp ≤ e.stamp) :
    ∃ ranked', CacheSim capacity now { entries := pre ++ x :: suf, size, tick := cache.tick + 1 }
      (Recency.insert capacity now x.dated l) ranked' := by
  have hcount := hranks.perm.length_eq
  rw [List.filter_eq_self.mpr hfull, hlen] at hcount
  have hroom : ¬ (Recency.others now x.question l).length < capacity := by
    rw [← h.others_of_absent habsent, List.length_map]
    omega
  refine ⟨_, h.write htick hx (List.dropLast_subset _) hlen
    (hranks.evict (hfull m (by simp)) hx.live (fun a ha => holdest a (hranks.mem.mp ha).1)
      (h.newer hx)) ?_ (h.bounded.insert hcap now x.dated)⟩
  rw [Recency.filter_live_insert (live_dated hx.live), Recency.insert_of_full hroom, List.map_cons,
    List.map_dropLast, h.others_of_absent habsent]
  rfl

end Write

/-- A lookup returns what the list holds and moves the same entry to the front. -/
theorem lookup {nowMs : UInt64} (h : CacheSim capacity nowMs.toNat cache l ranked)
    (htick : cache.tick.toNat + 1 < 2 ^ 64) (qname : CString) (qtype qclass : UInt16)
    (clientId : UInt16) :
    (drCacheLookup cache qname qtype qclass nowMs clientId).2 =
        (Recency.lookup nowMs.toNat (qname, qtype, qclass) l).2.map
          (fun d => d.value.answer nowMs clientId) ∧
      (∃ ranked', CacheSim capacity nowMs.toNat
        (drCacheLookup cache qname qtype qclass nowMs clientId).1
        (Recency.lookup nowMs.toNat (qname, qtype, qclass) l).1 ranked') ∧
      (drCacheLookup cache qname qtype qclass nowMs clientId).1.tick.toNat ≤
        cache.tick.toNat + 1 := by
  rcases drCacheLookup_cases cache qname qtype qclass nowMs clientId with
    ⟨heq, hnone⟩ | ⟨pre, m, suf, hsplit, hm, _, heq⟩
  · have habsent := h.no_key (fun e he => hnone e (h.ranks.mem.mp he).1)
    have hmiss : Recency.lookup nowMs.toNat (qname, qtype, qclass) l = (l, none) := by
      apply Recency.lookup_eq_none
      intro d hd
      rw [← h.represents] at hd
      obtain ⟨e, he, rfl⟩ := List.mem_map.mp hd
      exact habsent e he
    rw [heq, hmiss]
    refine ⟨rfl, ⟨ranked, ?_⟩, Nat.le_succ _⟩
    exact
      { slots := by rw [List.length_map]; exact h.slots
        ranks := h.ranks.congr (filter_liveAt_purged nowMs cache.entries)
        represents := h.represents
        stamps := h.stamps
        bounded := h.bounded }
  · obtain ⟨hlive, hkey⟩ := (hits_iff m qname qtype qclass nowMs).mp hm
    have hranks : Ranked DrCacheEntry.stamp (DrCacheEntry.liveAt nowMs.toNat)
        (pre.map (DrCacheEntry.purged nowMs) ++ m :: suf) ranked := by
      apply h.ranks.congr
      rw [hsplit, List.filter_append, List.filter_append, filter_liveAt_purged]
    have hlen : (pre.map (DrCacheEntry.purged nowMs) ++ m :: suf).length = capacity := by
      rw [← h.slots, hsplit, List.length_append, List.length_append, List.length_map]
    have hmem : m ∈ ranked := hranks.mem.mpr ⟨by simp, hlive⟩
    obtain ⟨hlist, hdlive⟩ := h.mem_list hmem
    have hfound := Recency.lookup_eq_some h.bounded.keys hlist hdlive
    have hfront := h.bounded.front hlist
    rw [show m.dated.key = (qname, qtype, qclass) from hkey] at hfound hfront
    rw [heq, hfound]
    have hx : JustStamped cache nowMs.toNat (m.touch (cache.tick + 1)) := ⟨tick_succ htick, hlive⟩
    refine ⟨rfl, ⟨_, h.write htick hx List.filter_sublist.subset hlen
      (hranks.replace h.keys hlive hlive (h.newer hx)) ?_ hfront⟩, Nat.le_of_eq (tick_succ htick)⟩
    rw [List.map_cons, hkey, h.others, List.filter_cons_of_pos hdlive, Recency.others,
      List.filter_filter, List.filter_filter]
    congr 1
    exact List.filter_congr (fun d _ => Bool.and_comm _ _)

end CacheSim

theorem newEntry_expiresAt {nowMs : UInt64} {minTtl : UInt32}
    (h : nowMs.toNat + minTtl.toNat * 1000 < 2 ^ 64) :
    (nowMs + minTtl.toUInt64 * 1000).toNat = nowMs.toNat + minTtl.toNat * 1000 := by
  have hmul : (minTtl.toUInt64 * 1000).toNat = minTtl.toNat * 1000 := by
    rw [UInt64.toNat_mul, UInt32.toNat_toUInt64]
    exact Nat.mod_eq_of_lt (by change minTtl.toNat * 1000 < _; omega)
  rw [UInt64.toNat_add, hmul, Nat.mod_eq_of_lt h]

theorem question_newEntry {qname : CString} {qtype qclass : UInt16} {packet : Bytes}
    {ttlPatches : DrTtlPatchList} {minTtl : UInt32} {nowMs tick : UInt64}
    (hname : qname.octets.length ≤ DR_DNS_MAX_DOMAIN_LEN) :
    (newEntry qname qtype qclass packet ttlPatches minTtl nowMs tick).question =
      (qname, qtype, qclass) := by
  rw [DrCacheEntry.question, newEntry, CString.truncate_of_le hname]

/-- The list entry for an accepted put. -/
def datedFor (qname : CString) (qtype qclass : UInt16) (packet : Bytes)
    (ttlPatches : DrTtlPatchList) (minTtl : UInt32) (nowMs : UInt64) :
    Dated Question StoredResponse where
  key := (qname, qtype, qclass)
  value := { packet, ttlPatches, storedAtMs := nowMs }
  expiresAt := nowMs.toNat + minTtl.toNat * 1000

theorem dated_newEntry {qname : CString} {qtype qclass : UInt16} {packet : Bytes}
    {ttlPatches : DrTtlPatchList} {minTtl : UInt32} {nowMs tick : UInt64}
    (hname : qname.octets.length ≤ DR_DNS_MAX_DOMAIN_LEN)
    (hover : nowMs.toNat + minTtl.toNat * 1000 < 2 ^ 64) :
    (newEntry qname qtype qclass packet ttlPatches minTtl nowMs tick).dated =
      datedFor qname qtype qclass packet ttlPatches minTtl nowMs := by
  rw [DrCacheEntry.dated, question_newEntry hname, newEntry, datedFor]
  dsimp only
  rw [newEntry_expiresAt hover]

theorem justStamped_newEntry {cache : DrCache} {qname : CString} {qtype qclass : UInt16}
    {packet : Bytes} {ttlPatches : DrTtlPatchList} {minTtl : UInt32} {nowMs : UInt64}
    (htick : cache.tick.toNat + 1 < 2 ^ 64) (hover : nowMs.toNat + minTtl.toNat * 1000 < 2 ^ 64)
    (hmin : minTtl ≠ 0) : CacheSim.JustStamped cache nowMs.toNat
      (newEntry qname qtype qclass packet ttlPatches minTtl nowMs (cache.tick + 1)) := by
  have hpos : 0 < minTtl.toNat := Nat.pos_of_ne_zero (fun h0 => hmin (UInt32.toNat_inj.mp h0))
  refine ⟨CacheSim.tick_succ htick, (liveAt_iff _ _).mpr ⟨rfl, ?_⟩⟩
  change nowMs.toNat < (nowMs + minTtl.toUInt64 * 1000).toNat
  rw [newEntry_expiresAt hover]
  omega

/-- In a slot array without expired entries that are all in use, all are live. -/
theorem liveAt_of_purged {entries : List DrCacheEntry} {nowMs : UInt64}
    (huse : ∀ e ∈ entries.map (DrCacheEntry.purged nowMs), e.inUse = true) :
    ∀ e ∈ entries.map (DrCacheEntry.purged nowMs), e.liveAt nowMs.toNat = true := by
  intro e he
  obtain ⟨e', _, rfl⟩ := List.mem_map.mp he
  by_contra hdead
  have hexp := (expired_iff _ nowMs).mpr ⟨huse _ he, hdead⟩
  rw [purged_not_expired] at hexp
  cases hexp

namespace CacheSim

variable {capacity now : Nat} {cache : DrCache} {l : List (Dated Question StoredResponse)}
  {ranked : List DrCacheEntry}

/-- An accepted put is an insertion into the list. -/
theorem put {nowMs : UInt64} (h : CacheSim capacity nowMs.toNat cache l ranked)
    (htick : cache.tick.toNat + 1 < 2 ^ 64) (hcap : 1 ≤ capacity) {qname : CString}
    (qtype qclass : UInt16) {packet : Bytes} (ttlPatches : DrTtlPatchList) {minTtl : UInt32}
    (hname : qname.octets.length ≤ DR_DNS_MAX_DOMAIN_LEN)
    (hover : nowMs.toNat + minTtl.toNat * 1000 < 2 ^ 64)
    (hpacket : packet.length ≤ DR_DNS_MAX_PACKET_SIZE) (hmin : minTtl ≠ 0) :
    (drCachePut cache qname qtype qclass packet ttlPatches minTtl nowMs).2 = true ∧
      (∃ ranked', CacheSim capacity nowMs.toNat
        (drCachePut cache qname qtype qclass packet ttlPatches minTtl nowMs).1
        (Recency.insert capacity nowMs.toNat
          (datedFor qname qtype qclass packet ttlPatches minTtl nowMs) l) ranked') ∧
      (drCachePut cache qname qtype qclass packet ttlPatches minTtl nowMs).1.tick.toNat ≤
        cache.tick.toNat + 1 := by
  rcases drCachePut_cases cache qname qtype qclass packet ttlPatches minTtl nowMs with
    ⟨_, hbad⟩ | ⟨_, _, pre, m, suf, size, hsplit, heq, hm⟩
  · exfalso
    rcases hbad with hnil | hlong | hzero
    · have hslots := h.slots
      rw [hnil] at hslots
      simp only [List.length_nil] at hslots
      omega
    · omega
    · exact hmin hzero
  rw [heq]
  refine ⟨rfl, ?_, Nat.le_of_eq (tick_succ htick)⟩
  have hlen : (pre ++ m :: suf).length = capacity := by
    rw [← hsplit, List.length_map, h.slots]
  have hranks : Ranked DrCacheEntry.stamp (DrCacheEntry.liveAt nowMs.toNat) (pre ++ m :: suf)
      ranked := h.ranks.congr (by rw [← hsplit, filter_liveAt_purged])
  have hx : JustStamped cache nowMs.toNat
      (newEntry qname qtype qclass packet ttlPatches minTtl nowMs (cache.tick + 1)) :=
    justStamped_newEntry htick hover hmin
  have hkeyed : (newEntry qname qtype qclass packet ttlPatches minTtl nowMs
      (cache.tick + 1)).question = (qname, qtype, qclass) := question_newEntry hname
  have hdated : (newEntry qname qtype qclass packet ttlPatches minTtl nowMs (cache.tick + 1)).dated =
      datedFor qname qtype qclass packet ttlPatches minTtl nowMs := dated_newEntry hname hover
  rw [← hdated]
  rcases hm with ⟨hhit, _⟩ | ⟨hnone, ⟨hfree, _⟩ | ⟨_, _, huse, holdest⟩⟩
  · obtain ⟨hmlive, hkey⟩ := (hits_iff m qname qtype qclass nowMs).mp hhit
    exact h.write_over htick hcap hx hlen hranks hmlive (hkey.trans hkeyed.symm)
  · have habsent := h.no_key (fun e he => hnone e (hranks.mem.mp he).1)
    rw [← hkeyed] at habsent
    exact h.write_free htick hcap hx hlen hranks habsent (by simp [DrCacheEntry.liveAt, hfree])
  · have habsent := h.no_key (fun e he => hnone e (hranks.mem.mp he).1)
    rw [← hkeyed] at habsent
    rw [← hsplit] at huse
    have hfull := liveAt_of_purged huse
    rw [hsplit] at hfull
    exact h.write_oldest htick hcap hx hlen hranks habsent hfull
      (fun e he => UInt64.le_iff_toNat_le.mp (holdest e he))

end CacheSim

inductive CacheCall where
  | put (qname : CString) (qtype qclass : UInt16) (packet : Bytes) (ttlPatches : DrTtlPatchList)
      (minTtl : UInt32) (nowMs : UInt64)
  | lookup (qname : CString) (qtype qclass : UInt16) (nowMs : UInt64) (clientId : UInt16)
  | expire (nowMs : UInt64)

inductive CacheResult where
  | stored (accepted : Bool)
  | found (packet : Option Bytes)
  | done
  deriving DecidableEq

namespace CacheCall

def nowMs : CacheCall → UInt64
  | .put _ _ _ _ _ _ nowMs => nowMs
  | .lookup _ _ _ nowMs _ => nowMs
  | .expire nowMs => nowMs

/-- A put with a name that fits the array and an expiry time that fits 64 bits. -/
def Fits : CacheCall → Prop
  | .put qname _ _ _ _ minTtl nowMs => qname.octets.length ≤ DR_DNS_MAX_DOMAIN_LEN ∧
      nowMs.toNat + minTtl.toNat * 1000 < 2 ^ 64
  | _ => True

/-- The key a put stores under. -/
def putKey : CacheCall → Option Question
  | .put qname qtype qclass _ _ _ _ => some (qname, qtype, qclass)
  | _ => none

/-- The name of a put is a string of the 256 octets its caller keeps it in. -/
def NameFits : CacheCall → Prop
  | .put qname _ _ _ _ _ _ => qname.octets.length ≤ DR_DNS_MAX_DOMAIN_LEN
  | _ => True

def step (cache : DrCache) : CacheCall → DrCache × CacheResult
  | .put qname qtype qclass packet ttlPatches minTtl nowMs =>
    let r := drCachePut cache qname qtype qclass packet ttlPatches minTtl nowMs
    (r.1, .stored r.2)
  | .lookup qname qtype qclass nowMs clientId =>
    let r := drCacheLookup cache qname qtype qclass nowMs clientId
    (r.1, .found r.2)
  | .expire nowMs => (drCacheExpire cache nowMs, .done)

/-- The same call on a recency list. -/
def recencyStep (capacity : Nat) (l : List (Dated Question StoredResponse)) :
    CacheCall → List (Dated Question StoredResponse) × CacheResult
  | .put qname qtype qclass packet ttlPatches minTtl nowMs =>
    if packet.length ≤ DR_DNS_MAX_PACKET_SIZE ∧ minTtl ≠ 0 then
      (Recency.insert capacity nowMs.toNat
        (datedFor qname qtype qclass packet ttlPatches minTtl nowMs) l, .stored true)
    else (l, .stored false)
  | .lookup qname qtype qclass nowMs clientId =>
    let r := Recency.lookup nowMs.toNat (qname, qtype, qclass) l
    (r.1, .found (r.2.map (fun d => d.value.answer nowMs clientId)))
  | .expire nowMs => (l.filter (Recency.live nowMs.toNat), .done)

end CacheCall

theorem drCachePut_of_rejected {cache : DrCache} {qname : CString} {qtype qclass : UInt16}
    {packet : Bytes} {ttlPatches : DrTtlPatchList} {minTtl : UInt32} {nowMs : UInt64}
    (h : ¬ (packet.length ≤ DR_DNS_MAX_PACKET_SIZE ∧ minTtl ≠ 0)) :
    drCachePut cache qname qtype qclass packet ttlPatches minTtl nowMs = (cache, false) := by
  rw [drCachePut, if_pos]
  by_cases hlong : packet.length > DR_DNS_MAX_PACKET_SIZE
  · exact Or.inr (Or.inl hlong)
  · exact Or.inr (Or.inr (by_contra (fun hmin => h ⟨by omega, hmin⟩)))

/-- The cache and the list are related, and the calls to come are in order and within range. -/
def CacheRun (capacity : Nat) (cache : DrCache) (l : List (Dated Question StoredResponse))
    (calls : List CacheCall) : Prop :=
  ∃ now ranked, CacheSim capacity now cache l ranked ∧
    (∀ call ∈ calls, now ≤ call.nowMs.toNat ∧ call.Fits) ∧
    calls.Pairwise (fun a b => a.nowMs ≤ b.nowMs) ∧ cache.tick.toNat + calls.length < 2 ^ 64

theorem CacheRun.next {capacity : Nat} {cache cache' : DrCache}
    {l l' : List (Dated Question StoredResponse)} {call : CacheCall} {calls : List CacheCall}
    (h : CacheRun capacity cache l (call :: calls))
    (hsim : ∃ ranked, CacheSim capacity call.nowMs.toNat cache' l' ranked)
    (htick : cache'.tick.toNat ≤ cache.tick.toNat + 1) : CacheRun capacity cache' l' calls := by
  obtain ⟨_, _, _, hcalls, horder, hcount⟩ := h
  obtain ⟨ranked, hsim⟩ := hsim
  obtain ⟨hfirst, hrest⟩ := List.pairwise_cons.mp horder
  refine ⟨_, ranked, hsim, fun c hc => ⟨UInt64.le_iff_toNat_le.mp (hfirst c hc),
    (hcalls c (List.mem_cons_of_mem _ hc)).2⟩, hrest, ?_⟩
  rw [List.length_cons] at hcount
  omega

theorem CacheRun.step {capacity : Nat} (hcap : 1 ≤ capacity) {cache : DrCache}
    {l : List (Dated Question StoredResponse)} {call : CacheCall} {calls : List CacheCall}
    (h : CacheRun capacity cache l (call :: calls)) :
    (CacheCall.step cache call).2 = (CacheCall.recencyStep capacity l call).2 ∧
      CacheRun capacity (CacheCall.step cache call).1 (CacheCall.recencyStep capacity l call).1
        calls := by
  obtain ⟨now, ranked, hsim, hcalls, _, hcount⟩ := id h
  obtain ⟨hlater, hfits⟩ := hcalls call List.mem_cons_self
  have hnow := hsim.advance hlater
  have htick : cache.tick.toNat + 1 < 2 ^ 64 := by
    rw [List.length_cons] at hcount
    omega
  cases call with
  | put qname qtype qclass packet ttlPatches minTtl nowMs =>
    rw [CacheCall.step, CacheCall.recencyStep]
    by_cases hok : packet.length ≤ DR_DNS_MAX_PACKET_SIZE ∧ minTtl ≠ 0
    · obtain ⟨hout, hnext, hle⟩ := hnow.put htick hcap qtype qclass ttlPatches hfits.1 hfits.2
        hok.1 hok.2
      rw [if_pos hok]
      exact ⟨congrArg CacheResult.stored hout, h.next hnext hle⟩
    · rw [if_neg hok, drCachePut_of_rejected hok]
      exact ⟨rfl, h.next ⟨_, hnow⟩ (Nat.le_succ _)⟩
  | lookup qname qtype qclass nowMs clientId =>
    obtain ⟨hout, hnext, hle⟩ := hnow.lookup htick qname qtype qclass clientId
    exact ⟨congrArg CacheResult.found hout, h.next hnext hle⟩
  | expire nowMs =>
    refine ⟨rfl, h.next ⟨_, hnow.expire⟩ ?_⟩
    rw [CacheCall.step, drCacheExpire_eq]
    exact Nat.le_succ _

theorem cacheRun_init {capacity : Nat} {calls : List CacheCall} (hfits : ∀ call ∈ calls, call.Fits)
    (horder : calls.Pairwise (fun a b => a.nowMs ≤ b.nowMs)) (hcount : calls.length < 2 ^ 64) :
    CacheRun capacity (drCacheInit capacity) [] calls := by
  refine ⟨0, [], ?_, fun call hc => ⟨Nat.zero_le _, hfits call hc⟩, horder, ?_⟩
  · have hempty : (List.replicate capacity clearEntry).filter (DrCacheEntry.liveAt 0) = [] :=
      List.filter_eq_nil_iff.mpr (fun e he => by
        rw [(List.mem_replicate.mp he).2]
        exact Bool.false_ne_true)
    exact
      { slots := List.length_replicate ..
        ranks := ⟨by rw [drCacheInit, hempty], List.Pairwise.nil⟩
        represents := rfl
        stamps := nofun
        bounded := ⟨List.nodup_nil, Nat.zero_le _⟩ }
  · change 0 + calls.length < 2 ^ 64
    omega

/-- While a slot is free or expired, a put removes no live entry under another key. -/
theorem drCachePut_keeps {cache : DrCache} (qname : CString) (qtype qclass : UInt16)
    (packet : Bytes) (ttlPatches : DrTtlPatchList) (minTtl : UInt32) {nowMs : UInt64}
    {s e : DrCacheEntry} (hs : s ∈ cache.entries) (hroom : s.liveAt nowMs.toNat = false)
    (he : e ∈ cache.entries) (hlive : e.liveAt nowMs.toNat = true)
    (hother : e.question ≠ (qname, qtype, qclass)) :
    e ∈ (drCachePut cache qname qtype qclass packet ttlPatches minTtl nowMs).1.entries := by
  rcases drCachePut_cases cache qname qtype qclass packet ttlPatches minTtl nowMs with
    ⟨heq, _⟩ | ⟨_, _, pre, m, suf, size, hsplit, heq, hm⟩ <;> rw [heq]
  · exact he
  have hkept : e ∈ pre ++ m :: suf := by
    have hnot : ¬ e.expired nowMs = true := fun h => ((expired_iff e nowMs).mp h).2 hlive
    rw [← hsplit]
    exact List.mem_map.mpr ⟨e, he, if_neg hnot⟩
  have hne : e ≠ m := by
    intro heq
    subst heq
    rcases hm with ⟨hhit, _⟩ | ⟨_, ⟨hfree, _⟩ | ⟨_, _, huse, _⟩⟩
    · exact hother ((hits_iff e qname qtype qclass nowMs).mp hhit).2
    · rw [((liveAt_iff e _).mp hlive).1] at hfree
      cases hfree
    · -- a full array has no slot that is free or expired
      rw [← hsplit] at huse
      have hpurged := liveAt_of_purged huse (s.purged nowMs) (List.mem_map_of_mem hs)
      by_cases hexp : s.expired nowMs = true
      · rw [DrCacheEntry.purged, if_pos hexp] at hpurged
        cases hpurged
      · rw [DrCacheEntry.purged, if_neg hexp, hroom] at hpurged
        cases hpurged
  simp only [List.mem_append, List.mem_cons] at hkept ⊢
  rcases hkept with hpre | rfl | hsuf
  · exact Or.inl hpre
  · exact absurd rfl hne
  · exact Or.inr (Or.inr hsuf)

/-- A response kept for one second, asked for just before and just after it expires. -/
def oneSecondCalls : List CacheCall :=
  [.put (cstr [0x61]) 1 1 [0, 7, 0x80, 0] .empty 1 0, .lookup (cstr [0x61]) 1 1 999 9,
    .lookup (cstr [0x61]) 1 1 1000 9]

end DnsRelay.Store
