import DnsRelay.Wire.TtlPatches

/-!
# The response cache

`cache.c`: an array of slots searched from front to back. The array is the list of
its slots, so the capacity is the length of the list and the empty list is a cache
without storage. A stored packet is the list of its `packet_len` octets.
-/
namespace DnsRelay.Store

open DnsRelay.Foundation
open DnsRelay.Wire

structure DrCacheEntry where
  inUse : Bool
  qname : CString
  qtype : UInt16
  qclass : UInt16
  packet : Bytes
  ttlPatches : DrTtlPatchList
  storedAtMs : UInt64
  expireAtMs : UInt64
  lastUsedTick : UInt64
  deriving DecidableEq

/-- `clear_entry`. -/
def clearEntry : DrCacheEntry where
  inUse := false
  qname := cstr []
  qtype := 0
  qclass := 0
  packet := []
  ttlPatches := .empty
  storedAtMs := 0
  expireAtMs := 0
  lastUsedTick := 0

structure DrCache where
  entries : List DrCacheEntry
  size : Nat
  tick : UInt64
  deriving DecidableEq

namespace DrCache

def capacity (cache : DrCache) : Nat := cache.entries.length

/-- `cache->entries[slot]`. -/
def entry (cache : DrCache) (slot : Nat) : DrCacheEntry := cache.entries.getD slot clearEntry

end DrCache

def isMatch (entry : DrCacheEntry) (qname : CString) (qtype qclass : UInt16) : Bool :=
  entry.inUse && entry.qtype == qtype && entry.qclass == qclass && entry.qname == qname

/-- The test that clears a slot on sight. -/
def DrCacheEntry.expired (entry : DrCacheEntry) (nowMs : UInt64) : Bool :=
  entry.inUse && entry.expireAtMs ≤ nowMs

/-- The scan from slot `index` on: the slots and the size it leaves, and the slot found or the
capacity. -/
def findEntryLoop (qname : CString) (qtype qclass : UInt16) (nowMs : UInt64) :
    List DrCacheEntry → Nat → Nat → List DrCacheEntry × Nat × Nat
  | [], index, size => ([], size, index)
  | entry :: entries, index, size =>
    if entry.expired nowMs then
      let (rest, size, slot) := findEntryLoop qname qtype qclass nowMs entries (index + 1) (size - 1)
      (clearEntry :: rest, size, slot)
    else if isMatch entry qname qtype qclass then (entry :: entries, size, index)
    else
      let (rest, size, slot) := findEntryLoop qname qtype qclass nowMs entries (index + 1) size
      (entry :: rest, size, slot)

def findEntry (cache : DrCache) (qname : CString) (qtype qclass : UInt16) (nowMs : UInt64) :
    DrCache × Nat :=
  let (entries, size, slot) := findEntryLoop qname qtype qclass nowMs cache.entries 0 cache.size
  ({ cache with entries, size }, slot)

/-- The scan for the smallest `last_used_tick` behind the best slot so far. -/
def oldestLoop : List DrCacheEntry → Nat → Nat → UInt64 → Nat
  | [], _, bestIndex, _ => bestIndex
  | entry :: entries, index, bestIndex, bestTick =>
    if entry.lastUsedTick < bestTick then oldestLoop entries (index + 1) index entry.lastUsedTick
    else oldestLoop entries (index + 1) bestIndex bestTick

def chooseVictim (cache : DrCache) : Nat :=
  match cache.entries.findIdx? (fun entry => !entry.inUse) with
  | some index => index
  | none =>
    match cache.entries with
    | [] => 0
    | entry :: entries => oldestLoop entries 1 0 entry.lastUsedTick

/-- The cache after `calloc` succeeded; capacity 0 allocates nothing. -/
def drCacheInit (capacity : Nat) : DrCache where
  entries := List.replicate capacity clearEntry
  size := 0
  tick := 0

def expireLoop (nowMs : UInt64) : List DrCacheEntry → Nat → List DrCacheEntry × Nat
  | [], size => ([], size)
  | entry :: entries, size =>
    if entry.expired nowMs then
      let (rest, size) := expireLoop nowMs entries (size - 1)
      (clearEntry :: rest, size)
    else
      let (rest, size) := expireLoop nowMs entries size
      (entry :: rest, size)

def drCacheExpire (cache : DrCache) (nowMs : UInt64) : DrCache :=
  let (entries, size) := expireLoop nowMs cache.entries cache.size
  { cache with entries, size }

/-- The cache with its new size, and the slot to write. -/
def putSlot (cache : DrCache) (slot : Nat) : DrCache × Nat :=
  if slot = cache.capacity then
    let victim := chooseVictim cache
    if !(cache.entry victim).inUse then ({ cache with size := cache.size + 1 }, victim)
    else (cache, victim)
  else (cache, slot)

/-- The slot contents `dr_cache_put` writes. -/
def newEntry (qname : CString) (qtype qclass : UInt16) (packet : Bytes) (ttlPatches : DrTtlPatchList)
    (minTtl : UInt32) (nowMs tick : UInt64) : DrCacheEntry where
  inUse := true
  qname := qname.truncate DR_DNS_MAX_DOMAIN_LEN
  qtype := qtype
  qclass := qclass
  packet := packet
  ttlPatches := ttlPatches
  storedAtMs := nowMs
  expireAtMs := nowMs + minTtl.toUInt64 * 1000
  lastUsedTick := tick

def drCachePut (cache : DrCache) (qname : CString) (qtype qclass : UInt16) (packet : Bytes)
    (ttlPatches : DrTtlPatchList) (minTtl : UInt32) (nowMs : UInt64) : DrCache × Bool :=
  if cache.entries = [] ∨ packet.length > DR_DNS_MAX_PACKET_SIZE ∨ minTtl = 0 then (cache, false)
  else
    let (cache, slot) := findEntry (drCacheExpire cache nowMs) qname qtype qclass nowMs
    let (cache, slot) := putSlot cache slot
    let entry := newEntry qname qtype qclass packet ttlPatches minTtl nowMs (cache.tick + 1)
    ({ cache with entries := cache.entries.set slot entry, tick := cache.tick + 1 }, true)

/-- The packet handed out for a hit; patching is never stuck. -/
def DrCacheEntry.answer (entry : DrCacheEntry) (nowMs : UInt64) (clientId : UInt16) : Bytes :=
  let out := drDnsWriteId entry.packet clientId
  let elapsedSec := ((nowMs - entry.storedAtMs) / 1000).toUInt32
  match drDnsApplyTtlPatches out entry.ttlPatches elapsedSec with
  | .ok out => out
  | _ => out

/-- `entry->last_used_tick = tick`. -/
def DrCacheEntry.touch (entry : DrCacheEntry) (tick : UInt64) : DrCacheEntry :=
  { entry with lastUsedTick := tick }

/-- On success the packet left in `out_packet`. -/
def drCacheLookup (cache : DrCache) (qname : CString) (qtype qclass : UInt16) (nowMs : UInt64)
    (clientId : UInt16) : DrCache × Option Bytes :=
  if cache.entries = [] then (cache, none)
  else
    let (cache, slot) := findEntry cache qname qtype qclass nowMs
    if slot = cache.capacity then (cache, none)
    else
      let entry := cache.entry slot
      ({ cache with
          entries := cache.entries.set slot (entry.touch (cache.tick + 1))
          tick := cache.tick + 1 }, some (entry.answer nowMs clientId))

/-- A slot after a scan that clears expired entries. -/
def DrCacheEntry.purged (nowMs : UInt64) (entry : DrCacheEntry) : DrCacheEntry :=
  if entry.expired nowMs then clearEntry else entry

def expiredCount (nowMs : UInt64) (entries : List DrCacheEntry) : Nat :=
  (entries.filter (fun e => e.expired nowMs)).length

theorem expireLoop_eq (nowMs : UInt64) (entries : List DrCacheEntry) (size : Nat) :
    expireLoop nowMs entries size =
      (entries.map (DrCacheEntry.purged nowMs), size - expiredCount nowMs entries) := by
  induction entries generalizing size with
  | nil => rfl
  | cons e entries ih =>
    by_cases h : e.expired nowMs
    · simp only [expireLoop, h, if_true, ih, List.map_cons, DrCacheEntry.purged, expiredCount,
        List.filter_cons_of_pos, List.length_cons]
      rw [Nat.sub_sub, Nat.add_comm 1]
    · simp only [expireLoop, h, Bool.false_eq_true, if_false, ih, List.map_cons, DrCacheEntry.purged,
        expiredCount, not_false_eq_true, List.filter_cons_of_neg]

theorem drCacheExpire_eq (cache : DrCache) (nowMs : UInt64) :
    drCacheExpire cache nowMs =
      { entries := cache.entries.map (DrCacheEntry.purged nowMs)
        size := cache.size - expiredCount nowMs cache.entries
        tick := cache.tick } := by
  rw [drCacheExpire, expireLoop_eq]

/-- The entry a search at a given time is for. -/
def DrCacheEntry.hits (qname : CString) (qtype qclass : UInt16) (nowMs : UInt64)
    (entry : DrCacheEntry) : Bool :=
  isMatch entry qname qtype qclass && !entry.expired nowMs

theorem expiredCount_cons (nowMs : UInt64) (e : DrCacheEntry) (entries : List DrCacheEntry) :
    expiredCount nowMs (e :: entries) = expiredCount nowMs [e] + expiredCount nowMs entries := by
  by_cases h : e.expired nowMs
  · simp [expiredCount, h, Nat.add_comm]
  · simp [expiredCount, h]

theorem findEntryLoop_of_hits {qname : CString} {qtype qclass : UInt16} {nowMs : UInt64}
    {e : DrCacheEntry} (entries : List DrCacheEntry) (index size : Nat)
    (h : e.hits qname qtype qclass nowMs = true) :
    findEntryLoop qname qtype qclass nowMs (e :: entries) index size =
      (e :: entries, size, index) := by
  simp only [DrCacheEntry.hits, Bool.and_eq_true, Bool.not_eq_true'] at h
  rw [findEntryLoop, h.2, if_neg Bool.false_ne_true, if_pos h.1]

theorem findEntryLoop_of_not_hits {qname : CString} {qtype qclass : UInt16} {nowMs : UInt64}
    {e : DrCacheEntry} {entries rest : List DrCacheEntry} {index size size' slot : Nat}
    (h : e.hits qname qtype qclass nowMs = false)
    (hrest : findEntryLoop qname qtype qclass nowMs entries (index + 1)
      (size - expiredCount nowMs [e]) = (rest, size', slot)) :
    findEntryLoop qname qtype qclass nowMs (e :: entries) index size =
      (e.purged nowMs :: rest, size', slot) := by
  rw [findEntryLoop, DrCacheEntry.purged]
  by_cases hexp : e.expired nowMs
  · have hone : expiredCount nowMs [e] = 1 := by simp [expiredCount, hexp]
    rw [hone] at hrest
    rw [if_pos hexp, if_pos hexp, hrest]
  · have hzero : expiredCount nowMs [e] = 0 := by simp [expiredCount, hexp]
    have hmiss : ¬ isMatch e qname qtype qclass = true := by
      simpa [DrCacheEntry.hits, hexp] using h
    rw [hzero, Nat.sub_zero] at hrest
    rw [if_neg hexp, if_neg hexp, if_neg hmiss, hrest]

/-- The search clears the expired slots it passes and stops at the first hit. -/
theorem findEntryLoop_cases (qname : CString) (qtype qclass : UInt16) (nowMs : UInt64)
    (entries : List DrCacheEntry) : ∀ index size,
    (findEntryLoop qname qtype qclass nowMs entries index size =
        (entries.map (DrCacheEntry.purged nowMs), size - expiredCount nowMs entries,
          index + entries.length) ∧
      ∀ e ∈ entries, e.hits qname qtype qclass nowMs = false) ∨
    ∃ pre m suf, entries = pre ++ m :: suf ∧ m.hits qname qtype qclass nowMs = true ∧
      (∀ e ∈ pre, e.hits qname qtype qclass nowMs = false) ∧
      findEntryLoop qname qtype qclass nowMs entries index size =
        (pre.map (DrCacheEntry.purged nowMs) ++ m :: suf, size - expiredCount nowMs pre,
          index + pre.length) := by
  induction entries with
  | nil => exact fun index size => Or.inl ⟨rfl, by simp⟩
  | cons e entries ih =>
    intro index size
    cases hhit : e.hits qname qtype qclass nowMs with
    | true => exact Or.inr ⟨[], e, entries, rfl, hhit, by simp, findEntryLoop_of_hits _ _ _ hhit⟩
    | false =>
      rcases ih (index + 1) (size - expiredCount nowMs [e]) with
        ⟨heq, hnone⟩ | ⟨pre, m, suf, rfl, hm, hpre, heq⟩
      · refine Or.inl ⟨?_, List.forall_mem_cons.mpr ⟨hhit, hnone⟩⟩
        rw [findEntryLoop_of_not_hits hhit heq, expiredCount_cons _ _ entries, ← Nat.sub_sub,
          List.map_cons, List.length_cons, Nat.add_assoc index 1, Nat.add_comm 1]
      · refine Or.inr ⟨e :: pre, m, suf, rfl, hm, List.forall_mem_cons.mpr ⟨hhit, hpre⟩, ?_⟩
        rw [findEntryLoop_of_not_hits hhit heq, expiredCount_cons _ _ pre, ← Nat.sub_sub,
          List.map_cons, List.length_cons, Nat.add_assoc index 1, Nat.add_comm 1, List.cons_append]

theorem set_middle {α : Type} (pre : List α) (m x : α) (suf : List α) :
    (pre ++ m :: suf).set pre.length x = pre ++ x :: suf := by
  rw [List.set_append_right _ _ (le_refl _), Nat.sub_self, List.set_cons_zero]

theorem getD_middle {α : Type} (pre : List α) (m d : α) (suf : List α) :
    (pre ++ m :: suf).getD pre.length d = m := by
  simp

/-- The scan ends on a slot of minimal tick among those seen before and those scanned. -/
theorem oldestLoop_spec (entries : List DrCacheEntry) : ∀ (pre : List DrCacheEntry)
    (m : DrCacheEntry) (post : List DrCacheEntry),
    (∀ e ∈ pre ++ m :: post, m.lastUsedTick ≤ e.lastUsedTick) →
    ∃ pre' m' post', pre ++ m :: post ++ entries = pre' ++ m' :: post' ∧
      oldestLoop entries (pre ++ m :: post).length pre.length m.lastUsedTick = pre'.length ∧
      ∀ e ∈ pre ++ m :: post ++ entries, m'.lastUsedTick ≤ e.lastUsedTick := by
  induction entries with
  | nil =>
    intro pre m post hmin
    exact ⟨pre, m, post, List.append_nil _, rfl, by simpa using hmin⟩
  | cons e entries ih =>
    intro pre m post hmin
    have hlen (l : List DrCacheEntry) : (l ++ [e]).length = l.length + 1 := by simp
    by_cases hlt : e.lastUsedTick < m.lastUsedTick
    · have hnext := ih (pre ++ m :: post) e [] (by
        intro x hx
        rcases List.mem_append.mp hx with hx | hx
        · exact UInt64.le_trans (UInt64.le_of_lt hlt) (hmin x hx)
        · rw [List.mem_singleton.mp hx]
          exact UInt64.le_refl _)
      rw [hlen, List.append_assoc (pre ++ m :: post), List.singleton_append] at hnext
      rw [oldestLoop, if_pos hlt]
      exact hnext
    · have hnext := ih pre m (post ++ [e]) (by
        intro x hx
        rw [← List.cons_append, ← List.append_assoc] at hx
        rcases List.mem_append.mp hx with hx | hx
        · exact hmin x hx
        · rw [List.mem_singleton.mp hx]
          exact UInt64.not_lt.mp hlt)
      rw [← List.cons_append, ← List.append_assoc, hlen, List.append_assoc (pre ++ m :: post),
        List.singleton_append] at hnext
      rw [oldestLoop, if_neg hlt]
      exact hnext

/-- The victim is a free slot, or the least recently used one of a full cache. -/
theorem chooseVictim_spec {cache : DrCache} (hne : cache.entries ≠ []) :
    ∃ pre m post, cache.entries = pre ++ m :: post ∧ chooseVictim cache = pre.length ∧
      (m.inUse = false ∨ (∀ e ∈ cache.entries, e.inUse = true) ∧
        ∀ e ∈ cache.entries, m.lastUsedTick ≤ e.lastUsedTick) := by
  unfold chooseVictim
  cases hfree : cache.entries.findIdx? (fun entry => !entry.inUse) with
  | some index =>
    obtain ⟨hlt, hat, _⟩ := List.findIdx?_eq_some_iff_getElem.mp hfree
    refine ⟨cache.entries.take index, cache.entries[index], cache.entries.drop (index + 1),
      by simp, by simp; omega, Or.inl (by simpa using hat)⟩
  | none =>
    have hall : ∀ e ∈ cache.entries, e.inUse = true := by
      simpa using List.findIdx?_eq_none_iff.mp hfree
    obtain ⟨first, rest, hcons⟩ := List.exists_cons_of_ne_nil hne
    obtain ⟨pre, m, post, hsplit, hindex, hmin⟩ := oldestLoop_spec rest [] first [] (by
      intro e he
      rw [List.mem_singleton.mp he]
      exact UInt64.le_refl _)
    rw [hcons] at hall ⊢
    exact ⟨pre, m, post, hsplit, hindex, Or.inr ⟨hall, hmin⟩⟩

/-- A lookup misses after clearing every expired slot, or clears those in front of the hit, which
becomes the most recently used. -/
theorem drCacheLookup_cases (cache : DrCache) (qname : CString) (qtype qclass : UInt16)
    (nowMs : UInt64) (clientId : UInt16) :
    (drCacheLookup cache qname qtype qclass nowMs clientId =
        ({ entries := cache.entries.map (DrCacheEntry.purged nowMs)
           size := cache.size - expiredCount nowMs cache.entries
           tick := cache.tick }, none) ∧
      ∀ e ∈ cache.entries, e.hits qname qtype qclass nowMs = false) ∨
    ∃ pre m suf, cache.entries = pre ++ m :: suf ∧ m.hits qname qtype qclass nowMs = true ∧
      (∀ e ∈ pre, e.hits qname qtype qclass nowMs = false) ∧
      drCacheLookup cache qname qtype qclass nowMs clientId =
        ({ entries := pre.map (DrCacheEntry.purged nowMs) ++ m.touch (cache.tick + 1) :: suf
           size := cache.size - expiredCount nowMs pre
           tick := cache.tick + 1 }, some (m.answer nowMs clientId)) := by
  unfold drCacheLookup
  by_cases hnil : cache.entries = []
  · rw [if_pos hnil]
    refine Or.inl ⟨?_, by simp [hnil]⟩
    obtain ⟨entries, size, tick⟩ := cache
    cases hnil
    rfl
  rw [if_neg hnil, findEntry]
  rcases findEntryLoop_cases qname qtype qclass nowMs cache.entries 0 cache.size with
    ⟨heq, hnone⟩ | ⟨pre, m, suf, hsplit, hm, hpre, heq⟩
  · refine Or.inl ⟨?_, hnone⟩
    rw [heq]
    simp only [DrCache.capacity, List.length_map, Nat.zero_add, if_true]
  · refine Or.inr ⟨pre, m, suf, hsplit, hm, hpre, ?_⟩
    have hlen : (pre.map (DrCacheEntry.purged nowMs)).length = pre.length := List.length_map _
    rw [heq]
    simp only [DrCache.capacity, DrCache.entry, Nat.zero_add, ← hlen, getD_middle, set_middle]
    rw [if_neg (by simp)]

theorem purged_not_expired (nowMs : UInt64) (e : DrCacheEntry) :
    (e.purged nowMs).expired nowMs = false := by
  unfold DrCacheEntry.purged
  split
  · rfl
  · next h => simpa using h

theorem purged_purged (nowMs : UInt64) (e : DrCacheEntry) :
    (e.purged nowMs).purged nowMs = e.purged nowMs := by
  rw [DrCacheEntry.purged, purged_not_expired, if_neg Bool.false_ne_true]

theorem map_purged_purged (nowMs : UInt64) (entries : List DrCacheEntry) :
    (entries.map (DrCacheEntry.purged nowMs)).map (DrCacheEntry.purged nowMs) =
      entries.map (DrCacheEntry.purged nowMs) := by
  rw [List.map_map]
  exact List.map_congr_left (fun e _ => purged_purged nowMs e)

theorem expiredCount_purged (nowMs : UInt64) (entries : List DrCacheEntry) :
    expiredCount nowMs (entries.map (DrCacheEntry.purged nowMs)) = 0 := by
  simp [expiredCount, List.filter_map, Function.comp_def, purged_not_expired]

/-- A put into a cache without expired entries. -/
theorem putSlot_findEntry (cache : DrCache) (qname : CString) (qtype qclass : UInt16) {nowMs : UInt64}
    (hne : cache.entries ≠ [])
    (hpurged : cache.entries.map (DrCacheEntry.purged nowMs) = cache.entries)
    (hcount : expiredCount nowMs cache.entries = 0) :
    ∃ pre m suf size, cache.entries = pre ++ m :: suf ∧
      putSlot (findEntry cache qname qtype qclass nowMs).1 (findEntry cache qname qtype qclass nowMs).2 =
        ({ cache with size }, pre.length) ∧
      (m.hits qname qtype qclass nowMs = true ∧ size = cache.size ∨
        (∀ e ∈ cache.entries, e.hits qname qtype qclass nowMs = false) ∧
          (m.inUse = false ∧ size = cache.size + 1 ∨
            m.inUse = true ∧ size = cache.size ∧ (∀ e ∈ cache.entries, e.inUse = true) ∧
              ∀ e ∈ cache.entries, m.lastUsedTick ≤ e.lastUsedTick)) := by
  rw [findEntry]
  rcases findEntryLoop_cases qname qtype qclass nowMs cache.entries 0 cache.size with
    ⟨heq, hnone⟩ | ⟨pre, m, suf, hsplit, hm, _, heq⟩
  · obtain ⟨pre, m, suf, hsplit, hvictim, hm⟩ := chooseVictim_spec hne
    have hentry : cache.entry pre.length = m := by rw [DrCache.entry, hsplit, getD_middle]
    rw [heq, hpurged, hcount, Nat.sub_zero, Nat.zero_add]
    simp only [putSlot, DrCache.capacity, if_true, hvictim, hentry]
    cases huse : m.inUse with
    | false => exact ⟨pre, m, suf, _, hsplit, rfl, Or.inr ⟨hnone, Or.inl ⟨huse, rfl⟩⟩⟩
    | true =>
      rcases hm with hfree | hfull
      · rw [huse] at hfree
        cases hfree
      · exact ⟨pre, m, suf, _, hsplit, rfl, Or.inr ⟨hnone, Or.inr ⟨huse, rfl, hfull⟩⟩⟩
  · have hcountPre : expiredCount nowMs pre = 0 := by
      rw [hsplit, expiredCount, List.filter_append, List.length_append] at hcount
      rw [expiredCount]
      omega
    have hpurgedPre : pre.map (DrCacheEntry.purged nowMs) = pre := by
      rw [hsplit, List.map_append] at hpurged
      exact (List.append_inj hpurged (by simp)).1
    rw [heq, hpurgedPre, hcountPre, Nat.sub_zero, Nat.zero_add]
    refine ⟨pre, m, suf, cache.size, hsplit, ?_, Or.inl ⟨hm, rfl⟩⟩
    rw [putSlot, if_neg (by simp [DrCache.capacity]), ← hsplit]

/-- An accepted put clears the expired slots, then replaces the entry with its key, or fills a free
slot, or overwrites the least recently used entry of a full cache. -/
theorem drCachePut_cases (cache : DrCache) (qname : CString) (qtype qclass : UInt16) (packet : Bytes)
    (ttlPatches : DrTtlPatchList) (minTtl : UInt32) (nowMs : UInt64) :
    (drCachePut cache qname qtype qclass packet ttlPatches minTtl nowMs = (cache, false) ∧
      (cache.entries = [] ∨ packet.length > DR_DNS_MAX_PACKET_SIZE ∨ minTtl = 0)) ∨
    packet.length ≤ DR_DNS_MAX_PACKET_SIZE ∧ minTtl ≠ 0 ∧
    ∃ pre m suf size, cache.entries.map (DrCacheEntry.purged nowMs) = pre ++ m :: suf ∧
      drCachePut cache qname qtype qclass packet ttlPatches minTtl nowMs =
        ({ entries := pre ++
             newEntry qname qtype qclass packet ttlPatches minTtl nowMs (cache.tick + 1) :: suf
           size
           tick := cache.tick + 1 }, true) ∧
      (m.hits qname qtype qclass nowMs = true ∧
          size = cache.size - expiredCount nowMs cache.entries ∨
        (∀ e ∈ pre ++ m :: suf, e.hits qname qtype qclass nowMs = false) ∧
          (m.inUse = false ∧ size = cache.size - expiredCount nowMs cache.entries + 1 ∨
            m.inUse = true ∧ size = cache.size - expiredCount nowMs cache.entries ∧
              (∀ e ∈ pre ++ m :: suf, e.inUse = true) ∧
              ∀ e ∈ pre ++ m :: suf, m.lastUsedTick ≤ e.lastUsedTick)) := by
  by_cases hbad : cache.entries = [] ∨ packet.length > DR_DNS_MAX_PACKET_SIZE ∨ minTtl = 0
  · exact Or.inl ⟨by rw [drCachePut, if_pos hbad], hbad⟩
  · have hne : cache.entries.map (DrCacheEntry.purged nowMs) ≠ [] := by
      simpa using fun h => hbad (Or.inl h)
    obtain ⟨pre, m, suf, size, hsplit, hslot, hm⟩ := putSlot_findEntry
      { entries := cache.entries.map (DrCacheEntry.purged nowMs)
        size := cache.size - expiredCount nowMs cache.entries
        tick := cache.tick } qname qtype qclass
      hne (map_purged_purged nowMs cache.entries) (expiredCount_purged nowMs cache.entries)
    dsimp only at hsplit hm
    rw [hsplit] at hm
    refine Or.inr ⟨by omega, fun h => hbad (Or.inr (Or.inr h)), pre, m, suf, size, hsplit, ?_, hm⟩
    rw [drCachePut, if_neg hbad, drCacheExpire_eq]
    dsimp only
    rw [hslot]
    dsimp only
    rw [hsplit, set_middle]

end DnsRelay.Store
