import DnsRelay.Store.CacheRecency

/-!
# Invariants of the cache

What holds of the slot array after any calls, at any times: the size counts the slots
in use, no key is stored twice, and a slot changes only by being cleared once expired,
by a new tick, or by a put under its own key. The ticks stay apart as long as the
counter does not wrap.
-/
namespace DnsRelay.Store

open DnsRelay.Foundation
open DnsRelay.Wire

/-- A slot before and after a call at `nowMs` that stores nothing in it. -/
def SlotKept (nowMs : UInt64) (e e' : DrCacheEntry) : Prop :=
  e' = e ∨ (e.expired nowMs = true ∧ e' = clearEntry) ∨ (e.inUse = true ∧ ∃ tick, e' = e.touch tick)

theorem slotKept_purged (nowMs : UInt64) (e : DrCacheEntry) : SlotKept nowMs e (e.purged nowMs) := by
  unfold DrCacheEntry.purged
  split
  · next hexp => exact Or.inr (Or.inl ⟨hexp, rfl⟩)
  · exact Or.inl rfl

theorem slotKept_map_purged (nowMs : UInt64) (entries : List DrCacheEntry) :
    List.Forall₂ (SlotKept nowMs) entries (entries.map (DrCacheEntry.purged nowMs)) :=
  List.forall₂_map_right_iff.mpr (List.forall₂_same.mpr (fun e _ => slotKept_purged nowMs e))

theorem drCacheExpire_slots (cache : DrCache) (nowMs : UInt64) :
    List.Forall₂ (SlotKept nowMs) cache.entries (drCacheExpire cache nowMs).entries := by
  rw [drCacheExpire_eq]
  exact slotKept_map_purged nowMs cache.entries

theorem drCacheLookup_slots (cache : DrCache) (qname : CString) (qtype qclass : UInt16)
    (nowMs : UInt64) (clientId : UInt16) :
    List.Forall₂ (SlotKept nowMs) cache.entries
      (drCacheLookup cache qname qtype qclass nowMs clientId).1.entries := by
  rcases drCacheLookup_cases cache qname qtype qclass nowMs clientId with
    ⟨heq, _⟩ | ⟨pre, m, suf, hsplit, hm, _, heq⟩ <;> rw [heq]
  · exact slotKept_map_purged nowMs cache.entries
  · have huse := inUse_of_hits hm
    rw [hsplit]
    refine List.rel_append (slotKept_map_purged nowMs pre) (.cons ?_ ?_)
    · exact Or.inr (Or.inr ⟨huse, _, rfl⟩)
    · exact List.forall₂_same.mpr (fun e _ => Or.inl rfl)

private theorem forall₂_replace {α β : Type} {R : α → β → Prop} {xs : List α} {pre suf : List β}
    {m : β} (x : β) (h : List.Forall₂ R xs (pre ++ m :: suf)) :
    List.Forall₂ (fun a b => R a b ∨ b = x) xs (pre ++ x :: suf) := by
  induction pre generalizing xs with
  | nil =>
    cases h with
    | cons hm hsuf => exact .cons (Or.inr rfl) (hsuf.imp (fun _ _ => Or.inl))
  | cons p pre ih =>
    cases h with
    | cons hp hrest => exact .cons (Or.inl hp) (ih hrest)

/-- A put stores its entry in one slot and leaves the others as any call does. -/
theorem drCachePut_slots (cache : DrCache) (qname : CString) (qtype qclass : UInt16) (packet : Bytes)
    (ttlPatches : DrTtlPatchList) (minTtl : UInt32) (nowMs : UInt64) :
    List.Forall₂ (fun e e' => SlotKept nowMs e e' ∨
        e' = newEntry qname qtype qclass packet ttlPatches minTtl nowMs (cache.tick + 1))
      cache.entries
      (drCachePut cache qname qtype qclass packet ttlPatches minTtl nowMs).1.entries := by
  rcases drCachePut_cases cache qname qtype qclass packet ttlPatches minTtl nowMs with
    ⟨heq, _⟩ | ⟨_, _, pre, m, suf, size, hsplit, heq, _⟩ <;> rw [heq]
  · exact List.forall₂_same.mpr (fun e _ => Or.inl (Or.inl rfl))
  · have hkept := slotKept_map_purged nowMs cache.entries
    rw [hsplit] at hkept
    exact forall₂_replace _ hkept

theorem mem_of_forall₂ {α β : Type} {R : α → β → Prop} {xs : List α} {ys : List β}
    (h : List.Forall₂ R xs ys) : ∀ y ∈ ys, ∃ x ∈ xs, R x y := by
  induction h with
  | nil => simp
  | @cons x y xs ys hxy _ ih =>
    intro z hz
    rcases List.mem_cons.mp hz with rfl | hz
    · exact ⟨x, List.mem_cons_self, hxy⟩
    · obtain ⟨x', hx', hR⟩ := ih z hz
      exact ⟨x', List.mem_cons_of_mem _ hx', hR⟩

def occupied (entries : List DrCacheEntry) : List DrCacheEntry := entries.filter (fun e => e.inUse)

theorem mem_occupied {entries : List DrCacheEntry} {e : DrCacheEntry} :
    e ∈ occupied entries ↔ e ∈ entries ∧ e.inUse = true := List.mem_filter

theorem occupied_append (xs ys : List DrCacheEntry) :
    occupied (xs ++ ys) = occupied xs ++ occupied ys := List.filter_append ..

theorem occupied_cons_of_inUse {e : DrCacheEntry} (entries : List DrCacheEntry)
    (h : e.inUse = true) : occupied (e :: entries) = e :: occupied entries :=
  List.filter_cons_of_pos h

theorem occupied_cons_of_free {e : DrCacheEntry} (entries : List DrCacheEntry)
    (h : e.inUse = false) : occupied (e :: entries) = occupied entries :=
  List.filter_cons_of_neg (by simp [h])

theorem occupied_drop_middle (pre suf : List DrCacheEntry) (m : DrCacheEntry) :
    (occupied pre ++ occupied suf).Sublist (occupied (pre ++ m :: suf)) := by
  rw [occupied_append]
  exact List.Sublist.append_left (List.Sublist.filter _ (List.sublist_cons_self m suf)) _

theorem occupied_init (capacity : Nat) : occupied (drCacheInit capacity).entries = [] :=
  List.filter_eq_nil_iff.mpr (fun e he => by
    rw [(List.mem_replicate.mp he).2]
    exact Bool.false_ne_true)

/-- Clearing the expired slots takes their entries out. -/
theorem occupied_purged (nowMs : UInt64) (entries : List DrCacheEntry) :
    occupied (entries.map (DrCacheEntry.purged nowMs)) =
      (occupied entries).filter (fun e => !e.expired nowMs) := by
  induction entries with
  | nil => rfl
  | cons e entries ih =>
    rw [List.map_cons]
    cases huse : e.inUse with
    | false =>
      have hkeep : e.purged nowMs = e := by simp [DrCacheEntry.purged, DrCacheEntry.expired, huse]
      rw [hkeep, occupied_cons_of_free _ huse, occupied_cons_of_free _ huse, ih]
    | true =>
      rw [occupied_cons_of_inUse _ huse]
      by_cases hexp : e.expired nowMs
      · rw [DrCacheEntry.purged, if_pos hexp, occupied_cons_of_free _ rfl, ih,
          List.filter_cons_of_neg (by simp [hexp])]
      · rw [DrCacheEntry.purged, if_neg hexp, occupied_cons_of_inUse _ huse, ih,
          List.filter_cons_of_pos (by simp [hexp])]

theorem occupied_purged_sublist (nowMs : UInt64) (entries : List DrCacheEntry) :
    (occupied (entries.map (DrCacheEntry.purged nowMs))).Sublist (occupied entries) := by
  rw [occupied_purged]
  exact List.filter_sublist

theorem length_occupied_purged (nowMs : UInt64) (entries : List DrCacheEntry) :
    (occupied (entries.map (DrCacheEntry.purged nowMs))).length + expiredCount nowMs entries =
      (occupied entries).length := by
  have hexpired : expiredCount nowMs entries =
      ((occupied entries).filter (fun e => e.expired nowMs)).length := by
    rw [expiredCount, occupied, List.filter_filter]
    congr 1
    apply List.filter_congr
    intro e _
    simp only [DrCacheEntry.expired]
    cases e.inUse <;> simp
  have hsplit := List.length_eq_length_filter_add (l := occupied entries) (fun e => e.expired nowMs)
  rw [occupied_purged, hexpired]
  omega

structure CacheInv (capacity : Nat) (cache : DrCache) : Prop where
  slots : cache.entries.length = capacity
  counted : cache.size = (occupied cache.entries).length
  keys : ((occupied cache.entries).map DrCacheEntry.question).Nodup

namespace CacheInv

variable {capacity : Nat} {cache : DrCache}

theorem size_le (h : CacheInv capacity cache) : cache.size ≤ capacity := by
  rw [h.counted, ← h.slots]
  exact List.length_filter_le _ _

theorem init (capacity : Nat) : CacheInv capacity (drCacheInit capacity) := by
  constructor
  · exact List.length_replicate ..
  · rw [occupied_init]
    rfl
  · rw [occupied_init]
    exact List.nodup_nil

/-- At most one slot in use has a given key. -/
theorem eq_of_question (h : CacheInv capacity cache) {e e' : DrCacheEntry} (he : e ∈ cache.entries)
    (huse : e.inUse = true) (he' : e' ∈ cache.entries) (huse' : e'.inUse = true)
    (hkey : e.question = e'.question) : e = e' :=
  List.inj_on_of_nodup_map h.keys (mem_occupied.mpr ⟨he, huse⟩) (mem_occupied.mpr ⟨he', huse'⟩) hkey

theorem purged (h : CacheInv capacity cache) (nowMs : UInt64) : CacheInv capacity
    { entries := cache.entries.map (DrCacheEntry.purged nowMs)
      size := cache.size - expiredCount nowMs cache.entries
      tick := cache.tick } := by
  constructor
  · rw [List.length_map, h.slots]
  · rw [h.counted, ← length_occupied_purged nowMs cache.entries, Nat.add_sub_cancel]
  · exact h.keys.sublist ((occupied_purged_sublist nowMs cache.entries).map _)

theorem expire (h : CacheInv capacity cache) (nowMs : UInt64) :
    CacheInv capacity (drCacheExpire cache nowMs) := by
  rw [drCacheExpire_eq]
  exact h.purged nowMs

theorem lookup (h : CacheInv capacity cache) (qname : CString) (qtype qclass : UInt16)
    (nowMs : UInt64) (clientId : UInt16) :
    CacheInv capacity (drCacheLookup cache qname qtype qclass nowMs clientId).1 := by
  rcases drCacheLookup_cases cache qname qtype qclass nowMs clientId with
    ⟨heq, _⟩ | ⟨pre, m, suf, hsplit, hm, _, heq⟩ <;> rw [heq]
  · exact h.purged nowMs
  · have huse := inUse_of_hits hm
    have htouch : (m.touch (cache.tick + 1)).inUse = true := huse
    have hsub := occupied_purged_sublist nowMs pre
    have hlen := length_occupied_purged nowMs pre
    have hslots := h.slots
    have hcounted := h.counted
    have hkeys := h.keys
    rw [hsplit, occupied_append, occupied_cons_of_inUse _ huse] at hcounted hkeys
    rw [hsplit] at hslots
    constructor
    · simpa using hslots
    · dsimp only
      rw [occupied_append, occupied_cons_of_inUse _ htouch, List.length_append, hcounted,
        List.length_append, ← hlen]
      simp only [List.length_cons]
      omega
    · rw [List.map_append, List.map_cons] at hkeys
      rw [occupied_append, occupied_cons_of_inUse _ htouch, List.map_append, List.map_cons]
      exact hkeys.sublist ((hsub.map _).append_right _)

/-- A slot rewritten under a key no other slot in use has. -/
theorem write (h : CacheInv capacity cache) {pre suf : List DrCacheEntry} {m x : DrCacheEntry}
    {size : Nat} {tick : UInt64} (hsplit : cache.entries = pre ++ m :: suf) (hx : x.inUse = true)
    (hsize : size = if m.inUse then cache.size else cache.size + 1)
    (hkey : ∀ e ∈ occupied pre ++ occupied suf, e.question ≠ x.question) :
    CacheInv capacity { entries := pre ++ x :: suf, size, tick } := by
  have hslots := h.slots
  have hcounted := h.counted
  have hkeys := h.keys
  have hrest := occupied_drop_middle pre suf m
  rw [← hsplit] at hrest
  have hothers : occupied (pre ++ x :: suf) = occupied pre ++ x :: occupied suf := by
    rw [occupied_append, occupied_cons_of_inUse _ hx]
  constructor
  · rw [hsplit] at hslots
    simpa using hslots
  · dsimp only
    rw [hothers, hsize, hcounted, hsplit, occupied_append]
    cases huse : m.inUse with
    | true => simp [occupied_cons_of_inUse _ huse]
    | false => simp [occupied_cons_of_free _ huse, Nat.add_assoc]
  · rw [hothers, List.map_append, List.map_cons, List.nodup_middle, List.nodup_cons,
      ← List.map_append]
    refine ⟨fun hmem => ?_, hkeys.sublist (hrest.map _)⟩
    obtain ⟨e, he, hquestion⟩ := List.mem_map.mp hmem
    exact hkey e he hquestion

/-- In a slot array without duplicates the other slots have other keys. -/
theorem question_ne (h : CacheInv capacity cache) {pre suf : List DrCacheEntry} {m : DrCacheEntry}
    (hsplit : cache.entries = pre ++ m :: suf) (huse : m.inUse = true) :
    ∀ e ∈ occupied pre ++ occupied suf, e.question ≠ m.question := by
  have hkeys := h.keys
  rw [hsplit, occupied_append, occupied_cons_of_inUse _ huse, List.map_append, List.map_cons,
    List.nodup_middle, List.nodup_cons, ← List.map_append] at hkeys
  intro e he hquestion
  exact hkeys.1 (hquestion ▸ List.mem_map_of_mem he)

theorem put (h : CacheInv capacity cache) {qname : CString}
    (hname : qname.octets.length ≤ DR_DNS_MAX_DOMAIN_LEN) (qtype qclass : UInt16) (packet : Bytes)
    (ttlPatches : DrTtlPatchList) (minTtl : UInt32) (nowMs : UInt64) :
    CacheInv capacity (drCachePut cache qname qtype qclass packet ttlPatches minTtl nowMs).1 := by
  rcases drCachePut_cases cache qname qtype qclass packet ttlPatches minTtl nowMs with
    ⟨heq, _⟩ | ⟨_, _, pre, m, suf, size, hsplit, heq, hm⟩ <;> rw [heq]
  · exact h
  have hpurged := h.purged nowMs
  have hkey : (newEntry qname qtype qclass packet ttlPatches minTtl nowMs
      (cache.tick + 1)).question = (qname, qtype, qclass) := question_newEntry hname
  rcases hm with ⟨hhit, hsize⟩ | ⟨hnone, hm⟩
  · have huse := inUse_of_hits hhit
    apply hpurged.write hsplit rfl (by rw [if_pos huse]; exact hsize)
    rw [hkey, ← question_of_hits hhit]
    exact hpurged.question_ne hsplit huse
  · have hother : ∀ e ∈ occupied pre ++ occupied suf, e.question ≠ (qname, qtype, qclass) := by
      intro e he hquestion
      have hmem : e ∈ pre ++ m :: suf ∧ e.inUse = true := by
        simp only [List.mem_append, List.mem_cons, mem_occupied] at he ⊢
        tauto
      have hnot : e.expired nowMs = false := by
        rw [← hsplit] at hmem
        obtain ⟨e', _, rfl⟩ := List.mem_map.mp hmem.1
        exact purged_not_expired nowMs e'
      have hmiss := hnone e hmem.1
      rw [DrCacheEntry.hits, hnot, (isMatch_iff e qname qtype qclass).mpr ⟨hmem.2, hquestion⟩]
        at hmiss
      cases hmiss
    rw [← hkey] at hother
    rcases hm with ⟨hfree, hsize⟩ | ⟨huse, hsize, _⟩
    · exact hpurged.write hsplit rfl (by rw [hfree]; exact hsize) hother
    · exact hpurged.write hsplit rfl (by rw [huse]; exact hsize) hother

theorem step (h : CacheInv capacity cache) {call : CacheCall} (hname : call.NameFits) :
    CacheInv capacity (CacheCall.step cache call).1 := by
  cases call with
  | put qname qtype qclass packet ttlPatches minTtl nowMs =>
    exact h.put hname qtype qclass packet ttlPatches minTtl nowMs
  | lookup qname qtype qclass nowMs clientId => exact h.lookup qname qtype qclass nowMs clientId
  | expire nowMs => exact h.expire nowMs

end CacheInv

/-- Any calls on an empty cache, at any times, keep the invariant. -/
theorem cacheInv_after (capacity : Nat) {calls : List CacheCall}
    (hname : ∀ call ∈ calls, call.NameFits) :
    CacheInv capacity (after CacheCall.step (drCacheInit capacity) calls) :=
  List.foldlRecOn calls _ (CacheInv.init capacity) (fun _ h call hcall => h.step (hname call hcall))

/-- The ticks of the slots in use are told apart, and the counter has reached them all. -/
structure TickInv (cache : DrCache) : Prop where
  reached : ∀ e ∈ occupied cache.entries, e.lastUsedTick ≤ cache.tick
  distinct : ((occupied cache.entries).map DrCacheEntry.lastUsedTick).Nodup

namespace TickInv

variable {cache : DrCache}

theorem init (capacity : Nat) : TickInv (drCacheInit capacity) := by
  constructor
  · rw [occupied_init]
    simp
  · rw [occupied_init]
    exact List.nodup_nil

/-- Slots taken out, with the counter where it was. -/
theorem sublist (h : TickInv cache) {entries : List DrCacheEntry} {size : Nat}
    (hsub : (occupied entries).Sublist (occupied cache.entries)) :
    TickInv { entries, size, tick := cache.tick } :=
  ⟨fun e he => h.reached e (hsub.subset he), h.distinct.sublist (hsub.map _)⟩

/-- A slot written with the next tick, the other slots in use being among the old ones. -/
theorem write (h : TickInv cache) (htick : cache.tick.toNat + 1 < 2 ^ 64)
    {pre suf : List DrCacheEntry} {x : DrCacheEntry} {size : Nat} (hx : x.inUse = true)
    (hstamp : x.lastUsedTick = cache.tick + 1)
    (hsub : (occupied pre ++ occupied suf).Sublist (occupied cache.entries)) :
    TickInv { entries := pre ++ x :: suf, size, tick := cache.tick + 1 } := by
  have hnext := CacheSim.tick_succ htick
  have hothers : occupied (pre ++ x :: suf) = occupied pre ++ x :: occupied suf := by
    rw [occupied_append, occupied_cons_of_inUse _ hx]
  have hbelow : ∀ e ∈ occupied pre ++ occupied suf, e.lastUsedTick.toNat < (cache.tick + 1).toNat := by
    intro e he
    have hle := UInt64.le_iff_toNat_le.mp (h.reached e (hsub.subset he))
    omega
  constructor
  · intro e he
    rw [hothers] at he
    dsimp only
    rw [UInt64.le_iff_toNat_le]
    have hcases : e = x ∨ e ∈ occupied pre ++ occupied suf := by
      simp only [List.mem_append, List.mem_cons] at he ⊢
      tauto
    rcases hcases with rfl | he
    · rw [hstamp]
    · exact (hbelow e he).le
  · rw [hothers, List.map_append, List.map_cons, List.nodup_middle, List.nodup_cons,
      ← List.map_append]
    refine ⟨fun hmem => ?_, h.distinct.sublist (hsub.map _)⟩
    obtain ⟨e, he, hsame⟩ := List.mem_map.mp hmem
    have hlt := hbelow e he
    rw [hsame, hstamp] at hlt
    exact Nat.lt_irrefl _ hlt

theorem expire (h : TickInv cache) (nowMs : UInt64) : TickInv (drCacheExpire cache nowMs) := by
  rw [drCacheExpire_eq]
  exact h.sublist (occupied_purged_sublist nowMs cache.entries)

theorem lookup (h : TickInv cache) (htick : cache.tick.toNat + 1 < 2 ^ 64) (qname : CString)
    (qtype qclass : UInt16) (nowMs : UInt64) (clientId : UInt16) :
    TickInv (drCacheLookup cache qname qtype qclass nowMs clientId).1 := by
  rcases drCacheLookup_cases cache qname qtype qclass nowMs clientId with
    ⟨heq, _⟩ | ⟨pre, m, suf, hsplit, hm, _, heq⟩ <;> rw [heq]
  · exact h.sublist (occupied_purged_sublist nowMs cache.entries)
  · have huse := inUse_of_hits hm
    refine h.write htick huse rfl ?_
    rw [hsplit]
    exact ((occupied_purged_sublist nowMs pre).append_right _).trans (occupied_drop_middle pre suf m)

theorem put (h : TickInv cache) (htick : cache.tick.toNat + 1 < 2 ^ 64) (qname : CString)
    (qtype qclass : UInt16) (packet : Bytes) (ttlPatches : DrTtlPatchList) (minTtl : UInt32)
    (nowMs : UInt64) :
    TickInv (drCachePut cache qname qtype qclass packet ttlPatches minTtl nowMs).1 := by
  rcases drCachePut_cases cache qname qtype qclass packet ttlPatches minTtl nowMs with
    ⟨heq, _⟩ | ⟨_, _, pre, m, suf, size, hsplit, heq, _⟩ <;> rw [heq]
  · exact h
  · refine h.write htick rfl rfl ((occupied_drop_middle pre suf m).trans ?_)
    rw [← hsplit]
    exact occupied_purged_sublist nowMs cache.entries

theorem step (h : TickInv cache) (htick : cache.tick.toNat + 1 < 2 ^ 64) (call : CacheCall) :
    TickInv (CacheCall.step cache call).1 := by
  cases call with
  | put qname qtype qclass packet ttlPatches minTtl nowMs =>
    exact h.put htick qname qtype qclass packet ttlPatches minTtl nowMs
  | lookup qname qtype qclass nowMs clientId =>
    exact h.lookup htick qname qtype qclass nowMs clientId
  | expire nowMs => exact h.expire nowMs

end TickInv

/-- A call counts at most one access. -/
theorem tick_step_le {cache : DrCache} (htick : cache.tick.toNat + 1 < 2 ^ 64) (call : CacheCall) :
    (CacheCall.step cache call).1.tick.toNat ≤ cache.tick.toNat + 1 := by
  have hnext := CacheSim.tick_succ htick
  cases call with
  | put qname qtype qclass packet ttlPatches minTtl nowMs =>
    rw [CacheCall.step]
    rcases drCachePut_cases cache qname qtype qclass packet ttlPatches minTtl nowMs with
      ⟨heq, _⟩ | ⟨_, _, _, _, _, _, _, heq, _⟩ <;> rw [heq]
    · exact Nat.le_succ _
    · exact hnext.le
  | lookup qname qtype qclass nowMs clientId =>
    rw [CacheCall.step]
    rcases drCacheLookup_cases cache qname qtype qclass nowMs clientId with
      ⟨heq, _⟩ | ⟨_, _, _, _, _, _, heq⟩ <;> rw [heq]
    · exact Nat.le_succ _
    · exact hnext.le
  | expire nowMs =>
    rw [CacheCall.step, drCacheExpire_eq]
    exact Nat.le_succ _

end DnsRelay.Store
