import DnsRelay.Store.LocalRules

/-!
# Insertions that run out of memory

Any allocation of an insertion may fail: the first storage, the doubled storage, the
copy of the text. A failure after the storage was doubled leaves the doubled storage in
place, with the same rules in it, so the table keeps its shape and its answers. The
probing loops that carry no bound of their own end because the load factor keeps a slot
free on every path.
-/
namespace DnsRelay.Store

open DnsRelay.Foundation
open DnsRelay.Wire

/-- A call of `insert_entry`, with the allocations it will be granted. -/
structure InsertCall where
  domain : CString
  ipv4Be : Ipv4Be
  mallocs : Mallocs

/-- The table after a sequence of calls, whatever they report. -/
def insertCalls : DrLocalTable → List InsertCall → Call DrLocalTable
  | table, [] => .ok table
  | table, call :: calls => do
    let (table, _) ← insertEntry table call.domain call.ipv4Be call.mallocs
    insertCalls table calls

/-- The representation of a table with storage. -/
structure WellFormed (table : DrLocalTable) : Prop where
  capacity : ∃ k, table.capacity = DR_LOCAL_TABLE_INITIAL_CAPACITY * 2 ^ k
  size : table.size = (table.entries.filter DrLocalEntry.inUse).length
  load : 10 * table.size ≤ 7 * table.capacity
  named : ∀ i < table.capacity, (slotAt table.entries i).inUse = true →
    ∃ domain, (slotAt table.entries i).domain = some domain
  distinct : ∀ i < table.capacity, ∀ j < table.capacity,
    (slotAt table.entries i).inUse = true → (slotAt table.entries j).inUse = true →
    (slotAt table.entries i).domain = (slotAt table.entries j).domain → i = j
  path : ∀ i < table.capacity, ∀ domain, (slotAt table.entries i).inUse = true →
    (slotAt table.entries i).domain = some domain →
    ∃ d < table.capacity, (nextSlot table.capacity)^[d] (homeSlot table.capacity domain) = i ∧
      ∀ j < d, (slotAt table.entries
        ((nextSlot table.capacity)^[j] (homeSlot table.capacity domain))).inUse = true

theorem TableInv.wellFormed {table : DrLocalTable} {rules : List (CString × Ipv4Be)}
    (h : TableInv table rules) : WellFormed table := by
  have named : ∀ i, (slotAt table.entries i).inUse = true →
      ∃ domain, (slotAt table.entries i).domain = some domain := by
    intro i huse
    rw [h.shape.flagsAt] at huse
    exact Option.isSome_iff_exists.mp huse
  constructor
  case capacity =>
    obtain ⟨k, hk⟩ := h.shape.power
    have hlarge := h.large
    rw [DrLocalTable.capacity, hk] at hlarge
    have hnine : 9 ≤ k := (Nat.pow_le_pow_iff_right (show 1 < 2 by decide)).mp hlarge
    refine ⟨k - 9, ?_⟩
    rw [DrLocalTable.capacity, hk, show DR_LOCAL_TABLE_INITIAL_CAPACITY = 2 ^ 9 from rfl, ← Nat.pow_add,
      Nat.add_sub_cancel' hnine]
  case size => exact h.count.symm
  case load =>
    have hload := h.load
    omega
  case named => exact fun i _ huse => named i huse
  case distinct =>
    intro i hi j hj huse _ hsame
    obtain ⟨domain, hdomain⟩ := named i huse
    exact h.shape.placed.injective hi hj hdomain (hsame.symm.trans hdomain)
  case path =>
    intro i hi domain _ hdomain
    obtain ⟨d, hd, hslot, hpassed⟩ := h.shape.placed.path i hi domain hdomain
    refine ⟨d, hd, hslot, fun j hj => ?_⟩
    rw [h.shape.flagsAt]
    exact Option.isSome_iff_ne_none.mpr (hpassed j hj).1

/-- A search in a table with storage stops at the domain or at a free slot. -/
theorem TableInv.probe_ends {table : DrLocalTable} {rules : List (CString × Ipv4Be)}
    (h : TableInv table rules) (domain : CString) :
    probeLoop table.entries domain table.capacity (homeSlot table.capacity domain) ≠ .exhausted := by
  cases hlast : lastRule rules domain with
  | none =>
    obtain ⟨slot, hprobe⟩ := h.probe_none hlast
    rw [hprobe]
    intro heq
    cases heq
  | some ipv4Be =>
    obtain ⟨slot, hprobe, _⟩ := h.probe_some hlast
    rw [hprobe]
    intro heq
    cases heq

/-- An insertion adds its rule or none, whichever allocations fail. -/
theorem Loaded.insert_any {table : DrLocalTable} {rules : List (CString × Ipv4Be)}
    (h : Loaded table rules) (domain : CString) (ipv4Be : Ipv4Be) (mallocs : Mallocs) :
    ∃ table' success, insertEntry table domain ipv4Be mallocs = .ok (table', success) ∧
      Loaded table' (if success then rules ++ [(domain, ipv4Be)] else rules) := by
  rcases h with ⟨rfl, rfl⟩ | h
  · cases htable : mallocs.table with
    | false =>
      refine ⟨.zero, false, ?_, Or.inl ⟨rfl, rfl⟩⟩
      rw [insertEntry, ensureTableReady, if_neg (by simp [DrLocalTable.zero]),
        if_neg (by simp [htable])]
      rfl
    | true =>
      obtain ⟨table', success, hinsert, hinv, _⟩ :=
        tableInv_initial.insert_any domain ipv4Be mallocs
      refine ⟨table', success, ?_, Or.inr hinv⟩
      rw [← hinsert, insertEntry, insertEntry, ensureTableReady, ensureTableReady,
        if_neg (by simp [DrLocalTable.zero]), if_pos htable,
        if_pos tableInv_initial.shape.entries_ne_nil]
  · obtain ⟨table', success, hinsert, hinv, _⟩ := h.insert_any domain ipv4Be mallocs
    exact ⟨table', success, hinsert, Or.inr hinv⟩

theorem insertCalls_loaded (calls : List InsertCall) : ∀ table rules, Loaded table rules →
    ∃ table' rules', insertCalls table calls = .ok table' ∧ Loaded table' rules' := by
  induction calls with
  | nil => exact fun table rules h => ⟨table, rules, rfl, h⟩
  | cons call calls ih =>
    intro table rules h
    obtain ⟨next, success, hinsert, hnext⟩ := h.insert_any call.domain call.ipv4Be call.mallocs
    obtain ⟨last, rules', hrest, hlast⟩ := ih next _ hnext
    refine ⟨last, rules', ?_, hlast⟩
    rw [insertCalls, hinsert, Outcome.ok_bind]
    exact hrest

theorem Loaded.size {table : DrLocalTable} {rules : List (CString × Ipv4Be)}
    (h : Loaded table rules) : drLocalTableSize table = (rules.map Prod.fst).toFinset.card := by
  rcases h with ⟨rfl, rfl⟩ | h
  · rfl
  · exact h.distinct

/-- Tables with the same rules answer alike. -/
theorem Loaded.same_answers {table table' : DrLocalTable} {rules : List (CString × Ipv4Be)}
    (h : Loaded table rules) (h' : Loaded table' rules) (qname : CString) :
    (drLocalTableLookup table' qname).kind = (drLocalTableLookup table qname).kind ∧
      (drLocalTableLookup table' qname).ipv4Be = (drLocalTableLookup table qname).ipv4Be := by
  rw [h.lookup, h'.lookup]
  cases (drDnsNormalizeName qname (DR_DNS_MAX_DOMAIN_LEN + 1)).toOption.bind (lastRule rules) with
  | none => exact ⟨rfl, rfl⟩
  | some ipv4Be => exact ⟨rfl, rfl⟩

/-- After any sequence of insertions with any pattern of failing allocations the table is without
storage and empty, or well formed, and no search in it runs once round. The next insertion
returns, and one that reports failure leaves the size and the answers as they were. -/
theorem local_table_survives_failures (calls : List InsertCall) : ∃ table,
    insertCalls .zero calls = .ok table ∧
    (table.entries = [] → table = .zero) ∧
    (table.entries ≠ [] → WellFormed table ∧ ∀ domain,
      probeLoop table.entries domain table.capacity (homeSlot table.capacity domain) ≠
        .exhausted) ∧
    ∀ call : InsertCall, ∃ table' success,
      insertEntry table call.domain call.ipv4Be call.mallocs = .ok (table', success) ∧
      (success = false → drLocalTableSize table' = drLocalTableSize table ∧
        ∀ qname, (drLocalTableLookup table' qname).kind = (drLocalTableLookup table qname).kind ∧
          (drLocalTableLookup table' qname).ipv4Be = (drLocalTableLookup table qname).ipv4Be) := by
  obtain ⟨table, rules, hcalls, hloaded⟩ := insertCalls_loaded calls .zero [] (Or.inl ⟨rfl, rfl⟩)
  refine ⟨table, hcalls, ?_, ?_, ?_⟩
  · intro hempty
    rcases hloaded with ⟨hzero, _⟩ | h
    · exact hzero
    · exact absurd hempty h.shape.entries_ne_nil
  · intro hstorage
    rcases hloaded with ⟨rfl, _⟩ | h
    · exact absurd rfl hstorage
    · exact ⟨h.wellFormed, h.probe_ends⟩
  · intro call
    obtain ⟨table', success, hinsert, hnext⟩ :=
      hloaded.insert_any call.domain call.ipv4Be call.mallocs
    refine ⟨table', success, hinsert, fun hfailed => ?_⟩
    rw [hfailed, if_neg Bool.false_ne_true] at hnext
    exact ⟨hnext.size.trans hloaded.size.symm, hloaded.same_answers hnext⟩

end DnsRelay.Store
