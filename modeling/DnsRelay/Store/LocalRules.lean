import DnsRelay.Foundation.OpenAddressing
import DnsRelay.Store.LocalTable
import Mathlib.Data.Finset.Card
import Mathlib.Data.Finset.Dedup

/-!
# The local table as a list of rules

Insertion into the open-addressing table, with its in-place updates and its rehashing
into doubled storage, is appending to a list of rules of which the last one for a
domain counts. The capacity is a power of two throughout, so masking is reduction
modulo the capacity and the probing library applies.
-/
namespace DnsRelay.Store

open DnsRelay.Foundation
open DnsRelay.Wire

def keyAt (entries : List DrLocalEntry) (slot : Nat) : Option CString := (slotAt entries slot).domain

/-- Slots in use, the number the load factor is about. -/
def used (entries : List DrLocalEntry) : Nat := (entries.filter DrLocalEntry.inUse).length

def HasRule (entries : List DrLocalEntry) (domain : CString) (ipv4Be : Ipv4Be) : Prop :=
  ∃ e ∈ entries, e.domain = some domain ∧ e.ipv4Be = ipv4Be

structure Shape (entries : List DrLocalEntry) : Prop where
  power : ∃ k, entries.length = 2 ^ k
  flags : ∀ e ∈ entries, e.inUse = e.domain.isSome
  placed : Placed entries.length (homeSlot entries.length) (keyAt entries)

theorem homeSlot_lt {capacity : Nat} (h : 0 < capacity) (domain : CString) :
    homeSlot capacity domain < capacity := by
  have hle : homeSlot capacity domain ≤ (UInt32.ofNat (capacity - 1)).toNat := by
    rw [homeSlot, UInt32.toNat_and]
    exact Nat.and_le_right
  have hmod : (UInt32.ofNat (capacity - 1)).toNat ≤ capacity - 1 := by
    rw [UInt32.toNat_ofNat']
    exact Nat.mod_le _ _
  omega

section Slots

variable {entries : List DrLocalEntry} {i j : Nat} {e : DrLocalEntry}

theorem slotAt_of_lt (h : i < entries.length) : slotAt entries i = entries[i] := by
  simp [slotAt, h]

theorem slotAt_of_ge (h : entries.length ≤ i) : slotAt entries i = clearedSlot := by
  simp [slotAt, h]

theorem slotAt_set_self (h : i < entries.length) : slotAt (entries.set i e) i = e := by
  simp [slotAt, h]

theorem slotAt_set_of_ne (h : j ≠ i) : slotAt (entries.set i e) j = slotAt entries j := by
  simp [slotAt, List.getElem?_set_ne (Ne.symm h)]

theorem mem_iff_slotAt : e ∈ entries ↔ ∃ i < entries.length, slotAt entries i = e := by
  rw [List.mem_iff_getElem]
  constructor
  · intro hslot
    obtain ⟨i, hi, rfl⟩ := hslot
    exact ⟨i, hi, slotAt_of_lt hi⟩
  · intro hslot
    obtain ⟨i, hi, rfl⟩ := hslot
    exact ⟨i, hi, (slotAt_of_lt hi).symm⟩

theorem split_at (h : i < entries.length) :
    ∃ pre suf, entries = pre ++ slotAt entries i :: suf ∧ pre.length = i :=
  ⟨entries.take i, entries.drop (i + 1), by rw [slotAt_of_lt h]; simp, by simp; omega⟩

end Slots

theorem Shape.flagsAt {entries : List DrLocalEntry} (h : Shape entries) (i : Nat) :
    (slotAt entries i).inUse = (keyAt entries i).isSome := by
  by_cases hi : i < entries.length
  · exact h.flags _ (mem_iff_slotAt.mpr ⟨i, hi, rfl⟩)
  · rw [keyAt, slotAt_of_ge (by omega)]
    rfl

theorem Shape.pos {entries : List DrLocalEntry} (h : Shape entries) : 0 < entries.length := by
  obtain ⟨k, hk⟩ := h.power
  rw [hk]
  exact Nat.two_pow_pos k

theorem Shape.entries_ne_nil {entries : List DrLocalEntry} (h : Shape entries) : entries ≠ [] :=
  List.ne_nil_of_length_pos h.pos

theorem Shape.mask {entries : List DrLocalEntry} (h : Shape entries) (slot : Nat) :
    (slot + 1) &&& (entries.length - 1) = nextSlot entries.length slot := by
  obtain ⟨k, hk⟩ := h.power
  rw [nextSlot, hk, Nat.and_two_pow_sub_one_eq_mod]

theorem probeLoop_eq {entries : List DrLocalEntry} (h : Shape entries) (domain : CString) :
    ∀ left slot, probeLoop entries domain left slot =
      match scanFrom (nextSlot entries.length) (stops (keyAt entries) domain) left slot with
      | none => .exhausted
      | some s => if keyAt entries s = none then .free s else .found s := by
  intro left
  induction left with
  | zero => intro slot; rfl
  | succ left ih =>
    intro slot
    rw [probeLoop, scanFrom, h.flagsAt, h.mask, ih, ← keyAt]
    cases hkey : keyAt entries slot with
    | none => simp [stops, hkey]
    | some key =>
      by_cases heq : key = domain
      · simp [stops, hkey, heq]
      · simp [stops, hkey, heq]

/-- Where a key is absent, the loop for a free slot is the search for the key. -/
theorem freeSlotLoop_eq {entries : List DrLocalEntry} (h : Shape entries) {domain : CString}
    (habsent : ∀ i < entries.length, keyAt entries i ≠ some domain) :
    ∀ left slot, slot < entries.length → freeSlotLoop entries left slot =
      match scanFrom (nextSlot entries.length) (stops (keyAt entries) domain) left slot with
      | none => .stuck
      | some s => .ok s := by
  intro left
  induction left with
  | zero => intro slot _; rfl
  | succ left ih =>
    intro slot hslot
    have hother := habsent slot hslot
    have hnext : nextSlot entries.length slot < entries.length := Nat.mod_lt _ h.pos
    rw [freeSlotLoop, scanFrom, h.flagsAt, h.mask, ih _ hnext]
    cases hkey : keyAt entries slot with
    | none => simp [stops, hkey]
    | some key =>
      rw [hkey] at hother
      simp only [stops, hkey, Option.isSome_some, if_true, reduceCtorEq, hother, or_self,
        decide_false, Bool.false_eq_true, if_false]

theorem used_set {entries : List DrLocalEntry} {i : Nat} {e : DrLocalEntry}
    (hi : i < entries.length) (he : e.inUse = true) :
    used (entries.set i e) = used entries + if (slotAt entries i).inUse then 0 else 1 := by
  obtain ⟨pre, suf, hsplit, rfl⟩ := split_at hi
  generalize slotAt entries pre.length = old at hsplit ⊢
  subst hsplit
  rw [List.set_append_right _ _ (le_refl _), Nat.sub_self, List.set_cons_zero, used, used,
    List.filter_append, List.filter_append, List.filter_cons_of_pos he]
  cases hold : old.inUse with
  | true => simp [List.filter_cons_of_pos hold]
  | false =>
    rw [List.filter_cons_of_neg (by simp [hold])]
    simp only [List.length_append, List.length_cons, Bool.false_eq_true, if_false]
    omega

theorem exists_free {entries : List DrLocalEntry} (h : Shape entries)
    (hroom : used entries < entries.length) : ∃ i < entries.length, keyAt entries i = none := by
  obtain ⟨e, he, hfree⟩ := List.length_filter_lt_length_iff_exists.mp hroom
  obtain ⟨i, hi, rfl⟩ := mem_iff_slotAt.mp he
  refine ⟨i, hi, ?_⟩
  rw [h.flagsAt] at hfree
  cases hkey : keyAt entries i with
  | none => rfl
  | some key => simp [hkey] at hfree

theorem hasRule_iff_slot {entries : List DrLocalEntry} {domain : CString} {ipv4Be : Ipv4Be} :
    HasRule entries domain ipv4Be ↔
      ∃ j < entries.length, keyAt entries j = some domain ∧ (slotAt entries j).ipv4Be = ipv4Be := by
  constructor
  · intro hrule
    obtain ⟨e, he, hdomain, hipv4⟩ := hrule
    obtain ⟨j, hj, rfl⟩ := mem_iff_slotAt.mp he
    exact ⟨j, hj, hdomain, hipv4⟩
  · intro hslot
    obtain ⟨j, hj, hdomain, hipv4⟩ := hslot
    exact ⟨_, mem_iff_slotAt.mpr ⟨j, hj, rfl⟩, hdomain, hipv4⟩

theorem HasRule.key {entries : List DrLocalEntry} {domain : CString} {ipv4Be : Ipv4Be}
    (h : HasRule entries domain ipv4Be) : ∃ i < entries.length, keyAt entries i = some domain := by
  obtain ⟨i, hi, hdomain, _⟩ := hasRule_iff_slot.mp h
  exact ⟨i, hi, hdomain⟩

theorem not_key_of_no_rule {entries : List DrLocalEntry} {domain : CString}
    (h : ∀ a, ¬ HasRule entries domain a) : ∀ i < entries.length, keyAt entries i ≠ some domain :=
  fun i hi hkey => h _ ⟨slotAt entries i, mem_iff_slotAt.mpr ⟨i, hi, rfl⟩, hkey, rfl⟩

/-- The rules after one slot was written: its own, and those of the other slots. -/
theorem hasRule_set {entries : List DrLocalEntry} {i : Nat} {e : DrLocalEntry}
    (hi : i < entries.length) {domain : CString} {ipv4Be : Ipv4Be} :
    HasRule (entries.set i e) domain ipv4Be ↔ (e.domain = some domain ∧ e.ipv4Be = ipv4Be) ∨
      ∃ j < entries.length, j ≠ i ∧ keyAt entries j = some domain ∧
        (slotAt entries j).ipv4Be = ipv4Be := by
  rw [hasRule_iff_slot, List.length_set]
  constructor
  · intro hslot
    obtain ⟨j, hj, hdomain, hipv4⟩ := hslot
    rw [keyAt] at hdomain
    by_cases hji : j = i
    · subst hji
      rw [slotAt_set_self hj] at hdomain hipv4
      exact Or.inl ⟨hdomain, hipv4⟩
    · rw [slotAt_set_of_ne hji] at hdomain hipv4
      exact Or.inr ⟨j, hj, hji, hdomain, hipv4⟩
  · intro hcase
    rcases hcase with ⟨hdomain, hipv4⟩ | ⟨j, hj, hji, hdomain, hipv4⟩
    · refine ⟨i, hi, ?_⟩
      rw [keyAt, slotAt_set_self hi]
      exact ⟨hdomain, hipv4⟩
    · refine ⟨j, hj, ?_⟩
      rw [keyAt, slotAt_set_of_ne hji]
      exact ⟨hdomain, hipv4⟩

theorem Shape.flags_set {entries : List DrLocalEntry} (h : Shape entries) (i : Nat)
    {e : DrLocalEntry} (he : e.inUse = e.domain.isSome) :
    ∀ x ∈ entries.set i e, x.inUse = x.domain.isSome := by
  intro x hx
  rcases List.mem_or_eq_of_mem_set hx with hx | rfl
  · exact h.flags x hx
  · exact he

/-- An absent key goes to the free slot its search ends on. -/
theorem Shape.place {entries : List DrLocalEntry} (h : Shape entries) (domain : CString)
    (habsent : ∀ a, ¬ HasRule entries domain a) (hroom : used entries < entries.length)
    (ipv4Be : Ipv4Be) :
    ∃ i < entries.length,
      probeLoop entries domain entries.length (homeSlot entries.length domain) = .free i ∧
      freeSlotLoop entries entries.length (homeSlot entries.length domain) = .ok i ∧
      Shape (entries.set i ⟨some domain, ipv4Be, true⟩) ∧
      used (entries.set i ⟨some domain, ipv4Be, true⟩) = used entries + 1 ∧
      ∀ d a, HasRule (entries.set i ⟨some domain, ipv4Be, true⟩) d a ↔
        (d = domain ∧ a = ipv4Be) ∨ HasRule entries d a := by
  have hkeys := not_key_of_no_rule habsent
  obtain ⟨n, hn, hprobe, hlt, hfree, hpassed⟩ := h.placed.probe_absent hkeys (exists_free h hroom)
  generalize hslot : (nextSlot entries.length)^[n] (homeSlot entries.length domain) = i at *
  rw [probe] at hprobe
  have hunused : (slotAt entries i).inUse = false := by rw [h.flagsAt, hfree]; rfl
  have hself := slotAt_set_self (e := (⟨some domain, ipv4Be, true⟩ : DrLocalEntry)) hlt
  refine ⟨i, hlt, ?_, ?_, ⟨?_, ?_, ?_⟩, ?_, ?_⟩
  · rw [probeLoop_eq h, hprobe]
    simp [hfree]
  · rw [freeSlotLoop_eq h hkeys _ _ (h.placed.home_lt domain), hprobe]
  · rw [List.length_set]
    exact h.power
  · exact h.flags_set i rfl
  · rw [List.length_set]
    apply h.placed.fill hn hslot hfree hpassed (congrArg DrLocalEntry.domain hself)
    intro j hj
    rw [keyAt, slotAt_set_of_ne hj, ← keyAt]
  · rw [used_set hlt rfl, hunused]
    rfl
  · intro d a
    rw [hasRule_set hlt, hasRule_iff_slot]
    constructor
    · intro hrule
      rcases hrule with ⟨hdomain, hipv4⟩ | ⟨j, hj, _, hrule⟩
      · exact Or.inl ⟨(Option.some.inj hdomain).symm, hipv4.symm⟩
      · exact Or.inr ⟨j, hj, hrule⟩
    · intro hrule
      rcases hrule with ⟨rfl, rfl⟩ | ⟨j, hj, hkey, hipv4⟩
      · exact Or.inl ⟨rfl, rfl⟩
      · have hji : j ≠ i := by
          intro heq
          subst heq
          cases hfree.symm.trans hkey
        exact Or.inr ⟨j, hj, hji, hkey, hipv4⟩

/-- A present key is found, and its value can be replaced in place. -/
theorem Shape.update {entries : List DrLocalEntry} (h : Shape entries) {domain : CString}
    (hrule : ∃ a, HasRule entries domain a) (ipv4Be : Ipv4Be) :
    ∃ i < entries.length, keyAt entries i = some domain ∧
      probeLoop entries domain entries.length (homeSlot entries.length domain) = .found i ∧
      Shape (entries.set i ((slotAt entries i).assign ipv4Be)) ∧
      used (entries.set i ((slotAt entries i).assign ipv4Be)) = used entries ∧
      ∀ d a, HasRule (entries.set i ((slotAt entries i).assign ipv4Be)) d a ↔
        if d = domain then a = ipv4Be else HasRule entries d a := by
  obtain ⟨_, hrule⟩ := hrule
  obtain ⟨i, hi, hkey⟩ := hrule.key
  have hprobe := h.placed.probe_stored hi hkey
  rw [probe] at hprobe
  have huse : (slotAt entries i).inUse = true := by rw [h.flagsAt, hkey]; rfl
  have hself := slotAt_set_self (e := (slotAt entries i).assign ipv4Be) hi
  have hkeys : keyAt (entries.set i ((slotAt entries i).assign ipv4Be)) = keyAt entries := by
    funext j
    by_cases hji : j = i
    · subst hji
      rw [keyAt, hself]
      rfl
    · rw [keyAt, slotAt_set_of_ne hji, keyAt]
  refine ⟨i, hi, hkey, ?_, ⟨?_, ?_, ?_⟩, ?_, ?_⟩
  · rw [probeLoop_eq h, hprobe]
    simp [hkey]
  · rw [List.length_set]
    exact h.power
  · exact h.flags_set i (h.flagsAt i)
  · rw [List.length_set, hkeys]
    exact h.placed
  · rw [used_set (e := (slotAt entries i).assign ipv4Be) hi huse, huse]
    rfl
  · intro d a
    rw [hasRule_set hi]
    by_cases hd : d = domain
    · subst hd
      rw [if_pos rfl]
      constructor
      · intro hrule
        rcases hrule with ⟨_, hipv4⟩ | ⟨j, hj, hji, hdomain, _⟩
        · exact hipv4.symm
        · exact absurd (h.placed.injective hj hi hdomain hkey) hji
      · intro ha
        exact Or.inl ⟨hkey, ha.symm⟩
    · rw [if_neg hd, hasRule_iff_slot]
      constructor
      · intro hrule
        rcases hrule with ⟨hdomain, _⟩ | ⟨j, hj, _, hrule⟩
        · exact absurd (Option.some.inj (hdomain.symm.trans hkey)) hd
        · exact ⟨j, hj, hrule⟩
      · intro hrule
        obtain ⟨j, hj, hdomain, hipv4⟩ := hrule
        have hji : j ≠ i := by
          intro heq
          subst heq
          exact hd (Option.some.inj (hdomain.symm.trans hkey))
        exact Or.inr ⟨j, hj, hji, hdomain, hipv4⟩

theorem shape_clearEntries (k : Nat) : Shape (clearEntries (2 ^ k)) where
  power := ⟨k, List.length_replicate ..⟩
  flags e he := by
    rw [(List.mem_replicate.mp he).2]
    rfl
  placed := by
    have hpos : 0 < (clearEntries (2 ^ k)).length := by
      rw [clearEntries, List.length_replicate]
      exact Nat.two_pow_pos k
    apply Placed.empty (fun key => homeSlot_lt hpos key)
    intro i
    rw [keyAt, slotAt, clearEntries, List.getD_eq_getElem?_getD, List.getElem?_replicate]
    split <;> rfl

theorem hasRule_clearEntries (capacity : Nat) (domain : CString) (ipv4Be : Ipv4Be) :
    ¬ HasRule (clearEntries capacity) domain ipv4Be := by
  intro hrule
  obtain ⟨e, he, hdomain, _⟩ := hrule
  rw [(List.mem_replicate.mp he).2] at hdomain
  cases hdomain

theorem used_clearEntries (capacity : Nat) : used (clearEntries capacity) = 0 := by
  rw [used, List.length_eq_zero_iff, List.filter_eq_nil_iff]
  intro e he
  rw [(List.mem_replicate.mp he).2]
  exact Bool.false_ne_true

/-- Moving the old slots over, one after the other, into storage with room for all of them. -/
theorem rehashLoop_spec (old : List DrLocalEntry) : ∀ new : List DrLocalEntry, Shape new →
    (∀ e ∈ old, e.inUse = e.domain.isSome) →
    old.Pairwise (fun e e' => e.domain ≠ none → e'.domain ≠ e.domain) →
    (∀ e ∈ old, ∀ d, e.domain = some d → ∀ a, ¬ HasRule new d a) →
    used new + used old < new.length →
    ∃ new', rehashLoop old new = .ok new' ∧ Shape new' ∧ new'.length = new.length ∧
      used new' = used new + used old ∧
      ∀ d a, HasRule new' d a ↔ HasRule new d a ∨ HasRule old d a := by
  induction old with
  | nil =>
    intro new hnew _ _ _ _
    exact ⟨new, rfl, hnew, rfl, rfl, by simp [HasRule]⟩
  | cons e old ih =>
    intro new hnew hflags hdistinct habsent hroom
    have hrule (d : CString) (a : Ipv4Be) : HasRule (e :: old) d a ↔
        (e.domain = some d ∧ e.ipv4Be = a) ∨ HasRule old d a := by
      simp [HasRule]
    obtain ⟨hhead, htail⟩ := List.pairwise_cons.mp hdistinct
    obtain ⟨hflag, hflags⟩ := List.forall_mem_cons.mp hflags
    obtain ⟨hfresh, habsent⟩ := List.forall_mem_cons.mp habsent
    rw [rehashLoop]
    cases hdomain : e.domain with
    | none =>
      have hunused : e.inUse = false := by rw [hflag, hdomain]; rfl
      have hcount : used (e :: old) = used old := by
        rw [used, List.filter_cons_of_neg (by simp [hunused]), used]
      rw [hcount] at hroom ⊢
      obtain ⟨new', hloop, hshape, hlen, hused, hrules⟩ := ih new hnew hflags htail habsent hroom
      refine ⟨new', by rw [hunused, if_neg Bool.false_ne_true]; exact hloop, hshape, hlen, hused,
        fun d a => ?_⟩
      rw [hrules, hrule, hdomain]
      simp
    | some domain =>
      have huse : e.inUse = true := by rw [hflag, hdomain]; rfl
      have hcount : used (e :: old) = used old + 1 := by
        rw [used, List.filter_cons_of_pos huse, List.length_cons, used]
      rw [hcount] at hroom ⊢
      obtain ⟨i, hi, _, hloop, hshape, hused, hrules⟩ :=
        hnew.place domain (hfresh domain hdomain) (by omega) e.ipv4Be
      have hplace : placeExistingEntry new (some domain) e.ipv4Be =
          .ok (new.set i ⟨some domain, e.ipv4Be, true⟩) := by
        rw [placeExistingEntry]
        simp only [Outcome.ok_bind, hloop, Outcome.pure_eq]
      have hlen : (new.set i ⟨some domain, e.ipv4Be, true⟩).length = new.length := List.length_set
      obtain ⟨new', hrest, hshape', hlen', hused', hrules'⟩ := ih _ hshape hflags htail (by
        intro e' he' d hd a hhas
        rcases (hrules d a).mp hhas with ⟨rfl, _⟩ | hold
        · exact hhead e' he' (by simp [hdomain]) (hd.trans hdomain.symm)
        · exact habsent e' he' d hd a hold) (by omega)
      refine ⟨new', ?_, hshape', by rw [hlen', hlen], by omega, fun d a => ?_⟩
      · rw [if_pos huse, hplace, Outcome.ok_bind]
        exact hrest
      · rw [hrules', hrules, hrule, hdomain, Option.some.injEq, eq_comm (a := domain),
          eq_comm (a := e.ipv4Be)]
        tauto

/-- The slots of a well-formed table hold each domain once. -/
theorem Shape.distinct {entries : List DrLocalEntry} (h : Shape entries) :
    entries.Pairwise (fun e e' => e.domain ≠ none → e'.domain ≠ e.domain) := by
  rw [List.pairwise_iff_getElem]
  intro i j hi hj hij hne heq
  obtain ⟨domain, hdomain⟩ := Option.ne_none_iff_exists'.mp hne
  have hkey : keyAt entries i = some domain := by rw [keyAt, slotAt_of_lt hi]; exact hdomain
  have hkey' : keyAt entries j = some domain := by
    rw [keyAt, slotAt_of_lt hj]
    exact heq.trans hdomain
  have hsame := h.placed.injective hi hj hkey hkey'
  omega

/-- The value of the last rule for a domain. -/
def lastRule (rules : List (CString × Ipv4Be)) (domain : CString) : Option Ipv4Be :=
  (rules.reverse.find? (fun rule => rule.1 = domain)).map Prod.snd

theorem lastRule_append (rules : List (CString × Ipv4Be)) (domain : CString) (ipv4Be : Ipv4Be)
    (d : CString) : lastRule (rules ++ [(domain, ipv4Be)]) d =
      if d = domain then some ipv4Be else lastRule rules d := by
  simp only [lastRule, List.reverse_append, List.reverse_cons, List.reverse_nil, List.nil_append,
    List.singleton_append, List.find?_cons]
  by_cases h : d = domain
  · simp [h]
  · simp [h, Ne.symm h]

theorem lastRule_eq_none {rules : List (CString × Ipv4Be)} {domain : CString} :
    lastRule rules domain = none ↔ ∀ rule ∈ rules, rule.1 ≠ domain := by
  simp [lastRule]

structure TableInv (table : DrLocalTable) (rules : List (CString × Ipv4Be)) : Prop where
  shape : Shape table.entries
  large : DR_LOCAL_TABLE_INITIAL_CAPACITY ≤ table.capacity
  count : used table.entries = table.size
  load : table.size * 10 ≤ table.capacity * 7
  ruled : ∀ d a, HasRule table.entries d a ↔ lastRule rules d = some a
  distinct : table.size = (rules.map Prod.fst).toFinset.card

/-- Every allocation succeeds. -/
def Mallocs.succeed : Mallocs := { table := true, grow := true, text := true }

theorem tableInv_initial : TableInv
    { entries := clearEntries DR_LOCAL_TABLE_INITIAL_CAPACITY, size := 0,
      localTtl := DR_LOCAL_TABLE_TTL } [] where
  shape := shape_clearEntries 9
  large := Nat.le_of_eq (List.length_replicate ..).symm
  count := used_clearEntries _
  load := by simp
  ruled d a := iff_of_false (hasRule_clearEntries _ d a) nofun
  distinct := rfl

/-- The load factor leaves a slot free. -/
theorem TableInv.room {table : DrLocalTable} {rules : List (CString × Ipv4Be)}
    (h : TableInv table rules) : used table.entries < table.entries.length := by
  have hcount := h.count
  have hload := h.load
  have hlarge := h.large
  simp only [DR_LOCAL_TABLE_INITIAL_CAPACITY, DrLocalTable.capacity] at hlarge hload
  omega

theorem TableInv.absent {table : DrLocalTable} {rules : List (CString × Ipv4Be)}
    (h : TableInv table rules) {domain : CString} (hnone : lastRule rules domain = none) :
    ∀ a, ¬ HasRule table.entries domain a := by
  intro a hrule
  rw [h.ruled, hnone] at hrule
  cases hrule

/-- The search for a domain without a rule ends on a free slot. -/
theorem TableInv.probe_none {table : DrLocalTable} {rules : List (CString × Ipv4Be)}
    (h : TableInv table rules) {domain : CString} (hnone : lastRule rules domain = none) :
    ∃ slot, probeLoop table.entries domain table.capacity (homeSlot table.capacity domain) =
      .free slot := by
  obtain ⟨slot, _, hprobe, _⟩ := h.shape.place domain (h.absent hnone) h.room .zero
  exact ⟨slot, hprobe⟩

/-- The search for a domain with a rule ends on the slot that holds its value. -/
theorem TableInv.probe_some {table : DrLocalTable} {rules : List (CString × Ipv4Be)}
    (h : TableInv table rules) {domain : CString} {ipv4Be : Ipv4Be}
    (hlast : lastRule rules domain = some ipv4Be) :
    ∃ slot, probeLoop table.entries domain table.capacity (homeSlot table.capacity domain) =
      .found slot ∧ (slotAt table.entries slot).ipv4Be = ipv4Be := by
  obtain ⟨j, hj, hdomain, hvalue⟩ := hasRule_iff_slot.mp ((h.ruled domain ipv4Be).mpr hlast)
  obtain ⟨slot, hslot, hkey, hprobe, _⟩ :=
    h.shape.update ⟨_, hasRule_iff_slot.mpr ⟨j, hj, hdomain, hvalue⟩⟩ .zero
  refine ⟨slot, hprobe, ?_⟩
  rw [h.shape.placed.injective hslot hj hkey hdomain, hvalue]

/-- Growing doubles the storage and keeps the rules. -/
theorem TableInv.expand {table : DrLocalTable} {rules : List (CString × Ipv4Be)}
    (h : TableInv table rules) : ∃ grown, expandTable table .succeed = .ok (grown, true) ∧
      TableInv grown rules ∧ grown.capacity = table.capacity * 2 := by
  obtain ⟨k, hk⟩ := h.shape.power
  have hcap : table.capacity * 2 = 2 ^ (k + 1) := by
    rw [DrLocalTable.capacity, hk, Nat.pow_succ]
  have hlen : (clearEntries (table.capacity * 2)).length = table.capacity * 2 :=
    List.length_replicate ..
  have hlarge := h.large
  have hload := h.load
  have hcount := h.count
  simp only [DR_LOCAL_TABLE_INITIAL_CAPACITY] at hlarge
  obtain ⟨new, hloop, hshape, hnew, hused, hrules⟩ := rehashLoop_spec table.entries
    (clearEntries (table.capacity * 2)) (hcap ▸ shape_clearEntries (k + 1)) h.shape.flags
    h.shape.distinct (fun _ _ d _ a => hasRule_clearEntries _ d a)
    (by rw [used_clearEntries, hlen]; omega)
  rw [used_clearEntries, Nat.zero_add] at hused
  rw [hlen] at hnew
  refine ⟨{ table with entries := new }, ?_, ⟨hshape, ?_, hused.trans hcount, ?_, fun d a => ?_,
    h.distinct⟩, hnew⟩
  · rw [expandTable, Mallocs.succeed, if_pos rfl, hloop]
    rfl
  · simp only [DR_LOCAL_TABLE_INITIAL_CAPACITY, DrLocalTable.capacity, hnew] at hlarge ⊢
    omega
  · simp only [DrLocalTable.capacity, hnew] at hload ⊢
    omega
  · rw [hrules, ← h.ruled]
    exact or_iff_right (hasRule_clearEntries _ d a)

/-- A domain without a rule is stored in a table with room for it. -/
theorem TableInv.store {table : DrLocalTable} {rules : List (CString × Ipv4Be)}
    (h : TableInv table rules) {domain : CString} (hnone : lastRule rules domain = none)
    (hload : (table.size + 1) * 10 ≤ table.capacity * 7) (ipv4Be : Ipv4Be) :
    ∃ slot, probeLoop table.entries domain table.capacity (homeSlot table.capacity domain) =
        .free slot ∧
      freeSlotLoop table.entries table.capacity (homeSlot table.capacity domain) = .ok slot ∧
      TableInv (storeEntry table slot domain ipv4Be .succeed).1 (rules ++ [(domain, ipv4Be)]) := by
  have habsent := h.absent hnone
  have hcount := h.count
  obtain ⟨slot, hslot, hprobe, hfree, hshape, hused, hrules⟩ :=
    h.shape.place domain habsent h.room ipv4Be
  refine ⟨slot, hprobe, hfree, hshape, ?_, hused.trans (by rw [hcount]; rfl), ?_, fun d a => ?_, ?_⟩
  · have hlarge := h.large
    simpa [DrLocalTable.capacity, storeEntry, Mallocs.succeed] using hlarge
  · simpa [DrLocalTable.capacity, storeEntry, Mallocs.succeed] using hload
  · rw [lastRule_append]
    apply (hrules d a).trans
    by_cases hd : d = domain
    · subst hd
      simp [habsent, eq_comm]
    · simp [hd, h.ruled]
  · have hnew : domain ∉ (rules.map Prod.fst).toFinset := by
      simpa using fun a hmem => lastRule_eq_none.mp hnone (domain, a) hmem rfl
    have hset : ((rules ++ [(domain, ipv4Be)]).map Prod.fst).toFinset =
        insert domain (rules.map Prod.fst).toFinset := by
      ext d
      simp
    rw [hset, Finset.card_insert_of_notMem hnew, ← h.distinct]
    rfl

theorem expandTable_of_grow (table : DrLocalTable) {mallocs : Mallocs} (h : mallocs.grow = true) :
    expandTable table mallocs = expandTable table .succeed := by
  rw [expandTable, expandTable, if_pos h]
  rfl

theorem expandTable_of_not_grow (table : DrLocalTable) {mallocs : Mallocs}
    (h : mallocs.grow = false) : expandTable table mallocs = .ok (table, false) := by
  rw [expandTable, if_neg (by simp [h])]
  rfl

/-- The end of an insertion: the rule is stored, or the text cannot be copied and nothing changes. -/
theorem TableInv.stored {table : DrLocalTable} {rules : List (CString × Ipv4Be)}
    (h : TableInv table rules) {slot : Nat} {domain : CString} {ipv4Be : Ipv4Be}
    (hstore : TableInv (storeEntry table slot domain ipv4Be .succeed).1
      (rules ++ [(domain, ipv4Be)])) (mallocs : Mallocs) :
    ∃ table', storeEntry table slot domain ipv4Be mallocs = (table', mallocs.text) ∧
      TableInv table' (if mallocs.text then rules ++ [(domain, ipv4Be)] else rules) := by
  cases htext : mallocs.text with
  | true =>
    refine ⟨_, ?_, hstore⟩
    rw [storeEntry, if_pos htext]
    rfl
  | false =>
    refine ⟨table, ?_, h⟩
    rw [storeEntry, if_neg (by simp [htext])]

/-- The value of a domain that has a rule is replaced where the search finds it. -/
theorem TableInv.update {table : DrLocalTable} {rules : List (CString × Ipv4Be)}
    (h : TableInv table rules) {domain : CString} {old : Ipv4Be}
    (hlast : lastRule rules domain = some old) (ipv4Be : Ipv4Be) :
    ∃ slot, probeLoop table.entries domain table.capacity (homeSlot table.capacity domain) =
        .found slot ∧
      TableInv { table with
        entries := table.entries.set slot ((slotAt table.entries slot).assign ipv4Be) }
        (rules ++ [(domain, ipv4Be)]) := by
  obtain ⟨slot, hslot, hkey, hprobe, hshape, hused, hrules⟩ :=
    h.shape.update ⟨old, (h.ruled domain old).mpr hlast⟩ ipv4Be
  refine ⟨slot, hprobe, hshape, ?_, hused.trans h.count, ?_, fun d a => ?_, ?_⟩
  · simpa [DrLocalTable.capacity] using h.large
  · simpa [DrLocalTable.capacity] using h.load
  · rw [lastRule_append]
    apply (hrules d a).trans
    by_cases hd : d = domain
    · simp [hd, eq_comm]
    · simp [hd, h.ruled]
  · have hold : domain ∈ rules.map Prod.fst := by
      by_contra hnot
      have hnone : lastRule rules domain = none :=
        lastRule_eq_none.mpr (fun rule hmem heq => hnot (heq ▸ List.mem_map_of_mem hmem))
      rw [hnone] at hlast
      cases hlast
    refine h.distinct.trans (congrArg Finset.card ?_)
    ext d
    simp only [List.map_append, List.map_cons, List.map_nil, List.mem_toFinset, List.mem_append,
      List.mem_singleton]
    exact ⟨Or.inl, fun hd => hd.elim id (fun heq => heq ▸ hold)⟩

/-- One insertion into a table with storage, whichever allocations fail. -/
theorem TableInv.insert_any {table : DrLocalTable} {rules : List (CString × Ipv4Be)}
    (h : TableInv table rules) (domain : CString) (ipv4Be : Ipv4Be) (mallocs : Mallocs) :
    ∃ table' success, insertEntry table domain ipv4Be mallocs = .ok (table', success) ∧
      TableInv table' (if success then rules ++ [(domain, ipv4Be)] else rules) ∧
      (mallocs.grow = true → mallocs.text = true → success = true) := by
  have hne := h.shape.entries_ne_nil
  unfold insertEntry
  rw [ensureTableReady, if_pos hne]
  dsimp only
  rw [Bool.not_true, if_neg Bool.false_ne_true]
  cases hlast : lastRule rules domain with
  | some old =>
    obtain ⟨slot, hprobe, hinv⟩ := h.update hlast ipv4Be
    rw [hprobe]
    exact ⟨_, true, rfl, hinv, fun _ _ => rfl⟩
  | none =>
    by_cases hgrow : (table.size + 1) * 10 > table.capacity * 7
    · -- the search in the old table only says that the domain is not there
      obtain ⟨old, hprobe⟩ := h.probe_none hlast
      rw [hprobe]
      dsimp only
      rw [if_pos hgrow]
      cases hmalloc : mallocs.grow with
      | false =>
        rw [expandTable_of_not_grow table hmalloc]
        exact ⟨table, false, rfl, h, fun hgrown => absurd hgrown Bool.false_ne_true⟩
      | true =>
        obtain ⟨grown, hexpand, hgrown, hcap⟩ := h.expand
        have hsize : grown.size = table.size := hgrown.distinct.trans h.distinct.symm
        have hload := h.load
        have hlarge := h.large
        simp only [DR_LOCAL_TABLE_INITIAL_CAPACITY] at hlarge
        obtain ⟨slot, _, hfree, hstore⟩ := hgrown.store hlast (by omega) ipv4Be
        obtain ⟨table', hend, hinv⟩ := hgrown.stored hstore mallocs
        rw [expandTable_of_grow table hmalloc, hexpand, Outcome.ok_bind]
        dsimp only
        rw [Bool.not_true, if_neg Bool.false_ne_true, hfree, Outcome.ok_bind]
        exact ⟨table', mallocs.text, congrArg Outcome.ok hend, hinv, fun _ htext => htext⟩
    · obtain ⟨slot, hprobe, _, hstore⟩ := h.store hlast (by omega) ipv4Be
      obtain ⟨table', hend, hinv⟩ := h.stored hstore mallocs
      rw [hprobe]
      dsimp only
      rw [if_neg hgrow]
      exact ⟨table', mallocs.text, congrArg Outcome.ok hend, hinv, fun _ htext => htext⟩

/-- One insertion into a table with storage. -/
theorem TableInv.insert {table : DrLocalTable} {rules : List (CString × Ipv4Be)}
    (h : TableInv table rules) (domain : CString) (ipv4Be : Ipv4Be) :
    ∃ table', insertEntry table domain ipv4Be .succeed = .ok (table', true) ∧
      TableInv table' (rules ++ [(domain, ipv4Be)]) := by
  obtain ⟨table', success, hinsert, hinv, hsuccess⟩ := h.insert_any domain ipv4Be .succeed
  obtain rfl := hsuccess rfl rfl
  exact ⟨table', hinsert, hinv⟩

/-- A lookup in a table with storage reads the last rule for the normalised name. -/
theorem TableInv.lookup {table : DrLocalTable} {rules : List (CString × Ipv4Be)}
    (h : TableInv table rules) (qname : CString) : drLocalTableLookup table qname =
      match (drDnsNormalizeName qname (DR_DNS_MAX_DOMAIN_LEN + 1)).toOption.bind (lastRule rules) with
      | none => { kind := .miss, ipv4Be := .zero, ttl := table.localTtl }
      | some ipv4Be =>
        { kind := if ipv4Be = .zero then .blocked else .hit, ipv4Be, ttl := table.localTtl } := by
  have hne := h.shape.entries_ne_nil
  rw [drLocalTableLookup, if_neg hne]
  cases drDnsNormalizeName qname (DR_DNS_MAX_DOMAIN_LEN + 1) with
  | stuck => rfl
  | fail e => rfl
  | ok normalized =>
    simp only [Outcome.toOption, Option.bind_some]
    cases hlast : lastRule rules normalized with
    | none =>
      obtain ⟨slot, hprobe⟩ := h.probe_none hlast
      rw [hprobe]
    | some ipv4Be =>
      obtain ⟨slot, hprobe, hvalue⟩ := h.probe_some hlast
      rw [hprobe]
      dsimp only
      rw [hvalue]

/-- Insert rules in order; stops at the first insertion that does not report success. -/
def insertAll : DrLocalTable → List (CString × Ipv4Be) → Call DrLocalTable
  | table, [] => .ok table
  | table, (domain, ipv4Be) :: rest => do
    let (table, success) ← insertEntry table domain ipv4Be .succeed
    if success then insertAll table rest else .fail ()

/-- The table before the first insertion, or one with storage. -/
def Loaded (table : DrLocalTable) (rules : List (CString × Ipv4Be)) : Prop :=
  (table = .zero ∧ rules = []) ∨ TableInv table rules

theorem Loaded.insert {table : DrLocalTable} {rules : List (CString × Ipv4Be)}
    (h : Loaded table rules) (domain : CString) (ipv4Be : Ipv4Be) :
    ∃ table', insertEntry table domain ipv4Be .succeed = .ok (table', true) ∧
      TableInv table' (rules ++ [(domain, ipv4Be)]) := by
  rcases h with ⟨rfl, rfl⟩ | h
  · -- the first insertion allocates and goes on as if the storage had been there
    obtain ⟨table', hinsert, hinv⟩ := tableInv_initial.insert domain ipv4Be
    refine ⟨table', ?_, hinv⟩
    rw [← hinsert, insertEntry, insertEntry, ensureTableReady, ensureTableReady,
      if_neg (by simp [DrLocalTable.zero]), if_pos (by rfl), if_pos tableInv_initial.shape.entries_ne_nil]
  · exact h.insert domain ipv4Be

theorem insertAll_loaded (rules : List (CString × Ipv4Be)) : ∀ table done, Loaded table done →
    ∃ table', insertAll table rules = .ok table' ∧ Loaded table' (done ++ rules) := by
  induction rules with
  | nil => exact fun table done h => ⟨table, rfl, by rwa [List.append_nil]⟩
  | cons rule rules ih =>
    intro table done h
    obtain ⟨next, hinsert, hnext⟩ := h.insert rule.1 rule.2
    obtain ⟨last, hrest, hlast⟩ := ih next _ (Or.inr hnext)
    refine ⟨last, ?_, by simpa using hlast⟩
    rw [insertAll, hinsert, Outcome.ok_bind]
    exact hrest

theorem Loaded.lookup {table : DrLocalTable} {rules : List (CString × Ipv4Be)}
    (h : Loaded table rules) (qname : CString) : drLocalTableLookup table qname =
      match (drDnsNormalizeName qname (DR_DNS_MAX_DOMAIN_LEN + 1)).toOption.bind (lastRule rules) with
      | none => { kind := .miss, ipv4Be := .zero, ttl := table.localTtl }
      | some ipv4Be =>
        { kind := if ipv4Be = .zero then .blocked else .hit, ipv4Be, ttl := table.localTtl } := by
  rcases h with ⟨rfl, rfl⟩ | h
  · cases drDnsNormalizeName qname (DR_DNS_MAX_DOMAIN_LEN + 1) <;> rfl
  · exact h.lookup qname

/-- Inserting rules builds a table that answers as the list of rules does, the last rule for a
domain deciding. -/
theorem local_table_last_rule (rules : List (CString × Ipv4Be)) :
    ∃ table, insertAll .zero rules = .ok table ∧
      drLocalTableSize table = (rules.map Prod.fst).toFinset.card ∧
      ∀ qname,
        ((drLocalTableLookup table qname).kind = .miss ↔
          ∀ normalized, drDnsNormalizeName qname (DR_DNS_MAX_DOMAIN_LEN + 1) = .ok normalized →
            ∀ rule ∈ rules, rule.1 ≠ normalized) ∧
        ∀ normalized front ipv4Be back,
          drDnsNormalizeName qname (DR_DNS_MAX_DOMAIN_LEN + 1) = .ok normalized →
          rules = front ++ (normalized, ipv4Be) :: back →
          (∀ rule ∈ back, rule.1 ≠ normalized) →
          (drLocalTableLookup table qname).ipv4Be = ipv4Be ∧
            (drLocalTableLookup table qname).kind = if ipv4Be = .zero then .blocked else .hit := by
  obtain ⟨table, hinsert, hloaded⟩ := insertAll_loaded rules .zero [] (Or.inl ⟨rfl, rfl⟩)
  rw [List.nil_append] at hloaded
  refine ⟨table, hinsert, ?_, fun qname => ⟨?_, ?_⟩⟩
  · rcases hloaded with ⟨rfl, rfl⟩ | h
    · rfl
    · exact h.distinct
  · rw [hloaded.lookup]
    cases hnorm : drDnsNormalizeName qname (DR_DNS_MAX_DOMAIN_LEN + 1) with
    | stuck => simp [Outcome.toOption]
    | fail e => simp [Outcome.toOption]
    | ok normalized =>
      simp only [Outcome.toOption, Option.bind_some, Outcome.ok.injEq]
      cases hlast : lastRule rules normalized with
      | none =>
        apply iff_of_true rfl
        rintro _ rfl
        exact lastRule_eq_none.mp hlast
      | some ipv4Be =>
        apply iff_of_false (by dsimp only; split <;> decide)
        intro hall
        rw [lastRule_eq_none.mpr (hall normalized rfl)] at hlast
        cases hlast
  · intro normalized front ipv4Be back hnorm hrules hback
    have hlast : lastRule rules normalized = some ipv4Be := by
      have hnone : back.reverse.find? (fun rule => rule.1 = normalized) = none := by
        rw [List.find?_eq_none]
        intro rule hmem
        simpa using hback rule (List.mem_reverse.mp hmem)
      rw [lastRule, hrules, List.reverse_append, List.reverse_cons, List.append_assoc,
        List.find?_append, hnone]
      simp
    rw [hloaded.lookup, hnorm, Outcome.toOption, Option.bind_some, hlast]
    exact ⟨rfl, rfl⟩

/-- Storage comes with the TTL of local answers. -/
def TtlSet (table : DrLocalTable) : Prop :=
  table.entries ≠ [] → table.localTtl = DR_LOCAL_TABLE_TTL

theorem ensureTableReady_cases (table : DrLocalTable) (mallocs : Mallocs) :
    (ensureTableReady table mallocs = (table, true) ∧ table.entries ≠ []) ∨
      ensureTableReady table mallocs = (table, false) ∨
      ((ensureTableReady table mallocs).2 = true ∧
        (ensureTableReady table mallocs).1.localTtl = DR_LOCAL_TABLE_TTL) := by
  unfold ensureTableReady
  split
  · next hne => exact Or.inl ⟨rfl, hne⟩
  · split
    · exact Or.inr (Or.inr ⟨rfl, rfl⟩)
    · exact Or.inr (Or.inl rfl)

theorem localTtl_expandTable {table grown : DrLocalTable} {mallocs : Mallocs} {success : Bool}
    (h : expandTable table mallocs = .ok (grown, success)) : grown.localTtl = table.localTtl := by
  unfold expandTable at h
  split at h
  · obtain ⟨newEntries, _, heq⟩ := Outcome.bind_eq_ok.mp h
    cases heq
    rfl
  · cases h
    rfl

theorem localTtl_storeEntry (table : DrLocalTable) (slot : Nat) (domain : CString) (ipv4Be : Ipv4Be)
    (mallocs : Mallocs) : (storeEntry table slot domain ipv4Be mallocs).1.localTtl = table.localTtl := by
  unfold storeEntry
  split <;> rfl

/-- An insertion sets the TTL when it allocates the storage, and never again. -/
theorem TtlSet.insert {table table' : DrLocalTable} (h : TtlSet table) {domain : CString}
    {ipv4Be : Ipv4Be} {mallocs : Mallocs} {success : Bool}
    (hinsert : insertEntry table domain ipv4Be mallocs = .ok (table', success)) : TtlSet table' := by
  unfold insertEntry at hinsert
  have hready := ensureTableReady_cases table mallocs
  generalize ensureTableReady table mallocs = ready at hinsert hready
  obtain ⟨start, isReady⟩ := ready
  dsimp only at hinsert hready
  cases isReady with
  | false =>
    obtain rfl : start = table := by
      rcases hready with ⟨heq, _⟩ | heq | ⟨heq, _⟩ <;> cases heq
      rfl
    cases hinsert
    exact h
  | true =>
    have hstart : start.localTtl = DR_LOCAL_TABLE_TTL := by
      rcases hready with ⟨heq, hne⟩ | heq | ⟨_, httl⟩
      · cases heq
        exact h hne
      · cases heq
      · exact httl
    suffices hkept : table'.localTtl = start.localTtl from fun _ => hkept.trans hstart
    simp only [Bool.not_true, Bool.false_eq_true, if_false] at hinsert
    split at hinsert
    · cases hinsert
      rfl
    · cases hinsert
      rfl
    · split at hinsert
      · obtain ⟨⟨grown, wasGrown⟩, hexpand, hinsert⟩ := Outcome.bind_eq_ok.mp hinsert
        rw [← localTtl_expandTable hexpand]
        dsimp only at hinsert
        split at hinsert
        · cases hinsert
          rfl
        · obtain ⟨slot, _, hinsert⟩ := Outcome.bind_eq_ok.mp hinsert
          rw [Outcome.pure_eq, Outcome.ok.injEq] at hinsert
          rw [← localTtl_storeEntry grown slot domain ipv4Be mallocs, hinsert]
      · rw [Outcome.ok.injEq] at hinsert
        rw [← localTtl_storeEntry start _ domain ipv4Be mallocs, hinsert]

theorem TtlSet.insertAll {rules : List (CString × Ipv4Be)} : ∀ {table table' : DrLocalTable},
    TtlSet table → Store.insertAll table rules = .ok table' → TtlSet table' := by
  induction rules with
  | nil =>
    intro table table' h hinsert
    cases hinsert
    exact h
  | cons rule rules ih =>
    intro table table' h hinsert
    obtain ⟨⟨next, success⟩, hfirst, hrest⟩ := Outcome.bind_eq_ok.mp hinsert
    dsimp only at hrest
    split at hrest
    · exact ih (h.insert hfirst) hrest
    · cases hrest

end DnsRelay.Store
