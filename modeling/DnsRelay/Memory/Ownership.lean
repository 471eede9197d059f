import DnsRelay.Memory.LocalTable
import DnsRelay.Store.FailedInserts
import DnsRelay.Wire.Normalization
import Mathlib.Data.List.Perm.Basic

/-!
# Who owns the table's memory

A table with storage owns its slot array and one string for each slot in use, and
nothing else. Insertion keeps that, whatever fails: a string moves with its slot when
the storage is doubled, and the old array is freed once. What the pointers describe is
the table of values, so its results carry over, and freeing the table gives back what
it took.
-/
namespace DnsRelay.Memory

open DnsRelay.Foundation
open DnsRelay.Wire
open DnsRelay.Store (Mallocs Probe homeSlot homeSlot_lt DR_LOCAL_TABLE_TTL
  DR_LOCAL_TABLE_INITIAL_CAPACITY)

inductive Cell where
  | free
  | used (a : Nat) (domain : CString) (ipv4Be : Ipv4Be)

namespace Cell

def entry : Cell → DrLocalEntry
  | .free => clearedSlot
  | .used a _ ipv4Be => { domain := some a, ipv4Be, inUse := true }

def value : Cell → Store.DrLocalEntry
  | .free => Store.clearedSlot
  | .used _ domain ipv4Be => { domain := some domain, ipv4Be, inUse := true }

/-- The string of a slot in use. -/
def owned : Cell → List (Nat × Block)
  | .free => []
  | .used a domain _ => [(a, .text domain)]

theorem inUse_eq (c : Cell) : c.entry.inUse = c.value.inUse := by cases c <;> rfl

theorem eq_free {c : Cell} (h : c.value.inUse = false) : c = .free := by
  cases c with
  | free => rfl
  | used => cases h

end Cell

def texts (cells : List Cell) : List (Nat × Block) := cells.flatMap Cell.owned

def cellAt (cells : List Cell) (slot : Nat) : Cell := cells.getD slot .free

section Cells

variable {cells : List Cell} {slot : Nat}

theorem slotAt_map (h : slot < cells.length) :
    slotAt (cells.map Cell.entry) slot = .ok (cellAt cells slot).entry := by
  rw [slotAt, cellAt, List.getElem?_map, List.getD_eq_getElem?_getD, List.getElem?_eq_getElem h]
  rfl

theorem value_slotAt (cells : List Cell) (slot : Nat) :
    Store.slotAt (cells.map Cell.value) slot = (cellAt cells slot).value := by
  rw [Store.slotAt, cellAt, List.getD_eq_getElem?_getD, List.getElem?_map,
    List.getD_eq_getElem?_getD]
  cases cells[slot]? <;> rfl

theorem cellAt_mem (h : slot < cells.length) : cellAt cells slot ∈ cells := by
  rw [cellAt, List.getD_eq_getElem?_getD, List.getElem?_eq_getElem h]
  exact List.getElem_mem h

theorem mask_lt {capacity : Nat} (h : 0 < capacity) (slot : Nat) : slot &&& (capacity - 1) < capacity := by
  have hle : slot &&& (capacity - 1) ≤ capacity - 1 := Nat.and_le_right
  omega

theorem map_set {α : Type} (f : Cell → α) (cells : List Cell) (slot : Nat) (c : Cell) :
    (cells.map f).set slot (f c) = (cells.set slot c).map f := List.map_set.symm

theorem values_ne_nil (hpos : 0 < cells.length) : cells.map Cell.value ≠ [] := by
  rw [ne_eq, List.map_eq_nil_iff]
  exact List.length_pos_iff.mp hpos

/-- Filling a free slot adds its string. -/
theorem texts_set (h : slot < cells.length) (hfree : cellAt cells slot = .free) (c : Cell) :
    (texts (cells.set slot c)).Perm (c.owned ++ texts cells) := by
  have hget : cells[slot] = .free := by
    rw [cellAt, List.getD_eq_getElem?_getD, List.getElem?_eq_getElem h] at hfree
    exact hfree
  have hsplit : cells = cells.take slot ++ .free :: cells.drop (slot + 1) := by
    rw [← hget, List.cons_getElem_drop_succ, List.take_append_drop]
  rw [List.set_eq_take_append_cons_drop, if_pos h, texts, texts, List.flatMap_append,
    List.flatMap_cons]
  conv => rhs; rw [hsplit]
  rw [List.flatMap_append, List.flatMap_cons]
  exact List.perm_append_comm_assoc _ _ _

/-- Another address in a slot in use keeps its string. -/
theorem texts_set_used {a : Nat} {domain : CString} {old : Ipv4Be} (h : slot < cells.length)
    (hused : cellAt cells slot = .used a domain old) (ipv4Be : Ipv4Be) :
    texts (cells.set slot (.used a domain ipv4Be)) = texts cells := by
  have hget : cells[slot] = .used a domain old := by
    rw [cellAt, List.getD_eq_getElem?_getD, List.getElem?_eq_getElem h] at hused
    exact hused
  have hsplit : cells = cells.take slot ++ .used a domain old :: cells.drop (slot + 1) := by
    rw [← hget, List.cons_getElem_drop_succ, List.take_append_drop]
  rw [List.set_eq_take_append_cons_drop, if_pos h, texts, texts, List.flatMap_append,
    List.flatMap_cons]
  conv => rhs; rw [hsplit]
  rw [List.flatMap_append, List.flatMap_cons]
  rfl

theorem texts_replicate (n : Nat) : texts (List.replicate n .free) = [] := by
  rw [texts, List.flatMap_replicate]
  exact List.flatten_replicate_nil

end Cells

section Search

variable {heap : Resources} {cells : List Cell}

theorem probeLoop_eq (hpos : 0 < cells.length)
    (hlive : ∀ a domain ipv4Be, Cell.used a domain ipv4Be ∈ cells →
      heap.objects a = some (.text domain)) (domain : CString) : ∀ left slot, slot < cells.length →
    probeLoop heap (cells.map Cell.entry) cells.length domain left slot =
      .ok (Store.probeLoop (cells.map Cell.value) domain left slot) := by
  intro left
  induction left with
  | zero => exact fun _ _ => rfl
  | succ left ih =>
    intro slot hslot
    have hmem := cellAt_mem hslot
    rw [probeLoop, slotAt_map hslot, Outcome.ok_bind, Store.probeLoop, value_slotAt]
    cases hcell : cellAt cells slot with
    | free => rfl
    | used a text ipv4Be =>
      rw [hcell] at hmem
      simp only [Cell.entry, Cell.value, if_true, textAt, Heap.read, hlive _ _ _ hmem,
        Outcome.ok_bind, Option.some.injEq]
      split
      · rfl
      · rw [ih _ (mask_lt hpos _), List.length_map]

theorem freeSlotLoop_eq (hpos : 0 < cells.length) : ∀ left slot, slot < cells.length →
    freeSlotLoop (cells.map Cell.entry) cells.length left slot =
      Store.freeSlotLoop (cells.map Cell.value) left slot := by
  intro left
  induction left with
  | zero => exact fun _ _ => rfl
  | succ left ih =>
    intro slot hslot
    rw [freeSlotLoop, slotAt_map hslot, Outcome.ok_bind, Store.freeSlotLoop, value_slotAt,
      Cell.inUse_eq, ih _ (mask_lt hpos _), List.length_map]

/-- A search that ends at a free slot ends inside the array. -/
theorem free_of_freeSlotLoop (hpos : 0 < cells.length) {i : Nat} : ∀ left slot, slot < cells.length →
    Store.freeSlotLoop (cells.map Cell.value) left slot = .ok i →
    i < cells.length ∧ cellAt cells i = .free := by
  intro left
  induction left with
  | zero => exact fun _ _ h => by cases h
  | succ left ih =>
    intro slot hslot h
    rw [Store.freeSlotLoop, value_slotAt, List.length_map] at h
    split at h
    · exact ih _ (mask_lt hpos _) h
    · next hfree =>
      cases h
      exact ⟨hslot, Cell.eq_free (by simpa using hfree)⟩

theorem free_of_probeLoop (hpos : 0 < cells.length) {domain : CString} {i : Nat} :
    ∀ left slot, slot < cells.length →
    Store.probeLoop (cells.map Cell.value) domain left slot = .free i →
    i < cells.length ∧ cellAt cells i = .free := by
  intro left
  induction left with
  | zero => exact fun _ _ h => by cases h
  | succ left ih =>
    intro slot hslot h
    rw [Store.probeLoop, value_slotAt, List.length_map] at h
    split at h
    · split at h
      · cases h
      · exact ih _ (mask_lt hpos _) h
    · next hfree =>
      cases h
      exact ⟨hslot, Cell.eq_free (by simpa using hfree)⟩

theorem found_of_probeLoop (hpos : 0 < cells.length) {domain : CString} {i : Nat} :
    ∀ left slot, slot < cells.length →
    Store.probeLoop (cells.map Cell.value) domain left slot = .found i →
    i < cells.length ∧ ∃ a ipv4Be, cellAt cells i = .used a domain ipv4Be := by
  intro left
  induction left with
  | zero => exact fun _ _ h => by cases h
  | succ left ih =>
    intro slot hslot h
    rw [Store.probeLoop, value_slotAt, List.length_map] at h
    cases hcell : cellAt cells slot with
    | free =>
      rw [hcell] at h
      cases h
    | used a text ipv4Be =>
      rw [hcell] at h
      simp only [Cell.value, if_true, Option.some.injEq] at h
      split at h
      · next heq =>
        cases h
        exact ⟨hslot, a, ipv4Be, by rw [hcell, heq]⟩
      · exact ih _ (mask_lt hpos _) h

end Search

/-- The owned part of the heap is a slot array with the strings of its slots, and `rest`. -/
def Stores (heap : Resources) (frame : Nat → Option Block) (a : Nat) (cells : List Cell)
    (rest : List (Nat × Block)) : Prop :=
  Holds heap frame ((a, .entries (cells.map Cell.entry)) :: (texts cells ++ rest))

namespace Stores

variable {heap : Resources} {frame : Nat → Option Block} {a slot : Nat} {cells : List Cell}
  {rest : List (Nat × Block)}

theorem cleared (h : Holds heap frame rest) (n : Nat) :
    Stores (heap.alloc (.entries (List.replicate n clearedSlot))) frame heap.next
      (List.replicate n .free) rest := by
  rw [Stores, texts_replicate, List.map_replicate]
  exact Holds.alloc h (.entries (List.replicate n clearedSlot))

theorem entriesAt (h : Stores heap frame a cells rest) :
    entriesAt heap (some a) = .ok (cells.map Cell.entry) := by
  rw [Memory.entriesAt, Holds.read h List.mem_cons_self]
  rfl

theorem live (h : Stores heap frame a cells rest) {b : Nat} {domain : CString} {ipv4Be : Ipv4Be}
    (hmem : Cell.used b domain ipv4Be ∈ cells) : heap.objects b = some (.text domain) := by
  refine Holds.live h (List.mem_cons_of_mem _ (List.mem_append_left _ ?_))
  exact List.mem_flatMap.mpr ⟨_, hmem, List.mem_singleton.mpr rfl⟩

/-- Storage and what is allocated next to it. -/
theorem alloc (h : Stores heap frame a cells rest) (b : Block) :
    Stores (heap.alloc b) frame a cells ((heap.next, b) :: rest) :=
  (Holds.alloc h b).perm ((List.Perm.swap _ _ _).trans (List.perm_middle.symm.cons _))

theorem free {p : Nat} {b : Block} (h : Stores heap frame a cells ((p, b) :: rest)) :
    ∃ heap', heap.free p = .ok heap' ∧ Stores heap' frame a cells rest :=
  Holds.free (h.perm ((List.perm_middle.cons _).trans (List.Perm.swap _ _ _)))

/-- Storing in a free slot takes the slot's string from the rest. -/
theorem fill {c : Cell} (h : Stores heap frame a cells (c.owned ++ rest)) (hslot : slot < cells.length)
    (hfree : cellAt cells slot = .free) :
    ∃ heap', putEntries heap (some a) ((cells.map Cell.entry).set slot c.entry) = .ok heap' ∧
      Stores heap' frame a (cells.set slot c) rest := by
  obtain ⟨heap', hwrite, h'⟩ := Holds.write h (.entries ((cells.map Cell.entry).set slot c.entry))
  refine ⟨heap', hwrite, ?_⟩
  rw [map_set] at h'
  have hmove : (texts cells ++ (c.owned ++ rest)).Perm (c.owned ++ texts cells ++ rest) := by
    rw [List.append_assoc]
    exact List.perm_append_comm_assoc _ _ _
  exact h'.perm ((hmove.trans ((texts_set hslot hfree c).symm.append_right rest)).cons _)

theorem assign (h : Stores heap frame a cells rest) {b : Nat} {domain : CString} {old : Ipv4Be}
    (hslot : slot < cells.length) (hused : cellAt cells slot = .used b domain old)
    (ipv4Be : Ipv4Be) :
    ∃ heap', putEntries heap (some a)
        ((cells.map Cell.entry).set slot (Cell.used b domain ipv4Be).entry) = .ok heap' ∧
      Stores heap' frame a (cells.set slot (.used b domain ipv4Be)) rest := by
  obtain ⟨heap', hwrite, h'⟩ :=
    Holds.write h (.entries ((cells.map Cell.entry).set slot (Cell.used b domain ipv4Be).entry))
  refine ⟨heap', hwrite, ?_⟩
  rw [map_set] at h'
  rw [Stores, texts_set_used hslot hused]
  exact h'

end Stores

section Rehash

variable {heap : Resources} {frame : Nat → Option Block} {new : Nat} {cells : List Cell}
  {rest : List (Nat × Block)}

/-- The string changes its slot array; it is neither copied nor freed. -/
theorem place_refines {a : Nat} {domain : CString} {ipv4Be : Ipv4Be} (hpos : 0 < cells.length)
    (h : Stores heap frame new cells ((a, .text domain) :: rest)) {slots : List Store.DrLocalEntry}
    (hplace : Store.placeExistingEntry (cells.map Cell.value) (some domain) ipv4Be = .ok slots) :
    ∃ heap' cells', slots = cells'.map Cell.value ∧ cells'.length = cells.length ∧
      placeExistingEntry heap new cells.length (some a) ipv4Be = .ok heap' ∧
      Stores heap' frame new cells' rest := by
  rw [Store.placeExistingEntry, Outcome.ok_bind, List.length_map] at hplace
  obtain ⟨slot, hfind, hslots⟩ := Outcome.bind_eq_ok.mp hplace
  have hhome := homeSlot_lt hpos domain
  obtain ⟨hslot, hfree⟩ := free_of_freeSlotLoop hpos _ _ hhome hfind
  have hfind' := (freeSlotLoop_eq hpos cells.length _ hhome).trans hfind
  obtain ⟨heap', hput, h'⟩ := Stores.fill (c := .used a domain ipv4Be) h hslot hfree
  refine ⟨heap', cells.set slot (.used a domain ipv4Be), ?_, List.length_set, ?_, h'⟩
  · cases hslots
    exact map_set Cell.value cells slot (.used a domain ipv4Be)
  · have htext : textAt heap (some a) = .ok domain := by
      rw [textAt, Holds.read h (List.mem_cons_of_mem _ (List.mem_append_right _ List.mem_cons_self))]
      rfl
    rw [placeExistingEntry, h.entriesAt, Outcome.ok_bind, htext, Outcome.ok_bind, hfind',
      Outcome.ok_bind]
    exact hput

theorem rehash_refines : ∀ (old : List Cell) {cells : List Cell} {heap : Resources}
    {slots : List Store.DrLocalEntry}, 0 < cells.length →
    Stores heap frame new cells (texts old ++ rest) →
    Store.rehashLoop (old.map Cell.value) (cells.map Cell.value) = .ok slots →
    ∃ heap' cells', slots = cells'.map Cell.value ∧ cells'.length = cells.length ∧
      rehashLoop new cells.length (old.map Cell.entry) heap = .ok heap' ∧
      Stores heap' frame new cells' rest := by
  intro old
  induction old with
  | nil =>
    intro cells heap slots _ h hloop
    cases hloop
    exact ⟨heap, cells, rfl, rfl, rfl, h⟩
  | cons c old ih =>
    intro cells heap slots hpos h hloop
    cases c with
    | free => exact ih hpos h hloop
    | used a domain ipv4Be =>
      obtain ⟨slots', hplace, hrest⟩ := Outcome.bind_eq_ok.mp hloop
      obtain ⟨heap', cells', rfl, hlength, hplace', h'⟩ := place_refines hpos h hplace
      obtain ⟨heap'', cells'', hslots, hlength', hloop', h''⟩ := ih (hlength ▸ hpos) h' hrest
      refine ⟨heap'', cells'', hslots, hlength'.trans hlength, ?_, h''⟩
      rw [List.map_cons, rehashLoop, if_pos (show (Cell.used a domain ipv4Be).entry.inUse = true from rfl)]
      exact Outcome.bind_eq_ok.mpr ⟨heap', hplace', hlength ▸ hloop'⟩

end Rehash

/-- The heap consists of the frame, what the table owns, and `rest`; the pointers describe the table
of values. -/
inductive Represents (frame : Nat → Option Block) (rest : List (Nat × Block)) :
    Resources → DrLocalTable → Store.DrLocalTable → Prop where
  | unallocated {heap : Resources} (h : Holds heap frame rest) : Represents frame rest heap .zero .zero
  | allocated {heap : Resources} {a size : Nat} {cells : List Cell} {localTtl : UInt32}
      (hpos : 0 < cells.length) (h : Stores heap frame a cells rest) :
      Represents frame rest heap
        { entries := some a, capacity := cells.length, size, localTtl }
        { entries := cells.map Cell.value, size, localTtl }

theorem Represents.alloc {heap : Resources} {frame : Nat → Option Block} {rest : List (Nat × Block)}
    {ptable : DrLocalTable} {table : Store.DrLocalTable} (h : Represents frame rest heap ptable table)
    (b : Block) : Represents frame ((heap.next, b) :: rest) (heap.alloc b) ptable table := by
  cases h with
  | unallocated h => exact .unallocated (Holds.alloc h b)
  | allocated hpos h => exact .allocated hpos (h.alloc b)

/-- What is owned beside the table can be freed beside it. -/
theorem Represents.free {heap : Resources} {frame : Nat → Option Block} {rest : List (Nat × Block)}
    {ptable : DrLocalTable} {table : Store.DrLocalTable} {p : Nat} {b : Block}
    (h : Represents frame ((p, b) :: rest) heap ptable table) :
    ∃ heap', heap.free p = .ok heap' ∧ Represents frame rest heap' ptable table := by
  cases h with
  | unallocated h =>
    obtain ⟨heap', hfree, h'⟩ := Holds.free h
    exact ⟨heap', hfree, .unallocated h'⟩
  | allocated hpos h =>
    obtain ⟨heap', hfree, h'⟩ := h.free
    exact ⟨heap', hfree, .allocated hpos h'⟩

section Table

variable {heap : Resources} {frame : Nat → Option Block} {rest : List (Nat × Block)} {a size : Nat}
  {cells : List Cell} {localTtl : UInt32} {domain : CString} {ipv4Be : Ipv4Be} {mallocs : Mallocs}

theorem set_free {slot : Nat} (hslot : slot < cells.length) (hfree : cellAt cells slot = .free) :
    cells.set slot .free = cells := by
  rw [cellAt, List.getD_eq_getElem?_getD, List.getElem?_eq_getElem hslot] at hfree
  rw [← show cells[slot] = .free from hfree]
  exact List.set_getElem_self hslot

theorem expand_refines (hpos : 0 < cells.length) (h : Stores heap frame a cells rest)
    {table' : Store.DrLocalTable} {grown : Bool}
    (hexpand : Store.expandTable { entries := cells.map Cell.value, size, localTtl } mallocs =
      .ok (table', grown)) :
    ∃ heap' a' cells', table' = { entries := cells'.map Cell.value, size, localTtl } ∧
      0 < cells'.length ∧
      expandTable heap { entries := some a, capacity := cells.length, size, localTtl } mallocs =
        .ok (heap', { entries := some a', capacity := cells'.length, size, localTtl }, grown) ∧
      Stores heap' frame a' cells' rest := by
  rw [Store.expandTable] at hexpand
  rw [expandTable]
  split at hexpand
  · next hgrow =>
    obtain ⟨slots, hloop, htable⟩ := Outcome.bind_eq_ok.mp hexpand
    cases htable
    have hdouble : Store.clearEntries
        (Store.DrLocalTable.capacity { entries := cells.map Cell.value, size, localTtl } * 2) =
        (List.replicate (cells.length * 2) Cell.free).map Cell.value := by
      rw [Store.clearEntries, Store.DrLocalTable.capacity, List.length_map, List.map_replicate]
      rfl
    rw [hdouble] at hloop
    -- Until the loop has run, the strings belong to the old array.
    have hnew : Stores (heap.alloc (.entries (List.replicate (cells.length * 2) clearedSlot))) frame
        heap.next (List.replicate (cells.length * 2) .free)
        (texts cells ++ (a, .entries (cells.map Cell.entry)) :: rest) :=
      .cleared (Holds.perm h List.perm_middle.symm) _
    have hold : entriesAt (heap.alloc (.entries (List.replicate (cells.length * 2) clearedSlot)))
        (some a) = .ok (cells.map Cell.entry) := by
      rw [entriesAt, Holds.read hnew (List.mem_cons_of_mem _ (List.mem_append_right _
        (List.mem_append_right _ List.mem_cons_self)))]
      rfl
    obtain ⟨heap', cells', rfl, hlength, hloop', h'⟩ :=
      rehash_refines cells (by rw [List.length_replicate]; omega) hnew hloop
    rw [List.length_replicate] at hlength hloop'
    obtain ⟨heap'', hfree, h''⟩ := h'.free
    refine ⟨heap'', heap.next, cells', rfl, by omega, ?_, h''⟩
    rw [if_pos hgrow, hlength]
    exact Outcome.bind_eq_ok.mpr ⟨_, hold,
      Outcome.bind_eq_ok.mpr ⟨heap', hloop', Outcome.bind_eq_ok.mpr ⟨heap'', hfree, rfl⟩⟩⟩
  · next hfails =>
    cases hexpand
    exact ⟨heap, a, cells, rfl, hpos, if_neg hfails, h⟩

theorem store_refines {slot : Nat} {table' : Store.DrLocalTable} {success : Bool}
    (hslot : slot < cells.length) (hfree : cellAt cells slot = .free)
    (h : Stores heap frame a cells rest)
    (hstore : Store.storeEntry { entries := cells.map Cell.value, size, localTtl } slot domain ipv4Be
      mallocs = (table', success)) :
    ∃ heap' ptable',
      storeEntry heap { entries := some a, capacity := cells.length, size, localTtl } slot domain
        ipv4Be mallocs = .ok (heap', ptable', success) ∧
      Represents frame rest heap' ptable' table' := by
  have hpos : 0 < cells.length := by omega
  rw [Store.storeEntry] at hstore
  rw [storeEntry, dupText]
  cases hmalloc : mallocs.text with
  | true =>
    rw [if_pos hmalloc] at hstore
    cases hstore
    -- The copy becomes the string of the slot.
    have hcopy : Stores (heap.alloc (.text domain)) frame a cells
        ((Cell.used heap.next domain ipv4Be).owned ++ rest) := h.alloc (.text domain)
    obtain ⟨heap', hput, h'⟩ := hcopy.fill hslot hfree
    have hrepr : Represents frame rest heap' { entries := some a, capacity := _, size := size + 1, localTtl }
        { entries := _, size := size + 1, localTtl } := .allocated (by rwa [List.length_set]) h'
    rw [← map_set, List.length_set] at hrepr
    refine ⟨heap', _, ?_, hrepr⟩
    exact Outcome.bind_eq_ok.mpr ⟨_, hcopy.entriesAt,
      Outcome.bind_eq_ok.mpr ⟨_, slotAt_map hslot, Outcome.bind_eq_ok.mpr ⟨heap', hput, rfl⟩⟩⟩
  | false =>
    rw [if_neg (by simp [hmalloc])] at hstore
    cases hstore
    -- NULL is written where NULL was.
    obtain ⟨heap', hput, h'⟩ := Stores.fill (c := .free) h hslot hfree
    rw [set_free hslot hfree] at h'
    refine ⟨heap', _, ?_, .allocated hpos h'⟩
    have hentry := slotAt_map hslot
    rw [hfree] at hentry
    exact Outcome.bind_eq_ok.mpr ⟨_, h.entriesAt,
      Outcome.bind_eq_ok.mpr ⟨_, hentry, Outcome.bind_eq_ok.mpr ⟨heap', hput, rfl⟩⟩⟩

theorem ready_refines {ptable : DrLocalTable} {table table' : Store.DrLocalTable} {ready : Bool}
    (h : Represents frame rest heap ptable table)
    (hready : Store.ensureTableReady table mallocs = (table', ready)) :
    ∃ heap' ptable', ensureTableReady heap ptable mallocs = (heap', ptable', ready) ∧
      Represents frame rest heap' ptable' table' ∧ (ready = true → table'.entries ≠ []) := by
  cases h with
  | unallocated h =>
    rw [Store.ensureTableReady, if_neg (fun hstorage => hstorage rfl)] at hready
    rw [ensureTableReady, if_neg (fun hstorage => hstorage rfl)]
    split at hready
    · next hmalloc =>
      cases hready
      have hpos : 0 < (List.replicate DR_LOCAL_TABLE_INITIAL_CAPACITY Cell.free).length := by
        rw [List.length_replicate]
        decide
      have hrepr : Represents frame rest _
          { entries := some heap.next, capacity := _, size := 0, localTtl := DR_LOCAL_TABLE_TTL }
          { entries := _, size := 0, localTtl := DR_LOCAL_TABLE_TTL } :=
        .allocated hpos (.cleared h _)
      rw [List.map_replicate, List.length_replicate] at hrepr
      refine ⟨_, _, if_pos hmalloc, hrepr, fun _ => ?_⟩
      rw [Store.clearEntries]
      exact List.cons_ne_nil _ _
    · next hmalloc =>
      cases hready
      exact ⟨heap, .zero, if_neg hmalloc, .unallocated h, fun hfalse => by cases hfalse⟩
  | allocated hpos h =>
    rw [Store.ensureTableReady, if_pos (values_ne_nil hpos)] at hready
    cases hready
    refine ⟨_, _, if_pos (fun hnull => ?_), .allocated hpos h, fun _ => values_ne_nil hpos⟩
    cases hnull

/-- Whatever an insertion of the values does, the insertion of the pointers does, and it leaves no
object behind. -/
theorem insert_refines {ptable : DrLocalTable} {table table' : Store.DrLocalTable} {success : Bool}
    (h : Represents frame rest heap ptable table)
    (hinsert : Store.insertEntry table domain ipv4Be mallocs = .ok (table', success)) :
    ∃ heap' ptable', insertEntry heap ptable domain ipv4Be mallocs = .ok (heap', ptable', success) ∧
      Represents frame rest heap' ptable' table' := by
  rw [Store.insertEntry] at hinsert
  rw [insertEntry]
  cases hready : Store.ensureTableReady table mallocs with
  | mk ready_table ready =>
  obtain ⟨heap₁, ptable₁, hready', h₁, hstorage⟩ := ready_refines h hready
  rw [hready] at hinsert
  rw [hready']
  cases ready with
  | false =>
    cases hinsert
    exact ⟨heap₁, ptable₁, rfl, h₁⟩
  | true =>
    cases h₁ with
    | unallocated _ => exact absurd rfl (hstorage rfl)
    | @allocated a size cells localTtl hpos h₁ =>
      simp only [Bool.not_true, Bool.false_eq_true, if_false] at hinsert ⊢
      have hhome := homeSlot_lt hpos domain
      have hprobe := probeLoop_eq hpos (fun _ _ _ => h₁.live) domain cells.length
        (homeSlot cells.length domain) hhome
      rw [Store.DrLocalTable.capacity, List.length_map] at hinsert
      rw [h₁.entriesAt, Outcome.ok_bind, hprobe, Outcome.ok_bind]
      cases hfound : Store.probeLoop (cells.map Cell.value) domain cells.length
          (homeSlot cells.length domain) with
      | found slot =>
        obtain ⟨hslot, b, old, hused⟩ := found_of_probeLoop hpos _ _ hhome hfound
        obtain ⟨heap₂, hput, h₂⟩ := h₁.assign hslot hused ipv4Be
        have hentry := slotAt_map hslot
        simp only [hfound, value_slotAt, hused] at hinsert
        rw [hused] at hentry
        cases hinsert
        have hrepr : Represents frame rest heap₂ { entries := some a, capacity := _, size, localTtl }
            { entries := _, size, localTtl } := .allocated (by rwa [List.length_set]) h₂
        rw [← map_set, List.length_set] at hrepr
        exact ⟨heap₂, _, Outcome.bind_eq_ok.mpr ⟨_, hentry, Outcome.bind_eq_ok.mpr ⟨heap₂, hput, rfl⟩⟩,
          hrepr⟩
      | exhausted =>
        rw [hfound] at hinsert
        cases hinsert
        exact ⟨heap₁, _, rfl, .allocated hpos h₁⟩
      | free slot =>
        obtain ⟨hslot, hfree⟩ := free_of_probeLoop hpos _ _ hhome hfound
        rw [hfound] at hinsert
        simp only at hinsert ⊢
        split at hinsert
        · next hload =>
          rw [if_pos hload]
          obtain ⟨⟨grown_table, grown⟩, hexpand, hinsert⟩ := Outcome.bind_eq_ok.mp hinsert
          obtain ⟨heap₂, a', cells', rfl, hpos', hexpand', h₂⟩ := expand_refines hpos h₁ hexpand
          rw [hexpand', Outcome.ok_bind]
          cases grown with
          | false =>
            cases hinsert
            exact ⟨heap₂, _, rfl, .allocated hpos' h₂⟩
          | true =>
            simp only [Bool.not_true, Bool.false_eq_true, if_false] at hinsert ⊢
            obtain ⟨slot', hfind, hinsert⟩ := Outcome.bind_eq_ok.mp hinsert
            rw [Store.DrLocalTable.capacity, List.length_map] at hfind
            have hhome' := homeSlot_lt hpos' domain
            obtain ⟨hslot', hfree'⟩ := free_of_freeSlotLoop hpos' _ _ hhome' hfind
            obtain ⟨heap₃, ptable₃, hstore, h₃⟩ :=
              store_refines hslot' hfree' h₂ (Outcome.ok.inj hinsert)
            refine ⟨heap₃, ptable₃, ?_, h₃⟩
            rw [h₂.entriesAt, Outcome.ok_bind, freeSlotLoop_eq hpos' _ _ hhome', hfind, Outcome.ok_bind]
            exact hstore
        · next hload =>
          rw [if_neg hload]
          obtain ⟨heap₂, ptable₂, hstore, h₂⟩ :=
            store_refines hslot hfree h₁ (Outcome.ok.inj hinsert)
          exact ⟨heap₂, ptable₂, hstore, h₂⟩

/-- A lookup follows no dangling pointer. -/
theorem lookup_refines {ptable : DrLocalTable} {table : Store.DrLocalTable}
    (h : Represents frame rest heap ptable table) (qname : CString) :
    drLocalTableLookup heap ptable qname = .ok (Store.drLocalTableLookup table qname) := by
  cases h with
  | unallocated h => rfl
  | @allocated a size cells localTtl hpos h =>
    have hstorage : ¬ (some a = none ∨ cells.length = 0) := by
      rintro (hnull | hzero)
      · cases hnull
      · omega
    rw [drLocalTableLookup, if_neg hstorage, Store.drLocalTableLookup, if_neg (values_ne_nil hpos)]
    cases hname : drDnsNormalizeName qname (DR_DNS_MAX_DOMAIN_LEN + 1) with
    | stuck => exact absurd hname (drDnsNormalizeName_not_stuck _ _)
    | fail e => rfl
    | ok normalized =>
      have hhome := homeSlot_lt hpos normalized
      have hprobe := probeLoop_eq hpos (fun _ _ _ => h.live) normalized cells.length
        (homeSlot cells.length normalized) hhome
      simp only [Outcome.attempt, Outcome.ok_bind, h.entriesAt, hprobe, Store.DrLocalTable.capacity,
        List.length_map]
      cases hfound : Store.probeLoop (cells.map Cell.value) normalized cells.length
          (homeSlot cells.length normalized) with
      | found slot =>
        obtain ⟨hslot, b, ipv4Be, hused⟩ := found_of_probeLoop hpos _ _ hhome hfound
        have hentry := slotAt_map hslot
        rw [hused] at hentry
        simp only [hentry, Outcome.ok_bind, value_slotAt, hused]
        rfl
      | exhausted => rfl
      | free slot => rfl

end Table

section Release

variable {heap : Resources} {frame : Nat → Option Block} {rest : List (Nat × Block)}

/-- Each string is freed once; a slot that is not in use holds NULL. -/
theorem freeDomains_refines : ∀ (cells : List Cell) {heap : Resources},
    Holds heap frame (texts cells ++ rest) →
    ∃ heap', freeDomains (cells.map Cell.entry) heap = .ok heap' ∧ Holds heap' frame rest := by
  intro cells
  induction cells with
  | nil => exact fun h => ⟨_, rfl, h⟩
  | cons c cells ih =>
    intro heap h
    cases c with
    | free => exact ih h
    | used a domain ipv4Be =>
      obtain ⟨heap', hfree, h'⟩ := Holds.free h
      obtain ⟨heap'', hloop, h''⟩ := ih h'
      exact ⟨heap'', Outcome.bind_eq_ok.mpr ⟨heap', hfree, hloop⟩, h''⟩

theorem free_refines {ptable : DrLocalTable} {table : Store.DrLocalTable}
    (h : Represents frame rest heap ptable table) :
    ∃ heap', drLocalTableFree heap ptable = .ok (heap', .zero) ∧ Holds heap' frame rest := by
  cases h with
  | unallocated h => exact ⟨heap, rfl, h⟩
  | @allocated a size cells localTtl hpos h =>
    have hstrings : Holds heap frame (texts cells ++ (a, .entries (cells.map Cell.entry)) :: rest) :=
      Holds.perm h List.perm_middle.symm
    obtain ⟨heap', hloop, h'⟩ := freeDomains_refines cells hstrings
    obtain ⟨heap'', hfree, h''⟩ := Holds.free h'
    refine ⟨heap'', ?_, h''⟩
    rw [drLocalTableFree, h.entriesAt, Outcome.ok_bind,
      List.take_of_length_le (List.length_map _).le]
    exact Outcome.bind_eq_ok.mpr ⟨heap', hloop, Outcome.bind_eq_ok.mpr ⟨heap'', hfree, rfl⟩⟩

end Release

/-- The calls of `insert_entry` one after the other, and what they report. -/
def insertCalls : Resources → DrLocalTable → List Store.InsertCall →
    Call (Resources × DrLocalTable)
  | heap, table, [] => .ok (heap, table)
  | heap, table, call :: calls => do
    let (heap, table, _) ← insertEntry heap table call.domain call.ipv4Be call.mallocs
    insertCalls heap table calls

theorem insertCalls_refines {frame : Nat → Option Block} {rest : List (Nat × Block)}
    {table' : Store.DrLocalTable} (calls : List Store.InsertCall) : ∀ {heap : Resources}
    {ptable : DrLocalTable} {table : Store.DrLocalTable}, Represents frame rest heap ptable table →
    Store.insertCalls table calls = .ok table' →
    ∃ heap' ptable', insertCalls heap ptable calls = .ok (heap', ptable') ∧
      Represents frame rest heap' ptable' table' := by
  induction calls with
  | nil =>
    intro heap ptable table h hcalls
    cases hcalls
    exact ⟨heap, ptable, rfl, h⟩
  | cons call calls ih =>
    intro heap ptable table h hcalls
    obtain ⟨⟨table₁, success⟩, hinsert, hcalls⟩ := Outcome.bind_eq_ok.mp hcalls
    obtain ⟨heap₁, ptable₁, hinsert', h₁⟩ := insert_refines h hinsert
    obtain ⟨heap', ptable', hcalls', h'⟩ := ih h₁ hcalls
    exact ⟨heap', ptable', Outcome.bind_eq_ok.mpr ⟨_, hinsert', hcalls'⟩, h'⟩

end DnsRelay.Memory
