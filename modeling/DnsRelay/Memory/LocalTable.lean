import DnsRelay.Foundation.Heap
import DnsRelay.Store.LocalTable

/-!
# The local table in memory

`local_table.c` with its pointers. The slot array and every domain are objects of their
own on the heap; a slot holds the address of its domain. Every access to them goes
through the heap and every index is checked, so a dangling pointer, a second `free` and
an index behind the array are all stuck. The results of `malloc` are inputs.
-/
namespace DnsRelay.Memory

open DnsRelay.Foundation
open DnsRelay.Wire
open DnsRelay.Store (Mallocs Probe DrLocalLookupResult homeSlot DR_LOCAL_TABLE_TTL
  DR_LOCAL_TABLE_INITIAL_CAPACITY)

structure DrLocalEntry where
  domain : Option Nat
  ipv4Be : Ipv4Be
  inUse : Bool
  deriving DecidableEq

structure DrLocalTable where
  entries : Option Nat
  capacity : Nat
  size : Nat
  localTtl : UInt32
  deriving DecidableEq

/-- What the program holds: memory blocks, the streams and sockets it has open, and the network
environment of the platform. -/
inductive Block where
  | text (s : CString)
  | entries (slots : List DrLocalEntry)
  | requests
  | responses
  | stream
  | socket
  | platform
  deriving DecidableEq

abbrev Resources := Heap Block

/-- `memset(table, 0, sizeof(*table))`. -/
def DrLocalTable.zero : DrLocalTable := { entries := none, capacity := 0, size := 0, localTtl := 0 }

def clearedSlot : DrLocalEntry := { domain := none, ipv4Be := .zero, inUse := false }

/-- The string a pointer points to. -/
def textAt (heap : Resources) : Option Nat → Call CString
  | none => .stuck
  | some a => do
    match ← heap.read a with
    | .text s => .ok s
    | _ => .stuck

def entriesAt (heap : Resources) : Option Nat → Call (List DrLocalEntry)
  | none => .stuck
  | some a => do
    match ← heap.read a with
    | .entries slots => .ok slots
    | _ => .stuck

def putEntries (heap : Resources) (p : Option Nat) (slots : List DrLocalEntry) : Call Resources :=
  match p with
  | none => .stuck
  | some a => heap.write a (.entries slots)

/-- `entries[slot]`. -/
def slotAt (entries : List DrLocalEntry) (slot : Nat) : Call DrLocalEntry :=
  match entries[slot]? with
  | none => .stuck
  | some entry => .ok entry

def dupText (heap : Resources) (text : CString) (malloc : Bool) : Resources × Option Nat :=
  if malloc then (heap.alloc (.text text), some heap.next) else (heap, none)

def probeLoop (heap : Resources) (entries : List DrLocalEntry) (capacity : Nat) (domain : CString) :
    Nat → Nat → Call Probe
  | 0, _ => .ok .exhausted
  | left + 1, slot => do
    let entry ← slotAt entries slot
    if entry.inUse then do
      let text ← textAt heap entry.domain
      if text = domain then .ok (.found slot)
      else probeLoop heap entries capacity domain left ((slot + 1) &&& (capacity - 1))
    else .ok (.free slot)

def freeSlotLoop (entries : List DrLocalEntry) (capacity : Nat) : Nat → Nat → Call Nat
  | 0, _ => .stuck
  | left + 1, slot => do
    let entry ← slotAt entries slot
    if entry.inUse then freeSlotLoop entries capacity left ((slot + 1) &&& (capacity - 1))
    else .ok slot

def placeExistingEntry (heap : Resources) (newEntries : Nat) (capacity : Nat) (domain : Option Nat)
    (ipv4Be : Ipv4Be) : Call Resources := do
  let entries ← entriesAt heap (some newEntries)
  let text ← textAt heap domain
  let slot ← freeSlotLoop entries capacity capacity (homeSlot capacity text)
  putEntries heap (some newEntries) (entries.set slot { domain, ipv4Be, inUse := true })

def ensureTableReady (heap : Resources) (table : DrLocalTable) (mallocs : Mallocs) :
    Resources × DrLocalTable × Bool :=
  if table.entries ≠ none then (heap, table, true)
  else if mallocs.table then
    (heap.alloc (.entries (List.replicate DR_LOCAL_TABLE_INITIAL_CAPACITY clearedSlot)),
      { entries := some heap.next, capacity := DR_LOCAL_TABLE_INITIAL_CAPACITY, size := 0,
        localTtl := DR_LOCAL_TABLE_TTL }, true)
  else (heap, table, false)

/-- The loop over the old slots. -/
def rehashLoop (newEntries newCapacity : Nat) : List DrLocalEntry → Resources → Call Resources
  | [], heap => .ok heap
  | entry :: rest, heap =>
    if entry.inUse then do
      let heap ← placeExistingEntry heap newEntries newCapacity entry.domain entry.ipv4Be
      rehashLoop newEntries newCapacity rest heap
    else rehashLoop newEntries newCapacity rest heap

def expandTable (heap : Resources) (table : DrLocalTable) (mallocs : Mallocs) :
    Call (Resources × DrLocalTable × Bool) :=
  if mallocs.grow then do
    let newCapacity := table.capacity * 2
    let newEntries := heap.next
    let heap := heap.alloc (.entries (List.replicate newCapacity clearedSlot))
    let entries ← entriesAt heap table.entries
    let heap ← rehashLoop newEntries newCapacity entries heap
    let heap ← heap.release table.entries
    pure (heap, { table with entries := some newEntries, capacity := newCapacity }, true)
  else pure (heap, table, false)

/-- The end of `insert_entry`. A copy that fails leaves NULL in the slot. -/
def storeEntry (heap : Resources) (table : DrLocalTable) (slot : Nat) (domain : CString)
    (ipv4Be : Ipv4Be) (mallocs : Mallocs) : Call (Resources × DrLocalTable × Bool) := do
  let (heap, copy) := dupText heap domain mallocs.text
  let entries ← entriesAt heap table.entries
  let entry ← slotAt entries slot
  match copy with
  | none => do
    let heap ← putEntries heap table.entries (entries.set slot { entry with domain := none })
    pure (heap, table, false)
  | some copy => do
    let heap ← putEntries heap table.entries
      (entries.set slot { domain := some copy, ipv4Be, inUse := true })
    pure (heap, { table with size := table.size + 1 }, true)

def insertEntry (heap : Resources) (table : DrLocalTable) (domain : CString) (ipv4Be : Ipv4Be)
    (mallocs : Mallocs) : Call (Resources × DrLocalTable × Bool) :=
  let (heap, table, ready) := ensureTableReady heap table mallocs
  if !ready then .ok (heap, table, false)
  else do
    let entries ← entriesAt heap table.entries
    let found ← probeLoop heap entries table.capacity domain table.capacity
      (homeSlot table.capacity domain)
    match found with
    | .found slot => do
      let entry ← slotAt entries slot
      let heap ← putEntries heap table.entries (entries.set slot { entry with ipv4Be })
      pure (heap, table, true)
    | .exhausted => pure (heap, table, false)
    | .free slot =>
      if (table.size + 1) * 10 > table.capacity * 7 then do
        let (heap, table, grown) ← expandTable heap table mallocs
        if !grown then pure (heap, table, false)
        else do
          let entries ← entriesAt heap table.entries
          let slot ← freeSlotLoop entries table.capacity table.capacity
            (homeSlot table.capacity domain)
          storeEntry heap table slot domain ipv4Be mallocs
      else storeEntry heap table slot domain ipv4Be mallocs

def drLocalTableLookup (heap : Resources) (table : DrLocalTable) (qname : CString) :
    Call DrLocalLookupResult :=
  let miss : DrLocalLookupResult := { kind := .miss, ipv4Be := .zero, ttl := table.localTtl }
  if table.entries = none ∨ table.capacity = 0 then .ok miss
  else do
    let normalized ← (drDnsNormalizeName qname (DR_DNS_MAX_DOMAIN_LEN + 1)).attempt
    match normalized with
    | none => pure miss
    | some normalized => do
      let entries ← entriesAt heap table.entries
      let found ← probeLoop heap entries table.capacity normalized table.capacity
        (homeSlot table.capacity normalized)
      match found with
      | .found slot => do
        let entry ← slotAt entries slot
        pure { miss with
          ipv4Be := entry.ipv4Be
          kind := if entry.ipv4Be = Ipv4Be.zero then .blocked else .hit }
      | _ => pure miss

/-- The loop over the slots; `free` of NULL does nothing. -/
def freeDomains : List DrLocalEntry → Resources → Call Resources
  | [], heap => .ok heap
  | entry :: rest, heap => do
    let heap ← heap.release entry.domain
    freeDomains rest heap

def drLocalTableFree (heap : Resources) (table : DrLocalTable) : Call (Resources × DrLocalTable) :=
  match table.entries with
  | none => .ok (heap, table)
  | some _ => do
    let entries ← entriesAt heap table.entries
    let heap ← freeDomains (entries.take table.capacity) heap
    let heap ← heap.release table.entries
    pure (heap, .zero)

end DnsRelay.Memory
