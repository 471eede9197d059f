import DnsRelay.Wire.Message

/-!
# The local domain table

`local_table.c` after the file has been tokenised: an open-addressing table of
normalised domains. The slot array is the list of its slots, the empty list stands for
a table without storage. `malloc` results are inputs. A probe index is masked with
`capacity - 1`, so it lies inside the array; a loop without a bound of its own runs on
a budget of one round and is stuck when the round is over.
-/
namespace DnsRelay.Store

open DnsRelay.Foundation
open DnsRelay.Wire

def DR_LOCAL_TABLE_TTL : UInt32 := 60
def DR_LOCAL_TABLE_INITIAL_CAPACITY : Nat := 512

structure DrLocalEntry where
  domain : Option CString
  ipv4Be : Ipv4Be
  inUse : Bool
  deriving DecidableEq

/-- `entry->ipv4_be = ipv4_be`. -/
def DrLocalEntry.assign (entry : DrLocalEntry) (ipv4Be : Ipv4Be) : DrLocalEntry :=
  { entry with ipv4Be }

structure DrLocalTable where
  entries : List DrLocalEntry
  size : Nat
  localTtl : UInt32
  deriving DecidableEq

inductive DrLocalLookupKind where
  | miss
  | hit
  | blocked
  deriving DecidableEq

structure DrLocalLookupResult where
  kind : DrLocalLookupKind
  ipv4Be : Ipv4Be
  ttl : UInt32
  deriving DecidableEq

/-- `memset(table, 0, sizeof(*table))`. -/
def DrLocalTable.zero : DrLocalTable := { entries := [], size := 0, localTtl := 0 }

def DrLocalTable.capacity (table : DrLocalTable) : Nat := table.entries.length

def hashName (text : CString) : UInt32 :=
  text.octets.foldl (fun value ch => (value ^^^ ch.toUInt32) * 16777619) 2166136261

def clearedSlot : DrLocalEntry := { domain := none, ipv4Be := Ipv4Be.zero, inUse := false }

def clearEntries (capacity : Nat) : List DrLocalEntry := List.replicate capacity clearedSlot

def slotAt (entries : List DrLocalEntry) (slot : Nat) : DrLocalEntry := entries.getD slot clearedSlot

/-- `hash_name(domain) & (uint32_t)mask`. -/
def homeSlot (capacity : Nat) (domain : CString) : Nat :=
  (hashName domain &&& UInt32.ofNat (capacity - 1)).toNat

/-- Which of the three allocations an insertion may need succeed. -/
structure Mallocs where
  table : Bool
  grow : Bool
  text : Bool

inductive Probe where
  | found (slot : Nat)
  | free (slot : Nat)
  | exhausted
  deriving DecidableEq

/-- The probing loop of `insert_entry` and `dr_local_table_lookup`, with `capacity - scanned` slots
left to scan. -/
def probeLoop (entries : List DrLocalEntry) (domain : CString) : Nat → Nat → Probe
  | 0, _ => .exhausted
  | left + 1, slot =>
    if (slotAt entries slot).inUse then
      if (slotAt entries slot).domain = some domain then .found slot
      else probeLoop entries domain left ((slot + 1) &&& (entries.length - 1))
    else .free slot

/-- The loop that looks for a free slot in a table that has been grown. -/
def freeSlotLoop (entries : List DrLocalEntry) : Nat → Nat → Call Nat
  | 0, _ => .stuck
  | left + 1, slot =>
    if (slotAt entries slot).inUse then
      freeSlotLoop entries left ((slot + 1) &&& (entries.length - 1))
    else .ok slot

def placeExistingEntry (entries : List DrLocalEntry) (domain : Option CString) (ipv4Be : Ipv4Be) :
    Call (List DrLocalEntry) := do
  let text ← (match domain with
    | some text => .ok text
    | none => .stuck)
  let slot ← freeSlotLoop entries entries.length (homeSlot entries.length text)
  pure (entries.set slot { domain, ipv4Be, inUse := true })

def ensureTableReady (table : DrLocalTable) (mallocs : Mallocs) : DrLocalTable × Bool :=
  if table.entries ≠ [] then (table, true)
  else if mallocs.table then
    ({ entries := clearEntries DR_LOCAL_TABLE_INITIAL_CAPACITY, size := 0,
       localTtl := DR_LOCAL_TABLE_TTL }, true)
  else (table, false)

/-- The loop over the old slots. -/
def rehashLoop : List DrLocalEntry → List DrLocalEntry → Call (List DrLocalEntry)
  | [], newEntries => .ok newEntries
  | entry :: rest, newEntries =>
    if entry.inUse then do
      let newEntries ← placeExistingEntry newEntries entry.domain entry.ipv4Be
      rehashLoop rest newEntries
    else rehashLoop rest newEntries

def expandTable (table : DrLocalTable) (mallocs : Mallocs) : Call (DrLocalTable × Bool) :=
  if mallocs.grow then do
    let newEntries ← rehashLoop table.entries (clearEntries (table.capacity * 2))
    pure ({ table with entries := newEntries }, true)
  else pure (table, false)

/-- The end of `insert_entry`: store a copy of the text in a free slot. -/
def storeEntry (table : DrLocalTable) (slot : Nat) (domain : CString) (ipv4Be : Ipv4Be)
    (mallocs : Mallocs) : DrLocalTable × Bool :=
  if mallocs.text then
    ({ table with
        entries := table.entries.set slot { domain := some domain, ipv4Be, inUse := true }
        size := table.size + 1 }, true)
  else (table, false)

def insertEntry (table : DrLocalTable) (domain : CString) (ipv4Be : Ipv4Be) (mallocs : Mallocs) :
    Call (DrLocalTable × Bool) :=
  let (table, ready) := ensureTableReady table mallocs
  if !ready then .ok (table, false)
  else
    match probeLoop table.entries domain table.capacity (homeSlot table.capacity domain) with
    | .found slot =>
      .ok ({ table with
              entries := table.entries.set slot ((slotAt table.entries slot).assign ipv4Be) }, true)
    | .exhausted => .ok (table, false)
    | .free slot =>
      if (table.size + 1) * 10 > table.capacity * 7 then do
        let (table, grown) ← expandTable table mallocs
        if !grown then pure (table, false)
        else do
          let slot ← freeSlotLoop table.entries table.capacity (homeSlot table.capacity domain)
          pure (storeEntry table slot domain ipv4Be mallocs)
      else .ok (storeEntry table slot domain ipv4Be mallocs)

def drLocalTableLookup (table : DrLocalTable) (qname : CString) : DrLocalLookupResult :=
  let miss : DrLocalLookupResult :=
    { kind := .miss, ipv4Be := Ipv4Be.zero, ttl := table.localTtl }
  if table.entries = [] then miss
  else
    match drDnsNormalizeName qname (DR_DNS_MAX_DOMAIN_LEN + 1) with
    | .ok normalized =>
      match probeLoop table.entries normalized table.capacity (homeSlot table.capacity normalized) with
      | .found slot =>
        let ipv4Be := (slotAt table.entries slot).ipv4Be
        { miss with ipv4Be, kind := if ipv4Be = Ipv4Be.zero then .blocked else .hit }
      | _ => miss
    | _ => miss

def drLocalTableSize (table : DrLocalTable) : Nat := table.size

end DnsRelay.Store
