import DnsRelay.Foundation.CString

/-!
# DNS message header

The fixed twelve-octet header and the accessors of `dns_packet.c` that read or
rewrite it in place. A pointer argument with its length is the list of octets it
covers, so the NULL checks of the source have no counterpart here.
-/
namespace DnsRelay.Wire

open DnsRelay.Foundation

def DR_DNS_HEADER_SIZE : Nat := 12
def DR_DNS_MAX_PACKET_SIZE : Nat := 512
def DR_DNS_MAX_DOMAIN_LEN : Nat := 255
def DR_DNS_MAX_TTL_PATCHES : Nat := 64

def DR_DNS_RCODE_NOERROR : UInt8 := 0
def DR_DNS_RCODE_FORMERR : UInt8 := 1
def DR_DNS_RCODE_SERVFAIL : UInt8 := 2
def DR_DNS_RCODE_NXDOMAIN : UInt8 := 3
def DR_DNS_RCODE_NOTIMP : UInt8 := 4
def DR_DNS_RCODE_REFUSED : UInt8 := 5

structure DrDnsHeader where
  id : UInt16
  flags : UInt16
  qdcount : UInt16
  ancount : UInt16
  nscount : UInt16
  arcount : UInt16
  deriving DecidableEq

variable {ε : Type}

def readU16 (bytes : Bytes) (i : Nat) : Outcome ε UInt16 := do
  let hi ← load bytes i
  let lo ← load bytes (i + 1)
  pure ((hi.toUInt16 <<< 8) ||| lo.toUInt16)

def readU32 (bytes : Bytes) (i : Nat) : Outcome ε UInt32 := do
  let b0 ← load bytes i
  let b1 ← load bytes (i + 1)
  let b2 ← load bytes (i + 2)
  let b3 ← load bytes (i + 3)
  pure ((b0.toUInt32 <<< 24) ||| (b1.toUInt32 <<< 16) ||| (b2.toUInt32 <<< 8) ||| b3.toUInt32)

def writeU16 (bytes : Bytes) (i : Nat) (value : UInt16) : Outcome ε Bytes :=
  store bytes i [((value >>> 8) &&& 0xff).toUInt8, (value &&& 0xff).toUInt8]

def writeU32 (bytes : Bytes) (i : Nat) (value : UInt32) : Outcome ε Bytes :=
  store bytes i [((value >>> 24) &&& 0xff).toUInt8, ((value >>> 16) &&& 0xff).toUInt8,
    ((value >>> 8) &&& 0xff).toUInt8, (value &&& 0xff).toUInt8]

theorem readU16_of_le {bytes : Bytes} {i : Nat} (h : i + 2 ≤ bytes.length) :
    (readU16 bytes i : Outcome ε UInt16) = .ok (u16At bytes i) := by
  simp only [readU16, load_of_lt (show i < bytes.length by omega),
    load_of_lt (show i + 1 < bytes.length by omega), Outcome.ok_bind, Outcome.pure_eq]
  rfl

theorem readU32_of_le {bytes : Bytes} {i : Nat} (h : i + 4 ≤ bytes.length) :
    (readU32 bytes i : Outcome ε UInt32) = .ok (u32At bytes i) := by
  simp only [readU32, load_of_lt (show i < bytes.length by omega),
    load_of_lt (show i + 1 < bytes.length by omega), load_of_lt (show i + 2 < bytes.length by omega),
    load_of_lt (show i + 3 < bytes.length by omega), Outcome.ok_bind, Outcome.pure_eq]
  rfl

theorem writeU16_of_le {bytes : Bytes} {i : Nat} {value : UInt16} (h : i + 2 ≤ bytes.length) :
    (writeU16 bytes i value : Outcome ε Bytes) = .ok (overlay bytes i (bytes16 value)) :=
  store_of_le h

theorem writeU32_of_le {bytes : Bytes} {i : Nat} {value : UInt32} (h : i + 4 ≤ bytes.length) :
    (writeU32 bytes i value : Outcome ε Bytes) = .ok (overlay bytes i (bytes32 value)) :=
  store_of_le h

def drDnsParseHeader (packet : Bytes) : Call DrDnsHeader :=
  if packet.length < DR_DNS_HEADER_SIZE then .fail ()
  else do
    let id ← readU16 packet 0
    let flags ← readU16 packet 2
    let qdcount ← readU16 packet 4
    let ancount ← readU16 packet 6
    let nscount ← readU16 packet 8
    let arcount ← readU16 packet 10
    pure { id, flags, qdcount, ancount, nscount, arcount }

/-- The header fields at their fixed offsets. -/
def headerAt (packet : Bytes) : DrDnsHeader where
  id := u16At packet 0
  flags := u16At packet 2
  qdcount := u16At packet 4
  ancount := u16At packet 6
  nscount := u16At packet 8
  arcount := u16At packet 10

theorem drDnsParseHeader_eq (packet : Bytes) : drDnsParseHeader packet =
    if packet.length < DR_DNS_HEADER_SIZE then .fail () else .ok (headerAt packet) := by
  unfold drDnsParseHeader
  by_cases h : packet.length < DR_DNS_HEADER_SIZE
  · rw [if_pos h, if_pos h]
  · rw [if_neg h, if_neg h]
    simp only [DR_DNS_HEADER_SIZE] at h
    simp only [readU16_of_le (show 0 + 2 ≤ packet.length by omega),
      readU16_of_le (show 2 + 2 ≤ packet.length by omega),
      readU16_of_le (show 4 + 2 ≤ packet.length by omega),
      readU16_of_le (show 6 + 2 ≤ packet.length by omega),
      readU16_of_le (show 8 + 2 ≤ packet.length by omega),
      readU16_of_le (show 10 + 2 ≤ packet.length by omega), Outcome.ok_bind]
    rfl

/-! The accessors below test the length right before they read, so they are total. -/

def drDnsReadId (packet : Bytes) : UInt16 :=
  if packet.length ≥ 2 then u16At packet 0 else 0

def drDnsWriteId (packet : Bytes) (id : UInt16) : Bytes :=
  if packet.length ≥ 2 then overlay packet 0 (bytes16 id) else packet

def drDnsIsResponse (packet : Bytes) : Bool :=
  packet.length ≥ DR_DNS_HEADER_SIZE && (u16At packet 2 &&& 0x8000) ≠ 0

def drDnsGetOpcode (packet : Bytes) : UInt8 :=
  if packet.length ≥ DR_DNS_HEADER_SIZE then ((u16At packet 2 >>> 11) &&& 0x0f).toUInt8 else 0xff

def drDnsGetRcode (packet : Bytes) : UInt8 :=
  if packet.length ≥ DR_DNS_HEADER_SIZE then (u16At packet 2 &&& 0x0f).toUInt8 else 0xff

@[simp] theorem length_drDnsWriteId (packet : Bytes) (id : UInt16) :
    (drDnsWriteId packet id).length = packet.length := by
  unfold drDnsWriteId
  split
  · exact length_overlay (by simp only [length_bytes16]; omega)
  · rfl

theorem drDnsReadId_writeId {packet : Bytes} (id : UInt16) (h : 2 ≤ packet.length) :
    drDnsReadId (drDnsWriteId packet id) = id := by
  rw [drDnsReadId, length_drDnsWriteId, if_pos h, drDnsWriteId, if_pos h]
  exact u16At_overlay (by omega)

/-- Rewriting the transaction ID leaves every other octet alone. -/
theorem octet_drDnsWriteId {packet : Bytes} {id : UInt16} {i : Nat} (h : 2 ≤ i) :
    octet (drDnsWriteId packet id) i = octet packet i := by
  unfold drDnsWriteId
  split
  · exact octet_overlay_outside (by simp only [length_bytes16]; omega)
      (Or.inr (by simp only [length_bytes16]; omega))
  · rfl

end DnsRelay.Wire
