import DnsRelay.Relay.Server
import DnsRelay.Store.CacheRecency
import DnsRelay.Store.LocalRules

/-!
# What the relay is for

The relay without its data structures: a list of rules of which the last one for a
domain counts, a partial function from IDs to waiting queries, and a recency list of
responses. There are no slots, hashes, counters or ticks, and times are numbers. The
packets it sends are built by the message routines.
-/
namespace DnsRelay.Relay

open DnsRelay.Foundation
open DnsRelay.Wire
open DnsRelay.Store

/-- A query that waits for the upstream server. -/
structure Waiting where
  clientId : UInt16
  client : Sockaddr
  query : Bytes
  question : Question
  since : Nat

structure Settings where
  timeout : Nat
  upstream : Sockaddr
  rules : List (CString × Ipv4Be)
  capacity : Nat

/-- `cursor` is the first ID that is tried for the next query. -/
structure AbstractRelay where
  waiting : UInt16 → Option Waiting
  cursor : UInt16
  recent : List (Dated Question StoredResponse)

def askedQuestion (parsed : DrParsedQuery) : Question :=
  (cstr parsed.qname, parsed.qtype, parsed.qclass)

/-- What the rules say about a question: nothing, that its name is blocked, or an address. -/
inductive Ruling where
  | silent
  | blocked
  | address (ipv4Be : Ipv4Be)
  deriving DecidableEq

/-- The rules are about class IN; an address answers questions of type A only. -/
def ruling (rules : List (CString × Ipv4Be)) (question : Question) : Ruling :=
  if question.2.2 = 1 then
    match (drDnsNormalizeName question.1 (DR_DNS_MAX_DOMAIN_LEN + 1)).toOption.bind
        (lastRule rules) with
    | none => .silent
    | some ipv4Be =>
      if ipv4Be = .zero then .blocked
      else if question.2.1 = 1 then .address ipv4Be
      else .silent
  else .silent

/-- What a datagram asks of the relay when it does not come from the upstream server. -/
inductive Demand where
  | nothing
  | malformed (rcode : UInt8)
  | question (parsed : DrParsedQuery)

def demand (packet : Bytes) : Demand :=
  if packet.length < DR_DNS_HEADER_SIZE ∨ u16At packet 2 &&& 0x8000 ≠ 0 then .nothing
  else if u16At packet 4 = 1 ∧ drDnsGetOpcode packet ≠ 0 then .malformed DR_DNS_RCODE_NOTIMP
  else
    match (drDnsParseQuery packet).toOption with
    | some parsed => .question parsed
    | none => .malformed DR_DNS_RCODE_FORMERR

/-- A successful response with TTLs, none of them zero: where they lie, and the smallest. -/
def worthKeeping (packet : Bytes) : Option (DrTtlPatchList × UInt32) :=
  if drDnsGetRcode packet = DR_DNS_RCODE_NOERROR then
    (drDnsCollectTtls packet).toOption.filter (fun ttls => ttls.1.count ≠ 0 ∧ ttls.2 ≠ 0)
  else none

namespace AbstractRelay

def start : AbstractRelay where
  waiting := fun _ => none
  cursor := 1
  recent := []

/-- The IDs whose queries have waited for the timeout, in increasing order. -/
def due (settings : Settings) (relay : AbstractRelay) (now : Nat) : List UInt16 :=
  ((List.range DR_PENDING_SLOT_COUNT).map UInt16.ofNat).filter (fun id =>
    (relay.waiting id).any (fun w => w.since + settings.timeout ≤ now))

/-- The answer to a query that has waited for too long. -/
def giveUp (relay : AbstractRelay) (id : UInt16) (sent : Bool) : List Send :=
  match relay.waiting id with
  | none => []
  | some w => respondWithError w.query DR_DNS_RCODE_SERVFAIL (.timeout id) w.client sent

def tick (settings : Settings) (relay : AbstractRelay) (now : Nat) (sent : Nat → Bool) :
    AbstractRelay × List Send :=
  let ids := due settings relay now
  ({ relay with
      waiting := fun id => if id ∈ ids then none else relay.waiting id
      recent := relay.recent.filter (Recency.live now) },
    ids.zipIdx.flatMap (fun pair => giveUp relay pair.1 (sent pair.2)))

/-- The first free ID from the cursor on, going round the IDs other than 0. -/
def freeId (relay : AbstractRelay) : Option UInt16 :=
  scanFrom nextCandidate (fun id => (relay.waiting id).isNone) (DR_PENDING_SLOT_COUNT - 1)
    relay.cursor

def forward (settings : Settings) (relay : AbstractRelay) (packet : Bytes) (parsed : DrParsedQuery)
    (client : Sockaddr) (now : Nat) (sent : Bool) : AbstractRelay × List Send :=
  match relay.freeId with
  | none => (relay, respondWithError packet DR_DNS_RCODE_REFUSED .answer client sent)
  | some id =>
    let waiting : Waiting :=
      { clientId := parsed.id, client, query := packet, question := askedQuestion parsed,
        since := now }
    ({ relay with
        waiting := if sent then Function.update relay.waiting id (some waiting) else relay.waiting
        cursor := nextCandidate id },
      [{ cause := .forward id, packet := drDnsWriteId packet id, dst := settings.upstream, sent }])

/-- Rules come first, then recent responses, then the upstream server. -/
def ask (settings : Settings) (relay : AbstractRelay) (packet : Bytes) (parsed : DrParsedQuery)
    (client : Sockaddr) (nowMs : UInt64) (sent : Bool) : AbstractRelay × List Send :=
  match ruling settings.rules (askedQuestion parsed) with
  | .blocked => (relay, respondWithError packet DR_DNS_RCODE_NXDOMAIN .answer client sent)
  | .address ipv4Be =>
    (relay, sendBuilt (drDnsBuildAResponse packet parsed ipv4Be DR_LOCAL_TABLE_TTL response) .answer
      client sent)
  | .silent =>
    match Recency.lookup nowMs.toNat (askedQuestion parsed) relay.recent with
    | (recent, some found) =>
      ({ relay with recent },
        [{ cause := .answer, packet := found.value.answer nowMs parsed.id, dst := client, sent }])
    | (recent, none) => forward settings { relay with recent } packet parsed client nowMs.toNat sent

/-- A response answers the query that waits under its ID if it has the same question. -/
def hear (settings : Settings) (relay : AbstractRelay) (packet : Bytes) (nowMs : UInt64)
    (sent : Bool) : AbstractRelay × List Send :=
  let id := drDnsReadId packet
  match relay.waiting id, (drDnsParseQuery packet).toOption with
  | some w, some parsed =>
    if askedQuestion parsed = w.question then
      ({ relay with
          waiting := Function.update relay.waiting id none
          recent :=
            match worthKeeping packet with
            | none => relay.recent
            | some (patches, minTtl) =>
              Recency.insert settings.capacity nowMs.toNat
                (datedFor w.question.1 w.question.2.1 w.question.2.2 packet patches minTtl nowMs)
                relay.recent },
        [{ cause := .relay id, packet := drDnsWriteId packet w.clientId, dst := w.client, sent }])
    else (relay, [])
  | _, _ => (relay, [])

def receive (settings : Settings) (relay : AbstractRelay) (d : Datagram) (nowMs : UInt64)
    (sent : Bool) : AbstractRelay × List Send :=
  if drDnsIsResponse d.packet && drSockaddrEqual d.src settings.upstream then
    hear settings relay d.packet nowMs sent
  else
    match demand d.packet with
    | .nothing => (relay, [])
    | .malformed rcode => (relay, respondWithError d.packet rcode .answer d.src sent)
    | .question parsed => ask settings relay d.packet parsed d.src nowMs sent

def step (settings : Settings) (relay : AbstractRelay) : Event → AbstractRelay × List Send
  | .tick nowMs sent => tick settings relay nowMs.toNat sent
  | .datagram d nowMs sent => receive settings relay d nowMs sent

end AbstractRelay
end DnsRelay.Relay
