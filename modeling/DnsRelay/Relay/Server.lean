import DnsRelay.Store.Cache
import DnsRelay.Store.LocalTable
import DnsRelay.Store.PendingMap

/-!
# The relay server

`server.c` as a step function over the pending map, the cache and a fixed local table.
An event is one pass of the main loop over the timeouts, or one datagram `recvfrom`
delivered; the clock readings and the results of `send_packet` are part of the event.
A step returns the packets it hands to `send_packet`, in order. Logging, and the
sockets and addresses that only socket calls use, are left out.
-/
namespace DnsRelay.Relay

open DnsRelay.Foundation
open DnsRelay.Wire
open DnsRelay.Store

structure DrServer where
  upstreamTimeoutMs : UInt32
  upstreamAddr : Sockaddr
  localTable : DrLocalTable
  pendingMap : DrPendingMap
  cache : DrCache

/-- The server when the main loop is entered. -/
def drServerStart (upstreamTimeoutMs : UInt32) (upstreamAddr : Sockaddr) (localTable : DrLocalTable)
    (cacheCapacity : Nat) : DrServer where
  upstreamTimeoutMs := upstreamTimeoutMs
  upstreamAddr := upstreamAddr
  localTable := localTable
  pendingMap := drPendingMapInit
  cache := drCacheInit cacheCapacity

/-- `sa_family == AF_INET` in a `sockaddr_in`, the family being the first two octets, low one first. -/
def isInet (addr : Sockaddr) : Bool := octet addr 0 == 2 && octet addr 1 == 0

/-- Port and address are octets 2 to 7; the lengths are not looked at. -/
def drSockaddrEqual (lhs rhs : Sockaddr) : Bool :=
  isInet lhs && isInet rhs && u16At lhs 2 == u16At rhs 2 && u32At lhs 4 == u32At rhs 4

/-- Why a packet is sent: to the upstream server under a transaction ID, in answer to the query at
hand, or in answer to the request that was pending under an ID. -/
inductive Cause where
  | forward (upstreamId : UInt16)
  | answer
  | relay (upstreamId : UInt16)
  | timeout (upstreamId : UInt16)
  deriving DecidableEq

/-- One call of `send_packet` and its result. -/
structure Send where
  cause : Cause
  packet : Bytes
  dst : Sockaddr
  sent : Bool
  deriving DecidableEq

/-- The local buffer `response`; the builders write every octet that is sent from it. -/
def response : Bytes := List.replicate DR_DNS_MAX_PACKET_SIZE 0

/-- Send what a builder left in `response`, unless it failed. -/
def sendBuilt (built : Call (Bytes × Nat)) (cause : Cause) (dst : Sockaddr) (sent : Bool) :
    List Send :=
  match built with
  | .ok (out, responseLen) => [{ cause, packet := out.take responseLen, dst, sent }]
  | _ => []

def respondWithError (queryPacket : Bytes) (rcode : UInt8) (cause : Cause) (clientAddr : Sockaddr)
    (sent : Bool) : List Send :=
  sendBuilt (drDnsBuildErrorResponse queryPacket rcode response) cause clientAddr sent

/-- The server and whether the response was stored. -/
def maybeCacheResponse (server : DrServer) (request : DrPendingRequest) (packet : Bytes)
    (nowMs : UInt64) : DrServer × Bool :=
  if drDnsGetRcode packet ≠ DR_DNS_RCODE_NOERROR then (server, false)
  else
    match drDnsCollectTtls packet with
    | .ok (patches, minTtl) =>
      if patches.count = 0 ∨ minTtl = 0 then (server, false)
      else
        let (cache, stored) := drCachePut server.cache request.qname request.qtype request.qclass
          packet patches minTtl nowMs
        ({ server with cache }, stored)
    | _ => (server, false)

/-- The local-table section of `handle_client_packet`: the packets sent when it ends the handling. -/
def answerFromTable (server : DrServer) (packet : Bytes) (parsed : DrParsedQuery)
    (clientAddr : Sockaddr) (sent : Bool) : Option (List Send) :=
  if parsed.qclass = 1 then
    let result := drLocalTableLookup server.localTable (cstr parsed.qname)
    if result.kind = .blocked then
      some (sendBuilt (drDnsBuildErrorResponse packet DR_DNS_RCODE_NXDOMAIN response) .answer
        clientAddr sent)
    else if parsed.qtype = 1 ∧ result.kind = .hit then
      some (sendBuilt (drDnsBuildAResponse packet parsed result.ipv4Be result.ttl response) .answer
        clientAddr sent)
    else none
  else none

/-- The arguments `handle_client_packet` passes to `dr_pending_map_insert`. -/
def pendingQuery (packet : Bytes) (parsed : DrParsedQuery) (clientAddr : Sockaddr) (nowMs : UInt64) :
    PendingQuery where
  clientId := parsed.id
  clientAddr := clientAddr
  queryPacket := packet
  qname := cstr parsed.qname
  qtype := parsed.qtype
  qclass := parsed.qclass
  startedMs := nowMs

/-- The forwarding section of `handle_client_packet`. -/
def forwardQuery (server : DrServer) (packet : Bytes) (parsed : DrParsedQuery) (clientAddr : Sockaddr)
    (nowMs : UInt64) (sent : Bool) : DrServer × List Send :=
  match drPendingMapInsert server.pendingMap (pendingQuery packet parsed clientAddr nowMs) with
  | (pendingMap, none) =>
    ({ server with pendingMap },
      respondWithError packet DR_DNS_RCODE_REFUSED .answer clientAddr sent)
  | (pendingMap, some upstreamId) =>
    let sends := [{ cause := .forward upstreamId, packet := drDnsWriteId packet upstreamId,
                    dst := server.upstreamAddr, sent }]
    if sent then ({ server with pendingMap }, sends)
    else ({ server with pendingMap := (drPendingMapRemove pendingMap upstreamId).1 }, sends)

/-- `handle_client_packet` once the question has been parsed. -/
def handleQuery (server : DrServer) (packet : Bytes) (parsed : DrParsedQuery) (clientAddr : Sockaddr)
    (nowMs : UInt64) (sent : Bool) : DrServer × List Send :=
  match answerFromTable server packet parsed clientAddr sent with
  | some sends => (server, sends)
  | none =>
    match drCacheLookup server.cache (cstr parsed.qname) parsed.qtype parsed.qclass nowMs
        parsed.id with
    | (cache, some packet) =>
      ({ server with cache }, [{ cause := .answer, packet, dst := clientAddr, sent }])
    | (cache, none) => forwardQuery { server with cache } packet parsed clientAddr nowMs sent

def handleClientPacket (server : DrServer) (packet : Bytes) (clientAddr : Sockaddr) (nowMs : UInt64)
    (sent : Bool) : DrServer × List Send :=
  match drDnsParseHeader packet with
  | .ok header =>
    if header.flags &&& 0x8000 ≠ 0 then (server, [])
    else if header.qdcount ≠ 1 then
      (server, respondWithError packet DR_DNS_RCODE_FORMERR .answer clientAddr sent)
    else if drDnsGetOpcode packet ≠ 0 then
      (server, respondWithError packet DR_DNS_RCODE_NOTIMP .answer clientAddr sent)
    else
      match drDnsParseQuery packet with
      | .ok parsed => handleQuery server packet parsed clientAddr nowMs sent
      | _ => (server, respondWithError packet DR_DNS_RCODE_FORMERR .answer clientAddr sent)
  | _ => (server, [])

def handleUpstreamPacket (server : DrServer) (packet : Bytes) (nowMs : UInt64) (sent : Bool) :
    DrServer × List Send :=
  let upstreamId := drDnsReadId packet
  match drPendingMapGet server.pendingMap upstreamId with
  | none => (server, [])
  | some pending =>
    match drDnsParseQuery packet with
    | .ok responseQuery =>
      if cstr responseQuery.qname ≠ pending.qname ∨ responseQuery.qtype ≠ pending.qtype ∨
          responseQuery.qclass ≠ pending.qclass then (server, [])
      else
        match drPendingMapRemove server.pendingMap upstreamId with
        | (_, none) => (server, [])
        | (pendingMap, some request) =>
          let (server, _) := maybeCacheResponse { server with pendingMap } request packet nowMs
          (server, [{ cause := .relay upstreamId, packet := drDnsWriteId packet request.clientId,
                      dst := request.clientAddr, sent }])
    | _ => (server, [])

/-- What `recvfrom` delivers: a source address and the octets it put into the buffer. -/
structure Datagram where
  src : Sockaddr
  packet : Bytes
  received_pos : 0 < packet.length
  received_le : packet.length ≤ DR_DNS_MAX_PACKET_SIZE

inductive Event where
  | tick (nowMs : UInt64) (sent : Nat → Bool)
  | datagram (d : Datagram) (nowMs : UInt64) (sent : Bool)

/-- The loop over the timed out requests, `expiredCount` of them so far. Each pass frees a slot, so
`DR_PENDING_SLOT_COUNT` passes are enough. -/
def timeoutLoop (nowMs : UInt64) (upstreamTimeoutMs : UInt32) (sent : Nat → Bool) :
    Nat → Nat → DrPendingMap → DrPendingMap × List Send
  | 0, _, pendingMap => (pendingMap, [])
  | passes + 1, expiredCount, pendingMap =>
    match drPendingMapPopExpired pendingMap nowMs upstreamTimeoutMs with
    | (pendingMap, none) => (pendingMap, [])
    | (pendingMap, some request) =>
      let (rest, sends) :=
        timeoutLoop nowMs upstreamTimeoutMs sent passes (expiredCount + 1) pendingMap
      (rest, respondWithError request.queryPacket DR_DNS_RCODE_SERVFAIL (.timeout request.upstreamId)
        request.clientAddr (sent expiredCount) ++ sends)

/-- The part of the main loop before `recvfrom`. -/
def expireAll (server : DrServer) (nowMs : UInt64) (sent : Nat → Bool) : DrServer × List Send :=
  let (pendingMap, sends) := timeoutLoop nowMs server.upstreamTimeoutMs sent DR_PENDING_SLOT_COUNT 0
    server.pendingMap
  ({ server with pendingMap, cache := drCacheExpire server.cache nowMs }, sends)

/-- The test that sends a datagram to `handle_upstream_packet`. -/
def isUpstreamResponse (server : DrServer) (d : Datagram) : Bool :=
  drDnsIsResponse d.packet && drSockaddrEqual d.src server.upstreamAddr

/-- The part of the main loop behind `recvfrom`. -/
def receive (server : DrServer) (d : Datagram) (nowMs : UInt64) (sent : Bool) :
    DrServer × List Send :=
  if isUpstreamResponse server d then handleUpstreamPacket server d.packet nowMs sent
  else handleClientPacket server d.packet d.src nowMs sent

def step (server : DrServer) : Event → DrServer × List Send
  | .tick nowMs sent => expireAll server nowMs sent
  | .datagram d nowMs sent => receive server d nowMs sent

end DnsRelay.Relay
