import DnsRelay.Relay.CachedTtl
import DnsRelay.Relay.PendingFate
import DnsRelay.Relay.Refinement

/-!
# What a client can be told

The relay together with an upstream server that answers the queries it is sent, late, in
any order, more than once or never, and clients and strangers that send what they like.
Nothing but the rules and that server decides what a client is told about a name.
-/
namespace DnsRelay.Relay

open DnsRelay.Foundation
open DnsRelay.Wire
open DnsRelay.Store

/-- The responses a server may give to a query; they repeat its question. -/
structure Upstream where
  resolves : Bytes → Bytes → Prop
  echoes : ∀ {query response parsed}, resolves query response →
    drDnsParseQuery response = .ok parsed →
    ∃ asked, drDnsParseQuery query = .ok asked ∧ askedQuestion asked = askedQuestion parsed

section Run

variable (upstream : Upstream) (rules : List (CString × Ipv4Be)) (start : DrServer)
  (run : Nat → Event)

/-- Event `j` brings an answer to a query that was forwarded before. -/
def BringsAnswer (j : Nat) (query answer : Bytes) : Prop :=
  (∃ d nowMs sent, run j = .datagram d nowMs sent ∧ d.packet = answer) ∧
    ∃ m forward id, m < j ∧ forward ∈ outputAt step start run m ∧ forward.cause = .forward id ∧
      forward.sent = true ∧ forward.packet = query ∧ upstream.resolves query answer

/-- What passes for an upstream response is one. Other datagrams are free. -/
def ClosedRun : Prop :=
  ∀ j d nowMs sent, run j = .datagram d nowMs sent → isUpstreamResponse start d = true →
    ∃ query, BringsAnswer upstream start run j query d.packet

/-- Event `j` brings an answer to a forwarded query with the question. -/
def Resolved (j : Nat) (question : Question) (answer : Bytes) : Prop :=
  ∃ query asked, BringsAnswer upstream start run j query answer ∧
    drDnsParseQuery query = .ok asked ∧ askedQuestion asked = question

/-- A reply that event `n` may send to a query. -/
inductive ReplyTo (n : Nat) (query packet : Bytes) : Prop where
  | failed {rcode : UInt8} (hrcode : rcode = DR_DNS_RCODE_FORMERR ∨ rcode = DR_DNS_RCODE_NOTIMP ∨
      rcode = DR_DNS_RCODE_REFUSED ∨ rcode = DR_DNS_RCODE_SERVFAIL)
      (h : ErrorResponseTo query rcode packet)
  | blocked {parsed : DrParsedQuery} (haccepted : Accepted query parsed)
      (hruling : ruling rules (askedQuestion parsed) = .blocked)
      (h : ErrorResponseTo query DR_DNS_RCODE_NXDOMAIN packet)
  | listed {parsed : DrParsedQuery} {ipv4Be : Ipv4Be} {out : Bytes} {responseLen : Nat}
      (haccepted : Accepted query parsed)
      (hruling : ruling rules (askedQuestion parsed) = .address ipv4Be)
      (hbuilt : drDnsBuildAResponse query parsed ipv4Be DR_LOCAL_TABLE_TTL response =
        .ok (out, responseLen))
      (h : packet = out.take responseLen)
  | relayed {parsed : DrParsedQuery} {answer : Bytes} (haccepted : Accepted query parsed)
      (hruling : ruling rules (askedQuestion parsed) = .silent)
      (hresolved : Resolved upstream start run n (askedQuestion parsed) answer)
      (h : packet = drDnsWriteId answer (drDnsReadId query))
  | cached {parsed : DrParsedQuery} {j : Nat} {answer : Bytes} {patches : DrTtlPatchList}
      {minTtl : UInt32} (haccepted : Accepted query parsed)
      (hruling : ruling rules (askedQuestion parsed) = .silent) (hbefore : j < n)
      (hresolved : Resolved upstream start run j (askedQuestion parsed) answer)
      (hrcode : drDnsGetRcode answer = DR_DNS_RCODE_NOERROR)
      (hcollect : drDnsCollectTtls answer = .ok (patches, minTtl))
      (h : Rewritten answer patches (drDnsReadId query) packet)
      (haged : (run j).nowMs ≤ (run n).nowMs → Aged answer patches minTtl
        (((run n).nowMs.toNat - (run j).nowMs.toNat) / 1000) (drDnsReadId query) packet)

/-- Send `k` of event `n` replies to a query that came at `n` or before. -/
def Accounted (n k : Nat) (s : Send) : Prop :=
  ∃ m d nowMs sent, m ≤ n ∧ run m = .datagram d nowMs sent ∧ DR_DNS_HEADER_SIZE ≤ d.packet.length ∧
    s.dst = d.src ∧ Answers start run m n k ∧ ReplyTo upstream rules start run n d.packet s.packet

variable {upstream rules start run}

/-- An authentic datagram is the answer to a forwarded query with the question of the request. -/
theorem resolved_of_authentic (hclosed : ClosedRun upstream start run) {j : Nat} {d : Datagram}
    {nowMs : UInt64} {sent : Bool} {request : DrPendingRequest} {responseQuery : DrParsedQuery}
    (hevent : run j = .datagram d nowMs sent)
    (h : Authentic (stateAt step start run j) d request responseQuery) :
    Resolved upstream start run j (request.qname, request.qtype, request.qclass) d.packet := by
  have hdispatched : isUpstreamResponse start d = true := by
    have hsource := h.source
    rw [(settings_stateAt start run j).upstream] at hsource
    exact (isUpstreamResponse_iff start d).mpr ⟨h.answers.header, h.response, hsource⟩
  obtain ⟨query, hbrings⟩ := hclosed j d nowMs sent hevent hdispatched
  have hforwarded := hbrings.2
  obtain ⟨_, _, _, _, _, _, _, _, hresolves⟩ := hforwarded
  obtain ⟨asked, hasked, hsame⟩ := upstream.echoes hresolves h.answers.parses
  refine ⟨query, asked, hbrings, hasked, hsame.trans ?_⟩
  rw [askedQuestion, h.answers.qname, h.answers.qtype, h.answers.qclass]

/-- The query a pending request was made of. -/
theorem query_of_held {id : UInt16} {m n : Nat} {request : DrPendingRequest}
    (h : HeldSince (pendingAt start run id) m n request) :
    ∃ d nowMs parsed, run m = .datagram d nowMs true ∧ EnteredBy d id request ∧
      Accepted d.packet parsed ∧
      ¬ Reserved start.localTable (askedQuestion parsed) ∧
      (request.qname, request.qtype, request.qclass) = askedQuestion parsed := by
  obtain ⟨d, nowMs, hevent, henteredBy, hforwarded⟩ := entered_of_held h
  obtain ⟨parsed, hentered, hslot⟩ := hforwarded.entered
  have hrequest := (drPendingMapGet_eq_some.mp h.first).2
  rw [stateAt, hslot rfl] at hrequest
  have hremote := hentered.remote
  rw [(settings_stateAt start run m).table] at hremote
  refine ⟨d, nowMs, parsed, hevent, henteredBy, hentered.accepted, hremote, ?_⟩
  rw [← hrequest, PendingQuery.request, pendingQuery,
    CString.truncate_of_le (length_cstr_qname hentered.accepted.parses)]
  rfl

/-- The rules are silent about what the table passes on. -/
theorem ruling_of_remote (hrules : Loaded start.localTable rules) (httl : TtlSet start.localTable)
    {parsed : DrParsedQuery} (hremote : ¬ Reserved start.localTable (askedQuestion parsed)) :
    ruling rules (askedQuestion parsed) = .silent := by
  have hnone : answerFromTable start [] parsed [] true = none :=
    answerFromTable_eq_none_iff.mpr hremote
  rw [answerFromTable_ruling hrules httl] at hnone
  split at hnone
  · assumption
  · cases hnone
  · cases hnone

theorem replyTo_of_hit (hclosed : ClosedRun upstream start run)
    (hempty : occupied start.cache.entries = []) {n : Nat} {query : Bytes} {parsed : DrParsedQuery}
    (haccepted : Accepted query parsed) (hruling : ruling rules (askedQuestion parsed) = .silent)
    {cache : DrCache} {packet : Bytes}
    (hhit : drCacheLookup (stateAt step start run n).cache (cstr parsed.qname) parsed.qtype
      parsed.qclass (run n).nowMs parsed.id = (cache, some packet)) :
    ReplyTo upstream rules start run n query packet := by
  rcases drCacheLookup_cases (stateAt step start run n).cache (cstr parsed.qname) parsed.qtype
      parsed.qclass (run n).nowMs parsed.id with
    ⟨heq, _⟩ | ⟨pre, e, suf, hsplit, hhits, _, heq⟩ <;> rw [heq] at hhit <;> cases hhit
  obtain ⟨hlive, hkey⟩ := (hits_iff e _ _ _ _).mp hhits
  obtain ⟨huse, hunexpired⟩ := (liveAt_iff e _).mp hlive
  have hmem : e ∈ occupied (stateAt step start run n).cache.entries :=
    mem_occupied.mpr ⟨by rw [hsplit]; simp, huse⟩
  obtain ⟨j, hbefore, d, sent, request, responseQuery, minTtl, hevent, hauthentic, hpacket,
    hquestion, hrcode, hcollect, _, _, hexpires⟩ := storedBy_of_occupied hempty n e hmem
  have hresolved := resolved_of_authentic hclosed hevent hauthentic
  rw [← hquestion, hkey] at hresolved
  have hholds : Holds d.packet e.ttlPatches minTtl e.storedAtMs e := ⟨hpacket, rfl, rfl, hexpires⟩
  refine .cached haccepted hruling hbefore hresolved hrcode hcollect ?_ (fun hle => ?_)
  · rw [← haccepted.id]
    exact answer_rewritten hholds hcollect _ parsed.id
  · have hstored : (run j).nowMs = e.storedAtMs := by
      rw [hevent]
      rfl
    rw [hstored] at hle ⊢
    rw [← haccepted.id]
    exact answer_aged hholds hcollect hle (UInt64.lt_iff_toNat_lt.mpr hunexpired) parsed.id

/-- What the table answers. -/
theorem replyTo_of_table {server : DrServer} (hrules : Loaded server.localTable rules)
    (httl : TtlSet server.localTable) {n : Nat} {query : Bytes} {parsed : DrParsedQuery}
    (haccepted : Accepted query parsed) {client : Sockaddr} {sent : Bool} {sends : List Send}
    (hsome : answerFromTable server query parsed client sent = some sends) {s : Send} (hs : s ∈ sends) :
    s.cause = .answer ∧ s.dst = client ∧ ReplyTo upstream rules start run n query s.packet := by
  rw [answerFromTable_ruling hrules httl] at hsome
  split at hsome
  · cases hsome
  · next hruling =>
    cases hsome
    obtain ⟨hcause, hdst, _, herror⟩ := mem_respondWithError hs
    exact ⟨hcause, hdst, .blocked haccepted hruling herror⟩
  · next ipv4Be hruling =>
    cases hsome
    obtain ⟨out, responseLen, hbuilt, rfl⟩ := mem_sendBuilt hs
    exact ⟨rfl, rfl, .listed haccepted hruling hbuilt rfl⟩

theorem demand_malformed {packet : Bytes} {rcode : UInt8} (h : demand packet = .malformed rcode) :
    DR_DNS_HEADER_SIZE ≤ packet.length ∧
      (rcode = DR_DNS_RCODE_FORMERR ∨ rcode = DR_DNS_RCODE_NOTIMP) := by
  unfold demand at h
  split at h
  · cases h
  · next hquery =>
    have hheader := Nat.le_of_not_lt (not_or.mp hquery).1
    split at h
    · cases h
      exact ⟨hheader, Or.inr rfl⟩
    · split at h
      · cases h
      · cases h
        exact ⟨hheader, Or.inl rfl⟩

/-- What is sent at once when a query is handled. -/
theorem replyTo_of_client (hclosed : ClosedRun upstream start run) (hfresh : Fresh start)
    (hrules : Loaded start.localTable rules) (httl : TtlSet start.localTable) {n : Nat}
    {d : Datagram} {nowMs : UInt64} {sent : Bool} (hevent : run n = .datagram d nowMs sent) {s : Send}
    (hs : s ∈ (handleClientPacket (stateAt step start run n) d.packet d.src nowMs sent).2)
    (hreply : ∀ id, s.cause ≠ .forward id) :
    DR_DNS_HEADER_SIZE ≤ d.packet.length ∧ s.cause = .answer ∧ s.dst = d.src ∧
      ReplyTo upstream rules start run n d.packet s.packet := by
  have htable : (stateAt step start run n).localTable = start.localTable :=
    (settings_stateAt start run n).table
  rw [handleClientPacket_demand] at hs
  cases hdemand : demand d.packet with
  | nothing =>
    rw [hdemand] at hs
    cases hs
  | malformed rcode =>
    rw [hdemand] at hs
    obtain ⟨hcause, hdst, _, herror⟩ := mem_respondWithError hs
    obtain ⟨hheader, hrcode⟩ := demand_malformed hdemand
    exact ⟨hheader, hcause, hdst, .failed (hrcode.imp_right Or.inl) herror⟩
  | question parsed =>
    rw [hdemand] at hs
    have haccepted := demand_question hdemand
    have houtcome : ClientOutcome (stateAt step start run n) d.packet d.src nowMs sent
        (handleQuery (stateAt step start run n) d.packet parsed d.src nowMs sent) :=
      handleQuery_outcome d.src nowMs sent haccepted
    dsimp only at hs
    generalize handleQuery (stateAt step start run n) d.packet parsed d.src nowMs sent = r
      at hs houtcome
    have hsilent {parsed' : DrParsedQuery}
        (hnone : answerFromTable (stateAt step start run n) d.packet parsed' d.src sent = none) :
        ruling rules (askedQuestion parsed') = .silent := by
      have hremote := answerFromTable_eq_none_iff.mp hnone
      rw [htable] at hremote
      exact ruling_of_remote hrules httl hremote
    cases houtcome with
    | ignored => cases hs
    | rejected _ _ hnot => exact absurd haccepted (hnot parsed)
    | refused haccepted' =>
      obtain ⟨hcause, hdst, _, herror⟩ := mem_respondWithError hs
      exact ⟨haccepted.header, hcause, hdst, .failed (Or.inr (Or.inr (Or.inl rfl))) herror⟩
    | forwarded =>
      rw [List.mem_singleton.mp hs] at hreply
      exact absurd rfl (hreply _)
    | unsent =>
      rw [List.mem_singleton.mp hs] at hreply
      exact absurd rfl (hreply _)
    | @cached parsed' cache answer haccepted' hnone hhit =>
      rw [List.mem_singleton.mp hs]
      have hnow : nowMs = (run n).nowMs := by
        rw [hevent]
        rfl
      rw [hnow] at hhit
      exact ⟨haccepted.header, rfl, rfl,
        replyTo_of_hit hclosed hfresh.cached haccepted' (hsilent hnone) hhit⟩
    | @fromTable parsed' sends haccepted' hsome =>
      obtain ⟨hcause, hdst, hreplyTo⟩ :=
        replyTo_of_table (htable ▸ hrules) (htable ▸ httl) haccepted' hsome hs
      exact ⟨haccepted.header, hcause, hdst, hreplyTo⟩

theorem accounted_of_tick (hfresh : Fresh start) {n k : Nat} {s : Send}
    (hs : (outputAt step start run n)[k]? = some s) {nowMs : UInt64} {sents : Nat → Bool}
    (hevent : run n = .tick nowMs sents) : Accounted upstream rules start run n k s := by
  have hmem := List.mem_of_getElem? hs
  obtain ⟨ids, _, hids, _, _, hsends⟩ := expireAll_spec (stateAt step start run n) nowMs sents
  rw [outputAt, hevent, step, hsends] at hmem
  obtain ⟨id, hid, ok, hmem⟩ := mem_timeoutSends 0 hmem
  have hactive := active_of_overdue ((hids id).mp hid)
  obtain ⟨m, hheld⟩ :=
    (slot_occupancy hfresh id).heldSince (drPendingMapGet_eq_some.mpr ⟨hactive, rfl⟩)
  obtain ⟨d, queryMs, parsed, hquery, hentered, haccepted, _⟩ := query_of_held hheld
  obtain ⟨hcause, hdst, _, herror⟩ := mem_respondWithError hmem
  rw [hentered.queryPacket] at herror
  rw [hentered.upstreamId] at hcause
  refine ⟨m, d, queryMs, true, hheld.before.le, hquery, haccepted.header,
    hdst.trans hentered.clientAddr, ⟨s, hs, Or.inr ⟨id, _, ?_, hheld⟩⟩,
    .failed (Or.inr (Or.inr (Or.inr rfl))) herror⟩
  rw [hcause]
  rfl

theorem accounted_of_authentic (hclosed : ClosedRun upstream start run) (hfresh : Fresh start)
    (hrules : Loaded start.localTable rules) (httl : TtlSet start.localTable) {n k : Nat} {s : Send}
    (hs : (outputAt step start run n)[k]? = some s) {d : Datagram} {nowMs : UInt64} {sent : Bool}
    (hevent : run n = .datagram d nowMs sent) {request : DrPendingRequest}
    {responseQuery : DrParsedQuery}
    (hauthentic : Authentic (stateAt step start run n) d request responseQuery) :
    Accounted upstream rules start run n k s := by
  have hmem := List.mem_of_getElem? hs
  obtain ⟨m, hheld⟩ := (slot_occupancy hfresh (drDnsReadId d.packet)).heldSince
    (n := n) hauthentic.answers.pending
  obtain ⟨query, queryMs, parsed, hquery, hentered, haccepted, hremote, hquestion⟩ :=
    query_of_held hheld
  have hresolved := resolved_of_authentic hclosed hevent hauthentic
  rw [hquestion] at hresolved
  rw [outputAt, hevent, step, receive_of_authentic hauthentic, List.mem_singleton] at hmem
  subst hmem
  refine ⟨m, query, queryMs, true, hheld.before.le, hquery, haccepted.header, hentered.clientAddr,
    ⟨_, hs, Or.inr ⟨_, request, rfl, hheld⟩⟩, ?_⟩
  exact .relayed haccepted (ruling_of_remote hrules httl hremote) hresolved (by rw [hentered.clientId])

/-- Every reply belongs to a query, and is one of the replies it may get. -/
theorem reply_accounted (hclosed : ClosedRun upstream start run) (hfresh : Fresh start)
    (hrules : Loaded start.localTable rules) (httl : TtlSet start.localTable) {n k : Nat} {s : Send}
    (hs : (outputAt step start run n)[k]? = some s) (hreply : ∀ id, s.cause ≠ .forward id) :
    Accounted upstream rules start run n k s := by
  cases hevent : run n with
  | tick nowMs sents => exact accounted_of_tick hfresh hs hevent
  | datagram d nowMs sent =>
    by_cases hauthentic : ∃ request responseQuery,
        Authentic (stateAt step start run n) d request responseQuery
    · obtain ⟨request, responseQuery, hauthentic⟩ := hauthentic
      exact accounted_of_authentic hclosed hfresh hrules httl hs hevent hauthentic
    · have hmem := List.mem_of_getElem? hs
      rw [outputAt, hevent, step] at hmem
      have hclient : s ∈ (handleClientPacket (stateAt step start run n) d.packet d.src nowMs sent).2 := by
        rcases receive_outcome (stateAt step start run n) d nowMs sent with
          ⟨hdispatch, houtcome⟩ | ⟨hdispatch, _⟩
        · -- an upstream response that answers no request is dropped
          generalize receive (stateAt step start run n) d nowMs sent = r at hmem houtcome
          obtain ⟨_, hresponse, hsource⟩ := (isUpstreamResponse_iff _ d).mp hdispatch
          cases houtcome with
          | ignored => cases hmem
          | relayed hmatches => exact absurd ⟨_, _, hsource, hresponse, hmatches⟩ hauthentic
        · rw [receive, hdispatch] at hmem
          exact hmem
      obtain ⟨hheader, hcause, hdst, hreplyTo⟩ :=
        replyTo_of_client hclosed hfresh hrules httl hevent hclient hreply
      exact ⟨n, d, nowMs, sent, le_refl n, hevent, hheader, hdst, ⟨s, hs, Or.inl ⟨hcause, rfl⟩⟩,
        hreplyTo⟩

end Run

/-- A server that answers two queries. -/
def letterUpstream : Upstream where
  resolves query answer :=
    (query = drDnsWriteId (letterQuery 0x61).packet 1 ∧ answer = (letterAnswer 1 0x61).packet) ∨
      (query = drDnsWriteId (letterQuery 0x62).packet 2 ∧ answer = (letterAnswer 2 0x62).packet)
  echoes {_ _ parsed} h hparse := by
    have hanswers : drDnsParseQuery (letterAnswer 1 0x61).packet =
          .ok ⟨1, 0x8180, 1, 1, 0, 1, 0x61 :: List.replicate 255 0, 19⟩ ∧
        drDnsParseQuery (letterAnswer 2 0x62).packet =
          .ok ⟨2, 0x8180, 1, 1, 0, 1, 0x62 :: List.replicate 255 0, 19⟩ := by decide +kernel
    rcases h with ⟨rfl, rfl⟩ | ⟨rfl, rfl⟩
    · cases hanswers.1.symm.trans hparse
      exact ⟨⟨1, 0x0100, 1, 1, 0, 0, 0x61 :: List.replicate 255 0, 19⟩, by decide +kernel, rfl⟩
    · cases hanswers.2.symm.trans hparse
      exact ⟨⟨2, 0x0100, 1, 1, 0, 0, 0x62 :: List.replicate 255 0, 19⟩, by decide +kernel, rfl⟩

theorem closedRun_busyRun : ClosedRun letterUpstream busyStart busyRun := by
  have hforwards : Send.mk (.forward 1) (drDnsWriteId (letterQuery 0x61).packet 1)
        [2, 0, 0, 53, 8, 8, 8, 8] true ∈ outputAt step busyStart busyRun 0 ∧
      Send.mk (.forward 2) (drDnsWriteId (letterQuery 0x62).packet 2)
        [2, 0, 0, 53, 8, 8, 8, 8] true ∈ outputAt step busyStart busyRun 2 := by decide +kernel
  intro j d nowMs sent hevent hresponse
  rcases j with _ | _ | _ | _ | k <;> cases hevent
  · exact absurd hresponse (by decide +kernel)
  · exact ⟨_, ⟨_, _, _, rfl, rfl⟩, 0, _, 1, by decide, hforwards.1, rfl, rfl, rfl, Or.inl ⟨rfl, rfl⟩⟩
  · exact absurd hresponse (by decide +kernel)
  · exact ⟨_, ⟨_, _, _, rfl, rfl⟩, 2, _, 2, by decide, hforwards.2, rfl, rfl, rfl, Or.inr ⟨rfl, rfl⟩⟩
  · exact absurd hresponse (by decide +kernel)

end DnsRelay.Relay
