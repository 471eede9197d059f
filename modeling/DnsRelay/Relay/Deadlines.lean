import DnsRelay.Relay.PendingFate
import DnsRelay.Relay.Refinement

/-!
# When a forwarded query is answered

The first tick at or after a request's deadline ends its wait. Before that tick only a
response from the upstream server does, and the tick itself answers SERVFAIL. All that
is asked of the clock is that it does not fall behind the reading of the forward.
-/
namespace DnsRelay.Relay

open DnsRelay.Foundation
open DnsRelay.Wire
open DnsRelay.Store

section Run

variable {start : DrServer} {run : Nat → Event}

/-- Event `n` is a tick at or after the deadline. -/
def DueTick (run : Nat → Event) (deadline n : Nat) : Prop :=
  ∃ nowMs sents, run n = .tick nowMs sents ∧ deadline ≤ nowMs.toNat

/-- Sending a forward starts the wait, at the clock reading of its event. -/
theorem waits_of_forward (hfresh : Fresh start) {m : Nat} {id : UInt16} {s : Send}
    (hs : s ∈ outputAt step start run m) (hcause : s.cause = .forward id) (hsent : s.sent = true) :
    ∃ d parsed, run m = .datagram d (run m).nowMs true ∧ Accepted d.packet parsed ∧
      pendingAt start run id m = none ∧ pendingAt start run id (m + 1) =
        some ((pendingQuery d.packet parsed d.src (run m).nowMs).request id) := by
  obtain ⟨d, nowMs, hevent, _, _, hforwarded⟩ := forwarded_of_mem hfresh hs hcause
  rw [hsent] at hevent hforwarded
  obtain ⟨parsed, hentered, hrequest⟩ := hforwarded.entered
  have hnow : (run m).nowMs = nowMs := by
    rw [hevent]
    rfl
  have hslot := hrequest rfl
  refine ⟨d, parsed, hnow ▸ hevent, hentered.accepted, drPendingMapGet_eq_none.mpr hentered.free, ?_⟩
  rw [hnow]
  refine drPendingMapGet_eq_some.mpr ⟨?_, hslot⟩
  rw [stateAt, hslot]
  rfl

theorem enteredBy_request {d : Datagram} {parsed : DrParsedQuery} (h : Accepted d.packet parsed)
    (nowMs : UInt64) (id : UInt16) :
    EnteredBy d id ((pendingQuery d.packet parsed d.src nowMs).request id) :=
  ⟨h.query, h.id, rfl, rfl, rfl⟩

/-- A tick leaves no request whose deadline it has reached. -/
theorem not_pending_after_dueTick {n : Nat} {id : UInt16} {request : DrPendingRequest}
    (hclock : request.startedMs ≤ (run n).nowMs)
    (hdue : DueTick run (request.startedMs.toNat + start.upstreamTimeoutMs.toNat) n)
    (hpending : pendingAt start run id n = some request) : pendingAt start run id (n + 1) = none := by
  obtain ⟨nowMs, sents, hevent, hreached⟩ := hdue
  obtain ⟨hactive, hslot⟩ := drPendingMapGet_eq_some.mp hpending
  have hnow : request.startedMs ≤ nowMs := by
    rw [hevent] at hclock
    exact hclock
  have hover : ((stateAt step start run n).pendingMap.slots id).overdue nowMs
      (stateAt step start run n).upstreamTimeoutMs = true := by
    rw [(settings_stateAt start run n).timeout, hslot]
    exact (overdue_iff_due _ (fun _ => hnow)).mpr ⟨hslot ▸ hactive, hreached⟩
  obtain ⟨ids, _, hmem, hslots, _⟩ := expireAll_spec (stateAt step start run n) nowMs sents
  rw [pendingAt, stateAt, hevent, step, drPendingMapGet_eq_none, hslots, if_pos ((hmem id).mpr hover)]
  rfl

/-- Only a tick that has reached the deadline gives a request up. -/
theorem dueTick_of_timedOut {n : Nat} {id : UInt16} {request : DrPendingRequest}
    (hclock : request.startedMs ≤ (run n).nowMs) (h : TimedOutAt start run n id request) :
    DueTick run (request.startedMs.toNat + start.upstreamTimeoutMs.toNat) n := by
  obtain ⟨nowMs, sents, _, hevent, hover, _⟩ := h
  rw [hevent] at hclock
  exact ⟨nowMs, sents, hevent, ((overdue_iff_due _ (fun _ => hclock)).mp hover).2⟩

/-- A request that is pending when its answer comes is relayed. -/
theorem relayedAt_of_pending {n : Nat} {id : UInt16} {d : Datagram} {nowMs : UInt64} {sent : Bool}
    {request : DrPendingRequest} {responseQuery : DrParsedQuery} (hevent : run n = .datagram d nowMs sent)
    (hsource : drSockaddrEqual d.src start.upstreamAddr = true)
    (hresponse : u16At d.packet 2 &&& 0x8000 ≠ 0) (hid : drDnsReadId d.packet = id)
    (hparse : drDnsParseQuery d.packet = .ok responseQuery)
    (hasked : askedQuestion responseQuery = (request.qname, request.qtype, request.qclass))
    (hpending : pendingAt start run id n = some request) : RelayedAt start run n id request := by
  obtain ⟨hqname, hkind⟩ := Prod.mk.inj hasked
  obtain ⟨hqtype, hqclass⟩ := Prod.mk.inj hkind
  have hauthentic : Authentic (stateAt step start run n) d request responseQuery := by
    refine ⟨?_, hresponse, ?_, hparse, hqname, hqtype, hqclass⟩
    · rw [(settings_stateAt start run n).upstream]
      exact hsource
    · rw [hid]
      exact hpending
  refine ⟨d, nowMs, sent, responseQuery, hevent, hauthentic, hid, ?_⟩
  rw [outputAt, hevent, step, receive_of_authentic hauthentic, hid]

/-- Every query whose forward was sent stops waiting no later than at the first tick that reaches its
deadline: a response from the upstream server was relayed to the client before that tick, or that
tick, and no earlier one, gives the query up. -/
theorem ended_by_deadline (hfresh : Fresh start) {m n : Nat} {id : UInt16} {s : Send}
    (hs : s ∈ outputAt step start run m) (hcause : s.cause = .forward id) (hsent : s.sent = true)
    (hlater : m < n) (hclock : ∀ j, m < j → j ≤ n → (run m).nowMs ≤ (run j).nowMs)
    (hdue : DueTick run ((run m).nowMs.toNat + start.upstreamTimeoutMs.toNat) n)
    (hfirst : ∀ j, m < j → j < n →
      ¬ DueTick run ((run m).nowMs.toNat + start.upstreamTimeoutMs.toNat) j) :
    ∃ d request k, run m = .datagram d (run m).nowMs true ∧ EnteredBy d id request ∧
      TakenOut (pendingAt start run id) m k request ∧
      (k < n ∧ RelayedAt start run k id request ∨ k = n ∧ TimedOutAt start run n id request) := by
  obtain ⟨d, parsed, hevent, haccepted, hput, hwaits⟩ := waits_of_forward hfresh hs hcause hsent
  have hentered := enteredBy_request haccepted (run m).nowMs id
  have hgone (hpending : pendingAt start run id n =
      some ((pendingQuery d.packet parsed d.src (run m).nowMs).request id)) :
      pendingAt start run id (n + 1) = none :=
    not_pending_after_dueTick (hclock n hlater (le_refl n)) hdue hpending
  rcases fate_of_entered hfresh hput hwaits with hstays | ⟨k, htaken, _, hfate⟩
  · have hstill := hstays (n + 1) (Nat.lt_succ_of_lt hlater)
    rw [hgone (hstays n hlater)] at hstill
    cases hstill
  · have hle : k ≤ n := by
      by_contra hlt
      have hstill := htaken.held.held (n + 1) (by omega) (by omega)
      rw [hgone (htaken.held.held n hlater (by omega))] at hstill
      cases hstill
    refine ⟨d, _, k, hevent, hentered, htaken, ?_⟩
    rcases hfate with hrelayed | htimedOut
    · refine Or.inl ⟨lt_of_le_of_ne hle ?_, hrelayed⟩
      rintro rfl
      obtain ⟨_, _, _, _, hdatagram, _⟩ := hrelayed
      obtain ⟨_, _, htick, _⟩ := hdue
      cases hdatagram.symm.trans htick
    · have hkn : k = n := by
        by_contra hne
        refine hfirst k htaken.held.before (lt_of_le_of_ne hle hne) ?_
        exact dueTick_of_timedOut (hclock k htaken.held.before hle) htimedOut
      exact Or.inr ⟨hkn, hkn ▸ htimedOut⟩

end Run

/-- A response from the upstream server that comes under the ID of a forwarded query, with its
question, and before a tick reaches the deadline, is in time: the client has been relayed a response
by then, whatever else the relay has received since. -/
theorem relayed_in_time (timeoutMs : UInt32) (upstream : Sockaddr) (table : DrLocalTable)
    (capacity : Nat) (run : Nat → Event) {m k : Nat} {id : UInt16} {s : Send} {query reply : Datagram}
    {queryMs replyMs : UInt64} {sent : Bool} {asked responseQuery : DrParsedQuery}
    (hs : s ∈ outputAt step (drServerStart timeoutMs upstream table capacity) run m)
    (hcause : s.cause = .forward id) (hsent : s.sent = true)
    (hquery : run m = .datagram query queryMs true) (hasked : drDnsParseQuery query.packet = .ok asked)
    (hlater : m < k) (hreply : run k = .datagram reply replyMs sent)
    (hsource : drSockaddrEqual reply.src upstream = true)
    (hresponse : u16At reply.packet 2 &&& 0x8000 ≠ 0) (hid : drDnsReadId reply.packet = id)
    (hparse : drDnsParseQuery reply.packet = .ok responseQuery)
    (hsame : askedQuestion responseQuery = askedQuestion asked)
    (hclock : ∀ j, m < j → j < k → queryMs ≤ (run j).nowMs)
    (hintime : ∀ j, m < j → j < k → ¬ DueTick run (queryMs.toNat + timeoutMs.toNat) j) :
    ∃ request j, EnteredBy query id request ∧ m < j ∧ j ≤ k ∧
      RelayedAt (drServerStart timeoutMs upstream table capacity) run j id request := by
  have hfresh := fresh_start timeoutMs upstream table capacity
  obtain ⟨d, parsed, hevent, haccepted, hput, hwaits⟩ := waits_of_forward hfresh hs hcause hsent
  cases hquery.symm.trans hevent
  cases hasked.symm.trans haccepted.parses
  have hentered := enteredBy_request haccepted (run m).nowMs id
  have hname : (pendingQuery query.packet asked query.src (run m).nowMs).qname.truncate
      DR_DNS_MAX_DOMAIN_LEN = cstr asked.qname :=
    CString.truncate_of_le (length_cstr_qname haccepted.parses)
  -- the question of the request is the one that was asked
  have hwanted : askedQuestion responseQuery =
      (((pendingQuery query.packet asked query.src (run m).nowMs).request id).qname,
        asked.qtype, asked.qclass) := by
    rw [hsame, PendingQuery.request, hname]
    rfl
  rcases fate_of_entered hfresh hput hwaits with hstays | ⟨j, htaken, _, hfate⟩
  · exact ⟨_, k, hentered, hlater, le_refl k,
      relayedAt_of_pending hreply hsource hresponse hid hparse hwanted (hstays k hlater)⟩
  · have hafter := htaken.held.before
    rcases Nat.lt_or_ge j k with hlt | hge
    · rcases hfate with hrelayed | htimedOut
      · exact ⟨_, j, hentered, hafter, hlt.le, hrelayed⟩
      · exact absurd (dueTick_of_timedOut (hclock j hafter hlt) htimedOut) (hintime j hafter hlt)
    · exact ⟨_, k, hentered, hlater, le_refl k, relayedAt_of_pending hreply hsource hresponse hid
        hparse hwanted (htaken.held.held k hlater hge)⟩

/-- The answer is in time, and comes behind the same answer from another address. -/
def contestedRun : Nat → Event
  | 0 => .datagram (letterQuery 0x61) 0 true
  | 1 => .datagram { letterAnswer 1 0x61 with src := [2, 0, 0, 53, 8, 8, 8, 9] } 20 true
  | 2 => .tick 4999 (fun _ => true)
  | _ + 3 => .datagram (letterAnswer 1 0x61) 4999 true

theorem relayed_in_time_contestedRun :
    ∃ request j, j ≤ 3 ∧ RelayedAt busyStart contestedRun j 1 request := by
  have hforward : Send.mk (.forward 1) (drDnsWriteId (letterQuery 0x61).packet 1)
      [2, 0, 0, 53, 8, 8, 8, 8] true ∈ outputAt step busyStart contestedRun 0 := by
    decide +kernel
  have hclock : ∀ j, 0 < j → j < 3 → (0 : UInt64) ≤ (contestedRun j).nowMs :=
    fun j _ _ => UInt64.le_iff_toNat_le.mpr (Nat.zero_le _)
  have hintime : ∀ j, 0 < j → j < 3 →
      ¬ DueTick contestedRun ((0 : UInt64).toNat + (5000 : UInt32).toNat) j := by
    rintro j hpos hlt ⟨nowMs, _, htick, hreached⟩
    obtain rfl | rfl : j = 1 ∨ j = 2 := by omega
    · cases htick
    · cases htick
      revert hreached
      decide
  have hasked : drDnsParseQuery (letterQuery 0x61).packet =
      .ok ⟨7, 0x0100, 1, 1, 0, 0, 0x61 :: List.replicate 255 0, 19⟩ := by decide +kernel
  have hparse : drDnsParseQuery (letterAnswer 1 0x61).packet =
      .ok ⟨1, 0x8180, 1, 1, 0, 1, 0x61 :: List.replicate 255 0, 19⟩ := by decide +kernel
  have hreply : contestedRun 3 = .datagram (letterAnswer 1 0x61) 4999 true := rfl
  obtain ⟨request, j, _, _, hle, hrelayed⟩ :=
    relayed_in_time 5000 [2, 0, 0, 53, 8, 8, 8, 8] .zero 2 contestedRun hforward rfl rfl rfl hasked
      (by decide) hreply (by decide +kernel) (by decide +kernel) (by decide +kernel) hparse rfl hclock
      hintime
  exact ⟨request, j, hle, hrelayed⟩

end DnsRelay.Relay
