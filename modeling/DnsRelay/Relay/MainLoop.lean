import DnsRelay.Relay.Answerable
import DnsRelay.Relay.Deadlines
import DnsRelay.Relay.Transparency

/-!
# The main loop

One turn of the loop in `dr_server_run`, given what `select`, the clock and the socket
answer, and what a run of turns promises. The timeouts are looked at after every wait, so
a query is answered as soon as the loop wakes up after its deadline: how late that is
depends on how long the loop sleeps and works between two readings of the clock.
-/
namespace DnsRelay.Relay

open DnsRelay.Foundation
open DnsRelay.Wire
open DnsRelay.Store

structure Timeval where
  tvSec : Int64
  tvUsec : Int64

def drNowMs (tv : Timeval) : UInt64 := tv.tvSec.toUInt64 * 1000 + tv.tvUsec.toUInt64 / 1000

/-- What the platform answers in one turn: `select`, the clock behind it, the sends of the timeouts,
`recvfrom` (`none` when it fails), the clock behind that, and the send of the reply. -/
structure Turn where
  ready : Int
  woken : Timeval
  timeoutSent : Nat → Bool
  received : Option (Sockaddr × Bytes)
  receivedAt : Timeval
  sent : Bool

/-- The datagram of a turn. An empty one is dropped like a failure. -/
def Turn.datagram (turn : Turn) : Option Datagram :=
  if turn.ready ≤ 0 then none else turn.received.bind (fun r => recvfrom r.1 r.2)

/-- The body of `for (;;)`: the server, the packets sent, and the exit status if it breaks. -/
def takeTurn (server : DrServer) (turn : Turn) : DrServer × List Send × Option Nat :=
  let nowMs := drNowMs turn.woken
  let (server, expired) := expireAll server nowMs turn.timeoutSent
  if turn.ready < 0 then (server, expired, some 1)
  else if turn.ready = 0 then (server, expired, none)
  else
    match turn.received.bind (fun r => recvfrom r.1 r.2) with
    | none => (server, expired, none)
    | some d =>
      let nowMs := drNowMs turn.receivedAt
      let (server, sends) := receive server d nowMs turn.sent
      (server, expired ++ sends, none)

/-- The turns of `for (;;)` from turn `i` on, `fuel` of them: the exit status, if one of them breaks,
and what was sent. -/
def mainLoop (turns : Nat → Turn) : Nat → Nat → DrServer → Option Nat × List Send
  | 0, _, _ => (none, [])
  | fuel + 1, i, server =>
    match takeTurn server (turns i) with
    | (_, sends, some status) => (some status, sends)
    | (server, sends, none) =>
      let (status, rest) := mainLoop turns fuel (i + 1) server
      (status, sends ++ rest)

/-- A datagram of one octet; the relay does nothing about it. -/
def silence : Datagram where
  src := []
  packet := [0]
  received_pos := by decide
  received_le := by decide

theorem receive_silence (server : DrServer) (nowMs : UInt64) (sent : Bool) :
    receive server silence nowMs sent = (server, []) := rfl

def Turn.tick (turn : Turn) : Event := .tick (drNowMs turn.woken) turn.timeoutSent

/-- The event behind the tick. -/
def Turn.arrival (turn : Turn) : Event :=
  match turn.datagram with
  | some d => .datagram d (drNowMs turn.receivedAt) turn.sent
  | none => .datagram silence (drNowMs turn.woken) turn.sent

/-- A turn is a tick and what arrives behind it; it ends the loop where `select` fails. -/
theorem takeTurn_eq (server : DrServer) (turn : Turn) :
    takeTurn server turn =
      ((step (step server turn.tick).1 turn.arrival).1,
        (step server turn.tick).2 ++ (step (step server turn.tick).1 turn.arrival).2,
        if turn.ready < 0 then some 1 else none) := by
  rw [takeTurn, Turn.arrival, Turn.datagram, Turn.tick]
  dsimp only [step]
  by_cases hready : turn.ready ≤ 0
  · rw [if_pos hready]
    dsimp only
    rw [receive_silence, List.append_nil]
    split
    · rfl
    · next hon =>
      rw [if_pos (le_antisymm hready (not_lt.mp hon))]
  · have hon : ¬ turn.ready < 0 := fun hlt => hready hlt.le
    have hsome : ¬ turn.ready = 0 := fun heq => hready heq.le
    rw [if_neg hready, if_neg hon, if_neg hsome]
    cases turn.received.bind (fun r => recvfrom r.1 r.2) with
    | none =>
      dsimp only
      rw [receive_silence, List.append_nil, if_neg hon]
    | some d =>
      rw [if_neg hon]

/-- Two events for each turn. -/
def eventsOf (turns : Nat → Turn) (n : Nat) : Event :=
  if n % 2 = 0 then (turns (n / 2)).tick else (turns (n / 2)).arrival

theorem eventsOf_even (turns : Nat → Turn) (i : Nat) : eventsOf turns (2 * i) = (turns i).tick := by
  rw [eventsOf, if_pos (by omega), show 2 * i / 2 = i by omega]

theorem eventsOf_odd (turns : Nat → Turn) (i : Nat) :
    eventsOf turns (2 * i + 1) = (turns i).arrival := by
  rw [eventsOf, if_neg (by omega), show (2 * i + 1) / 2 = i by omega]

section Run

variable {start : DrServer} {turns : Nat → Turn} {last : Nat}

/-- In front of each turn the loop is where its events lead. -/
theorem stateAt_eventsOf (i : Nat) :
    stateAt takeTurn start turns i = stateAt step start (eventsOf turns) (2 * i) := by
  induction i with
  | zero => rfl
  | succ i ih =>
    rw [stateAt, ih, takeTurn_eq, show 2 * (i + 1) = 2 * i + 1 + 1 by omega, stateAt, stateAt,
      eventsOf_even, eventsOf_odd]

theorem outputAt_eventsOf (i : Nat) :
    outputAt takeTurn start turns i =
      (outputAt step start (eventsOf turns) (2 * i) ++
        outputAt step start (eventsOf turns) (2 * i + 1),
        if (turns i).ready < 0 then some 1 else none) := by
  rw [outputAt, stateAt_eventsOf, takeTurn_eq, outputAt, outputAt, stateAt, eventsOf_even,
    eventsOf_odd]

/-- What is sent in `count` turns from turn `i` on. -/
def sentIn (start : DrServer) (turns : Nat → Turn) (i count : Nat) : List Send :=
  (List.range' i count).flatMap (fun j => (outputAt takeTurn start turns j).1)

theorem sentIn_succ (start : DrServer) (turns : Nat → Turn) (i count : Nat) :
    sentIn start turns i (count + 1) =
      (outputAt takeTurn start turns i).1 ++ sentIn start turns (i + 1) count := by
  rw [sentIn, List.range'_succ, List.flatMap_cons, sentIn]

theorem mem_sentIn {i count : Nat} {s : Send} (h : s ∈ sentIn start turns i count) :
    ∃ j, i ≤ j ∧ j < i + count ∧ s ∈ (outputAt takeTurn start turns j).1 := by
  obtain ⟨j, hj, hs⟩ := List.mem_flatMap.mp h
  obtain ⟨hlow, hhigh⟩ := List.mem_range'_1.mp hj
  exact ⟨j, hlow, hhigh, hs⟩

/-- The loop goes on up to the first turn in which `select` fails. -/
theorem mainLoop_cases (start : DrServer) (turns : Nat → Turn) (fuel : Nat) : ∀ i,
    (∀ j, i ≤ j → j < i + fuel → 0 ≤ (turns j).ready) ∧
        mainLoop turns fuel i (stateAt takeTurn start turns i) = (none, sentIn start turns i fuel) ∨
      ∃ k, k < fuel ∧ (turns (i + k)).ready < 0 ∧
        mainLoop turns fuel i (stateAt takeTurn start turns i) =
          (some 1, sentIn start turns i (k + 1)) := by
  induction fuel with
  | zero => exact fun i => Or.inl ⟨fun j hlow hhigh => by omega, rfl⟩
  | succ fuel ih =>
    intro i
    have hturn : takeTurn (stateAt takeTurn start turns i) (turns i) =
        (stateAt takeTurn start turns (i + 1), (outputAt takeTurn start turns i).1,
          if (turns i).ready < 0 then some 1 else none) := by
      rw [stateAt, outputAt, takeTurn_eq]
    rw [mainLoop, hturn]
    by_cases hoff : (turns i).ready < 0
    · refine Or.inr ⟨0, Nat.succ_pos fuel, hoff, ?_⟩
      rw [if_pos hoff, sentIn_succ]
      exact congrArg (Prod.mk _) (List.append_nil _).symm
    rw [if_neg hoff]
    rcases ih (i + 1) with ⟨hon, hloop⟩ | ⟨k, hk, hend, hloop⟩
    · refine Or.inl ⟨fun j hlow hhigh => ?_, ?_⟩
      · rcases Nat.eq_or_lt_of_le hlow with rfl | hlt
        · exact not_lt.mp hoff
        · exact hon j hlt (by omega)
      · rw [sentIn_succ]
        simp only [hloop]
    · refine Or.inr ⟨k + 1, by omega, ?_, ?_⟩
      · rw [show i + (k + 1) = i + 1 + k by omega]
        exact hend
      · rw [sentIn_succ]
        simp only [hloop]

/-- A datagram event at an odd place is what the turn received, or the silent one. -/
theorem datagram_of_eventsOf {m : Nat} {d : Datagram} {nowMs : UInt64} {sent : Bool}
    (h : eventsOf turns m = .datagram d nowMs sent) : ∃ i, m = 2 * i + 1 ∧
      ((turns i).datagram = some d ∧ nowMs = drNowMs (turns i).receivedAt ∧ sent = (turns i).sent ∨
        d = silence) := by
  rcases Nat.even_or_odd' m with ⟨i, rfl | rfl⟩
  · rw [eventsOf_even] at h
    cases h
  · refine ⟨i, rfl, ?_⟩
    rw [eventsOf_odd, Turn.arrival] at h
    split at h
    · next hdatagram =>
      cases h
      exact Or.inl ⟨hdatagram, rfl, rfl⟩
    · cases h
      exact Or.inr rfl

/-- The readings of the clock from turn `first` to turn `last` do not go back. -/
def ClockRuns (turns : Nat → Turn) (first last : Nat) : Prop :=
  ∀ i, first ≤ i → i < last → drNowMs (turns i).woken ≤ drNowMs (turns i).receivedAt ∧
    drNowMs (turns i).receivedAt ≤ drNowMs (turns (i + 1)).woken

theorem ClockRuns.woken {first : Nat} (h : ClockRuns turns first last) {i j : Nat} (hi : first ≤ i)
    (hij : i < j) (hj : j ≤ last) : drNowMs (turns i).receivedAt ≤ drNowMs (turns j).woken := by
  induction j, hij using Nat.le_induction with
  | base => exact (h i hi (by omega)).2
  | succ j hij ih =>
    obtain ⟨hturn, hnext⟩ := h j (by omega) (by omega)
    exact UInt64.le_trans (ih (by omega)) (UInt64.le_trans hturn hnext)

/-- The same readings in front of the events. -/
theorem ClockRuns.events {first : Nat} (h : ClockRuns turns first last) {j : Nat}
    (hlow : 2 * first + 1 < j) (hhigh : j ≤ 2 * last) :
    drNowMs (turns first).receivedAt ≤ (eventsOf turns j).nowMs := by
  rcases Nat.even_or_odd' j with ⟨i, rfl | rfl⟩
  · rw [eventsOf_even]
    exact h.woken (le_refl _) (by omega) (by omega)
  · have hwoken := h.woken (le_refl _) (show first < i by omega) (show i ≤ last by omega)
    rw [eventsOf_odd, Turn.arrival]
    split
    · exact UInt64.le_trans hwoken (h i (by omega) (by omega)).1
    · exact hwoken

theorem dueTick_eventsOf {deadline j : Nat} : DueTick (eventsOf turns) deadline j ↔
    ∃ i, j = 2 * i ∧ deadline ≤ (drNowMs (turns i).woken).toNat := by
  constructor
  · rintro ⟨nowMs, sents, hevent, hdue⟩
    rcases Nat.even_or_odd' j with ⟨i, rfl | rfl⟩
    · rw [eventsOf_even] at hevent
      cases hevent
      exact ⟨i, rfl, hdue⟩
    · rw [eventsOf_odd, Turn.arrival] at hevent
      split at hevent <;> cases hevent
  · rintro ⟨i, rfl, hdue⟩
    exact ⟨_, _, eventsOf_even turns i, hdue⟩

/-- A reading that grows by at most `gap` is first at or behind a deadline within that gap. -/
theorem first_reaching (reading : Nat → Nat) {first deadline gap : Nat} (hlast : first < last)
    (hreached : deadline ≤ reading last) (hfirst : reading first ≤ deadline)
    (hgap : ∀ i, first ≤ i → i < last → reading (i + 1) ≤ reading i + gap) :
    ∃ k, first < k ∧ k ≤ last ∧ deadline ≤ reading k ∧ reading k ≤ deadline + gap ∧
      ∀ j, first < j → j < k → reading j < deadline := by
  have hexists : ∃ k, first < k ∧ k ≤ last ∧ deadline ≤ reading k :=
    ⟨last, hlast, le_refl last, hreached⟩
  obtain ⟨hafter, hle, hdue⟩ := Nat.find_spec hexists
  have hearlier : ∀ j, first < j → j < Nat.find hexists → reading j < deadline := fun j hj hlt =>
    Nat.lt_of_not_le (fun hreach => Nat.find_min hexists hlt ⟨hj, by omega, hreach⟩)
  generalize Nat.find hexists = k at hafter hle hdue hearlier
  refine ⟨k, hafter, hle, hdue, ?_, hearlier⟩
  obtain ⟨j, rfl⟩ : ∃ j, k = j + 1 := ⟨k - 1, by omega⟩
  have hstep := hgap j (by omega) (by omega)
  rcases Nat.lt_or_ge first j with hlt | hge
  · have hbefore := hearlier j hlt (Nat.lt_succ_self j)
    omega
  · obtain rfl : j = first := by omega
    omega

variable {run : Nat → Event}

theorem reply_of_relayed {n : Nat} {id : UInt16} {request : DrPendingRequest} {d : Datagram}
    (hentered : EnteredBy d id request) (h : RelayedAt start run n id request) :
    ∃ reply ∈ outputAt step start run n, reply.dst = d.src ∧
      ResponseTo (drDnsReadId d.packet) reply.packet := by
  obtain ⟨_, _, _, _, _, hauthentic, _, hsends⟩ := h
  rw [hsends]
  refine ⟨_, List.mem_singleton_self _, hentered.clientAddr, ?_⟩
  rw [← hentered.clientId]
  exact responseTo_writeId hauthentic.answers.header hauthentic.response _

theorem reply_of_timedOut {n : Nat} {id : UInt16} {request : DrPendingRequest} {d : Datagram}
    (hheader : DR_DNS_HEADER_SIZE ≤ d.packet.length) (hencodable : Reencodable d.packet)
    (hentered : EnteredBy d id request) (h : TimedOutAt start run n id request) :
    ∃ reply ∈ outputAt step start run n, reply.dst = d.src ∧
      ResponseTo (drDnsReadId d.packet) reply.packet := by
  obtain ⟨_, _, ok, _, _, hsends⟩ := h
  rw [hentered.queryPacket, hentered.clientAddr] at hsends
  have hbuilt := (drDnsBuildErrorResponse_succeeds_iff DR_DNS_RCODE_SERVFAIL hheader d.received_le
    length_response).mpr hencodable
  have hne : respondWithError d.packet DR_DNS_RCODE_SERVFAIL (.timeout id) d.src ok ≠ [] :=
    sendBuilt_ne_nil hbuilt
  obtain ⟨reply, hreply⟩ := List.exists_mem_of_ne_nil _ hne
  obtain ⟨_, hdst, _, herror⟩ := mem_respondWithError hreply
  rw [← hsends] at hreply
  exact ⟨reply, (List.mem_filter.mp hreply).1, hdst, herror.reply⟩

/-- A forward goes out behind the tick of its turn, for what the turn received. -/
theorem datagram_of_forward (hfresh : Fresh start) {i : Nat} {id : UInt16} {s : Send}
    (hs : s ∈ (outputAt takeTurn start turns i).1)
    (hcause : s.cause = .forward id) :
    s ∈ outputAt step start (eventsOf turns) (2 * i + 1) ∧ ∃ d parsed, (turns i).datagram = some d ∧
      eventsOf turns (2 * i + 1) = .datagram d (drNowMs (turns i).receivedAt) s.sent ∧
      Accepted d.packet parsed ∧ s.packet = drDnsWriteId d.packet id := by
  rw [outputAt_eventsOf] at hs
  rcases List.mem_append.mp hs with hs | hs
  · obtain ⟨d, nowMs, hevent, _⟩ := forwarded_of_mem hfresh hs hcause
    rw [eventsOf_even] at hevent
    cases hevent
  · obtain ⟨d, nowMs, hevent, _, hpacket, hforwarded⟩ := forwarded_of_mem hfresh hs hcause
    obtain ⟨j, hj, hreceived⟩ := datagram_of_eventsOf hevent
    obtain rfl : i = j := by omega
    obtain ⟨parsed, hentered, _⟩ := hforwarded.entered
    rcases hreceived with ⟨hdatagram, rfl, hsent⟩ | rfl
    · exact ⟨hs, d, parsed, hdatagram, hevent, hentered.accepted, hpacket⟩
    · exact absurd hentered.accepted.header (by decide)

end Run

/-- As long as the loop runs and its clock is not set back, every query it could forward is answered
no later than the timeout and the longest time between two ticks after it was forwarded: by then a
turn has handed a response for its client to `send_packet`, unless its name does not survive decoding
and a response cannot be built. -/
theorem answered_within (timeoutMs : UInt32) (upstream : Sockaddr) (table : DrLocalTable)
    (capacity : Nat) (turns : Nat → Turn) (gap : Nat) {first last : Nat} {id : UInt16} {s : Send}
    (hclock : ClockRuns turns first last)
    (hgap : ∀ i, first ≤ i → i < last →
      (drNowMs (turns (i + 1)).woken).toNat ≤ (drNowMs (turns i).woken).toNat + gap)
    (hlast : first < last) (hreached : (drNowMs (turns first).receivedAt).toNat + timeoutMs.toNat ≤
      (drNowMs (turns last).woken).toNat)
    (hs : s ∈ (outputAt takeTurn (drServerStart timeoutMs upstream table capacity) turns first).1)
    (hcause : s.cause = .forward id) (hsent : s.sent = true) :
    ∃ d k, (turns first).datagram = some d ∧ s.packet = drDnsWriteId d.packet id ∧
      first < k ∧ k ≤ last ∧ (drNowMs (turns k).woken).toNat ≤
        (drNowMs (turns first).receivedAt).toNat + timeoutMs.toNat + gap ∧
      (Reencodable d.packet →
        ∃ reply ∈ (outputAt takeTurn (drServerStart timeoutMs upstream table capacity) turns k).1,
          reply.dst = d.src ∧ ResponseTo (drDnsReadId d.packet) reply.packet) := by
  have hfresh := fresh_start timeoutMs upstream table capacity
  obtain ⟨hmem, d, parsed, hdatagram, hevent, haccepted, hpacket⟩ :=
    datagram_of_forward hfresh hs hcause
  have hnow : (eventsOf turns (2 * first + 1)).nowMs = drNowMs (turns first).receivedAt := by
    rw [hevent]
    rfl
  have hwoken := UInt64.le_iff_toNat_le.mp (hclock first (le_refl first) hlast).1
  obtain ⟨k, hafter, hle, hdue, hbound, hearlier⟩ :=
    first_reaching (fun i => (drNowMs (turns i).woken).toNat) hlast hreached
      (hwoken.trans (Nat.le_add_right _ _)) hgap
  obtain ⟨d', request, e, hevent', hentered, htaken, hfate⟩ := ended_by_deadline hfresh hmem hcause
    hsent (show 2 * first + 1 < 2 * k by omega)
    (fun j hlow hhigh => by
      rw [hnow]
      exact hclock.events hlow (by omega))
    (by
      rw [hnow]
      exact dueTick_eventsOf.mpr ⟨k, rfl, hdue⟩)
    (fun j hlow hhigh htick => by
      rw [hnow] at htick
      obtain ⟨i, rfl, hreach⟩ := dueTick_eventsOf.mp htick
      exact absurd (hearlier i (by omega) (by omega)) (Nat.not_lt.mpr hreach))
  obtain ⟨rfl, _⟩ := Event.datagram.inj (hevent.symm.trans hevent')
  have hbefore := htaken.held.before
  rcases hfate with ⟨hearly, hrelayed⟩ | ⟨rfl, htimedOut⟩
  · obtain ⟨reply, hreply, hto⟩ := reply_of_relayed hentered hrelayed
    obtain ⟨_, _, _, _, hdatagram', hauthentic, _⟩ := hrelayed
    obtain ⟨i, rfl, _⟩ := datagram_of_eventsOf hdatagram'
    have hearlier' := hearlier i (by omega) (by omega)
    refine ⟨d, i, hdatagram, hpacket, by omega, by omega, by omega, fun _ => ⟨reply, ?_, hto⟩⟩
    rw [outputAt_eventsOf]
    exact List.mem_append_right _ hreply
  · refine ⟨d, k, hdatagram, hpacket, hafter, hle, hbound, fun hencodable => ?_⟩
    obtain ⟨reply, hreply, hto⟩ :=
      reply_of_timedOut haccepted.header hencodable hentered htimedOut
    refine ⟨reply, ?_, hto⟩
    rw [outputAt_eventsOf]
    exact List.mem_append_left _ hreply

/-- A tick without timeouts. -/
theorem expireAll_of_none {server : DrServer} {nowMs : UInt64}
    (h : ∀ id, (server.pendingMap.slots id).overdue nowMs server.upstreamTimeoutMs = false)
    (sent : Nat → Bool) :
    expireAll server nowMs sent = ({ server with cache := drCacheExpire server.cache nowMs }, []) := by
  have hloop : timeoutLoop nowMs server.upstreamTimeoutMs sent DR_PENDING_SLOT_COUNT 0
      server.pendingMap = (server.pendingMap, []) := by
    rw [show DR_PENDING_SLOT_COUNT = 65535 + 1 from rfl, timeoutLoop]
    rcases drPendingMapPopExpired_cases server.pendingMap nowMs server.upstreamTimeoutMs with
      ⟨heq, _⟩ | ⟨id, hover, _⟩
    · rw [heq]
    · rw [h id] at hover
      cases hover
  rw [expireAll, hloop]

/-- The wait of a request is counted from the datagram it came with. -/
theorem startedMs_of_held {start : DrServer} {run : Nat → Event} {id : UInt16} {m n : Nat}
    {request : DrPendingRequest} (h : HeldSince (pendingAt start run id) m n request) :
    request.startedMs = (run m).nowMs := by
  obtain ⟨d, nowMs, hevent, _, hforwarded⟩ := entered_of_held h
  obtain ⟨parsed, _, hslot⟩ := hforwarded.entered
  have hrequest := (drPendingMapGet_eq_some.mp h.first).2
  rw [stateAt, hslot rfl] at hrequest
  rw [← hrequest, hevent]
  rfl

/-- Nothing is overdue less than the timeout behind all that was received. -/
theorem not_overdue_of_recent {start : DrServer} {run : Nat → Event} (hfresh : Fresh start) {n : Nat}
    {nowMs : UInt64} (hrecent : ∀ m < n, nowMs - (run m).nowMs < start.upstreamTimeoutMs.toUInt64)
    (id : UInt16) : ((stateAt step start run n).pendingMap.slots id).overdue nowMs
      (stateAt step start run n).upstreamTimeoutMs = false := by
  by_contra hnot
  have hover := Bool.eq_true_of_not_eq_false hnot
  obtain ⟨m, hheld⟩ := (slot_occupancy hfresh id).heldSince
    (drPendingMapGet_eq_some.mpr ⟨active_of_overdue hover, rfl⟩)
  rw [(settings_stateAt start run n).timeout, DrPendingRequest.overdue, startedMs_of_held hheld] at hover
  have hlong : start.upstreamTimeoutMs.toUInt64 ≤ nowMs - (run m).nowMs :=
    of_decide_eq_true (Bool.and_eq_true_iff.mp hover).2
  exact absurd (hrecent m hheld.before) (UInt64.not_lt.mpr hlong)

/-- A turn without timeouts: the cache expires, then the datagram is received. -/
def quickTurn (server : DrServer) (turn : Turn) : DrServer × List Send :=
  step { server with cache := drCacheExpire server.cache (drNowMs turn.woken) } turn.arrival

section QuickTurns

variable {start : DrServer} {turns : Nat → Turn}

theorem takeTurn_quick (hfresh : Fresh start) {i : Nat} (hrecent : ∀ m < 2 * i,
      drNowMs (turns i).woken - (eventsOf turns m).nowMs < start.upstreamTimeoutMs.toUInt64) :
    takeTurn (stateAt takeTurn start turns i) (turns i) =
      ((quickTurn (stateAt takeTurn start turns i) (turns i)).1,
        (quickTurn (stateAt takeTurn start turns i) (turns i)).2,
        if (turns i).ready < 0 then some 1 else none) := by
  rw [stateAt_eventsOf, takeTurn_eq, Turn.tick, step,
    expireAll_of_none (not_overdue_of_recent hfresh hrecent)]
  rfl

variable {count : Nat} (hfresh : Fresh start) (hrecent : ∀ i < count, ∀ m < 2 * i,
  drNowMs (turns i).woken - (eventsOf turns m).nowMs < start.upstreamTimeoutMs.toUInt64)

include hfresh hrecent

theorem stateAt_quick {i : Nat} (hi : i ≤ count) :
    stateAt takeTurn start turns i = stateAt quickTurn start turns i := by
  induction i with
  | zero => rfl
  | succ i ih => rw [stateAt, takeTurn_quick hfresh (hrecent i hi), ih (by omega), stateAt]

theorem outputAt_quick {i : Nat} (hi : i < count) :
    (outputAt takeTurn start turns i).1 = outputAt quickTurn start turns i := by
  rw [outputAt, takeTurn_quick hfresh (hrecent i hi), stateAt_quick hfresh hrecent hi.le, outputAt]

end QuickTurns

/-- A query at once, then a turn each second without a datagram. -/
def sleepyTurns (i : Nat) : Turn where
  ready := if i = 0 then 1 else 0
  woken := ⟨Int64.ofNat i, 0⟩
  timeoutSent := fun _ => true
  received := some ((letterQuery 0x61).src, (letterQuery 0x61).packet)
  receivedAt := ⟨Int64.ofNat i, 0⟩
  sent := true

theorem answered_within_sleepyTurns : ∃ d k, (sleepyTurns 0).datagram = some d ∧ 0 < k ∧ k ≤ 5 ∧
    (Reencodable d.packet → ∃ reply ∈ (outputAt takeTurn busyStart sleepyTurns k).1,
      reply.dst = d.src ∧ ResponseTo (drDnsReadId d.packet) reply.packet) := by
  have hforward : Send.mk (.forward 1) (drDnsWriteId (letterQuery 0x61).packet 1)
      [2, 0, 0, 53, 8, 8, 8, 8] true ∈ (outputAt takeTurn busyStart sleepyTurns 0).1 := by
    rw [busyStart,
      outputAt_quick (fresh_start _ _ _ _) (fun i hi m hm => by omega) Nat.zero_lt_one]
    decide +kernel
  have hclock : ClockRuns sleepyTurns 0 5 := by
    intro i _ hi
    interval_cases i <;> decide +kernel
  have hgap : ∀ i, 0 ≤ i → i < 5 → (drNowMs (sleepyTurns (i + 1)).woken).toNat ≤
      (drNowMs (sleepyTurns i).woken).toNat + 1000 := by
    intro i _ hi
    interval_cases i <;> decide +kernel
  obtain ⟨d, k, hdatagram, _, hlow, hhigh, _, hreply⟩ :=
    answered_within 5000 [2, 0, 0, 53, 8, 8, 8, 8] .zero 2 sleepyTurns 1000 hclock hgap (by decide)
      (by decide +kernel) hforward rfl rfl
  exact ⟨d, k, hdatagram, hlow, hhigh, hreply⟩

end DnsRelay.Relay
