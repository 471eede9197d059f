import DnsRelay.Relay.Attribution

/-!
# How a pending request ends

A request leaves its slot in one of two events: the datagram that answers it, or the
tick that finds it overdue. With the attribution of replies this settles what becomes
of every query: it is answered at most once, and if it was entered, it is pending until
that answer.
-/
namespace DnsRelay.Relay

open DnsRelay.Foundation
open DnsRelay.Wire
open DnsRelay.Store

theorem filter_respondWithError {packet : Bytes} {rcode : UInt8} {cause : Cause} {dst : Sockaddr}
    {sent : Bool} {c : Cause} : (respondWithError packet rcode cause dst sent).filter
      (fun s => s.cause = c) = if cause = c then respondWithError packet rcode cause dst sent
        else [] := by
  split
  · next heq =>
    refine List.filter_eq_self.mpr (fun s hs => decide_eq_true ?_)
    rw [(mem_respondWithError hs).1, heq]
  · next hne =>
    apply List.filter_eq_nil_iff.mpr
    intro s hs
    rw [(mem_respondWithError hs).1, decide_eq_true_iff]
    exact hne

/-- The answer of a tick to one of the requests it takes out. -/
theorem filter_timeoutSends {slots : UInt16 → DrPendingRequest} (sent : Nat → Bool) {id : UInt16}
    {ids : List UInt16} (hnodup : ids.Nodup) (hindexed : ∀ k ∈ ids, (slots k).upstreamId = k)
    (hid : id ∈ ids) : ∀ expiredCount, ∃ ok,
      (timeoutSends slots sent expiredCount ids).filter (fun s => s.cause = .timeout id) =
        respondWithError (slots id).queryPacket DR_DNS_RCODE_SERVFAIL (.timeout id)
          (slots id).clientAddr ok := by
  induction ids with
  | nil => cases hid
  | cons k ids ih =>
    intro expiredCount
    obtain ⟨hnot, hrest⟩ := List.nodup_cons.mp hnodup
    have hindexed' : ∀ k ∈ ids, (slots k).upstreamId = k :=
      fun k hk => hindexed k (List.mem_cons_of_mem _ hk)
    rw [timeoutSends, List.filter_append, filter_respondWithError, hindexed k List.mem_cons_self]
    by_cases hk : k = id
    · subst hk
      rw [if_pos rfl]
      refine ⟨sent expiredCount, ?_⟩
      -- the requests behind it are pending under other IDs
      have hnone : (timeoutSends slots sent (expiredCount + 1) ids).filter
          (fun s => s.cause = .timeout k) = [] := by
        apply List.filter_eq_nil_iff.mpr
        intro s hs
        obtain ⟨j, hj, ok, hs⟩ := mem_timeoutSends _ hs
        rw [(mem_respondWithError hs).1, hindexed' j hj, decide_eq_true_iff, Cause.timeout.injEq]
        intro heq
        rw [heq] at hj
        exact hnot hj
      rw [hnone, List.append_nil]
    · rw [if_neg (fun heq => hk (Cause.timeout.inj heq)), List.nil_append]
      exact ih hrest hindexed' ((List.mem_cons.mp hid).resolve_left (Ne.symm hk)) _

section Run

variable (start : DrServer) (run : Nat → Event)

/-- Event `n` brings an upstream response under `id` and relays it to the client. -/
def RelayedAt (n : Nat) (id : UInt16) (request : DrPendingRequest) : Prop :=
  ∃ d nowMs sent responseQuery, run n = .datagram d nowMs sent ∧
    Authentic (stateAt step start run n) d request responseQuery ∧ drDnsReadId d.packet = id ∧
    outputAt step start run n = [{ cause := .relay id,
                                   packet := drDnsWriteId d.packet request.clientId,
                                   dst := request.clientAddr, sent }]

/-- Event `n` finds the request overdue and answers it SERVFAIL, if its datagram allows that. -/
def TimedOutAt (n : Nat) (id : UInt16) (request : DrPendingRequest) : Prop :=
  ∃ nowMs sents ok, run n = .tick nowMs sents ∧
    request.overdue nowMs start.upstreamTimeoutMs = true ∧
    (outputAt step start run n).filter (fun s => s.cause = .timeout id) =
      respondWithError request.queryPacket DR_DNS_RCODE_SERVFAIL (.timeout id) request.clientAddr ok

variable {start run}

/-- A request leaves its slot by the relay of a response or by its timeout. -/
theorem relayed_or_timedOut (hfresh : Fresh start) {m n : Nat} {id : UInt16}
    {request : DrPendingRequest} (h : TakenOut (pendingAt start run id) m n request) :
    RelayedAt start run n id request ∨ TimedOutAt start run n id request := by
  obtain ⟨hactive, hslot⟩ := drPendingMapGet_eq_some.mp h.held.content
  have hgone := h.taken
  rw [pendingAt, stateAt, drPendingMapGet_eq_none] at hgone
  cases hevent : run n with
  | tick nowMs sents =>
    rw [hevent, step] at hgone
    obtain ⟨ids, hnodup, hmem, hslots, _, hsends⟩ :=
      expireAll_spec (stateAt step start run n) nowMs sents
    have hid : id ∈ ids := by
      by_contra hnot
      rw [hslots, if_neg hnot, hactive] at hgone
      cases hgone
    obtain ⟨ok, hfilter⟩ := filter_timeoutSends sents hnodup
      (fun k hk => indexed_of_active hfresh (active_of_overdue ((hmem k).mp hk))) hid 0
    have hover := (hmem id).mp hid
    rw [hslot, (settings_stateAt start run n).timeout] at hover
    rw [hslot] at hfilter
    refine Or.inr ⟨nowMs, sents, ok, hevent, hover, ?_⟩
    rw [outputAt, hevent, step, hsends]
    exact hfilter
  | datagram d nowMs sent =>
    rw [hevent, step] at hgone
    by_cases hauthentic : ∃ answered responseQuery,
        Authentic (stateAt step start run n) d answered responseQuery
    · obtain ⟨answered, responseQuery, hauthentic⟩ := hauthentic
      have hid : drDnsReadId d.packet = id := by
        by_contra hne
        rw [receive_of_authentic hauthentic, maybeCacheResponse_pendingMap, withoutPending,
          slots_clear_of_ne _ (Ne.symm hne), hactive] at hgone
        cases hgone
      have hpending := hauthentic.answers.pending
      rw [hid] at hpending
      cases hpending.symm.trans h.held.content
      refine Or.inl ⟨d, nowMs, sent, responseQuery, hevent, hauthentic, hid, ?_⟩
      rw [outputAt, hevent, step, receive_of_authentic hauthentic, hid]
    · simp only [not_exists] at hauthentic
      rw [active_kept_of_not_authentic hauthentic nowMs sent hactive, hactive] at hgone
      cases hgone

/-- What becomes of a request once it is in its slot. -/
theorem fate_of_entered (hfresh : Fresh start) {m : Nat} {id : UInt16} {request : DrPendingRequest}
    (hput : pendingAt start run id m = none) (hfirst : pendingAt start run id (m + 1) = some request) :
    (∀ n, m < n → pendingAt start run id n = some request) ∨
      ∃ n, TakenOut (pendingAt start run id) m n request ∧
        (∀ n' other, TakenOut (pendingAt start run id) m n' other → n' = n) ∧
        (RelayedAt start run n id request ∨ TimedOutAt start run n id request) := by
  rcases (slot_occupancy hfresh id).fate hput hfirst with hstays | ⟨n, htaken, honce⟩
  · exact Or.inl hstays
  · exact Or.inr ⟨n, htaken, honce, relayed_or_timedOut hfresh htaken⟩

/-- The event behind a forward, and what it does to the slot the query is entered in. -/
theorem forwarded_of_mem (hfresh : Fresh start) {m : Nat} {id : UInt16} {s : Send}
    (hs : s ∈ outputAt step start run m) (hcause : s.cause = .forward id) :
    ∃ d nowMs, run m = .datagram d nowMs s.sent ∧ s.dst = start.upstreamAddr ∧
      s.packet = drDnsWriteId d.packet id ∧
      Forwarded (stateAt step start run m) d nowMs s.sent id
        (step (stateAt step start run m) (run m)) := by
  have hby := sendBy_of_mem (cachedResponses_stateAt hfresh m) hs
  generalize hevent : run m = e at hby
  cases hby with
  | answer hquery h =>
    rw [h.cause] at hcause
    cases hcause
  | relay h => cases hcause
  | timeout hover h =>
    rw [(mem_respondWithError h).1] at hcause
    cases hcause
  | @forward d nowMs sent upstreamId h =>
    cases hcause
    exact ⟨d, nowMs, rfl, (settings_stateAt start run m).upstream, rfl, h⟩

/-- Only a forward that was sent enters a request. -/
theorem forward_of_entered {m : Nat} {id : UInt16} {request : DrPendingRequest}
    (hput : pendingAt start run id m = none) (hfirst : pendingAt start run id (m + 1) = some request) :
    ∃ s ∈ outputAt step start run m, s.cause = .forward id ∧ s.sent = true := by
  rcases step_slot hfirst with hsame | ⟨_, d, nowMs, _, _, hforwarded⟩
  · rw [hput] at hsame
    cases hsame
  · rw [outputAt, hforwarded.sends]
    exact ⟨_, List.mem_singleton_self _, rfl, rfl⟩

/-- A query whose forward could not be sent gets no reply. -/
theorem not_answers_of_unsent (hfresh : Fresh start) {m n k : Nat} {id : UInt16} {s : Send}
    (hs : s ∈ outputAt step start run m) (hcause : s.cause = .forward id) (hunsent : s.sent = false) :
    ¬ Answers start run m n k := by
  intro h
  obtain ⟨reply, hreply, hcase⟩ := h
  obtain ⟨d, nowMs, hevent, _, _, hforwarded⟩ := forwarded_of_mem hfresh hs hcause
  rcases hcase with ⟨hanswer, rfl⟩ | ⟨other, request, _, hheld⟩
  · have hmem := List.mem_of_getElem? hreply
    rw [outputAt, hforwarded.sends, List.mem_singleton] at hmem
    rw [hmem] at hanswer
    cases hanswer
  · obtain ⟨_, _, hentered, _⟩ := entered_of_held hheld
    rw [hevent, hunsent] at hentered
    cases hentered

end Run

/-- In every run, each packet that is not a forward replies to one query: it goes to the address of
that query, as a response with its transaction ID. No query gets two replies. A forwarded query is
pending under the ID it was forwarded with, until a response under that ID is relayed or the
timeout is answered, and nothing else is ever pending. If the forward could not be sent, the query
is not pending and gets no reply. -/
theorem replies_attributed (timeoutMs : UInt32) (upstream : Sockaddr) (table : DrLocalTable)
    (capacity : Nat) (run : Nat → Event) :
    let start := drServerStart timeoutMs upstream table capacity
    (∀ n k s, (outputAt step start run n)[k]? = some s → (∀ id, s.cause ≠ .forward id) →
      ∃ m d nowMs sent, m ≤ n ∧ run m = .datagram d nowMs sent ∧ u16At d.packet 2 &&& 0x8000 = 0 ∧
        s.dst = d.src ∧ ResponseTo (drDnsReadId d.packet) s.packet ∧ Answers start run m n k ∧
        ∀ m', Answers start run m' n k → m' = m) ∧
    (∀ m n k n' k', Answers start run m n k → Answers start run m n' k' → n = n' ∧ k = k') ∧
    (∀ m id s, s ∈ outputAt step start run m → s.cause = .forward id →
      ∃ d nowMs, run m = .datagram d nowMs s.sent ∧ u16At d.packet 2 &&& 0x8000 = 0 ∧
        s.dst = upstream ∧ s.packet = drDnsWriteId d.packet id ∧ pendingAt start run id m = none ∧
        (s.sent = false →
          pendingAt start run id (m + 1) = none ∧ ∀ n k, ¬ Answers start run m n k) ∧
        (s.sent = true → ∃ request, EnteredBy d id request ∧
          pendingAt start run id (m + 1) = some request ∧
          ((∀ n, m < n → pendingAt start run id n = some request) ∨
            ∃ n, TakenOut (pendingAt start run id) m n request ∧
              (∀ n' other, TakenOut (pendingAt start run id) m n' other → n' = n) ∧
              (RelayedAt start run n id request ∨ TimedOutAt start run n id request)))) ∧
    ∀ m id request, pendingAt start run id m = none → pendingAt start run id (m + 1) = some request →
      ∃ s ∈ outputAt step start run m, s.cause = .forward id ∧ s.sent = true := by
  intro start
  have hfresh : Fresh start := fresh_start timeoutMs upstream table capacity
  refine ⟨fun n k s hs hreply => ?_, fun m n k n' k' h h' => h.unique_reply hfresh h',
    fun m id s hs hcause => ?_, fun m id request hput hfirst => forward_of_entered hput hfirst⟩
  · obtain ⟨m, d, nowMs, sent, hle, hevent, hquery, hdst, hresponse, hanswers⟩ :=
      reply_answers hfresh hs hreply
    exact ⟨m, d, nowMs, sent, hle, hevent, hquery, hdst, hresponse, hanswers,
      fun m' h' => h'.unique_query hanswers⟩
  · obtain ⟨d, nowMs, hevent, hdst, hpacket, hforwarded⟩ := forwarded_of_mem hfresh hs hcause
    obtain ⟨parsed, hentered, hrequest⟩ := hforwarded.entered
    have hput : pendingAt start run id m = none := drPendingMapGet_eq_none.mpr hentered.free
    refine ⟨d, nowMs, hevent, hentered.accepted.query, hdst, hpacket, hput, fun hunsent => ⟨?_, ?_⟩,
      fun hsent => ?_⟩
    · exact drPendingMapGet_eq_none.mpr (hforwarded.failed hunsent)
    · exact fun n k => not_answers_of_unsent hfresh hs hcause hunsent
    · have hslot := hrequest hsent
      have hfirst : pendingAt start run id (m + 1) =
          some ((pendingQuery d.packet parsed d.src nowMs).request id) := by
        refine drPendingMapGet_eq_some.mpr ⟨?_, hslot⟩
        rw [stateAt, hslot]
        rfl
      exact ⟨_, ⟨hentered.accepted.query, hentered.accepted.id, rfl, rfl, rfl⟩, hfirst,
        fate_of_entered hfresh hput hfirst⟩

theorem replies_attributed_busyRun :
    (∃ m ≤ 1, Answers busyStart busyRun m 1 0) ∧
      ∃ n request, TakenOut (pendingAt busyStart busyRun 1) 0 n request ∧
        (RelayedAt busyStart busyRun n 1 request ∨ TimedOutAt busyStart busyRun n 1 request) := by
  have hattributed := replies_attributed 5000 [2, 0, 0, 53, 8, 8, 8, 8] .zero 2 busyRun
  have hforward : outputAt step busyStart busyRun 0 =
      [{ cause := .forward 1, packet := drDnsWriteId (letterQuery 0x61).packet 1,
         dst := [2, 0, 0, 53, 8, 8, 8, 8], sent := true }] := by decide +kernel
  have hreply : (outputAt step busyStart busyRun 1)[0]? =
      some { cause := .relay 1, packet := drDnsWriteId (letterAnswer 1 0x61).packet 7,
             dst := (letterQuery 0x61).src, sent := true } := by decide +kernel
  constructor
  · obtain ⟨m, _, _, _, hle, _, _, _, _, hanswers, _⟩ :=
      hattributed.1 1 0 _ hreply (fun id h => by cases h)
    exact ⟨m, hle, hanswers⟩
  · obtain ⟨_, _, _, _, _, _, _, _, hsent⟩ :=
      hattributed.2.2.1 0 1 _ (by
        change _ ∈ outputAt step busyStart busyRun 0
        rw [hforward]
        exact List.mem_singleton_self _) rfl
    obtain ⟨request, _, _, hstays | ⟨n, htaken, _, hfate⟩⟩ := hsent rfl
    · have hgone : pendingAt busyStart busyRun 1 2 = none := by
        rw [pendingAt, drPendingMapGet_eq_none]
        decide +kernel
      cases hgone.symm.trans (hstays 2 (by omega))
    · exact ⟨n, request, htaken, hfate⟩

end DnsRelay.Relay
