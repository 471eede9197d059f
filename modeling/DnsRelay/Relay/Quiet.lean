import DnsRelay.Relay.LocalPriority
import DnsRelay.Relay.Refinement

/-!
# Datagrams the relay does not remember

What does not come as a response from the upstream server, and asks nothing that the
local table leaves open, is answered or dropped on the spot. Such datagrams, forged
responses among them, see nothing of the rest of the traffic and leave no trace in it.
-/
namespace DnsRelay.Relay

open DnsRelay.Foundation
open DnsRelay.Wire
open DnsRelay.Store

instance (table : DrLocalTable) (question : Question) : Decidable (Reserved table question) :=
  inferInstanceAs (Decidable (_ ∧ _))

/-- No response from the upstream server, and no question but one the local table answers. -/
def Event.quiet (server : DrServer) : Event → Bool
  | .tick _ _ => false
  | .datagram d _ _ =>
    !isUpstreamResponse server d &&
      match demand d.packet with
      | .question parsed => decide (Reserved server.localTable (askedQuestion parsed))
      | _ => true

theorem answerFromTable_congr {server server' : DrServer}
    (h : server'.localTable = server.localTable) (packet : Bytes) (parsed : DrParsedQuery)
    (clientAddr : Sockaddr) (sent : Bool) : answerFromTable server' packet parsed clientAddr sent =
      answerFromTable server packet parsed clientAddr sent := by
  rw [answerFromTable, answerFromTable, h]

/-- A quiet event leaves any state as it is, and its answer depends on the settings only. -/
theorem step_quiet {start server : DrServer} (hsame : SameSettings start server) {e : Event}
    (hquiet : e.quiet start = true) : step server e = (server, (step start e).2) := by
  cases e with
  | tick nowMs sents => cases hquiet
  | datagram d nowMs sent =>
    rw [Event.quiet, Bool.and_eq_true, Bool.not_eq_true'] at hquiet
    obtain ⟨hstranger, hasks⟩ := hquiet
    have hstranger' : isUpstreamResponse server d = false := by
      rw [isUpstreamResponse, hsame.upstream]
      exact hstranger
    rw [step, step, receive, receive, hstranger, hstranger', if_neg Bool.false_ne_true,
      if_neg Bool.false_ne_true, handleClientPacket_demand, handleClientPacket_demand]
    cases hdemand : demand d.packet with
    | nothing => rfl
    | malformed rcode => rfl
    | question parsed =>
      rw [hdemand] at hasks
      dsimp only
      have hreserved : Reserved start.localTable (askedQuestion parsed) := of_decide_eq_true hasks
      cases htable : answerFromTable start d.packet parsed d.src sent with
      | none => exact absurd hreserved (answerFromTable_eq_none_iff.mp htable)
      | some sends =>
        rw [handleQuery, handleQuery, answerFromTable_congr hsame.table, htable]

/-- However many quiet events lie between the others: each of them gets the answer it would get from
the relay at its start, and the others get the answers, and the relay ends in the state, that they
have without the quiet ones. -/
theorem quiet_events_invisible (timeoutMs : UInt32) (upstream : Sockaddr) (table : DrLocalTable)
    (capacity : Nat) (events : List Event) :
    let start := drServerStart timeoutMs upstream table capacity
    (∀ io ∈ trace step start events, io.1.quiet start = true → io.2 = (step start io.1).2) ∧
    (trace step start events).filter (fun io => !io.1.quiet start) =
      trace step start (events.filter (fun e => !e.quiet start)) ∧
    after step start events = after step start (events.filter (fun e => !e.quiet start)) := by
  intro start
  have hinv : ∀ server e, SameSettings start server → SameSettings start (step server e).1 := by
    intro server e h
    obtain ⟨htimeout, hupstream, htable⟩ := step_settings server e
    exact ⟨htimeout.trans h.timeout, hupstream.trans h.upstream, htable.trans h.table⟩
  have hstart : SameSettings start start := ⟨rfl, rfl, rfl⟩
  constructor
  · intro io hio hquiet
    obtain ⟨server, hsame, hout⟩ := exists_state_of_mem_trace hinv events start hstart io hio
    rw [hout, step_quiet hsame hquiet]
  · refine trace_filter (fun e => !e.quiet start) hinv (fun server e hsame hkeep => ?_) events start
      hstart
    rw [Bool.not_eq_false'] at hkeep
    rw [step_quiet hsame hkeep]

end DnsRelay.Relay
