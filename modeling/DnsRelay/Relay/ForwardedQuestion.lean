import DnsRelay.Relay.Steps
import DnsRelay.Wire.IdRewrite
import DnsRelay.Wire.NameIdentity

/-!
# The question under the upstream ID

A query is parsed under the client's ID and forwarded under another one. The upstream
server reads the recorded question exactly when the name in the query does not run
through the octets of the ID.
-/
namespace DnsRelay.Relay

open DnsRelay.Foundation
open DnsRelay.Wire
open DnsRelay.Store

/-- No rewrite of the ID changes the question of an accepted datagram, and whenever the relay forwards
it, the question under the upstream ID is the one recorded in the pending map. -/
structure KeepsQuestion (packet : Bytes) (q : DrParsedQuery) : Prop where
  rewritten : ∀ id, ∃ q', drDnsParseQuery (drDnsWriteId packet id) = .ok q' ∧ SameQuestion q q'
  forwarded : ∀ (server : DrServer) (d : Datagram) (nowMs : UInt64) (s : Send) (id : UInt16),
    d.packet = packet → s ∈ (receive server d nowMs true).2 → s.cause = .forward id →
    ∃ request q', drPendingMapGet (receive server d nowMs true).1.pendingMap id = some request ∧
      drDnsParseQuery s.packet = .ok q' ∧ cstr q'.qname = request.qname ∧
      q'.qtype = request.qtype ∧ q'.qclass = request.qclass

/-- The question of an accepted datagram survives the relay exactly when its name follows no pointer
into the transaction ID. -/
theorem keeps_question_iff {packet : Bytes} {q : DrParsedQuery}
    (hparse : drDnsParseQuery packet = .ok q) : KeepsQuestion packet q ↔ ¬ ReadsId packet := by
  obtain ⟨_, _, _, hparsed⟩ := parsedAs_of_ok hparse
  have hheader := hparsed.header
  simp only [DR_DNS_HEADER_SIZE] at hheader
  constructor
  · intro h hreads
    obtain ⟨q', hq', _⟩ := h.rewritten 0x8080
    exact parse_fails_of_readsId (by omega) hreads q' hq'
  · intro hreads
    constructor
    case rewritten => exact writeId_keeps_question hparse hreads
    case forwarded =>
      intro server d nowMs s id hd hs hcause
      have hforwarded := forwarded_of_cause hs hcause
      obtain ⟨parsed, hentered, hslot⟩ := hforwarded.entered
      have hsame : parsed = q := by
        have haccepted := hentered.accepted.parses
        rw [hd, hparse] at haccepted
        cases haccepted
        rfl
      subst hsame
      obtain ⟨q', hq', hquestion⟩ := writeId_keeps_question hparse hreads id
      have hpending : drPendingMapGet (receive server d nowMs true).1.pendingMap id =
          some ((pendingQuery d.packet parsed d.src nowMs).request id) := by
        apply drPendingMapGet_eq_some.mpr
        rw [hslot rfl]
        exact ⟨rfl, rfl⟩
      rw [hforwarded.sends, List.mem_singleton] at hs
      refine ⟨_, q', hpending, ?_, ?_, hquestion.qtype, hquestion.qclass⟩
      · rw [hs, hd]
        exact hq'
      · rw [hquestion.qname]
        exact (CString.truncate_of_le (length_cstr_qname hparse)).symm

/-- The query for `A` is rewritten without harm. -/
theorem keeps_question_iff_letter : ∃ q, drDnsParseQuery (questionFor [1, 0x41, 0]) = .ok q ∧
    (KeepsQuestion (questionFor [1, 0x41, 0]) q ↔ ¬ ReadsId (questionFor [1, 0x41, 0])) := by
  have haccepted : (drDnsParseQuery (questionFor [1, 0x41, 0])).toOption.isSome = true := by
    decide +kernel
  obtain ⟨q, hq⟩ := Option.isSome_iff_exists.mp haccepted
  rw [Outcome.toOption_eq_some] at hq
  exact ⟨q, hq, keeps_question_iff hq⟩

/-- A query with the ID 0x0700 for the root, by a pointer to the second octet of the ID. -/
def idPointerQuery : Datagram where
  src := [2, 0, 0, 9, 1, 1, 1, 1]
  packet := [7, 0, 1, 0, 0, 1, 0, 0, 0, 0, 0, 0, 0xc0, 1, 0, 1, 0, 1]
  received_pos := by decide
  received_le := by decide

/-- Forwarded under ID 1 it asks for the name of one octet 1. -/
theorem idPointerQuery_changes :
    (∃ q q', drDnsParseQuery idPointerQuery.packet = .ok q ∧
      drDnsParseQuery (drDnsWriteId idPointerQuery.packet 1) = .ok q' ∧
      cstr q'.qname ≠ cstr q.qname) ∧
    (receive (drServerStart 5000 [2, 0, 0, 53, 8, 8, 8, 8] .zero 1) idPointerQuery 0 true).2.map
      (fun s => (s.cause, qnameOf s.packet)) = [(.forward 1, some [1])] := by
  refine ⟨?_, by decide +kernel⟩
  have hq : qnameOf idPointerQuery.packet = some [dot] := by decide +kernel
  have hq' : qnameOf (drDnsWriteId idPointerQuery.packet 1) = some [1] := by decide +kernel
  obtain ⟨q, hparse, htext⟩ := qnameOf_eq_some hq
  obtain ⟨q', hparse', htext'⟩ := qnameOf_eq_some hq'
  refine ⟨q, q', hparse, hparse', ?_⟩
  intro heq
  rw [heq, htext] at htext'
  exact absurd htext' (by decide)

end DnsRelay.Relay
