import DnsRelay.Relay.Replies
import DnsRelay.Store.LocalRules
import DnsRelay.Wire.Responses

/-!
# When the relay can answer

The decoder hands on label octets as text and the encoder splits that text at its dots,
so a label with a dot in it may not be encodable again. For such a query every answer
the relay makes itself is lost; for every other datagram none is.
-/
namespace DnsRelay.Relay

open DnsRelay.Foundation
open DnsRelay.Wire
open DnsRelay.Store

/-- Every answer the relay decides on for this datagram can be built, and is handed to
`send_packet`. -/
structure AlwaysAnswered (query : Bytes) : Prop where
  error : ∀ (rcode : UInt8) (out : Bytes), out.length = DR_DNS_MAX_PACKET_SIZE →
    ∃ r, drDnsBuildErrorResponse query rcode out = .ok r ∧
      ErrorAnswer query rcode (r.1.take r.2) r.2
  localHit : ∀ (parsed : DrParsedQuery) (table : DrLocalTable) (out : Bytes),
    drDnsParseQuery query = .ok parsed →
    (drLocalTableLookup table (cstr parsed.qname)).kind = .hit →
    out.length = DR_DNS_MAX_PACKET_SIZE →
    ∃ r, drDnsBuildAResponse query parsed (drLocalTableLookup table (cstr parsed.qname)).ipv4Be
      (drLocalTableLookup table (cstr parsed.qname)).ttl out = .ok r
  errorSent : ∀ rcode cause dst sent, respondWithError query rcode cause dst sent ≠ []
  tableSent : ∀ server parsed dst sent, drDnsParseQuery query = .ok parsed →
    answerFromTable server query parsed dst sent ≠ some []

/-- If the datagram is accepted, its name is the root or has a string that splits into labels
again: no leading dot, no two dots in a row, and not more than 254 octets before a last dot. -/
def Reencodable (query : Bytes) : Prop :=
  ∀ parsed, drDnsParseQuery query = .ok parsed → Encodable (cstr parsed.qname).octets

theorem length_response : response.length = DR_DNS_MAX_PACKET_SIZE := List.length_replicate

theorem sendBuilt_ne_nil {built : Call (Bytes × Nat)} {cause : Cause} {dst : Sockaddr} {sent : Bool}
    (h : ∃ r, built = .ok r) : sendBuilt built cause dst sent ≠ [] := by
  obtain ⟨r, rfl⟩ := h
  exact List.cons_ne_nil _ _

/-- On a datagram of 12 to 512 octets every answer can be built exactly when the name of an accepted
question can be encoded again. -/
theorem always_answered_iff {query : Bytes} (hlow : DR_DNS_HEADER_SIZE ≤ query.length)
    (hhigh : query.length ≤ DR_DNS_MAX_PACKET_SIZE) : AlwaysAnswered query ↔ Reencodable query := by
  have herror (rcode : UInt8) {out : Bytes} (hout : out.length = DR_DNS_MAX_PACKET_SIZE) :=
    drDnsBuildErrorResponse_succeeds_iff rcode hlow hhigh hout
  constructor
  · intro h
    obtain ⟨r, hbuilt, _⟩ := h.error DR_DNS_RCODE_SERVFAIL response length_response
    exact (herror _ length_response).mp ⟨r, hbuilt⟩
  · intro h
    have hlocal (parsed : DrParsedQuery) (ipv4Be : Ipv4Be) (ttl : UInt32) {out : Bytes}
        (hparse : drDnsParseQuery query = .ok parsed)
        (hout : out.length = DR_DNS_MAX_PACKET_SIZE) :=
      (drDnsBuildAResponse_succeeds_iff ipv4Be ttl hparse hout).mpr (h parsed hparse)
    constructor
    case error =>
      intro rcode out hout
      obtain ⟨r, hbuilt⟩ := (herror rcode hout).mpr h
      exact ⟨r, hbuilt, errorAnswer_of_built hout hbuilt⟩
    case localHit =>
      intro parsed table out hparse _ hout
      exact hlocal parsed _ _ hparse hout
    case errorSent =>
      intro rcode cause dst sent
      exact sendBuilt_ne_nil ((herror rcode length_response).mpr h)
    case tableSent =>
      intro server parsed dst sent hparse htable
      rcases answerFromTable_cases htable with ⟨_, hnone⟩ | ⟨_, hnone⟩
      · exact sendBuilt_ne_nil ((herror _ length_response).mpr h) hnone.symm
      · exact sendBuilt_ne_nil (hlocal parsed _ _ hparse length_response) hnone.symm

/-- A query for `A`. -/
theorem always_answered_iff_letter :
    AlwaysAnswered (questionFor [1, 0x41, 0]) ↔ Reencodable (questionFor [1, 0x41, 0]) :=
  always_answered_iff (by decide) (by decide)

/-- A label of two dots loses its SERVFAIL, and the name `a..` hits the rule for `a` without an
answer. -/
theorem dotted_labels_unanswered :
    drDnsBuildErrorResponse (questionFor [2, dot, dot, 0]) DR_DNS_RCODE_SERVFAIL response = .fail () ∧
      ∃ parsed table, drDnsParseQuery (questionFor [3, 0x61, dot, dot, 0]) = .ok parsed ∧
        insertAll .zero [(cstr [0x61], ⟨1, 2, 3, 4⟩)] = .ok table ∧
        (drLocalTableLookup table (cstr parsed.qname)).kind = .hit ∧
        drDnsBuildAResponse (questionFor [3, 0x61, dot, dot, 0]) parsed
          (drLocalTableLookup table (cstr parsed.qname)).ipv4Be
          (drLocalTableLookup table (cstr parsed.qname)).ttl response = .fail () := by
  refine ⟨by decide +kernel, ?_⟩
  have hq : qnameOf (questionFor [3, 0x61, dot, dot, 0]) = some [0x61, dot, dot] := by decide +kernel
  obtain ⟨parsed, hparse, htext⟩ := qnameOf_eq_some hq
  have hname : cstr parsed.qname = cstr [0x61, dot, dot] := CString.ext htext
  obtain ⟨table, hinsert, hloaded⟩ :=
    insertAll_loaded [(cstr [0x61], ⟨1, 2, 3, 4⟩)] .zero [] (Or.inl ⟨rfl, rfl⟩)
  have hnormal : (drDnsNormalizeName (cstr [0x61, dot, dot]) (DR_DNS_MAX_DOMAIN_LEN + 1)).toOption =
      some (cstr [0x61]) := by decide +kernel
  have hrule : lastRule [(cstr [0x61], ⟨1, 2, 3, 4⟩)] (cstr [0x61]) = some ⟨1, 2, 3, 4⟩ := by
    decide +kernel
  refine ⟨parsed, table, hparse, hinsert, ?_, ?_⟩
  · rw [hname, hloaded.lookup, hnormal, Option.bind_some, List.nil_append, hrule]
    rfl
  · generalize drLocalTableLookup table (cstr parsed.qname) = result
    cases hbuilt : drDnsBuildAResponse (questionFor [3, 0x61, dot, dot, 0]) parsed result.ipv4Be
        result.ttl response with
    | stuck =>
      exact absurd hbuilt (drDnsBuildAResponse_sat _ parsed _ _ length_response).not_stuck
    | fail e => rfl
    | ok r =>
      have hencodable :=
        (drDnsBuildAResponse_succeeds_iff _ _ hparse length_response).mp ⟨r, hbuilt⟩
      rw [htext] at hencodable
      exact absurd hencodable (by decide)

end DnsRelay.Relay
