import DnsRelay.Wire.Message
import DnsRelay.Wire.TtlPatches

/-!
# Memory safety of the message routines

The specifications of the message routines include that they are never stuck, that
is, no index leaves its object and no loop outlives its budget. This module collects
that half for the five routines the relay runs on network input.
-/
namespace DnsRelay.Wire

open DnsRelay.Foundation
open Outcome (Sat)

/-- The terminator of `qname` lies inside the array. -/
theorem ParsedAs.nul_mem_qname {packet : Bytes} {q : DrParsedQuery} {labels : List Bytes}
    {jumps extent : Nat} (h : ParsedAs packet q labels jumps extent) : (0 : UInt8) ∈ q.qname := by
  rw [h.qname, overlay]
  simp

/-- On a datagram of any content and length the routines stay inside the datagram, the 512 octets
of the response, the 256 octets of `qname` and the 64 patches. -/
theorem message_routines_in_bounds (packet out : Bytes) (hout : out.length = DR_DNS_MAX_PACKET_SIZE) :
    drDnsParseQuery packet ≠ .stuck ∧
    (∀ parsed, drDnsParseQuery packet = .ok parsed →
      parsed.qname.length = DR_DNS_MAX_DOMAIN_LEN + 1 ∧ (0 : UInt8) ∈ parsed.qname ∧
      ∀ ipv4Be ttl, drDnsBuildAResponse packet parsed ipv4Be ttl out ≠ .stuck ∧
        ∀ r, drDnsBuildAResponse packet parsed ipv4Be ttl out = .ok r →
          r.1.length = DR_DNS_MAX_PACKET_SIZE ∧ r.2 ≤ DR_DNS_MAX_PACKET_SIZE) ∧
    (∀ rcode, drDnsBuildErrorResponse packet rcode out ≠ .stuck ∧
      ∀ r, drDnsBuildErrorResponse packet rcode out = .ok r →
        r.1.length = DR_DNS_MAX_PACKET_SIZE ∧ r.2 ≤ DR_DNS_MAX_PACKET_SIZE) ∧
    drDnsCollectTtls packet ≠ .stuck ∧
    ∀ patches minTtl elapsedSec, drDnsCollectTtls packet = .ok (patches, minTtl) →
      drDnsApplyTtlPatches packet patches elapsedSec ≠ .stuck := by
  refine ⟨(drDnsParseQuery_sat packet).not_stuck, fun parsed hparse => ?_, fun rcode => ?_,
    (drDnsCollectTtls_sat packet).not_stuck, fun patches minTtl elapsedSec _ => ?_⟩
  · obtain ⟨labels, jumps, extent, hparsed⟩ := parsedAs_of_ok hparse
    refine ⟨hparsed.length_qname, hparsed.nul_mem_qname, fun ipv4Be ttl => ?_⟩
    have hbuild := drDnsBuildAResponse_sat packet parsed ipv4Be ttl hout
    refine ⟨hbuild.not_stuck, fun r hr => ?_⟩
    obtain ⟨_, _, hle, hlen, _⟩ := hbuild.of_eq_ok hr
    exact ⟨hlen, hle⟩
  · have hbuild := drDnsBuildErrorResponse_sat packet rcode hout
    refine ⟨hbuild.not_stuck, fun r hr => ?_⟩
    obtain ⟨_, _, _, _, hle, hlen, _⟩ := hbuild.of_eq_ok hr
    exact ⟨hlen, hle⟩
  · rw [drDnsApplyTtlPatches_eq]
    nofun

/-- The header of a standard query announcing a question that was cut off. -/
def cutOffQuery : Bytes := [0x12, 0x34, 1, 0, 0, 1, 0, 0, 0, 0, 0, 0, 0xc0]

theorem message_routines_in_bounds_cutOffQuery :
    drDnsParseQuery cutOffQuery = .fail "failed to decode qname" ∧
      drDnsBuildErrorResponse cutOffQuery DR_DNS_RCODE_FORMERR
        (List.replicate DR_DNS_MAX_PACKET_SIZE 0) ≠ .stuck :=
  ⟨by decide +kernel, ((message_routines_in_bounds cutOffQuery
    (List.replicate DR_DNS_MAX_PACKET_SIZE 0) (List.length_replicate ..)).2.2.1 _).1⟩

end DnsRelay.Wire
