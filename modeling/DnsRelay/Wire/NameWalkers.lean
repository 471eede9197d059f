import DnsRelay.Wire.NameDecoding
import DnsRelay.Wire.Responses
import DnsRelay.Wire.Ttl

/-!
# The two name walkers

`read_name` follows pointers, `skip_name` stops at the first; both say how many octets
the name takes where it stands. The grammar has that number once, so where both succeed
they agree, and the routines that walk over the question with one of them end where the
parser did with the other.
-/
namespace DnsRelay.Wire

open DnsRelay.Foundation
open Outcome (Sat)

/-- What the decoder accepts the walker passes over, with the same count. -/
theorem skipName_of_readName {packet array output : Bytes} {offset outputSize consumed : Nat}
    (hsize : outputSize ≤ array.length)
    (hread : readName packet offset array outputSize = .ok (output, consumed)) :
    skipName packet offset = .ok consumed := by
  obtain ⟨_, _, hname, _⟩ := (readName_sat packet offset hsize).of_eq_ok hread
  exact skipName_eq_ok_iff.mpr hname.span

/-- A name without pointers that the walker passes over is decoded when its text fits. -/
theorem readName_of_skipName {packet array : Bytes} {offset consumed extent : Nat}
    {labels : List Bytes} (harray : DR_DNS_MAX_DOMAIN_LEN + 1 ≤ array.length)
    (hskip : skipName packet offset = .ok consumed) (hname : NameAt packet offset 0 labels extent)
    (htext : (separated dot labels).length ≤ DR_DNS_MAX_DOMAIN_LEN) :
    readName packet offset array (DR_DNS_MAX_DOMAIN_LEN + 1) =
      .ok (overlay array 0 (nameText labels ++ [0]), consumed) := by
  have hsame : extent = consumed := by
    have hextent := skipName_eq_ok_iff.mpr hname.span
    rw [hskip, Outcome.ok.injEq] at hextent
    exact hextent.symm
  have hroom : (nameText labels).length ≤ DR_DNS_MAX_DOMAIN_LEN :=
    (length_nameText_le_iff (by decide)).mpr htext
  rw [← hsame]
  exact readName_of_name harray hname (by omega) (by omega)

/-- Copying the question of an accepted query stops where the parser stopped. -/
theorem copyQuestion_of_parse {packet out : Bytes} {parsed : DrParsedQuery}
    (hparse : drDnsParseQuery packet = .ok parsed) (hout : out.length = DR_DNS_MAX_PACKET_SIZE) :
    copyQuestion packet out =
      .ok (overlay out 0 (packet.take parsed.questionEndOffset), parsed.questionEndOffset) := by
  obtain ⟨labels, jumps, extent, hparsed⟩ := parsedAs_of_ok hparse
  have hheader := hparsed.header
  have hskip := skipName_eq_ok_iff.mpr hparsed.name.span
  have hend := hparsed.questionEnd
  have hinside := hparsed.inside
  have hextent := hparsed.extent_le
  have hfits : parsed.questionEndOffset ≤ DR_DNS_MAX_PACKET_SIZE := by
    simp only [DR_DNS_MAX_DOMAIN_LEN, DR_DNS_HEADER_SIZE, DR_DNS_MAX_PACKET_SIZE] at hextent hend ⊢
    omega
  have hone : (headerAt packet).qdcount ≥ 1 := by
    change u16At packet 4 ≥ 1
    rw [hparsed.qdcount]
    decide
  rw [copyQuestion, drDnsParseHeader_eq, if_neg (by omega), Outcome.ok_bind, if_pos hone, hskip,
    Outcome.attempt, Outcome.ok_bind]
  dsimp only
  rw [if_pos (show DR_DNS_HEADER_SIZE + extent + 4 ≤ packet.length by omega), ← hend,
    if_neg (by omega), copyFrom_of_le hinside (by omega)]
  rfl

/-- The TTL walk over an accepted query starts with its records where the parser stopped. -/
theorem drDnsCollectTtls_of_parse {packet : Bytes} {parsed : DrParsedQuery}
    (hparse : drDnsParseQuery packet = .ok parsed) :
    skipQuestions packet (headerAt packet).qdcount.toNat DR_DNS_HEADER_SIZE =
        .ok parsed.questionEndOffset ∧
      drDnsCollectTtls packet = (do
        let (patches, currentMin) ← collectRecords packet
          ((headerAt packet).ancount.toNat + (headerAt packet).nscount.toNat +
            (headerAt packet).arcount.toNat) parsed.questionEndOffset .empty 0xffffffff
        pure (patches, if currentMin = 0xffffffff then 0 else currentMin)) := by
  obtain ⟨labels, jumps, extent, hparsed⟩ := parsedAs_of_ok hparse
  have hheader := hparsed.header
  have hskip := skipName_eq_ok_iff.mpr hparsed.name.span
  have hend := hparsed.questionEnd
  have hinside := hparsed.inside
  have hone : (headerAt packet).qdcount.toNat = 1 := by
    change (u16At packet 4).toNat = 1
    rw [hparsed.qdcount]
    rfl
  have hquestions : skipQuestions packet (headerAt packet).qdcount.toNat DR_DNS_HEADER_SIZE =
      .ok parsed.questionEndOffset := by
    rw [hone, skipQuestions, hskip, Outcome.ok_bind, if_neg (by omega), skipQuestions, hend,
      Nat.add_assoc]
  refine ⟨hquestions, ?_⟩
  rw [drDnsCollectTtls, drDnsParseHeader_eq, if_neg (by omega), Outcome.ok_bind, hquestions,
    Outcome.ok_bind]

/-- Where the decoder succeeds the walker consumes the same octets, and conversely on a name that
ends in its zero octet and has a text that fits. The copying of an accepted question and the
TTL walk over it end where the parser did. -/
theorem name_walkers_agree (packet : Bytes) :
    (∀ (offset outputSize consumed : Nat) (array output : Bytes), outputSize ≤ array.length →
      readName packet offset array outputSize = .ok (output, consumed) →
      skipName packet offset = .ok consumed) ∧
    (∀ (offset consumed extent : Nat) (labels : List Bytes) (array : Bytes),
      array.length = DR_DNS_MAX_DOMAIN_LEN + 1 → skipName packet offset = .ok consumed →
      NameAt packet offset 0 labels extent →
      (separated dot labels).length ≤ DR_DNS_MAX_DOMAIN_LEN →
      ∃ output, readName packet offset array (DR_DNS_MAX_DOMAIN_LEN + 1) = .ok (output, consumed)) ∧
    ∀ parsed, drDnsParseQuery packet = .ok parsed →
      (∀ out : Bytes, out.length = DR_DNS_MAX_PACKET_SIZE → copyQuestion packet out =
        .ok (overlay out 0 (packet.take parsed.questionEndOffset), parsed.questionEndOffset)) ∧
      skipQuestions packet (headerAt packet).qdcount.toNat DR_DNS_HEADER_SIZE =
        .ok parsed.questionEndOffset ∧
      drDnsCollectTtls packet = (do
        let (patches, currentMin) ← collectRecords packet
          ((headerAt packet).ancount.toNat + (headerAt packet).nscount.toNat +
            (headerAt packet).arcount.toNat) parsed.questionEndOffset .empty 0xffffffff
        pure (patches, if currentMin = 0xffffffff then 0 else currentMin)) := by
  refine ⟨?_, ?_, ?_⟩
  · intro offset outputSize consumed array output hsize hread
    exact skipName_of_readName hsize hread
  · intro offset consumed extent labels array harray hskip hname htext
    exact ⟨_, readName_of_skipName harray.ge hskip hname htext⟩
  · intro parsed hparse
    exact ⟨fun out hout => copyQuestion_of_parse hparse hout, drDnsCollectTtls_of_parse hparse⟩

end DnsRelay.Wire
