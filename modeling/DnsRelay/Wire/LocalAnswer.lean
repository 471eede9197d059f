import DnsRelay.Wire.Normalization
import DnsRelay.Wire.Responses
import DnsRelay.Wire.TtlCollection

/-!
# A local answer read back

What its receiver finds in the answer of a local hit: the question of the query under
the normalized name, and one A record with the listed address. The record's owner is a
pointer to that question.
-/
namespace DnsRelay.Wire

open DnsRelay.Foundation
open Outcome (Sat)

theorem answerHeader_rd (parsed : DrParsedQuery) :
    (answerHeader parsed).flags &&& 0x0100 = parsed.flags &&& 0x0100 := by
  apply UInt16.toBitVec_inj.mp
  ext i hi
  interval_cases i <;> simp [answerHeader]

theorem answerHeader_rcode (parsed : DrParsedQuery) :
    ((answerHeader parsed).flags &&& 0x0f).toUInt8 = 0 := by
  apply UInt8.toBitVec_inj.mp
  ext i hi
  interval_cases i <;> simp [answerHeader]

/-- A response of `outLen` octets answers `query` with one A record for the name `n`, as its
receiver reads it. -/
structure AnswersLocally (query : Bytes) (parsed : DrParsedQuery) (n : CString) (ipv4Be : Ipv4Be)
    (ttl : UInt32) (response : Bytes) (outLen : Nat) : Prop where
  length : response.length = outLen
  question : ∃ q, drDnsParseQuery response = .ok q ∧ q.id = drDnsReadId query ∧ cstr q.qname = n ∧
    q.qtype = parsed.qtype ∧ q.qclass = parsed.qclass ∧ q.questionEndOffset = outLen - 16
  qr : drDnsIsResponse response = true
  rd : u16At response 2 &&& 0x0100 = u16At query 2 &&& 0x0100
  rcode : drDnsGetRcode response = DR_DNS_RCODE_NOERROR
  counts : u16At response 4 = 1 ∧ u16At response 6 = 1 ∧ u16At response 8 = 0 ∧
    u16At response 10 = 0
  owner : ∃ output, readName response (outLen - 16) (List.replicate (DR_DNS_MAX_DOMAIN_LEN + 1) 0)
    (DR_DNS_MAX_DOMAIN_LEN + 1) = .ok (output, 2) ∧ cstr output = n
  record : u16At response (outLen - 14) = 1 ∧ u16At response (outLen - 12) = 1 ∧
    u16At response (outLen - 6) = 4
  address : response.drop (outLen - 4) = ipv4Be.octets
  ttl : ∃ patches reported, drDnsCollectTtls response = .ok (patches, reported) ∧
    patches.items = [⟨outLen - 10, ttl⟩]

/-- The fields of the answer record behind any message front. -/
theorem answerBytes_fields (front : Bytes) (ttl : UInt32) (ipv4Be : Ipv4Be) :
    octet (front ++ answerBytes ttl ipv4Be) front.length = 0xc0 ∧
      octet (front ++ answerBytes ttl ipv4Be) (front.length + 1) = 0x0c ∧
      u16At (front ++ answerBytes ttl ipv4Be) (front.length + 2) = 1 ∧
      u16At (front ++ answerBytes ttl ipv4Be) (front.length + 4) = 1 ∧
      u32At (front ++ answerBytes ttl ipv4Be) (front.length + 6) = ttl ∧
      u16At (front ++ answerBytes ttl ipv4Be) (front.length + 10) = 4 ∧
      (front ++ answerBytes ttl ipv4Be).drop (front.length + 12) = ipv4Be.octets := by
  refine ⟨?_, ?_, ?_, ?_, ?_, ?_, ?_⟩
  · exact (octet_append_add front _ 0).trans rfl
  · exact (octet_append_add front _ 1).trans rfl
  · exact (u16At_append_add front _ 2).trans (be16_bytes16 1)
  · exact (u16At_append_add front _ 4).trans (be16_bytes16 1)
  · exact (u32At_append_add front _ 6).trans (be32_bytes32 ttl)
  · exact (u16At_append_add front _ 10).trans (be16_bytes16 4)
  · rw [List.drop_append, List.drop_of_length_le (by omega), Nat.add_sub_cancel_left]
    rfl

/-- The pointer 0xc00c of the answer leads to the name of the question. -/
theorem answer_owner {front : Bytes} {ttl : UInt32} {ipv4Be : Ipv4Be} {labels : List Bytes}
    {extent : Nat} (hfront : DR_DNS_HEADER_SIZE < front.length)
    (hname : NameAt (front ++ answerBytes ttl ipv4Be) DR_DNS_HEADER_SIZE 0 labels extent) :
    NameAt (front ++ answerBytes ttl ipv4Be) front.length 1 labels 2 := by
  obtain ⟨hhigh, hlow, _⟩ := answerBytes_fields front ttl ipv4Be
  have hlen : (front ++ answerBytes ttl ipv4Be).length = front.length + 16 := by
    rw [List.length_append, length_answerBytes]
  have htarget : (pointer (octet (front ++ answerBytes ttl ipv4Be) front.length)
      (octet (front ++ answerBytes ttl ipv4Be) (front.length + 1))).toNat = DR_DNS_HEADER_SIZE := by
    rw [hhigh, hlow]
    rfl
  apply @NameAt.jump _ _ 0 extent
  · omega
  · rw [hhigh]; decide
  · rw [htarget]; omega
  · rw [htarget]; exact hname

/-- A message whose only record is the answer of a local hit is walked as such. -/
theorem answer_walk {front : Bytes} {ttl : UInt32} {ipv4Be : Ipv4Be} {labels : List Bytes}
    {extent : Nat} (hend : front.length = DR_DNS_HEADER_SIZE + (extent + 4))
    (hname : NameAt (front ++ answerBytes ttl ipv4Be) DR_DNS_HEADER_SIZE 0 labels extent)
    (hcounts : u16At (front ++ answerBytes ttl ipv4Be) 4 = 1 ∧
      u16At (front ++ answerBytes ttl ipv4Be) 6 = 1 ∧
      u16At (front ++ answerBytes ttl ipv4Be) 8 = 0 ∧
      u16At (front ++ answerBytes ttl ipv4Be) 10 = 0) :
    Walk (front ++ answerBytes ttl ipv4Be) [⟨front.length + 6, 1, ttl⟩] := by
  obtain ⟨_, _, htype, _, httl, hdata, _⟩ := answerBytes_fields front ttl ipv4Be
  have howner := (answer_owner (by omega) hname).span
  have hquestion := hname.span
  generalize hresponse : front ++ answerBytes ttl ipv4Be = response at *
  have hlen : response.length = front.length + 16 := by
    rw [← hresponse, List.length_append, length_answerBytes]
  obtain ⟨hone, hancount, hnscount, harcount⟩ := hcounts
  have hrecord : Records response front.length
      [⟨front.length + 2 + 4, u16At response (front.length + 2),
        u32At response (front.length + 2 + 4)⟩]
      (front.length + (2 + 10 + (u16At response (front.length + 2 + 8)).toNat)) := by
    have hrd : (u16At response (front.length + 2 + 8)).toNat = 4 := by
      rw [Nat.add_assoc, hdata]; rfl
    exact .cons howner (by omega) (by omega) .nil
  rw [htype, Nat.add_assoc front.length 2 4, httl] at hrecord
  refine ⟨by omega, by rw [hancount, hnscount, harcount]; rfl, front.length, _, ?_, hrecord⟩
  rw [hone, hend]
  exact .cons hquestion (by omega) .nil

/-- The local answer to an accepted query whose name normalizes to `n` reads back as the query's
question with the name `n` and exactly the given record. -/
theorem local_answer_reads_back {query out : Bytes} {parsed : DrParsedQuery} {n : CString}
    {ipv4Be : Ipv4Be} {ttl : UInt32} {r : Bytes × Nat} (hparse : drDnsParseQuery query = .ok parsed)
    (hnormal : drDnsNormalizeName (cstr parsed.qname) (DR_DNS_MAX_DOMAIN_LEN + 1) = .ok n)
    (hout : out.length = DR_DNS_MAX_PACKET_SIZE)
    (hbuild : drDnsBuildAResponse query parsed ipv4Be ttl out = .ok r) :
    AnswersLocally query parsed n ipv4Be ttl (r.1.take r.2) r.2 := by
  obtain ⟨_, _, _, hparsed⟩ := parsedAs_of_ok hparse
  obtain ⟨labels, hencodes, hmax, hsize, hresponse⟩ :=
    (drDnsBuildAResponse_sat query parsed ipv4Be ttl hout).of_eq_ok hbuild
  have hlength : (r.1.take r.2).length = r.2 := by rw [List.length_take]; omega
  have hn := normalized_text hnormal hencodes
  have hrebuilt := parsedAs_rebuilt (h := answerHeader parsed) parsed.qtype parsed.qclass
    (answerBytes ttl ipv4Be) rfl hencodes
  have hqname := hrebuilt.cstr_qname
  have htext : cstr (nameText labels) = n := by rw [← hn, cstr_octets]
  rw [← List.append_assoc, ← hresponse] at hrebuilt
  have hcounts : u16At (r.1.take r.2) 4 = 1 ∧ u16At (r.1.take r.2) 6 = 1 ∧
      u16At (r.1.take r.2) 8 = 0 ∧ u16At (r.1.take r.2) 10 = 0 := by
    rw [hresponse]
    exact ⟨be16_bytes16 1, be16_bytes16 1, be16_bytes16 0, be16_bytes16 0⟩
  generalize hfront : headerBytes (answerHeader parsed) ++
    questionBytes labels parsed.qtype parsed.qclass = front at hresponse
  generalize hwhole : r.1.take r.2 = response at *
  have hend : front.length = DR_DNS_HEADER_SIZE + ((wireLabels labels).length + 1 + 4) := by
    rw [← hfront, List.length_append, length_headerBytes, length_questionBytes]
  have hlen : r.2 = front.length + 16 := by
    rw [← hlength, hresponse, List.length_append, length_answerBytes]
  have hfields := answerBytes_fields front ttl ipv4Be
  have howner : NameAt (front ++ answerBytes ttl ipv4Be) front.length 1 labels 2 :=
    answer_owner (by omega) (hresponse ▸ hrebuilt.name)
  have hwalk := answer_walk hend (hresponse ▸ hrebuilt.name) (hresponse ▸ hcounts)
  rw [← hresponse] at hfields howner hwalk
  obtain ⟨_, _, htype, hclass, _, hdata, haddress⟩ := hfields
  have hflags : u16At response 2 = (answerHeader parsed).flags := hrebuilt.flags.symm
  have hheader := hrebuilt.header
  have howned := readName_of_name
    (List.length_replicate (n := DR_DNS_MAX_DOMAIN_LEN + 1) (a := (0 : UInt8))).ge howner
    (by omega) (Nat.succ_le_succ hencodes.length_nameText)
  constructor
  case length => exact hlength
  case question =>
    refine ⟨_, drDnsParseQuery_of_parsedAs hrebuilt, ?_, hqname.trans htext, rfl, rfl, ?_⟩
    · have hheader := hparsed.header
      simp only [DR_DNS_HEADER_SIZE] at hheader
      rw [drDnsReadId, if_pos (by omega), ← hparsed.id]
      rfl
    · have hstop := hrebuilt.questionEnd
      omega
  case qr =>
    rw [drDnsIsResponse, hflags, answerHeader_response, decide_eq_true hheader]
    decide
  case rd => rw [hflags, answerHeader_rd, hparsed.flags]
  case rcode => rw [drDnsGetRcode, if_pos hheader, hflags, answerHeader_rcode]; rfl
  case counts => exact hcounts
  case owner =>
    rw [show r.2 - 16 = front.length by omega]
    exact ⟨_, howned, by rw [← htext, ← hqname]; rfl⟩
  case record =>
    rw [show r.2 - 14 = front.length + 2 by omega, show r.2 - 12 = front.length + 4 by omega,
      show r.2 - 6 = front.length + 10 by omega]
    exact ⟨htype, hclass, hdata⟩
  case address =>
    rw [show r.2 - 4 = front.length + 12 by omega]
    exact haddress
  case ttl =>
    rw [show r.2 - 10 = front.length + 6 by omega]
    have hroom := length_patchesOf_le [(⟨front.length + 6, 1, ttl⟩ : Record)]
    exact ⟨_, _, drDnsCollectTtls_of_walk hwalk (hroom.trans (by simp [DR_DNS_MAX_TTL_PATCHES])), rfl⟩

/-- The query for `A` in class IN, answered with 1.2.3.4. -/
theorem local_answer_reads_back_letter : ∃ parsed n r,
    drDnsParseQuery (questionFor [1, 0x41, 0]) = .ok parsed ∧
      drDnsNormalizeName (cstr parsed.qname) (DR_DNS_MAX_DOMAIN_LEN + 1) = .ok n ∧
      drDnsBuildAResponse (questionFor [1, 0x41, 0]) parsed ⟨1, 2, 3, 4⟩ 60
        (List.replicate DR_DNS_MAX_PACKET_SIZE 0) = .ok r ∧
      AnswersLocally (questionFor [1, 0x41, 0]) parsed n ⟨1, 2, 3, 4⟩ 60 (r.1.take r.2) r.2 := by
  have hruns : ((drDnsParseQuery (questionFor [1, 0x41, 0])).toOption.bind fun parsed =>
      (drDnsNormalizeName (cstr parsed.qname) (DR_DNS_MAX_DOMAIN_LEN + 1)).toOption.bind fun n =>
      (drDnsBuildAResponse (questionFor [1, 0x41, 0]) parsed ⟨1, 2, 3, 4⟩ 60
        (List.replicate DR_DNS_MAX_PACKET_SIZE 0)).toOption.map fun r =>
      (parsed, n, r)).isSome = true := by decide +kernel
  obtain ⟨_, hrun⟩ := Option.isSome_iff_exists.mp hruns
  obtain ⟨parsed, hparse, hrun⟩ := Option.bind_eq_some_iff.mp hrun
  obtain ⟨n, hnormal, hrun⟩ := Option.bind_eq_some_iff.mp hrun
  obtain ⟨r, hbuild, _⟩ := Option.map_eq_some_iff.mp hrun
  rw [Outcome.toOption_eq_some] at hparse hnormal hbuild
  exact ⟨parsed, n, r, hparse, hnormal, hbuild,
    local_answer_reads_back hparse hnormal List.length_replicate hbuild⟩

end DnsRelay.Wire
