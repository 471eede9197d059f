import DnsRelay.Wire.NameDecoding
import Mathlib.Tactic.IntervalCases

/-!
# Questions and responses

`dr_dns_parse_query` and the two response builders of `dns_packet.c`. A response
buffer is the list of its octets; a builder returns it with `*out_len`. The text a
failing parse leaves in `errbuf` is the data of the failure.
-/
namespace DnsRelay.Wire

open DnsRelay.Foundation
open Outcome (Sat)

structure DrParsedQuery where
  id : UInt16
  flags : UInt16
  qtype : UInt16
  qclass : UInt16
  opcode : UInt8
  qr : UInt8
  qname : Bytes
  questionEndOffset : Nat
  deriving DecidableEq

/-- An IPv4 address in network order: the octets of the `uint32_t` as they lie in memory. -/
structure Ipv4Be where
  o0 : UInt8
  o1 : UInt8
  o2 : UInt8
  o3 : UInt8
  deriving DecidableEq

def Ipv4Be.octets (a : Ipv4Be) : Bytes := [a.o0, a.o1, a.o2, a.o3]

def Ipv4Be.zero : Ipv4Be := ⟨0, 0, 0, 0⟩

def drDnsParseQuery (packet : Bytes) : Outcome String DrParsedQuery := do
  let _ ← (drDnsParseHeader packet).orFail "packet too short"
  let id ← readU16 packet 0
  let flags ← readU16 packet 2
  let opcode := ((flags >>> 11) &&& 0x0f).toUInt8
  let qr := ((flags >>> 15) &&& 0x01).toUInt8
  let qdcount ← readU16 packet 4
  if qdcount ≠ 1 then .fail "expected exactly one question"
  else do
    let (qname, consumed) ← (readName packet DR_DNS_HEADER_SIZE
      (List.replicate (DR_DNS_MAX_DOMAIN_LEN + 1) 0) (DR_DNS_MAX_DOMAIN_LEN + 1)).orFail
        "failed to decode qname"
    let qtypeOffset := DR_DNS_HEADER_SIZE + consumed
    if qtypeOffset + 4 > packet.length then .fail "question too short"
    else do
      let qtype ← readU16 packet qtypeOffset
      let qclass ← readU16 packet (qtypeOffset + 2)
      pure { id, flags, qtype, qclass, opcode, qr, qname, questionEndOffset := qtypeOffset + 4 }

/-- Returns the buffer and `*question_end`. -/
def copyParsedQuestion (parsed : DrParsedQuery) (out : Bytes) : Call (Bytes × Nat) := do
  let (out, qnameLen) ← writeName (cstr parsed.qname) out DR_DNS_HEADER_SIZE
    (DR_DNS_MAX_PACKET_SIZE - DR_DNS_HEADER_SIZE)
  if DR_DNS_HEADER_SIZE + qnameLen + 4 > DR_DNS_MAX_PACKET_SIZE then .fail ()
  else do
    let out ← writeU16 out (DR_DNS_HEADER_SIZE + qnameLen) parsed.qtype
    let out ← writeU16 out (DR_DNS_HEADER_SIZE + qnameLen + 2) parsed.qclass
    pure (out, DR_DNS_HEADER_SIZE + qnameLen + 4)

/-- Returns the buffer and `*question_end`. -/
def copyQuestion (query out : Bytes) : Call (Bytes × Nat) := do
  let header ← drDnsParseHeader query
  let consumed ← (if header.qdcount ≥ 1 then (skipName query DR_DNS_HEADER_SIZE).attempt
    else pure none)
  let questionEnd := match consumed with
    | some qnameConsumed =>
      if DR_DNS_HEADER_SIZE + qnameConsumed + 4 ≤ query.length then
        DR_DNS_HEADER_SIZE + qnameConsumed + 4
      else DR_DNS_HEADER_SIZE
    | none => DR_DNS_HEADER_SIZE
  if questionEnd > DR_DNS_MAX_PACKET_SIZE then .fail ()
  else do
    let out ← copyFrom out 0 query questionEnd
    pure (out, questionEnd)

/-- The six `write_u16` calls with which both builders fill in the header. -/
def writeHeader (out : Bytes) (header : DrDnsHeader) : Call Bytes := do
  let out ← writeU16 out 0 header.id
  let out ← writeU16 out 2 header.flags
  let out ← writeU16 out 4 header.qdcount
  let out ← writeU16 out 6 header.ancount
  let out ← writeU16 out 8 header.nscount
  writeU16 out 10 header.arcount

/-- The answer record; its owner name is the pointer 0xc00c to the question. -/
def writeAnswer (out : Bytes) (answerOffset : Nat) (ttl : UInt32) (ipv4Be : Ipv4Be) :
    Call Bytes := do
  let out ← writeU16 out answerOffset 0xc00c
  let out ← writeU16 out (answerOffset + 2) 1
  let out ← writeU16 out (answerOffset + 4) 1
  let out ← writeU32 out (answerOffset + 6) ttl
  let out ← writeU16 out (answerOffset + 10) 4
  store out (answerOffset + 12) ipv4Be.octets

def drDnsBuildAResponse (query : Bytes) (parsed : DrParsedQuery) (ipv4Be : Ipv4Be) (ttl : UInt32)
    (out : Bytes) : Call (Bytes × Nat) :=
  if parsed.questionEndOffset > query.length ∨
      parsed.questionEndOffset + 16 > DR_DNS_MAX_PACKET_SIZE then .fail ()
  else do
    let (out, answerOffset) ← copyParsedQuestion parsed out
    if answerOffset + 16 > DR_DNS_MAX_PACKET_SIZE then .fail ()
    else do
      let flags := 0x8000 ||| (parsed.flags &&& 0x0100) ||| 0x0080
      let out ← writeHeader out
        { id := parsed.id, flags, qdcount := 1, ancount := 1, nscount := 0, arcount := 0 }
      let out ← writeAnswer out answerOffset ttl ipv4Be
      pure (out, answerOffset + 16)

def drDnsBuildErrorResponse (query : Bytes) (rcode : UInt8) (out : Bytes) : Call (Bytes × Nat) := do
  let header ← drDnsParseHeader query
  let parsed ← (if header.qdcount = 1 then (drDnsParseQuery query).attempt else pure none)
  let (out, questionEnd) ← (match parsed with
    | some parsed => copyParsedQuestion parsed out
    | none => copyQuestion query out)
  let qdcount := if questionEnd > DR_DNS_HEADER_SIZE then 1 else 0
  let flags := 0x8000 ||| (header.flags &&& 0x7800) ||| (header.flags &&& 0x0100) ||| 0x0080 |||
    (rcode &&& 0x0f).toUInt16
  let out ← writeHeader out
    { id := header.id, flags, qdcount, ancount := 0, nscount := 0, arcount := 0 }
  pure (out, questionEnd)

/-- What an accepted datagram says: its header fields, and one question at offset 12 whose name
decodes to the text in `qname`. -/
structure ParsedAs (packet : Bytes) (q : DrParsedQuery) (labels : List Bytes) (jumps extent : Nat) :
    Prop where
  header : DR_DNS_HEADER_SIZE ≤ packet.length
  id : q.id = u16At packet 0
  flags : q.flags = u16At packet 2
  qdcount : u16At packet 4 = 1
  opcode : q.opcode = ((q.flags >>> 11) &&& 0x0f).toUInt8
  qr : q.qr = ((q.flags >>> 15) &&& 0x01).toUInt8
  name : NameAt packet DR_DNS_HEADER_SIZE jumps labels extent
  budget : jumps ≤ 16
  text : (nameText labels).length ≤ DR_DNS_MAX_DOMAIN_LEN
  qname : q.qname = overlay (List.replicate (DR_DNS_MAX_DOMAIN_LEN + 1) 0) 0 (nameText labels ++ [0])
  questionEnd : q.questionEndOffset = DR_DNS_HEADER_SIZE + extent + 4
  inside : q.questionEndOffset ≤ packet.length
  qtype : q.qtype = u16At packet (DR_DNS_HEADER_SIZE + extent)
  qclass : q.qclass = u16At packet (DR_DNS_HEADER_SIZE + extent + 2)

theorem drDnsParseQuery_sat (packet : Bytes) :
    Sat (drDnsParseQuery packet) (fun q => ∃ labels jumps extent,
      ParsedAs packet q labels jumps extent) := by
  unfold drDnsParseQuery
  by_cases hshort : packet.length < DR_DNS_HEADER_SIZE
  · rw [drDnsParseHeader_eq, if_pos hshort]
    trivial
  · rw [drDnsParseHeader_eq, if_neg hshort]
    simp only [DR_DNS_HEADER_SIZE] at hshort
    simp only [Outcome.orFail, Outcome.ok_bind, readU16_of_le (show 0 + 2 ≤ packet.length by omega),
      readU16_of_le (show 2 + 2 ≤ packet.length by omega),
      readU16_of_le (show 4 + 2 ≤ packet.length by omega)]
    apply Sat.guard
    intro hone
    have hname := readName_sat packet DR_DNS_HEADER_SIZE
      (List.length_replicate (n := DR_DNS_MAX_DOMAIN_LEN + 1) (a := (0 : UInt8))).ge
    apply (hname.orFail _).bind
    intro r hr
    obtain ⟨qname, extent⟩ := r
    obtain ⟨jumps, labels, hat, hbudget, hqname, htext⟩ := hr
    dsimp only at hat hqname
    apply Sat.guard
    intro hend
    rw [readU16_of_le (by omega), Outcome.ok_bind, readU16_of_le (by omega), Outcome.ok_bind]
    exact ⟨labels, jumps, extent, by simp only [DR_DNS_HEADER_SIZE]; omega, rfl, rfl, not_not.mp hone,
      rfl, rfl, hat, hbudget, by omega, hqname, rfl, by dsimp only; omega, rfl, rfl⟩

theorem parsedAs_of_ok {packet : Bytes} {q : DrParsedQuery} (h : drDnsParseQuery packet = .ok q) :
    ∃ labels jumps extent, ParsedAs packet q labels jumps extent :=
  (drDnsParseQuery_sat packet).of_eq_ok h

/-- Completeness of `dr_dns_parse_query`: what says so much is accepted as that query. -/
theorem drDnsParseQuery_of_parsedAs {packet : Bytes} {q : DrParsedQuery} {labels : List Bytes}
    {jumps extent : Nat} (h : ParsedAs packet q labels jumps extent) :
    drDnsParseQuery packet = .ok q := by
  obtain ⟨hheader, hid, hflags, hone, hopcode, hqr, hname, hbudget, htext, hqname, hend, hinside,
    hqtype, hqclass⟩ := h
  have hread := readName_of_name
    (List.length_replicate (n := DR_DNS_MAX_DOMAIN_LEN + 1) (a := (0 : UInt8))).ge hname hbudget
    (Nat.succ_le_succ htext)
  have hshort : ¬ packet.length < DR_DNS_HEADER_SIZE := by omega
  simp only [DR_DNS_HEADER_SIZE] at hshort
  unfold drDnsParseQuery
  rw [drDnsParseHeader_eq, if_neg (by omega)]
  simp only [Outcome.orFail, Outcome.ok_bind, readU16_of_le (show 0 + 2 ≤ packet.length by omega),
    readU16_of_le (show 2 + 2 ≤ packet.length by omega),
    readU16_of_le (show 4 + 2 ≤ packet.length by omega)]
  rw [if_neg (not_not.mpr hone), hread]
  simp only [Outcome.ok_bind]
  rw [if_neg (by omega), readU16_of_le (by omega), Outcome.ok_bind, readU16_of_le (by omega),
    Outcome.ok_bind]
  cases q
  simp only at hid hflags hopcode hqr hqname hend hqtype hqclass
  rw [hid, hopcode, hqr, hflags, hqname, hend, hqtype, hqclass]
  rfl

/-- What the parser makes of a datagram with this name at offset 12. -/
def parsedQuery (packet : Bytes) (labels : List Bytes) (extent : Nat) : DrParsedQuery where
  id := u16At packet 0
  flags := u16At packet 2
  qtype := u16At packet (DR_DNS_HEADER_SIZE + extent)
  qclass := u16At packet (DR_DNS_HEADER_SIZE + extent + 2)
  opcode := ((u16At packet 2 >>> 11) &&& 0x0f).toUInt8
  qr := ((u16At packet 2 >>> 15) &&& 0x01).toUInt8
  qname := overlay (List.replicate (DR_DNS_MAX_DOMAIN_LEN + 1) 0) 0 (nameText labels ++ [0])
  questionEndOffset := DR_DNS_HEADER_SIZE + extent + 4

theorem parsedAs_of_name {packet : Bytes} {labels : List Bytes} {jumps extent : Nat}
    (hone : u16At packet 4 = 1) (hname : NameAt packet DR_DNS_HEADER_SIZE jumps labels extent)
    (hbudget : jumps ≤ 16) (htext : (nameText labels).length ≤ DR_DNS_MAX_DOMAIN_LEN)
    (hinside : DR_DNS_HEADER_SIZE + extent + 4 ≤ packet.length) :
    ParsedAs packet (parsedQuery packet labels extent) labels jumps extent :=
  ⟨by omega, rfl, rfl, hone, rfl, rfl, hname, hbudget, htext, rfl, rfl, hinside, rfl, rfl⟩

/-- `qname` holds the text of the name up to its first NUL. -/
theorem ParsedAs.cstr_qname {packet : Bytes} {q : DrParsedQuery} {labels : List Bytes}
    {jumps extent : Nat} (h : ParsedAs packet q labels jumps extent) :
    cstr q.qname = cstr (nameText labels) := by
  rw [h.qname, overlay, List.take_zero, List.nil_append, List.append_assoc]
  exact cstr_append_nul _ _

theorem ParsedAs.length_qname {packet : Bytes} {q : DrParsedQuery} {labels : List Bytes}
    {jumps extent : Nat} (h : ParsedAs packet q labels jumps extent) :
    q.qname.length = DR_DNS_MAX_DOMAIN_LEN + 1 := by
  have ht := h.text
  rw [h.qname, length_overlay (by simp; omega), List.length_replicate]

/-- The question section `copy_parsed_question` writes. -/
def questionBytes (labels : List Bytes) (qtype qclass : UInt16) : Bytes :=
  wireLabels labels ++ [0] ++ bytes16 qtype ++ bytes16 qclass

theorem copyParsedQuestion_sat {parsed : DrParsedQuery} {out : Bytes}
    (hout : out.length = DR_DNS_MAX_PACKET_SIZE) :
    Sat (copyParsedQuestion parsed out) (fun r => ∃ labels,
      Encodes (cstr parsed.qname).octets labels ∧
      r.1 = overlay out DR_DNS_HEADER_SIZE (questionBytes labels parsed.qtype parsed.qclass) ∧
      r.2 = DR_DNS_HEADER_SIZE + (questionBytes labels parsed.qtype parsed.qclass).length ∧
      r.2 ≤ DR_DNS_MAX_PACKET_SIZE) := by
  simp only [DR_DNS_MAX_PACKET_SIZE] at hout
  unfold copyParsedQuestion
  apply (writeName_sat (by simp only [DR_DNS_HEADER_SIZE, DR_DNS_MAX_PACKET_SIZE]; omega)).bind
  intro r hr
  obtain ⟨out', qnameLen⟩ := r
  obtain ⟨labels, hencodes, hout', hlen, _⟩ := hr
  dsimp only at hout' hlen
  apply Sat.guard
  intro hbad
  simp only [DR_DNS_HEADER_SIZE, DR_DNS_MAX_PACKET_SIZE] at hbad
  have hwire : (wireLabels labels ++ [0]).length = qnameLen := by simp; omega
  have hone : (writeU16 (overlay out DR_DNS_HEADER_SIZE (wireLabels labels ++ [0]))
      (DR_DNS_HEADER_SIZE + qnameLen) parsed.qtype : Call Bytes) =
      .ok (overlay out DR_DNS_HEADER_SIZE (wireLabels labels ++ [0] ++ bytes16 parsed.qtype)) := by
    rw [← hwire]
    exact store_append (by simp only [DR_DNS_HEADER_SIZE, List.length_cons, List.length_nil]; omega)
  have htwo : (writeU16 (overlay out DR_DNS_HEADER_SIZE (wireLabels labels ++ [0] ++
      bytes16 parsed.qtype)) (DR_DNS_HEADER_SIZE + qnameLen + 2) parsed.qclass : Call Bytes) =
      .ok (overlay out DR_DNS_HEADER_SIZE (questionBytes labels parsed.qtype parsed.qclass)) := by
    have hnext : DR_DNS_HEADER_SIZE + qnameLen + 2 = DR_DNS_HEADER_SIZE +
        (wireLabels labels ++ [0] ++ bytes16 parsed.qtype).length := by
      rw [List.length_append, hwire, length_bytes16, Nat.add_assoc]
    rw [hnext]
    apply store_append
    rw [List.length_append, hwire, length_bytes16]
    simp only [DR_DNS_HEADER_SIZE, List.length_cons, List.length_nil]
    omega
  rw [hout', hone, Outcome.ok_bind, htwo, Outcome.ok_bind]
  refine ⟨labels, hencodes, rfl, ?_, ?_⟩
  · rw [questionBytes, List.length_append, List.length_append, hwire, length_bytes16, length_bytes16]
    dsimp only
    omega
  · simp only [DR_DNS_HEADER_SIZE, DR_DNS_MAX_PACKET_SIZE]
    omega

theorem copyQuestion_sat {query out : Bytes} (hout : out.length = DR_DNS_MAX_PACKET_SIZE) :
    Sat (copyQuestion query out) (fun r => DR_DNS_HEADER_SIZE ≤ r.2 ∧ r.2 ≤ query.length ∧
      r.2 ≤ DR_DNS_MAX_PACKET_SIZE ∧ r.1 = overlay out 0 (query.take r.2)) := by
  unfold copyQuestion
  rw [drDnsParseHeader_eq]
  by_cases hshort : query.length < DR_DNS_HEADER_SIZE
  · rw [if_pos hshort]
    trivial
  · rw [if_neg hshort, Outcome.ok_bind]
    have hskip : Sat (if (headerAt query).qdcount ≥ 1 then
        (skipName query DR_DNS_HEADER_SIZE).attempt else pure none : Call (Option Nat))
        (fun _ => True) :=
      Sat.ite (fun _ => (skipName_sat _ _).attempt.mono (fun _ _ => trivial)) (fun _ => trivial)
    apply hskip.bind
    intro consumed _
    generalize hend : (match consumed with
      | some qnameConsumed =>
        if DR_DNS_HEADER_SIZE + qnameConsumed + 4 ≤ query.length then
          DR_DNS_HEADER_SIZE + qnameConsumed + 4
        else DR_DNS_HEADER_SIZE
      | none => DR_DNS_HEADER_SIZE) = questionEnd
    have hbounds : DR_DNS_HEADER_SIZE ≤ questionEnd ∧ questionEnd ≤ query.length := by
      cases consumed with
      | none => dsimp only at hend; omega
      | some n => dsimp only at hend; split at hend <;> omega
    apply Sat.guard
    intro hmax
    rw [copyFrom_of_le hbounds.2 (by omega), Outcome.ok_bind]
    exact ⟨hbounds.1, hbounds.2, by dsimp only; omega, rfl⟩

/-- The twelve octets of a header. -/
def headerBytes (h : DrDnsHeader) : Bytes :=
  bytes16 h.id ++ bytes16 h.flags ++ bytes16 h.qdcount ++ bytes16 h.ancount ++
    bytes16 h.nscount ++ bytes16 h.arcount

@[simp] theorem length_headerBytes (h : DrDnsHeader) :
    (headerBytes h).length = DR_DNS_HEADER_SIZE := rfl

theorem u16At_headerBytes (h : DrDnsHeader) (rest : Bytes) :
    u16At (headerBytes h ++ rest) 0 = h.id ∧ u16At (headerBytes h ++ rest) 2 = h.flags ∧
      u16At (headerBytes h ++ rest) 6 = h.ancount :=
  ⟨be16_bytes16 h.id, be16_bytes16 h.flags, be16_bytes16 h.ancount⟩

theorem writeHeader_of_le {out : Bytes} {h : DrDnsHeader}
    (hlen : DR_DNS_HEADER_SIZE ≤ out.length) :
    writeHeader out h = .ok (overlay out 0 (headerBytes h)) := by
  simp only [DR_DNS_HEADER_SIZE] at hlen
  have append16 (xs : Bytes) (v : UInt16) (n : Nat) (hn : xs.length = n) (hfit : n + 2 ≤ 12) :
      (writeU16 (overlay out 0 xs) n v : Call Bytes) = .ok (overlay out 0 (xs ++ bytes16 v)) := by
    have h : (store (overlay out 0 xs) (0 + xs.length) (bytes16 v) : Call Bytes) =
        .ok (overlay out 0 (xs ++ bytes16 v)) := store_append (by simp; omega)
    rwa [Nat.zero_add, hn] at h
  unfold writeHeader
  rw [writeU16_of_le (by omega), Outcome.ok_bind, append16 _ _ 2 rfl (by omega), Outcome.ok_bind,
    append16 _ _ 4 rfl (by omega), Outcome.ok_bind, append16 _ _ 6 rfl (by omega), Outcome.ok_bind,
    append16 _ _ 8 rfl (by omega), Outcome.ok_bind, append16 _ _ 10 rfl (by omega)]
  rfl

/-- The answer record of a local hit: a pointer to the question name, type A, class IN. -/
def answerBytes (ttl : UInt32) (ipv4Be : Ipv4Be) : Bytes :=
  bytes16 0xc00c ++ bytes16 1 ++ bytes16 1 ++ bytes32 ttl ++ bytes16 4 ++ ipv4Be.octets

@[simp] theorem length_answerBytes (ttl : UInt32) (ipv4Be : Ipv4Be) :
    (answerBytes ttl ipv4Be).length = 16 := rfl

/-- The header of a local answer. -/
def answerHeader (parsed : DrParsedQuery) : DrDnsHeader where
  id := parsed.id
  flags := 0x8000 ||| (parsed.flags &&& 0x0100) ||| 0x0080
  qdcount := 1
  ancount := 1
  nscount := 0
  arcount := 0

theorem writeAnswer_of_le {out front : Bytes} (ttl : UInt32) (ipv4Be : Ipv4Be)
    (h : front.length + 16 ≤ out.length) :
    writeAnswer (overlay out 0 front) front.length ttl ipv4Be =
      .ok (overlay out 0 (front ++ answerBytes ttl ipv4Be)) := by
  have append (xs ys : Bytes) (n : Nat) (hn : xs.length = n) (hfit : n + ys.length ≤ 16) :
      (store (overlay out 0 (front ++ xs)) (front.length + n) ys : Call Bytes) =
        .ok (overlay out 0 (front ++ (xs ++ ys))) := by
    have h : (store (overlay out 0 (front ++ xs)) (0 + (front ++ xs).length) ys : Call Bytes) =
        .ok (overlay out 0 (front ++ xs ++ ys)) := store_append (by
      rw [List.length_append, hn]
      omega)
    rwa [Nat.zero_add, List.length_append, hn, List.append_assoc front xs ys] at h
  have hfirst := append [] (bytes16 0xc00c) 0 rfl (by decide)
  rw [List.append_nil, Nat.add_zero, List.nil_append] at hfirst
  change (do
    let out ← store (overlay out 0 front) front.length (bytes16 0xc00c)
    let out ← store out (front.length + 2) (bytes16 1)
    let out ← store out (front.length + 4) (bytes16 1)
    let out ← store out (front.length + 6) (bytes32 ttl)
    let out ← store out (front.length + 10) (bytes16 4)
    store out (front.length + 12) ipv4Be.octets) = _
  rw [hfirst, Outcome.ok_bind, append _ _ 2 rfl (by decide), Outcome.ok_bind,
    append _ _ 4 rfl (by decide), Outcome.ok_bind,
    append _ _ 6 rfl (by rw [length_bytes32]; omega), Outcome.ok_bind,
    append _ _ 10 rfl (by decide), Outcome.ok_bind, append _ _ 12 rfl (le_refl 16)]
  rfl

/-- A header over a buffer that already holds the question. -/
theorem overlay_header {out question : Bytes} {h : DrDnsHeader}
    (hfit : DR_DNS_HEADER_SIZE + question.length ≤ out.length) :
    overlay (overlay out DR_DNS_HEADER_SIZE question) 0 (headerBytes h) =
      overlay out 0 (headerBytes h ++ question) := by
  have hmeet : 0 + (headerBytes h).length + question.length ≤ out.length := by
    rw [length_headerBytes]
    omega
  have ho := overlay_overlay_before hmeet
  rwa [Nat.zero_add, length_headerBytes] at ho

/-- With a question in place and room behind it the header and the answer are filled in. -/
theorem drDnsBuildAResponse_of_question {query out question : Bytes} {parsed : DrParsedQuery}
    (ipv4Be : Ipv4Be) (ttl : UInt32) (hout : out.length = DR_DNS_MAX_PACKET_SIZE)
    (hend : ¬ (parsed.questionEndOffset > query.length ∨
      parsed.questionEndOffset + 16 > DR_DNS_MAX_PACKET_SIZE))
    (hquestion : copyParsedQuestion parsed out =
      .ok (overlay out DR_DNS_HEADER_SIZE question, DR_DNS_HEADER_SIZE + question.length))
    (hroom : DR_DNS_HEADER_SIZE + question.length + 16 ≤ DR_DNS_MAX_PACKET_SIZE) :
    drDnsBuildAResponse query parsed ipv4Be ttl out =
      .ok (overlay out 0 (headerBytes (answerHeader parsed) ++ question ++ answerBytes ttl ipv4Be),
        DR_DNS_HEADER_SIZE + question.length + 16) := by
  have hfront : (headerBytes (answerHeader parsed) ++ question).length =
      DR_DNS_HEADER_SIZE + question.length := by rw [List.length_append, length_headerBytes]
  have hlen : DR_DNS_HEADER_SIZE ≤ (overlay out DR_DNS_HEADER_SIZE question).length := by
    rw [length_overlay (by omega)]
    omega
  have hanswer := writeAnswer_of_le ttl ipv4Be
    (show (headerBytes (answerHeader parsed) ++ question).length + 16 ≤ out.length by omega)
  rw [hfront] at hanswer
  rw [drDnsBuildAResponse, if_neg hend, hquestion, Outcome.ok_bind]
  dsimp only
  rw [if_neg (by omega)]
  change (do
    let out ← writeHeader (overlay out DR_DNS_HEADER_SIZE question) (answerHeader parsed)
    let out ← writeAnswer out (DR_DNS_HEADER_SIZE + question.length) ttl ipv4Be
    pure (out, DR_DNS_HEADER_SIZE + question.length + 16) : Call (Bytes × Nat)) = _
  rw [writeHeader_of_le hlen, overlay_header (by omega), Outcome.ok_bind, hanswer]
  rfl

/-- A local answer is the header, the question rebuilt from the text, and one A record. -/
theorem drDnsBuildAResponse_sat (query : Bytes) (parsed : DrParsedQuery) (ipv4Be : Ipv4Be)
    (ttl : UInt32) {out : Bytes} (hout : out.length = DR_DNS_MAX_PACKET_SIZE) :
    Sat (drDnsBuildAResponse query parsed ipv4Be ttl out) (fun r => ∃ labels,
      Encodes (cstr parsed.qname).octets labels ∧
      r.2 ≤ DR_DNS_MAX_PACKET_SIZE ∧ r.1.length = DR_DNS_MAX_PACKET_SIZE ∧
      r.1.take r.2 = headerBytes (answerHeader parsed) ++
        questionBytes labels parsed.qtype parsed.qclass ++ answerBytes ttl ipv4Be) := by
  by_cases hend : parsed.questionEndOffset > query.length ∨
      parsed.questionEndOffset + 16 > DR_DNS_MAX_PACKET_SIZE
  · rw [drDnsBuildAResponse, if_pos hend]
    trivial
  have hsat : Sat (copyParsedQuestion parsed out) _ := copyParsedQuestion_sat hout
  cases hquestion : copyParsedQuestion parsed out with
  | stuck => exact absurd hquestion hsat.not_stuck
  | fail e =>
    rw [drDnsBuildAResponse, if_neg hend, hquestion]
    trivial
  | ok r =>
    obtain ⟨out', answerOffset⟩ := r
    obtain ⟨labels, hencodes, hout', hoffset, _⟩ := hsat.of_eq_ok hquestion
    dsimp only at hout' hoffset
    generalize hq : questionBytes labels parsed.qtype parsed.qclass = question at *
    subst hout' hoffset
    by_cases hroom : DR_DNS_HEADER_SIZE + question.length + 16 ≤ DR_DNS_MAX_PACKET_SIZE
    · rw [drDnsBuildAResponse_of_question ipv4Be ttl hout hend hquestion hroom]
      have hwhole : (headerBytes (answerHeader parsed) ++ question ++ answerBytes ttl ipv4Be).length =
          DR_DNS_HEADER_SIZE + question.length + 16 := by
        rw [List.length_append, List.length_append, length_headerBytes, length_answerBytes]
      have htake := take_overlay_zero (b := out) (by omega : (headerBytes (answerHeader parsed) ++
        question ++ answerBytes ttl ipv4Be).length ≤ out.length)
      rw [hwhole] at htake
      refine ⟨labels, hencodes, by dsimp only; omega, ?_, hq ▸ htake⟩
      dsimp only
      rw [length_overlay (by omega), hout]
    · rw [drDnsBuildAResponse, if_neg hend, hquestion, Outcome.ok_bind]
      dsimp only
      rw [if_pos (by omega)]
      trivial

/-- The header of an error response. -/
def errorHeader (header : DrDnsHeader) (rcode : UInt8) (questionEnd : Nat) : DrDnsHeader where
  id := header.id
  flags := 0x8000 ||| (header.flags &&& 0x7800) ||| (header.flags &&& 0x0100) ||| 0x0080 |||
    (rcode &&& 0x0f).toUInt16
  qdcount := if questionEnd > DR_DNS_HEADER_SIZE then 1 else 0
  ancount := 0
  nscount := 0
  arcount := 0

theorem or_response_bit (flags : UInt16) : (0x8000 ||| flags) &&& 0x8000 = 0x8000 := by
  apply UInt16.toBitVec_inj.mp
  ext i hi
  interval_cases i <;> simp

/-- Both builders set the response bit. -/
theorem answerHeader_response (parsed : DrParsedQuery) :
    (answerHeader parsed).flags &&& 0x8000 = 0x8000 := by
  rw [answerHeader, UInt16.or_assoc]
  exact or_response_bit _

theorem errorHeader_response (header : DrDnsHeader) (rcode : UInt8) (questionEnd : Nat) :
    (errorHeader header rcode questionEnd).flags &&& 0x8000 = 0x8000 := by
  rw [errorHeader, UInt16.or_assoc, UInt16.or_assoc, UInt16.or_assoc]
  exact or_response_bit _

theorem errorHeader_rcode (header : DrDnsHeader) (rcode : UInt8) (questionEnd : Nat) :
    ((errorHeader header rcode questionEnd).flags &&& 0x0f).toUInt8 = rcode &&& 0x0f := by
  apply UInt8.toBitVec_inj.mp
  ext i hi
  interval_cases i <;> simp [errorHeader]

/-- The question section an error response carries: rebuilt from a parsed question, or copied
from the query. -/
inductive ErrorQuestion (query : Bytes) : Bytes → Prop where
  | parsed {q : DrParsedQuery} {labels : List Bytes} (hone : u16At query 4 = 1)
      (hparse : drDnsParseQuery query = .ok q)
      (htext : TextLabels (cstr q.qname).octets labels ∨ (cstr q.qname).octets = [dot] ∧ labels = []) :
      ErrorQuestion query (questionBytes labels q.qtype q.qclass)
  | copied {n : Nat} (hlow : DR_DNS_HEADER_SIZE ≤ n) (hhigh : n ≤ query.length) :
      ErrorQuestion query ((query.take n).drop DR_DNS_HEADER_SIZE)

/-- The buffer after the question was put there, seen through the header write that follows. -/
def QuestionIn (query out : Bytes) (r : Bytes × Nat) : Prop :=
  ∃ question, ErrorQuestion query question ∧ r.2 = DR_DNS_HEADER_SIZE + question.length ∧
    r.2 ≤ DR_DNS_MAX_PACKET_SIZE ∧ r.1.length = DR_DNS_MAX_PACKET_SIZE ∧
    ∀ h, overlay r.1 0 (headerBytes h) = overlay out 0 (headerBytes h ++ question)

theorem copyParsedQuestion_in {query out : Bytes} {q : DrParsedQuery}
    (hout : out.length = DR_DNS_MAX_PACKET_SIZE) (hone : u16At query 4 = 1)
    (hparse : drDnsParseQuery query = .ok q) :
    Sat (copyParsedQuestion q out) (QuestionIn query out) := by
  apply (copyParsedQuestion_sat hout).mono
  intro r hr
  obtain ⟨out', questionEnd⟩ := r
  obtain ⟨labels, hencodes, hout', hend, hle⟩ := hr
  dsimp only at hout' hend hle
  subst hout'
  refine ⟨_, .parsed hone hparse hencodes.text, hend, hle, ?_, fun h => overlay_header (by omega)⟩
  dsimp only
  rw [length_overlay (by omega), hout]

theorem copyQuestion_in {query out : Bytes} (hout : out.length = DR_DNS_MAX_PACKET_SIZE) :
    Sat (copyQuestion query out) (QuestionIn query out) := by
  apply (copyQuestion_sat hout).mono
  intro r hr
  obtain ⟨out', questionEnd⟩ := r
  obtain ⟨hlow, hhigh, hle, hout'⟩ := hr
  dsimp only at hlow hhigh hle hout'
  have htake : (query.take questionEnd).length = questionEnd := by
    rw [List.length_take]; omega
  subst hout'
  refine ⟨_, .copied hlow hhigh, ?_, hle, ?_, fun h => ?_⟩
  · rw [List.length_drop, htake]
    dsimp only
    omega
  · dsimp only
    rw [length_overlay (by omega), hout]
  · exact overlay_overlay_start (by rw [length_headerBytes]; omega)

/-- An error response is its header and the question section, nothing else. -/
theorem drDnsBuildErrorResponse_sat (query : Bytes) (rcode : UInt8) {out : Bytes}
    (hout : out.length = DR_DNS_MAX_PACKET_SIZE) :
    Sat (drDnsBuildErrorResponse query rcode out) (fun r => ∃ question,
      DR_DNS_HEADER_SIZE ≤ query.length ∧ ErrorQuestion query question ∧
      r.2 = DR_DNS_HEADER_SIZE + question.length ∧
      r.2 ≤ DR_DNS_MAX_PACKET_SIZE ∧ r.1.length = DR_DNS_MAX_PACKET_SIZE ∧
      r.1.take r.2 = headerBytes (errorHeader (headerAt query) rcode r.2) ++ question) := by
  unfold drDnsBuildErrorResponse
  rw [drDnsParseHeader_eq]
  by_cases hshort : query.length < DR_DNS_HEADER_SIZE
  · rw [if_pos hshort]
    trivial
  rw [if_neg hshort, Outcome.ok_bind]
  have hparsed : Sat (if (headerAt query).qdcount = 1 then (drDnsParseQuery query).attempt
      else pure none : Call (Option DrParsedQuery))
      (fun o => ∀ q, o = some q → u16At query 4 = 1 ∧ drDnsParseQuery query = .ok q) := by
    refine Sat.ite (fun hone => ?_) (fun _ => ?_)
    · exact (drDnsParseQuery_sat query).attempt.mono (fun o h q hq => ⟨hone, (h q hq).1⟩)
    · intro q hq
      cases hq
  apply hparsed.bind
  intro parsed hp
  have hquestion : Sat (match parsed with
      | some parsed => copyParsedQuestion parsed out
      | none => copyQuestion query out) (QuestionIn query out) := by
    cases parsed with
    | none => exact copyQuestion_in hout
    | some q => exact copyParsedQuestion_in hout (hp q rfl).1 (hp q rfl).2
  apply hquestion.bind
  intro r hr
  obtain ⟨out', questionEnd⟩ := r
  obtain ⟨question, hkind, hend, hle, hlen, hover⟩ := hr
  dsimp only at hend hle hlen hover
  change Sat (do
    let out ← writeHeader out' (errorHeader (headerAt query) rcode questionEnd)
    pure (out, questionEnd)) _
  rw [writeHeader_of_le (by omega), hover, Outcome.ok_bind]
  have hwhole : (headerBytes (errorHeader (headerAt query) rcode questionEnd) ++ question).length =
      questionEnd := by rw [List.length_append, length_headerBytes, hend]
  refine ⟨question, by omega, hkind, hend, hle, ?_, ?_⟩
  · dsimp only
    rw [length_overlay (by omega), hout]
  · have hfits : (headerBytes (errorHeader (headerAt query) rcode questionEnd) ++ question).length ≤
        out.length := by omega
    have htake := take_overlay_zero hfits
    rwa [hwhole] at htake

end DnsRelay.Wire
