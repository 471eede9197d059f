import DnsRelay.Wire.NameEncoding

/-!
# Responses read back

What the parser says about the responses the relay builds itself, and for which
datagrams there is one. A question section rebuilt from text is accepted with the labels
that were written, whatever follows it.
-/
namespace DnsRelay.Wire

open DnsRelay.Foundation
open Outcome (Sat)

/-- What the parser says about a question rebuilt under a header. -/
def rebuiltQuery (h : DrDnsHeader) (labels : List Bytes) (qtype qclass : UInt16) : DrParsedQuery where
  id := h.id
  flags := h.flags
  qtype := qtype
  qclass := qclass
  opcode := ((h.flags >>> 11) &&& 0x0f).toUInt8
  qr := ((h.flags >>> 15) &&& 0x01).toUInt8
  qname := overlay (List.replicate (DR_DNS_MAX_DOMAIN_LEN + 1) 0) 0 (nameText labels ++ [0])
  questionEndOffset := DR_DNS_HEADER_SIZE + ((wireLabels labels).length + 1) + 4

theorem length_questionBytes (labels : List Bytes) (qtype qclass : UInt16) :
    (questionBytes labels qtype qclass).length = (wireLabels labels).length + 1 + 4 := by
  simp only [questionBytes, List.length_append, length_bytes16, List.length_singleton]

theorem Encodes.length_nameText {text : Bytes} {labels : List Bytes} (h : Encodes text labels) :
    (nameText labels).length ≤ DR_DNS_MAX_DOMAIN_LEN := by
  have hshort := h.short
  rw [DR_DNS_MAX_DOMAIN_LEN] at hshort ⊢
  rw [length_nameText_le_iff (by omega)]
  by_cases hnil : labels = []
  · simp [hnil]
  · have hwire := length_wireLabels hnil
    omega

/-- The two fields behind the name of a rebuilt question. -/
theorem questionBytes_fields (front rest : Bytes) (labels : List Bytes) (qtype qclass : UInt16) :
    u16At (front ++ (questionBytes labels qtype qclass ++ rest))
        (front.length + ((wireLabels labels).length + 1)) = qtype ∧
      u16At (front ++ (questionBytes labels qtype qclass ++ rest))
        (front.length + ((wireLabels labels).length + 1) + 2) = qclass := by
  have hfields : questionBytes labels qtype qclass ++ rest =
      (wireLabels labels ++ [0]) ++ (bytes16 qtype ++ (bytes16 qclass ++ rest)) := by
    simp [questionBytes]
  have hlen : (wireLabels labels ++ [0]).length = (wireLabels labels).length + 1 := by simp
  rw [Nat.add_assoc front.length, u16At_append_add, u16At_append_add, hfields, ← hlen]
  constructor
  · have h := u16At_append_add (wireLabels labels ++ [0]) (bytes16 qtype ++ (bytes16 qclass ++ rest)) 0
    rw [Nat.add_zero] at h
    rw [h]
    exact be16_bytes16 qtype
  · rw [u16At_append_add]
    exact be16_bytes16 qclass

/-- The parser accepts a rebuilt question with the labels it was built from. -/
theorem parsedAs_rebuilt {h : DrDnsHeader} {text : Bytes} {labels : List Bytes}
    (qtype qclass : UInt16) (rest : Bytes) (hone : h.qdcount = 1) (hencodes : Encodes text labels) :
    ParsedAs (headerBytes h ++ (questionBytes labels qtype qclass ++ rest))
      (rebuiltQuery h labels qtype qclass) labels 0 ((wireLabels labels).length + 1) := by
  have hlen : (headerBytes h ++ (questionBytes labels qtype qclass ++ rest)).length =
      DR_DNS_HEADER_SIZE + ((wireLabels labels).length + 1 + 4 + rest.length) := by
    simp only [List.length_append, length_headerBytes, length_questionBytes]
  have hname := nameAt_wireLabels (headerBytes h) (bytes16 qtype ++ (bytes16 qclass ++ rest))
    hencodes.sizes
  have hpacket : wireLabels labels ++ 0 :: (bytes16 qtype ++ (bytes16 qclass ++ rest)) =
      questionBytes labels qtype qclass ++ rest := by simp [questionBytes]
  rw [hpacket, length_headerBytes] at hname
  have hfields := questionBytes_fields (headerBytes h) rest labels qtype qclass
  rw [length_headerBytes] at hfields
  exact {
    header := by omega
    id := (be16_bytes16 h.id).symm
    flags := (be16_bytes16 h.flags).symm
    qdcount := (be16_bytes16 h.qdcount).trans hone
    opcode := rfl
    qr := rfl
    name := hname
    budget := Nat.zero_le _
    text := hencodes.length_nameText
    qname := rfl
    questionEnd := rfl
    inside := by simp only [rebuiltQuery]; omega
    qtype := hfields.1.symm
    qclass := hfields.2.symm }

theorem NameAt.extent_le_wire {packet : Bytes} {pos jumps extent : Nat} {labels : List Bytes}
    (h : NameAt packet pos jumps labels extent) : extent ≤ (wireLabels labels).length + 2 := by
  induction h with
  | root => simp
  | label hpos hlow hhigh hfit rest ih =>
    rw [wireLabels_cons, List.length_append, List.length_cons, length_slice hfit]
    omega
  | jump => omega

/-- The octets of an accepted name are bounded by its text. -/
theorem ParsedAs.extent_le {packet : Bytes} {q : DrParsedQuery} {labels : List Bytes}
    {jumps extent : Nat} (h : ParsedAs packet q labels jumps extent) :
    extent ≤ DR_DNS_MAX_DOMAIN_LEN + 3 := by
  have hextent := h.name.extent_le_wire
  have htext := h.text
  rw [DR_DNS_MAX_DOMAIN_LEN, length_nameText_le_iff (by omega)] at htext
  simp only [DR_DNS_MAX_DOMAIN_LEN]
  by_cases hnil : labels = []
  · subst hnil
    simp only [wireLabels_nil, List.length_nil] at hextent
    omega
  · have hwire := length_wireLabels hnil
    omega

theorem runsLe_nameText {labels : List Bytes} (h : ∀ l ∈ labels, l.length ≤ 63) :
    RunsLe 63 (nameText labels) := by
  unfold nameText
  split
  · intro w hw _
    exact hw.length_le.trans (by decide)
  · apply runsLe_separated
    intro w hw
    obtain ⟨l, hl, rfl⟩ := List.mem_map.mp hw
    rw [lower, List.length_map]
    exact h l hl

theorem cstr_octets_prefix (buf : Bytes) : (cstr buf).octets <+: buf := List.takeWhile_prefix _

/-- The string of an accepted question keeps the decoder's limits. -/
theorem ParsedAs.text_limits {packet : Bytes} {q : DrParsedQuery} {labels : List Bytes}
    {jumps extent : Nat} (h : ParsedAs packet q labels jumps extent) :
    RunsLe 63 (cstr q.qname).octets ∧ (cstr q.qname).octets.length ≤ DR_DNS_MAX_DOMAIN_LEN := by
  rw [h.cstr_qname]
  have hprefix := cstr_octets_prefix (nameText labels)
  have hruns := runsLe_nameText (fun l hl => (h.name.labels_ne_nil l hl).2)
  exact ⟨hruns.part hprefix.isInfix, hprefix.length_le.trans h.text⟩

/-- A question the decoder accepted is rebuilt exactly when its string is encodable. -/
theorem copyParsedQuestion_succeeds_iff {packet out : Bytes} {q : DrParsedQuery}
    {labels : List Bytes} {jumps extent : Nat} (h : ParsedAs packet q labels jumps extent)
    (hout : out.length = DR_DNS_MAX_PACKET_SIZE) :
    (∃ r, copyParsedQuestion q out = .ok r) ↔ Encodable (cstr q.qname).octets := by
  obtain ⟨hruns, hlen⟩ := h.text_limits
  have hfit : DR_DNS_HEADER_SIZE + (DR_DNS_MAX_PACKET_SIZE - DR_DNS_HEADER_SIZE) ≤ out.length := by
    rw [hout]; decide
  rw [← writeName_succeeds_iff hfit (by decide) hruns hlen]
  unfold copyParsedQuestion
  constructor
  · intro hcopied
    obtain ⟨r, hr⟩ := hcopied
    cases hname : writeName (cstr q.qname) out DR_DNS_HEADER_SIZE
        (DR_DNS_MAX_PACKET_SIZE - DR_DNS_HEADER_SIZE) with
    | ok written => exact ⟨written, rfl⟩
    | fail e => rw [hname] at hr; cases hr
    | stuck => rw [hname] at hr; cases hr
  · intro hwritten
    obtain ⟨⟨out', qnameLen⟩, hname⟩ := hwritten
    obtain ⟨labels', hencodes, hout', hcount, _⟩ := (writeName_sat hfit).of_eq_ok hname
    have hshort := hencodes.short
    dsimp only at hout' hcount
    have hheader : DR_DNS_HEADER_SIZE = 12 := rfl
    have hmax : DR_DNS_MAX_PACKET_SIZE = 512 := rfl
    have hdomain : DR_DNS_MAX_DOMAIN_LEN = 255 := rfl
    have hlen' : out'.length = out.length := by
      rw [hout']
      apply length_overlay
      simp only [List.length_append, List.length_singleton]
      omega
    rw [hname, Outcome.ok_bind]
    dsimp only
    rw [if_neg (by omega), writeU16_of_le (by omega), Outcome.ok_bind,
      writeU16_of_le (by rw [length_overlay (by rw [length_bytes16]; omega)]; omega)]
    exact ⟨_, rfl⟩

theorem qdcount_of_parse {packet : Bytes} {q : DrParsedQuery} (h : drDnsParseQuery packet = .ok q) :
    u16At packet 4 = 1 := by
  obtain ⟨_, _, _, hparsed⟩ := parsedAs_of_ok h
  exact hparsed.qdcount

/-- An error response rebuilds an accepted question and copies any other one. -/
theorem drDnsBuildErrorResponse_eq {query : Bytes} (hlen : DR_DNS_HEADER_SIZE ≤ query.length)
    (rcode : UInt8) (out : Bytes) :
    drDnsBuildErrorResponse query rcode out = (do
      let (out, questionEnd) ← (match (drDnsParseQuery query).toOption with
        | some parsed => copyParsedQuestion parsed out
        | none => copyQuestion query out)
      let out ← writeHeader out (errorHeader (headerAt query) rcode questionEnd)
      pure (out, questionEnd)) := by
  have hparsed : (if (headerAt query).qdcount = 1 then (drDnsParseQuery query).attempt
      else pure none : Call (Option DrParsedQuery)) = .ok (drDnsParseQuery query).toOption := by
    cases hparse : drDnsParseQuery query with
    | stuck => exact absurd hparse (drDnsParseQuery_sat query).not_stuck
    | fail e => split <;> rfl
    | ok q => rw [if_pos (show (headerAt query).qdcount = 1 from qdcount_of_parse hparse)]; rfl
  unfold drDnsBuildErrorResponse
  rw [drDnsParseHeader_eq, if_neg (by omega), Outcome.ok_bind, hparsed, Outcome.ok_bind]
  rfl

/-- Where `copy_question` stops: behind the first question when all of it is there, else behind
the header. -/
def copiedEnd (query : Bytes) : Nat :=
  match (if u16At query 4 ≥ 1 then (skipName query DR_DNS_HEADER_SIZE).toOption else none) with
  | some n =>
    if DR_DNS_HEADER_SIZE + n + 4 ≤ query.length then DR_DNS_HEADER_SIZE + n + 4
    else DR_DNS_HEADER_SIZE
  | none => DR_DNS_HEADER_SIZE

theorem copiedEnd_bounds {query : Bytes} (hlen : DR_DNS_HEADER_SIZE ≤ query.length) :
    DR_DNS_HEADER_SIZE ≤ copiedEnd query ∧ copiedEnd query ≤ query.length := by
  unfold copiedEnd
  split
  · split <;> omega
  · omega

/-- Copying never fails on a datagram the relay can receive. -/
theorem copyQuestion_eq {query out : Bytes} (hlow : DR_DNS_HEADER_SIZE ≤ query.length)
    (hhigh : query.length ≤ DR_DNS_MAX_PACKET_SIZE) (hout : out.length = DR_DNS_MAX_PACKET_SIZE) :
    copyQuestion query out =
      .ok (overlay out 0 (query.take (copiedEnd query)), copiedEnd query) := by
  have hbounds := copiedEnd_bounds hlow
  have hskip : (if (headerAt query).qdcount ≥ 1 then (skipName query DR_DNS_HEADER_SIZE).attempt
      else pure none : Call (Option Nat)) =
      .ok (if u16At query 4 ≥ 1 then (skipName query DR_DNS_HEADER_SIZE).toOption else none) := by
    by_cases hone : u16At query 4 ≥ 1
    · rw [if_pos hone, if_pos (show (headerAt query).qdcount ≥ 1 from hone)]
      cases hs : skipName query DR_DNS_HEADER_SIZE with
      | stuck => exact absurd hs (skipName_sat query DR_DNS_HEADER_SIZE).not_stuck
      | fail e => rfl
      | ok n => rfl
    · rw [if_neg hone, if_neg (show ¬ (headerAt query).qdcount ≥ 1 from hone)]
      rfl
  unfold copyQuestion
  rw [drDnsParseHeader_eq, if_neg (by omega), Outcome.ok_bind, hskip, Outcome.ok_bind]
  change (if copiedEnd query > DR_DNS_MAX_PACKET_SIZE then .fail () else do
    let out ← copyFrom out 0 query (copiedEnd query)
    pure (out, copiedEnd query) : Call (Bytes × Nat)) = _
  rw [if_neg (by omega), copyFrom_of_le hbounds.2 (by omega)]
  rfl

theorem errorHeader_fields (header : DrDnsHeader) (rcode : UInt8) (questionEnd : Nat) :
    (errorHeader header rcode questionEnd).flags &&& 0x0100 = header.flags &&& 0x0100 ∧
      (((errorHeader header rcode questionEnd).flags >>> 11) &&& 0x0f).toUInt8 =
        ((header.flags >>> 11) &&& 0x0f).toUInt8 := by
  constructor
  · apply UInt16.toBitVec_inj.mp
    ext i hi
    interval_cases i <;> simp [errorHeader]
  · apply UInt8.toBitVec_inj.mp
    ext i hi
    interval_cases i <;> simp [errorHeader]

/-- What an error response to a datagram says: the query's ID, opcode and RD, the four bits of the
response code, and no records. -/
structure ErrorAnswer (query : Bytes) (rcode : UInt8) (response : Bytes) (outLen : Nat) : Prop where
  length : response.length = outLen
  lower : DR_DNS_HEADER_SIZE ≤ outLen
  upper : outLen ≤ DR_DNS_MAX_PACKET_SIZE
  id : drDnsReadId response = drDnsReadId query
  qr : drDnsIsResponse response = true
  opcode : drDnsGetOpcode response = drDnsGetOpcode query
  rd : u16At response 2 &&& 0x0100 = u16At query 2 &&& 0x0100
  rcode : drDnsGetRcode response = rcode &&& 0x0f
  counts : u16At response 6 = 0 ∧ u16At response 8 = 0 ∧ u16At response 10 = 0

theorem errorAnswer_of_built {query out : Bytes} {rcode : UInt8} {r : Bytes × Nat}
    (hout : out.length = DR_DNS_MAX_PACKET_SIZE)
    (hbuild : drDnsBuildErrorResponse query rcode out = .ok r) :
    ErrorAnswer query rcode (r.1.take r.2) r.2 := by
  obtain ⟨question, hquery, _, hend, hmax, hsize, hresponse⟩ :=
    (drDnsBuildErrorResponse_sat query rcode hout).of_eq_ok hbuild
  have hlength : (r.1.take r.2).length = r.2 := by rw [List.length_take]; omega
  generalize r.1.take r.2 = response at *
  obtain ⟨hrd, hopcode⟩ := errorHeader_fields (headerAt query) rcode r.2
  have hlow : DR_DNS_HEADER_SIZE ≤ r.2 := by omega
  have hflags : u16At response 2 = (errorHeader (headerAt query) rcode r.2).flags := by
    rw [hresponse]
    exact (u16At_headerBytes _ question).2.1
  constructor
  case length => exact hlength
  case lower => exact hlow
  case upper => exact hmax
  case id =>
    simp only [DR_DNS_HEADER_SIZE] at hquery hlow
    rw [drDnsReadId, if_pos (by omega), drDnsReadId, if_pos (by omega), hresponse]
    exact (u16At_headerBytes _ question).1
  case qr =>
    rw [drDnsIsResponse, hflags, errorHeader_response, decide_eq_true (by omega)]
    decide
  case opcode =>
    rw [drDnsGetOpcode, if_pos (by omega), drDnsGetOpcode, if_pos hquery, hflags, hopcode]
    rfl
  case rd => rw [hflags, hrd]; rfl
  case rcode => rw [drDnsGetRcode, if_pos (by omega), hflags, errorHeader_rcode]
  case counts =>
    rw [hresponse]
    exact ⟨be16_bytes16 0, be16_bytes16 0, be16_bytes16 0⟩

/-- An error response fails on one kind of datagram only: an accepted one whose name has no
encodable string. -/
theorem drDnsBuildErrorResponse_succeeds_iff {query out : Bytes} (rcode : UInt8)
    (hlow : DR_DNS_HEADER_SIZE ≤ query.length) (hhigh : query.length ≤ DR_DNS_MAX_PACKET_SIZE)
    (hout : out.length = DR_DNS_MAX_PACKET_SIZE) :
    (∃ r, drDnsBuildErrorResponse query rcode out = .ok r) ↔
      ∀ q, drDnsParseQuery query = .ok q → Encodable (cstr q.qname).octets := by
  rw [drDnsBuildErrorResponse_eq hlow]
  have hmin : DR_DNS_HEADER_SIZE ≤ DR_DNS_MAX_PACKET_SIZE := by decide
  cases hparse : (drDnsParseQuery query).toOption with
  | none =>
    have hbounds := copiedEnd_bounds hlow
    have hfail : ∀ q, drDnsParseQuery query ≠ .ok q := by
      intro q hq
      rw [hq] at hparse
      cases hparse
    dsimp only
    rw [copyQuestion_eq hlow hhigh hout, Outcome.ok_bind]
    dsimp only
    rw [writeHeader_of_le (by rw [length_overlay (by rw [List.length_take]; omega)]; omega)]
    exact ⟨fun _ q hq => absurd hq (hfail q), fun _ => ⟨_, rfl⟩⟩
  | some q =>
    have hq := Outcome.toOption_eq_some.mp hparse
    obtain ⟨_, _, _, hparsed⟩ := parsedAs_of_ok hq
    have hcopy := copyParsedQuestion_succeeds_iff hparsed hout
    have hsat := copyParsedQuestion_in hout hparsed.qdcount hq
    dsimp only
    constructor
    · intro h q' hq'
      rw [hq, Outcome.ok.injEq] at hq'
      subst hq'
      obtain ⟨r, hr⟩ := h
      cases hcopied : copyParsedQuestion q out with
      | ok copied => exact hcopy.mp ⟨copied, hcopied⟩
      | fail e => rw [hcopied] at hr; cases hr
      | stuck => rw [hcopied] at hr; cases hr
    · intro h
      obtain ⟨⟨out', questionEnd⟩, hcopied⟩ := hcopy.mpr (h q hq)
      obtain ⟨_, _, _, _, hsize, _⟩ := hsat.of_eq_ok hcopied
      dsimp only at hsize
      rw [hcopied, Outcome.ok_bind]
      dsimp only
      rw [writeHeader_of_le (by omega)]
      exact ⟨_, rfl⟩

/-- So does the answer of a local hit. -/
theorem drDnsBuildAResponse_succeeds_iff {query out : Bytes} {parsed : DrParsedQuery}
    (ipv4Be : Ipv4Be) (ttl : UInt32) (hparse : drDnsParseQuery query = .ok parsed)
    (hout : out.length = DR_DNS_MAX_PACKET_SIZE) :
    (∃ r, drDnsBuildAResponse query parsed ipv4Be ttl out = .ok r) ↔
      Encodable (cstr parsed.qname).octets := by
  obtain ⟨labels, jumps, extent, hparsed⟩ := parsedAs_of_ok hparse
  rw [← copyParsedQuestion_succeeds_iff hparsed hout]
  have hextent := hparsed.extent_le
  have hinside := hparsed.inside
  have hstop := hparsed.questionEnd
  have hheader : DR_DNS_HEADER_SIZE = 12 := rfl
  have hmax : DR_DNS_MAX_PACKET_SIZE = 512 := rfl
  have hdomain : DR_DNS_MAX_DOMAIN_LEN = 255 := rfl
  have hend : ¬ (parsed.questionEndOffset > query.length ∨
      parsed.questionEndOffset + 16 > DR_DNS_MAX_PACKET_SIZE) := by omega
  constructor
  · intro h
    obtain ⟨r, hr⟩ := h
    rw [drDnsBuildAResponse, if_neg hend] at hr
    cases hcopied : copyParsedQuestion parsed out with
    | ok copied => exact ⟨copied, rfl⟩
    | fail e => rw [hcopied] at hr; cases hr
    | stuck => rw [hcopied] at hr; cases hr
  · intro h
    obtain ⟨⟨out', answerOffset⟩, hcopied⟩ := h
    obtain ⟨labels', hencodes, hout', hoffset, _⟩ := (copyParsedQuestion_sat hout).of_eq_ok hcopied
    have hshort := hencodes.short
    have hquestion := length_questionBytes labels' parsed.qtype parsed.qclass
    dsimp only at hout' hoffset
    subst hout' hoffset
    exact ⟨_, drDnsBuildAResponse_of_question ipv4Be ttl hout hend hcopied (by omega)⟩

end DnsRelay.Wire
