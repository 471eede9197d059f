import DnsRelay.Wire.IdRewrite
import DnsRelay.Wire.Responses

/-!
# The question of an error response

An accepted question is rebuilt from its text, so it decodes in the response. Any other
question is copied octet by octet while the header around it changes: whether the copy
decodes depends on where its pointers lead, which `skip_name` checks against the length
of the query and not of the copy.
-/
namespace DnsRelay.Wire

open DnsRelay.Foundation
open Outcome (Sat)

theorem bytes16_be16 (hi lo : UInt8) : bytes16 (be16 hi lo) = [hi, lo] := by
  have hhi := hi.toNat_lt
  have hlo := lo.toNat_lt
  have hboth := bytes16_toNat (be16 hi lo)
  rw [be16_toNat] at hboth
  have h0 : ((be16 hi lo >>> 8) &&& 0xff).toUInt8 = hi :=
    UInt8.toNat_inj.mp (by rw [hboth.1]; omega)
  have h1 : (be16 hi lo &&& 0xff).toUInt8 = lo := UInt8.toNat_inj.mp (by rw [hboth.2]; omega)
  rw [bytes16, h0, h1]

/-- The flags of an error response, octet by octet: opcode and RD of the query in the first, the
response code in the second. -/
theorem errorFlags_eq (hi lo rcode : UInt8) :
    0x8000 ||| (be16 hi lo &&& 0x7800) ||| (be16 hi lo &&& 0x0100) ||| 0x0080 |||
      (rcode &&& 0x0f).toUInt16 = be16 (0x80 ||| (hi &&& 0x79)) (0x80 ||| (rcode &&& 0x0f)) := by
  apply UInt16.toBitVec_inj.mp
  ext i hi'
  interval_cases i <;> simp [be16]

/-- What surrounds a copied question in an error response: the ID of the query, its opcode and RD
under the response bits, the response code and the counts 1, 0, 0, 0, then the copied octets. -/
def echoed (query : Bytes) (rcode : UInt8) (stop : Nat) : Bytes :=
  [octet query 0, octet query 1, 0x80 ||| (octet query 2 &&& 0x79), 0x80 ||| (rcode &&& 0x0f),
    0, 1, 0, 0, 0, 0, 0, 0] ++ (query.take stop).drop DR_DNS_HEADER_SIZE

theorem echoed_eq (query : Bytes) (rcode : UInt8) {stop : Nat} (hstop : DR_DNS_HEADER_SIZE < stop) :
    headerBytes (errorHeader (headerAt query) rcode stop) ++
      (query.take stop).drop DR_DNS_HEADER_SIZE = echoed query rcode stop := by
  rw [echoed]
  congr 1
  simp only [headerBytes, errorHeader, headerAt, u16At, if_pos (show stop > DR_DNS_HEADER_SIZE from hstop),
    errorFlags_eq, bytes16_be16]
  rfl

/-- The first question as far as `copy_question` looks at it: a name it can walk over, with type and
class behind it. -/
def WalkedQuestion (query : Bytes) (span : Nat) : Prop :=
  1 ≤ u16At query 4 ∧ NameSpan query DR_DNS_HEADER_SIZE span ∧
    DR_DNS_HEADER_SIZE + span + 4 ≤ query.length

theorem copiedEnd_eq {query : Bytes} {span : Nat} (h : WalkedQuestion query span) :
    copiedEnd query = DR_DNS_HEADER_SIZE + span + 4 := by
  obtain ⟨hone, hspan, hfit⟩ := h
  simp only [copiedEnd, if_pos (show u16At query 4 ≥ 1 from hone), skipName_eq_ok_iff.mpr hspan,
    Outcome.toOption, if_pos hfit]

theorem copiedEnd_cases (query : Bytes) :
    (∃ span, WalkedQuestion query span) ∨
      (∀ span, ¬ WalkedQuestion query span) ∧ copiedEnd query = DR_DNS_HEADER_SIZE := by
  by_cases h : ∃ span, WalkedQuestion query span
  · exact Or.inl h
  · refine Or.inr ⟨fun span hspan => h ⟨span, hspan⟩, ?_⟩
    unfold copiedEnd
    split
    · next n hn =>
      rw [if_neg]
      intro hfit
      split at hn
      · next hone =>
        exact h ⟨n, hone, skipName_eq_ok_iff.mp (Outcome.toOption_eq_some.mp hn), hfit⟩
      · cases hn
    · rfl

theorem drDnsBuildErrorResponse_copied {query out : Bytes} (rcode : UInt8)
    (hlow : DR_DNS_HEADER_SIZE ≤ query.length) (hhigh : query.length ≤ DR_DNS_MAX_PACKET_SIZE)
    (hout : out.length = DR_DNS_MAX_PACKET_SIZE) (hfail : ∀ q, drDnsParseQuery query ≠ .ok q) :
    ∃ built, drDnsBuildErrorResponse query rcode out = .ok (built, copiedEnd query) ∧
      built.take (copiedEnd query) = headerBytes (errorHeader (headerAt query) rcode
        (copiedEnd query)) ++ (query.take (copiedEnd query)).drop DR_DNS_HEADER_SIZE := by
  obtain ⟨hmin, hmax⟩ := copiedEnd_bounds hlow
  have htake : (query.take (copiedEnd query)).length = copiedEnd query := by
    rw [List.length_take]; omega
  have hnone : (drDnsParseQuery query).toOption = none := by
    cases hparse : drDnsParseQuery query with
    | ok q => exact absurd hparse (hfail q)
    | fail e => rfl
    | stuck => rfl
  rw [drDnsBuildErrorResponse_eq hlow, hnone]
  dsimp only
  rw [copyQuestion_eq hlow hhigh hout, Outcome.ok_bind]
  dsimp only
  rw [writeHeader_of_le (by rw [length_overlay (by omega)]; omega), Outcome.ok_bind]
  refine ⟨_, rfl, ?_⟩
  rw [overlay_overlay_start (by rw [length_headerBytes, htake]; exact hmin), length_headerBytes]
  generalize hw : headerBytes (errorHeader (headerAt query) rcode (copiedEnd query)) ++
      (query.take (copiedEnd query)).drop DR_DNS_HEADER_SIZE = whole
  have hlen : whole.length = copiedEnd query := by
    rw [← hw, List.length_append, length_headerBytes, List.length_drop, htake]
    omega
  have hprefix := take_overlay_zero (show whole.length ≤ out.length by omega)
  rwa [hlen] at hprefix

theorem drDnsBuildErrorResponse_rebuilt {query out : Bytes} {rcode : UInt8} {q : DrParsedQuery}
    (hlow : DR_DNS_HEADER_SIZE ≤ query.length) (hout : out.length = DR_DNS_MAX_PACKET_SIZE)
    (hparse : drDnsParseQuery query = .ok q) :
    Sat (drDnsBuildErrorResponse query rcode out) (fun r => ∃ labels,
      Encodes (cstr q.qname).octets labels ∧
      r.2 = DR_DNS_HEADER_SIZE + (questionBytes labels q.qtype q.qclass).length ∧
      r.1.take r.2 = headerBytes (errorHeader (headerAt query) rcode r.2) ++
        questionBytes labels q.qtype q.qclass) := by
  rw [drDnsBuildErrorResponse_eq hlow, Outcome.toOption_eq_some.mpr hparse]
  apply (copyParsedQuestion_sat hout).bind
  intro r hr
  obtain ⟨out', questionEnd⟩ := r
  obtain ⟨labels, hencodes, hout', hend, hmax⟩ := hr
  dsimp only at hout' hend hmax ⊢
  generalize hq : questionBytes labels q.qtype q.qclass = question at *
  subst hout'
  rw [writeHeader_of_le (by rw [length_overlay (by omega)]; omega), overlay_header (by omega),
    Outcome.ok_bind]
  refine ⟨labels, hencodes, hq ▸ hend, ?_⟩
  dsimp only
  rw [hq]
  generalize hw : headerBytes (errorHeader (headerAt query) rcode questionEnd) ++ question = whole
  have hlen : whole.length = questionEnd := by
    rw [← hw, List.length_append, length_headerBytes, hend]
  have hprefix := take_overlay_zero (show whole.length ≤ out.length by omega)
  rwa [hlen] at hprefix

/-- Each response the builder makes has no question and ends behind the header, or has one and is
accepted by the parser with the question at its very end. -/
def SelfContained (query : Bytes) (rcode : UInt8) (out : Bytes) : Prop :=
  ∀ r, drDnsBuildErrorResponse query rcode out = .ok r →
    u16At (r.1.take r.2) 4 = 0 ∧ r.2 = DR_DNS_HEADER_SIZE ∨
    u16At (r.1.take r.2) 4 = 1 ∧
      ∃ q, drDnsParseQuery (r.1.take r.2) = .ok q ∧ q.questionEndOffset = r.2

/-- The name of a copied question, among the octets that surround it in a response, is a chain the
decoder follows to its end. -/
def EchoDecodes (query : Bytes) (rcode : UInt8) (span : Nat) : Prop :=
  ∃ jumps labels, NameAt (echoed query rcode (DR_DNS_HEADER_SIZE + span + 4)) DR_DNS_HEADER_SIZE
    jumps labels span ∧ jumps ≤ 16 ∧ (nameText labels).length ≤ DR_DNS_MAX_DOMAIN_LEN

theorem length_echoed {query : Bytes} (rcode : UInt8) {stop : Nat} (hlow : DR_DNS_HEADER_SIZE ≤ stop)
    (hhigh : stop ≤ query.length) : (echoed query rcode stop).length = stop := by
  have htake : (query.take stop).length = stop := by rw [List.length_take]; omega
  rw [echoed, List.length_append, List.length_drop, htake]
  change DR_DNS_HEADER_SIZE + (stop - DR_DNS_HEADER_SIZE) = stop
  omega

/-- The parser's view of a copied question. -/
theorem echo_accepted_iff {query : Bytes} (rcode : UInt8) {span : Nat}
    (hwalk : WalkedQuestion query span) :
    (∃ q, drDnsParseQuery (echoed query rcode (DR_DNS_HEADER_SIZE + span + 4)) = .ok q ∧
      q.questionEndOffset = DR_DNS_HEADER_SIZE + span + 4) ↔ EchoDecodes query rcode span := by
  have hlen := length_echoed rcode (show DR_DNS_HEADER_SIZE ≤ DR_DNS_HEADER_SIZE + span + 4 by omega)
    hwalk.2.2
  constructor
  · intro h
    obtain ⟨q, hparse, hend⟩ := h
    obtain ⟨labels, jumps, extent, hparsed⟩ := parsedAs_of_ok hparse
    have hextent : extent = span := by have hstop := hparsed.questionEnd; omega
    exact ⟨jumps, labels, hextent ▸ hparsed.name, hparsed.budget, hparsed.text⟩
  · intro h
    obtain ⟨jumps, labels, hname, hjumps, htext⟩ := h
    generalize hpacket : echoed query rcode (DR_DNS_HEADER_SIZE + span + 4) = packet at *
    have hcount : u16At packet 4 = be16 0 1 := by rw [← hpacket]; rfl
    have hone : u16At packet 4 = 1 := hcount.trans (by decide)
    exact ⟨_, drDnsParseQuery_of_parsedAs (parsedAs_of_name hone hname hjumps htext hlen.ge), rfl⟩

theorem selfContained_rebuilt {query out : Bytes} {rcode : UInt8} {q : DrParsedQuery}
    (hlow : DR_DNS_HEADER_SIZE ≤ query.length) (hout : out.length = DR_DNS_MAX_PACKET_SIZE)
    (hparse : drDnsParseQuery query = .ok q) : SelfContained query rcode out := by
  intro r hr
  obtain ⟨labels, hencodes, hend, hresponse⟩ :=
    (drDnsBuildErrorResponse_rebuilt hlow hout hparse).of_eq_ok hr
  have hquestion := length_questionBytes labels q.qtype q.qclass
  have hone : (errorHeader (headerAt query) rcode r.2).qdcount = 1 := if_pos (by omega)
  have hparsed := parsedAs_rebuilt q.qtype q.qclass [] hone hencodes
  rw [List.append_nil, ← hresponse] at hparsed
  refine Or.inr ⟨hparsed.qdcount, _, drDnsParseQuery_of_parsedAs hparsed, ?_⟩
  have hstop := hparsed.questionEnd
  omega

theorem selfContained_copied_iff {query out : Bytes} {rcode : UInt8} {span : Nat}
    (hhigh : query.length ≤ DR_DNS_MAX_PACKET_SIZE) (hout : out.length = DR_DNS_MAX_PACKET_SIZE)
    (hfail : ∀ q, drDnsParseQuery query ≠ .ok q) (hwalk : WalkedQuestion query span) :
    SelfContained query rcode out ↔ EchoDecodes query rcode span := by
  have hfit := hwalk.2.2
  obtain ⟨built, hbuilt, hresponse⟩ := drDnsBuildErrorResponse_copied rcode (by omega) hhigh hout hfail
  rw [copiedEnd_eq hwalk] at hbuilt hresponse
  rw [echoed_eq query rcode (by omega)] at hresponse
  rw [← echo_accepted_iff rcode hwalk, ← hresponse]
  have hone : u16At (built.take (DR_DNS_HEADER_SIZE + span + 4)) 4 = 1 := by
    have hcount : u16At (echoed query rcode (DR_DNS_HEADER_SIZE + span + 4)) 4 = be16 0 1 := rfl
    rw [hresponse, hcount]
    decide
  constructor
  · intro h
    rcases h _ hbuilt with ⟨hzero, _⟩ | ⟨_, haccepted⟩
    · rw [hone] at hzero
      exact absurd hzero (by decide)
    · exact haccepted
  · intro h r hr
    rw [hbuilt, Outcome.ok.injEq] at hr
    subst hr
    exact Or.inr ⟨hone, h⟩

/-- For every datagram, in terms of the octets that stand in the response. -/
theorem selfContained_iff {query out : Bytes} (rcode : UInt8)
    (hlow : DR_DNS_HEADER_SIZE ≤ query.length) (hhigh : query.length ≤ DR_DNS_MAX_PACKET_SIZE)
    (hout : out.length = DR_DNS_MAX_PACKET_SIZE) :
    SelfContained query rcode out ↔ (∃ q, drDnsParseQuery query = .ok q) ∨
      ∀ span, WalkedQuestion query span → EchoDecodes query rcode span := by
  by_cases hparse : ∃ q, drDnsParseQuery query = .ok q
  · obtain ⟨q, hq⟩ := hparse
    exact iff_of_true (selfContained_rebuilt hlow hout hq) (Or.inl ⟨q, hq⟩)
  have hfail : ∀ q, drDnsParseQuery query ≠ .ok q := fun q hq => hparse ⟨q, hq⟩
  rw [or_iff_right hparse]
  rcases copiedEnd_cases query with ⟨span, hwalk⟩ | ⟨hnone, hend⟩
  · rw [selfContained_copied_iff hhigh hout hfail hwalk]
    constructor
    · intro h span' hwalk'
      have heq : span' = span := by
        have h1 := copiedEnd_eq hwalk
        have h2 := copiedEnd_eq hwalk'
        omega
      exact heq ▸ h
    · intro h
      exact h span hwalk
  · obtain ⟨built, hbuilt, hresponse⟩ := drDnsBuildErrorResponse_copied rcode hlow hhigh hout hfail
    apply iff_of_true
    · intro r hr
      rw [hbuilt, Outcome.ok.injEq] at hr
      subst hr
      refine Or.inl ⟨?_, hend⟩
      dsimp only
      rw [hresponse, hend]
      exact be16_bytes16 0
    · intro span hwalk
      exact absurd hwalk (hnone span)

/-- The query up to the end of its first question. -/
def throughQuestion (query : Bytes) (span : Nat) : Bytes :=
  query.take (DR_DNS_HEADER_SIZE + span + 4)

/-- A pointer of the first question leads into the header of the query. -/
def EntersHeader (query : Bytes) (span : Nat) : Prop :=
  ∃ target < DR_DNS_HEADER_SIZE, Visits (throughQuestion query span) DR_DNS_HEADER_SIZE target

/-- The first question of the query needs no octets but its own: followed from octet 12 on, its name
ends in front of the end of the question and never leads into the header. -/
structure StandsAlone (query : Bytes) (span : Nat) : Prop where
  name : ∃ jumps labels, NameAt (throughQuestion query span) DR_DNS_HEADER_SIZE jumps labels span ∧
    jumps ≤ 16 ∧ (nameText labels).length ≤ DR_DNS_MAX_DOMAIN_LEN
  own : ¬ EntersHeader query span

/-- The question is accepted, or it stands alone as far as there is one to copy. -/
def GoodQuestion (query : Bytes) : Prop :=
  (∃ q, drDnsParseQuery query = .ok q) ∨ ∀ span, WalkedQuestion query span → StandsAlone query span

theorem agreeFrom_echoed {query : Bytes} (rcode : UInt8) {span : Nat}
    (hwalk : WalkedQuestion query span) : AgreeFrom DR_DNS_HEADER_SIZE (throughQuestion query span)
      (echoed query rcode (DR_DNS_HEADER_SIZE + span + 4)) := by
  have hfit := hwalk.2.2
  have htake : (throughQuestion query span).length = DR_DNS_HEADER_SIZE + span + 4 := by
    rw [throughQuestion, List.length_take]
    omega
  refine ⟨by rw [length_echoed rcode (by omega) hfit, htake], fun i hi => ?_⟩
  obtain ⟨k, rfl⟩ := Nat.exists_eq_add_of_le hi
  rw [echoed]
  refine (octet_append_add _ _ k).trans ?_
  simp only [octet, throughQuestion, List.getD_eq_getElem?_getD, List.getElem?_drop]

/-- Off the header, the copied name decodes in a response just when the question stands alone. -/
theorem standsAlone_iff_echoDecodes {query : Bytes} (rcode : UInt8) {span : Nat}
    (hwalk : WalkedQuestion query span) (hown : ¬ EntersHeader query span) :
    StandsAlone query span ↔ EchoDecodes query rcode span := by
  have hall : ∀ i, Visits (throughQuestion query span) DR_DNS_HEADER_SIZE i → DR_DNS_HEADER_SIZE ≤ i := by
    intro i hi
    by_contra hlow
    exact hown ⟨i, by omega, hi⟩
  have hsame {jumps : Nat} {labels : List Bytes} :
      NameAt (echoed query rcode (DR_DNS_HEADER_SIZE + span + 4)) DR_DNS_HEADER_SIZE jumps labels span ↔
        NameAt (throughQuestion query span) DR_DNS_HEADER_SIZE jumps labels span :=
    (agreeFrom_echoed rcode hwalk).nameAt_iff hall
  constructor
  · rintro ⟨⟨jumps, labels, hname, hlimits⟩, _⟩
    exact ⟨jumps, labels, hsame.mpr hname, hlimits⟩
  · rintro ⟨jumps, labels, hname, hlimits⟩
    exact ⟨⟨jumps, labels, hsame.mp hname, hlimits⟩, hown⟩

/-- The error responses to a datagram are self-contained if its question is good, and only then
unless a pointer of the copied question leads into the header, which is written over. -/
theorem error_response_self_contained {query out : Bytes} (rcode : UInt8)
    (hlow : DR_DNS_HEADER_SIZE ≤ query.length) (hhigh : query.length ≤ DR_DNS_MAX_PACKET_SIZE)
    (hout : out.length = DR_DNS_MAX_PACKET_SIZE) :
    (GoodQuestion query → SelfContained query rcode out) ∧
      (SelfContained query rcode out → GoodQuestion query ∨
        ∃ span, WalkedQuestion query span ∧ EntersHeader query span) := by
  have hiff := selfContained_iff rcode hlow hhigh hout
  constructor
  · intro hgood
    rw [hiff]
    refine hgood.imp_right (fun h span hwalk => ?_)
    have halone := h span hwalk
    exact (standsAlone_iff_echoDecodes rcode hwalk halone.own).mp halone
  · intro hcontained
    rcases hiff.mp hcontained with haccepted | hechoes
    · exact Or.inl (Or.inl haccepted)
    · by_cases henters : ∃ span, WalkedQuestion query span ∧ EntersHeader query span
      · exact Or.inr henters
      · refine Or.inl (Or.inr (fun span hwalk => ?_))
        have hown : ¬ EntersHeader query span := fun h => henters ⟨span, hwalk, h⟩
        exact (standsAlone_iff_echoDecodes rcode hwalk hown).mpr (hechoes span hwalk)

/-- Two questions, the name of the second a pointer to the name of the first. -/
def twoQuestions : Bytes :=
  [0, 1, 1, 0, 0, 2, 0, 0, 0, 0, 0, 0, 1, 0x61, 0, 0, 1, 0, 1, 0xc0, 12, 0, 1, 0, 1]

/-- Its first question is copied, and accepted in the FORMERR. -/
theorem error_response_self_contained_twoQuestions : ∃ r,
    drDnsBuildErrorResponse twoQuestions DR_DNS_RCODE_FORMERR
      (List.replicate DR_DNS_MAX_PACKET_SIZE 0) = .ok r ∧
      r.1.take r.2 = [0, 1, 0x81, 0x81, 0, 1, 0, 0, 0, 0, 0, 0, 1, 0x61, 0, 0, 1, 0, 1] ∧
      ∃ q, drDnsParseQuery (r.1.take r.2) = .ok q ∧ q.questionEndOffset = r.2 := by
  have hwalk : WalkedQuestion twoQuestions 3 :=
    ⟨by decide, skipName_eq_ok_iff.mp (by decide +kernel), by decide⟩
  have hname : NameAt (throughQuestion twoQuestions 3) DR_DNS_HEADER_SIZE 0 [[0x61]] 3 :=
    .label (by decide) (by decide) (by decide) (by decide) (.root (by decide) (by decide))
  have hown : ¬ EntersHeader twoQuestions 3 := by
    rintro ⟨target, htarget, hvisits⟩
    exact absurd (hname.visits_forwards hvisits) (by omega)
  have hgood : GoodQuestion twoQuestions := by
    refine Or.inr (fun span hspan => ?_)
    obtain rfl : span = 3 := by
      have hend := (copiedEnd_eq hspan).symm.trans (copiedEnd_eq hwalk)
      omega
    exact ⟨⟨0, _, hname, by decide, by decide⟩, hown⟩
  have hout : (List.replicate DR_DNS_MAX_PACKET_SIZE (0 : UInt8)).length = DR_DNS_MAX_PACKET_SIZE :=
    List.length_replicate
  have hcontained := (error_response_self_contained DR_DNS_RCODE_FORMERR (by decide) (by decide)
    hout).1 hgood
  have hrun : (drDnsBuildErrorResponse twoQuestions DR_DNS_RCODE_FORMERR
      (List.replicate DR_DNS_MAX_PACKET_SIZE 0)).toOption.map (fun r => r.1.take r.2) =
        some [0, 1, 0x81, 0x81, 0, 1, 0, 0, 0, 0, 0, 0, 1, 0x61, 0, 0, 1, 0, 1] := by
    decide +kernel
  obtain ⟨r, hr, hresponse⟩ := Option.map_eq_some_iff.mp hrun
  have hbuilt := Outcome.toOption_eq_some.mp hr
  rcases hcontained r hbuilt with ⟨hzero, _⟩ | ⟨_, haccepted⟩
  · rw [hresponse] at hzero
    exact absurd hzero (by decide)
  · exact ⟨r, hbuilt, hresponse, haccepted⟩

-- a pointer into the header goes both ways: octet 6 is a count that is 0, octet 2 has flags
example : [6, 2].map (fun target =>
    (drDnsBuildErrorResponse [0, 1, 1, 0, 0, 2, 0, 0, 0, 0, 0, 0, 0xc0, target, 0, 1, 0, 1]
      DR_DNS_RCODE_FORMERR (List.replicate DR_DNS_MAX_PACKET_SIZE 0)).toOption.bind
        (fun r => (drDnsParseQuery (r.1.take r.2)).toOption.map DrParsedQuery.questionEndOffset)) =
    [some 18, none] := by decide +kernel

/-- Two questions, the name of the first a pointer to the name of the second. -/
def forwardQuestion : Bytes :=
  [0, 1, 1, 0, 0, 2, 0, 0, 0, 0, 0, 0, 0xc0, 18, 0, 1, 0, 1, 1, 0x61, 0, 0, 1, 0, 1]

/-- The FORMERR to it ends with its first question, which points behind the end. -/
theorem forward_question_dangles : ∃ r,
    drDnsBuildErrorResponse forwardQuestion DR_DNS_RCODE_FORMERR
      (List.replicate DR_DNS_MAX_PACKET_SIZE 0) = .ok r ∧
      u16At (r.1.take r.2) 4 = 1 ∧ ∀ q, drDnsParseQuery (r.1.take r.2) ≠ .ok q := by
  have hrun : (drDnsBuildErrorResponse forwardQuestion DR_DNS_RCODE_FORMERR
      (List.replicate DR_DNS_MAX_PACKET_SIZE 0)).toOption.map (fun r =>
        (u16At (r.1.take r.2) 4, (drDnsParseQuery (r.1.take r.2)).toOption)) = some (1, none) := by
    decide +kernel
  obtain ⟨r, hr, hresult⟩ := Option.map_eq_some_iff.mp hrun
  rw [Prod.mk.injEq] at hresult
  refine ⟨r, Outcome.toOption_eq_some.mp hr, hresult.1, ?_⟩
  intro q hq
  rw [hq] at hresult
  cases hresult.2

end DnsRelay.Wire
