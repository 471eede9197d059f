import DnsRelay.Wire.Message

/-!
# Rewriting the transaction ID under a name

A compression pointer may lead anywhere in the packet, also to the two octets of the
transaction ID. A name that never gets there survives every rewrite of the ID; a name
that does is lost under an ID whose octets no name can start with.
-/
namespace DnsRelay.Wire

open DnsRelay.Foundation

/-- Decoding the name at one offset comes to stand at another one. -/
inductive Visits (packet : Bytes) : Nat → Nat → Prop where
  | here {pos : Nat} : Visits packet pos pos
  | label {pos target : Nat} (hlow : 1 ≤ (octet packet pos).toNat)
      (hhigh : (octet packet pos).toNat ≤ 63)
      (rest : Visits packet (pos + 1 + (octet packet pos).toNat) target) : Visits packet pos target
  | jump {pos target : Nat} (htop : 192 ≤ (octet packet pos).toNat)
      (rest : Visits packet (pointer (octet packet pos) (octet packet (pos + 1))).toNat target) :
      Visits packet pos target

/-- The name of the question follows a pointer to an octet of the transaction ID. -/
def ReadsId (packet : Bytes) : Prop := ∃ target < 2, Visits packet DR_DNS_HEADER_SIZE target

/-- Two packets that agree from an offset on. -/
structure AgreeFrom (k : Nat) (packet packet' : Bytes) : Prop where
  length : packet'.length = packet.length
  octets : ∀ i, k ≤ i → octet packet' i = octet packet i

theorem AgreeFrom.slice {k : Nat} {packet packet' : Bytes} (h : AgreeFrom k packet packet')
    {pos len : Nat} (hpos : k ≤ pos) (hfit : pos + len ≤ packet.length) :
    slice packet' pos len = slice packet pos len := by
  induction len generalizing pos with
  | zero => simp [Wire.slice]
  | succ len ih =>
    have hlen := h.length
    rw [slice_succ (by omega), slice_succ (by omega), h.octets pos hpos,
      ih (by omega) (by omega)]

theorem AgreeFrom.u16At {k : Nat} {packet packet' : Bytes} (h : AgreeFrom k packet packet')
    {i : Nat} (hi : k ≤ i) : u16At packet' i = u16At packet i := by
  rw [Foundation.u16At, Foundation.u16At, h.octets i hi, h.octets (i + 1) (by omega)]

/-- A name that only stands where two packets agree is a name of both. -/
theorem NameAt.congr {k : Nat} {packet packet' : Bytes} (h : AgreeFrom k packet packet')
    {pos jumps extent : Nat} {labels : List Bytes} (hname : NameAt packet pos jumps labels extent)
    (hvisits : ∀ target, Visits packet pos target → k ≤ target) :
    NameAt packet' pos jumps labels extent := by
  have hlen := h.length
  induction hname with
  | @root pos hpos hzero =>
    have hk := hvisits pos .here
    exact .root (by omega) (by rw [h.octets pos hk, hzero])
  | @label pos jumps extent labels hpos hlow hhigh hfit rest ih =>
    have hk := hvisits pos .here
    have hoctet := h.octets pos hk
    have htail := ih (fun target ht => hvisits target (.label hlow hhigh ht))
    rw [← h.slice (show k ≤ pos + 1 by omega) hfit]
    rw [← hoctet] at hlow hhigh hfit htail ⊢
    exact .label (by omega) hlow hhigh (by omega) htail
  | @jump pos jumps extent labels hpos htop htarget rest ih =>
    have hk := hvisits pos .here
    have hoctet := h.octets pos hk
    have hnext := h.octets (pos + 1) (by omega)
    have htail := ih (fun target ht => hvisits target (.jump htop ht))
    rw [← hoctet] at htop htarget htail
    rw [← hnext] at htarget htail
    exact .jump (by omega) htop (by omega) htail

theorem AgreeFrom.symm {k : Nat} {packet packet' : Bytes} (h : AgreeFrom k packet packet') :
    AgreeFrom k packet' packet :=
  ⟨h.length.symm, fun i hi => (h.octets i hi).symm⟩

/-- What decides where a name leads is read where the packets agree. -/
theorem Visits.congr {k : Nat} {packet packet' : Bytes} (h : AgreeFrom k packet packet')
    {pos target : Nat} (hvisits : Visits packet' pos target)
    (hall : ∀ i, Visits packet pos i → k ≤ i) : Visits packet pos target := by
  induction hvisits with
  | here => exact .here
  | @label pos target hlow hhigh _ ih =>
    rw [h.octets pos (hall pos .here)] at hlow hhigh ih
    exact .label hlow hhigh (ih (fun i hi => hall i (.label hlow hhigh hi)))
  | @jump pos target htop _ ih =>
    have hk := hall pos .here
    rw [h.octets pos hk] at htop ih
    rw [h.octets (pos + 1) (by omega)] at ih
    exact .jump htop (ih (fun i hi => hall i (.jump htop hi)))

theorem AgreeFrom.nameAt_iff {k : Nat} {packet packet' : Bytes} (h : AgreeFrom k packet packet')
    {pos : Nat} (hall : ∀ i, Visits packet pos i → k ≤ i) {jumps extent : Nat} {labels : List Bytes} :
    NameAt packet' pos jumps labels extent ↔ NameAt packet pos jumps labels extent :=
  ⟨fun hname => hname.congr h.symm (fun i hi => hall i (hi.congr h hall)),
    fun hname => hname.congr h hall⟩

/-- A name without pointers is read forwards. -/
theorem NameAt.visits_forwards {packet : Bytes} {pos extent target : Nat} {labels : List Bytes}
    (h : NameAt packet pos 0 labels extent) (hvisits : Visits packet pos target) : pos ≤ target := by
  induction hvisits generalizing extent labels with
  | here => exact le_refl _
  | @label pos target hlow hhigh _ ih =>
    cases h with
    | root _ hzero => simp [hzero] at hlow
    | label _ _ _ _ rest => exact (by omega : pos ≤ _).trans (ih rest)
  | jump htop =>
    cases h with
    | root _ hzero => simp [hzero] at htop
    | label _ _ hhigh => omega

/-- Where no name can start, none is decoded by getting there. -/
theorem not_nameAt_of_visits {k : Nat} {packet packet' : Bytes} (h : AgreeFrom k packet packet')
    (hbad : ∀ i < k, 63 < (octet packet' i).toNat ∧ (octet packet' i).toNat < 192)
    {pos target : Nat} (hvisits : Visits packet pos target) (htarget : target < k) {jumps extent : Nat}
    {labels : List Bytes} : ¬ NameAt packet' pos jumps labels extent := by
  -- a name that starts at a bad octet has none of the three shapes
  have hstart {i jumps extent : Nat} {labels : List Bytes} (hi : i < k) :
      ¬ NameAt packet' i jumps labels extent := by
    intro hname
    obtain ⟨hlow, hhigh⟩ := hbad i hi
    cases hname with
    | root _ hzero => rw [hzero] at hlow; exact absurd hlow (by decide)
    | label => omega
    | jump => omega
  induction hvisits generalizing jumps extent labels with
  | here => exact hstart htarget
  | @label pos target hlow hhigh _ ih =>
    by_cases hpos : pos < k
    · exact hstart hpos
    have hoctet := h.octets pos (by omega)
    intro hname
    cases hname with
    | root _ hzero =>
      rw [← hoctet, hzero] at hlow
      exact absurd hlow (by decide)
    | label _ _ _ _ rest =>
      rw [hoctet] at rest
      exact ih htarget rest
    | jump _ htop =>
      rw [hoctet] at htop
      omega
  | @jump pos target htop _ ih =>
    by_cases hpos : pos < k
    · exact hstart hpos
    have hoctet := h.octets pos (by omega)
    have hnext := h.octets (pos + 1) (by omega)
    intro hname
    cases hname with
    | root _ hzero =>
      rw [← hoctet, hzero] at htop
      exact absurd htop (by decide)
    | label _ _ hhigh =>
      rw [hoctet] at hhigh
      omega
    | jump _ _ _ rest =>
      rw [hoctet, hnext] at rest
      exact ih htarget rest

theorem agreeFrom_writeId (packet : Bytes) (id : UInt16) :
    AgreeFrom 2 packet (drDnsWriteId packet id) :=
  ⟨length_drDnsWriteId packet id, fun _ hi => octet_drDnsWriteId hi⟩

/-- A rewritten query asks the same question. -/
structure SameQuestion (q q' : DrParsedQuery) : Prop where
  qname : q'.qname = q.qname
  qtype : q'.qtype = q.qtype
  qclass : q'.qclass = q.qclass
  questionEnd : q'.questionEndOffset = q.questionEndOffset

theorem writeId_keeps_question {packet : Bytes} {q : DrParsedQuery}
    (hparse : drDnsParseQuery packet = .ok q) (hreads : ¬ ReadsId packet) (id : UInt16) :
    ∃ q', drDnsParseQuery (drDnsWriteId packet id) = .ok q' ∧ SameQuestion q q' := by
  obtain ⟨labels, jumps, extent, hparsed⟩ := parsedAs_of_ok hparse
  have hagree := agreeFrom_writeId packet id
  have hname := hparsed.name.congr hagree (by
    intro target hvisits
    by_contra hlow
    exact hreads ⟨target, by omega, hvisits⟩)
  have hone := (hagree.u16At (by omega)).trans hparsed.qdcount
  have hinside := hparsed.inside
  rw [hparsed.questionEnd] at hinside
  have hrewritten := parsedAs_of_name hone hname hparsed.budget hparsed.text
    (by rw [length_drDnsWriteId]; exact hinside)
  refine ⟨_, drDnsParseQuery_of_parsedAs hrewritten, ?_⟩
  constructor
  · exact hparsed.qname.symm
  · rw [hparsed.qtype]
    exact hagree.u16At (by simp only [DR_DNS_HEADER_SIZE]; omega)
  · rw [hparsed.qclass]
    exact hagree.u16At (by omega)
  · exact hparsed.questionEnd.symm

/-- The ID that ends every name which reads it. -/
theorem parse_fails_of_readsId {packet : Bytes} (hlen : 2 ≤ packet.length)
    (hreads : ReadsId packet) (q : DrParsedQuery) :
    drDnsParseQuery (drDnsWriteId packet 0x8080) ≠ .ok q := by
  intro hparse
  obtain ⟨target, hlow, hvisits⟩ := hreads
  obtain ⟨labels, jumps, extent, hparsed⟩ := parsedAs_of_ok hparse
  refine not_nameAt_of_visits (agreeFrom_writeId packet 0x8080) ?_ hvisits hlow hparsed.name
  intro i hi
  have hoctet : octet (drDnsWriteId packet 0x8080) i = 0x80 := by
    rw [drDnsWriteId, if_pos hlen]
    have hfit : 0 + (bytes16 0x8080).length ≤ packet.length := by rw [length_bytes16]; omega
    have hinside := octet_overlay_inside hfit (show i < (bytes16 0x8080).length from hi)
    rw [Nat.zero_add] at hinside
    rw [hinside]
    interval_cases i <;> rfl
  rw [hoctet]
  decide

end DnsRelay.Wire
