import DnsRelay.Wire.Message

/-!
# What a qname string identifies

The decoder joins labels with dots into a NUL-terminated string and escapes nothing.
Labels may hold any octet, so the string stands for one name exactly when dots and
NULs do not occur inside labels. Both directions are established here; the collisions
are shown by datagrams that `dr_dns_parse_query` accepts.
-/
namespace DnsRelay.Wire

open DnsRelay.Foundation

theorem asciiLower_eq_iff (c : UInt8) : (asciiLower c = dot ↔ c = dot) ∧ (asciiLower c = 0 ↔ c = 0) :=
  octet_cases (P := fun c => (asciiLower c = dot ↔ c = dot) ∧ (asciiLower c = 0 ↔ c = 0))
    (by decide +kernel) c

/-- Labels without dots and NULs, the ones a dotted string can express. -/
def Plain (labels : List Bytes) : Prop := ∀ l ∈ labels, dot ∉ l ∧ (0 : UInt8) ∉ l

theorem mem_lower_iff {c : UInt8} (hc : ∀ x, asciiLower x = c ↔ x = c) {l : Bytes} :
    c ∈ lower l ↔ c ∈ l := by
  rw [lower, List.mem_map]
  constructor
  · intro h
    obtain ⟨x, hx, hlow⟩ := h
    exact (hc x).mp hlow ▸ hx
  · intro h
    exact ⟨c, h, (hc c).mpr rfl⟩

theorem dot_mem_lower {l : Bytes} : dot ∈ lower l ↔ dot ∈ l :=
  mem_lower_iff (fun x => (asciiLower_eq_iff x).1)

theorem nul_mem_lower {l : Bytes} : (0 : UInt8) ∈ lower l ↔ (0 : UInt8) ∈ l :=
  mem_lower_iff (fun x => (asciiLower_eq_iff x).2)

theorem Plain.map_lower {labels : List Bytes} (h : Plain labels) : Plain (labels.map lower) := by
  intro w hw
  obtain ⟨l, hl, rfl⟩ := List.mem_map.mp hw
  obtain ⟨hdot, hnul⟩ := h l hl
  exact ⟨mt dot_mem_lower.mp hdot, mt nul_mem_lower.mp hnul⟩

theorem Plain.noNul_text {labels : List Bytes} (h : Plain labels) : (0 : UInt8) ∉ nameText labels := by
  rw [nameText]
  split
  · decide
  · intro hmem
    rcases mem_separated hmem with hsep | ⟨w, hw, hc⟩
    · exact absurd hsep (by decide)
    · exact (h.map_lower w hw).2 hc

/-- The text of a name that is not the root starts with an octet of its first label. -/
theorem Plain.text_ne_dot {labels : List Bytes} (h : Plain labels) (hne : ∀ l ∈ labels, l ≠ [])
    (hroot : labels ≠ []) : separated dot (labels.map lower) ≠ [dot] := by
  cases labels with
  | nil => exact absurd rfl hroot
  | cons l labels =>
    have hl : lower l ≠ [] := by simpa [lower] using hne l (by simp)
    have hdot : dot ∉ lower l := (h.map_lower _ (by simp)).1
    cases labels with
    | nil =>
      rw [List.map_singleton, separated_singleton]
      intro heq
      exact hdot (by simp [heq])
    | cons m labels =>
      rw [List.map_cons, separated_cons _ _ (by simp)]
      intro heq
      obtain ⟨c, rest, hcons⟩ := List.exists_cons_of_ne_nil hl
      rw [hcons, List.cons_append] at heq
      exact absurd (congrArg List.length heq) (by simp)

/-- Plain names with one text are one name up to case. -/
theorem nameText_injective {labels labels' : List Bytes} (h : Plain labels) (h' : Plain labels')
    (hne : ∀ l ∈ labels, l ≠ []) (hne' : ∀ l ∈ labels', l ≠ [])
    (htext : nameText labels = nameText labels') : labels.map lower = labels'.map lower := by
  by_cases hroot : labels = [] <;> by_cases hroot' : labels' = []
  · rw [hroot, hroot']
  · rw [nameText, nameText, if_pos hroot, if_neg hroot'] at htext
    exact absurd htext.symm (h'.text_ne_dot hne' hroot')
  · rw [nameText, nameText, if_neg hroot, if_pos hroot'] at htext
    exact absurd htext (h.text_ne_dot hne hroot)
  · rw [nameText, nameText, if_neg hroot, if_neg hroot'] at htext
    have words {ls : List Bytes} (hp : Plain ls) (hn : ∀ l ∈ ls, l ≠ []) :
        ∀ w ∈ ls.map lower, dot ∉ w ∧ w ≠ [] := by
      intro w hw
      refine ⟨(hp.map_lower w hw).1, ?_⟩
      obtain ⟨l, hl, rfl⟩ := List.mem_map.mp hw
      simpa [lower] using hn l hl
    exact separated_injective (words h hne) (words h' hne') htext

/-- Two accepted datagrams whose label octets come from `alphabet` and whose qname strings are
equal carry the same labels up to case. -/
def QnameIdentifies (alphabet : Set UInt8) : Prop :=
  ∀ (packet packet' : Bytes) (parsed parsed' : DrParsedQuery) (labels labels' : List Bytes)
    (jumps jumps' extent extent' : Nat),
    drDnsParseQuery packet = .ok parsed → drDnsParseQuery packet' = .ok parsed' →
    NameAt packet DR_DNS_HEADER_SIZE jumps labels extent →
    NameAt packet' DR_DNS_HEADER_SIZE jumps' labels' extent' →
    (∀ l ∈ labels, ∀ c ∈ l, c ∈ alphabet) → (∀ l ∈ labels', ∀ c ∈ l, c ∈ alphabet) →
    cstr parsed.qname = cstr parsed'.qname → labels.map lower = labels'.map lower

/-- A standard query for type A, class IN with the given wire form of the name. -/
def questionFor (wireName : Bytes) : Bytes :=
  [0x12, 0x34, 1, 0, 0, 1, 0, 0, 0, 0, 0, 0] ++ wireName ++ [0, 1, 0, 1]

/-- The string of an accepted question, for evaluating examples. -/
def qnameOf (packet : Bytes) : Option Bytes :=
  (drDnsParseQuery packet).toOption.map (fun parsed => (cstr parsed.qname).octets)

theorem qnameOf_eq_some {packet text : Bytes} (h : qnameOf packet = some text) :
    ∃ parsed, drDnsParseQuery packet = .ok parsed ∧ (cstr parsed.qname).octets = text := by
  obtain ⟨parsed, hparsed, htext⟩ := Option.map_eq_some_iff.mp h
  exact ⟨parsed, Outcome.toOption_eq_some.mp hparsed, htext⟩

theorem QnameIdentifies.of_questions {alphabet : Set UInt8} (h : QnameIdentifies alphabet)
    (wire wire' text : Bytes) (labels labels' : List Bytes) {jumps jumps' extent extent' : Nat}
    (hq : qnameOf (questionFor wire) = some text) (hq' : qnameOf (questionFor wire') = some text)
    (hname : NameAt (questionFor wire) DR_DNS_HEADER_SIZE jumps labels extent)
    (hname' : NameAt (questionFor wire') DR_DNS_HEADER_SIZE jumps' labels' extent')
    (hin : ∀ l ∈ labels, ∀ c ∈ l, c ∈ alphabet) (hin' : ∀ l ∈ labels', ∀ c ∈ l, c ∈ alphabet) :
    labels.map lower = labels'.map lower := by
  obtain ⟨parsed, hparse, htext⟩ := qnameOf_eq_some hq
  obtain ⟨parsed', hparse', htext'⟩ := qnameOf_eq_some hq'
  exact h _ _ parsed parsed' labels labels' _ _ _ _ hparse hparse' hname hname' hin hin'
    (CString.ext (htext.trans htext'.symm))

/-- The string identifies the name on exactly the alphabets without dot and NUL. -/
theorem qnameIdentifies_iff (alphabet : Set UInt8) :
    QnameIdentifies alphabet ↔ dot ∉ alphabet ∧ (0 : UInt8) ∉ alphabet := by
  constructor
  · intro h
    constructor
    · -- the root and the name of one label `.`
      intro hdot
      have hsame := h.of_questions [0] [1, dot, 0] [dot] [] [[dot]] (by decide +kernel)
        (by decide +kernel)
        (.root (by decide) (by decide))
        (.label (by decide) (by decide) (by decide) (by decide) (.root (by decide) (by decide)))
        (by simp) (by simpa using hdot)
      exact absurd hsame (by decide)
    · -- a label of one NUL and a label of two
      intro hnul
      have hsame := h.of_questions [1, 0, 0] [2, 0, 0, 0] [] [[0]] [[0, 0]] (by decide +kernel)
        (by decide +kernel)
        (.label (by decide) (by decide) (by decide) (by decide) (.root (by decide) (by decide)))
        (.label (by decide) (by decide) (by decide) (by decide) (.root (by decide) (by decide)))
        (by simpa using hnul) (by simpa using hnul)
      exact absurd hsame (by decide)
  · rintro ⟨hdot, hnul⟩ packet packet' parsed parsed' labels labels' jumps jumps' extent extent'
      hparse hparse' hname hname' hin hin' htext
    have plain {ls : List Bytes} (hls : ∀ l ∈ ls, ∀ c ∈ l, c ∈ alphabet) : Plain ls :=
      fun l hl => ⟨fun hc => hdot (hls l hl _ hc), fun hc => hnul (hls l hl _ hc)⟩
    obtain ⟨decoded, j, e, hparsed⟩ := parsedAs_of_ok hparse
    obtain ⟨decoded', j', e', hparsed'⟩ := parsedAs_of_ok hparse'
    obtain rfl := (hname.unique hparsed.name).2.1
    obtain rfl := (hname'.unique hparsed'.name).2.1
    have hoctets := congrArg CString.octets
      (hparsed.cstr_qname.symm.trans (htext.trans hparsed'.cstr_qname))
    rw [cstr_octets_of_noNul (plain hin).noNul_text, cstr_octets_of_noNul (plain hin').noNul_text]
      at hoctets
    exact nameText_injective (plain hin) (plain hin') (fun l hl => (hname.labels_ne_nil l hl).1)
      (fun l hl => (hname'.labels_ne_nil l hl).1) hoctets

/-- The one label `a.b` and the two labels `a`, `b` give one string. -/
theorem qname_collision :
    ∃ parsed parsed' : DrParsedQuery,
      drDnsParseQuery (questionFor [3, 0x61, dot, 0x62, 0]) = .ok parsed ∧
      drDnsParseQuery (questionFor [1, 0x61, 1, 0x62, 0]) = .ok parsed' ∧
      cstr parsed.qname = cstr parsed'.qname ∧
      NameAt (questionFor [3, 0x61, dot, 0x62, 0]) DR_DNS_HEADER_SIZE 0 [[0x61, dot, 0x62]] 5 ∧
      NameAt (questionFor [1, 0x61, 1, 0x62, 0]) DR_DNS_HEADER_SIZE 0 [[0x61], [0x62]] 5 ∧
      [[0x61, dot, 0x62]].map lower ≠ [[0x61], [0x62]].map lower := by
  have hq : qnameOf (questionFor [3, 0x61, dot, 0x62, 0]) = some [0x61, dot, 0x62] := by
    decide +kernel
  have hq' : qnameOf (questionFor [1, 0x61, 1, 0x62, 0]) = some [0x61, dot, 0x62] := by
    decide +kernel
  obtain ⟨parsed, hparse, htext⟩ := qnameOf_eq_some hq
  obtain ⟨parsed', hparse', htext'⟩ := qnameOf_eq_some hq'
  refine ⟨parsed, parsed', hparse, hparse', CString.ext (htext.trans htext'.symm), ?_, ?_, by decide⟩
  · exact .label (by decide) (by decide) (by decide) (by decide) (.root (by decide) (by decide))
  · exact .label (by decide) (by decide) (by decide) (by decide)
      (.label (by decide) (by decide) (by decide) (by decide) (.root (by decide) (by decide)))

end DnsRelay.Wire
