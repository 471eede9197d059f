import DnsRelay.Wire.NameDecoding
import DnsRelay.Wire.NameIdentity

/-!
# Exactness of the name encoder

Which texts `write_name` accepts, and what its output decodes to. A text is encodable
when its dots separate labels: it has no leading dot, no two dots in a row, and with
its length octets it stays within 255. What the encoder wrote is a chain of the
grammar without pointers, so the decoder reads the labels back.
-/
namespace DnsRelay.Wire

open DnsRelay.Foundation
open Outcome (Sat)

@[simp] theorem wireLabels_nil : wireLabels [] = [] := rfl

@[simp] theorem wireLabels_cons (l : Bytes) (labels : List Bytes) :
    wireLabels (l :: labels) = l.length.toUInt8 :: l ++ wireLabels labels := rfl

theorem octet_append_cons (front rest : Bytes) (c : UInt8) :
    octet (front ++ c :: rest) front.length = c := by
  simp [octet]

theorem slice_append (front mid rest : Bytes) :
    slice (front ++ (mid ++ rest)) front.length mid.length = mid := by
  simp [slice]

theorem toNat_length_toUInt8 {l : Bytes} (h : l.length ≤ 63) : l.length.toUInt8.toNat = l.length := by
  rw [Nat.toUInt8_eq, UInt8.toNat_ofNat']
  omega

/-- Encoded labels are a name without pointers, wherever they lie. -/
theorem nameAt_wireLabels {labels : List Bytes} (front rest : Bytes)
    (hlabels : ∀ l ∈ labels, 1 ≤ l.length ∧ l.length ≤ 63) :
    NameAt (front ++ (wireLabels labels ++ 0 :: rest)) front.length 0 labels
      ((wireLabels labels).length + 1) := by
  induction labels generalizing front with
  | nil => exact .root (by simp) (octet_append_cons front rest 0)
  | cons l labels ih =>
    obtain ⟨hlow, hhigh⟩ := hlabels l (by simp)
    have hlen := toNat_length_toUInt8 hhigh
    generalize hpacket : front ++ (wireLabels (l :: labels) ++ 0 :: rest) = packet
    have hsplit : packet = (front ++ l.length.toUInt8 :: l) ++ (wireLabels labels ++ 0 :: rest) := by
      rw [← hpacket]; simp
    have hoctet : octet packet front.length = l.length.toUInt8 := by
      rw [← hpacket, wireLabels_cons, List.cons_append, List.cons_append, octet_append_cons]
    have hslice : slice packet (front.length + 1) l.length = l := by
      have h := slice_append (front ++ [l.length.toUInt8]) l (wireLabels labels ++ 0 :: rest)
      rw [← hpacket]
      simpa using h
    have hnext : (front ++ l.length.toUInt8 :: l).length = front.length + 1 + l.length := by
      simp only [List.length_append, List.length_cons]; omega
    have htotal : packet.length =
        front.length + 1 + l.length + (wireLabels labels ++ 0 :: rest).length := by
      rw [hsplit, List.length_append, hnext]
    have htail := ih (front ++ l.length.toUInt8 :: l) (fun w hw => hlabels w (by simp [hw]))
    rw [← hsplit, hnext] at htail
    have hname := @NameAt.label packet front.length 0 _ labels (by omega) (by rw [hoctet, hlen]; exact hlow)
      (by rw [hoctet, hlen]; exact hhigh) (by rw [hoctet, hlen]; omega)
      (by rw [hoctet, hlen]; exact htail)
    rw [hoctet, hlen, hslice] at hname
    have hextent : (wireLabels (l :: labels)).length + 1 =
        1 + l.length + ((wireLabels labels).length + 1) := by
      simp only [wireLabels_cons, List.length_append, List.length_cons]; omega
    rw [hextent]
    exact hname

/-- Encoded labels take one octet more than their joined text. -/
theorem length_wireLabels {labels : List Bytes} (hne : labels ≠ []) :
    (wireLabels labels).length = (separated dot labels).length + 1 := by
  induction labels with
  | nil => exact absurd rfl hne
  | cons l labels ih =>
    by_cases hl : labels = []
    · subst hl
      simp
    · rw [wireLabels_cons, separated_cons _ _ hl]
      simp only [List.length_append, List.length_cons, ih hl]
      omega

/-- A text is its labels joined by dots, with at most one dot after them. -/
theorem TextLabels.text_eq {text : Bytes} {labels : List Bytes} (h : TextLabels text labels)
    (hne : ∀ l ∈ labels, l ≠ []) :
    text = separated dot labels ∨ labels ≠ [] ∧ text = separated dot labels ++ [dot] := by
  induction h with
  | nil => exact Or.inl rfl
  | last hdot => exact Or.inl (by simp)
  | @cons l rest labels hdot htext ih =>
    have hrest := ih (fun w hw => hne w (by simp [hw]))
    by_cases hl : labels = []
    · subst hl
      rcases hrest with hrest | ⟨hnil, _⟩
      · exact Or.inr ⟨by simp, by simp [hrest]⟩
      · exact absurd rfl hnil
    · rw [separated_cons _ _ hl]
      rcases hrest with hrest | ⟨_, hrest⟩
      · exact Or.inl (by rw [hrest])
      · exact Or.inr ⟨by simp, by rw [hrest]; simp⟩

theorem TextLabels.dot_not_mem {text : Bytes} {labels : List Bytes} (h : TextLabels text labels) :
    ∀ l ∈ labels, dot ∉ l := by
  induction h with
  | nil => simp
  | last hdot => simpa using hdot
  | cons hdot _ ih =>
    intro w hw
    rcases List.mem_cons.mp hw with rfl | hw
    · exact hdot
    · exact ih w hw

/-- No label is empty: no dot leads the text or follows another. -/
def DotsSeparate (text : Bytes) : Prop := ¬ [dot] <+: text ∧ ¬ [dot, dot] <:+: text

instance (text : Bytes) : Decidable (DotsSeparate text) := inferInstanceAs (Decidable (_ ∧ _))

theorem dotsSeparate_of_noDot {text : Bytes} (h : dot ∉ text) : DotsSeparate text :=
  ⟨fun hp => h (hp.subset (by simp)), fun hi => h (hi.subset (by simp))⟩

theorem dotsSeparate_cons_iff {l rest : Bytes} (hdot : dot ∉ l) :
    DotsSeparate (l ++ dot :: rest) ↔ l ≠ [] ∧ DotsSeparate rest := by
  constructor
  · intro h
    obtain ⟨hlead, htwo⟩ := h
    refine ⟨?_, ?_, ?_⟩
    · intro hl
      exact hlead ⟨rest, by simp [hl]⟩
    · intro hp
      obtain ⟨tail, htail⟩ := hp
      exact htwo ⟨l, tail, by rw [← htail]; simp⟩
    · intro hi
      obtain ⟨before, tail, htail⟩ := hi
      exact htwo ⟨l ++ dot :: before, tail, by rw [← htail]; simp⟩
  · intro h
    obtain ⟨hl, hlead, htwo⟩ := h
    refine ⟨?_, ?_⟩
    · intro hp
      obtain ⟨tail, htail⟩ := hp
      obtain ⟨c, l', rfl⟩ := List.exists_cons_of_ne_nil hl
      simp only [List.cons_append, List.cons.injEq] at htail
      exact hdot (by simp [htail.1])
    · intro hi
      obtain ⟨before, tail, htail⟩ := hi
      -- the first of the two dots lies in the label, on the separator or behind it
      rw [List.append_assoc] at htail
      rcases List.append_eq_append_iff.mp htail with ⟨mid, hl', hmid⟩ | ⟨mid, _, hmid⟩
      · cases mid with
        | nil =>
          simp only [List.cons_append, List.nil_append, List.cons.injEq, true_and] at hmid
          exact hlead ⟨tail, by rw [← hmid]; rfl⟩
        | cons c mid =>
          simp only [List.cons_append, List.nil_append, List.cons.injEq] at hmid
          exact hdot (by rw [hl', ← hmid.1]; simp)
      · cases mid with
        | nil =>
          simp only [List.nil_append, List.cons_append, List.cons.injEq, true_and] at hmid
          exact hlead ⟨tail, by rw [hmid]; rfl⟩
        | cons c mid =>
          simp only [List.cons_append, List.cons.injEq] at hmid
          exact htwo ⟨mid, tail, by rw [hmid.2]; simp⟩

theorem TextLabels.dotsSeparate {text : Bytes} {labels : List Bytes} (h : TextLabels text labels)
    (hne : ∀ l ∈ labels, l ≠ []) : DotsSeparate text := by
  induction h with
  | nil => exact dotsSeparate_of_noDot (by simp)
  | last hdot => exact dotsSeparate_of_noDot hdot
  | cons hdot _ ih =>
    exact (dotsSeparate_cons_iff hdot).mpr
      ⟨hne _ (by simp), ih (fun w hw => hne w (by simp [hw]))⟩

/-- Cut at its first dot. -/
theorem first_label (text : Bytes) :
    dot ∉ text ∨ ∃ l rest, dot ∉ l ∧ text = l ++ dot :: rest := by
  by_cases hdot : dot ∈ text
  · obtain ⟨l, rest, htext, hl⟩ := List.eq_append_cons_of_mem hdot
    exact Or.inr ⟨l, rest, hl, htext⟩
  · exact Or.inl hdot

theorem exists_textLabels (text : Bytes) (h : DotsSeparate text) :
    ∃ labels, TextLabels text labels ∧ ∀ l ∈ labels, l ≠ [] := by
  by_cases hnil : text = []
  · exact ⟨[], hnil ▸ .nil, by simp⟩
  rcases first_label text with hdot | ⟨l, rest, hdot, htext⟩
  · exact ⟨[text], .last hdot, by simpa using hnil⟩
  · rw [htext, dotsSeparate_cons_iff hdot] at h
    have hshort : rest.length < text.length := by rw [htext]; simp; omega
    obtain ⟨labels, hlabels, hne⟩ := exists_textLabels rest h.2
    refine ⟨l :: labels, htext ▸ .cons hdot hlabels, ?_⟩
    intro w hw
    rcases List.mem_cons.mp hw with rfl | hw
    · exact h.1
    · exact hne w hw
termination_by text.length

/-- Every stretch of the text without a dot has at most `n` octets. -/
def RunsLe (n : Nat) (text : Bytes) : Prop := ∀ w, w <:+: text → dot ∉ w → w.length ≤ n

theorem RunsLe.part {n : Nat} {text part : Bytes} (h : RunsLe n text) (hpart : part <:+: text) :
    RunsLe n part :=
  fun w hw hdot => h w (hw.trans hpart) hdot

/-- A stretch without a dot lies on one side of any dot. -/
theorem infix_of_noDot {w a b : Bytes} (hdot : dot ∉ w) (h : w <:+: a ++ dot :: b) :
    w <:+: a ∨ w <:+: b := by
  obtain ⟨s, t, hst⟩ := h
  rw [List.append_assoc] at hst
  rcases List.append_eq_append_iff.mp hst with ⟨mid, ha, hmid⟩ | ⟨mid, _, hmid⟩
  · rcases List.append_eq_append_iff.mp hmid with ⟨mid', hmid', _⟩ | ⟨mid', hw, hrest⟩
    · exact Or.inl ⟨s, mid', by rw [ha, hmid']; simp⟩
    · cases mid' with
      | nil => exact Or.inl ⟨s, [], by rw [ha, hw]; simp⟩
      | cons c mid' =>
        rw [List.cons_append, List.cons.injEq] at hrest
        exact absurd (by rw [hw, ← hrest.1]; simp) hdot
  · cases mid with
    | nil =>
      cases w with
      | nil => exact Or.inl (List.nil_infix)
      | cons c w =>
        rw [List.nil_append, List.cons_append, List.cons.injEq] at hmid
        exact absurd (by rw [← hmid.1]; simp) hdot
    | cons c mid =>
      rw [List.cons_append, List.cons.injEq] at hmid
      exact Or.inr ⟨mid, t, by rw [hmid.2]; simp⟩

theorem runsLe_separated {n : Nat} {words : List Bytes} (h : ∀ w ∈ words, w.length ≤ n) :
    RunsLe n (separated dot words) := by
  induction words with
  | nil =>
    intro w hw _
    rw [separated_nil, List.infix_nil] at hw
    simp [hw]
  | cons l words ih =>
    intro w hw hdot
    have hl : l.length ≤ n := h l (by simp)
    by_cases hnil : words = []
    · subst hnil
      rw [separated_singleton] at hw
      exact hw.length_le.trans hl
    · rw [separated_cons _ _ hnil] at hw
      rcases infix_of_noDot hdot hw with hw | hw
      · exact hw.length_le.trans hl
      · exact ih (fun v hv => h v (by simp [hv])) w hw hdot

theorem TextLabels.label_infix {text : Bytes} {labels : List Bytes} (h : TextLabels text labels) :
    ∀ l ∈ labels, l <:+: text := by
  induction h with
  | nil => simp
  | last => simp
  | @cons l rest labels _ _ ih =>
    intro w hw
    rcases List.mem_cons.mp hw with rfl | hw
    · exact (List.prefix_append _ _).isInfix
    · exact (ih w hw).trans ⟨l ++ [dot], [], by simp⟩

theorem writeNameLoop_of_labels {array : Bytes} {base outSize : Nat}
    (hfit : base + outSize ≤ array.length) {text : Bytes} {labels : List Bytes}
    (htext : TextLabels text labels) :
    ∀ (fuel : Nat) (wire : Bytes), (∀ l ∈ labels, 1 ≤ l.length ∧ l.length ≤ 63) →
      text.length ≤ fuel → wire.length + (wireLabels labels).length + 1 ≤ outSize →
      writeNameLoop base outSize fuel text wire.length (overlay array base wire) =
        .ok ((wire ++ wireLabels labels).length, overlay array base (wire ++ wireLabels labels)) := by
  induction htext with
  | nil =>
    intro fuel wire _ _ _
    cases fuel <;> simp [writeNameLoop]
  | @last l hdot =>
    intro fuel wire hlabels hfuel hroom
    obtain ⟨hlow, hhigh⟩ := hlabels l (by simp)
    obtain ⟨c, cs, rfl⟩ := List.exists_cons_of_ne_nil (List.ne_nil_of_length_pos hlow)
    obtain ⟨fuel, rfl⟩ := Nat.exists_eq_add_of_le' (Nat.le_trans (by simp) hfuel : 1 ≤ fuel)
    have hnot : ∀ x ∈ c :: cs, decide (x ≠ dot) = true := by
      intro x hx
      exact decide_eq_true (fun heq => hdot (heq ▸ hx))
    rw [writeNameLoop_label hfit (List.takeWhile_eq_self_iff.mpr hnot) hlow hhigh
      (by simp only [wireLabels_cons, wireLabels_nil, List.length_append, List.length_cons,
            List.length_nil] at hroom ⊢
          omega), List.dropWhile_eq_nil_iff.mpr hnot]
  | @cons l rest labels hdot _ ih =>
    intro fuel wire hlabels hfuel hroom
    obtain ⟨hlow, hhigh⟩ := hlabels l (by simp)
    obtain ⟨c, cs, rfl⟩ := List.exists_cons_of_ne_nil (List.ne_nil_of_length_pos hlow)
    obtain ⟨fuel, rfl⟩ := Nat.exists_eq_add_of_le' (Nat.le_trans (by simp) hfuel : 1 ≤ fuel)
    have hnot : ∀ x ∈ c :: cs, decide (x ≠ dot) = true := by
      intro x hx
      exact decide_eq_true (fun heq => hdot (heq ▸ hx))
    have htake : (c :: (cs ++ dot :: rest)).takeWhile (· ≠ dot) = c :: cs := by
      rw [← List.cons_append, List.takeWhile_append_of_pos hnot]
      simp
    have hdrop : (c :: (cs ++ dot :: rest)).dropWhile (· ≠ dot) = dot :: rest := by
      rw [← List.cons_append, List.dropWhile_append_of_pos hnot]
      simp
    simp only [wireLabels_cons, List.length_append, List.length_cons] at hroom hhigh hfuel
    rw [List.cons_append, writeNameLoop_label hfit htake hlow hhigh
      (by simp only [List.length_cons]; omega), hdrop]
    have hwhole : wire ++ wireLabels [c :: cs] ++ wireLabels labels =
        wire ++ wireLabels ((c :: cs) :: labels) := by simp
    rw [← hwhole]
    apply ih fuel _ (fun w hw => hlabels w (by simp [hw])) (by omega)
    simp only [wireLabels_cons, wireLabels_nil, List.length_append, List.length_cons,
      List.length_nil]
    omega

/-- The joined text of labels does not end in a dot. -/
theorem dot_not_suffix_separated {labels : List Bytes} (hdot : ∀ l ∈ labels, dot ∉ l)
    (hne : ∀ l ∈ labels, l ≠ []) : ¬ [dot] <:+ separated dot labels := by
  induction labels with
  | nil => simp
  | cons l labels ih =>
    by_cases hnil : labels = []
    · subst hnil
      rw [separated_singleton]
      exact fun h => hdot l (by simp) (h.subset (by simp))
    · have htail := ih (fun w hw => hdot w (by simp [hw])) (fun w hw => hne w (by simp [hw]))
      rw [separated_cons _ _ hnil]
      intro h
      obtain ⟨before, hbefore⟩ := h
      have hsome : separated dot labels ≠ [] := by
        rw [Ne, separated_eq_nil dot (fun w hw => hne w (by simp [hw]))]
        exact hnil
      obtain ⟨front, c, hsep⟩ := (List.eq_nil_or_concat' _).resolve_left hsome
      rw [hsep] at hbefore htail
      have hc : c = dot := by
        have h := congrArg List.getLast? hbefore
        rw [← List.cons_append, ← List.append_assoc, List.getLast?_concat,
          List.getLast?_concat] at h
        exact (Option.some.inj h).symm
      exact htail ⟨front, by rw [hc]⟩

theorem TextLabels.ne_root {text : Bytes} {labels : List Bytes} (h : TextLabels text labels)
    (hlabels : ∀ l ∈ labels, 1 ≤ l.length ∧ l.length ≤ 63) : text ≠ [dot] := by
  cases h with
  | nil => simp
  | last hdot =>
    intro heq
    exact hdot (by simp [heq])
  | @cons l rest labels hdot h =>
    intro heq
    have hlow := (hlabels l (by simp)).1
    have hlen := congrArg List.length heq
    simp only [List.length_append, List.length_cons, List.length_nil] at hlen
    omega

/-- Labels that stay within the limits are written, behind them the zero octet. -/
theorem writeName_of_labels {name : CString} {array : Bytes} {base outSize : Nat}
    (hfit : base + outSize ≤ array.length) {labels : List Bytes}
    (htext : TextLabels name.octets labels) (hlabels : ∀ l ∈ labels, 1 ≤ l.length ∧ l.length ≤ 63)
    (hshort : (wireLabels labels).length ≤ 255) (hroom : (wireLabels labels).length + 1 ≤ outSize) :
    writeName name array base outSize =
      .ok (overlay array base (wireLabels labels ++ [0]), (wireLabels labels).length + 1) := by
  have hloop := writeNameLoop_of_labels hfit htext name.octets.length [] hlabels (le_refl _)
    (by simp only [List.length_nil]; omega)
  rw [overlay_nil, List.length_nil, List.nil_append] at hloop
  rw [writeName, if_neg (by omega), if_neg (htext.ne_root hlabels), hloop, Outcome.ok_bind]
  dsimp only
  rw [if_neg (by simp only [DR_DNS_MAX_DOMAIN_LEN]; omega), store_append (by simp; omega)]
  rfl

/-- The texts `write_name` can encode: the root, or labels separated by single dots whose wire form
stays within 255 octets. A dot may end the text. -/
def Encodable (text : Bytes) : Prop :=
  text = [dot] ∨ DotsSeparate text ∧ (text.length ≤ DR_DNS_MAX_DOMAIN_LEN - 1 ∨ [dot] <:+ text)

instance (text : Bytes) : Decidable (Encodable text) :=
  inferInstanceAs (Decidable (_ ∨ _ ∧ _))

/-- With room for any name `write_name` succeeds exactly on the encodable texts, among those whose
runs between dots are labels. -/
theorem writeName_succeeds_iff {name : CString} {array : Bytes} {base outSize : Nat}
    (hfit : base + outSize ≤ array.length) (hsize : DR_DNS_MAX_DOMAIN_LEN + 1 ≤ outSize)
    (hruns : RunsLe 63 name.octets) (hlen : name.octets.length ≤ DR_DNS_MAX_DOMAIN_LEN) :
    (∃ r, writeName name array base outSize = .ok r) ↔ Encodable name.octets := by
  simp only [Encodable, DR_DNS_MAX_DOMAIN_LEN] at hsize hlen ⊢
  constructor
  · intro h
    obtain ⟨r, hr⟩ := h
    obtain ⟨labels, hencodes, _⟩ := (writeName_sat hfit).of_eq_ok hr
    have hmax := hencodes.short
    have hne := hencodes.ne_nil
    rcases hencodes.text with htext | ⟨hroot, _⟩
    · refine Or.inr ⟨htext.dotsSeparate hne, ?_⟩
      simp only [DR_DNS_MAX_DOMAIN_LEN] at hmax
      by_cases hnil : labels = []
      · subst hnil
        rcases htext.text_eq hne with heq | ⟨hcontra, _⟩
        · exact Or.inl (by rw [heq]; simp)
        · exact absurd rfl hcontra
      · have hwire := length_wireLabels hnil
        rcases htext.text_eq hne with heq | ⟨_, heq⟩
        · exact Or.inl (by rw [heq]; omega)
        · exact Or.inr ⟨_, heq.symm⟩
    · exact Or.inl hroot
  · intro h
    by_cases hroot : name.octets = [dot]
    · rw [writeName, if_neg (by omega), if_pos hroot, store_of_le (by simp; omega)]
      exact ⟨_, rfl⟩
    obtain ⟨hsep, hshort⟩ := h.resolve_left hroot
    obtain ⟨labels, htext, hne⟩ := exists_textLabels _ hsep
    have hdots := htext.dot_not_mem
    have hlabels : ∀ l ∈ labels, 1 ≤ l.length ∧ l.length ≤ 63 := fun l hl =>
      ⟨List.length_pos_of_ne_nil (hne l hl), hruns l (htext.label_infix l hl) (hdots l hl)⟩
    have hwire : (wireLabels labels).length ≤ 255 := by
      by_cases hnil : labels = []
      · simp [hnil]
      · rw [length_wireLabels hnil]
        rcases htext.text_eq hne with heq | ⟨_, heq⟩
        · have hend : ¬ [dot] <:+ name.octets := heq ▸ dot_not_suffix_separated hdots hne
          have h := hshort.resolve_right hend
          rw [heq] at h
          omega
        · have h := congrArg List.length heq
          simp only [List.length_append, List.length_singleton] at h
          omega
    exact ⟨_, writeName_of_labels hfit htext hlabels hwire (by omega)⟩

end DnsRelay.Wire
