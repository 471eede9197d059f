import DnsRelay.Foundation.Lines
import DnsRelay.Wire.NameEncoding
import Mathlib.Data.List.DropRight

/-!
# Exactness of normalization

`dr_dns_normalize_name` depends on the text without its trailing dots alone: it accepts
labels of 1 to 63 octets joined by dots, within the two length limits, and lowers the
text. Texts that differ in case and trailing dots only share their labels up to case, so
normalization is one key for all of them, and the key a decoded name already is.
-/
namespace DnsRelay.Wire

open DnsRelay.Foundation
open Outcome (Sat)

def withoutTrailingDots (text : Bytes) : Bytes := text.rdropWhile (· = dot)

/-- A non-empty sequence of labels of 1 to 63 octets, joined by dots. -/
structure Joined (text : Bytes) (labels : List Bytes) : Prop where
  ne_nil : labels ≠ []
  sizes : ∀ l ∈ labels, 1 ≤ l.length ∧ l.length ≤ 63
  noDot : ∀ l ∈ labels, dot ∉ l
  text_eq : text = separated dot labels

theorem take_trimDots_eq (input : Bytes) : ∀ len ≤ input.length,
    input.take (trimDots input len) = withoutTrailingDots (input.take len) := by
  intro len
  induction len with
  | zero => intro _; rfl
  | succ len ih =>
    intro hlen
    have htake : input.take (len + 1) = input.take len ++ [octet input len] := by
      rw [octet_of_lt hlen, List.take_succ_eq_append_getElem hlen]
    rw [trimDots, htake, withoutTrailingDots, List.rdropWhile_concat]
    by_cases hdot : octet input len = dot
    · rw [if_pos hdot, if_pos (decide_eq_true hdot), ih (by omega), withoutTrailingDots]
    · rw [if_neg hdot, if_neg (by simpa using hdot), htake]

theorem trimDots_le (input : Bytes) (len : Nat) : trimDots input len ≤ len := by
  induction len with
  | zero => exact le_refl _
  | succ len ih =>
    rw [trimDots]
    split <;> omega

/-- The text that is normalized, and its length. -/
theorem trimmed_eq (input : Bytes) :
    input.take (trimDots input input.length) = withoutTrailingDots input ∧
      trimDots input input.length = (withoutTrailingDots input).length := by
  have htake := take_trimDots_eq input input.length (le_refl _)
  rw [List.take_length] at htake
  have hle := trimDots_le input input.length
  refine ⟨htake, ?_⟩
  rw [← htake, List.length_take]
  omega

theorem map_separated (labels : List Bytes) :
    lower (separated dot labels) = separated dot (labels.map lower) := by
  induction labels with
  | nil => rfl
  | cons l labels ih =>
    by_cases hnil : labels = []
    · simp [hnil]
    · have hmap : labels.map lower ≠ [] := by simpa using hnil
      rw [List.map_cons, separated_cons _ _ hnil, separated_cons _ _ hmap, ← ih]
      simp [lower, show asciiLower dot = dot by decide]

/-- Joined labels end in a label, so there is no dot to remove. -/
theorem withoutTrailingDots_separated {labels : List Bytes} (hdot : ∀ l ∈ labels, dot ∉ l)
    (hne : ∀ l ∈ labels, l ≠ []) :
    withoutTrailingDots (separated dot labels) = separated dot labels := by
  have hend := dot_not_suffix_separated hdot hne
  rw [withoutTrailingDots, List.rdropWhile_eq_self_iff]
  intro hnil hlast
  have hwhole := List.dropLast_append_getLast hnil
  rw [show (separated dot labels).getLast hnil = dot by simpa using hlast] at hwhole
  exact hend ⟨_, hwhole⟩

/-- The text the encoder splits into labels, with the one dot that may follow them removed. -/
theorem withoutTrailingDots_of_labels {text : Bytes} {labels : List Bytes}
    (htext : TextLabels text labels) (hne : ∀ l ∈ labels, l ≠ []) :
    withoutTrailingDots text = separated dot labels := by
  have hsep := withoutTrailingDots_separated htext.dot_not_mem hne
  rcases htext.text_eq hne with heq | ⟨_, heq⟩
  · rw [heq, hsep]
  · rw [heq, withoutTrailingDots, List.rdropWhile_concat_pos _ _ _ (by simp)]
    exact hsep

/-- A stretch without a dot is copied while it fits into a label. -/
theorem normalizeLoop_run {l : Bytes} (hdot : dot ∉ l) (rest : Bytes) : ∀ (labelLen : Nat) (output : Bytes),
    labelLen ≤ 63 → normalizeLoop (l ++ rest) labelLen output =
      if labelLen + l.length ≤ 63 then
        normalizeLoop rest (labelLen + l.length) (output ++ lower l)
      else .fail () := by
  induction l with
  | nil =>
    intro labelLen output hlen
    simp [lower, hlen]
  | cons c l ih =>
    intro labelLen output hlen
    have hc : c ≠ dot := fun heq => hdot (by simp [heq])
    rw [List.cons_append, normalizeLoop, if_neg hc, List.length_cons]
    by_cases hfull : labelLen + 1 > 63
    · rw [if_pos hfull, if_neg (by omega)]
    · rw [if_neg hfull, ih (fun h => hdot (by simp [h])) _ _ (by omega),
        show labelLen + 1 + l.length = labelLen + (l.length + 1) by omega]
      simp [lower]

/-- The loop and the test after it accept exactly labels of 1 to 63 octets. -/
theorem normalizeLoop_labels {labels : List Bytes} (hne : labels ≠ []) (hdot : ∀ l ∈ labels, dot ∉ l)
    (output : Bytes) :
    (normalizeLoop (separated dot labels) 0 output >>= fun r =>
      if r.1 = 0 then .fail () else pure (cstr r.2)) =
      if ∀ l ∈ labels, 1 ≤ l.length ∧ l.length ≤ 63 then
        .ok (cstr (output ++ (separated dot labels).map asciiLower))
      else .fail () := by
  induction labels generalizing output with
  | nil => exact absurd rfl hne
  | cons l labels ih =>
    have hl : dot ∉ l := hdot l (by simp)
    by_cases hnil : labels = []
    · subst hnil
      have hrun := normalizeLoop_run hl [] 0 output (by omega)
      rw [List.append_nil, Nat.zero_add] at hrun
      rw [separated_singleton, hrun]
      simp only [List.mem_singleton, forall_eq]
      by_cases hsize : l.length ≤ 63
      · rw [if_pos hsize, normalizeLoop, Outcome.ok_bind]
        by_cases hzero : l.length = 0
        · rw [if_pos hzero, if_neg (by omega)]
        · rw [if_neg hzero, if_pos (by omega)]
          rfl
      · rw [if_neg hsize, if_neg (by omega)]
        rfl
    · rw [separated_cons _ _ hnil, normalizeLoop_run hl _ 0 output (by omega), Nat.zero_add,
        List.map_append, List.map_cons]
      by_cases hsize : l.length ≤ 63
      · rw [if_pos hsize, normalizeLoop, if_pos rfl]
        by_cases hzero : l.length = 0
        · rw [if_pos hzero, if_neg (fun h => by have := h l (by simp); omega)]
          rfl
        · rw [if_neg hzero, ih hnil (fun w hw => hdot w (by simp [hw]))]
          have hsplit : (∀ w ∈ l :: labels, 1 ≤ w.length ∧ w.length ≤ 63) ↔
              ∀ w ∈ labels, 1 ≤ w.length ∧ w.length ≤ 63 := by
            rw [List.forall_mem_cons]
            exact and_iff_right (by omega)
          simp only [hsplit, List.append_assoc, lower, List.singleton_append,
            show asciiLower dot = dot by decide]
      · rw [if_neg hsize, if_neg (fun h => by have := h l (by simp); omega)]
        rfl

/-- What makes a trimmed text acceptable. -/
def Normalizable (text : Bytes) (size : Nat) : Prop :=
  text.length ≤ min DR_DNS_MAX_DOMAIN_LEN (size - 1) ∧
    ∀ l ∈ text.splitOn dot, 1 ≤ l.length ∧ l.length ≤ 63

instance (text : Bytes) (size : Nat) : Decidable (Normalizable text size) :=
  inferInstanceAs (Decidable (_ ∧ _))

theorem joined_iff_split {text : Bytes} {labels : List Bytes} : Joined text labels ↔
    labels = text.splitOn dot ∧ ∀ l ∈ labels, 1 ≤ l.length ∧ l.length ≤ 63 := by
  constructor
  · intro h
    refine ⟨?_, h.sizes⟩
    rw [h.text_eq]
    exact (List.splitOn_intercalate dot h.noDot h.ne_nil).symm
  · intro h
    obtain ⟨rfl, hsizes⟩ := h
    exact ⟨List.splitOn_ne_nil dot text, hsizes, fun l hl => not_mem_of_mem_splitOn hl,
      (List.intercalate_splitOn dot).symm⟩

theorem Normalizable.guards {text : Bytes} {size : Nat} (h : Normalizable text size) :
    size ≠ 0 ∧ ¬ (text.length = 0 ∨ text.length > DR_DNS_MAX_DOMAIN_LEN ∨ text.length + 1 > size) := by
  obtain ⟨hlen, hlabels⟩ := h
  have hpos : text.length ≠ 0 := by
    intro hzero
    have hnil : text = [] := List.length_eq_zero_iff.mp hzero
    subst hnil
    exact absurd (hlabels [] (by simp)).1 (by decide)
  omega

theorem drDnsNormalizeName_eq (name : CString) (size : Nat) : drDnsNormalizeName name size =
    if Normalizable (withoutTrailingDots name.octets) size then
      .ok (cstr ((withoutTrailingDots name.octets).map asciiLower))
    else .fail () := by
  obtain ⟨htrim, hlen⟩ := trimmed_eq name.octets
  rw [drDnsNormalizeName]
  dsimp only
  rw [htrim, hlen]
  generalize withoutTrailingDots name.octets = text
  have hloop := normalizeLoop_labels (List.splitOn_ne_nil dot text)
    (fun l hl => not_mem_of_mem_splitOn hl) []
  rw [List.nil_append, show separated dot (text.splitOn dot) = text from
    List.intercalate_splitOn dot] at hloop
  by_cases h : Normalizable text size
  · obtain ⟨hsize, hfits⟩ := h.guards
    rw [if_pos h, if_neg hsize, if_neg hfits]
    exact hloop.trans (if_pos h.2)
  · rw [if_neg h]
    by_cases hsize : size = 0
    · rw [if_pos hsize]
    rw [if_neg hsize]
    by_cases hbad : text.length = 0 ∨ text.length > DR_DNS_MAX_DOMAIN_LEN ∨ text.length + 1 > size
    · rw [if_pos hbad]
    rw [if_neg hbad]
    exact hloop.trans (if_neg (fun hlabels => h ⟨by omega, hlabels⟩))

theorem drDnsNormalizeName_not_stuck (name : CString) (size : Nat) :
    drDnsNormalizeName name size ≠ .stuck := by
  rw [drDnsNormalizeName_eq]
  split <;> simp

/-- Success of the routine in terms of the labels. -/
theorem drDnsNormalizeName_eq_ok {name n : CString} {size : Nat} :
    drDnsNormalizeName name size = .ok n ↔
      ∃ labels, Joined (withoutTrailingDots name.octets) labels ∧
        (withoutTrailingDots name.octets).length ≤ min DR_DNS_MAX_DOMAIN_LEN (size - 1) ∧
        n.octets = (withoutTrailingDots name.octets).map asciiLower := by
  have hfront : withoutTrailingDots name.octets <+: name.octets := List.rdropWhile_prefix _ _
  have hnul : (0 : UInt8) ∉ (withoutTrailingDots name.octets).map asciiLower :=
    mt nul_mem_lower.mp (fun hmem => name.noNul (hfront.subset hmem))
  rw [drDnsNormalizeName_eq]
  constructor
  · intro h
    split at h
    · next hnorm =>
      rw [← Outcome.ok.inj h]
      exact ⟨_, joined_iff_split.mpr ⟨rfl, hnorm.2⟩, hnorm.1, cstr_octets_of_noNul hnul⟩
    · cases h
  · intro h
    obtain ⟨labels, hjoined, hlen, hn⟩ := h
    obtain ⟨rfl, hsizes⟩ := joined_iff_split.mp hjoined
    rw [if_pos ⟨hlen, hsizes⟩]
    exact congrArg Outcome.ok (CString.ext ((cstr_octets_of_noNul hnul).trans hn.symm))

theorem asciiLower_idem (c : UInt8) : asciiLower (asciiLower c) = asciiLower c :=
  octet_cases (P := fun c => asciiLower (asciiLower c) = asciiLower c) (by decide +kernel) c

theorem lower_lower (text : Bytes) : lower (lower text) = lower text := by
  rw [lower, lower, List.map_map]
  exact List.map_congr_left (fun c _ => asciiLower_idem c)

theorem Joined.lower {text : Bytes} {labels : List Bytes} (h : Joined text labels) :
    Joined (lower text) (labels.map lower) where
  ne_nil := by simpa using h.ne_nil
  sizes := by
    intro w hw
    obtain ⟨l, hl, rfl⟩ := List.mem_map.mp hw
    rw [DnsRelay.Wire.lower, List.length_map]
    exact h.sizes l hl
  noDot := by
    intro w hw
    obtain ⟨l, hl, rfl⟩ := List.mem_map.mp hw
    exact mt dot_mem_lower.mp (h.noDot l hl)
  text_eq := by
    rw [h.text_eq]
    exact map_separated labels

theorem Joined.untrimmed {text : Bytes} {labels : List Bytes} (h : Joined text labels) :
    withoutTrailingDots text = text := by
  rw [h.text_eq]
  exact withoutTrailingDots_separated h.noDot
    (fun l hl => List.ne_nil_of_length_pos (h.sizes l hl).1)

theorem Joined.text_ne_nil {text : Bytes} {labels : List Bytes} (h : Joined text labels) :
    text ≠ [] := by
  rw [h.text_eq, Ne, separated_eq_nil dot (fun l hl => List.ne_nil_of_length_pos (h.sizes l hl).1)]
  exact h.ne_nil

/-- A text of lowered labels is its own normal form. -/
theorem normalize_joined {n : CString} {size : Nat} {labels : List Bytes}
    (h : Joined n.octets labels) (hlower : lower n.octets = n.octets)
    (hlen : n.octets.length ≤ min DR_DNS_MAX_DOMAIN_LEN (size - 1)) :
    drDnsNormalizeName n size = .ok n := by
  rw [drDnsNormalizeName_eq_ok, h.untrimmed]
  exact ⟨labels, h, hlen, hlower.symm⟩

/-- The labels of a normalized name. -/
theorem normalized_joined {name n : CString} {size : Nat} (h : drDnsNormalizeName name size = .ok n) :
    (∃ labels, Joined n.octets labels) ∧ lower n.octets = n.octets ∧
      n.octets.length ≤ min DR_DNS_MAX_DOMAIN_LEN (size - 1) := by
  obtain ⟨labels, hjoined, hlen, hn⟩ := drDnsNormalizeName_eq_ok.mp h
  have hlow : n.octets = lower (withoutTrailingDots name.octets) := hn
  refine ⟨⟨labels.map lower, hlow ▸ hjoined.lower⟩, by rw [hlow, lower_lower], ?_⟩
  rw [hn, List.length_map]
  exact hlen

/-- Decoding, normalizing and encoding agree: the normalized name is the text the encoded labels
decode to. -/
theorem normalized_text {name n : CString} {size : Nat} {labels : List Bytes}
    (hn : drDnsNormalizeName name size = .ok n) (hencodes : Encodes name.octets labels) :
    n.octets = nameText labels := by
  obtain ⟨labels', hjoined, _, hoctets⟩ := drDnsNormalizeName_eq_ok.mp hn
  have hsome := hjoined.text_ne_nil
  rcases hencodes.text with htext | ⟨hroot, _⟩
  · rw [withoutTrailingDots_of_labels htext hencodes.ne_nil] at hoctets hsome
    have hnil : labels ≠ [] := by
      rintro rfl
      exact hsome rfl
    rw [hoctets, nameText, if_neg hnil]
    exact map_separated labels
  · rw [hroot] at hsome
    exact absurd rfl hsome

/-- Lowering a text does not change where it can be split into labels. -/
theorem normalizable_lower {text : Bytes} {size : Nat} :
    Normalizable (lower text) size ↔ Normalizable text size := by
  have hsplit : (lower text).splitOn dot = (text.splitOn dot).map lower := by
    have hdot : ∀ w ∈ (text.splitOn dot).map lower, dot ∉ w := by
      intro w hw
      obtain ⟨l, hl, rfl⟩ := List.mem_map.mp hw
      exact mt dot_mem_lower.mp (not_mem_of_mem_splitOn hl)
    have htext : lower text = separated dot ((text.splitOn dot).map lower) := by
      rw [← map_separated]
      exact congrArg lower (List.intercalate_splitOn dot).symm
    rw [htext]
    exact List.splitOn_intercalate dot hdot (by simp)
  unfold Normalizable
  rw [hsplit, List.forall_mem_map]
  simp [lower]

/-- Texts that differ in case and trailing dots only are treated alike. -/
theorem normalize_congr {name name' : CString} (size : Nat)
    (h : lower (withoutTrailingDots name.octets) = lower (withoutTrailingDots name'.octets)) :
    drDnsNormalizeName name size = drDnsNormalizeName name' size := by
  have hiff : Normalizable (withoutTrailingDots name.octets) size ↔
      Normalizable (withoutTrailingDots name'.octets) size := by
    rw [← normalizable_lower, h, normalizable_lower]
  have htext : (withoutTrailingDots name.octets).map asciiLower =
      (withoutTrailingDots name'.octets).map asciiLower := h
  rw [drDnsNormalizeName_eq, drDnsNormalizeName_eq, htext]
  by_cases hnorm : Normalizable (withoutTrailingDots name.octets) size
  · rw [if_pos hnorm, if_pos (hiff.mp hnorm)]
  · rw [if_neg hnorm, if_neg (mt hiff.mpr hnorm)]

/-- The string a decoder leaves in its array. -/
theorem cstr_overlay_text (array text : Bytes) : cstr (overlay array 0 (text ++ [0])) = cstr text := by
  rw [overlay, List.take_zero, List.nil_append, List.append_assoc]
  exact cstr_append_nul _ _

/-- What `read_name` leaves for a name whose labels hold neither dots nor NULs. -/
theorem decoded_text {packet array output : Bytes} {offset outputSize jumps consumed : Nat}
    {labels : List Bytes} (hsize : outputSize ≤ array.length)
    (hread : readName packet offset array outputSize = .ok (output, consumed))
    (hname : NameAt packet offset jumps labels consumed) (hplain : Plain labels) :
    (cstr output).octets = nameText labels ∧ (nameText labels).length + 1 ≤ outputSize := by
  obtain ⟨jumps', labels', hname', _, hout, hroom⟩ := (readName_sat packet offset hsize).of_eq_ok hread
  obtain ⟨_, rfl, _⟩ := hname.unique hname'
  dsimp only at hout hroom
  rw [hout, cstr_overlay_text, cstr_octets_of_noNul hplain.noNul_text]
  exact ⟨rfl, hroom⟩

theorem joined_nameText {packet : Bytes} {offset jumps consumed : Nat} {labels : List Bytes}
    (hname : NameAt packet offset jumps labels consumed) (hplain : Plain labels)
    (hroot : labels ≠ []) :
    Joined (nameText labels) (labels.map lower) ∧ lower (nameText labels) = nameText labels := by
  have hjoined : Joined (separated dot labels) labels :=
    ⟨hroot, fun l hl => ⟨List.length_pos_of_ne_nil (hname.labels_ne_nil l hl).1,
      (hname.labels_ne_nil l hl).2⟩, fun l hl => (hplain l hl).1, rfl⟩
  have htext : nameText labels = lower (separated dot labels) := by
    rw [nameText, if_neg hroot, ← map_separated]
  rw [htext, lower_lower]
  exact ⟨hjoined.lower, rfl⟩

/-- `dr_dns_normalize_name` accepts exactly the texts that are labels joined by dots once their
trailing dots are gone, within the limits, and lowers them. It is idempotent, treats texts alike
that differ in case and trailing dots only, and leaves decoded names as they are. -/
theorem normalize_exact (name : CString) (size : Nat) :
    drDnsNormalizeName name size ≠ .stuck ∧
    (∀ n, drDnsNormalizeName name size = .ok n ↔
      ∃ labels, Joined (withoutTrailingDots name.octets) labels ∧
        (withoutTrailingDots name.octets).length ≤ min DR_DNS_MAX_DOMAIN_LEN (size - 1) ∧
        n.octets = (withoutTrailingDots name.octets).map asciiLower) ∧
    (∀ n, drDnsNormalizeName name size = .ok n → drDnsNormalizeName n size = .ok n) ∧
    (∀ name' : CString,
      (withoutTrailingDots name'.octets).map asciiLower =
        (withoutTrailingDots name.octets).map asciiLower →
      drDnsNormalizeName name' size = drDnsNormalizeName name size) ∧
    ∀ (packet array output : Bytes) (offset outputSize consumed jumps : Nat) (labels : List Bytes),
      outputSize ≤ array.length → outputSize ≤ DR_DNS_MAX_DOMAIN_LEN + 1 →
      readName packet offset array outputSize = .ok (output, consumed) →
      NameAt packet offset jumps labels consumed → Plain labels → labels ≠ [] →
      (cstr output).octets.length < size →
      drDnsNormalizeName (cstr output) size = .ok (cstr output) := by
  refine ⟨drDnsNormalizeName_not_stuck name size, fun n => drDnsNormalizeName_eq_ok, ?_, ?_, ?_⟩
  · intro n hn
    obtain ⟨⟨labels, hjoined⟩, hlower, hlen⟩ := normalized_joined hn
    exact normalize_joined hjoined hlower hlen
  · intro name' hsame
    exact normalize_congr size hsame
  · intro packet array output offset outputSize consumed jumps labels harray houtput hread hname
      hplain hroot hfits
    obtain ⟨htext, hroom⟩ := decoded_text harray hread hname hplain
    obtain ⟨hjoined, hlower⟩ := joined_nameText hname hplain hroot
    rw [← htext] at hjoined hlower hroom
    exact normalize_joined hjoined hlower (by omega)

end DnsRelay.Wire
