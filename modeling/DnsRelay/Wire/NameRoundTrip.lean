import DnsRelay.Wire.Normalization

/-!
# Encoding and decoding a normalized name

A normalized name is joined lower-case labels, so what `write_name` puts on the wire for
it reads back as the same text, at any offset and whatever stands around it. At 254
octets the text is the longest one whose labels fit into the 256 octets of the buffer.
-/
namespace DnsRelay.Wire

open DnsRelay.Foundation

/-- The names the relay exchanges: normalized ones of at most 254 octets, and the root. -/
def Exchanged (n : CString) : Prop :=
  (∃ name size, drDnsNormalizeName name size = .ok n ∧ n.octets.length ≤ 254) ∨ n.octets = [dot]

/-- The octets `write_name` writes. -/
def wireSize (n : CString) : Nat := if n.octets = [dot] then 1 else n.octets.length + 2

theorem textLabels_separated {labels : List Bytes} (h : ∀ l ∈ labels, dot ∉ l) :
    TextLabels (separated dot labels) labels := by
  induction labels with
  | nil => exact .nil
  | cons l labels ih =>
    have hl : dot ∉ l := h l (by simp)
    by_cases hnil : labels = []
    · subst hnil
      rw [separated_singleton]
      exact .last hl
    · rw [separated_cons _ _ hnil]
      exact .cons hl (ih (fun w hw => h w (by simp [hw])))

/-- The labels of an exchanged name: it is their decoded text, and they take the size above. -/
structure LabelsOf (n : CString) (labels : List Bytes) : Prop where
  sizes : ∀ l ∈ labels, 1 ≤ l.length ∧ l.length ≤ 63
  text : nameText labels = n.octets
  wire : (wireLabels labels).length + 1 = wireSize n
  writes : ∀ (array : Bytes) (base outSize : Nat), base + outSize ≤ array.length → 256 ≤ outSize →
    writeName n array base outSize =
      .ok (overlay array base (wireLabels labels ++ [0]), (wireLabels labels).length + 1)

theorem labelsOf_root {n : CString} (h : n.octets = [dot]) : LabelsOf n [] where
  sizes := by simp
  text := h.symm
  wire := by rw [wireSize, if_pos h]; rfl
  writes array base outSize hfit hsize := by
    rw [writeName, if_neg (by omega), if_pos h, store_of_le (by simp; omega)]
    rfl

theorem labelsOf_joined {n : CString} {labels : List Bytes} (h : Joined n.octets labels)
    (hlower : lower n.octets = n.octets) (hlen : n.octets.length ≤ 254) : LabelsOf n labels := by
  have htext : TextLabels n.octets labels := h.text_eq ▸ textLabels_separated h.noDot
  have hwire : (wireLabels labels).length = n.octets.length + 1 := by
    rw [length_wireLabels h.ne_nil, ← h.text_eq]
  refine ⟨h.sizes, ?_, ?_, ?_⟩
  · rw [nameText, if_neg h.ne_nil, ← map_separated, ← h.text_eq]
    exact hlower
  · rw [wireSize, if_neg (htext.ne_root h.sizes), hwire]
  · intro array base outSize hfit hsize
    exact writeName_of_labels hfit htext h.sizes (by omega) (by omega)

theorem Exchanged.labels {n : CString} (h : Exchanged n) : ∃ labels, LabelsOf n labels := by
  rcases h with ⟨name, size, hnorm, hlen⟩ | hroot
  · obtain ⟨⟨labels, hjoined⟩, hlower, _⟩ := normalized_joined hnorm
    exact ⟨labels, labelsOf_joined hjoined hlower hlen⟩
  · exact ⟨[], labelsOf_root hroot⟩

/-- The encoded labels decode to the name, and the walker passes over them. -/
theorem LabelsOf.reads {n : CString} {labels : List Bytes} (h : LabelsOf n labels)
    (front rest array : Bytes) (outputSize : Nat) (hfit : outputSize ≤ array.length)
    (hroom : n.octets.length + 1 ≤ outputSize) :
    (∃ output, readName (front ++ (wireLabels labels ++ 0 :: rest)) front.length array outputSize =
        .ok (output, (wireLabels labels).length + 1) ∧ cstr output = n) ∧
      skipName (front ++ (wireLabels labels ++ 0 :: rest)) front.length =
        .ok ((wireLabels labels).length + 1) := by
  have hname := nameAt_wireLabels front rest h.sizes
  refine ⟨⟨_, readName_of_name hfit hname (by omega) (by rw [h.text]; exact hroom), ?_⟩,
    skipName_eq_ok_iff.mpr hname.span⟩
  rw [cstr_overlay_text, h.text]
  exact cstr_octets n

/-- What was written to a place can be read off the result. -/
theorem overlay_injective {array wire wire' : Bytes} {base : Nat} (hlen : wire.length = wire'.length)
    (h : overlay array base wire = overlay array base wire') : wire = wire' := by
  rw [overlay, overlay, List.append_assoc, List.append_assoc] at h
  exact (List.append_inj (List.append_cancel_left h) hlen).1

/-- What is written for an exchanged name reads back as the name, at any offset of any packet. No
other exchanged name is written alike. -/
theorem name_round_trip {n : CString} (hn : Exchanged n) : ∃ wire : Bytes,
    wire.length = wireSize n ∧
    (∀ (array : Bytes) (base outSize : Nat), base + outSize ≤ array.length → 256 ≤ outSize →
      writeName n array base outSize = .ok (overlay array base wire, wire.length)) ∧
    (∀ (front rest array : Bytes) (outputSize : Nat), outputSize ≤ array.length →
      n.octets.length + 1 ≤ outputSize →
      (∃ output, readName (front ++ (wire ++ rest)) front.length array outputSize =
          .ok (output, wire.length) ∧ cstr output = n) ∧
        skipName (front ++ (wire ++ rest)) front.length = .ok wire.length) ∧
    ∀ n', Exchanged n' → ∀ (array : Bytes) (base outSize : Nat), base + outSize ≤ array.length →
      256 ≤ outSize → writeName n' array base outSize = .ok (overlay array base wire, wire.length) →
      n' = n := by
  obtain ⟨labels, hlabels⟩ := hn.labels
  have hlen : (wireLabels labels ++ [0]).length = (wireLabels labels).length + 1 := by simp
  have hmid (ls : List Bytes) (rest : Bytes) : wireLabels ls ++ [0] ++ rest = wireLabels ls ++ 0 :: rest := by
    simp
  refine ⟨wireLabels labels ++ [0], hlen.trans hlabels.wire, ?_, ?_, ?_⟩
  · rw [hlen]
    exact hlabels.writes
  · intro front rest array outputSize hfit hroom
    rw [hlen, hmid]
    exact hlabels.reads front rest array outputSize hfit hroom
  · intro n' hn' array base outSize hfit hsize hwrite
    obtain ⟨labels', hlabels'⟩ := hn'.labels
    rw [hlabels'.writes array base outSize hfit hsize, Outcome.ok.injEq, Prod.mk.injEq] at hwrite
    obtain ⟨hover, hcount⟩ := hwrite
    have hsame : wireLabels labels' ++ [0] = wireLabels labels ++ [0] :=
      overlay_injective (by rw [List.length_append, List.length_singleton]; exact hcount) hover
    -- both names are what is read from the one wire form
    have hread := hlabels.reads [] [] (List.replicate (max n.octets.length n'.octets.length + 1) 0) _
      (le_refl _) (by rw [List.length_replicate]; omega)
    have hread' := hlabels'.reads [] [] (List.replicate (max n.octets.length n'.octets.length + 1) 0) _
      (le_refl _) (by rw [List.length_replicate]; omega)
    rw [hsame] at hread'
    obtain ⟨⟨output, hok, hn⟩, _⟩ := hread
    obtain ⟨⟨output', hok', hn'⟩, _⟩ := hread'
    rw [hok, Outcome.ok.injEq, Prod.mk.injEq] at hok'
    rw [← hn, ← hn', hok'.1]

/-- The name `a`, from `A.`. -/
theorem name_round_trip_letter : Exchanged (cstr [0x61]) ∧ ∃ wire : Bytes, wire.length = 3 ∧
    skipName ([0xff] ++ (wire ++ [0xff])) 1 = .ok wire.length := by
  have hn : Exchanged (cstr [0x61]) :=
    Or.inl ⟨cstr [0x41, dot], 256, by decide +kernel, by decide⟩
  obtain ⟨wire, hlen, _, hread, _⟩ := name_round_trip hn
  exact ⟨hn, wire, hlen, (hread [0xff] [0xff] [0, 0] 2 (by decide) (by decide)).2⟩

end DnsRelay.Wire
