import DnsRelay.Wire.NameRoundTrip

/-!
# The size limit of names

A name takes at most 255 octets on the wire. The constant stands at three tests that
measure different things: the decoder counts the joined text, the encoder the octets
before the final zero. A joined text is two octets shorter than its wire form, so names
whose text has 254 octets pass both tests, and the decoder lets 255 pass as well.
-/
namespace DnsRelay.Wire

open DnsRelay.Foundation

/-- The octets of a name on the wire, without compression. -/
def wireLength (labels : List Bytes) : Nat := (labels.map (fun l => 1 + l.length)).sum + 1

theorem wireLength_eq (labels : List Bytes) : wireLength labels = (wireLabels labels).length + 1 := by
  rw [wireLength]
  congr 1
  induction labels with
  | nil => rfl
  | cons l labels ih =>
    rw [List.map_cons, List.sum_cons, ih, wireLabels_cons, List.length_append, List.length_cons]
    omega

/-- Of a name other than the root the wire form has two octets more than the joined text. -/
theorem wireLength_le_iff {labels : List Bytes} (n : Nat) :
    wireLength labels ≤ n + 2 ↔ (separated dot labels).length ≤ n := by
  rw [wireLength_eq]
  by_cases hnil : labels = []
  · subst hnil
    exact iff_of_true (by simp) (by simp)
  · rw [length_wireLabels hnil]
    omega

/-- A name decoded into the array takes at most 255 octets on the wire. -/
def ReadsWithinLimit (packet : Bytes) (offset : Nat) (array : Bytes) : Prop :=
  ∀ output consumed, readName packet offset array (DR_DNS_MAX_DOMAIN_LEN + 1) = .ok (output, consumed) →
    ∀ jumps labels, NameAt packet offset jumps labels consumed → wireLength labels ≤ 255

/-- A name written to the window takes at most 255 octets. -/
def WritesWithinLimit (name : CString) (array : Bytes) (base outSize : Nat) : Prop :=
  ∀ output written, writeName name array base outSize = .ok (output, written) → written ≤ 255

/-- The decoder keeps the limit exactly where the name it finds has no text of 254 or 255 octets. -/
theorem reads_within_limit_iff {packet array : Bytes} (offset : Nat)
    (harray : array.length = DR_DNS_MAX_DOMAIN_LEN + 1) :
    ReadsWithinLimit packet offset array ↔
      ∀ jumps labels consumed, NameAt packet offset jumps labels consumed → jumps ≤ 16 →
        (separated dot labels).length ≠ 254 ∧ (separated dot labels).length ≠ 255 := by
  simp only [ReadsWithinLimit, DR_DNS_MAX_DOMAIN_LEN] at harray ⊢
  constructor
  · intro hlimit jumps labels consumed hname hjumps
    have hread (hlen : (separated dot labels).length ≤ 255) :=
      readName_of_name harray.ge hname hjumps
        (Nat.succ_le_succ ((length_nameText_le_iff (by omega)).mpr hlen))
    have hwire (hlen : (separated dot labels).length ≤ 255) : (separated dot labels).length ≤ 253 :=
      (wireLength_le_iff 253).mp (hlimit _ _ (hread hlen) jumps labels hname)
    constructor <;> intro heq <;> have hle := hwire (by omega) <;> omega
  · intro hnone output consumed hok jumps labels hname
    obtain ⟨jumps', labels', hname', hjumps, _, hroom⟩ :=
      (readName_sat packet offset harray.ge).of_eq_ok hok
    obtain ⟨rfl, rfl, _⟩ := hname.unique hname'
    have hlen : (separated dot labels).length ≤ 255 :=
      (length_nameText_le_iff (by omega)).mp (by omega)
    obtain ⟨hfour, hfive⟩ := hnone jumps labels consumed hname hjumps
    exact (wireLength_le_iff 253).mpr (by omega)

/-- The encoder keeps the limit exactly where the window is too small for more, or the text does not
stand for labels with a joined text of 254 octets. -/
theorem writes_within_limit_iff (name : CString) {array : Bytes} {base outSize : Nat}
    (hfit : base + outSize ≤ array.length) :
    WritesWithinLimit name array base outSize ↔
      outSize < 256 ∨ ∀ labels, TextLabels name.octets labels →
        (∀ l ∈ labels, 1 ≤ l.length ∧ l.length ≤ 63) → (separated dot labels).length ≠ 254 := by
  unfold WritesWithinLimit
  constructor
  · intro hlimit
    by_cases hsmall : outSize < 256
    · exact Or.inl hsmall
    · refine Or.inr (fun labels htext hlabels heq => ?_)
      have hne : labels ≠ [] := by
        rintro rfl
        simp at heq
      have hwire := length_wireLabels hne
      have hwritten := hlimit _ _ (writeName_of_labels hfit htext hlabels (by omega) (by omega))
      omega
  · intro hcases output written hok
    obtain ⟨labels, hencodes, _, hwritten, hroom⟩ := (writeName_sat hfit).of_eq_ok hok
    have hshort := hencodes.short
    simp only [DR_DNS_MAX_DOMAIN_LEN] at hwritten hroom hshort
    rcases hcases with hsmall | hnone
    · omega
    · rcases hencodes.text with htext | ⟨_, rfl⟩
      · by_cases hnil : labels = []
        · subst hnil
          simp at hwritten
          omega
        · have hwire := length_wireLabels hnil
          have hlen := hnone labels htext hencodes.sizes
          omega
      · simp at hwritten
        omega

/-- Exactly where the decoder and the encoder keep a name within 255 octets. -/
theorem name_size_limit_iff (packet array : Bytes) (offset : Nat) (name : CString) (out : Bytes)
    (base outSize : Nat) :
    (array.length = DR_DNS_MAX_DOMAIN_LEN + 1 →
      (ReadsWithinLimit packet offset array ↔
        ∀ jumps labels consumed, NameAt packet offset jumps labels consumed → jumps ≤ 16 →
          (separated dot labels).length ≠ 254 ∧ (separated dot labels).length ≠ 255)) ∧
    (base + outSize ≤ out.length →
      (WritesWithinLimit name out base outSize ↔
        outSize < 256 ∨ ∀ labels, TextLabels name.octets labels →
          (∀ l ∈ labels, 1 ≤ l.length ∧ l.length ≤ 63) → (separated dot labels).length ≠ 254)) :=
  ⟨reads_within_limit_iff offset, writes_within_limit_iff name⟩

/-- Labels of 63, 63, 63 and 62 octets. -/
def fullLabels : List Bytes :=
  [List.replicate 63 0x61, List.replicate 63 0x61, List.replicate 63 0x61, List.replicate 62 0x61]

theorem fullLabels_sizes : ∀ l ∈ fullLabels, 1 ≤ l.length ∧ l.length ≤ 63 := by decide

/-- A name of 256 octets is decoded, and written. -/
theorem name_of_256_octets :
    (¬ ∀ (packet array : Bytes) (offset : Nat), array.length = DR_DNS_MAX_DOMAIN_LEN + 1 →
      ReadsWithinLimit packet offset array) ∧
    ¬ ∀ (name : CString) (array : Bytes) (base outSize : Nat), base + outSize ≤ array.length →
      WritesWithinLimit name array base outSize := by
  have harray : (List.replicate 256 (0 : UInt8)).length = 256 := List.length_replicate
  have hwire : (wireLabels fullLabels).length = 255 := by decide +kernel
  constructor
  · intro hall
    have hname := nameAt_wireLabels [] [] fullLabels_sizes
    have hread := readName_of_name harray.ge hname (by omega) (by decide +kernel)
    have hlimit := hall _ _ _ harray _ _ hread 0 fullLabels hname
    rw [wireLength_eq, hwire] at hlimit
    omega
  · intro hall
    have hoctets : (cstr (separated dot fullLabels)).octets = separated dot fullLabels :=
      cstr_octets_of_noNul (by decide +kernel)
    have htext : TextLabels (cstr (separated dot fullLabels)).octets fullLabels :=
      hoctets.symm ▸ textLabels_separated (by decide +kernel)
    have hfit : 0 + 256 ≤ (List.replicate 256 (0 : UInt8)).length := harray.ge
    have hwrite := writeName_of_labels hfit htext fullLabels_sizes (by omega) (by omega)
    have hlimit := hall _ _ 0 256 hfit _ _ hwrite
    omega

end DnsRelay.Wire
