import DnsRelay.Wire.NameGrammar

/-!
# Exactness of the name decoder

`read_name` accepts every chain of the grammar that respects its two limits, the
sixteen pointers and the size of the output array. Soundness is in the grammar's
module, so completeness only has to exclude failure: the output checks of the loop
are monotone in the text, hence implied by the bound on the finished text.
-/
namespace DnsRelay.Wire

open DnsRelay.Foundation
open Outcome (Sat)

theorem length_le_appendLabels (text : Bytes) (labels : List Bytes) :
    text.length ≤ (appendLabels text labels).length := by
  induction labels generalizing text with
  | nil => exact le_refl _
  | cons l labels ih =>
    have hstep := ih ((if text = [] then [] else text ++ [dot]) ++ lower l)
    have hgrow : text.length ≤ ((if text = [] then [] else text ++ [dot]) ++ lower l).length := by
      by_cases ht : text = []
      · simp [ht]
      · simp only [if_neg ht, List.length_append]; omega
    rw [appendLabels]
    omega

theorem length_le_finish (text : Bytes) : text.length ≤ (finish text).length := by
  unfold finish
  by_cases ht : text = []
  · simp [ht]
  · rw [if_neg ht]

/-- With room for the separator and one more octet it is written. -/
theorem writeSeparator_of_room {array : Bytes} {size written : Nat} {text output : Bytes}
    (h : Holds array size text written output) (hsize : size ≤ array.length)
    (hroom : (if text = [] then [] else text ++ [dot]).length + 1 ≤ size) :
    ∃ r, writeSeparator size written output = .ok r ∧
      Holds array size (if text = [] then [] else text ++ [dot]) r.1 r.2 := by
  have hsat := writeSeparator_sat h hsize
  cases hw : writeSeparator size written output with
  | stuck => exact absurd hw hsat.not_stuck
  | ok r => exact ⟨r, rfl, hsat.of_eq_ok hw⟩
  | fail e =>
    unfold writeSeparator at hw
    by_cases hzero : written ≠ 0
    · have hne : text ≠ [] := by
        intro ht
        exact hzero (by rw [h.count, ht]; rfl)
      rw [if_neg hne, List.length_append, List.length_singleton] at hroom
      have hfit : ¬ written + 1 ≥ size := by have hc := h.count; omega
      obtain ⟨output', hstore, _⟩ := h.append (c := dot) hsize hfit
      simp [if_pos hzero, if_neg hfit, hstore] at hw
    · simp [if_neg hzero] at hw

/-- With room for all its octets a label is copied. -/
theorem copyLabel_of_room {packet array : Bytes} {size : Nat} (hsize : size ≤ array.length)
    (n pos written : Nat) (text output : Bytes) (hpos : pos + n ≤ packet.length)
    (h : Holds array size text written output) (hroom : text.length + n + 1 ≤ size) :
    ∃ r, copyLabel packet size n pos written output = .ok r ∧
      Holds array size (text ++ lower (slice packet pos n)) r.1 r.2 := by
  have hok : ∃ r, copyLabel packet size n pos written output = .ok r := by
    induction n generalizing pos written text output with
    | zero => exact ⟨_, rfl⟩
    | succ n ih =>
      have hfit : ¬ written + 1 ≥ size := by have hc := h.count; omega
      obtain ⟨output', hstore, hnext⟩ := h.append (c := asciiLower (octet packet pos)) hsize hfit
      rw [copyLabel, if_neg hfit, load_of_lt (by omega), Outcome.ok_bind, hstore, Outcome.ok_bind]
      exact ih (pos + 1) _ _ output' (by omega) hnext (by simp; omega)
  obtain ⟨r, hr⟩ := hok
  exact ⟨r, hr, (copyLabel_sat hsize n pos written text output hpos h).of_eq_ok hr⟩

/-- The loop of `read_name` follows every chain that keeps its two limits. The induction is on
the chain; the budget is the one of the soundness proof. -/
theorem readNameLoop_of_name {packet array : Bytes} {offset size : Nat}
    (hsize : size ≤ array.length) (htwo : 2 ≤ size) {pos jumps extent : Nat} {labels : List Bytes}
    (hname : NameAt packet pos jumps labels extent) :
    ∀ (fuel : Nat) (s : NameReader) (text : Bytes), s.pos = pos → s.jumps + jumps ≤ 16 →
      (17 - s.jumps) * (packet.length + 1) + (packet.length - s.pos) < fuel →
      Holds array size text s.written s.output →
      (finish (appendLabels text labels)).length + 1 ≤ size →
      ∃ r, readNameLoop packet offset size fuel s = .ok r := by
  induction hname with
  | root hpos hzero =>
    intro fuel s text hs hjumps hfuel hholds hroom
    subst hs
    obtain ⟨fuel, rfl⟩ := Nat.exists_eq_succ_of_ne_zero (Nat.ne_of_gt (Nat.zero_lt_of_lt hfuel))
    have hlen : s.output.length = array.length := by
      rw [hholds.contents]
      exact length_overlay (by have := hholds.room; omega)
    have hcount := hholds.count
    have hfit := hholds.room
    rw [readNameLoop, if_pos hpos, load_of_lt hpos, Outcome.ok_bind, if_neg (by rw [hzero]; decide),
      if_pos hzero]
    by_cases hw : s.written = 0
    · rw [if_pos hw, if_neg (by omega), store_of_le (by rw [hlen]; simp; omega)]
      exact ⟨_, rfl⟩
    · rw [if_neg hw, store_of_le (by rw [hlen]; simp; omega)]
      exact ⟨_, rfl⟩
  | @label pos jumps extent labels hpos hlow hhigh hfit rest ih =>
    intro fuel s text hs hjumps hfuel hholds hroom
    subst hs
    obtain ⟨fuel, rfl⟩ := Nat.exists_eq_succ_of_ne_zero (Nat.ne_of_gt (Nat.zero_lt_of_lt hfuel))
    have hnotPointer : ¬ octet packet s.pos &&& 0xc0 = 0xc0 := by rw [is_pointer_iff]; omega
    have hnotZero : octet packet s.pos ≠ 0 := by
      intro hz
      rw [hz] at hlow
      exact absurd hlow (by decide)
    have hplain : ¬ (octet packet s.pos &&& 0xc0 ≠ 0 ∨ octet packet s.pos > 63 ∨
        s.pos + 1 + (octet packet s.pos).toNat > packet.length) := by
      rw [← or_assoc, is_reserved_iff]
      omega
    -- the text after this label, a prefix of the finished one
    have hgrow := (length_le_appendLabels ((if text = [] then [] else text ++ [dot]) ++
      lower (slice packet (s.pos + 1) (octet packet s.pos).toNat)) labels).trans
      (length_le_finish _)
    rw [appendLabels] at hroom
    have hlabel : (lower (slice packet (s.pos + 1) (octet packet s.pos).toNat)).length =
        (octet packet s.pos).toNat := by
      rw [lower, List.length_map, length_slice hfit]
    rw [List.length_append, hlabel] at hgrow
    obtain ⟨⟨written, output⟩, hsep, hheld⟩ := writeSeparator_of_room hholds hsize (by omega)
    obtain ⟨⟨written', output'⟩, hcopied, hnext⟩ :=
      copyLabel_of_room hsize _ (s.pos + 1) _ _ _ hfit hheld (by omega)
    rw [readNameLoop, if_pos hpos, load_of_lt hpos, Outcome.ok_bind, if_neg hnotPointer,
      if_neg hnotZero, if_neg hplain, hsep, Outcome.ok_bind]
    dsimp only at hcopied hnext ⊢
    rw [hcopied, Outcome.ok_bind]
    exact ih fuel _ _ rfl hjumps (by dsimp only; omega) hnext hroom
  | @jump pos jumps extent labels hpos htop htarget rest ih =>
    intro fuel s text hs hjumps hfuel hholds hroom
    subst hs
    obtain ⟨fuel, rfl⟩ := Nat.exists_eq_succ_of_ne_zero (Nat.ne_of_gt (Nat.zero_lt_of_lt hfuel))
    have hblock : (17 - s.jumps) * (packet.length + 1) =
        (17 - (s.jumps + 1)) * (packet.length + 1) + (packet.length + 1) := by
      rw [← Nat.succ_mul]; congr 1; omega
    rw [readNameLoop, if_pos (by omega), load_of_lt (by omega), Outcome.ok_bind,
      if_pos ((is_pointer_iff _).mpr htop), if_neg (by omega), load_of_lt hpos, Outcome.ok_bind,
      if_neg (by omega)]
    exact ih fuel _ text rfl (by dsimp only; omega) (by dsimp only; omega) hholds hroom

/-- `read_name` decodes every name of the grammar that keeps its two limits. -/
theorem readName_of_name {packet array : Bytes} {offset size jumps extent : Nat}
    {labels : List Bytes} (hsize : size ≤ array.length)
    (hname : NameAt packet offset jumps labels extent) (hjumps : jumps ≤ 16)
    (hroom : (nameText labels).length + 1 ≤ size) :
    readName packet offset array size = .ok (overlay array 0 (nameText labels ++ [0]), extent) := by
  have hstart := hname.lt_length
  have hpos : 1 ≤ (nameText labels).length := by
    have hfinish := finish_appendLabels hname
    rw [← hfinish, finish]
    split
    · exact le_refl _
    · next hne => exact List.length_pos_of_ne_nil hne
  have hok : ∃ r, readName packet offset array size = .ok r := by
    rw [readName, if_neg (by omega)]
    refine readNameLoop_of_name hsize (by omega) hname _ _ [] rfl (by dsimp only; omega) ?_
      ⟨rfl, (overlay_nil _ _).symm, by simp; omega⟩ (by rwa [finish_appendLabels hname])
    simp only [readNameFuel]
    omega
  obtain ⟨r, hr⟩ := hok
  obtain ⟨jumps', labels', hname', _, hout, _⟩ := (readName_sat packet offset hsize).of_eq_ok hr
  obtain ⟨_, hlabels, hextent⟩ := hname.unique hname'
  rw [hr, hlabels, hextent, ← hout]

theorem length_separated_map {f : UInt8 → UInt8} (labels : List Bytes) :
    (separated dot (labels.map (fun l => l.map f))).length = (separated dot labels).length := by
  induction labels with
  | nil => rfl
  | cons l labels ih =>
    by_cases hl : labels = []
    · simp [hl]
    · have hmap : labels.map (fun l => l.map f) ≠ [] := by simpa using hl
      rw [List.map_cons, separated_cons _ _ hmap, separated_cons _ _ hl]
      simp [ih]

theorem length_nameText_le_iff {labels : List Bytes} {n : Nat} (hn : 1 ≤ n) :
    (nameText labels).length ≤ n ↔ (separated dot labels).length ≤ n := by
  unfold nameText
  by_cases hl : labels = []
  · simp [hl, hn]
  · rw [if_neg hl, show labels.map lower = labels.map (fun l => l.map asciiLower) from rfl,
      length_separated_map]

/-- `read_name` into an array of 256 octets terminates, and succeeds exactly on the chains of the
grammar with at most sixteen pointers and a joined text of at most 255 octets; it leaves that
text in lower case, NUL-terminated, and reports the octets up to the first pointer or the zero. -/
theorem name_decoded_iff {packet array : Bytes} {offset : Nat} (harray : array.length = 256) :
    readName packet offset array 256 ≠ .stuck ∧
      ∀ output consumed, readName packet offset array 256 = .ok (output, consumed) ↔
        ∃ jumps labels, NameAt packet offset jumps labels consumed ∧ jumps ≤ 16 ∧
          (separated dot labels).length ≤ 255 ∧
          output = overlay array 0 (nameText labels ++ [0]) := by
  have hsize : 256 ≤ array.length := harray.ge
  have hsat := readName_sat packet offset hsize
  refine ⟨hsat.not_stuck, ?_⟩
  intro output consumed
  constructor
  · intro hok
    obtain ⟨jumps, labels, hname, hjumps, hout, hroom⟩ := hsat.of_eq_ok hok
    have htext := (length_nameText_le_iff (by omega)).mp (by omega : (nameText labels).length ≤ 255)
    exact ⟨jumps, labels, hname, hjumps, htext, hout⟩
  · intro hchain
    obtain ⟨jumps, labels, hname, hjumps, htext, hout⟩ := hchain
    have hroom : (nameText labels).length ≤ 255 := (length_nameText_le_iff (by omega)).mpr htext
    rw [readName_of_name hsize hname hjumps (by omega), hout]

/-- A pointer back to a name, at the last two octets of its packet. -/
theorem name_decoded_iff_pointer :
    (List.replicate 256 (0 : UInt8)).length = 256 ∧
      readName [1, 0x41, 0, 0xc0, 0] 3 (List.replicate 256 0) 256 =
        .ok (overlay (List.replicate 256 0) 0 [0x61, 0], 2) := by
  have hlen : (List.replicate 256 (0 : UInt8)).length = 256 := List.length_replicate
  have hroot : NameAt [1, 0x41, 0, 0xc0, 0] 2 0 [] 1 := .root (by decide) (by decide)
  have hlabel : NameAt [1, 0x41, 0, 0xc0, 0] 0 0 [[0x41]] 3 :=
    @NameAt.label _ 0 0 1 [] (by decide) (by decide) (by decide) (by decide) hroot
  have hname : NameAt [1, 0x41, 0, 0xc0, 0] 3 1 [[0x41]] 2 :=
    @NameAt.jump _ 3 0 3 _ (by decide) (by decide) (by decide) hlabel
  exact ⟨hlen, ((name_decoded_iff hlen).2 _ _).mpr ⟨1, _, hname, by decide, by decide, rfl⟩⟩

end DnsRelay.Wire
