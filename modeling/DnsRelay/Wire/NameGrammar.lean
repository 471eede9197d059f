import DnsRelay.Wire.Name

/-!
# The grammar of names in a packet

`NameAt` describes the chain of labels and compression pointers that starts at an
offset, independently of the loops that walk it. `read_name` is sound for it: what
it accepts is such a chain with at most sixteen pointers, and what it leaves in the
output array is the chain's text in lower case, terminated inside the array.
-/
namespace DnsRelay.Wire

open DnsRelay.Foundation
open Outcome (Sat)

def slice (packet : Bytes) (pos len : Nat) : Bytes := (packet.drop pos).take len

/-- The name at an offset: the number of pointers followed, the labels in order, and the octets
the name occupies there, which end with its first pointer or its zero octet. -/
inductive NameAt (packet : Bytes) : Nat → Nat → List Bytes → Nat → Prop where
  | root {pos : Nat} (hpos : pos < packet.length) (hzero : octet packet pos = 0) :
      NameAt packet pos 0 [] 1
  | label {pos jumps extent : Nat} {labels : List Bytes} (hpos : pos < packet.length)
      (hlow : 1 ≤ (octet packet pos).toNat) (hhigh : (octet packet pos).toNat ≤ 63)
      (hfit : pos + 1 + (octet packet pos).toNat ≤ packet.length)
      (rest : NameAt packet (pos + 1 + (octet packet pos).toNat) jumps labels extent) :
      NameAt packet pos jumps (slice packet (pos + 1) (octet packet pos).toNat :: labels)
        (1 + (octet packet pos).toNat + extent)
  | jump {pos jumps extent : Nat} {labels : List Bytes} (hpos : pos + 1 < packet.length)
      (htop : 192 ≤ (octet packet pos).toNat)
      (htarget : (pointer (octet packet pos) (octet packet (pos + 1))).toNat < packet.length)
      (rest : NameAt packet (pointer (octet packet pos) (octet packet (pos + 1))).toNat jumps
        labels extent) :
      NameAt packet pos (jumps + 1) labels 2

/-- Check a statement about an octet on all its values. -/
theorem octet_cases {P : UInt8 → Prop} (h : ∀ n : Fin 256, P (UInt8.ofFin n)) (b : UInt8) : P b :=
  h b.toFin

theorem is_pointer_iff (b : UInt8) : b &&& 0xc0 = 0xc0 ↔ 192 ≤ b.toNat := by
  revert b
  exact fun b => octet_cases (P := fun b => b &&& 0xc0 = 0xc0 ↔ 192 ≤ b.toNat)
    (by decide +kernel) b

theorem is_reserved_iff (b : UInt8) : (b &&& 0xc0 ≠ 0 ∨ b > 63) ↔ 63 < b.toNat :=
  octet_cases (P := fun b => (b &&& 0xc0 ≠ 0 ∨ b > 63) ↔ 63 < b.toNat) (by decide +kernel) b

theorem length_slice {packet : Bytes} {pos len : Nat} (h : pos + len ≤ packet.length) :
    (slice packet pos len).length = len := by
  simp only [slice, List.length_take, List.length_drop]
  omega

theorem slice_succ {packet : Bytes} {pos len : Nat} (h : pos < packet.length) :
    slice packet pos (len + 1) = octet packet pos :: slice packet (pos + 1) len := by
  rw [slice, List.drop_eq_getElem_cons h, List.take_succ_cons, octet_of_lt h]
  rfl

theorem NameAt.labels_ne_nil {packet : Bytes} {pos jumps extent : Nat} {labels : List Bytes}
    (h : NameAt packet pos jumps labels extent) : ∀ l ∈ labels, l ≠ [] ∧ l.length ≤ 63 := by
  induction h with
  | root => simp
  | label hpos hlow hhigh hfit rest ih =>
    intro l hl
    rcases List.mem_cons.mp hl with rfl | hl
    · have hlen := length_slice hfit
      exact ⟨List.ne_nil_of_length_pos (by omega), by omega⟩
    · exact ih l hl
  | jump hpos htop htarget rest ih => exact ih

theorem NameAt.lt_length {packet : Bytes} {pos jumps extent : Nat} {labels : List Bytes}
    (h : NameAt packet pos jumps labels extent) : pos < packet.length := by
  cases h with
  | root hpos => exact hpos
  | label hpos => exact hpos
  | jump hpos => omega

/-- A name occupies at least one octet and ends inside the packet. -/
theorem NameAt.extent_le {packet : Bytes} {pos jumps extent : Nat} {labels : List Bytes}
    (h : NameAt packet pos jumps labels extent) : 1 ≤ extent ∧ pos + extent ≤ packet.length := by
  induction h with
  | root hpos => omega
  | label hpos hlow hhigh hfit rest ih => omega
  | jump hpos => omega

/-- A packet has at most one name at an offset. -/
theorem NameAt.unique {packet : Bytes} {pos jumps jumps' extent extent' : Nat}
    {labels labels' : List Bytes} (h : NameAt packet pos jumps labels extent)
    (h' : NameAt packet pos jumps' labels' extent') :
    jumps = jumps' ∧ labels = labels' ∧ extent = extent' := by
  induction h generalizing jumps' labels' extent' with
  | root hpos hzero =>
    cases h' with
    | root => exact ⟨rfl, rfl, rfl⟩
    | label _ hlow => simp [hzero] at hlow
    | jump _ htop => simp [hzero] at htop
  | label hpos hlow hhigh hfit rest ih =>
    cases h' with
    | root _ hzero => simp [hzero] at hlow
    | label _ _ _ _ rest' =>
      obtain ⟨rfl, rfl, rfl⟩ := ih rest'
      exact ⟨rfl, rfl, rfl⟩
    | jump _ htop => omega
  | jump hpos htop htarget rest ih =>
    cases h' with
    | root _ hzero => simp [hzero] at htop
    | label _ _ hhigh => omega
    | jump _ _ _ rest' =>
      obtain ⟨rfl, rfl, rfl⟩ := ih rest'
      exact ⟨rfl, rfl, rfl⟩

def lower (label : Bytes) : Bytes := label.map asciiLower

/-- Append labels to a text under construction, as `read_name` does. -/
def appendLabels : Bytes → List Bytes → Bytes
  | text, [] => text
  | text, l :: labels =>
    appendLabels ((if text = [] then [] else text ++ [dot]) ++ lower l) labels

/-- The text `read_name` produces: the labels joined by dots in lower case, `.` for the root. -/
def nameText (labels : List Bytes) : Bytes :=
  if labels = [] then [dot] else separated dot (labels.map lower)

theorem appendLabels_eq (done : List Bytes) {labels : List Bytes} (hdone : ∀ l ∈ done, l ≠ [])
    (hlabels : ∀ l ∈ labels, l ≠ []) :
    appendLabels (separated dot (done.map lower)) labels =
      separated dot ((done ++ labels).map lower) := by
  induction labels generalizing done with
  | nil => simp [appendLabels]
  | cons l labels ih =>
    have hmap : ∀ w ∈ done.map lower, w ≠ [] := by
      intro w hw
      obtain ⟨v, hv, rfl⟩ := List.mem_map.mp hw
      simpa [lower] using hdone v hv
    have hstep : (if separated dot (done.map lower) = [] then [] else
        separated dot (done.map lower) ++ [dot]) ++ lower l =
        separated dot ((done ++ [l]).map lower) := by
      by_cases hd : done = []
      · simp [hd]
      · have hne : done.map lower ≠ [] := by simpa using hd
        rw [if_neg (by rwa [separated_eq_nil dot hmap]), List.map_append, List.map_singleton,
          separated_concat _ _ hne, List.append_assoc]
        rfl
    rw [appendLabels, hstep, ih]
    · simp
    · intro w hw
      rcases List.mem_append.mp hw with hw | hw
      · exact hdone w hw
      · exact (List.mem_singleton.mp hw) ▸ hlabels l (by simp)
    · exact fun w hw => hlabels w (by simp [hw])

theorem appendLabels_nil {labels : List Bytes} (hlabels : ∀ l ∈ labels, l ≠ []) :
    appendLabels [] labels = separated dot (labels.map lower) := by
  simpa using appendLabels_eq [] (by simp) hlabels

/-- The octets a name occupies at an offset, with pointer targets in range but not followed. -/
inductive NameSpan (packet : Bytes) : Nat → Nat → Prop where
  | root {pos : Nat} (hpos : pos < packet.length) (hzero : octet packet pos = 0) :
      NameSpan packet pos 1
  | label {pos span : Nat} (hpos : pos < packet.length)
      (hlow : 1 ≤ (octet packet pos).toNat) (hhigh : (octet packet pos).toNat ≤ 63)
      (hfit : pos + 1 + (octet packet pos).toNat ≤ packet.length)
      (rest : NameSpan packet (pos + 1 + (octet packet pos).toNat) span) :
      NameSpan packet pos (1 + (octet packet pos).toNat + span)
  | jump {pos : Nat} (hpos : pos + 1 < packet.length) (htop : 192 ≤ (octet packet pos).toNat)
      (htarget : (pointer (octet packet pos) (octet packet (pos + 1))).toNat < packet.length) :
      NameSpan packet pos 2

theorem NameSpan.bounds {packet : Bytes} {pos span : Nat} (h : NameSpan packet pos span) :
    pos < packet.length ∧ 1 ≤ span ∧ pos + span ≤ packet.length := by
  induction h with
  | root hpos => omega
  | label hpos hlow hhigh hfit rest ih => omega
  | jump hpos => omega

theorem NameAt.span {packet : Bytes} {pos jumps extent : Nat} {labels : List Bytes}
    (h : NameAt packet pos jumps labels extent) : NameSpan packet pos extent := by
  induction h with
  | root hpos hzero => exact .root hpos hzero
  | label hpos hlow hhigh hfit rest ih => exact .label hpos hlow hhigh hfit ih
  | jump hpos htop htarget rest ih => exact .jump hpos htop htarget

/-- Only the octets of the span steer the walk. -/
theorem NameSpan.congr {packet packet' : Bytes} {pos span : Nat} (h : NameSpan packet pos span)
    (hlen : packet'.length = packet.length)
    (hsame : ∀ i, pos ≤ i → i < pos + span → octet packet' i = octet packet i) :
    NameSpan packet' pos span := by
  induction h with
  | root hpos hzero => exact .root (by omega) ((hsame _ (by omega) (by omega)).trans hzero)
  | @label pos span hpos hlow hhigh hfit rest ih =>
    have ho := hsame pos (by omega) (by omega)
    have hrest := ih (fun i h1 h2 => hsame i (by omega) (by omega))
    rw [← ho] at hrest hlow hhigh hfit ⊢
    exact .label (by omega) hlow hhigh (by omega) hrest
  | @jump pos hpos htop htarget =>
    have h0 := hsame pos (by omega) (by omega)
    have h1 := hsame (pos + 1) (by omega) (by omega)
    refine .jump (by omega) (by rw [h0]; exact htop) ?_
    rw [h0, h1, hlen]
    exact htarget

theorem skipNameLoop_sat {packet : Bytes} {offset : Nat} :
    ∀ (fuel pos : Nat), packet.length < fuel + pos → pos ≤ packet.length → offset ≤ pos →
      Sat (skipNameLoop packet offset fuel pos)
        (fun consumed => ∃ span, NameSpan packet pos span ∧ consumed = pos - offset + span) := by
  intro fuel
  induction fuel with
  | zero => intro pos hfuel hpos; omega
  | succ fuel ih =>
    intro pos hfuel hpos hoff
    rw [skipNameLoop]
    refine Sat.ite (fun hlt => ?_) (fun _ => trivial)
    rw [load_of_lt hlt, Outcome.ok_bind]
    refine Sat.ite (fun htop => ?_) (fun htop => Sat.ite (fun hzero => ?_) (fun hzero => ?_))
    · apply Sat.guard
      intro hnext
      rw [load_of_lt (by omega), Outcome.ok_bind]
      apply Sat.guard
      intro htarget
      exact ⟨2, .jump (by omega) ((is_pointer_iff _).mp htop) (by omega), rfl⟩
    · exact ⟨1, .root hlt hzero, rfl⟩
    · apply Sat.guard
      intro hbad
      have hne : (octet packet pos).toNat ≠ 0 := fun h => hzero (UInt8.toNat_inj.mp h)
      rw [← or_assoc, is_reserved_iff] at hbad
      apply (ih _ (by omega) (by omega) (by omega)).mono
      intro consumed hr
      obtain ⟨span, hspan, rfl⟩ := hr
      rw [← Nat.add_assoc] at hspan
      exact ⟨_, .label hlt (by omega) (by omega) (by omega) hspan, by omega⟩

/-- `skip_name` consumes exactly the span of the name it walks over. -/
theorem skipName_sat (packet : Bytes) (offset : Nat) :
    Sat (skipName packet offset) (fun consumed => NameSpan packet offset consumed) := by
  apply Sat.guard
  intro hoff
  apply (skipNameLoop_sat _ offset (by omega) (by omega) (by omega)).mono
  intro consumed hr
  obtain ⟨span, hspan, rfl⟩ := hr
  simpa using hspan

theorem skipNameLoop_of_span {packet : Bytes} {offset pos span : Nat} (h : NameSpan packet pos span)
    (hoff : offset ≤ pos) :
    ∀ fuel, packet.length < fuel + pos →
      skipNameLoop packet offset fuel pos = .ok (pos - offset + span) := by
  induction h with
  | root hpos hzero =>
    intro fuel hfuel
    cases fuel with
    | zero => omega
    | succ fuel => simp [skipNameLoop, hpos, load_of_lt hpos, hzero]
  | @label pos span hpos hlow hhigh hfit rest ih =>
    intro fuel hfuel
    cases fuel with
    | zero => omega
    | succ fuel =>
      have htop : ¬ (octet packet pos &&& 0xc0 = 0xc0) := by rw [is_pointer_iff]; omega
      have hzero : ¬ octet packet pos = 0 := fun h => by simp [h] at hlow
      have hbad : ¬ (octet packet pos &&& 0xc0 ≠ 0 ∨ octet packet pos > 63 ∨
          pos + 1 + (octet packet pos).toNat > packet.length) := by
        rw [← or_assoc, is_reserved_iff]; omega
      rw [skipNameLoop, if_pos hpos, load_of_lt hpos, Outcome.ok_bind, if_neg htop, if_neg hzero,
        if_neg hbad, ← Nat.add_assoc, ih (by omega) fuel (by omega)]
      congr 1
      omega
  | @jump pos hpos htop htarget =>
    intro fuel hfuel
    cases fuel with
    | zero => omega
    | succ fuel =>
      have hp : octet packet pos &&& 0xc0 = 0xc0 := (is_pointer_iff _).mpr htop
      rw [skipNameLoop, if_pos (by omega), load_of_lt (by omega), Outcome.ok_bind, if_pos hp,
        if_neg (by omega), load_of_lt hpos, Outcome.ok_bind, if_neg (by omega)]

theorem skipName_eq_ok_iff {packet : Bytes} {offset consumed : Nat} :
    skipName packet offset = .ok consumed ↔ NameSpan packet offset consumed := by
  constructor
  · exact (skipName_sat packet offset).of_eq_ok
  · intro h
    have hb := h.bounds
    rw [skipName, if_neg (by omega), skipNameLoop_of_span h (le_refl _) _ (by omega)]
    simp

/-- The output array of `read_name` holds a text so far, with room left for the terminator. -/
structure Holds (array : Bytes) (size : Nat) (text : Bytes) (written : Nat) (output : Bytes) :
    Prop where
  count : written = text.length
  contents : output = overlay array 0 text
  room : text.length + 1 ≤ size

theorem Holds.append {array : Bytes} {size written : Nat} {text output : Bytes} {c : UInt8}
    (h : Holds array size text written output) (hsize : size ≤ array.length)
    (hroom : ¬ written + 1 ≥ size) :
    ∃ output', (store output written [c] : Call Bytes) = .ok output' ∧
      Holds array size (text ++ [c]) (written + 1) output' := by
  obtain ⟨rfl, rfl, hr⟩ := h
  have hlen : (overlay array 0 text).length = array.length := length_overlay (by omega)
  have hfit : 0 + text.length + [c].length ≤ array.length := by simp; omega
  have hadj := overlay_overlay hfit
  rw [Nat.zero_add] at hadj
  exact ⟨_, store_of_le (by rw [hlen]; simp; omega), by simp, hadj, by simp; omega⟩

theorem writeSeparator_sat {array : Bytes} {size written : Nat} {text output : Bytes}
    (h : Holds array size text written output) (hsize : size ≤ array.length) :
    Sat (writeSeparator size written output)
      (fun r => Holds array size (if text = [] then [] else text ++ [dot]) r.1 r.2) := by
  unfold writeSeparator
  refine Sat.ite (fun hw => Sat.guard (fun hroom => ?_)) (fun hw => ?_)
  · obtain ⟨output', hstore, hnext⟩ := h.append (c := dot) hsize hroom
    rw [hstore, Outcome.ok_bind]
    have hne : text ≠ [] := by rintro rfl; exact hw h.count
    simpa [hne] using hnext
  · have hnil : text = [] := List.length_eq_zero_iff.mp (h.count ▸ not_not.mp hw)
    subst hnil
    simpa using h

theorem copyLabel_sat {packet array : Bytes} {size : Nat} (hsize : size ≤ array.length) :
    ∀ (n pos written : Nat) (text output : Bytes), pos + n ≤ packet.length →
      Holds array size text written output →
      Sat (copyLabel packet size n pos written output)
        (fun r => Holds array size (text ++ lower (slice packet pos n)) r.1 r.2) := by
  intro n
  induction n with
  | zero =>
    intro pos written text output _ h
    simpa [copyLabel, slice, lower] using h
  | succ n ih =>
    intro pos written text output hpos h
    rw [copyLabel]
    apply Sat.guard
    intro hroom
    rw [load_of_lt (by omega), Outcome.ok_bind]
    obtain ⟨output', hstore, hnext⟩ := h.append (c := asciiLower (octet packet pos)) hsize hroom
    rw [hstore, Outcome.ok_bind, slice_succ (by omega)]
    apply (ih (pos + 1) _ _ output' (by omega) hnext).mono
    intro r hr
    simpa [lower] using hr

/-- What `read_name` leaves as text: an empty text stands for the root and becomes `.`. -/
def finish (text : Bytes) : Bytes := if text = [] then [dot] else text

theorem terminate_sat {array : Bytes} {size written : Nat} {text output : Bytes} {consumed : Nat}
    (h : Holds array size text written output) (hsize : size ≤ array.length) :
    Sat (if written = 0 then
        if size < 2 then .fail ()
        else do
          let output ← store output 0 [dot, 0]
          pure (output, consumed)
      else do
        let output ← store output written [0]
        pure (output, consumed) : Call (Bytes × Nat))
      (fun r => r.2 = consumed ∧ r.1 = overlay array 0 (finish text ++ [0]) ∧
        (finish text).length + 1 ≤ size) := by
  obtain ⟨rfl, rfl, hroom⟩ := h
  have hlen : (overlay array 0 text).length = array.length := length_overlay (by omega)
  refine Sat.ite (fun hw => Sat.guard (fun htwo => ?_)) (fun hw => ?_)
  · have hnil : text = [] := List.length_eq_zero_iff.mp hw
    subst hnil
    rw [store_of_le (by rw [hlen]; simp; omega), Outcome.ok_bind]
    simp only [overlay_nil, finish, ↓reduceIte]
    exact ⟨rfl, rfl, by simp; omega⟩
  · have hne : text ≠ [] := by rintro rfl; exact hw rfl
    have hfit : 0 + text.length + ([0] : Bytes).length ≤ array.length := by simp; omega
    have hadj := overlay_overlay hfit
    rw [Nat.zero_add] at hadj
    rw [store_of_le (by rw [hlen]; simp; omega), Outcome.ok_bind]
    simp only [finish, if_neg hne]
    exact ⟨rfl, hadj, hroom⟩

/-- The loop of `read_name` from any of its states: its budget suffices, no access leaves the
packet or the array, and what it accepts continues the name it was reading. -/
theorem readNameLoop_sat {packet array : Bytes} {offset size : Nat} (hsize : size ≤ array.length) :
    ∀ (fuel : Nat) (s : NameReader) (text : Bytes),
      (17 - s.jumps) * (packet.length + 1) + (packet.length - s.pos) < fuel →
      s.jumps ≤ 16 → s.pos ≤ packet.length → (s.jumped = false → offset ≤ s.pos) →
      Holds array size text s.written s.output →
      Sat (readNameLoop packet offset size fuel s) (fun r =>
        ∃ jumps labels extent, NameAt packet s.pos jumps labels extent ∧ s.jumps + jumps ≤ 16 ∧
          r.2 = (if s.jumped then s.consumed else s.pos - offset + extent) ∧
          r.1 = overlay array 0 (finish (appendLabels text labels) ++ [0]) ∧
          (finish (appendLabels text labels)).length + 1 ≤ size) := by
  intro fuel
  induction fuel with
  | zero => intro s text hfuel; omega
  | succ fuel ih =>
    intro s text hfuel hjumps hpos hoff hholds
    rw [readNameLoop]
    refine Sat.ite (fun hlt => ?_) (fun _ => trivial)
    rw [load_of_lt hlt, Outcome.ok_bind]
    refine Sat.ite (fun htop => ?_) (fun htop => Sat.ite (fun hzero => ?_) (fun hzero => ?_))
    · apply Sat.guard
      intro hnext
      rw [load_of_lt (by omega), Outcome.ok_bind]
      apply Sat.guard
      intro hbad
      -- a jump may move backwards, but it spends one of the seventeen blocks of the budget
      have hblock : (17 - s.jumps) * (packet.length + 1) =
          (17 - (s.jumps + 1)) * (packet.length + 1) + (packet.length + 1) := by
        rw [← Nat.succ_mul]; congr 1; omega
      refine Sat.mono (ih _ text (by dsimp only; omega) (by dsimp only; omega)
        (by dsimp only; omega) (by simp) hholds) ?_
      intro r hr
      obtain ⟨jumps, labels, extent, hname, hcount, hcons, hout, hfit⟩ := hr
      refine ⟨jumps + 1, labels, 2, .jump (by omega) ((is_pointer_iff _).mp htop) (by omega) hname,
        by dsimp only at hcount; omega, ?_, hout, hfit⟩
      simpa using hcons
    · apply (terminate_sat hholds hsize).mono
      intro r hr
      obtain ⟨hcons, hout, hfit⟩ := hr
      exact ⟨0, [], 1, .root hlt hzero, by omega, hcons, hout, hfit⟩
    · apply Sat.guard
      intro hbad
      have hne : (octet packet s.pos).toNat ≠ 0 := fun h => hzero (UInt8.toNat_inj.mp h)
      rw [← or_assoc, is_reserved_iff] at hbad
      apply (writeSeparator_sat hholds hsize).bind
      intro sep hsep
      apply (copyLabel_sat hsize _ _ _ _ _ (by omega) hsep).bind
      intro copied hcopied
      refine Sat.mono (ih _ _ (by dsimp only; omega) hjumps (by dsimp only; omega)
        (fun h => by have := hoff h; dsimp only; omega) hcopied) ?_
      intro r hr
      obtain ⟨jumps, labels, extent, hname, hcount, hcons, hout, hfit⟩ := hr
      refine ⟨jumps, _, _, .label hlt (by omega) (by omega) (by omega) hname, hcount, ?_, hout, hfit⟩
      rw [hcons]
      cases hj : s.jumped with
      | true => rfl
      | false =>
        have := hoff hj
        simp only [Bool.false_eq_true, ↓reduceIte]
        omega

theorem finish_appendLabels {packet : Bytes} {pos jumps extent : Nat} {labels : List Bytes}
    (h : NameAt packet pos jumps labels extent) :
    finish (appendLabels [] labels) = nameText labels := by
  have hne : ∀ l ∈ labels, l ≠ [] := fun l hl => (h.labels_ne_nil l hl).1
  have hmap : ∀ w ∈ labels.map lower, w ≠ [] := by
    intro w hw
    obtain ⟨v, hv, rfl⟩ := List.mem_map.mp hw
    simpa [lower] using hne v hv
  rw [appendLabels_nil hne, finish, nameText]
  by_cases hl : labels = []
  · simp [hl]
  · rw [if_neg hl, if_neg]
    rw [separated_eq_nil dot hmap]
    simpa using hl

/-- Soundness of `read_name`: an accepted name is a chain of labels with at most sixteen
pointers, and the array holds its text, NUL-terminated inside the array. -/
theorem readName_sat (packet : Bytes) (offset : Nat) {array : Bytes} {size : Nat}
    (hsize : size ≤ array.length) :
    Sat (readName packet offset array size) (fun r =>
      ∃ jumps labels, NameAt packet offset jumps labels r.2 ∧ jumps ≤ 16 ∧
        r.1 = overlay array 0 (nameText labels ++ [0]) ∧ (nameText labels).length + 1 ≤ size) := by
  apply Sat.guard
  intro hbad
  refine (readNameLoop_sat hsize (readNameFuel packet) _ [] ?_ (by simp) (by dsimp only; omega)
    (fun _ => le_refl _) ⟨rfl, (overlay_nil _ _).symm, by simp; omega⟩).mono ?_
  · simp only [readNameFuel]; omega
  · intro r hr
    obtain ⟨output, consumed⟩ := r
    obtain ⟨jumps, labels, extent, hname, hcount, hcons, hout, hfit⟩ := hr
    rw [finish_appendLabels hname] at hout hfit
    have hext : consumed = extent := by simpa using hcons
    exact ⟨jumps, labels, hext ▸ hname, by simpa using hcount, hout, hfit⟩

/-- The labels a dotted text stands for; a dot may also end the text. -/
inductive TextLabels : Bytes → List Bytes → Prop where
  | nil : TextLabels [] []
  | last {l : Bytes} (hdot : dot ∉ l) : TextLabels l [l]
  | cons {l rest : Bytes} {labels : List Bytes} (hdot : dot ∉ l) (h : TextLabels rest labels) :
      TextLabels (l ++ dot :: rest) (l :: labels)

/-- Each label after its length octet. -/
def wireLabels (labels : List Bytes) : Bytes :=
  labels.flatMap (fun l => l.length.toUInt8 :: l)

theorem dot_not_mem_takeWhile (text : Bytes) : dot ∉ text.takeWhile (· ≠ dot) := by
  intro h
  simpa using List.mem_takeWhile_imp h

/-- One pass of the loop of `write_name`: a label that fits is written behind what is there. -/
theorem writeNameLoop_label {array wire label : Bytes} {base outSize fuel : Nat} {c : UInt8}
    {cs : Bytes} (hfit : base + outSize ≤ array.length)
    (hlabel : (c :: cs).takeWhile (· ≠ dot) = label) (hlow : 1 ≤ label.length)
    (hhigh : label.length ≤ 63) (hroom : wire.length + 1 + label.length + 1 ≤ outSize) :
    writeNameLoop base outSize (fuel + 1) (c :: cs) wire.length (overlay array base wire) =
      match (c :: cs).dropWhile (· ≠ dot) with
      | [] => .ok ((wire ++ wireLabels [label]).length, overlay array base (wire ++ wireLabels [label]))
      | _ :: rest => writeNameLoop base outSize fuel rest (wire ++ wireLabels [label]).length
          (overlay array base (wire ++ wireLabels [label])) := by
  have hone : (store (overlay array base wire) (base + wire.length) [label.length.toUInt8] :
      Call Bytes) = .ok (overlay array base (wire ++ [label.length.toUInt8])) :=
    store_append (by simp; omega)
  have htwo : (store (overlay array base (wire ++ [label.length.toUInt8]))
      (base + (wire.length + 1)) label : Call Bytes) =
      .ok (overlay array base (wire ++ [label.length.toUInt8] ++ label)) := by
    have h : (store (overlay array base (wire ++ [label.length.toUInt8]))
        (base + (wire ++ [label.length.toUInt8]).length) label : Call Bytes) =
        .ok (overlay array base (wire ++ [label.length.toUInt8] ++ label)) :=
      store_append (by simp; omega)
    simpa using h
  have hwire : wire ++ [label.length.toUInt8] ++ label = wire ++ wireLabels [label] := by
    simp [wireLabels]
  have hlen : (wire ++ wireLabels [label]).length = wire.length + 1 + label.length := by
    rw [← hwire, List.length_append, List.length_append, List.length_singleton]
  rw [writeNameLoop]
  simp only [hlabel]
  rewrite [if_neg (by omega), hone, Outcome.ok_bind, htwo, Outcome.ok_bind, hwire, hlen]
  cases (c :: cs).dropWhile (· ≠ dot) <;> rfl

theorem writeNameLoop_sat {array : Bytes} {base outSize : Nat} (hfit : base + outSize ≤ array.length) :
    ∀ (fuel : Nat) (text wire : Bytes), text.length ≤ fuel → wire.length ≤ outSize →
      Sat (writeNameLoop base outSize fuel text wire.length (overlay array base wire)) (fun r =>
        ∃ labels, TextLabels text labels ∧ (∀ l ∈ labels, 1 ≤ l.length ∧ l.length ≤ 63) ∧
          r.2 = overlay array base (wire ++ wireLabels labels) ∧
          r.1 = (wire ++ wireLabels labels).length ∧ r.1 ≤ outSize) := by
  intro fuel
  induction fuel with
  | zero =>
    intro text wire hfuel hwire
    have hnil : text = [] := List.length_eq_zero_iff.mp (by omega)
    subst hnil
    exact ⟨[], .nil, by simp, by simp [wireLabels], by simp [wireLabels], hwire⟩
  | succ fuel ih =>
    intro text wire hfuel hwire
    cases text with
    | nil => exact ⟨[], .nil, by simp, by simp [wireLabels], by simp [wireLabels], hwire⟩
    | cons c cs =>
      generalize htake : (c :: cs).takeWhile (· ≠ dot) = label
      have hdot : dot ∉ label := htake ▸ dot_not_mem_takeWhile _
      have hsplit : label ++ (c :: cs).dropWhile (· ≠ dot) = c :: cs := by
        rw [← htake]; exact List.takeWhile_append_dropWhile
      by_cases hbad : label.length = 0 ∨ label.length > 63 ∨ wire.length + 1 + label.length + 1 > outSize
      · rw [writeNameLoop]
        simp only [htake]
        rw [if_pos hbad]
        trivial
      rw [writeNameLoop_label hfit htake (by omega) (by omega) (by omega)]
      have hlen : (wire ++ wireLabels [label]).length = wire.length + 1 + label.length := by
        simp [wireLabels]; omega
      cases hrest : (c :: cs).dropWhile (· ≠ dot) with
      | nil =>
        rw [hrest, List.append_nil] at hsplit
        refine ⟨[label], hsplit ▸ .last hdot, ?_, rfl, rfl, ?_⟩
        · intro l hl
          rw [List.mem_singleton.mp hl]
          omega
        · dsimp only; omega
      | cons d rest =>
        have hd : d = dot := by
          have := List.head?_dropWhile_not (fun x => decide (x ≠ dot)) (c :: cs)
          rw [hrest] at this
          simpa using this
        subst hd
        rw [hrest] at hsplit
        have hshort : rest.length ≤ fuel := by
          have h := congrArg List.length hsplit
          simp only [List.length_append, List.length_cons] at h hfuel
          omega
        apply Sat.mono (ih rest _ hshort (by omega))
        intro r hr
        obtain ⟨total, out⟩ := r
        obtain ⟨labels, htext, hlabels, hout, htotal, hle⟩ := hr
        have hcons : wire ++ wireLabels [label] ++ wireLabels labels =
            wire ++ wireLabels (label :: labels) := by simp [wireLabels]
        rw [hcons] at hout htotal
        refine ⟨label :: labels, hsplit ▸ .cons hdot htext, ?_, hout, htotal, hle⟩
        intro l hl
        rcases List.mem_cons.mp hl with rfl | hl
        · omega
        · exact hlabels l hl

/-- The labels `write_name` puts on the wire for a text. -/
structure Encodes (text : Bytes) (labels : List Bytes) : Prop where
  text : TextLabels text labels ∨ text = [dot] ∧ labels = []
  sizes : ∀ l ∈ labels, 1 ≤ l.length ∧ l.length ≤ 63
  short : (wireLabels labels).length ≤ DR_DNS_MAX_DOMAIN_LEN

theorem Encodes.ne_nil {text : Bytes} {labels : List Bytes} (h : Encodes text labels) :
    ∀ l ∈ labels, l ≠ [] :=
  fun l hl => List.ne_nil_of_length_pos (h.sizes l hl).1

/-- `write_name` stays inside its window and leaves the labels of the text there. -/
theorem writeName_sat {name : CString} {array : Bytes} {base outSize : Nat}
    (hfit : base + outSize ≤ array.length) :
    Sat (writeName name array base outSize) (fun r =>
      ∃ labels, Encodes name.octets labels ∧
        r.1 = overlay array base (wireLabels labels ++ [0]) ∧
        r.2 = (wireLabels labels).length + 1 ∧ r.2 ≤ outSize) := by
  unfold writeName
  refine Sat.guard (fun hsize => Sat.ite (fun hroot => ?_) (fun hroot => ?_))
  · rw [store_of_le (by simp; omega), Outcome.ok_bind]
    exact ⟨[], ⟨Or.inr ⟨hroot, rfl⟩, by simp, by simp [wireLabels]⟩, rfl, rfl, by dsimp only; omega⟩
  · have hloop := writeNameLoop_sat hfit name.octets.length name.octets [] (le_refl _) (by simp)
    rw [overlay_nil, List.length_nil] at hloop
    apply hloop.bind
    intro r hr
    obtain ⟨total, out⟩ := r
    obtain ⟨labels, htext, hlabels, hout, htotal, hle⟩ := hr
    rw [List.nil_append] at hout htotal
    dsimp only at hout htotal hle
    apply Sat.guard
    intro hbad
    subst hout htotal
    rw [store_append (by simp; omega), Outcome.ok_bind]
    exact ⟨labels, ⟨Or.inl htext, hlabels, by omega⟩, rfl, rfl, by dsimp only; omega⟩

end DnsRelay.Wire
