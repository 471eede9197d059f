import DnsRelay.Wire.Ttl

/-!
# Patched messages

What `dr_dns_apply_ttl_patches` does to a message whose patches come from a walk over
it: the TTL fields of the listed records change, every other octet stays, and the
walk over the patched message visits the same records with the new TTLs.
-/
namespace DnsRelay.Wire

open DnsRelay.Foundation
open Outcome (Sat)

/-- The same record with the TTL another packet has at that place. -/
def Record.reread (packet : Bytes) (r : Record) : Record :=
  { r with ttl := u32At packet r.ttlOffset }

theorem u16At_congr {packet packet' : Bytes} {i : Nat} (h0 : octet packet' i = octet packet i)
    (h1 : octet packet' (i + 1) = octet packet (i + 1)) : u16At packet' i = u16At packet i := by
  rw [u16At, u16At, h0, h1]

theorem Questions.congr {packet packet' : Bytes} {n offset stop : Nat}
    (h : Questions packet n offset stop) (hlen : packet'.length = packet.length)
    (hsame : ∀ i, offset ≤ i → i < stop → octet packet' i = octet packet i) :
    Questions packet' n offset stop := by
  induction h with
  | nil => exact .nil
  | cons hname hfixed rest ih =>
    have hle := rest.offset_le
    refine .cons (hname.congr hlen (fun i hlo hhi => hsame i hlo (by omega))) (by omega)
      (ih (fun i hlo hhi => hsame i (by omega) hhi))

/-- Octets outside the TTL fields steer the walk; the TTL fields are only read off. -/
theorem Records.congr {packet packet' : Bytes} {offset stop : Nat} {records : List Record}
    (h : Records packet offset records stop) (hlen : packet'.length = packet.length)
    (hsame : ∀ i, offset ≤ i → (∀ r ∈ records, i < r.ttlOffset ∨ r.ttlOffset + 4 ≤ i) →
      octet packet' i = octet packet i) :
    Records packet' offset (records.map (Record.reread packet')) stop := by
  induction h with
  | nil => exact .nil
  | @cons offset consumed stop records hname hfixed hdata rest ih =>
    have hwindow := rest.window
    -- an octet of this record that is not in its TTL field is in no later one either
    have hown : ∀ i, offset ≤ i → i < offset + consumed + 10 →
        (i < offset + consumed + 4 ∨ offset + consumed + 4 + 4 ≤ i) →
        octet packet' i = octet packet i := by
      intro i hlo hhi hout
      apply hsame i hlo
      intro r hr
      rcases List.mem_cons.mp hr with rfl | hr
      · exact hout
      · have hw := (hwindow r hr).1
        exact Or.inl (by omega)
    have htype : u16At packet' (offset + consumed) = u16At packet (offset + consumed) :=
      u16At_congr (hown _ (by omega) (by omega) (by omega)) (hown _ (by omega) (by omega) (by omega))
    have hrdlength : u16At packet' (offset + consumed + 8) = u16At packet (offset + consumed + 8) :=
      u16At_congr (hown _ (by omega) (by omega) (by omega)) (hown _ (by omega) (by omega) (by omega))
    have hrest := ih (fun i hlo hout => hsame i (by omega) (fun r hr => by
      rcases List.mem_cons.mp hr with rfl | hr
      · exact Or.inr (by dsimp only; omega)
      · exact hout r hr))
    have hnext : Records packet' offset
        ({ ttlOffset := offset + consumed + 4, rrType := u16At packet' (offset + consumed),
           ttl := u32At packet' (offset + consumed + 4) } ::
          records.map (Record.reread packet')) stop := .cons
      (hname.congr hlen (fun i hlo hhi => hown i hlo (by omega) (by omega))) (by omega)
      (by rw [hrdlength, hlen]; exact hdata) (by rw [hrdlength]; exact hrest)
    rw [htype] at hnext
    exact hnext

/-- A message of the same length that differs only in the transaction ID and in TTL fields can be
walked in the same way. -/
theorem Walk.congr {packet packet' : Bytes} {records : List Record} (h : Walk packet records)
    (hlen : packet'.length = packet.length)
    (hsame : ∀ i, 2 ≤ i → (∀ r ∈ records, i < r.ttlOffset ∨ r.ttlOffset + 4 ≤ i) →
      octet packet' i = octet packet i) :
    Walk packet' (records.map (Record.reread packet')) := by
  obtain ⟨hheader, hcount, middle, stop, hquestions, hrecords⟩ := h
  have hmiddle := hquestions.offset_le
  simp only [DR_DNS_HEADER_SIZE] at hheader hmiddle hquestions
  have hfront : ∀ i, 2 ≤ i → i < middle → octet packet' i = octet packet i := by
    intro i hlo hhi
    refine hsame i hlo (fun r hr => Or.inl ?_)
    have hw := (hrecords.window r hr).1
    omega
  have hfield : ∀ i, 2 ≤ i → i + 1 < 12 → u16At packet' i = u16At packet i := fun i hlo hhi =>
    u16At_congr (hfront _ (by omega) (by omega)) (hfront _ (by omega) (by omega))
  refine ⟨by simp only [DR_DNS_HEADER_SIZE]; omega, ?_, middle, stop, ?_, ?_⟩
  · rw [List.length_map, hcount, hfield 6 (by omega) (by omega), hfield 8 (by omega) (by omega),
      hfield 10 (by omega) (by omega)]
  · rw [hfield 4 (by omega) (by omega)]
    exact hquestions.congr hlen (fun i hlo hhi => hfront i (by omega) hhi)
  · exact hrecords.congr hlen (fun i hlo hout => hsame i (by omega) hout)

/-- The TTL left after `elapsedSec` seconds. -/
def remaining (elapsedSec originalTtl : UInt32) : UInt32 :=
  if elapsedSec ≥ originalTtl then 0 else originalTtl - elapsedSec

/-- One pass of the patch loop; a field that does not fit is left alone. -/
def applyPatch (elapsedSec : UInt32) (packet : Bytes) (patch : DrTtlPatch) : Bytes :=
  if patch.ttlOffset + 4 > packet.length then packet
  else overlay packet patch.ttlOffset (bytes32 (remaining elapsedSec patch.originalTtl))

@[simp] theorem length_applyPatch (elapsedSec : UInt32) (packet : Bytes) (patch : DrTtlPatch) :
    (applyPatch elapsedSec packet patch).length = packet.length := by
  unfold applyPatch
  split
  · rfl
  · exact length_overlay (by simp only [length_bytes32]; omega)

theorem octet_applyPatch_outside {elapsedSec : UInt32} {packet : Bytes} {patch : DrTtlPatch} {i : Nat}
    (hi : i < patch.ttlOffset ∨ patch.ttlOffset + 4 ≤ i) :
    octet (applyPatch elapsedSec packet patch) i = octet packet i := by
  unfold applyPatch
  split
  · rfl
  · exact octet_overlay_outside (by simp only [length_bytes32]; omega) hi

theorem applyTtlPatchesLoop_eq (patches : DrTtlPatchList) (elapsedSec : UInt32) :
    ∀ (n index : Nat) (packet : Bytes), index + n = patches.count →
      applyTtlPatchesLoop patches elapsedSec n index packet =
        .ok ((patches.items.drop index).foldl (applyPatch elapsedSec) packet) := by
  intro n
  induction n with
  | zero =>
    intro index packet hindex
    rw [List.drop_of_length_le (by simp only [DrTtlPatchList.count] at hindex; omega)]
    rfl
  | succ n ih =>
    intro index packet hindex
    have hcount := patches.count_le
    simp only [DrTtlPatchList.count] at hindex
    have hlt : index < patches.items.length := by omega
    rw [List.drop_eq_getElem_cons hlt, List.foldl_cons, applyTtlPatchesLoop]
    simp only [DrTtlPatchList.item, if_pos (show index < DR_DNS_MAX_TTL_PATCHES by omega),
      Outcome.ok_bind, List.getD_eq_getElem?_getD, List.getElem?_eq_getElem hlt, Option.getD_some]
    have hstep := ih (index + 1) (applyPatch elapsedSec packet patches.items[index])
      (by simp only [DrTtlPatchList.count]; omega)
    rw [← hstep]
    unfold applyPatch
    by_cases hfit : patches.items[index].ttlOffset + 4 > packet.length
    · rw [if_pos hfit, if_pos hfit]
    · rw [if_neg hfit, if_neg hfit, writeU32_of_le (by omega), Outcome.ok_bind]
      rfl

/-- The patch loop is never stuck: it applies the patches from first to last. -/
theorem drDnsApplyTtlPatches_eq (packet : Bytes) (patches : DrTtlPatchList) (elapsedSec : UInt32) :
    drDnsApplyTtlPatches packet patches elapsedSec =
      .ok (patches.items.foldl (applyPatch elapsedSec) packet) :=
  applyTtlPatchesLoop_eq patches elapsedSec patches.count 0 packet (Nat.zero_add _)

theorem length_applyPatches (elapsedSec : UInt32) (patches : List DrTtlPatch) (packet : Bytes) :
    (patches.foldl (applyPatch elapsedSec) packet).length = packet.length := by
  induction patches generalizing packet with
  | nil => rfl
  | cons p patches ih => rw [List.foldl_cons, ih, length_applyPatch]

theorem octet_applyPatches_outside {elapsedSec : UInt32} {patches : List DrTtlPatch} {packet : Bytes}
    {i : Nat} (hi : ∀ p ∈ patches, i < p.ttlOffset ∨ p.ttlOffset + 4 ≤ i) :
    octet (patches.foldl (applyPatch elapsedSec) packet) i = octet packet i := by
  induction patches generalizing packet with
  | nil => rfl
  | cons p patches ih =>
    rw [List.foldl_cons, ih (fun q hq => hi q (List.mem_cons_of_mem _ hq)),
      octet_applyPatch_outside (hi p List.mem_cons_self)]

/-- Fields that do not overlap keep the value written to them. -/
theorem u32At_applyPatches {elapsedSec : UInt32} {patches : List DrTtlPatch} {packet : Bytes}
    (hfit : ∀ p ∈ patches, p.ttlOffset + 4 ≤ packet.length)
    (hapart : patches.Pairwise (fun p q => p.ttlOffset + 4 ≤ q.ttlOffset)) :
    ∀ p ∈ patches, u32At (patches.foldl (applyPatch elapsedSec) packet) p.ttlOffset =
      remaining elapsedSec p.originalTtl := by
  induction patches generalizing packet with
  | nil => simp
  | cons q patches ih =>
    obtain ⟨hbehind, hrest⟩ := List.pairwise_cons.mp hapart
    intro p hp
    rw [List.foldl_cons]
    rcases List.mem_cons.mp hp with rfl | hp
    · have hout : ∀ i, i < p.ttlOffset + 4 → octet (patches.foldl (applyPatch elapsedSec)
          (applyPatch elapsedSec packet p)) i = octet (applyPatch elapsedSec packet p) i :=
        fun i hi => octet_applyPatches_outside (fun r hr => Or.inl (by have := hbehind r hr; omega))
      have hp := hfit p List.mem_cons_self
      rw [u32At, hout _ (by omega), hout _ (by omega), hout _ (by omega), hout _ (by omega), ← u32At,
        applyPatch, if_neg (by omega)]
      exact u32At_overlay hp
    · exact ih (fun r hr => by rw [length_applyPatch]; exact hfit r (List.mem_cons_of_mem _ hr))
        hrest p hp

end DnsRelay.Wire
