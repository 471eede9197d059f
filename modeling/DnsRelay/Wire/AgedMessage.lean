import DnsRelay.Wire.TtlPatches

/-!
# Aged messages

A message whose TTLs were collected, with a new transaction ID and every TTL reduced by
the same number of seconds. As long as less time passed than the smallest TTL, nothing
saturates, and collecting the TTLs again finds the same fields with what is left.
-/
namespace DnsRelay.Wire

open DnsRelay.Foundation

theorem minTtl_spec (patches : List DrTtlPatch) : ∀ currentMin,
    minTtl currentMin patches ≤ currentMin ∧
    (∀ p ∈ patches, minTtl currentMin patches ≤ p.originalTtl) ∧
    (minTtl currentMin patches = currentMin ∨ ∃ p ∈ patches, p.originalTtl = minTtl currentMin patches) := by
  induction patches with
  | nil => exact fun currentMin => ⟨UInt32.le_refl _, by simp, Or.inl rfl⟩
  | cons p patches ih =>
    intro currentMin
    have hcons : minTtl currentMin (p :: patches) =
        minTtl (if p.originalTtl < currentMin then p.originalTtl else currentMin) patches := rfl
    obtain ⟨hle, hall, hmem⟩ :=
      ih (if p.originalTtl < currentMin then p.originalTtl else currentMin)
    rw [← hcons] at hle hall hmem
    by_cases hlt : p.originalTtl < currentMin
    · rw [if_pos hlt] at hle hmem
      refine ⟨UInt32.le_trans hle (UInt32.le_of_lt hlt), ?_, Or.inr ?_⟩
      · exact List.forall_mem_cons.mpr ⟨hle, hall⟩
      · rcases hmem with hmem | ⟨q, hq, hmem⟩
        · exact ⟨p, List.mem_cons_self, hmem.symm⟩
        · exact ⟨q, List.mem_cons_of_mem _ hq, hmem⟩
    · rw [if_neg hlt] at hle hmem
      refine ⟨hle, ?_, ?_⟩
      · exact List.forall_mem_cons.mpr ⟨UInt32.le_trans hle (UInt32.not_lt.mp hlt), hall⟩
      · rcases hmem with hmem | ⟨q, hq, hmem⟩
        · exact Or.inl hmem
        · exact Or.inr ⟨q, List.mem_cons_of_mem _ hq, hmem⟩

/-- A reported minimum other than 0 is the TTL of a patch and below the sentinel. -/
theorem reportedMin_spec {patches : List DrTtlPatch} (h : reportedMin patches ≠ 0) :
    reportedMin patches < 0xffffffff ∧ (∀ p ∈ patches, reportedMin patches ≤ p.originalTtl) ∧
      ∃ p ∈ patches, p.originalTtl = reportedMin patches := by
  unfold reportedMin at h ⊢
  obtain ⟨hle, hall, hmem⟩ := minTtl_spec patches 0xffffffff
  by_cases hsentinel : minTtl 0xffffffff patches = 0xffffffff
  · rw [if_pos hsentinel] at h
    exact absurd rfl h
  · rw [if_neg hsentinel]
    exact ⟨UInt32.lt_of_le_of_ne hle hsentinel, hall, hmem.resolve_left hsentinel⟩

/-- What makes a number the reported minimum. -/
theorem reportedMin_eq {patches : List DrTtlPatch} {m : UInt32} (hlt : m < 0xffffffff)
    (hall : ∀ p ∈ patches, m ≤ p.originalTtl) (hmem : ∃ p ∈ patches, p.originalTtl = m) :
    reportedMin patches = m := by
  obtain ⟨q, hq, hm⟩ := hmem
  obtain ⟨_, hbelow, hattained⟩ := minTtl_spec patches 0xffffffff
  have hle : minTtl 0xffffffff patches ≤ m := hm ▸ hbelow q hq
  have heq : minTtl 0xffffffff patches = m := by
    apply UInt32.le_antisymm hle
    rcases hattained with hattained | ⟨p, hp, hattained⟩
    · rw [hattained]
      exact UInt32.le_of_lt hlt
    · rw [← hattained]
      exact hall p hp
  rw [reportedMin, heq, if_neg (UInt32.ne_of_lt hlt)]

/-- A message made from `packet` by a new transaction ID and TTLs reduced by `elapsed` seconds. -/
structure Aged (packet : Bytes) (patches : DrTtlPatchList) (minTtl : UInt32) (elapsed : Nat)
    (id : UInt16) (out : Bytes) : Prop where
  length : out.length = packet.length
  id : u16At out 0 = id
  fields : ∀ p ∈ patches.items,
    (u32At out p.ttlOffset).toNat = p.originalTtl.toNat - elapsed ∧ 1 ≤ p.originalTtl.toNat - elapsed
  others : ∀ i, 2 ≤ i → (∀ p ∈ patches.items, i < p.ttlOffset ∨ p.ttlOffset + 4 ≤ i) →
    octet out i = octet packet i
  collected : ∃ patches' minTtl', drDnsCollectTtls out = .ok (patches', minTtl') ∧
    patches'.items.map DrTtlPatch.ttlOffset = patches.items.map DrTtlPatch.ttlOffset ∧
    minTtl'.toNat = minTtl.toNat - elapsed

/-- A patch after some seconds. -/
def DrTtlPatch.aged (elapsed : UInt32) (p : DrTtlPatch) : DrTtlPatch :=
  { p with originalTtl := remaining elapsed p.originalTtl }

theorem toNat_remaining {elapsed ttl : UInt32} (h : elapsed < ttl) :
    (remaining elapsed ttl).toNat = ttl.toNat - elapsed.toNat := by
  have hlt := UInt32.lt_iff_toNat_lt.mp h
  rw [remaining, if_neg (UInt32.not_le.mpr h), UInt32.toNat_sub_of_le _ _ (UInt32.le_of_lt h)]

/-- The patches of a walk lie behind the header, inside the packet and apart from each other. -/
theorem Walk.patches {packet : Bytes} {records : List Record} (h : Walk packet records) :
    (∀ p ∈ patchesOf records, DR_DNS_HEADER_SIZE ≤ p.ttlOffset ∧ p.ttlOffset + 4 ≤ packet.length ∧
      p.originalTtl = u32At packet p.ttlOffset) ∧
    (patchesOf records).Pairwise (fun p q => p.ttlOffset + 4 ≤ q.ttlOffset) := by
  obtain ⟨_, _, middle, stop, hquestions, hrecords⟩ := h
  have hmiddle := hquestions.offset_le
  constructor
  · intro p hp
    obtain ⟨r, hr, rfl⟩ := List.mem_map.mp hp
    obtain ⟨hlow, _, hhigh, httl⟩ := hrecords.window r (List.mem_filter.mp hr).1
    exact ⟨by dsimp only; omega, by dsimp only; omega, httl⟩
  · apply List.pairwise_map.mpr
    exact (hrecords.pairwise.sublist List.filter_sublist).imp (fun hab => by dsimp only; omega)

theorem patchesOf_reread (packet : Bytes) (records : List Record) :
    patchesOf (records.map (Record.reread packet)) =
      (patchesOf records).map (fun p => ⟨p.ttlOffset, u32At packet p.ttlOffset⟩) := by
  rw [patchesOf, patchesOf, List.filter_map, List.map_map, List.map_map]
  rfl

/-- The smallest TTL ages with the others. -/
theorem reportedMin_aged {patches : List DrTtlPatch} {elapsed : UInt32}
    (h : elapsed < reportedMin patches) :
    reportedMin (patches.map (DrTtlPatch.aged elapsed)) = remaining elapsed (reportedMin patches) := by
  have hlt := UInt32.lt_iff_toNat_lt.mp h
  have hne : reportedMin patches ≠ 0 := by
    intro h0
    rw [h0] at hlt
    exact Nat.not_lt_zero _ hlt
  obtain ⟨hsentinel, hall, q, hq, hmin⟩ := reportedMin_spec hne
  apply reportedMin_eq
  · have hle := UInt32.lt_iff_toNat_lt.mp hsentinel
    rw [UInt32.lt_iff_toNat_lt, toNat_remaining h]
    omega
  · intro p hp
    obtain ⟨r, hr, rfl⟩ := List.mem_map.mp hp
    have hle := UInt32.le_iff_toNat_le.mp (hall r hr)
    rw [DrTtlPatch.aged, UInt32.le_iff_toNat_le, toNat_remaining h,
      toNat_remaining (UInt32.lt_of_lt_of_le h (hall r hr))]
    omega
  · exact ⟨q.aged elapsed, List.mem_map_of_mem hq, by rw [DrTtlPatch.aged, hmin]⟩

/-- A minimum other than 0 is a lower bound of the collected TTLs. -/
theorem minTtl_le_of_collect {packet : Bytes} {patches : DrTtlPatchList} {minTtl : UInt32}
    (hcollect : drDnsCollectTtls packet = .ok (patches, minTtl)) (hne : minTtl ≠ 0) :
    ∀ p ∈ patches.items, minTtl ≤ p.originalTtl := by
  obtain ⟨records, _, hitems, hmin⟩ := (drDnsCollectTtls_sat packet).of_eq_ok hcollect
  dsimp only at hitems hmin
  rw [hitems, hmin]
  rw [hmin] at hne
  exact (reportedMin_spec hne).2.1

/-- No TTL lies in the header: of its octets the two passes change the ID only. -/
theorem patched_header {packet : Bytes} {patches : DrTtlPatchList} {minTtl : UInt32}
    (hcollect : drDnsCollectTtls packet = .ok (patches, minTtl)) (elapsed : UInt32) (id : UInt16) :
    u16At (patches.items.foldl (applyPatch elapsed) (drDnsWriteId packet id)) 0 = id ∧
      ∀ i, 2 ≤ i → i < DR_DNS_HEADER_SIZE →
        octet (patches.items.foldl (applyPatch elapsed) (drDnsWriteId packet id)) i =
          octet packet i := by
  obtain ⟨records, hwalk, hitems, _⟩ := (drDnsCollectTtls_sat packet).of_eq_ok hcollect
  dsimp only at hitems
  have hplace := hwalk.patches.1
  have hheader := hwalk.header
  rw [← hitems] at hplace
  simp only [DR_DNS_HEADER_SIZE] at hplace hheader ⊢
  have hfront : ∀ i, i < 12 →
      octet (patches.items.foldl (applyPatch elapsed) (drDnsWriteId packet id)) i =
        octet (drDnsWriteId packet id) i := by
    intro i hi
    apply octet_applyPatches_outside
    intro p hp
    have hlow := (hplace p hp).1
    omega
  constructor
  · have hid := drDnsReadId_writeId id (show 2 ≤ packet.length by omega)
    rw [drDnsReadId, length_drDnsWriteId, if_pos (by omega)] at hid
    rw [u16At_congr (hfront 0 (by omega)) (hfront 1 (by omega)), hid]
  · intro i hlow hi
    rw [hfront i hi, octet_drDnsWriteId hlow]

/-- A message with a new transaction ID and other TTLs, none of them larger. -/
structure Rewritten (packet : Bytes) (patches : DrTtlPatchList) (id : UInt16) (out : Bytes) : Prop where
  length : out.length = packet.length
  id : u16At out 0 = id
  fields : ∀ p ∈ patches.items, u32At out p.ttlOffset ≤ p.originalTtl
  others : ∀ i, 2 ≤ i → (∀ p ∈ patches.items, i < p.ttlOffset ∨ p.ttlOffset + 4 ≤ i) →
    octet out i = octet packet i

theorem remaining_le (elapsed ttl : UInt32) : remaining elapsed ttl ≤ ttl := by
  rw [remaining]
  split
  · exact UInt32.zero_le
  · next hlt => exact UInt32.sub_le (UInt32.le_of_lt (UInt32.not_le.mp hlt))

theorem patched_fields {packet : Bytes} {patches : DrTtlPatchList} {minTtl : UInt32}
    (hcollect : drDnsCollectTtls packet = .ok (patches, minTtl)) (elapsed : UInt32) (id : UInt16) :
    ∀ p ∈ patches.items,
      u32At (patches.items.foldl (applyPatch elapsed) (drDnsWriteId packet id)) p.ttlOffset =
        remaining elapsed p.originalTtl := by
  obtain ⟨records, hwalk, hitems, _⟩ := (drDnsCollectTtls_sat packet).of_eq_ok hcollect
  dsimp only at hitems
  obtain ⟨hplace, hapart⟩ := hwalk.patches
  rw [← hitems] at hplace hapart
  refine u32At_applyPatches (fun p hp => ?_) hapart
  rw [length_drDnsWriteId]
  exact (hplace p hp).2.1

/-- The two in-place passes rewrite the ID and the TTLs only, however much time has passed. -/
theorem rewritten_applyPatches {packet : Bytes} {patches : DrTtlPatchList} {minTtl : UInt32}
    (hcollect : drDnsCollectTtls packet = .ok (patches, minTtl)) (elapsed : UInt32) (id : UInt16) :
    Rewritten packet patches id
      (patches.items.foldl (applyPatch elapsed) (drDnsWriteId packet id)) where
  length := by rw [length_applyPatches, length_drDnsWriteId]
  id := (patched_header hcollect elapsed id).1
  fields p hp := by
    rw [patched_fields hcollect elapsed id p hp]
    exact remaining_le elapsed p.originalTtl
  others i hlow hi := by rw [octet_applyPatches_outside hi, octet_drDnsWriteId hlow]

/-- As long as no TTL runs out they make an aged copy. -/
theorem aged_applyPatches {packet : Bytes} {patches : DrTtlPatchList} {minTtl elapsed : UInt32}
    (hcollect : drDnsCollectTtls packet = .ok (patches, minTtl)) (helapsed : elapsed < minTtl)
    (id : UInt16) : Aged packet patches minTtl elapsed.toNat id
      (patches.items.foldl (applyPatch elapsed) (drDnsWriteId packet id)) := by
  have hbelow := minTtl_le_of_collect hcollect (by
    intro heq
    subst heq
    exact UInt32.not_lt_zero helapsed)
  obtain ⟨records, hwalk, hitems, hmin⟩ := (drDnsCollectTtls_sat packet).of_eq_ok hcollect
  dsimp only at hitems hmin
  have hfield := patched_fields hcollect elapsed id
  obtain ⟨hlen, hid, _, hothers⟩ := rewritten_applyPatches hcollect elapsed id
  generalize patches.items.foldl (applyPatch elapsed) (drDnsWriteId packet id) = out at *
  constructor
  · exact hlen
  · exact hid
  · intro p hp
    have hlt := UInt32.lt_of_lt_of_le helapsed (hbelow p hp)
    have hpos := UInt32.lt_iff_toNat_lt.mp hlt
    rw [hfield p hp, toNat_remaining hlt]
    omega
  · exact hothers
  · have hagain := hwalk.congr hlen (fun i hlow hi => hothers i hlow (fun p hp => by
      rw [hitems] at hp
      obtain ⟨r, hr, rfl⟩ := List.mem_map.mp hp
      exact hi r (List.mem_filter.mp hr).1))
    have hpatches : patchesOf (records.map (Record.reread out)) =
        patches.items.map (DrTtlPatch.aged elapsed) := by
      rw [patchesOf_reread, ← hitems]
      apply List.map_congr_left
      intro p hp
      rw [hfield p hp, DrTtlPatch.aged]
    have hroom : (patchesOf (records.map (Record.reread out))).length ≤ DR_DNS_MAX_TTL_PATCHES := by
      rw [hpatches, List.length_map]
      exact patches.count_le
    have hcount := drDnsCollectTtls_of_walk hagain hroom
    refine ⟨_, _, hcount, ?_, ?_⟩
    · dsimp only
      rw [hpatches, List.map_map]
      rfl
    · rw [hmin] at helapsed
      rw [hpatches, hitems, reportedMin_aged helapsed, hmin, toNat_remaining helapsed]

end DnsRelay.Wire
