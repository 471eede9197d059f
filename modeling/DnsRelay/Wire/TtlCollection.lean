import DnsRelay.Wire.AgedMessage

/-!
# Exactness of the TTL collection

`dr_dns_collect_ttls` accepts exactly the messages whose sections can be walked with at
most sixty-four records other than OPT. A record takes at least eleven octets behind
the header, so a datagram the relay can receive never fills the list.
-/
namespace DnsRelay.Wire

open DnsRelay.Foundation
open Outcome (Sat)

theorem Questions.stop_le {packet : Bytes} {n offset stop : Nat}
    (h : Questions packet n offset stop) (hoffset : offset ≤ packet.length) :
    stop ≤ packet.length := by
  induction h with
  | nil => exact hoffset
  | cons hname hfixed rest ih => exact ih (by omega)

theorem Records.stop_le {packet : Bytes} {offset stop : Nat} {records : List Record}
    (h : Records packet offset records stop) (hoffset : offset ≤ packet.length) :
    stop ≤ packet.length := by
  induction h with
  | nil => exact hoffset
  | cons hname hfixed hdata rest ih => exact ih hdata

/-- One octet of name and ten of fixed fields for each record. -/
theorem Records.packed {packet : Bytes} {offset stop : Nat} {records : List Record}
    (h : Records packet offset records stop) : offset + 11 * records.length ≤ stop := by
  induction h with
  | nil => simp
  | cons hname hfixed hdata rest ih =>
    have hb := hname.bounds
    rw [List.length_cons]
    omega

theorem length_patchesOf_le (records : List Record) :
    (patchesOf records).length ≤ records.length := by
  rw [patchesOf, List.length_map]
  exact List.length_filter_le _ _

/-- In a datagram of at most 512 octets the list of patches cannot overflow. -/
theorem Walk.room {packet : Bytes} {records : List Record} (h : Walk packet records)
    (hlen : packet.length ≤ DR_DNS_MAX_PACKET_SIZE) :
    (patchesOf records).length ≤ DR_DNS_MAX_TTL_PATCHES := by
  obtain ⟨hheader, _, middle, stop, hquestions, hrecords⟩ := h
  have hmiddle := hquestions.offset_le
  have hstop := hrecords.stop_le (hquestions.stop_le hheader)
  have hpacked := hrecords.packed
  have hcount := length_patchesOf_le records
  simp only [DR_DNS_HEADER_SIZE, DR_DNS_MAX_PACKET_SIZE, DR_DNS_MAX_TTL_PATCHES] at *
  omega

/-- `m` is the smallest TTL of the list; an empty list and one whose TTLs are all the sentinel
report 0. -/
def ReportsMin (patches : List DrTtlPatch) (m : UInt32) : Prop :=
  patches = [] ∧ m = 0 ∨
    ∃ p ∈ patches, (∀ q ∈ patches, p.originalTtl ≤ q.originalTtl) ∧
      m = if p.originalTtl = 0xffffffff then 0 else p.originalTtl

theorem reportsMin_reportedMin (patches : List DrTtlPatch) :
    ReportsMin patches (reportedMin patches) := by
  cases patches with
  | nil => exact Or.inl ⟨rfl, rfl⟩
  | cons p patches =>
    obtain ⟨_, hall, hmem⟩ := minTtl_spec (p :: patches) 0xffffffff
    right
    rcases hmem with hmem | ⟨q, hq, hmem⟩
    · -- the loop never found a TTL below its sentinel
      have hp : p.originalTtl = 0xffffffff := by
        have h := hall p (by simp)
        rw [hmem] at h
        have hmax : p.originalTtl.toNat < 4294967296 := p.originalTtl.toNat_lt
        have hle : p.originalTtl ≤ 0xffffffff :=
          UInt32.le_iff_toNat_le.mpr (show p.originalTtl.toNat ≤ 4294967295 by omega)
        exact UInt32.le_antisymm hle h
      refine ⟨p, by simp, ?_, ?_⟩
      · intro q hq
        rw [hp, ← hmem]
        exact hall q hq
      · rw [reportedMin, if_pos hmem, if_pos hp]
    · refine ⟨q, hq, ?_, ?_⟩
      · intro r hr
        rw [hmem]
        exact hall r hr
      · rw [reportedMin, hmem]

/-- Consecutive TTL fields are at least eleven octets apart. -/
theorem Records.patches_pairwise {packet : Bytes} {offset stop : Nat} {records : List Record}
    (h : Records packet offset records stop) :
    (patchesOf records).Pairwise (fun p q => p.ttlOffset + 11 ≤ q.ttlOffset) := by
  rw [patchesOf, List.pairwise_map]
  exact h.pairwise.filter _

theorem Records.patches_inside {packet : Bytes} {offset stop : Nat} {records : List Record}
    (h : Records packet offset records stop) : ∀ p ∈ patchesOf records,
      p.ttlOffset + 4 ≤ packet.length ∧ p.originalTtl = u32At packet p.ttlOffset := by
  intro p hp
  obtain ⟨r, hr, rfl⟩ := List.mem_map.mp hp
  obtain ⟨_, _, hend, httl⟩ := h.window r (List.mem_of_mem_filter hr)
  exact ⟨by dsimp only; omega, httl⟩

/-- `dr_dns_collect_ttls` succeeds exactly on the messages whose questions and records can be
walked from offset 12 with at most 64 records that are not OPT. What it returns lists those
records in wire order, and the smallest of their TTLs. At up to 512 octets the list cannot fill. -/
theorem collected_ttls_iff (packet : Bytes) :
    drDnsCollectTtls packet ≠ .stuck ∧
      ((∃ r, drDnsCollectTtls packet = .ok r) ↔
        ∃ records, Walk packet records ∧ (records.filter (fun r => r.rrType ≠ 41)).length ≤ 64) ∧
      (∀ patches reported, drDnsCollectTtls packet = .ok (patches, reported) →
        ∃ records, Walk packet records ∧
          patches.items =
            (records.filter (fun r => r.rrType ≠ 41)).map (fun r => ⟨r.ttlOffset, r.ttl⟩) ∧
          patches.items.Pairwise (fun p q => p.ttlOffset + 11 ≤ q.ttlOffset) ∧
          (∀ p ∈ patches.items,
            p.ttlOffset + 4 ≤ packet.length ∧ p.originalTtl = u32At packet p.ttlOffset) ∧
          ReportsMin patches.items reported) ∧
      (packet.length ≤ DR_DNS_MAX_PACKET_SIZE →
        ((∃ r, drDnsCollectTtls packet = .ok r) ↔ ∃ records, Walk packet records)) := by
  have hsat := drDnsCollectTtls_sat packet
  have hcount (records : List Record) : (patchesOf records).length =
      (records.filter (fun r => r.rrType ≠ 41)).length := List.length_map _
  refine ⟨hsat.not_stuck, ⟨?_, ?_⟩, ?_, ?_⟩
  · intro h
    obtain ⟨⟨patches, reported⟩, hr⟩ := h
    obtain ⟨records, hwalk, hitems, _⟩ := hsat.of_eq_ok hr
    dsimp only at hitems
    refine ⟨records, hwalk, ?_⟩
    rw [← hcount, ← hitems]
    exact patches.count_le
  · intro h
    obtain ⟨records, hwalk, hroom⟩ := h
    rw [← hcount] at hroom
    exact ⟨_, drDnsCollectTtls_of_walk hwalk hroom⟩
  · intro patches reported hr
    obtain ⟨records, hwalk, hitems, hmin⟩ := hsat.of_eq_ok hr
    dsimp only at hitems hmin
    obtain ⟨_, _, middle, stop, _, hrecords⟩ := id hwalk
    refine ⟨records, hwalk, hitems, ?_, ?_, ?_⟩
    · rw [hitems]
      exact hrecords.patches_pairwise
    · rw [hitems]
      exact hrecords.patches_inside
    · rw [hitems, hmin]
      exact reportsMin_reportedMin _
  · intro hlen
    constructor
    · intro h
      obtain ⟨r, hr⟩ := h
      obtain ⟨records, hwalk, _⟩ := hsat.of_eq_ok hr
      exact ⟨records, hwalk⟩
    · intro h
      obtain ⟨records, hwalk⟩ := h
      exact ⟨_, drDnsCollectTtls_of_walk hwalk (hwalk.room hlen)⟩

end DnsRelay.Wire
