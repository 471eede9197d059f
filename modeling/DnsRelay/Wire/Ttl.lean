import DnsRelay.Wire.NameGrammar

/-!
# TTL collection and patching

`dr_dns_collect_ttls` walks the questions and the resource records of a message and
lists where the TTL fields lie; `dr_dns_apply_ttl_patches` rewrites them in place.
`Questions` and `Records` describe the walk independently of the loops, and say
which octets steer it: everything in front of a TTL field and the data length
behind it, never the TTL field itself.
-/
namespace DnsRelay.Wire

open DnsRelay.Foundation
open Outcome (Sat)

structure DrTtlPatch where
  ttlOffset : Nat
  originalTtl : UInt32
  deriving DecidableEq

/-- The first `count` elements of `items[DR_DNS_MAX_TTL_PATCHES]`. -/
@[ext] structure DrTtlPatchList where
  items : List DrTtlPatch
  count_le : items.length ≤ DR_DNS_MAX_TTL_PATCHES
  deriving DecidableEq

namespace DrTtlPatchList

def count (patches : DrTtlPatchList) : Nat := patches.items.length

def empty : DrTtlPatchList := ⟨[], Nat.zero_le _⟩

/-- `items[count] = patch; count += 1`. -/
def push (patches : DrTtlPatchList) (patch : DrTtlPatch) : Call DrTtlPatchList :=
  if h : patches.count < DR_DNS_MAX_TTL_PATCHES then
    .ok ⟨patches.items ++ [patch], by rw [List.length_append]; exact h⟩
  else .stuck

/-- `items[index]`; the elements past `count` were zeroed. -/
def item (patches : DrTtlPatchList) (index : Nat) : Call DrTtlPatch :=
  if index < DR_DNS_MAX_TTL_PATCHES then .ok (patches.items.getD index ⟨0, 0⟩) else .stuck

end DrTtlPatchList

def skipQuestions (packet : Bytes) : Nat → Nat → Call Nat
  | 0, offset => .ok offset
  | n + 1, offset => do
    let consumed ← skipName packet offset
    if offset + consumed + 4 > packet.length then .fail ()
    else skipQuestions packet n (offset + (consumed + 4))

/-- The body of the record loop for one record: an EDNS OPT record (type 41) is passed over. -/
def collectPatch (rrType : UInt16) (ttlOffset : Nat) (ttl : UInt32) (patches : DrTtlPatchList)
    (currentMin : UInt32) : Call (DrTtlPatchList × UInt32) :=
  if rrType ≠ 41 then
    if patches.count < DR_DNS_MAX_TTL_PATCHES then do
      let patches ← patches.push { ttlOffset, originalTtl := ttl }
      pure (patches, if ttl < currentMin then ttl else currentMin)
    else .fail ()
  else pure (patches, currentMin)

/-- The loop over the resource records, `n` of them left. -/
def collectRecords (packet : Bytes) :
    Nat → Nat → DrTtlPatchList → UInt32 → Call (DrTtlPatchList × UInt32)
  | 0, _, patches, currentMin => .ok (patches, currentMin)
  | n + 1, offset, patches, currentMin => do
    let consumed ← skipName packet offset
    if offset + consumed + 10 > packet.length then .fail ()
    else do
      let rrType ← readU16 packet (offset + consumed)
      let ttlOffset := offset + consumed + 4
      let ttl ← readU32 packet ttlOffset
      let rdlength ← readU16 packet (ttlOffset + 4)
      let (patches, currentMin) ← collectPatch rrType ttlOffset ttl patches currentMin
      if offset + (consumed + 10 + rdlength.toNat) > packet.length then .fail ()
      else collectRecords packet n (offset + (consumed + 10 + rdlength.toNat)) patches currentMin

/-- Returns `*patches` and `*min_ttl`. -/
def drDnsCollectTtls (packet : Bytes) : Call (DrTtlPatchList × UInt32) := do
  let header ← drDnsParseHeader packet
  let offset ← skipQuestions packet header.qdcount.toNat DR_DNS_HEADER_SIZE
  let totalRrs := header.ancount.toNat + header.nscount.toNat + header.arcount.toNat
  let (patches, currentMin) ← collectRecords packet totalRrs offset .empty 0xffffffff
  pure (patches, if currentMin = 0xffffffff then 0 else currentMin)

/-- The loop of `dr_dns_apply_ttl_patches` from `index` on, with `n` patches left. -/
def applyTtlPatchesLoop (patches : DrTtlPatchList) (elapsedSec : UInt32) :
    Nat → Nat → Bytes → Call Bytes
  | 0, _, packet => .ok packet
  | n + 1, index, packet => do
    let patch ← patches.item index
    if patch.ttlOffset + 4 > packet.length then
      applyTtlPatchesLoop patches elapsedSec n (index + 1) packet
    else do
      let ttl := if elapsedSec ≥ patch.originalTtl then 0 else patch.originalTtl - elapsedSec
      let packet ← writeU32 packet patch.ttlOffset ttl
      applyTtlPatchesLoop patches elapsedSec n (index + 1) packet

def drDnsApplyTtlPatches (packet : Bytes) (patches : DrTtlPatchList) (elapsedSec : UInt32) :
    Call Bytes :=
  applyTtlPatchesLoop patches elapsedSec patches.count 0 packet

inductive Questions (packet : Bytes) : Nat → Nat → Nat → Prop where
  | nil {offset : Nat} : Questions packet 0 offset offset
  | cons {n offset consumed stop : Nat} (hname : NameSpan packet offset consumed)
      (hfixed : offset + consumed + 4 ≤ packet.length)
      (rest : Questions packet n (offset + (consumed + 4)) stop) :
      Questions packet (n + 1) offset stop

structure Record where
  ttlOffset : Nat
  rrType : UInt16
  ttl : UInt32
  deriving DecidableEq

/-- Records in wire order from one offset to another, each wholly inside the packet. -/
inductive Records (packet : Bytes) : Nat → List Record → Nat → Prop where
  | nil {offset : Nat} : Records packet offset [] offset
  | cons {offset consumed stop : Nat} {records : List Record}
      (hname : NameSpan packet offset consumed)
      (hfixed : offset + consumed + 10 ≤ packet.length)
      (hdata : offset + (consumed + 10 + (u16At packet (offset + consumed + 8)).toNat) ≤ packet.length)
      (rest : Records packet
        (offset + (consumed + 10 + (u16At packet (offset + consumed + 8)).toNat)) records stop) :
      Records packet offset
        ({ ttlOffset := offset + consumed + 4, rrType := u16At packet (offset + consumed),
           ttl := u32At packet (offset + consumed + 4) } :: records) stop

/-- The patches of a walk: the records that are not OPT pseudo-records. -/
def patchesOf (records : List Record) : List DrTtlPatch :=
  (records.filter (fun r => r.rrType ≠ 41)).map (fun r => ⟨r.ttlOffset, r.ttl⟩)

def minTtl (currentMin : UInt32) (patches : List DrTtlPatch) : UInt32 :=
  patches.foldl (fun m p => if p.originalTtl < m then p.originalTtl else m) currentMin

theorem skipQuestions_sat (packet : Bytes) : ∀ n offset,
    Sat (skipQuestions packet n offset) (fun stop => Questions packet n offset stop) := by
  intro n
  induction n with
  | zero => intro offset; exact .nil
  | succ n ih =>
    intro offset
    apply (skipName_sat packet offset).bind
    intro consumed hname
    apply Sat.guard
    intro hfit
    exact (ih _).mono (fun stop hrest => .cons hname (by omega) hrest)

theorem skipQuestions_of_walk {packet : Bytes} {n offset stop : Nat}
    (h : Questions packet n offset stop) : skipQuestions packet n offset = .ok stop := by
  induction h with
  | nil => rfl
  | cons hname hfixed rest ih =>
    rw [skipQuestions, skipName_eq_ok_iff.mpr hname, Outcome.ok_bind, if_neg (by omega), ih]

theorem patchesOf_cons (r : Record) (records : List Record) :
    patchesOf (r :: records) = patchesOf [r] ++ patchesOf records := by
  rw [patchesOf, patchesOf, patchesOf, ← List.map_append, ← List.filter_append,
    List.singleton_append]

theorem minTtl_append (m : UInt32) (xs ys : List DrTtlPatch) :
    minTtl m (xs ++ ys) = minTtl (minTtl m xs) ys :=
  List.foldl_append

theorem push_of_lt {patches : DrTtlPatchList} (patch : DrTtlPatch)
    (h : patches.count < DR_DNS_MAX_TTL_PATCHES) :
    ∃ patches', patches.push patch = .ok patches' ∧ patches'.items = patches.items ++ [patch] :=
  ⟨_, dif_pos h, rfl⟩

/-- One record adds its patch unless it is an OPT record; the only failure is a full list. -/
theorem collectPatch_eq (r : Record) (patches : DrTtlPatchList) (currentMin : UInt32) :
    (∃ patches', collectPatch r.rrType r.ttlOffset r.ttl patches currentMin =
        .ok (patches', minTtl currentMin (patchesOf [r])) ∧
        patches'.items = patches.items ++ patchesOf [r]) ∨
      (collectPatch r.rrType r.ttlOffset r.ttl patches currentMin = .fail () ∧
        DR_DNS_MAX_TTL_PATCHES < (patches.items ++ patchesOf [r]).length) := by
  by_cases hopt : r.rrType = 41
  · exact Or.inl ⟨patches, by simp [collectPatch, patchesOf, hopt, minTtl],
      by simp [patchesOf, hopt]⟩
  · by_cases hroom : patches.count < DR_DNS_MAX_TTL_PATCHES
    · obtain ⟨patches', hpush, hitems⟩ := push_of_lt ⟨r.ttlOffset, r.ttl⟩ hroom
      exact Or.inl ⟨patches', by simp [collectPatch, patchesOf, hopt, hroom, hpush, minTtl],
        by simp [patchesOf, hopt, hitems]⟩
    · refine Or.inr ⟨by simp [collectPatch, hopt, hroom], ?_⟩
      simp only [DrTtlPatchList.count] at hroom
      simp [patchesOf, hopt]
      omega

/-- The record loop walks the records and lists exactly the patches of the walk. -/
theorem collectRecords_sat (packet : Bytes) : ∀ n offset patches currentMin,
    Sat (collectRecords packet n offset patches currentMin) (fun r =>
      ∃ records stop, Records packet offset records stop ∧ records.length = n ∧
        r.1.items = patches.items ++ patchesOf records ∧
        r.2 = minTtl currentMin (patchesOf records)) := by
  intro n
  induction n with
  | zero =>
    intro offset patches currentMin
    exact ⟨[], offset, .nil, rfl, by simp [patchesOf], by simp [patchesOf, minTtl]⟩
  | succ n ih =>
    intro offset patches currentMin
    apply (skipName_sat packet offset).bind
    intro consumed hname
    apply Sat.guard
    intro hfixed
    rw [readU16_of_le (by omega), Outcome.ok_bind]
    dsimp only
    rw [readU32_of_le (by omega), Outcome.ok_bind, readU16_of_le (by omega), Outcome.ok_bind,
      show offset + consumed + 4 + 4 = offset + consumed + 8 from rfl]
    rcases collectPatch_eq ⟨offset + consumed + 4, u16At packet (offset + consumed),
        u32At packet (offset + consumed + 4)⟩ patches currentMin with
      ⟨patches', hpatch, hitems⟩ | ⟨hfull, _⟩
    · rw [hpatch, Outcome.ok_bind]
      apply Sat.guard
      intro hdata
      apply (ih _ patches' _).mono
      intro r hr
      obtain ⟨records, stop, hwalk, hcount, hlist, hmin⟩ := hr
      refine ⟨_ :: records, stop, .cons hname (by omega) (by omega) hwalk, by
        rw [List.length_cons, hcount], ?_, ?_⟩
      · rw [hlist, hitems, patchesOf_cons _ records, List.append_assoc]
      · rw [hmin, patchesOf_cons _ records, minTtl_append]
    · rw [hfull]
      trivial

theorem collectRecords_of_walk {packet : Bytes} {offset stop : Nat} {records : List Record}
    (h : Records packet offset records stop) : ∀ (patches : DrTtlPatchList) (currentMin : UInt32),
      (patches.items ++ patchesOf records).length ≤ DR_DNS_MAX_TTL_PATCHES →
      ∃ patches', collectRecords packet records.length offset patches currentMin =
          .ok (patches', minTtl currentMin (patchesOf records)) ∧
        patches'.items = patches.items ++ patchesOf records := by
  induction h with
  | nil =>
    intro patches currentMin _
    exact ⟨patches, by simp [collectRecords, patchesOf, minTtl], by simp [patchesOf]⟩
  | @cons offset consumed stop records hname hfixed hdata rest ih =>
    intro patches currentMin hroom
    rw [patchesOf_cons _ records] at hroom ⊢
    rw [List.length_cons, collectRecords, skipName_eq_ok_iff.mpr hname, Outcome.ok_bind,
      if_neg (by omega), readU16_of_le (by omega), Outcome.ok_bind]
    dsimp only
    rw [readU32_of_le (by omega), Outcome.ok_bind, readU16_of_le (by omega), Outcome.ok_bind,
      show offset + consumed + 4 + 4 = offset + consumed + 8 from rfl]
    rcases collectPatch_eq ⟨offset + consumed + 4, u16At packet (offset + consumed),
        u32At packet (offset + consumed + 4)⟩ patches currentMin with
      ⟨patches', hpatch, hitems⟩ | ⟨_, hover⟩
    · rw [hpatch, Outcome.ok_bind]
      dsimp only
      rw [if_neg (by omega), minTtl_append]
      obtain ⟨last, hloop, hlast⟩ := ih patches'
        (minTtl currentMin (patchesOf [⟨offset + consumed + 4, u16At packet (offset + consumed),
          u32At packet (offset + consumed + 4)⟩])) (by rw [hitems, List.append_assoc]; exact hroom)
      exact ⟨last, hloop, by rw [hlast, hitems, List.append_assoc]⟩
    · rw [← List.append_assoc, List.length_append] at hroom
      omega

/-- A message whose questions and records can be walked from the header on. -/
structure Walk (packet : Bytes) (records : List Record) : Prop where
  header : DR_DNS_HEADER_SIZE ≤ packet.length
  count : records.length = (u16At packet 6).toNat + (u16At packet 8).toNat + (u16At packet 10).toNat
  sections : ∃ middle stop, Questions packet (u16At packet 4).toNat DR_DNS_HEADER_SIZE middle ∧
    Records packet middle records stop

/-- `*min_ttl`: the loop's sentinel stands for an empty list. -/
def reportedMin (patches : List DrTtlPatch) : UInt32 :=
  if minTtl 0xffffffff patches = 0xffffffff then 0 else minTtl 0xffffffff patches

theorem drDnsCollectTtls_sat (packet : Bytes) :
    Sat (drDnsCollectTtls packet) (fun r => ∃ records, Walk packet records ∧
      r.1.items = patchesOf records ∧ r.2 = reportedMin (patchesOf records)) := by
  unfold drDnsCollectTtls
  rw [drDnsParseHeader_eq]
  by_cases hshort : packet.length < DR_DNS_HEADER_SIZE
  · rw [if_pos hshort]
    trivial
  rw [if_neg hshort, Outcome.ok_bind]
  apply (skipQuestions_sat _ _ _).bind
  intro middle hquestions
  apply (collectRecords_sat _ _ _ _ _).bind
  intro r hr
  obtain ⟨patches, currentMin⟩ := r
  obtain ⟨records, stop, hrecords, hcount, hitems, hmin⟩ := hr
  dsimp only at hitems hmin
  have hlist : patches.items = patchesOf records := hitems
  refine ⟨records, ⟨by omega, hcount, middle, stop, hquestions, hrecords⟩, hlist, ?_⟩
  rw [hmin]
  rfl

/-- Collection succeeds exactly on the messages that can be walked with room in the list. -/
theorem drDnsCollectTtls_of_walk {packet : Bytes} {records : List Record} (h : Walk packet records)
    (hroom : (patchesOf records).length ≤ DR_DNS_MAX_TTL_PATCHES) :
    drDnsCollectTtls packet =
      .ok (⟨patchesOf records, hroom⟩, reportedMin (patchesOf records)) := by
  obtain ⟨hheader, hcount, middle, stop, hquestions, hrecords⟩ := h
  obtain ⟨patches, hloop, hitems⟩ := collectRecords_of_walk hrecords .empty 0xffffffff hroom
  have hpatches : patches = ⟨patchesOf records, hroom⟩ := DrTtlPatchList.ext hitems
  unfold drDnsCollectTtls
  rw [drDnsParseHeader_eq, if_neg (by omega), Outcome.ok_bind]
  change (skipQuestions packet (u16At packet 4).toNat DR_DNS_HEADER_SIZE >>= fun offset =>
    collectRecords packet ((u16At packet 6).toNat + (u16At packet 8).toNat + (u16At packet 10).toNat)
      offset .empty 0xffffffff >>= _) = _
  rw [skipQuestions_of_walk hquestions, Outcome.ok_bind, ← hcount, hloop, hpatches,
    Outcome.ok_bind]
  rfl

theorem Questions.offset_le {packet : Bytes} {n offset stop : Nat}
    (h : Questions packet n offset stop) : offset ≤ stop := by
  induction h with
  | nil => exact le_refl _
  | cons hname hfixed rest ih => omega

theorem Records.offset_le {packet : Bytes} {offset stop : Nat} {records : List Record}
    (h : Records packet offset records stop) : offset ≤ stop := by
  induction h with
  | nil => exact le_refl _
  | cons hname hfixed hdata rest ih => omega

/-- Every TTL field lies behind the octet of a name and in front of a data length. -/
theorem Records.window {packet : Bytes} {offset stop : Nat} {records : List Record}
    (h : Records packet offset records stop) :
    ∀ r ∈ records, offset + 5 ≤ r.ttlOffset ∧ r.ttlOffset + 6 ≤ stop ∧
      r.ttlOffset + 6 ≤ packet.length ∧ r.ttl = u32At packet r.ttlOffset := by
  induction h with
  | nil => simp
  | cons hname hfixed hdata rest ih =>
    have hb := hname.bounds
    have hle := rest.offset_le
    intro r hr
    rcases List.mem_cons.mp hr with rfl | hr
    · exact ⟨by dsimp only; omega, by dsimp only; omega, by dsimp only; omega, rfl⟩
    · have hw := ih r hr
      exact ⟨by omega, hw.2⟩

/-- The fields of consecutive records do not overlap. -/
theorem Records.pairwise {packet : Bytes} {offset stop : Nat} {records : List Record}
    (h : Records packet offset records stop) :
    records.Pairwise (fun a b => a.ttlOffset + 11 ≤ b.ttlOffset) := by
  induction h with
  | nil => exact List.Pairwise.nil
  | cons hname hfixed hdata rest ih =>
    refine List.pairwise_cons.mpr ⟨fun r hr => ?_, ih⟩
    have hw := rest.window r hr
    dsimp only
    omega

end DnsRelay.Wire
