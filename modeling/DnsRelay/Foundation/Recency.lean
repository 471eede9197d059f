import Mathlib.Data.List.Nodup
import Mathlib.Data.List.Pairwise
import Mathlib.Data.List.Perm.Subperm

/-!
# Recency lists

A bounded store of dated entries kept as a list, most recently used first, and the
relation by which an array of stamped slots represents such a list: the live slots in
decreasing order of their stamps.
-/
namespace DnsRelay.Foundation

structure Dated (κ ν : Type) where
  key : κ
  value : ν
  expiresAt : Nat

namespace Recency

variable {κ ν : Type}

def live (now : Nat) (e : Dated κ ν) : Bool := now < e.expiresAt

/-- What an operation keeps: distinct keys within the capacity. -/
structure Bounded (capacity : Nat) (l : List (Dated κ ν)) : Prop where
  keys : (l.map Dated.key).Nodup
  length : l.length ≤ capacity

theorem Bounded.sublist {capacity : Nat} {l l' : List (Dated κ ν)} (h : Bounded capacity l)
    (hs : l'.Sublist l) : Bounded capacity l' :=
  ⟨h.keys.sublist (hs.map _), Nat.le_trans hs.length_le h.length⟩

variable [DecidableEq κ]

/-- The live entries under other keys. -/
def others (now : Nat) (key : κ) (l : List (Dated κ ν)) : List (Dated κ ν) :=
  (l.filter (live now)).filter (fun d => d.key ≠ key)

/-- Add an entry as the most recent one; the oldest goes when the capacity is used up. -/
def insert (capacity now : Nat) (e : Dated κ ν) (l : List (Dated κ ν)) : List (Dated κ ν) :=
  e :: if (others now e.key l).length < capacity then others now e.key l
    else (others now e.key l).dropLast

/-- Look a key up; an entry found becomes the most recent one. -/
def lookup (now : Nat) (key : κ) (l : List (Dated κ ν)) : List (Dated κ ν) × Option (Dated κ ν) :=
  match l.find? (fun d => d.key = key ∧ live now d) with
  | none => (l, none)
  | some d => (d :: l.filter (fun x => x.key ≠ key), some d)

theorem others_sublist (now : Nat) (key : κ) (l : List (Dated κ ν)) : (others now key l).Sublist l :=
  List.filter_sublist.trans List.filter_sublist

theorem key_not_mem_others (now : Nat) (key : κ) (l : List (Dated κ ν)) :
    key ∉ (others now key l).map Dated.key := by
  intro hmem
  obtain ⟨d, hd, hkey⟩ := List.mem_map.mp hmem
  have hne := (List.mem_filter.mp hd).2
  simp [hkey] at hne

theorem Bounded.insert {capacity : Nat} {l : List (Dated κ ν)} (hcap : 1 ≤ capacity)
    (h : Bounded capacity l) (now : Nat) (e : Dated κ ν) : Bounded capacity (insert capacity now e l) := by
  have hothers := h.sublist (others_sublist now e.key l)
  have hkey := key_not_mem_others now e.key l
  rw [Recency.insert]
  split
  · next hroom => exact ⟨List.nodup_cons.mpr ⟨hkey, hothers.keys⟩, hroom⟩
  · have hs := List.dropLast_sublist (others now e.key l)
    refine ⟨List.nodup_cons.mpr ⟨fun hmem => hkey ((hs.map _).subset hmem),
      hothers.keys.sublist (hs.map _)⟩, ?_⟩
    have hle := hothers.length
    rw [List.length_cons, List.length_dropLast]
    omega

theorem insert_of_room {capacity now : Nat} {e : Dated κ ν} {l : List (Dated κ ν)}
    (h : (others now e.key l).length < capacity) :
    insert capacity now e l = e :: others now e.key l := by
  rw [insert, if_pos h]

theorem insert_of_full {capacity now : Nat} {e : Dated κ ν} {l : List (Dated κ ν)}
    (h : ¬ (others now e.key l).length < capacity) :
    insert capacity now e l = e :: (others now e.key l).dropLast := by
  rw [insert, if_neg h]

/-- An insertion of a live entry leaves live entries only. -/
theorem filter_live_insert {capacity now : Nat} {e : Dated κ ν} {l : List (Dated κ ν)}
    (h : live now e = true) : (insert capacity now e l).filter (live now) = insert capacity now e l := by
  have hothers : ∀ d ∈ others now e.key l, live now d = true :=
    fun d hd => (List.mem_filter.mp (List.mem_filter.mp hd).1).2
  rw [List.filter_eq_self]
  intro d hd
  rw [insert] at hd
  rcases List.mem_cons.mp hd with rfl | hd
  · exact h
  · split at hd
    · exact hothers d hd
    · exact hothers d (List.dropLast_subset _ hd)

theorem lookup_eq_some {now : Nat} {l : List (Dated κ ν)} {d : Dated κ ν}
    (hkeys : (l.map Dated.key).Nodup) (hd : d ∈ l) (hlive : live now d = true) :
    lookup now d.key l = (d :: l.filter (fun x => x.key ≠ d.key), some d) := by
  rw [lookup]
  cases hfind : l.find? (fun x => x.key = d.key ∧ live now x) with
  | none =>
    have hnot := List.find?_eq_none.mp hfind d hd
    simp [hlive] at hnot
  | some x =>
    have hx := List.find?_some hfind
    simp only [decide_eq_true_eq] at hx
    rw [List.inj_on_of_nodup_map hkeys (List.mem_of_find?_eq_some hfind) hd hx.1]

theorem lookup_eq_none {now : Nat} {key : κ} {l : List (Dated κ ν)}
    (h : ∀ d ∈ l.filter (live now), d.key ≠ key) : lookup now key l = (l, none) := by
  have hfind : l.find? (fun d => d.key = key ∧ live now d) = none := by
    rw [List.find?_eq_none]
    intro d hd
    have hne := h d
    simp only [List.mem_filter, hd, true_and] at hne
    simp only [decide_eq_true_eq, not_and, Bool.not_eq_true]
    intro hk
    cases hl : live now d
    · rfl
    · exact absurd hk (hne hl)
  rw [lookup, hfind]

theorem Bounded.front {capacity : Nat} {l : List (Dated κ ν)} {d : Dated κ ν}
    (h : Bounded capacity l) (hd : d ∈ l) :
    Bounded capacity (d :: l.filter (fun x => x.key ≠ d.key)) := by
  have hs : (l.filter (fun x => x.key ≠ d.key)).Sublist l := List.filter_sublist
  refine ⟨List.nodup_cons.mpr ⟨by simp, h.keys.sublist (hs.map _)⟩, ?_⟩
  have hlt : (l.filter (fun x => x.key ≠ d.key)).length < l.length :=
    List.length_filter_lt_length_iff_exists.mpr ⟨d, hd, by simp⟩
  have hle := h.length
  rw [List.length_cons]
  omega

/-- `d` is in the list, and what was used since has keys among `used`. -/
def Behind (used : List κ) (d : Dated κ ν) (l : List (Dated κ ν)) : Prop :=
  ∃ front rest, l = front ++ d :: rest ∧ ∀ x ∈ front, x.key ∈ used

namespace Behind

variable {used : List κ} {d : Dated κ ν} {l : List (Dated κ ν)}

omit [DecidableEq κ] in
theorem head (used : List κ) (d : Dated κ ν) (l : List (Dated κ ν)) : Behind used d (d :: l) :=
  ⟨[], l, rfl, by simp⟩

omit [DecidableEq κ] in
theorem mem (h : Behind used d l) : d ∈ l := by
  obtain ⟨front, rest, rfl, _⟩ := h
  simp

omit [DecidableEq κ] in
theorem filter (h : Behind used d l) {p : Dated κ ν → Bool} (hp : p d = true) :
    Behind used d (l.filter p) := by
  obtain ⟨front, rest, rfl, hfront⟩ := h
  refine ⟨front.filter p, rest.filter p, ?_, fun x hx => hfront x (List.mem_filter.mp hx).1⟩
  rw [List.filter_append, List.filter_cons_of_pos hp]

omit [DecidableEq κ] in
theorem cons (h : Behind used d l) {e : Dated κ ν} (hkey : e.key ∈ used) :
    Behind used d (e :: l) := by
  obtain ⟨front, rest, rfl, hfront⟩ := h
  exact ⟨e :: front, rest, rfl, List.forall_mem_cons.mpr ⟨hkey, hfront⟩⟩

/-- A lookup moves an entry back by at most the one it finds. -/
theorem lookup (h : Behind used d l) (hkeys : (l.map Dated.key).Nodup) {now : Nat}
    (hlive : live now d = true) {key : κ} (hkey : key = d.key ∨ key ∈ used) :
    Behind used d (lookup now key l).1 := by
  by_cases hsame : key = d.key
  · rw [hsame, lookup_eq_some hkeys h.mem hlive]
    exact head used d _
  · rw [Recency.lookup]
    cases hfind : l.find? (fun x => x.key = key ∧ live now x) with
    | none => exact h
    | some x =>
      have hx := List.find?_some hfind
      simp only [decide_eq_true_eq] at hx
      refine (h.filter ?_).cons ?_
      · rw [decide_eq_true_eq]
        exact Ne.symm hsame
      · rw [hx.1]
        exact hkey.resolve_left hsame

/-- While fewer keys than the capacity are in use, an insertion drops no entry that is live. -/
theorem insert (h : Behind used d l) {capacity : Nat} (hbounded : Bounded capacity l)
    (hfew : used.length < capacity) {now : Nat} (hlive : live now d = true) {e : Dated κ ν}
    (hkey : e.key ∈ used) (hother : e.key ≠ d.key) : Behind used d (insert capacity now e l) := by
  have hothers : Behind used d (others now e.key l) :=
    (h.filter hlive).filter (by rw [decide_eq_true_eq]; exact Ne.symm hother)
  have hnodup : ((others now e.key l).map Dated.key).Nodup :=
    (hbounded.sublist (others_sublist now e.key l)).keys
  have habsent := key_not_mem_others now e.key l
  by_cases hroom : (others now e.key l).length < capacity
  · rw [insert_of_room hroom]
    exact hothers.cons hkey
  rw [insert_of_full hroom]
  refine cons ?_ hkey
  generalize others now e.key l = kept at hothers hnodup habsent hroom
  obtain ⟨front, rest, rfl, hfront⟩ := hothers
  rw [List.map_append, List.nodup_append'] at hnodup
  rw [List.map_append, List.mem_append, not_or] at habsent
  -- the keys in front and the new one are among those in use, so `d` is not the last
  have hshort : front.length + 1 ≤ used.length := by
    have hsub : e.key :: front.map Dated.key ⊆ used := by
      refine List.cons_subset.mpr ⟨hkey, fun k hk => ?_⟩
      obtain ⟨x, hx, rfl⟩ := List.mem_map.mp hk
      exact hfront x hx
    have hle := (List.Nodup.subperm (List.nodup_cons.mpr ⟨habsent.1, hnodup.1⟩) hsub).length_le
    rwa [List.length_cons, List.length_map] at hle
  have hrest : rest ≠ [] := by
    rintro rfl
    rw [List.length_append, List.length_singleton] at hroom
    omega
  refine ⟨front, rest.dropLast, ?_, hfront⟩
  rw [List.dropLast_append_of_ne_nil (List.cons_ne_nil d rest), List.dropLast_cons_of_ne_nil hrest]

end Behind

end Recency

section Ranked

variable {α κ : Type}

/-- `ranked` lists the slots that satisfy `p` in decreasing order of their stamps. -/
structure Ranked (stamp : α → Nat) (p : α → Bool) (slots ranked : List α) : Prop where
  perm : ranked.Perm (slots.filter p)
  sorted : ranked.Pairwise (fun a b => stamp b < stamp a)

namespace Ranked

variable {stamp : α → Nat} {p : α → Bool} {slots ranked pre suf : List α} {m x : α}

theorem mem (h : Ranked stamp p slots ranked) {a : α} : a ∈ ranked ↔ a ∈ slots ∧ p a = true := by
  rw [h.perm.mem_iff, List.mem_filter]

theorem congr {slots' : List α} (h : Ranked stamp p slots ranked)
    (hsame : slots'.filter p = slots.filter p) : Ranked stamp p slots' ranked :=
  ⟨hsame ▸ h.perm, h.sorted⟩

/-- Fewer slots count, as when time passes. -/
theorem filter {q : α → Bool} (h : Ranked stamp p slots ranked) (hq : ∀ a, q a = true → p a = true) :
    Ranked stamp q slots (ranked.filter q) := by
  refine ⟨(h.perm.filter q).trans (List.Perm.of_eq ?_), h.sorted.filter _⟩
  rw [List.filter_filter]
  exact List.filter_congr (fun a _ => by cases hqa : q a <;> simp [hq, hqa])

theorem perm_middle (h : Ranked stamp p (pre ++ m :: suf) ranked) (hm : p m = true) :
    ranked.Perm (m :: (pre ++ suf).filter p) := by
  apply h.perm.trans
  rw [List.filter_append, List.filter_cons_of_pos hm, List.filter_append]
  exact List.perm_middle

theorem write (hx : p x = true) (hperm : ranked.Perm ((pre ++ suf).filter p))
    (hsorted : ranked.Pairwise (fun a b => stamp b < stamp a))
    (hnew : ∀ a ∈ ranked, stamp a < stamp x) : Ranked stamp p (pre ++ x :: suf) (x :: ranked) := by
  refine ⟨?_, List.pairwise_cons.mpr ⟨hnew, hsorted⟩⟩
  rw [List.filter_append, List.filter_cons_of_pos hx]
  apply (hperm.cons x).trans
  rw [List.filter_append]
  exact List.perm_middle.symm

/-- A slot that did not count gets a fresh stamp. -/
theorem fill (h : Ranked stamp p (pre ++ m :: suf) ranked) (hm : p m = false) (hx : p x = true)
    (hnew : ∀ a ∈ ranked, stamp a < stamp x) : Ranked stamp p (pre ++ x :: suf) (x :: ranked) := by
  refine write hx ?_ h.sorted hnew
  have hperm := h.perm
  rwa [List.filter_append, List.filter_cons_of_neg (by simp [hm]), ← List.filter_append] at hperm

/-- The slot under a key is written again. -/
theorem replace [DecidableEq κ] {key : α → κ} (h : Ranked stamp p (pre ++ m :: suf) ranked)
    (hkeys : (ranked.map key).Nodup) (hm : p m = true) (hx : p x = true)
    (hnew : ∀ a ∈ ranked, stamp a < stamp x) :
    Ranked stamp p (pre ++ x :: suf) (x :: ranked.filter (fun a => key a ≠ key m)) := by
  have hperm := h.perm_middle hm
  refine write hx ?_ (h.sorted.filter _) (fun a ha => hnew a (List.mem_filter.mp ha).1)
  have hnodup := (hperm.map key).nodup_iff.mp hkeys
  rw [List.map_cons, List.nodup_cons] at hnodup
  refine (hperm.filter _).trans (List.Perm.of_eq ?_)
  rw [List.filter_cons_of_neg (by simp), List.filter_eq_self]
  intro a ha
  simp only [ne_eq, decide_not, Bool.not_eq_eq_eq_not, Bool.not_true, decide_eq_false_iff_not]
  exact fun heq => hnodup.1 (List.mem_map.mpr ⟨a, ha, heq⟩)

/-- The slot with the smallest stamp is written over. -/
theorem evict (h : Ranked stamp p (pre ++ m :: suf) ranked) (hm : p m = true) (hx : p x = true)
    (hmin : ∀ a ∈ ranked, stamp m ≤ stamp a) (hnew : ∀ a ∈ ranked, stamp a < stamp x) :
    Ranked stamp p (pre ++ x :: suf) (x :: ranked.dropLast) := by
  have hperm := h.perm_middle hm
  have hmem : m ∈ ranked := hperm.mem_iff.mpr List.mem_cons_self
  have hne : ranked ≠ [] := List.ne_nil_of_mem hmem
  have hsplit := List.dropLast_append_getLast hne
  have hlast : ranked.getLast hne = m := by
    by_contra hother
    have hfront : m ∈ ranked.dropLast := by
      rw [← hsplit] at hmem
      rcases List.mem_append.mp hmem with hfront | hend
      · exact hfront
      · exact absurd (List.mem_singleton.mp hend).symm hother
    have hsorted := h.sorted
    rw [← hsplit] at hsorted
    have hlt := (List.pairwise_append.mp hsorted).2.2 m hfront _ (List.mem_singleton.mpr rfl)
    have hle := hmin _ (List.getLast_mem hne)
    omega
  refine write hx ?_ (h.sorted.sublist (List.dropLast_sublist _))
    (fun a ha => hnew a (List.dropLast_subset _ ha))
  rw [← hsplit, hlast] at hperm
  exact (List.perm_append_comm.trans hperm).cons_inv

end Ranked
end Ranked
end DnsRelay.Foundation
