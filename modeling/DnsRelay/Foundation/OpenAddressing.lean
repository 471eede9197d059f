import DnsRelay.Foundation.Cyclic

/-!
# Open addressing with linear probing

Slots on a ring hold keys; a search for a key starts at the key's home slot and stops
at the key or at a free slot. `Placed` is the invariant under which the search is
right: between the home of a stored key and its slot there is no free slot.
-/
namespace DnsRelay.Foundation

variable {κ : Type}

def nextSlot (n i : Nat) : Nat := (i + 1) % n

theorem slot_cycle {n : Nat} (hn : 0 < n) : Cycle (nextSlot n) n (fun i => i < n) id where
  step _ _ := ⟨Nat.mod_lt _ hn, rfl⟩
  lt _ h := h
  inj _ _ _ _ h := h

/-- A search for a key stops here. -/
def stops [DecidableEq κ] (keyAt : Nat → Option κ) (key : κ) (i : Nat) : Bool :=
  keyAt i = none ∨ keyAt i = some key

/-- The slot where a search of one round stops. -/
def probe [DecidableEq κ] (n : Nat) (home : κ → Nat) (keyAt : Nat → Option κ) (key : κ) : Option Nat :=
  scanFrom (nextSlot n) (stops keyAt key) n (home key)

/-- The slots passed on the way from the home of a key are taken by other keys. -/
def Passed (n : Nat) (home : κ → Nat) (keyAt : Nat → Option κ) (key : κ) (d : Nat) : Prop :=
  ∀ j < d, keyAt ((nextSlot n)^[j] (home key)) ≠ none ∧
    keyAt ((nextSlot n)^[j] (home key)) ≠ some key

structure Placed (n : Nat) (home : κ → Nat) (keyAt : Nat → Option κ) : Prop where
  home_lt : ∀ key, home key < n
  path : ∀ i < n, ∀ key, keyAt i = some key →
    ∃ d < n, (nextSlot n)^[d] (home key) = i ∧ Passed n home keyAt key d

namespace Placed

variable {n : Nat} {home : κ → Nat} {keyAt : Nat → Option κ} {key : κ} {i : Nat}

theorem empty (hhome : ∀ key, home key < n) (hfree : ∀ i, keyAt i = none) :
    Placed n home keyAt where
  home_lt := hhome
  path i _ key h := by
    rw [hfree] at h
    cases h

/-- Writing an absent key into the free slot its search ends on. -/
theorem fill (h : Placed n home keyAt) {d : Nat} (hd : d < n)
    (hslot : (nextSlot n)^[d] (home key) = i) (hfree : keyAt i = none)
    (hpassed : Passed n home keyAt key d) {keyAt' : Nat → Option κ} (hnew : keyAt' i = some key)
    (hsame : ∀ j, j ≠ i → keyAt' j = keyAt j) : Placed n home keyAt' := by
  have keep {other : κ} {e : Nat} (hp : Passed n home keyAt other e) :
      Passed n home keyAt' other e := by
    intro j hj
    have hne : (nextSlot n)^[j] (home other) ≠ i := by
      intro heq
      exact (hp j hj).1 (heq ▸ hfree)
    rw [hsame _ hne]
    exact hp j hj
  refine ⟨h.home_lt, fun j hj other hother => ?_⟩
  by_cases hji : j = i
  · subst hji
    rw [hnew] at hother
    cases hother
    exact ⟨d, hd, hslot, keep hpassed⟩
  · rw [hsame j hji] at hother
    obtain ⟨e, he, hat, hp⟩ := h.path j hj other hother
    exact ⟨e, he, hat, keep hp⟩

variable [DecidableEq κ]

theorem probe_stored (h : Placed n home keyAt) (hi : i < n) (hkey : keyAt i = some key) :
    probe n home keyAt key = some i := by
  obtain ⟨d, hd, rfl, hpassed⟩ := h.path i hi key hkey
  apply scanFrom_of_first hd (by simp [stops, hkey])
  intro j hj
  obtain ⟨hne, hother⟩ := hpassed j hj
  simp [stops, hne, hother]

/-- A key lies in one slot only. -/
theorem injective (h : Placed n home keyAt) {i' : Nat} (hi : i < n) (hi' : i' < n)
    (hkey : keyAt i = some key) (hkey' : keyAt i' = some key) : i = i' :=
  Option.some.inj ((h.probe_stored hi hkey).symm.trans (h.probe_stored hi' hkey'))

/-- With a free slot somewhere, the search for an absent key ends on a free slot. -/
theorem probe_absent (h : Placed n home keyAt) (habsent : ∀ i < n, keyAt i ≠ some key)
    (hfree : ∃ i < n, keyAt i = none) :
    ∃ d < n, probe n home keyAt key = some ((nextSlot n)^[d] (home key)) ∧
      (nextSlot n)^[d] (home key) < n ∧ keyAt ((nextSlot n)^[d] (home key)) = none ∧
      Passed n home keyAt key d := by
  obtain ⟨i, hi, hfree⟩ := hfree
  have hcycle := slot_cycle (show 0 < n by omega)
  have hhome := h.home_lt key
  cases hscan : probe n home keyAt key with
  | none =>
    have hstop := (hcycle.scan_eq_none hhome).mp hscan i hi
    simp [stops, hfree] at hstop
  | some s =>
    obtain ⟨d, hd, rfl, hstop, hbefore⟩ := scanFrom_eq_some hscan
    have hlt := (hcycle.iterate hhome d).1
    refine ⟨d, hd, rfl, hlt, ?_, fun j hj => ?_⟩
    · simpa [stops, habsent _ hlt] using hstop
    · simpa [stops, not_or] using hbefore j hj

end Placed
end DnsRelay.Foundation
