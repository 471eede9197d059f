import Mathlib.Data.Nat.ModEq
import Mathlib.Logic.Function.Iterate

/-!
# Cyclic scans

A bounded search that starts anywhere on a ring and moves on by one position: it
reports the first position that satisfies the predicate, and with a budget of one
round it misses none.
-/
namespace DnsRelay.Foundation

variable {α : Type}

/-- At most `budget` positions are tried, from `a` on. -/
def scanFrom (next : α → α) (p : α → Bool) : Nat → α → Option α
  | 0, _ => none
  | budget + 1, a => if p a then some a else scanFrom next p budget (next a)

theorem scanFrom_eq_none {next : α → α} {p : α → Bool} {budget : Nat} {a : α} :
    scanFrom next p budget a = none ↔ ∀ k < budget, p (next^[k] a) = false := by
  induction budget generalizing a with
  | zero => simp [scanFrom]
  | succ budget ih =>
    rw [scanFrom]
    constructor
    · intro h k hk
      by_cases hp : p a
      · rw [if_pos hp] at h
        cases h
      · rw [if_neg hp] at h
        cases k with
        | zero => simpa using hp
        | succ k => exact ih.mp h k (by omega)
    · intro h
      have h0 : p a = false := h 0 (by omega)
      rw [if_neg (by simp [h0])]
      exact ih.mpr (fun k hk => h (k + 1) (by omega))

/-- The position found is the first one on the way that satisfies the predicate. -/
theorem scanFrom_eq_some {next : α → α} {p : α → Bool} {budget : Nat} {a b : α}
    (h : scanFrom next p budget a = some b) :
    ∃ k < budget, b = next^[k] a ∧ p b = true ∧ ∀ j < k, p (next^[j] a) = false := by
  induction budget generalizing a with
  | zero => cases h
  | succ budget ih =>
    rw [scanFrom] at h
    by_cases hp : p a
    · rw [if_pos hp] at h
      cases h
      exact ⟨0, by omega, rfl, hp, by omega⟩
    · rw [if_neg hp] at h
      obtain ⟨k, hk, hb, hpb, hbefore⟩ := ih h
      refine ⟨k + 1, by omega, hb, hpb, fun j hj => ?_⟩
      cases j with
      | zero => simpa using hp
      | succ j => exact hbefore j (by omega)

theorem scanFrom_of_first {next : α → α} {p : α → Bool} {budget k : Nat} {a : α} (hk : k < budget)
    (hp : p (next^[k] a) = true) (hbefore : ∀ j < k, p (next^[j] a) = false) :
    scanFrom next p budget a = some (next^[k] a) := by
  induction budget generalizing a k with
  | zero => omega
  | succ budget ih =>
    rw [scanFrom]
    cases k with
    | zero => exact if_pos hp
    | succ k =>
      have h0 : p a = false := hbefore 0 (by omega)
      rw [if_neg (by simp [h0])]
      exact ih (by omega) hp (fun j hj => hbefore (j + 1) (by omega))

/-- One round from any start passes every position. -/
theorem exists_offset {n start target : Nat} (hstart : start < n) (htarget : target < n) :
    ∃ k < n, (start + k) % n = target := by
  by_cases hle : start ≤ target
  · exact ⟨target - start, by omega, by rw [Nat.add_sub_cancel' hle, Nat.mod_eq_of_lt htarget]⟩
  · refine ⟨n - start + target, by omega, ?_⟩
    rw [show start + (n - start + target) = target + n by omega, Nat.add_mod_right,
      Nat.mod_eq_of_lt htarget]

/-- A ring of `n` positions: on `P` the step moves the coordinate on by one modulo `n`, and the
coordinate tells positions apart. -/
structure Cycle (next : α → α) (n : Nat) (P : α → Prop) (coord : α → Nat) : Prop where
  step : ∀ a, P a → P (next a) ∧ coord (next a) = (coord a + 1) % n
  lt : ∀ a, P a → coord a < n
  inj : ∀ a b, P a → P b → coord a = coord b → a = b

variable {next : α → α} {n : Nat} {P : α → Prop} {coord : α → Nat}

theorem Cycle.iterate (h : Cycle next n P coord) {a : α} (ha : P a) (k : Nat) :
    P (next^[k] a) ∧ coord (next^[k] a) = (coord a + k) % n := by
  induction k with
  | zero => exact ⟨ha, by rw [Function.iterate_zero_apply, Nat.add_zero, Nat.mod_eq_of_lt (h.lt a ha)]⟩
  | succ k ih =>
    rw [Function.iterate_succ_apply']
    obtain ⟨hP, hcoord⟩ := h.step _ ih.1
    exact ⟨hP, by rw [hcoord, ih.2, Nat.mod_add_mod, Nat.add_assoc]⟩

theorem Cycle.reaches (h : Cycle next n P coord) {a b : α} (ha : P a) (hb : P b) :
    ∃ k < n, next^[k] a = b := by
  obtain ⟨k, hk, hoff⟩ := exists_offset (h.lt a ha) (h.lt b hb)
  obtain ⟨hP, hcoord⟩ := h.iterate ha k
  exact ⟨k, hk, h.inj _ _ hP hb (hcoord.trans hoff)⟩

/-- A scan of one round fails only when no position satisfies the predicate. -/
theorem Cycle.scan_eq_none (h : Cycle next n P coord) {p : α → Bool} {a : α} (ha : P a) :
    scanFrom next p n a = none ↔ ∀ b, P b → p b = false := by
  rw [scanFrom_eq_none]
  constructor
  · intro hall b hb
    obtain ⟨k, hk, rfl⟩ := h.reaches ha hb
    exact hall k hk
  · intro hall k _
    exact hall _ (h.iterate ha k).1

/-- Coming back to a position takes a whole number of rounds. -/
theorem Cycle.round_le (h : Cycle next n P coord) {a : α} (ha : P a) {k : Nat} (hk : 0 < k)
    (hback : next^[k] a = a) : n ≤ k := by
  have hlt := h.lt a ha
  obtain ⟨_, hcoord⟩ := h.iterate ha k
  rw [hback] at hcoord
  by_contra hshort
  by_cases hwrap : coord a + k < n
  · rw [Nat.mod_eq_of_lt hwrap] at hcoord
    omega
  · rw [Nat.mod_eq_sub_mod (by omega), Nat.mod_eq_of_lt (by omega)] at hcoord
    omega

/-- Before it comes back to a position, the step has been at every other one. -/
theorem Cycle.return_passes (h : Cycle next n P coord) {a b : α} (ha : P a) (hb : P b)
    (hne : b ≠ a) {k : Nat} (hback : next^[k + 1] a = a) : ∃ i < k, next^[i] (next a) = b := by
  have hround := h.round_le ha (Nat.succ_pos k) hback
  obtain ⟨i, hi, hreach⟩ := h.reaches ha hb
  cases i with
  | zero => exact absurd hreach.symm hne
  | succ i => exact ⟨i, by omega, hreach⟩

end DnsRelay.Foundation
