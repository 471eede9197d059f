import Mathlib.Tactic.ByContra

/-!
# A cell over time

A cell that starts empty, and whose content is only put in and taken out, never
exchanged in place. Whatever it holds was put in at one earlier step and has not
changed since, and whatever is put in stays for ever or is taken out at one step.
-/
namespace DnsRelay.Foundation

variable {α : Type} {cell : Nat → Option α}

/-- `cell n` is the content in front of step `n`. -/
structure Occupancy (cell : Nat → Option α) : Prop where
  empty : cell 0 = none
  kept : ∀ n a b, cell n = some a → cell (n + 1) = some b → b = a

/-- Put in by step `m` and still there in front of step `n`. -/
structure HeldSince (cell : Nat → Option α) (m n : Nat) (a : α) : Prop where
  before : m < n
  put : cell m = none
  held : ∀ j, m < j → j ≤ n → cell j = some a

/-- Put in by step `m` and taken out by step `n`. -/
structure TakenOut (cell : Nat → Option α) (m n : Nat) (a : α) : Prop where
  held : HeldSince cell m n a
  taken : cell (n + 1) = none

namespace HeldSince

variable {m m' n n' : Nat} {a a' : α}

theorem content (h : HeldSince cell m n a) : cell n = some a := h.held n h.before (Nat.le_refl n)

theorem first (h : HeldSince cell m n a) : cell (m + 1) = some a :=
  h.held (m + 1) (Nat.lt_succ_self m) h.before

/-- The content in front of a step was put in by one step only. -/
theorem unique (h : HeldSince cell m n a) (h' : HeldSince cell m' n a') : m = m' := by
  have hnot {m m' : Nat} {a a' : α} (h : HeldSince cell m n a) (h' : HeldSince cell m' n a') :
      ¬ m < m' := by
    intro hlt
    have hfull := h.held m' hlt (Nat.le_of_lt h'.before)
    rw [h'.put] at hfull
    cases hfull
  have h1 := hnot h h'
  have h2 := hnot h' h
  omega

/-- What is put in is still there, or was taken out before. -/
theorem not_after (h : HeldSince cell m n a) (h' : TakenOut cell m n' a') : n ≤ n' := by
  by_contra hlt
  have hbefore := h'.held.before
  have hfull := h.held (n' + 1) (by omega) (by omega)
  rw [h'.taken] at hfull
  cases hfull

end HeldSince

theorem TakenOut.unique {m n n' : Nat} {a a' : α} (h : TakenOut cell m n a)
    (h' : TakenOut cell m n' a') : n = n' :=
  Nat.le_antisymm (h.held.not_after h') (h'.held.not_after h)

namespace Occupancy

/-- Content was put in by some step and has not changed since. -/
theorem heldSince (h : Occupancy cell) {n : Nat} {a : α} (hn : cell n = some a) :
    ∃ m, HeldSince cell m n a := by
  induction n with
  | zero =>
    rw [h.empty] at hn
    cases hn
  | succ n ih =>
    cases hprev : cell n with
    | none =>
      refine ⟨n, Nat.lt_succ_self n, hprev, fun j hlow hhigh => ?_⟩
      rw [show j = n + 1 by omega]
      exact hn
    | some b =>
      have hsame := h.kept n b a hprev hn
      subst hsame
      obtain ⟨m, hbefore, hput, hheld⟩ := ih hprev
      refine ⟨m, Nat.lt_succ_of_lt hbefore, hput, fun j hlow hhigh => ?_⟩
      rcases Nat.lt_or_ge n j with hlast | hle
      · rw [show j = n + 1 by omega]
        exact hn
      · exact hheld j hlow hle

/-- What is put in stays for ever, or is taken out by exactly one step. -/
theorem fate (h : Occupancy cell) {m : Nat} {a : α} (hput : cell m = none)
    (hfirst : cell (m + 1) = some a) :
    (∀ n, m < n → cell n = some a) ∨
      ∃ n, TakenOut cell m n a ∧ ∀ n' b, TakenOut cell m n' b → n' = n := by
  by_cases hout : ∃ n, TakenOut cell m n a
  · obtain ⟨n, hn⟩ := hout
    exact Or.inr ⟨n, hn, fun n' b hn' => hn'.unique hn⟩
  · -- a step that does not take the content out leaves it held
    have hheld : ∀ k, HeldSince cell m (m + 1 + k) a := by
      intro k
      induction k with
      | zero =>
        refine ⟨Nat.lt_succ_self m, hput, fun j hlow hhigh => ?_⟩
        rw [show j = m + 1 by omega]
        exact hfirst
      | succ k ih =>
        refine ⟨by omega, hput, fun j hlow hhigh => ?_⟩
        by_cases hlast : j ≤ m + 1 + k
        · exact ih.held j hlow hlast
        · rw [show j = m + 1 + k + 1 by omega]
          cases hnext : cell (m + 1 + k + 1) with
          | none => exact absurd ⟨_, ih, hnext⟩ hout
          | some b => rw [h.kept _ a b ih.content hnext]
    apply Or.inl
    intro n hn
    obtain ⟨k, rfl⟩ := Nat.exists_eq_add_of_le hn
    exact (hheld k).content

end Occupancy
end DnsRelay.Foundation
