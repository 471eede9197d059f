import Mathlib.Logic.Basic

/-!
# Outcomes of fallible calls over bounded objects

A call returns a result, reports failure, or is stuck: it touched an index outside
its object, or a loop outlived its iteration budget. `Sat` is the total-correctness
reading of a postcondition: the call is not stuck, and a result it returns satisfies
the condition. The rules below compose `Sat` along sequencing and branching, so that
one specification per function is enough for its callers.
-/
namespace DnsRelay.Foundation

inductive Outcome (ε α : Type) where
  | stuck
  | fail (e : ε)
  | ok (a : α)
  deriving DecidableEq, Repr

/-- A call whose failure carries no data, the common case of a C function returning 0. -/
abbrev Call (α : Type) := Outcome Unit α

namespace Outcome

variable {ε ε' α β : Type}

def bind (x : Outcome ε α) (f : α → Outcome ε β) : Outcome ε β :=
  match x with
  | .stuck => .stuck
  | .fail e => .fail e
  | .ok a => f a

instance : Monad (Outcome ε) where
  pure := .ok
  bind := bind

/-- Replace the failure of a callee by the caller's own report. -/
def orFail (x : Outcome ε α) (e : ε') : Outcome ε' α :=
  match x with
  | .stuck => .stuck
  | .fail _ => .fail e
  | .ok a => .ok a

/-- Run a callee whose failure the caller tolerates. -/
def attempt (x : Outcome ε α) : Outcome ε' (Option α) :=
  match x with
  | .stuck => .stuck
  | .fail _ => .ok none
  | .ok a => .ok (some a)

def toOption : Outcome ε α → Option α
  | .ok a => some a
  | _ => none

@[simp] theorem pure_eq (a : α) : (pure a : Outcome ε α) = .ok a := rfl

@[simp] theorem ok_bind (a : α) (f : α → Outcome ε β) : ((.ok a : Outcome ε α) >>= f) = f a := rfl

@[simp] theorem fail_bind (e : ε) (f : α → Outcome ε β) :
    ((.fail e : Outcome ε α) >>= f) = .fail e := rfl

@[simp] theorem stuck_bind (f : α → Outcome ε β) :
    ((.stuck : Outcome ε α) >>= f) = .stuck := rfl

/-- A sequence returns when both its parts do. -/
theorem bind_eq_ok {x : Outcome ε α} {f : α → Outcome ε β} {b : β} :
    (x >>= f) = .ok b ↔ ∃ a, x = .ok a ∧ f a = .ok b := by
  cases x with
  | stuck => simp
  | fail e => simp
  | ok a => simp

@[simp] theorem orFail_eq_ok {x : Outcome ε α} {e : ε'} {a : α} :
    x.orFail e = .ok a ↔ x = .ok a := by
  cases x <;> simp [orFail]

@[simp] theorem toOption_eq_some {x : Outcome ε α} {a : α} : x.toOption = some a ↔ x = .ok a := by
  cases x <;> simp [toOption]

/-- The call is not stuck, and its result, when it returns one, satisfies `P`. -/
def Sat (x : Outcome ε α) (P : α → Prop) : Prop :=
  match x with
  | .stuck => False
  | .fail _ => True
  | .ok a => P a

@[simp] theorem sat_ok (a : α) (P : α → Prop) : Sat (.ok a : Outcome ε α) P ↔ P a := Iff.rfl

@[simp] theorem sat_fail (e : ε) (P : α → Prop) : Sat (.fail e) P ↔ True := Iff.rfl

@[simp] theorem sat_stuck (P : α → Prop) : Sat (.stuck : Outcome ε α) P ↔ False := Iff.rfl

theorem Sat.mono {x : Outcome ε α} {P Q : α → Prop} (h : Sat x P) (hpq : ∀ a, P a → Q a) :
    Sat x Q := by
  cases x with
  | stuck => exact h
  | fail e => trivial
  | ok a => exact hpq a h

/-- Sequencing: the continuation may assume the postcondition of what ran before it. -/
theorem Sat.bind {x : Outcome ε α} {f : α → Outcome ε β} {P : α → Prop} {Q : β → Prop}
    (hx : Sat x P) (hf : ∀ a, P a → Sat (f a) Q) : Sat (x >>= f) Q := by
  cases x with
  | stuck => exact hx
  | fail e => trivial
  | ok a => exact hf a hx

theorem Sat.orFail {x : Outcome ε α} {P : α → Prop} (h : Sat x P) (e : ε') :
    Sat (x.orFail e) P := by
  cases x with
  | stuck => exact h
  | fail e => trivial
  | ok a => exact h

theorem Sat.attempt {x : Outcome ε α} {P : α → Prop} (h : Sat x P) :
    Sat (x.attempt : Outcome ε' (Option α)) (fun o => ∀ a, o = some a → x = .ok a ∧ P a) := by
  cases x with
  | stuck => exact h
  | fail e => intro a ha; cases ha
  | ok b => rintro a ⟨⟩; exact ⟨rfl, h⟩

/-- Branching with early failure, the shape `if (bad) return 0;`. -/
theorem Sat.guard {c : Prop} [Decidable c] {e : ε} {x : Outcome ε α} {P : α → Prop}
    (h : ¬ c → Sat x P) : Sat (if c then .fail e else x) P := by
  by_cases hc : c
  · rw [if_pos hc]; trivial
  · rw [if_neg hc]; exact h hc

theorem Sat.ite {c : Prop} [Decidable c] {x y : Outcome ε α} {P : α → Prop}
    (hx : c → Sat x P) (hy : ¬ c → Sat y P) : Sat (if c then x else y) P := by
  by_cases hc : c
  · rw [if_pos hc]; exact hx hc
  · rw [if_neg hc]; exact hy hc

/-- What a specification says about an actual result. -/
theorem Sat.of_eq_ok {x : Outcome ε α} {P : α → Prop} {a : α} (h : Sat x P) (he : x = .ok a) :
    P a := by
  rw [he] at h
  exact h

theorem Sat.not_stuck {x : Outcome ε α} {P : α → Prop} (h : Sat x P) : x ≠ .stuck := by
  intro heq
  subst heq
  exact h

end Outcome
end DnsRelay.Foundation
