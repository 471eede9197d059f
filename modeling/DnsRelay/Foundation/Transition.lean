import Mathlib.Logic.Basic

/-!
# Deterministic systems

A step function takes a state and an input to the next state and an output. Two
systems related by a simulation give the same outputs on the same inputs; the
relation may speak about the inputs still to come, so that conditions on a whole
input sequence (times that do not decrease, a bound on its length) fit in.
-/
namespace DnsRelay.Foundation

variable {σ τ ι ο : Type}

/-- The outputs along a sequence of inputs. -/
def outputs (step : σ → ι → σ × ο) : σ → List ι → List ο
  | _, [] => []
  | s, i :: rest => (step s i).2 :: outputs step (step s i).1 rest

/-- The state after a sequence of inputs. -/
def after (step : σ → ι → σ × ο) (s : σ) (inputs : List ι) : σ :=
  inputs.foldl (fun s i => (step s i).1) s

theorem outputs_eq_of_simulation {step : σ → ι → σ × ο} {step' : τ → ι → τ × ο}
    {R : σ → τ → List ι → Prop}
    (hstep : ∀ s t i rest, R s t (i :: rest) →
      (step s i).2 = (step' t i).2 ∧ R (step s i).1 (step' t i).1 rest) :
    ∀ inputs s t, R s t inputs → outputs step s inputs = outputs step' t inputs := by
  intro inputs
  induction inputs with
  | nil => intro s t _; rfl
  | cons i rest ih =>
    intro s t h
    obtain ⟨hout, hnext⟩ := hstep s t i rest h
    rw [outputs, outputs, hout, ih _ _ hnext]

/-- The inputs with their outputs. -/
def trace (step : σ → ι → σ × ο) (s : σ) (inputs : List ι) : List (ι × ο) :=
  inputs.zip (outputs step s inputs)

/-- Every output is that of a step from a state with the invariant. -/
theorem exists_state_of_mem_trace {step : σ → ι → σ × ο} {P : σ → Prop}
    (hinv : ∀ s i, P s → P (step s i).1) :
    ∀ inputs s, P s → ∀ io ∈ trace step s inputs, ∃ s', P s' ∧ io.2 = (step s' io.1).2 := by
  intro inputs
  induction inputs with
  | nil => exact fun s _ io hio => by cases hio
  | cons i rest ih =>
    intro s hs io hio
    rcases List.mem_cons.mp hio with rfl | hio
    · exact ⟨s, hs, rfl⟩
    · exact ih _ (hinv s i hs) io hio

/-- Inputs that leave the state as it is can be left out, and the others keep their outputs. -/
theorem trace_filter {step : σ → ι → σ × ο} {P : σ → Prop} (keep : ι → Bool)
    (hinv : ∀ s i, P s → P (step s i).1) (hidle : ∀ s i, P s → keep i = false → (step s i).1 = s) :
    ∀ inputs s, P s →
      (trace step s inputs).filter (fun io => keep io.1) = trace step s (inputs.filter keep) ∧
        after step s inputs = after step s (inputs.filter keep) := by
  intro inputs
  induction inputs with
  | nil => exact fun s _ => ⟨rfl, rfl⟩
  | cons i rest ih =>
    intro s hs
    obtain ⟨htrace, hafter⟩ := ih (step s i).1 (hinv s i hs)
    have hcons : trace step s (i :: rest) = (i, (step s i).2) :: trace step (step s i).1 rest := rfl
    cases hkeep : keep i with
    | false =>
      have hsame := hidle s i hs hkeep
      rw [hsame] at htrace hafter
      rw [hcons, List.filter_cons_of_neg (by simp [hkeep]), List.filter_cons_of_neg (by simp [hkeep]),
        hsame]
      refine ⟨htrace, ?_⟩
      rw [← hafter, after, List.foldl_cons, hsame]
      rfl
    | true =>
      rw [hcons, List.filter_cons_of_pos (by simp [hkeep]), List.filter_cons_of_pos (by simp [hkeep]),
        htrace]
      exact ⟨rfl, hafter⟩

section Run

variable (step : σ → ι → σ × ο) (start : σ) (inputs : Nat → ι)

/-- The state in front of input `n`. -/
def stateAt : Nat → σ
  | 0 => start
  | n + 1 => (step (stateAt n) (inputs n)).1

/-- The output on input `n`. -/
def outputAt (n : Nat) : ο := (step (stateAt step start inputs n) (inputs n)).2

end Run

theorem stateAt_invariant {step : σ → ι → σ × ο} {start : σ} {P : σ → Prop}
    (hstep : ∀ s i, P s → P (step s i).1) (h : P start) (inputs : Nat → ι) (n : Nat) :
    P (stateAt step start inputs n) := by
  induction n with
  | zero => exact h
  | succ n ih => exact hstep _ _ ih

end DnsRelay.Foundation
