import Mathlib

/-!
# Runs of a state machine

A state machine is a function `next` from an event and a state to the next state.
`Run.Always` says that a property of the event and the state before it holds at every
step of a run.

## Key results

- `Always.invariant`: what the steps preserve holds at the end
- `Always.imp`: a property of the steps follows from another one and an invariant
- `not_fault_iff`: the steps that bring about a fault that lasts
- `always_iff`: the steps of a run, by the events before them
-/

namespace Run

variable {ε σ : Type*} {next : ε → σ → σ}

/-- The state at the end of a run. -/
def state (next : ε → σ → σ) (events : List ε) (s : σ) : σ := events.foldl (fun s e => next e s) s

@[simp] theorem state_nil (s : σ) : state next [] s = s := rfl

@[simp] theorem state_cons (e : ε) (events : List ε) (s : σ) :
    state next (e :: events) s = state next events (next e s) := rfl

theorem state_append (before after : List ε) (s : σ) :
    state next (before ++ after) s = state next after (state next before s) :=
  List.foldl_append

/-- The property holds at every step of the run. -/
def Always (next : ε → σ → σ) (p : ε → σ → Prop) : List ε → σ → Prop
  | [], _ => True
  | e :: events, s => p e s ∧ Always next p events (next e s)

instance decidableAlways (next : ε → σ → σ) (p : ε → σ → Prop) [∀ e s, Decidable (p e s)] :
    ∀ (events : List ε) (s : σ), Decidable (Always next p events s)
  | [], _ => inferInstanceAs (Decidable True)
  | e :: events, s =>
    have := decidableAlways next p events (next e s)
    inferInstanceAs (Decidable (p e s ∧ Always next p events (next e s)))

variable {p q : ε → σ → Prop} {I : σ → Prop} {events : List ε} {s : σ}

/-- A property that every step with `p` preserves holds at the end of the run. -/
theorem Always.invariant (h : Always next p events s) (hI : I s)
    (hstep : ∀ e s, I s → p e s → I (next e s)) : I (state next events s) := by
  induction events generalizing s with
  | nil => exact hI
  | cons e events ih => exact ih h.2 (hstep e s hI h.1)

/-- Where the invariant holds and `p` gives `q`, a run with `p` is one with `q`. -/
theorem Always.imp (h : Always next p events s) (hI : I s)
    (hstep : ∀ e s, I s → p e s → I (next e s)) (hq : ∀ e s, I s → p e s → q e s) :
    Always next q events s := by
  induction events generalizing s with
  | nil => trivial
  | cons e events ih => exact ⟨hq e s hI h.1, ih h.2 (hstep e s hI h.1)⟩

/-- What every step preserves holds at the end. -/
theorem state_invariant (hI : I s) (hstep : ∀ e s, I s → I (next e s)) :
    I (state next events s) := by
  induction events generalizing s with
  | nil => exact hI
  | cons e events ih => exact ih (hstep e s hI)

/-- A fault that no step repairs and only steps with `q` bring about: it is there at the
    end unless it was not there before and no step has `q`. -/
theorem not_fault_iff {fault : σ → Prop} (hI : I s) (hstep : ∀ e s, I s → I (next e s))
    (hfault : ∀ e s, I s → (fault (next e s) ↔ fault s ∨ q e s)) :
    ¬fault (state next events s) ↔ ¬fault s ∧ Always next (fun e s => ¬q e s) events s := by
  induction events generalizing s with
  | nil => simp [Always]
  | cons e events ih =>
    rw [state_cons, ih (hstep e s hI), hfault e s hI, not_or, and_assoc, Always]

/-- The property holds of each event and the state that the events before it lead to. -/
theorem always_iff : Always next p events s ↔
    ∀ before e after, events = before ++ e :: after → p e (state next before s) := by
  induction events generalizing s with
  | nil => simp [Always]
  | cons e events ih =>
    rw [Always, ih]
    constructor
    · intro h before e' after heq
      cases before with
      | nil =>
        obtain ⟨rfl, -⟩ := List.cons_eq_cons.mp heq
        exact h.1
      | cons e'' before =>
        obtain ⟨rfl, rfl⟩ := List.cons_eq_cons.mp heq
        exact h.2 before e' after rfl
    · intro h
      constructor
      · exact h [] e events rfl
      · intro before e' after heq
        exact h (e :: before) e' after (by rw [heq, List.cons_append])

end Run
