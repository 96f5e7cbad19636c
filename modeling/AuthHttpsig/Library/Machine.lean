/-
This file develops machines that take enabled actions, their runs and their invariants.
-/

import Mathlib.Logic.Basic

namespace AuthHttpsig

/-- A machine starts in some states, and each enabled action takes one step. -/
structure Machine (σ α : Type) where
  start : σ → Prop
  enabled : σ → α → Prop
  step : σ → α → σ

namespace Machine

variable {σ α : Type} {machine : Machine σ α} {state : σ}

/-- The actions come in any order. -/
inductive Reaches (machine : Machine σ α) : σ → Prop
  | start {state : σ} (starts : machine.start state) : Reaches machine state
  | step {state : σ} (action : α) (before : Reaches machine state)
      (enabled : machine.enabled state action) : Reaches machine (machine.step state action)

/-- What holds at the start and through every step holds of every reachable state. -/
theorem Reaches.invariant {Holds : σ → Prop} (reaches : machine.Reaches state)
    (starts : ∀ first, machine.start first → Holds first)
    (steps : ∀ before action, Holds before → machine.enabled before action →
      Holds (machine.step before action)) : Holds state := by
  induction reaches with
  | start started => exact starts _ started
  | step action _ enabled ih => exact steps _ action ih enabled

/-- The machine takes only actions that also meet the condition. -/
def restrict (machine : Machine σ α) (condition : σ → α → Prop) : Machine σ α where
  start := machine.start
  enabled before action := machine.enabled before action ∧ condition before action
  step := machine.step

instance (machine : Machine σ α) (condition : σ → α → Prop) (state : σ)
    [DecidablePred (machine.enabled state)] [DecidablePred (condition state)] :
    DecidablePred ((machine.restrict condition).enabled state) :=
  fun _ => inferInstanceAs (Decidable (_ ∧ _))

def run (machine : Machine σ α) (state : σ) (actions : List α) : σ := actions.foldl machine.step state

/-- Every action is enabled when it is taken. -/
def Follows (machine : Machine σ α) : σ → List α → Prop
  | _, [] => True
  | state, action :: rest => machine.enabled state action ∧ machine.Follows (machine.step state action) rest

instance decidableFollows (machine : Machine σ α) [∀ state, DecidablePred (machine.enabled state)]
    (state : σ) (actions : List α) : Decidable (machine.Follows state actions) :=
  match actions with
  | [] => inferInstanceAs (Decidable True)
  | action :: rest =>
      have := decidableFollows machine (machine.step state action) rest
      inferInstanceAs (Decidable (_ ∧ _))

/-- A run of enabled actions leads to a reached state. -/
theorem Reaches.run {actions : List α} (before : machine.Reaches state)
    (follows : machine.Follows state actions) : machine.Reaches (machine.run state actions) := by
  induction actions generalizing state with
  | nil => exact before
  | cons action rest ih =>
      obtain ⟨enabled, further⟩ := follows
      exact ih (before.step action enabled) further

end Machine
end AuthHttpsig
