/-
This file gives the inversion rules of fallible computations and of greedy scans.
-/

import Mathlib.Tactic

namespace AuthHttpsig

section Except

variable {ε α β : Type}

/-- Two steps succeed when the first does and the second does on its value. -/
theorem bind_eq_ok {first : Except ε α} {next : α → Except ε β} {result : β} :
    (first >>= next) = .ok result ↔ ∃ value, first = .ok value ∧ next value = .ok result := by
  cases first with
  | error failure => simp [bind, Except.bind]
  | ok value => simp [bind, Except.bind]

/-- Every failure of the computation is an allowed one. -/
def Fails (allowed : ε → Prop) : Except ε α → Prop
  | .error failure => allowed failure
  | .ok _ => True

/-- The failures of a sequence are those of its steps. -/
theorem Fails.bind {allowed : ε → Prop} {first : Except ε α} {next : α → Except ε β}
    (step : Fails allowed first) (rest : ∀ value, Fails allowed (next value)) :
    Fails allowed (first >>= next) := by
  cases first with
  | error failure => exact step
  | ok value => exact rest value

/-- What a failure may be can be widened. -/
theorem Fails.imp {allowed other : ε → Prop} {result : Except ε α} (fails : Fails allowed result)
    (weaker : ∀ failure, allowed failure → other failure) : Fails other result := by
  cases result with
  | error failure => exact weaker failure fails
  | ok value => trivial

/-- A failure is one of the allowed ones. -/
theorem Fails.of_eq {allowed : ε → Prop} {result : Except ε α} {failure : ε}
    (fails : Fails allowed result) (failed : result = .error failure) : allowed failure := by
  subst failed
  exact fails

@[simp] theorem ok_bind {value : α} {next : α → Except ε β} :
    ((.ok value : Except ε α) >>= next) = next value := rfl

theorem pure_eq_ok {value result : α} :
    (pure value : Except ε α) = .ok result ↔ value = result := by
  simp [pure, Except.pure]

theorem exists_eq_ok {result : Except ε α} : (∃ value, result = .ok value) ↔ result.toBool = true := by
  cases result <;> simp [Except.toBool]

/-- A guard passes when its condition fails and the rest succeeds. -/
theorem if_error_eq_ok {condition : Prop} [Decidable condition] {failure : ε}
    {other : Except ε α} {result : α} :
    (if condition then .error failure else other) = .ok result ↔
      ¬ condition ∧ other = .ok result := by
  by_cases holds : condition <;> simp [holds]

/-- A guard passes when its condition holds and the rest succeeds. -/
theorem else_error_eq_ok {condition : Prop} [Decidable condition] {failure : ε}
    {other : Except ε α} {result : α} :
    (if condition then other else .error failure) = .ok result ↔
      condition ∧ other = .ok result := by
  by_cases holds : condition <;> simp [holds]

/-- A computation is the whole one, unless this cause cuts it short with a failure. -/
def Cut (cause : Prop) (failure : ε) (short whole : Except ε α) : Prop :=
  short = whole ∨ cause ∧ short = .error failure

theorem Cut.refl (cause : Prop) (failure : ε) (whole : Except ε α) : Cut cause failure whole whole := .inl rfl

/-- A sequence is cut short where one of its steps is. -/
theorem Cut.bind {cause : Prop} {failure : ε} {short whole : Except ε α} {next other : α → Except ε β}
    (step : Cut cause failure short whole)
    (rest : ∀ value, whole = .ok value → Cut cause failure (next value) (other value)) :
    Cut cause failure (short >>= next) (whole >>= other) := by
  rcases step with rfl | ⟨holds, rfl⟩
  · cases short with
    | error _ => exact .inl rfl
    | ok value => exact rest value rfl
  · exact .inr ⟨holds, rfl⟩

end Except

section Scan

variable {α : Type*} {p : α → Bool} {taken rest : List α}

/-- A greedy scan stops exactly where the next element fails its test. -/
theorem takeWhile_append_stop (inside : ∀ a ∈ taken, p a = true)
    (stop : ∀ a ∈ rest.head?, p a = false) : (taken ++ rest).takeWhile p = taken := by
  rw [List.takeWhile_append_of_pos inside]
  cases rest with
  | nil => simp
  | cons a rest => simp [stop a rfl]

theorem dropWhile_append_stop (inside : ∀ a ∈ taken, p a = true)
    (stop : ∀ a ∈ rest.head?, p a = false) : (taken ++ rest).dropWhile p = rest := by
  rw [List.dropWhile_append_of_pos inside]
  cases rest with
  | nil => simp
  | cons a rest => simp [stop a rfl]

end Scan
end AuthHttpsig
