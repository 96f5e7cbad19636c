/-
This file shows that lines which end with one element determine their joined text.
-/

import Mathlib.Tactic

namespace AuthHttpsig.Lines

variable {α : Type*} {stop : α}

/-- Each line ends with the stop, and the last one has none. -/
def joinLines (stop : α) (lines : List (List α)) (last : List α) : List α :=
  lines.foldr (fun line rest => line ++ stop :: rest) last

@[simp] theorem joinLines_nil (last : List α) : joinLines stop [] last = last := rfl

@[simp] theorem joinLines_cons (line : List α) (lines : List (List α)) (last : List α) :
    joinLines stop (line :: lines) last = line ++ stop :: joinLines stop lines last := rfl

/-- A text without the stop is no line followed by the stop. -/
theorem ne_line {text line rest : List α} (free : stop ∉ text) : text ≠ line ++ stop :: rest := by
  rintro rfl
  simp at free

/-- A line without the stop is recovered from the text that starts with it. -/
theorem line_injective {line other rest otherRest : List α} (free : stop ∉ line)
    (otherFree : stop ∉ other) (same : line ++ stop :: rest = other ++ stop :: otherRest) :
    line = other ∧ rest = otherRest := by
  induction line generalizing other with
  | nil =>
      cases other with
      | nil => exact ⟨rfl, (List.cons.inj same).2⟩
      | cons a other =>
          obtain ⟨rfl, _⟩ := List.cons.inj same
          exact absurd List.mem_cons_self otherFree
  | cons a line ih =>
      cases other with
      | nil =>
          obtain ⟨rfl, _⟩ := List.cons.inj same
          exact absurd List.mem_cons_self free
      | cons b other =>
          simp only [List.cons_append, List.cons.injEq] at same
          obtain ⟨rfl, tail⟩ := same
          obtain ⟨rfl, ends⟩ := ih (fun member => free (by simp [member]))
            (fun member => otherFree (by simp [member])) tail
          exact ⟨rfl, ends⟩

/-- The joined text determines the lines and the last line when none of them holds the stop. -/
theorem joinLines_injective {lines others : List (List α)} {last otherLast : List α}
    (free : ∀ line ∈ lines, stop ∉ line) (lastFree : stop ∉ last)
    (otherFree : ∀ line ∈ others, stop ∉ line) (otherLastFree : stop ∉ otherLast)
    (same : joinLines stop lines last = joinLines stop others otherLast) :
    lines = others ∧ last = otherLast := by
  induction lines generalizing others with
  | nil =>
      cases others with
      | nil => exact ⟨rfl, same⟩
      | cons other others => exact absurd same (ne_line lastFree)
  | cons line lines ih =>
      cases others with
      | nil => exact absurd same.symm (ne_line otherLastFree)
      | cons other others =>
          obtain ⟨rfl, rest⟩ := line_injective (free line (by simp)) (otherFree other (by simp)) same
          obtain ⟨rfl, ends⟩ := ih (fun line member => free line (by simp [member]))
            (fun line member => otherFree line (by simp [member])) rest
          exact ⟨rfl, ends⟩

end AuthHttpsig.Lines
