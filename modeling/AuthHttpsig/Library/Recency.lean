/-
This file develops logs of uses and the values that were used last. The newest use stands first.
-/

import Mathlib.Data.List.Nodup
import Mathlib.Data.List.Perm.Basic
import Mathlib.Tactic

namespace AuthHttpsig.Recency

variable {α : Type*} [DecidableEq α]

/-- The distinct values of the log stand in the order of their last use. -/
def recent : List α → List α
  | [] => []
  | value :: earlier => value :: (recent earlier).erase value

/-- Only so many values are kept. -/
def newest (bound : Nat) (log : List α) : List α := (recent log).take bound

/-- The last use of a value is counted from the first use of the log. -/
def stamp : List α → α → Nat
  | [], _ => 0
  | value :: earlier, sought => if value = sought then earlier.length + 1 else stamp earlier sought

variable {log : List α} {value other : α} {bound : Nat}

/-- No value is twice among the recent ones. -/
theorem recent_nodup (log : List α) : (recent log).Nodup := by
  induction log with
  | nil => exact .nil
  | cons value earlier ih =>
      refine List.nodup_cons.mpr ⟨?_, ih.erase value⟩
      exact ih.not_mem_erase

theorem newest_nodup (bound : Nat) (log : List α) : (newest bound log).Nodup :=
  (recent_nodup log).sublist (List.take_sublist ..)

/-- At most the bound are kept. -/
theorem newest_length_le (bound : Nat) (log : List α) : (newest bound log).length ≤ bound :=
  List.length_take_le ..

/-- A value just used is kept. -/
theorem mem_newest_cons_self (bound : Nat) (value : α) (log : List α) :
    value ∈ newest (bound + 1) (value :: log) := by
  rw [newest, recent, List.take_succ_cons]
  exact List.mem_cons_self

theorem stamp_cons_self (value : α) (log : List α) : stamp (value :: log) value = log.length + 1 :=
  if_pos rfl

/-- Using another value leaves the stamp. -/
theorem stamp_cons_of_ne (different : value ≠ other) : stamp (value :: log) other = stamp log other :=
  if_neg different

/-- No stamp is above the number of uses. -/
theorem stamp_le (log : List α) (value : α) : stamp log value ≤ log.length := by
  induction log with
  | nil => exact le_refl _
  | cons used earlier ih =>
      rw [stamp, List.length_cons]
      split
      · exact le_refl _
      · omega

/-- The kept values stand in the order of their last use. -/
theorem newest_pairwise (bound : Nat) (log : List α) :
    (newest bound log).Pairwise fun newer older => stamp log older < stamp log newer := by
  refine List.Pairwise.sublist (List.take_sublist ..) ?_
  induction log with
  | nil => exact .nil
  | cons used earlier ih =>
      have apart : ∀ older ∈ (recent earlier).erase used, used ≠ older := by
        rintro older present rfl
        exact (recent_nodup earlier).not_mem_erase present
      refine List.pairwise_cons.mpr ⟨?_, ?_⟩
      · intro older present
        rw [stamp_cons_self, stamp_cons_of_ne (apart older present)]
        exact Nat.lt_succ_of_le (stamp_le earlier older)
      · refine List.Pairwise.imp_of_mem ?_ (ih.sublist List.erase_sublist)
        intro newer older newerIn olderIn before
        rw [stamp_cons_of_ne (apart newer newerIn), stamp_cons_of_ne (apart older olderIn)]
        exact before

/-- A new use of a kept value moves it to the front. -/
theorem newest_cons_of_mem (kept : value ∈ newest (bound + 1) log) :
    newest (bound + 1) (value :: log) = value :: (newest (bound + 1) log).erase value := by
  have shorter : ((newest (bound + 1) log).erase value).length = (newest (bound + 1) log).length - 1 :=
    List.length_erase_of_mem kept
  rw [newest] at kept shorter
  rw [newest, recent, List.take_succ_cons, newest]
  conv_lhs => rw [← List.take_append_drop (bound + 1) (recent log), List.erase_append_left _ kept]
  rw [List.length_take] at shorter
  rcases Nat.lt_or_ge bound (recent log).length with enough | less
  · rw [List.take_left' (by omega)]
  · rw [List.drop_of_length_le (by omega), List.append_nil, List.take_of_length_le (by omega)]

/-- A new use of a kept value keeps the same values. -/
theorem mem_newest_cons_of_mem (kept : value ∈ newest bound log) :
    other ∈ newest bound (value :: log) ↔ other ∈ newest bound log := by
  cases bound with
  | zero => simp [newest] at kept
  | succ bound =>
      rw [newest_cons_of_mem kept, List.mem_cons, (newest_nodup (bound + 1) log).mem_erase_iff]
      constructor
      · rintro (rfl | ⟨_, present⟩)
        · exact kept
        · exact present
      · intro present
        by_cases same : other = value
        · exact .inl same
        · exact .inr ⟨same, present⟩

/-- A use of another value leaves one place less for the values before. -/
theorem newest_cons_of_not_mem (fresh : value ∉ newest (bound + 1) log) :
    newest (bound + 1) (value :: log) = value :: newest bound log := by
  have shorter : newest bound log = (newest (bound + 1) log).take bound := by
    rw [newest, newest, List.take_take, Nat.min_eq_left (Nat.le_succ bound)]
  have absent : value ∉ (recent log).take bound := by
    intro present
    rw [← newest, shorter] at present
    exact fresh (List.mem_of_mem_take present)
  rw [newest, recent, List.take_succ_cons, newest]
  conv_lhs => rw [← List.take_append_drop bound (recent log), List.erase_append_right _ absent]
  rcases Nat.lt_or_ge (recent log).length bound with less | enough
  · rw [List.drop_of_length_le (by omega), List.erase_nil, List.append_nil, List.take_take, Nat.min_self]
  · rw [List.take_left' (by rw [List.length_take]; omega)]

/-- While there is room, a new value drops no value. -/
theorem mem_newest_cons_of_room (fresh : value ∉ newest bound log) (room : (newest bound log).length < bound) :
    other ∈ newest bound (value :: log) ↔ other = value ∨ other ∈ newest bound log := by
  cases bound with
  | zero => cases room
  | succ bound =>
      have whole : newest bound log = newest (bound + 1) log := by
        rw [newest, List.length_take] at room
        rw [newest, newest, List.take_of_length_le (by omega), List.take_of_length_le (by omega)]
      rw [newest_cons_of_not_mem fresh, whole, List.mem_cons]

/-- Without room, a new value drops the value that was used first. -/
theorem mem_newest_cons_of_full {oldest : α} (fresh : value ∉ newest bound log)
    (full : (newest bound log).length = bound) (present : oldest ∈ newest bound log)
    (least : ∀ kept ∈ newest bound log, stamp log oldest ≤ stamp log kept) :
    other ∈ newest bound (value :: log) ↔ other = value ∨ other ∈ newest bound log ∧ other ≠ oldest := by
  cases bound with
  | zero => simp [newest] at present
  | succ bound =>
      have long : bound < (recent log).length := by
        rw [newest, List.length_take] at full
        omega
      have ending : newest (bound + 1) log = newest bound log ++ [(recent log)[bound]] :=
        List.take_succ_eq_append_getElem long
      have order := newest_pairwise (bound + 1) log
      rw [ending, List.pairwise_append] at order
      obtain ⟨_, _, before⟩ := order
      have last : oldest = (recent log)[bound] := by
        rw [ending] at present
        rcases List.mem_append.mp present with early | late
        · have later := before oldest early _ (List.mem_singleton_self _)
          have bounded := least (recent log)[bound] (by rw [ending]; simp)
          omega
        · exact List.mem_singleton.mp late
      have distinct := newest_nodup (bound + 1) log
      rw [ending, List.nodup_append] at distinct
      rw [newest_cons_of_not_mem fresh, List.mem_cons, ending, List.mem_append, List.mem_singleton, last]
      constructor
      · rintro (same | early)
        · exact .inl same
        · exact .inr ⟨.inl early, distinct.2.2 other early _ (List.mem_singleton_self _)⟩
      · rintro (same | ⟨early | late, different⟩)
        · exact .inl same
        · exact .inr early
        · exact absurd late different

end AuthHttpsig.Recency
