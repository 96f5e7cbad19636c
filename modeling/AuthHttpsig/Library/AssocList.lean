/-
This file develops ordered association lists whose repeated keys keep their first place
and their last value.
-/

import Mathlib.Data.List.Dedup
import Mathlib.Tactic

namespace AuthHttpsig.AssocList

variable {κ ν : Type*} [DecidableEq κ]

/-- The update replaces the value of a present key in place and appends an absent one. -/
def upsert : List (κ × ν) → κ → ν → List (κ × ν)
  | [], key, value => [(key, value)]
  | entry :: rest, key, value =>
      if entry.1 = key then (entry.1, value) :: rest else entry :: upsert rest key value

/-- The reader folds its pairs into one association list. -/
def collect (pairs : List (κ × ν)) : List (κ × ν) :=
  pairs.foldl (fun entries pair => upsert entries pair.1 pair.2) []

/-- The distinct keys stand in the order of their first occurrence. -/
def firstKeys (pairs : List (κ × ν)) : List κ :=
  (pairs.map Prod.fst).reverse.dedup.reverse

/-- The value of a key is the one of its last occurrence. -/
def lastValue (pairs : List (κ × ν)) (key : κ) : Option ν :=
  pairs.reverse.lookup key

/-- Each distinct key has its first place and its last value. -/
def lastWins (pairs : List (κ × ν)) : List (κ × ν) :=
  (firstKeys pairs).filterMap fun key => (lastValue pairs key).map fun value => (key, value)

theorem lookup_cons (entry : κ × ν) (rest : List (κ × ν)) (key : κ) :
    (entry :: rest).lookup key = if key = entry.1 then some entry.2 else rest.lookup key := by
  rw [List.lookup_cons]
  by_cases same : key = entry.1
  · simp [same]
  · simp [same, beq_eq_false_iff_ne.mpr same]

theorem mem_of_lookup {κ : Type*} [BEq κ] [LawfulBEq κ] {pairs : List (κ × ν)} {key : κ} {value : ν}
    (found : pairs.lookup key = some value) : (key, value) ∈ pairs := by
  obtain ⟨before, after, rfl, _⟩ := List.lookup_eq_some_iff.mp found
  simp

/-- An upsert adds its key at the end where it is new. -/
theorem upsert_keys (entries : List (κ × ν)) (key : κ) (value : ν) :
    (upsert entries key value).map Prod.fst =
      if key ∈ entries.map Prod.fst then entries.map Prod.fst
      else entries.map Prod.fst ++ [key] := by
  induction entries with
  | nil => simp [upsert]
  | cons entry rest ih =>
      by_cases same : entry.1 = key
      · simp [upsert, same]
      · have different : key ≠ entry.1 := fun eq => same eq.symm
        simp only [upsert, same, if_false, List.map_cons, ih, List.mem_cons, different, false_or]
        split <;> simp

/-- After an upsert the key has the new value and the others their old ones. -/
theorem upsert_lookup (entries : List (κ × ν)) (key other : κ) (value : ν) :
    (upsert entries key value).lookup other =
      if other = key then some value else entries.lookup other := by
  induction entries with
  | nil => simp [upsert, lookup_cons]
  | cons entry rest ih =>
      by_cases same : entry.1 = key
      · by_cases other_same : other = key <;> simp [upsert, same, lookup_cons, other_same]
      · by_cases other_same : other = entry.1
        · simp [upsert, same, lookup_cons, other_same]
        · simp [upsert, same, lookup_cons, other_same, ih]

theorem upsert_length_le (entries : List (κ × ν)) (key : κ) (value : ν) :
    entries.length ≤ (upsert entries key value).length := by
  have keys := congrArg List.length (upsert_keys entries key value)
  split at keys <;> simp only [List.length_map, List.length_append] at keys <;> omega

theorem collect_append (pairs : List (κ × ν)) (pair : κ × ν) :
    collect (pairs ++ [pair]) = upsert (collect pairs) pair.1 pair.2 := by
  simp [collect, List.foldl_append]

/-- The collected keys are those of the pairs, each at its first place. -/
theorem collect_keys (pairs : List (κ × ν)) :
    (collect pairs).map Prod.fst = firstKeys pairs := by
  induction pairs using List.reverseRecOn with
  | nil => rfl
  | append_singleton pairs pair ih =>
      rw [collect_append, upsert_keys, ih]
      have member : pair.1 ∈ firstKeys pairs ↔ pair.1 ∈ (pairs.map Prod.fst).reverse := by
        simp [firstKeys]
      by_cases old : pair.1 ∈ firstKeys pairs
      · rw [if_pos old]
        simp [firstKeys, List.dedup_cons_of_mem (member.mp old)]
      · have fresh : pair.1 ∉ (pairs.map Prod.fst).reverse := fun inside => old (member.mpr inside)
        rw [if_neg old]
        simp [firstKeys, List.dedup_cons_of_notMem fresh]

/-- A collected key has the last of its values. -/
theorem collect_lookup (pairs : List (κ × ν)) (key : κ) :
    (collect pairs).lookup key = lastValue pairs key := by
  induction pairs using List.reverseRecOn with
  | nil => rfl
  | append_singleton pairs pair ih =>
      rw [collect_append, upsert_lookup, ih]
      by_cases same : key = pair.1
      · simp [lastValue, lookup_cons, same]
      · simp [lastValue, lookup_cons, same]

/-- No key is collected twice. -/
theorem collect_nodup (pairs : List (κ × ν)) : ((collect pairs).map Prod.fst).Nodup := by
  rw [collect_keys, firstKeys, List.nodup_reverse]
  exact List.nodup_dedup _

/-- The last values stand among the pairs. -/
theorem mem_lastWins {pairs : List (κ × ν)} {pair : κ × ν} (member : pair ∈ lastWins pairs) :
    pair ∈ pairs := by
  obtain ⟨key, _, found⟩ := List.mem_filterMap.mp member
  obtain ⟨value, last, rfl⟩ := Option.map_eq_some_iff.mp found
  exact List.mem_reverse.mp (mem_of_lookup last)

/-- Where no key is repeated, every pair is found under its key. -/
theorem lookup_of_mem {κ : Type*} [BEq κ] [LawfulBEq κ] {entries : List (κ × ν)}
    (distinct : (entries.map Prod.fst).Nodup) {key : κ} {value : ν} (member : (key, value) ∈ entries) :
    entries.lookup key = some value := by
  obtain ⟨before, after, rfl⟩ := List.append_of_mem member
  rw [List.map_append, List.map_cons] at distinct
  have fresh := (List.nodup_cons.mp (List.nodup_middle.mp distinct)).1
  apply List.lookup_eq_some_iff.mpr
  refine ⟨before, after, rfl, ?_⟩
  intro entry present
  rw [bne_iff_ne]
  exact fun same => fresh (List.mem_append_left _ (List.mem_map.mpr ⟨entry, present, same.symm⟩))

/-- The values of the second list win. -/
theorem lastValue_append (first second : List (κ × ν)) (key : κ) :
    lastValue (first ++ second) key = (lastValue second key).or (lastValue first key) := by
  rw [lastValue, List.reverse_append, List.lookup_append]
  rfl

/-- An association list without repeated keys is fixed by its keys and its lookups. -/
theorem eq_filterMap_lookup (entries : List (κ × ν)) (distinct : (entries.map Prod.fst).Nodup) :
    entries = (entries.map Prod.fst).filterMap fun key =>
      (entries.lookup key).map fun value => (key, value) := by
  induction entries with
  | nil => rfl
  | cons entry rest ih =>
      obtain ⟨key, value⟩ := entry
      rw [List.map_cons, List.nodup_cons] at distinct
      have tail : (rest.map Prod.fst).filterMap
          (fun other => (List.lookup other ((key, value) :: rest)).map fun found => (other, found)) =
          rest := by
        conv_rhs => rw [ih distinct.2]
        apply List.filterMap_congr
        intro other member
        have different : other ≠ key := fun eq => distinct.1 (eq ▸ member)
        simp [lookup_cons, different]
      simp [tail]

/-- The fold of the updates gives each key its first place and its last value. -/
theorem collect_eq_lastWins (pairs : List (κ × ν)) : collect pairs = lastWins pairs := by
  have fixed := eq_filterMap_lookup (collect pairs) (collect_nodup pairs)
  rw [collect_keys] at fixed
  rw [fixed]
  apply List.filterMap_congr
  intro key _
  rw [collect_lookup]

/-- No key is left twice. -/
theorem lastWins_nodup (pairs : List (κ × ν)) : ((lastWins pairs).map Prod.fst).Nodup := by
  rw [← collect_eq_lastWins]
  exact collect_nodup pairs

/-- A key is left with the last of its values. -/
theorem lastWins_lookup (pairs : List (κ × ν)) (key : κ) : (lastWins pairs).lookup key = lastValue pairs key := by
  rw [← collect_eq_lastWins, collect_lookup]

theorem foldl_upsert_length_le (entries pairs : List (κ × ν)) :
    entries.length ≤
      (pairs.foldl (fun entries pair => upsert entries pair.1 pair.2) entries).length := by
  induction pairs generalizing entries with
  | nil => exact Nat.le_refl _
  | cons pair rest ih => exact (upsert_length_le entries pair.1 pair.2).trans (ih _)

/-- Distinct pairs are their own collection. -/
theorem collect_of_nodup (pairs : List (κ × ν)) (distinct : (pairs.map Prod.fst).Nodup) :
    collect pairs = pairs := by
  have keys : firstKeys pairs = pairs.map Prod.fst := by
    rw [firstKeys, List.dedup_eq_self.mpr (List.nodup_reverse.mpr distinct), List.reverse_reverse]
  have lookups (key : κ) : lastValue pairs key = pairs.lookup key := by
    clear keys
    induction pairs with
    | nil => rfl
    | cons pair rest ih =>
        rw [List.map_cons, List.nodup_cons] at distinct
        have tail := ih distinct.2
        simp only [lastValue, List.reverse_cons] at tail ⊢
        rw [List.lookup_append, tail]
        by_cases same : key = pair.1
        · subst same
          have absent : rest.lookup pair.1 = none := by
            rw [List.lookup_eq_none_iff]
            intro entry member
            have different : pair.1 ≠ entry.1 := fun eq =>
              distinct.1 (eq ▸ List.mem_map_of_mem (f := Prod.fst) member)
            simpa using different
          simp [absent, lookup_cons]
        · cases found : rest.lookup key <;> simp [lookup_cons, same, found]
  rw [collect_eq_lastWins, lastWins, keys]
  simp only [lookups]
  exact (eq_filterMap_lookup pairs distinct).symm

end AuthHttpsig.AssocList
