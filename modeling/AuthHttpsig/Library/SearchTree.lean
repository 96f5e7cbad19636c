/-
This file develops search trees whose rebalancing is a parameter. A tree is known by its
inorder list.
-/

import Mathlib.Data.Tree.Basic
import Mathlib.Data.List.Basic
import Mathlib.Tactic

namespace AuthHttpsig.SearchTree

variable {α : Type*}

/-- The values of a tree stand from its left to its right. -/
def inorder : BinaryTree α → List α
  | .nil => []
  | .node value left right => inorder left ++ value :: inorder right

/-- The new value becomes a leaf at the end of its descent. -/
def leafInsert (goesLeft : α → Bool) (new : α) : BinaryTree α → BinaryTree α
  | .nil => .node new .nil .nil
  | .node value left right =>
      if goesLeft value then .node value (leafInsert goesLeft new left) right
      else .node value left (leafInsert goesLeft new right)

/-- The descent stops at the first value that compares equal. -/
def find (probe : α → Ordering) : BinaryTree α → Option α
  | .nil => none
  | .node value left right =>
      match probe value with
      | .lt => find probe left
      | .eq => some value
      | .gt => find probe right

def leftmost : BinaryTree α → Option α
  | .nil => none
  | .node value left _ => (leftmost left).or (some value)

def dropLeftmost : BinaryTree α → BinaryTree α
  | .nil => .nil
  | .node _ .nil right => right
  | .node value left right => .node value (dropLeftmost left) right

/-- The least value of the right tree takes the place of a removed root. -/
def splice (left right : BinaryTree α) : BinaryTree α :=
  match leftmost right with
  | none => left
  | some value => .node value left (dropLeftmost right)

/-- The value leaves the tree. -/
def remove [DecidableEq α] (target : α) : BinaryTree α → BinaryTree α
  | .nil => .nil
  | .node value left right =>
      if value = target then splice left right
      else .node value (remove target left) (remove target right)

@[simp] theorem inorder_nil : inorder (.nil : BinaryTree α) = [] := rfl

@[simp] theorem inorder_node (value : α) (left right : BinaryTree α) :
    inorder (.node value left right) = inorder left ++ value :: inorder right := rfl

/-- The leftmost value is the first in order. -/
theorem leftmost_eq (tree : BinaryTree α) : leftmost tree = (inorder tree).head? := by
  induction tree with
  | nil => rfl
  | node value left right ihLeft _ => simp [leftmost, ihLeft, List.head?_append]

theorem leftmost_mem {tree : BinaryTree α} {value : α} (least : leftmost tree = some value) :
    value ∈ inorder tree := by
  rw [leftmost_eq] at least
  exact List.mem_of_head? least

/-- Dropping the leftmost value drops the first in order. -/
theorem inorder_dropLeftmost (tree : BinaryTree α) :
    inorder (dropLeftmost tree) = (inorder tree).tail := by
  induction tree with
  | nil => rfl
  | node value left right ihLeft _ =>
      cases left with
      | nil => rfl
      | node first before after =>
          have nonempty : inorder (.node first before after) ≠ [] := by simp
          rw [dropLeftmost, inorder_node, ihLeft, inorder_node value,
            List.tail_append_of_ne_nil nonempty]
          simp

/-- Splicing two trees puts their orders in a row. -/
theorem inorder_splice (left right : BinaryTree α) :
    inorder (splice left right) = inorder left ++ inorder right := by
  unfold splice
  cases least : leftmost right with
  | none =>
      rw [leftmost_eq, List.head?_eq_none_iff] at least
      simp [least]
  | some value =>
      rw [leftmost_eq] at least
      obtain ⟨rest, listed⟩ := List.head?_eq_some_iff.mp least
      simp [inorder_dropLeftmost, listed]

/-- A removal erases its value from the order. -/
theorem inorder_remove [DecidableEq α] {tree : BinaryTree α} (distinct : (inorder tree).Nodup)
    (target : α) : inorder (remove target tree) = (inorder tree).erase target := by
  induction tree with
  | nil => rfl
  | node value left right ihLeft ihRight =>
      rw [inorder_node, List.nodup_append] at distinct
      obtain ⟨distinctLeft, distinctRest, apart⟩ := distinct
      obtain ⟨notRight, distinctRight⟩ := List.nodup_cons.mp distinctRest
      by_cases same : value = target
      · have notLeft : target ∉ inorder left := fun present =>
          apart target present target (by simp [same]) rfl
        rw [remove, if_pos same, inorder_splice, inorder_node, List.erase_append_right _ notLeft, same,
          List.erase_cons_head]
      · rw [remove, if_neg same, inorder_node, inorder_node, ihLeft distinctLeft, ihRight distinctRight]
        by_cases present : target ∈ inorder left
        · have notRight : target ∉ inorder right := fun found =>
            apart target present target (by simp [found]) rfl
          rw [List.erase_append_left _ present, List.erase_of_not_mem notRight]
        · rw [List.erase_append_right _ present, List.erase_of_not_mem present,
            List.erase_cons_tail (by simpa using same)]

/-- An insertion adds its value to the order. -/
theorem leafInsert_perm (goesLeft : α → Bool) (new : α) (tree : BinaryTree α) :
    (inorder (leafInsert goesLeft new tree)).Perm (new :: inorder tree) := by
  induction tree with
  | nil => exact List.Perm.refl _
  | node value left right ihLeft ihRight =>
      rw [leafInsert]
      split
      · exact ihLeft.append_right _
      · have below := (ihRight.cons value).trans (List.Perm.swap new value _)
        exact (below.append_left _).trans List.perm_middle

/-- A descent that follows a transitive relation keeps it. -/
theorem leafInsert_pairwise {before : α → α → Prop}
    (trans : ∀ first second third, before first second → before second third → before first third)
    {goesLeft : α → Bool} {new : α} {tree : BinaryTree α} (ordered : (inorder tree).Pairwise before)
    (left : ∀ value ∈ inorder tree, goesLeft value = true → before new value)
    (right : ∀ value ∈ inorder tree, goesLeft value = false → before value new) :
    (inorder (leafInsert goesLeft new tree)).Pairwise before := by
  induction tree with
  | nil => exact List.pairwise_singleton _ _
  | node value lower upper ihLower ihUpper =>
      obtain ⟨orderedLower, orderedRest, apart⟩ := List.pairwise_append.mp ordered
      obtain ⟨afterRoot, orderedUpper⟩ := List.pairwise_cons.mp orderedRest
      rw [leafInsert]
      split
      · -- The new value stands before the root, and so before all that follows it.
        rename_i goes
        have atRoot := left value (by simp) goes
        have newLower := ihLower orderedLower (fun entry inside => left entry (by simp [inside]))
          (fun entry inside => right entry (by simp [inside]))
        refine List.pairwise_append.mpr ⟨newLower, orderedRest, ?_⟩
        intro first firstIn second secondIn
        rcases List.mem_cons.mp ((leafInsert_perm goesLeft new lower).mem_iff.mp firstIn) with rfl | older
        · rcases List.mem_cons.mp secondIn with rfl | later
          · exact atRoot
          · exact trans _ _ _ atRoot (afterRoot second later)
        · exact apart first older second secondIn
      · rename_i stays
        have atRoot := right value (by simp) (by simpa using stays)
        have newUpper := ihUpper orderedUpper (fun entry inside => left entry (by simp [inside]))
          (fun entry inside => right entry (by simp [inside]))
        refine List.pairwise_append.mpr ⟨orderedLower, List.pairwise_cons.mpr ⟨?_, newUpper⟩, ?_⟩
        · intro second secondIn
          rcases List.mem_cons.mp ((leafInsert_perm goesLeft new upper).mem_iff.mp secondIn) with rfl | older
          · exact atRoot
          · exact afterRoot second older
        · intro first firstIn second secondIn
          rcases List.mem_cons.mp secondIn with rfl | inside
          · exact apart first firstIn _ (by simp)
          rcases List.mem_cons.mp ((leafInsert_perm goesLeft new upper).mem_iff.mp inside) with rfl | older
          · exact trans _ _ _ (apart first firstIn value (by simp)) atRoot
          · exact apart first firstIn second (by simp [older])

section Sorted

variable {κ : Type*} [Ord κ]

/-- The keys of the values increase from left to right. -/
def Sorted (key : α → κ) (values : List α) : Prop :=
  values.Pairwise fun first second => compare (key first) (key second) = .lt

theorem Sorted.congr {key other : α → κ} {values : List α} (sorted : Sorted key values)
    (same : ∀ value ∈ values, other value = key value) : Sorted other values := by
  refine List.Pairwise.imp_of_mem ?_ sorted
  intro first second firstIn secondIn before
  rw [same first firstIn, same second secondIn, before]

/-- Fewer values of a sorted list are sorted. -/
theorem Sorted.sublist {key : α → κ} {values fewer : List α} (sorted : Sorted key values)
    (sublist : fewer.Sublist values) : Sorted key fewer :=
  List.Pairwise.sublist sublist sorted

variable [Std.TransOrd κ]

theorem irreflexive (entry : κ) : compare entry entry ≠ .lt := by
  have same : compare entry entry = .eq := Std.ReflCmp.compare_self
  rw [same]
  decide

/-- In a sorted list values of one key are one value. -/
theorem Sorted.key_inj {key : α → κ} {values : List α} (sorted : Sorted key values) {first second : α}
    (firstIn : first ∈ values) (secondIn : second ∈ values) (same : key first = key second) :
    first = second := by
  have distinct : (values.map key).Nodup := by
    refine List.pairwise_map.mpr (sorted.imp ?_)
    intro left right before equal
    rw [equal] at before
    exact irreflexive _ before
  exact List.inj_on_of_nodup_map distinct firstIn secondIn same

/-- A descent by key keeps the order when the key is new. -/
theorem leafInsert_sorted [Std.LawfulEqOrd κ] {key : α → κ} {goesLeft : α → Bool} {new : α}
    {tree : BinaryTree α} (sorted : Sorted key (inorder tree))
    (descent : ∀ value ∈ inorder tree, goesLeft value = true ↔ compare (key new) (key value) = .lt)
    (fresh : ∀ value ∈ inorder tree, key value ≠ key new) :
    Sorted key (inorder (leafInsert goesLeft new tree)) := by
  refine leafInsert_pairwise (fun _ _ _ => Std.TransCmp.lt_trans) sorted ?_ ?_
  · intro value inside goes
    exact (descent value inside).mp goes
  · intro value inside stays
    have notBefore : compare (key new) (key value) ≠ .lt := by
      intro before
      rw [(descent value inside).mpr before] at stays
      cases stays
    have different : compare (key new) (key value) ≠ .eq := fun same =>
      fresh value inside (Std.LawfulEqCmp.compare_eq_iff_eq.mp same).symm
    rw [← Std.OrientedCmp.gt_iff_lt]
    revert notBefore different
    cases compare (key new) (key value) <;> simp

/-- The search finds exactly the value with the sought key. -/
theorem find_eq_some [Std.LawfulEqOrd κ] {key : α → κ} {sought : κ} {probe : α → Ordering}
    {tree : BinaryTree α} (sorted : Sorted key (inorder tree))
    (descent : ∀ value ∈ inorder tree, probe value = compare sought (key value)) (found : α) :
    find probe tree = some found ↔ found ∈ inorder tree ∧ key found = sought := by
  induction tree with
  | nil => simp [find]
  | node value left right ihLeft ihRight =>
      have parts := List.pairwise_append.mp sorted
      obtain ⟨sortedLeft, sortedRest, apart⟩ := parts
      obtain ⟨afterRoot, sortedRight⟩ := List.pairwise_cons.mp sortedRest
      have inLeft := ihLeft sortedLeft fun entry inside => descent entry (by simp [inside])
      have inRight := ihRight sortedRight fun entry inside => descent entry (by simp [inside])
      rw [find, descent value (by simp)]
      cases order : compare sought (key value) with
      | lt =>
          refine inLeft.trans ⟨fun ⟨inside, same⟩ => ⟨by simp [inside], same⟩, ?_⟩
          rintro ⟨inside, rfl⟩
          rcases List.mem_append.mp inside with inside | inside
          · exact ⟨inside, rfl⟩
          rcases List.mem_cons.mp inside with rfl | inside
          · exact absurd order (irreflexive _)
          · exact absurd (Std.TransCmp.lt_trans order (afterRoot found inside)) (irreflexive _)
      | eq =>
          have same := Std.LawfulEqCmp.compare_eq_iff_eq.mp order
          subst same
          constructor
          · rintro ⟨⟩
            exact ⟨by simp, rfl⟩
          · rintro ⟨inside, same⟩
            rw [sorted.key_inj inside (by simp) same]
      | gt =>
          have later := Std.OrientedCmp.gt_iff_lt.mp order
          refine inRight.trans ⟨fun ⟨inside, same⟩ => ⟨by simp [inside], same⟩, ?_⟩
          rintro ⟨inside, rfl⟩
          rcases List.mem_append.mp inside with inside | inside
          · exact absurd (Std.TransCmp.lt_trans later (apart found inside value (by simp))) (irreflexive _)
          rcases List.mem_cons.mp inside with rfl | inside
          · exact absurd later (irreflexive _)
          · exact ⟨inside, rfl⟩

end Sorted

/-- A balanced tree is a search tree that each update rebalances. The order is what an update of
the plain tree gives. -/
structure Balanced (α : Type) [DecidableEq α] where
  Tree : Type
  shape : Tree → BinaryTree α
  empty : Tree
  insert : (α → Bool) → α → Tree → Tree
  delete : α → Tree → Tree
  shape_empty : shape empty = .nil
  inorder_insert : ∀ goesLeft new tree,
    inorder (shape (insert goesLeft new tree)) = inorder (leafInsert goesLeft new (shape tree))
  inorder_delete : ∀ target tree,
    inorder (shape (delete target tree)) = inorder (remove target (shape tree))

/-- The plain search tree never rebalances. -/
def plain (α : Type) [DecidableEq α] : Balanced α where
  Tree := BinaryTree α
  shape := id
  empty := .nil
  insert := leafInsert
  delete := remove
  shape_empty := rfl
  inorder_insert _ _ _ := rfl
  inorder_delete _ _ := rfl

end AuthHttpsig.SearchTree
