/-
This file develops tables of nodes that stand in a search tree under the hash of their name
first and under their name second.
-/

import AuthHttpsig.Library.Bytes
import AuthHttpsig.Library.Machine
import AuthHttpsig.Library.SearchTree

namespace AuthHttpsig.KeyTree

open SearchTree

/-- The tree orders nodes by hash and then by name. -/
abbrev Identity := UInt32 × Bytes

instance : Ord Identity := lexOrd

/-- An insertion goes left below every node with a greater hash, or with the same hash and a
greater name. -/
def insertLeft (new temp : Identity) : Bool :=
  if new.1 < temp.1 then true
  else if new.1 > temp.1 then false
  else memn2cmp new.2 temp.2 == .lt

/-- A search compares the hashes and, when they are equal, the names. -/
def findStep (sought temp : Identity) : Ordering :=
  if sought.1 ≠ temp.1 then (if sought.1 < temp.1 then .lt else .gt)
  else memn2cmp sought.2 temp.2

theorem compare_identity (first second : Identity) :
    compare first second = (compare first.1 second.1).then (compare first.2 second.2) := rfl

/-- A node goes to the left exactly when its identity is less. -/
theorem insertLeft_iff (new temp : Identity) :
    insertLeft new temp = true ↔ compare new temp = .lt := by
  rw [compare_identity, insertLeft, memn2cmp_eq_compare]
  have order : compare new.1 temp.1 = compareOfLessAndEq new.1 temp.1 := rfl
  rw [order, compareOfLessAndEq]
  by_cases before : new.1 < temp.1
  · simp [before]
  by_cases same : new.1 = temp.1
  · simp [same]
  · have after : new.1 > temp.1 := by
      rw [gt_iff_lt, UInt32.lt_iff_toNat_lt]
      rw [UInt32.lt_iff_toNat_lt] at before
      rw [← UInt32.toNat_inj] at same
      omega
    simp [before, same, after]

/-- A search turns as the comparison of the identities says. -/
theorem findStep_eq (sought temp : Identity) : findStep sought temp = compare sought temp := by
  rw [compare_identity, findStep, memn2cmp_eq_compare]
  have order : compare sought.1 temp.1 = compareOfLessAndEq sought.1 temp.1 := rfl
  rw [order, compareOfLessAndEq]
  by_cases same : sought.1 = temp.1
  · simp [same]
  by_cases before : sought.1 < temp.1
  · simp [same, before]
  · simp [same, before]

/-- A freed or never allocated address holds nothing. -/
abbrev Heap (ν : Type) := Nat → Option ν

/-- A pool answers a request for one more node with a free address or with `NULL`. -/
structure Slab (ν : Type) where
  alloc : Heap ν → Nat → Option Nat
  alloc_free : ∀ heap size address, alloc heap size = some address → heap address = none

/-- This allocator never has room. -/
def Slab.exhausted (ν : Type) : Slab ν where
  alloc _ _ := none
  alloc_free _ _ _ found := by cases found

/-- The only slot is given out while it is free. -/
theorem oneSlot_free {ν : Type} {heap : Heap ν} {address : Nat}
    (found : (if heap 0 = none then some 0 else none) = some address) : heap address = none := by
  split at found
  · cases found
    assumption
  · cases found

/-- What is found after an address was freed was there before. -/
theorem Heap.of_freed {ν : Type} {heap : Heap ν} {address other : Nat} {node : ν}
    (found : Function.update heap address none other = some node) :
    other ≠ address ∧ heap other = some node := by
  rw [Function.update_apply] at found
  split at found
  · cases found
  · rename_i elsewhere
    exact ⟨elsewhere, found⟩

/-- What is found after a write was written or was there before. -/
theorem Heap.of_written {ν : Type} {heap : Heap ν} {address other : Nat} {written node : ν}
    (found : Function.update heap address (some written) other = some node) :
    other = address ∧ node = written ∨ other ≠ address ∧ heap other = some node := by
  rw [Function.update_apply] at found
  split at found
  · rename_i here
    cases found
    exact .inl ⟨here, rfl⟩
  · rename_i elsewhere
    exact .inr ⟨elsewhere, found⟩

/-- The tree of a table holds the addresses of its nodes. -/
structure Table (rb : Balanced Nat) (ν : Type) where
  heap : Heap ν
  tree : rb.Tree

section Heap
variable {ν : Type} [Inhabited ν]

def Heap.node (heap : Heap ν) (address : Nat) : ν := (heap address).getD default

theorem Heap.node_eq {heap : Heap ν} {address : Nat} {node : ν} (found : heap address = some node) :
    heap.node address = node := by
  rw [Heap.node, found, Option.getD_some]

theorem Heap.node_update_of_ne (heap : Heap ν) {address other : Nat} (different : other ≠ address)
    (content : Option ν) : Heap.node (Function.update heap address content) other = heap.node other := by
  rw [Heap.node, Function.update_of_ne different, Heap.node]

end Heap

namespace Table
variable {rb : Balanced Nat} {ν : Type}

def empty (rb : Balanced Nat) (ν : Type) : Table rb ν where
  heap _ := none
  tree := rb.empty

/-- The addresses in the tree stand from left to right. -/
def addresses (table : Table rb ν) : List Nat := inorder (rb.shape table.tree)

/-- The node leaves the tree and its memory is freed. -/
def delete (table : Table rb ν) (address : Nat) : Table rb ν where
  heap := Function.update table.heap address none
  tree := rb.delete address table.tree

/-- The node keeps its place in the tree. -/
def set (table : Table rb ν) (address : Nat) (node : ν) : Table rb ν :=
  { table with heap := Function.update table.heap address (some node) }

variable [Inhabited ν]

def find (identity : ν → Identity) (table : Table rb ν) (sought : Identity) : Option Nat :=
  SearchTree.find (fun address => findStep sought (identity (table.heap.node address)))
    (rb.shape table.tree)

/-- A new node takes the place of its identity. -/
def insert (identity : ν → Identity) (table : Table rb ν) (address : Nat) (node : ν) : Table rb ν where
  heap := Function.update table.heap address (some node)
  tree := rb.insert (fun temp => insertLeft (identity node) (identity (table.heap.node temp))) address
    table.tree

/-- Each allocated node stands once in the tree, under the hash of its name. -/
structure Coherent (identity : ν → Identity) (hash : Bytes → UInt32) (table : Table rb ν) : Prop where
  sorted : Sorted (fun address => identity (table.heap.node address)) table.addresses
  allocated : ∀ address, address ∈ table.addresses ↔ (table.heap address).isSome
  hashed : ∀ address node, table.heap address = some node → (identity node).1 = hash (identity node).2

variable {identity : ν → Identity} {hash : Bytes → UInt32} {table : Table rb ν}

@[simp]
theorem addresses_empty (rb : Balanced Nat) (ν : Type) : (empty rb ν).addresses = [] := by
  simp [addresses, empty, rb.shape_empty]

/-- The empty table is coherent. -/
theorem empty_coherent (rb : Balanced Nat) (identity : ν → Identity) (hash : Bytes → UInt32) :
    (empty rb ν).Coherent identity hash where
  sorted := by simp [Sorted]
  allocated _ := by
    rw [addresses_empty]
    simp [empty]
  hashed := by simp [empty]

/-- No address is twice in the tree of a coherent table. -/
theorem Coherent.nodup (coherent : table.Coherent identity hash) : table.addresses.Nodup := by
  refine coherent.sorted.imp ?_
  intro first second before equal
  rw [equal] at before
  exact irreflexive _ before

theorem Coherent.mem_addresses (coherent : table.Coherent identity hash) {address : Nat} {node : ν}
    (found : table.heap address = some node) : address ∈ table.addresses := by
  rw [coherent.allocated, found]
  rfl

theorem Coherent.exists_node (coherent : table.Coherent identity hash) {address : Nat}
    (present : address ∈ table.addresses) : ∃ node, table.heap address = some node :=
  Option.isSome_iff_exists.mp ((coherent.allocated address).mp present)

/-- The identity of a node is the hash of its name and its name. -/
theorem Coherent.identity_eq (coherent : table.Coherent identity hash) {address : Nat} {node : ν}
    (found : table.heap address = some node) :
    identity (table.heap.node address) = (hash (identity node).2, (identity node).2) := by
  rw [Heap.node_eq found, ← coherent.hashed address node found]

/-- Two nodes never have one name. -/
theorem Coherent.address_unique (coherent : table.Coherent identity hash) {address other : Nat} {node twin : ν}
    (found : table.heap address = some node) (alsoFound : table.heap other = some twin)
    (same : (identity node).2 = (identity twin).2) : address = other := by
  refine coherent.sorted.key_inj (coherent.mem_addresses found) (coherent.mem_addresses alsoFound) ?_
  show identity (table.heap.node address) = identity (table.heap.node other)
  rw [coherent.identity_eq found, coherent.identity_eq alsoFound, same]

/-- The search finds the node of its name, whatever other names have the same hash. -/
theorem find_eq_some (coherent : table.Coherent identity hash) (name : Bytes) (address : Nat) :
    table.find identity (hash name, name) = some address ↔
      ∃ node, table.heap address = some node ∧ (identity node).2 = name := by
  rw [find, SearchTree.find_eq_some coherent.sorted fun other _ => findStep_eq _ _]
  constructor
  · rintro ⟨present, same⟩
    obtain ⟨node, found⟩ := coherent.exists_node present
    rw [coherent.identity_eq found] at same
    exact ⟨node, found, congrArg Prod.snd same⟩
  · rintro ⟨node, found, rfl⟩
    exact ⟨coherent.mem_addresses found, coherent.identity_eq found⟩

/-- A name is not found exactly when no node has it. -/
theorem find_eq_none (coherent : table.Coherent identity hash) (name : Bytes) :
    table.find identity (hash name, name) = none ↔
      ∀ address node, table.heap address = some node → (identity node).2 ≠ name := by
  rw [Option.eq_none_iff_forall_ne_some]
  constructor
  · intro absent address node found same
    exact absent address ((find_eq_some coherent name address).mpr ⟨node, found, same⟩)
  · intro absent address found
    obtain ⟨node, present, same⟩ := (find_eq_some coherent name address).mp found
    exact absent address node present same

/-- A deleted address leaves the tree, the others keep their order. -/
theorem Coherent.addresses_delete (coherent : table.Coherent identity hash) (address : Nat) :
    (table.delete address).addresses = table.addresses.erase address := by
  rw [addresses, delete, rb.inorder_delete, inorder_remove coherent.nodup, addresses]

/-- A deletion keeps the table coherent. -/
theorem Coherent.delete (coherent : table.Coherent identity hash) (address : Nat) :
    (table.delete address).Coherent identity hash := by
  have heapAfter : (table.delete address).heap = Function.update table.heap address none := rfl
  refine ⟨?_, ?_, ?_⟩
  · rw [coherent.addresses_delete]
    refine (coherent.sorted.sublist List.erase_sublist).congr ?_
    intro other present
    have different : other ≠ address := ((List.Nodup.mem_erase_iff coherent.nodup).mp present).1
    rw [heapAfter, Heap.node_update_of_ne _ different]
  · intro other
    rw [coherent.addresses_delete, List.Nodup.mem_erase_iff coherent.nodup, coherent.allocated, heapAfter,
      Function.update_apply]
    split <;> simp_all
  · intro other node found
    exact coherent.hashed other node (Heap.of_freed found).2

/-- A change of a node that keeps its identity keeps the table coherent. -/
theorem Coherent.set (coherent : table.Coherent identity hash) {address : Nat} {node changed : ν}
    (found : table.heap address = some node) (same : identity changed = identity node) :
    (table.set address changed).Coherent identity hash := by
  have heapAfter : (table.set address changed).heap =
      Function.update table.heap address (some changed) := rfl
  have addressesAfter : (table.set address changed).addresses = table.addresses := rfl
  refine ⟨?_, ?_, ?_⟩
  · rw [addressesAfter]
    refine coherent.sorted.congr ?_
    intro other _
    by_cases here : other = address
    · subst here
      rw [heapAfter, Heap.node_eq (Function.update_self ..), Heap.node_eq found, same]
    · rw [heapAfter, Heap.node_update_of_ne _ here]
  · intro other
    rw [addressesAfter, coherent.allocated, heapAfter, Function.update_apply]
    split <;> simp_all
  · intro other entry stored
    rcases Heap.of_written stored with ⟨_, rfl⟩ | ⟨_, older⟩
    · rw [same]
      exact coherent.hashed address node found
    · exact coherent.hashed other entry older

theorem addresses_insert (table : Table rb ν) (address : Nat) (node : ν) :
    (table.insert identity address node).addresses.Perm (address :: table.addresses) := by
  rw [addresses, insert, rb.inorder_insert]
  exact leafInsert_perm _ _ _

/-- A new node of a new name keeps the table coherent. -/
theorem Coherent.insert (coherent : table.Coherent identity hash) {address : Nat}
    (free : table.heap address = none) {node : ν}
    (absent : ∀ other entry, table.heap other = some entry → (identity entry).2 ≠ (identity node).2)
    (hashed : (identity node).1 = hash (identity node).2) :
    (table.insert identity address node).Coherent identity hash := by
  have heapAfter : (table.insert identity address node).heap =
      Function.update table.heap address (some node) := rfl
  have fresh : ∀ other ∈ table.addresses, other ≠ address := by
    rintro other present rfl
    rw [coherent.allocated, free] at present
    cases present
  refine ⟨?_, ?_, ?_⟩
  · -- The identities of the older nodes are what the heap held before the update.
    let key := fun other => if other = address then identity node else identity (table.heap.node other)
    have keyNew : key address = identity node := if_pos rfl
    have keyOld : ∀ other ∈ table.addresses, key other = identity (table.heap.node other) :=
      fun other present => if_neg (fresh other present)
    have inserted : Sorted key (table.insert identity address node).addresses := by
      rw [addresses, Table.insert, rb.inorder_insert]
      refine leafInsert_sorted (coherent.sorted.congr keyOld) ?_ ?_
      · intro other present
        rw [keyNew, keyOld other present]
        exact insertLeft_iff _ _
      · intro other present same
        rw [keyNew, keyOld other present] at same
        obtain ⟨entry, found⟩ := coherent.exists_node present
        rw [Heap.node_eq found] at same
        exact absent other entry found (congrArg Prod.snd same)
    refine inserted.congr ?_
    intro other present
    rw [heapAfter]
    rcases List.mem_cons.mp ((addresses_insert table address node).mem_iff.mp present) with rfl | older
    · rw [keyNew, Heap.node_eq (Function.update_self ..)]
    · rw [keyOld other older, Heap.node_update_of_ne _ (fresh other older)]
  · intro other
    rw [(addresses_insert table address node).mem_iff, List.mem_cons, coherent.allocated, heapAfter,
      Function.update_apply]
    split <;> simp_all
  · intro other entry stored
    rcases Heap.of_written stored with ⟨_, rfl⟩ | ⟨_, older⟩
    · exact hashed
    · exact coherent.hashed other entry older

/-- The tree takes another shape. -/
def reshape (table : Table rb ν) (tree : rb.Tree) : Table rb ν := { table with tree := tree }

/-- A change of the shape that keeps the order keeps the table coherent. -/
theorem Coherent.reshape (coherent : table.Coherent identity hash) {tree : rb.Tree}
    (same : inorder (rb.shape tree) = table.addresses) : (table.reshape tree).Coherent identity hash where
  sorted := by
    rw [addresses, Table.reshape, same]
    exact coherent.sorted
  allocated := by
    rw [addresses, Table.reshape, same]
    exact coherent.allocated
  hashed := coherent.hashed

/-- The names of the linked nodes stand from left to right. -/
def names (identity : ν → Identity) (table : Table rb ν) : List Bytes :=
  table.addresses.map fun address => (identity (table.heap.node address)).2

/-- The names of a table are those of its nodes. -/
theorem Coherent.mem_names (coherent : table.Coherent identity hash) {name : Bytes} :
    name ∈ table.names identity ↔ ∃ address node, table.heap address = some node ∧ (identity node).2 = name := by
  rw [names, List.mem_map]
  constructor
  · rintro ⟨address, linked, rfl⟩
    obtain ⟨node, found⟩ := coherent.exists_node linked
    exact ⟨address, node, found, by rw [Heap.node_eq found]⟩
  · rintro ⟨address, node, found, rfl⟩
    exact ⟨address, coherent.mem_addresses found, by rw [Heap.node_eq found]⟩

inductive Edit (rb : Balanced Nat) (ν : Type) where
  | insert (address : Nat) (node : ν)
  | delete (address : Nat)
  | reshape (tree : rb.Tree)

/-- A new name is inserted at a free address, a linked node is deleted, and a rotation keeps the order. -/
def edits (rb : Balanced Nat) (identity : ν → Identity) (hash : Bytes → UInt32) :
    Machine (Table rb ν) (Edit rb ν) where
  start table := table = empty rb ν
  enabled table
    | .insert address node => table.heap address = none ∧ (identity node).1 = hash (identity node).2 ∧
        (identity node).2 ∉ table.names identity
    | .delete address => address ∈ table.addresses
    | .reshape tree => inorder (rb.shape tree) = table.addresses
  step table
    | .insert address node => table.insert identity address node
    | .delete address => table.delete address
    | .reshape tree => table.reshape tree

/-- Every enabled edit keeps the table coherent. -/
theorem Coherent.edit (coherent : table.Coherent identity hash) {edit : Edit rb ν}
    (enabled : (edits rb identity hash).enabled table edit) :
    ((edits rb identity hash).step table edit).Coherent identity hash := by
  cases edit with
  | insert address node =>
      obtain ⟨free, hashed, absent⟩ := enabled
      refine coherent.insert free ?_ hashed
      intro other entry found same
      exact absent (coherent.mem_names.mpr ⟨other, entry, found, same⟩)
  | delete address => exact coherent.delete address
  | reshape tree => exact coherent.reshape enabled

/-- Every table that edits reach is coherent. -/
theorem edits_coherent (reaches : (edits rb identity hash).Reaches table) : table.Coherent identity hash := by
  refine reaches.invariant ?_ ?_
  · rintro _ rfl
    exact empty_coherent rb identity hash
  · intro before edit coherent enabled
    exact coherent.edit enabled

/-- The search finds the linked node of its name, and nothing exactly when the name is not linked. -/
theorem Coherent.lookup (coherent : table.Coherent identity hash) (name : Bytes) :
    (∀ address, table.find identity (hash name, name) = some address ↔
        address ∈ table.addresses ∧ (identity (table.heap.node address)).2 = name) ∧
      (table.find identity (hash name, name) = none ↔ name ∉ table.names identity) := by
  refine ⟨?_, ?_⟩
  · intro address
    rw [find_eq_some coherent]
    constructor
    · rintro ⟨node, found, rfl⟩
      exact ⟨coherent.mem_addresses found, by rw [Heap.node_eq found]⟩
    · rintro ⟨linked, rfl⟩
      obtain ⟨node, found⟩ := coherent.exists_node linked
      exact ⟨node, found, by rw [Heap.node_eq found]⟩
  · rw [find_eq_none coherent, coherent.mem_names]
    push Not
    exact Iff.rfl

end Table
end AuthHttpsig.KeyTree
