/-
This file shows that the searches of the two shared-memory key trees find exactly the linked keys, whatever
keys have the same CRC and however the trees are rotated.
-/

import AuthHttpsig.Construction.Cache
import AuthHttpsig.Construction.NonceStore

namespace AuthHttpsig.Cache.Zone

open SearchTree KeyTree

variable {rb : Balanced Nat} {crc : Bytes → UInt32} {zone : Zone rb}

/-- The hosts of the linked nodes stand from left to right. -/
def hosts (zone : Zone rb) : List Bytes := zone.table.names Node.identity

/-- A host that is not linked gets a new node, a linked node is deleted, and a rotation keeps the order. -/
def edits (rb : Balanced Nat) (crc : Bytes → UInt32) : Machine (Zone rb) (Table.Edit rb Bytes) where
  start zone := zone = initZone rb
  enabled zone
    | .insert address host => zone.heap address = none ∧ host ∉ zone.hosts
    | .delete address => address ∈ zone.table.addresses
    | .reshape tree => inorder (rb.shape tree) = zone.table.addresses
  step zone
    | .insert address host => zone.insertNew address (crc host) host
    | .delete address => { zone with table := zone.table.delete address }
    | .reshape tree => { zone with table := zone.table.reshape tree }

instance (zone : Zone rb) : DecidablePred ((edits rb crc).enabled zone)
  | .insert address host => inferInstanceAs (Decidable (zone.heap address = none ∧ host ∉ zone.hosts))
  | .delete address => inferInstanceAs (Decidable (address ∈ zone.table.addresses))
  | .reshape tree => inferInstanceAs (Decidable (inorder (rb.shape tree) = zone.table.addresses))

theorem edits_table (reaches : (edits rb crc).Reaches zone) :
    (Table.edits rb Node.identity crc).Reaches zone.table := by
  induction reaches with
  | start starts =>
      subst starts
      exact .start rfl
  | step edit _ enabled ih =>
      cases edit with
      | insert address host =>
          exact ih.step (Table.Edit.insert address (newNode (crc host) host)) ⟨enabled.1, rfl, enabled.2⟩
      | delete address => exact ih.step (Table.Edit.delete address) enabled
      | reshape tree => exact ih.step (Table.Edit.reshape tree) enabled

end AuthHttpsig.Cache.Zone

namespace AuthHttpsig.NonceStore

open SearchTree KeyTree

/-- This is the node that a check inserts. -/
def newNode (hash : UInt32) (key : Bytes) (expiresAt : Int) : Node where
  hash := hash
  expKey := expKey expiresAt
  nonceKey := key
  expiresAt := expiresAt

namespace Store

variable {rb : Balanced Nat} {crc : Bytes → UInt32} {store : Store rb}

/-- The keys of the linked nodes stand from left to right. -/
def keys (store : Store rb) : List Bytes := store.table.names Node.identity

/-- A key that is not linked gets a new node, a linked node is deleted, and a rotation keeps the order. -/
def edits (rb : Balanced Nat) (crc : Bytes → UInt32) : Machine (Store rb) (Table.Edit rb (Bytes × Int)) where
  start store := store = initZone rb
  enabled store
    | .insert address (key, _) => store.heap address = none ∧ key ∉ store.keys
    | .delete address => address ∈ store.table.addresses
    | .reshape tree => inorder (rb.shape tree) = store.table.addresses
  step store
    | .insert address (key, expiresAt) => store.insert address (newNode (crc key) key expiresAt)
    | .delete address => store.delete address
    | .reshape tree => { store with table := store.table.reshape tree }

instance (store : Store rb) : DecidablePred ((edits rb crc).enabled store)
  | .insert address entry => inferInstanceAs (Decidable (store.heap address = none ∧ entry.1 ∉ store.keys))
  | .delete address => inferInstanceAs (Decidable (address ∈ store.table.addresses))
  | .reshape tree => inferInstanceAs (Decidable (inorder (rb.shape tree) = store.table.addresses))

theorem edits_table (reaches : (edits rb crc).Reaches store) :
    (Table.edits rb Node.identity crc).Reaches store.table := by
  induction reaches with
  | start starts =>
      subst starts
      exact .start rfl
  | step edit _ enabled ih =>
      cases edit with
      | insert address entry =>
          exact ih.step (Table.Edit.insert address (newNode (crc entry.1) entry.1 entry.2))
            ⟨enabled.1, rfl, enabled.2⟩
      | delete address => exact ih.step (Table.Edit.delete address) enabled
      | reshape tree => exact ih.step (Table.Edit.reshape tree) enabled

end Store

/-- In both trees, a search by hash and key finds the linked node of the key, and it finds nothing exactly
when the key is not linked. -/
theorem tree_lookup (rb : Balanced Nat) (crc : Bytes → UInt32) :
    (∀ zone : Cache.Zone rb, (Cache.Zone.edits rb crc).Reaches zone → ∀ host,
      (∀ address, zone.find (crc host) host = some address ↔
        address ∈ zone.table.addresses ∧ (zone.heap.node address).host = host) ∧
      (zone.find (crc host) host = none ↔ host ∉ zone.hosts)) ∧
    ∀ store : Store rb, (Store.edits rb crc).Reaches store → ∀ key,
      (∀ address, store.find (crc key) key = some address ↔
        address ∈ store.table.addresses ∧ (store.heap.node address).nonceKey = key) ∧
      (store.find (crc key) key = none ↔ key ∉ store.keys) := by
  refine ⟨?_, ?_⟩
  · intro zone reaches host
    exact (Table.edits_coherent (Cache.Zone.edits_table reaches)).lookup host
  · intro store reaches key
    exact (Table.edits_coherent (Store.edits_table reaches)).lookup key

/-- Two keys with the CRC 0x4ddb0c25 and a shorter key are inserted, the tree is rotated, and one of the two
is deleted. -/
def sampleEdits {ν : Type} (entry : Bytes → ν) : List (Table.Edit (plain Nat) ν) :=
  [.insert 0 (entry (ascii "plumless")),
    .insert 1 (entry (ascii "buckeroo")),
    .insert 2 (entry (ascii "plum")),
    .reshape (BinaryTree.node 1 .nil (.node 0 .nil (.node 2 .nil .nil))),
    .delete 1]

def sampleZone : Cache.Zone (plain Nat) :=
  (Cache.Zone.edits (plain Nat) crc32Long).run (Cache.Zone.initZone (plain Nat)) (sampleEdits id)

def sampleStore : Store (plain Nat) :=
  (Store.edits (plain Nat) crc32Long).run (Store.initZone (plain Nat)) (sampleEdits fun key => (key, 100))

theorem sampleZone_follows :
    (Cache.Zone.edits (plain Nat) crc32Long).Follows (Cache.Zone.initZone (plain Nat)) (sampleEdits id) ∧
      (0 ∈ sampleZone.table.addresses ∧ (sampleZone.heap.node 0).host = ascii "plumless") ∧
      ascii "buckeroo" ∉ sampleZone.hosts := by
  decide +kernel

theorem sampleStore_follows :
    (Store.edits (plain Nat) crc32Long).Follows (Store.initZone (plain Nat)) (sampleEdits fun key => (key, 100)) ∧
      (0 ∈ sampleStore.table.addresses ∧ (sampleStore.heap.node 0).nonceKey = ascii "plumless") ∧
      ascii "buckeroo" ∉ sampleStore.keys := by
  decide +kernel

theorem tree_lookup_collision :
    (sampleZone.find (crc32Long (ascii "plumless")) (ascii "plumless") = some 0 ∧
        sampleZone.find (crc32Long (ascii "buckeroo")) (ascii "buckeroo") = none) ∧
      sampleStore.find (crc32Long (ascii "plumless")) (ascii "plumless") = some 0 ∧
        sampleStore.find (crc32Long (ascii "buckeroo")) (ascii "buckeroo") = none := by
  obtain ⟨zones, stores⟩ := tree_lookup (plain Nat) crc32Long
  obtain ⟨zoneFollows, hosted, noHost⟩ := sampleZone_follows
  obtain ⟨storeFollows, keyed, noKey⟩ := sampleStore_follows
  have atHosts := zones sampleZone (.run (.start rfl) zoneFollows)
  have atKeys := stores sampleStore (.run (.start rfl) storeFollows)
  exact ⟨⟨((atHosts (ascii "plumless")).1 0).mpr hosted, (atHosts (ascii "buckeroo")).2.mpr noHost⟩,
    ((atKeys (ascii "plumless")).1 0).mpr keyed, (atKeys (ascii "buckeroo")).2.mpr noKey⟩

end AuthHttpsig.NonceStore
