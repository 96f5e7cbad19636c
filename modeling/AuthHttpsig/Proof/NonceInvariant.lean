/-
This file proves that every operation of the nonce store keeps its two trees coherent, and
says once what each operation can do to the nodes.
-/

import AuthHttpsig.Library.Checked
import AuthHttpsig.Construction.NonceStore

namespace AuthHttpsig.NonceStore

open SearchTree KeyTree

/-- A `time_t` is a signed integer of 64 bits. -/
abbrev TimeT (time : Int) : Prop := Checked.InRange time

/-- A time that fits is kept by its key. -/
theorem expKey_toInt {expiresAt : Int} (fits : TimeT expiresAt) : (expKey expiresAt).toInt = expiresAt := by
  obtain ⟨low, high⟩ := fits
  rw [expKey, BitVec.toInt_ofInt]
  exact Int.bmod_eq_of_le (by simpa using low) (by simpa using high)

variable {rb : Balanced Nat}

namespace Store

/-- The addresses in the expiry tree. -/
def timed (store : Store rb) : List Nat := inorder (rb.shape store.expRbtree)

/-- The key tree is coherent, and each of its nodes stands once in the expiry tree under its expiry. -/
structure Coherent (crc : Bytes → UInt32) (store : Store rb) : Prop where
  table : store.table.Coherent Node.identity crc
  agree : store.table.addresses.Perm store.timed
  expiring : ∀ address node, store.heap address = some node → node.expKey = expKey node.expiresAt

variable {crc : Bytes → UInt32} {store : Store rb}

/-- A fresh store is coherent. -/
theorem initZone_coherent (rb : Balanced Nat) (crc : Bytes → UInt32) :
    (Store.initZone rb).Coherent crc where
  table := Table.empty_coherent rb Node.identity crc
  agree := by simp [timed, initZone, rb.shape_empty]
  expiring := by simp [heap, Table.empty, initZone]

/-- No record is twice in the tree of times. -/
theorem Coherent.timed_nodup (coherent : store.Coherent crc) : store.timed.Nodup :=
  coherent.agree.nodup_iff.mp coherent.table.nodup

/-- Deleting a record keeps the store coherent. -/
theorem delete_coherent (coherent : store.Coherent crc) (address : Nat) :
    (store.delete address).Coherent crc := by
  refine ⟨coherent.table.delete address, ?_, ?_⟩
  · have timedAfter : (store.delete address).timed = store.timed.erase address := by
      rw [timed, delete, rb.inorder_delete, inorder_remove coherent.timed_nodup, timed]
    rw [timedAfter]
    show (store.table.delete address).addresses.Perm _
    rw [coherent.table.addresses_delete]
    exact coherent.agree.erase address
  · intro other node found
    exact coherent.expiring other node (Heap.of_freed found).2

/-- A sweep frees only nodes that expired before `now`. -/
def Swept (now : Int) (before after : Heap Node) : Prop :=
  ∀ address, after address = before address ∨
    after address = none ∧ ∃ node, before address = some node ∧ node.expiresAt < now

theorem Swept.refl (now : Int) (heap : Heap Node) : Swept now heap heap := fun _ => Or.inl rfl

/-- Two sweeps in a row are a sweep. -/
theorem Swept.trans {now : Int} {before middle after : Heap Node} (first : Swept now before middle)
    (second : Swept now middle after) : Swept now before after := by
  intro address
  rcases second address with same | ⟨freed, node, found, expired⟩
  · rw [same]
    exact first address
  · rcases first address with same | ⟨gone, _⟩
    · exact Or.inr ⟨freed, node, same ▸ found, expired⟩
    · rw [gone] at found
      cases found

/-- What is stored after a sweep was stored before it. -/
theorem Swept.older {now : Int} {before after : Heap Node} (swept : Swept now before after) {address : Nat}
    {node : Node} (found : after address = some node) : before address = some node := by
  rcases swept address with same | ⟨freed, _⟩
  · rw [← same, found]
  · rw [freed] at found
    cases found

/-- A sweep spares the live records. -/
theorem Swept.live {now : Int} {before after : Heap Node} (swept : Swept now before after) {address : Nat}
    {node : Node} (found : before address = some node) (alive : now ≤ node.expiresAt) :
    after address = some node := by
  rcases swept address with same | ⟨_, gone, present, expired⟩
  · rw [same, found]
  · rw [found] at present
    cases present
    omega

/-- Each reclaim pass sweeps, whatever the order of the expiry tree is. -/
theorem reclaim_spec (now : Int) (room : Nat) (coherent : store.Coherent crc) :
    (store.reclaim now room).2.Coherent crc ∧ Swept now store.heap (store.reclaim now room).2.heap := by
  induction room generalizing store with
  | zero => exact ⟨coherent, Swept.refl now store.heap⟩
  | succ room ih =>
      rw [reclaim]
      split
      · exact ⟨coherent, Swept.refl now store.heap⟩
      rename_i address least
      split
      · exact ⟨coherent, Swept.refl now store.heap⟩
      rename_i expired
      obtain ⟨node, found⟩ := coherent.table.exists_node (coherent.agree.mem_iff.mpr (leftmost_mem least))
      rw [Heap.node_eq found] at expired
      obtain ⟨rest, swept⟩ := ih (delete_coherent coherent address)
      refine ⟨rest, Swept.trans ?_ swept⟩
      intro other
      by_cases same : other = address
      · subst same
        exact Or.inr ⟨Function.update_self .., node, found, by omega⟩
      · exact Or.inl (Function.update_of_ne same ..)

/-- An allocation sweeps and answers with a free address. -/
theorem allocate_spec {slab : Slab Node} {keyLength : Nat} {now : Int} {answer : Option Nat} {swept : Store rb}
    (coherent : store.Coherent crc) (run : store.allocate slab keyLength now = (answer, swept)) :
    swept.Coherent crc ∧ Swept now store.heap swept.heap ∧
      ∀ address, answer = some address → swept.heap address = none := by
  obtain ⟨coherentOnce, sweptOnce⟩ := reclaim_spec now reclaimBatch coherent
  obtain ⟨coherentTwice, sweptTwice⟩ := reclaim_spec now reclaimBatch coherentOnce
  unfold allocate at run
  dsimp only at run
  split at run
  · rename_i address first
    cases run
    refine ⟨coherentOnce, sweptOnce, ?_⟩
    rintro _ ⟨⟩
    exact slab.alloc_free _ _ _ first
  split at run
  · cases run
    exact ⟨coherentTwice, sweptOnce.trans sweptTwice, slab.alloc_free _ _⟩
  · cases run
    refine ⟨coherentTwice, sweptOnce.trans sweptTwice, ?_⟩
    rintro _ ⟨⟩

/-- A renewal changes the two times of one record. -/
theorem renew_heap {address : Nat} {node : Node} (found : store.heap address = some node)
    (expiresAt : Int) : (store.renew address expiresAt).heap = Function.update store.heap address
      (some { node with expiresAt := expiresAt, expKey := expKey expiresAt }) := by
  rw [renew, Heap.node_eq found]
  rfl

/-- The renewed node keeps its key and its place in the key tree. -/
theorem renew_coherent (coherent : store.Coherent crc) {address : Nat} {node : Node}
    (found : store.heap address = some node) (expiresAt : Int) :
    (store.renew address expiresAt).Coherent crc := by
  have timedAfter : (store.renew address expiresAt).timed.Perm store.timed := by
    have present : address ∈ store.timed := coherent.agree.mem_iff.mp (coherent.table.mem_addresses found)
    rw [timed, renew, rb.inorder_insert]
    refine (leafInsert_perm _ _ _).trans ?_
    rw [rb.inorder_delete, inorder_remove coherent.timed_nodup]
    exact (List.perm_cons_erase present).symm
  refine ⟨?_, coherent.agree.trans timedAfter.symm, ?_⟩
  · rw [renew]
    refine coherent.table.set found ?_
    rw [Heap.node_eq found]
    rfl
  · intro other entry stored
    rw [renew_heap found] at stored
    rcases Heap.of_written stored with ⟨_, rfl⟩ | ⟨_, older⟩
    · rfl
    · exact coherent.expiring other entry older

/-- The new node of a new key takes its place in both trees. -/
theorem insert_coherent (coherent : store.Coherent crc) {address : Nat} (free : store.heap address = none)
    {node : Node} (absent : ∀ other entry, store.heap other = some entry → entry.nonceKey ≠ node.nonceKey)
    (hashed : node.hash = crc node.nonceKey) (timed : node.expKey = expKey node.expiresAt) :
    (store.insert address node).Coherent crc := by
  have timedAfter : (store.insert address node).timed.Perm (address :: store.timed) := by
    rw [Store.timed, insert, rb.inorder_insert]
    exact leafInsert_perm _ _ _
  refine ⟨coherent.table.insert free absent hashed, ?_, ?_⟩
  · exact (Table.addresses_insert store.table address node).trans
      ((coherent.agree.cons address).trans timedAfter.symm)
  · intro other entry stored
    rcases Heap.of_written stored with ⟨_, rfl⟩ | ⟨_, older⟩
    · exact timed
    · exact coherent.expiring other entry older

theorem noteNomem_heap (now : Int) : (store.noteNomem now).heap = store.heap := by
  unfold noteNomem
  split <;> rfl

/-- Noting a full store keeps it coherent. -/
theorem noteNomem_coherent (coherent : store.Coherent crc) (now : Int) :
    (store.noteNomem now).Coherent crc := by
  unfold noteNomem
  split
  · exact ⟨coherent.table, coherent.agree, coherent.expiring⟩
  · exact coherent

end Store
end AuthHttpsig.NonceStore
