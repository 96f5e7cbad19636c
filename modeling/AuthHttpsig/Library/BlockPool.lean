/-
This file develops pools of memory blocks. A pool numbers its blocks and keeps the numbers of the freed ones.
-/

import AuthHttpsig.Library.KeyTree

namespace AuthHttpsig

open KeyTree

/-- Each address of a live block has the number of its block, and each number is in use or was freed once. -/
structure Pool where
  serial : Heap Nat
  issued : Nat
  freed : List Nat
  early : ∀ address number, serial address = some number → number < issued
  unique : ∀ address other number, serial address = some number → serial other = some number → address = other
  once : freed.Nodup
  spent : ∀ number, number ∈ freed ↔ number < issued ∧ ∀ address, serial address ≠ some number

namespace Pool

def empty : Pool where
  serial _ := none
  issued := 0
  freed := []
  early := nofun
  unique := nofun
  once := .nil
  spent := by simp

variable {pool after start : Pool} {slab : Slab Nat} {size address : Nat} {blocks : List Nat}

/-- A new block gets the next number. -/
def place (pool : Pool) (address : Nat) (unused : pool.serial address = none) : Pool where
  serial := Function.update pool.serial address (some pool.issued)
  issued := pool.issued + 1
  freed := pool.freed
  early other number live := by
    rcases Heap.of_written live with ⟨_, rfl⟩ | ⟨_, older⟩
    · exact Nat.lt_succ_self _
    · exact Nat.lt_succ_of_lt (pool.early other number older)
  unique first second number live alsoLive := by
    rcases Heap.of_written live with ⟨here, new⟩ | ⟨_, older⟩ <;>
      rcases Heap.of_written alsoLive with ⟨alsoHere, alsoNew⟩ | ⟨_, alsoOlder⟩
    · rw [here, alsoHere]
    · exact absurd (pool.early second number alsoOlder) (by omega)
    · exact absurd (pool.early first number older) (by omega)
    · exact pool.unique first second number older alsoOlder
  once := pool.once
  spent number := by
    rw [pool.spent]
    constructor
    · rintro ⟨early, unused⟩
      refine ⟨Nat.lt_succ_of_lt early, fun other live => ?_⟩
      rcases Heap.of_written live with ⟨_, rfl⟩ | ⟨_, older⟩
      · exact lt_irrefl _ early
      · exact unused other older
    · rintro ⟨early, gone⟩
      have old (other : Nat) : pool.serial other ≠ some number := by
        intro live
        refine gone other ?_
        rw [Function.update_of_ne ?_, live]
        rintro rfl
        rw [unused] at live
        cases live
      have different : number ≠ pool.issued := by
        rintro rfl
        exact gone address (Function.update_self ..)
      exact ⟨by omega, old⟩

/-- The allocator answers with the address of a new block or with `NULL`. -/
def alloc (slab : Slab Nat) (pool : Pool) (size : Nat) : Option (Nat × Pool) :=
  match found : slab.alloc pool.serial size with
  | none => none
  | some address => some (address, pool.place address (slab.alloc_free _ _ _ found))

/-- The block leaves the pool. -/
def drop (pool : Pool) (address number : Nat) (live : pool.serial address = some number) : Pool where
  serial := Function.update pool.serial address none
  issued := pool.issued
  freed := number :: pool.freed
  early other entry stored := pool.early other entry (Heap.of_freed stored).2
  unique first second entry stored alsoStored :=
    pool.unique first second entry (Heap.of_freed stored).2 (Heap.of_freed alsoStored).2
  once := by
    refine List.nodup_cons.mpr ⟨fun freed => ?_, pool.once⟩
    exact ((pool.spent number).mp freed).2 address live
  spent entry := by
    rw [List.mem_cons, pool.spent]
    constructor
    · rintro (rfl | ⟨early, gone⟩)
      · refine ⟨pool.early address entry live, fun other stored => ?_⟩
        obtain ⟨elsewhere, older⟩ := Heap.of_freed stored
        exact elsewhere (pool.unique other address entry older live)
      · exact ⟨early, fun other stored => gone other (Heap.of_freed stored).2⟩
    · rintro ⟨early, gone⟩
      by_cases same : entry = number
      · exact .inl same
      · refine .inr ⟨early, fun other stored => ?_⟩
        refine gone other ?_
        rw [Function.update_of_ne ?_, stored]
        rintro rfl
        exact same (Option.some.inj (stored.symm.trans live))

/-- Only a live block can be freed. -/
def free (pool : Pool) (address : Nat) : Option Pool :=
  match live : pool.serial address with
  | none => none
  | some number => some (pool.drop address number live)

/-- An allocation places a block at an unused address. -/
theorem alloc_eq_some (done : pool.alloc slab size = some (address, after)) :
    ∃ unused : pool.serial address = none, after = pool.place address unused := by
  unfold alloc at done
  split at done
  · cases done
  · rename_i found
    cases done
    exact ⟨slab.alloc_free _ _ _ found, rfl⟩

/-- An allocation leaves the other addresses. -/
theorem alloc_others (done : pool.alloc slab size = some (address, after)) {other : Nat}
    (elsewhere : other ≠ address) : after.serial other = pool.serial other := by
  obtain ⟨unused, rfl⟩ := alloc_eq_some done
  exact Function.update_of_ne elsewhere ..

theorem free_live {number : Nat} (live : pool.serial address = some number) :
    pool.free address = some (pool.drop address number live) := by
  unfold free
  split
  · rename_i gone
    rw [live] at gone
    cases gone
  · rename_i other stored
    obtain rfl := Option.some.inj (live.symm.trans stored)
    rfl

/-- A free drops a live block. -/
theorem free_eq_some (done : pool.free address = some after) :
    ∃ number, ∃ live : pool.serial address = some number, after = pool.drop address number live := by
  unfold free at done
  split at done
  · cases done
  · rename_i number live
    cases done
    exact ⟨number, live, rfl⟩

theorem free_issued (done : pool.free address = some after) : after.issued = pool.issued := by
  obtain ⟨_, _, rfl⟩ := free_eq_some done
  rfl

/-- A number that is no longer in use was freed exactly once. -/
theorem freed_once (pool : Pool) (number : Nat) :
    pool.freed.count number = 1 ↔ number < pool.issued ∧ ∀ address, pool.serial address ≠ some number := by
  rw [← pool.spent]
  constructor
  · intro counted
    exact List.count_pos_iff.mp (counted ▸ Nat.one_pos)
  · exact List.count_eq_one_of_mem pool.once

/-- These are the numbers of some blocks. -/
def numbers (pool : Pool) (blocks : List Nat) : List Nat := blocks.filterMap pool.serial

theorem mem_numbers {number : Nat} :
    number ∈ pool.numbers blocks ↔ ∃ address ∈ blocks, pool.serial address = some number :=
  List.mem_filterMap

/-- A later pool has freed only numbers below this mark. -/
structure Since (mark : Nat) (before after : Pool) : Prop where
  issued : before.issued ≤ after.issued
  kept : ∀ number ∈ before.freed, number ∈ after.freed
  freed : ∀ number ∈ after.freed, number ∈ before.freed ∨ number < mark

namespace Since

variable {mark : Nat} {before middle : Pool}

theorem refl (mark : Nat) (pool : Pool) : Since mark pool pool where
  issued := le_rfl
  kept _ freed := freed
  freed _ freed := .inl freed

theorem trans (first : Since mark before middle) (second : Since mark middle after) : Since mark before after where
  issued := first.issued.trans second.issued
  kept number freed := second.kept number (first.kept number freed)
  freed number freed := (second.freed number freed).elim (first.freed number) .inr

/-- An allocation frees nothing. -/
theorem alloc (mark : Nat) (done : pool.alloc slab size = some (address, after)) : Since mark pool after := by
  obtain ⟨unused, rfl⟩ := alloc_eq_some done
  exact ⟨Nat.le_succ _, fun _ freed => freed, fun _ freed => .inl freed⟩

/-- Freeing an older block spares what was issued since the mark. -/
theorem free (early : ∀ number, pool.serial address = some number → number < mark)
    (done : pool.free address = some after) : Since mark pool after := by
  obtain ⟨number, live, rfl⟩ := free_eq_some done
  refine ⟨le_rfl, fun _ freed => List.mem_cons_of_mem number freed, ?_⟩
  intro other freed
  rcases List.mem_cons.mp freed with rfl | older
  · exact .inr (early other live)
  · exact .inl older

end Since

/-- Meanwhile exactly the numbers were freed that these blocks had and the remaining blocks have no more. -/
def Settled (pool : Pool) (blocks : List Nat) (later : Pool) (remaining : List Nat) : Prop :=
  ∀ number, number ∈ later.freed ↔
    number ∈ pool.freed ∨ number ∈ pool.numbers blocks ∧ number ∉ later.numbers remaining

/-- The blocks in use are these and the ones of the start, and every other number was freed once. -/
structure Balanced (start pool : Pool) (blocks : List Nat) : Prop where
  distinct : blocks.Nodup
  apart : ∀ address ∈ blocks, start.serial address = none
  allocated : ∀ address, (pool.serial address).isSome ↔ (start.serial address).isSome ∨ address ∈ blocks
  kept : ∀ address number, start.serial address = some number → pool.serial address = some number
  once : ∀ number, pool.freed.count number ≤ 1
  freed : ∀ number,
    pool.freed.count number = 1 ↔ number < pool.issued ∧ ∀ address, pool.serial address ≠ some number

/-- The pool has these blocks besides the ones that it had at the start. -/
structure Holds (start pool : Pool) (blocks : List Nat) : Prop where
  distinct : blocks.Nodup
  apart : ∀ address ∈ blocks, start.serial address = none
  live : ∀ address ∈ blocks, ∃ number, pool.serial address = some number
  others : ∀ address, address ∉ blocks → pool.serial address = start.serial address

namespace Holds

theorem refl (pool : Pool) : Holds pool pool [] where
  distinct := .nil
  apart := nofun
  live := nofun
  others _ _ := rfl

theorem perm {other : List Nat} (holds : Holds start pool blocks) (same : other.Perm blocks) :
    Holds start pool other where
  distinct := same.nodup_iff.mpr holds.distinct
  apart address present := holds.apart address (same.mem_iff.mp present)
  live address present := holds.live address (same.mem_iff.mp present)
  others address absent := holds.others address (mt same.mem_iff.mpr absent)

/-- A new block is none of the held ones. -/
theorem fresh (holds : Holds start pool blocks) (done : pool.alloc slab size = some (address, after)) :
    address ∉ blocks := by
  obtain ⟨unused, _⟩ := alloc_eq_some done
  intro present
  obtain ⟨number, live⟩ := holds.live address present
  rw [unused] at live
  cases live

/-- An allocated block is held. -/
theorem alloc (holds : Holds start pool blocks) (done : pool.alloc slab size = some (address, after)) :
    Holds start after (address :: blocks) := by
  have absent := holds.fresh done
  obtain ⟨unused, rfl⟩ := alloc_eq_some done
  refine ⟨List.nodup_cons.mpr ⟨absent, holds.distinct⟩, ?_, ?_, ?_⟩
  · refine List.forall_mem_cons.mpr ⟨?_, holds.apart⟩
    rw [← holds.others address absent, unused]
  · refine List.forall_mem_cons.mpr ⟨⟨pool.issued, Function.update_self ..⟩, ?_⟩
    intro other present
    have different : other ≠ address := fun same => absent (same ▸ present)
    obtain ⟨number, live⟩ := holds.live other present
    exact ⟨number, (Function.update_of_ne different ..).trans live⟩
  · intro other outside
    obtain ⟨different, outside⟩ := not_or.mp (mt List.mem_cons.mpr outside)
    exact (Function.update_of_ne different ..).trans (holds.others other outside)

/-- A held block can be freed. -/
theorem free (holds : Holds start pool (address :: blocks)) :
    ∃ after, pool.free address = some after ∧ Holds start after blocks := by
  obtain ⟨number, live⟩ := holds.live address List.mem_cons_self
  obtain ⟨absent, distinct⟩ := List.nodup_cons.mp holds.distinct
  refine ⟨pool.drop address number live, free_live live, distinct, ?_, ?_, ?_⟩
  · intro other present
    exact holds.apart other (List.mem_cons_of_mem address present)
  · intro other present
    have different : other ≠ address := fun same => absent (same ▸ present)
    obtain ⟨entry, stored⟩ := holds.live other (List.mem_cons_of_mem address present)
    exact ⟨entry, (Function.update_of_ne different ..).trans stored⟩
  · intro other outside
    by_cases same : other = address
    · subst same
      rw [holds.apart other List.mem_cons_self]
      exact Function.update_self ..
    · refine (Function.update_of_ne same ..).trans (holds.others other ?_)
      exact fun present => (List.mem_cons.mp present).elim same outside

/-- A block of the start keeps its number. -/
theorem start_live (holds : Holds start pool blocks) {number : Nat} (live : start.serial address = some number) :
    pool.serial address = some number := by
  rw [holds.others address ?_, live]
  intro present
  rw [holds.apart address present] at live
  cases live

/-- A block in use is held or was there at the start. -/
theorem origin (holds : Holds start pool blocks) {number : Nat} (live : pool.serial address = some number) :
    address ∈ blocks ∨ start.serial address = some number := by
  by_cases present : address ∈ blocks
  · exact .inl present
  · rw [← holds.others address present]
    exact .inr live

/-- A pool whose blocks are held is balanced. -/
theorem balanced (holds : Holds start pool blocks) : Balanced start pool blocks where
  distinct := holds.distinct
  apart := holds.apart
  allocated address := by
    constructor
    · intro used
      obtain ⟨number, live⟩ := Option.isSome_iff_exists.mp used
      rcases holds.origin live with present | setup
      · exact .inr present
      · exact .inl (Option.isSome_of_eq_some setup)
    · rintro (used | present)
      · obtain ⟨number, live⟩ := Option.isSome_iff_exists.mp used
        exact Option.isSome_of_eq_some (holds.start_live live)
      · obtain ⟨number, live⟩ := holds.live address present
        exact Option.isSome_of_eq_some live
  kept _ _ live := holds.start_live live
  once := List.nodup_iff_count_le_one.mp pool.once
  freed := pool.freed_once

/-- Blocks held before and after a step are settled by it. -/
theorem settled {later : Pool} {remaining : List Nat} (before : Holds start pool blocks)
    (after : Holds start later remaining) (since : Since pool.issued pool later) :
    pool.Settled blocks later remaining := by
  intro number
  simp only [mem_numbers]
  constructor
  · intro freed
    have gone := ((later.spent number).mp freed).2
    by_cases older : number ∈ pool.freed
    · exact .inl older
    have early := (since.freed number freed).resolve_left older
    obtain ⟨address, live⟩ : ∃ address, pool.serial address = some number := by
      by_contra unused
      exact older ((pool.spent number).mpr ⟨early, not_exists.mp unused⟩)
    have held : address ∈ blocks := by
      refine (before.origin live).resolve_right fun setup => ?_
      exact gone address (after.start_live setup)
    exact .inr ⟨⟨address, held, live⟩, fun ⟨other, _, stays⟩ => gone other stays⟩
  · rintro (older | ⟨⟨address, held, live⟩, gone⟩)
    · exact since.kept number older
    refine (later.spent number).mpr ⟨(pool.early address number live).trans_le since.issued, ?_⟩
    intro other stays
    rcases after.origin stays with present | setup
    · exact gone ⟨other, present, stays⟩
    · -- A block of the setup is never held.
      have same := pool.unique address other number live (before.start_live setup)
      rw [same] at held
      rw [before.apart other held] at setup
      cases setup

end Holds
end Pool

namespace KeyTree.Slab

variable {ν : Type} {heap : Heap ν} {address : Nat}

/-- This allocator gives one address as soon as the block at `held` is free. -/
def answering (ν : Type) (held : Option Nat) (address : Nat) : Slab ν where
  alloc heap _ :=
    if held.any fun other => (heap other).isSome then none
    else if (heap address).isNone then some address else none
  alloc_free heap size other found := by
    split at found
    · cases found
    split at found
    · cases found
      rename_i free
      exact Option.isNone_iff_eq_none.mp free
    · cases found

/-- The allocator answers with the free address. -/
theorem answering_first (size : Nat) (free : heap address = none) :
    (answering ν none address).alloc heap size = some address := by
  simp [answering, free]

/-- The allocator has no room while the held address is in use. -/
theorem answering_held {held : Nat} (size : Nat) (present : (heap held).isSome) :
    (answering ν (some held) address).alloc heap size = none := by
  simp [answering, present]

/-- The allocator has room once the held address is free. -/
theorem answering_gone {held : Nat} (size : Nat) (gone : heap held = none) (free : heap address = none) :
    (answering ν (some held) address).alloc heap size = some address := by
  simp [answering, gone, free]

/-- This allocator gives the first free address below the bound. -/
def firstFree (ν : Type) (bound : Nat) : Slab ν where
  alloc heap _ := (List.range bound).find? fun address => (heap address).isNone
  alloc_free _ _ _ found := Option.isNone_iff_eq_none.mp (by simpa using List.find?_some found)

end KeyTree.Slab
end AuthHttpsig
