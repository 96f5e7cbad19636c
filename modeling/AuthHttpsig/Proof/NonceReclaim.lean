/-
This file shows how many expired records the nonce store frees before it gives up.
-/

import AuthHttpsig.Proof.NonceRefinement

namespace AuthHttpsig.NonceStore

open SearchTree KeyTree

variable {rb : Balanced Nat}

/-- A time after the epoch does not overflow. -/
def Epoch (time : Int) : Prop := 0 ≤ time ∧ TimeT time

instance (time : Int) : Decidable (Epoch time) := inferInstanceAs (Decidable (_ ∧ _))

/-- The signed difference of two times after the epoch is their order. -/
theorem insertTimerLeft_iff {node temp : Node} (key : node.expKey = expKey node.expiresAt)
    (tempKey : temp.expKey = expKey temp.expiresAt) (fits : Epoch node.expiresAt)
    (tempFits : Epoch temp.expiresAt) :
    insertTimerLeft node temp = true ↔ node.expiresAt < temp.expiresAt := by
  obtain ⟨low, high⟩ := fits
  obtain ⟨tempLow, tempHigh⟩ := tempFits
  have difference : (node.expKey - temp.expKey).toInt = node.expiresAt - temp.expiresAt := by
    rw [BitVec.toInt_sub, key, tempKey, expKey_toInt high, expKey_toInt tempHigh]
    have := high.2
    have := tempHigh.2
    exact Int.bmod_eq_of_le (by norm_num; omega) (by norm_num; omega)
  rw [insertTimerLeft, BitVec.msb_eq_toInt, difference, decide_eq_true_iff]
  omega

namespace Store

/-- This is the expiry of the record at an address. -/
def expiry (store : Store rb) (address : Nat) : Int := (store.heap.node address).expiresAt

/-- These are the addresses of the expired records. -/
def expired (store : Store rb) (now : Int) : List Nat :=
  store.timed.filter fun address => store.expiry address < now

/-- The expiry tree stands in the order of the expiries. -/
structure Timely (store : Store rb) : Prop where
  ordered : store.timed.Pairwise fun earlier later => store.expiry earlier ≤ store.expiry later
  fits : ∀ address node, store.heap address = some node → Epoch node.expiresAt

variable {crc : Bytes → UInt32} {store : Store rb} {now : Int}

/-- A fresh store is timely. -/
theorem initZone_timely (rb : Balanced Nat) : (Store.initZone rb).Timely where
  ordered := by simp [timed, initZone, rb.shape_empty]
  fits := by simp [heap, Table.empty, initZone]

theorem expiry_eq {address : Nat} {node : Node} (found : store.heap address = some node) :
    store.expiry address = node.expiresAt := by
  rw [expiry, Heap.node_eq found]

/-- Every address of the tree of times has a record. -/
theorem Coherent.timed_node (coherent : store.Coherent crc) {address : Nat} (present : address ∈ store.timed) :
    ∃ node, store.heap address = some node :=
  coherent.table.exists_node (coherent.agree.mem_iff.mpr present)

/-- No record has expired exactly when every record is live. -/
theorem expired_eq_nil (coherent : store.Coherent crc) :
    store.expired now = [] ↔ ∀ key expiresAt, store.Record key expiresAt → now ≤ expiresAt := by
  rw [expired, List.filter_eq_nil_iff]
  constructor
  · rintro live _ _ ⟨address, node, found, rfl, rfl⟩
    have present : address ∈ store.timed := coherent.agree.mem_iff.mp (coherent.table.mem_addresses found)
    have alive := live address present
    rw [expiry_eq found, decide_eq_true_iff] at alive
    omega
  · intro live address present
    obtain ⟨node, found⟩ := coherent.timed_node present
    have alive := live node.nonceKey node.expiresAt ⟨address, node, found, rfl, rfl⟩
    rw [expiry_eq found, decide_eq_true_iff]
    omega

/-- A deleted record leaves the tree of times, the others keep their order. -/
theorem delete_timed (coherent : store.Coherent crc) (address : Nat) :
    (store.delete address).timed = store.timed.erase address := by
  rw [timed, delete, rb.inorder_delete, inorder_remove coherent.timed_nodup, timed]

theorem delete_expiry {address other : Nat} (different : other ≠ address) :
    (store.delete address).expiry other = store.expiry other := by
  show (Heap.node (Function.update store.heap address none) other).expiresAt = _
  rw [Heap.node_update_of_ne _ different, expiry]

/-- Deleting a record keeps the store timely. -/
theorem delete_timely (coherent : store.Coherent crc) (timely : store.Timely) (address : Nat) :
    (store.delete address).Timely where
  ordered := by
    rw [delete_timed coherent]
    refine (timely.ordered.sublist List.erase_sublist).imp_of_mem ?_
    intro first second firstIn secondIn before
    rw [delete_expiry ((List.Nodup.mem_erase_iff coherent.timed_nodup).mp firstIn).1,
      delete_expiry ((List.Nodup.mem_erase_iff coherent.timed_nodup).mp secondIn).1]
    exact before
  fits other node found := by
    exact timely.fits other node (Heap.of_freed found).2

/-- The first of the order leaves the tree. -/
theorem delete_expired (coherent : store.Coherent crc) {address : Nat} {rest : List Nat}
    (listed : store.timed = address :: rest) (old : store.expiry address < now) :
    (store.expired now).length = ((store.delete address).expired now).length + 1 := by
  have distinct := coherent.timed_nodup
  rw [listed] at distinct
  have same : ∀ other ∈ rest, (store.delete address).expiry other = store.expiry other := by
    intro other inside
    refine delete_expiry ?_
    rintro rfl
    exact (List.nodup_cons.mp distinct).1 inside
  rw [expired, expired, delete_timed coherent, listed, List.erase_cons_head,
    List.filter_cons_of_pos (by simpa using old), List.length_cons]
  congr 2
  refine List.filter_congr ?_
  intro other inside
  rw [same other inside]

/-- A pass frees as many expired records as it has rounds. -/
theorem reclaim_expired (coherent : store.Coherent crc) (timely : store.Timely) (now : Int) (room : Nat) :
    (store.reclaim now room).2.Timely ∧
      ((store.reclaim now room).2.expired now).length = (store.expired now).length - room := by
  induction room generalizing store with
  | zero => exact ⟨timely, rfl⟩
  | succ room ih =>
      rw [reclaim]
      split
      · rename_i least
        rw [leftmost_eq, List.head?_eq_none_iff] at least
        have nothing : store.expired now = [] := by rw [expired, timed, least, List.filter_nil]
        exact ⟨timely, by rw [nothing, List.length_nil, Nat.zero_sub]⟩
      rename_i address least
      rw [leftmost_eq] at least
      obtain ⟨rest, listed⟩ := List.head?_eq_some_iff.mp least
      change store.timed = address :: rest at listed
      split
      · -- The first record is live, and no later record expires before it.
        rename_i live
        change store.expiry address ≥ now at live
        have ordered := timely.ordered
        rw [listed] at ordered
        have nothing : store.expired now = [] := by
          rw [expired, listed, List.filter_eq_nil_iff]
          intro other inside
          rw [decide_eq_true_iff]
          rcases List.mem_cons.mp inside with rfl | later
          · omega
          · have := (List.pairwise_cons.mp ordered).1 other later
            omega
        exact ⟨timely, by rw [nothing, List.length_nil, Nat.zero_sub]⟩
      · rename_i old
        change ¬ store.expiry address ≥ now at old
        obtain ⟨timelyAfter, counted⟩ := ih (delete_coherent coherent address)
          (delete_timely coherent timely address)
        have fewer := delete_expired coherent listed (by omega : store.expiry address < now)
        refine ⟨timelyAfter, ?_⟩
        rw [counted]
        omega

/-- A node that takes its place by its expiry keeps the order. -/
theorem timely_of_placed {after : Store rb} {address : Nat} {node : Node} {tree : BinaryTree Nat}
    (key : node.expKey = NonceStore.expKey node.expiresAt) (fits : Epoch node.expiresAt)
    (ordered : (inorder tree).Pairwise fun earlier later => store.expiry earlier ≤ store.expiry later)
    (stored : ∀ other ∈ inorder tree, ∃ entry, store.heap other = some entry ∧
      entry.expKey = NonceStore.expKey entry.expiresAt ∧ Epoch entry.expiresAt)
    (fresh : address ∉ inorder tree) (heap : after.heap = Function.update store.heap address (some node))
    (placed : after.timed = inorder (leafInsert (fun temp => insertTimerLeft node (store.heap.node temp))
      address tree))
    (range : ∀ other entry, store.heap other = some entry → Epoch entry.expiresAt) : after.Timely where
  ordered := by
    have here : after.expiry address = node.expiresAt :=
      expiry_eq (by rw [heap, Function.update_self])
    have elsewhere : ∀ other ∈ inorder tree, after.expiry other = store.expiry other := by
      intro other inside
      have different : other ≠ address := by
        rintro rfl
        exact fresh inside
      rw [expiry, heap, Heap.node_update_of_ne _ different, expiry]
    have descent : ∀ other ∈ inorder tree,
        insertTimerLeft node (store.heap.node other) = true ↔ node.expiresAt < store.expiry other := by
      intro other inside
      obtain ⟨entry, found, entryKey, entryFits⟩ := stored other inside
      rw [expiry_eq found, Heap.node_eq found]
      exact insertTimerLeft_iff key entryKey fits entryFits
    rw [placed]
    have trans : ∀ first second third, after.expiry first ≤ after.expiry second →
        after.expiry second ≤ after.expiry third → after.expiry first ≤ after.expiry third :=
      fun _ _ _ => le_trans
    refine leafInsert_pairwise trans ?_ ?_ ?_
    · refine ordered.imp_of_mem ?_
      intro first second firstIn secondIn before
      rw [elsewhere first firstIn, elsewhere second secondIn]
      exact before
    · intro other inside goes
      rw [here, elsewhere other inside]
      exact le_of_lt ((descent other inside).mp goes)
    · intro other inside stays
      rw [here, elsewhere other inside]
      by_contra before
      rw [(descent other inside).mpr (by omega)] at stays
      cases stays
  fits other entry found := by
    rw [heap] at found
    rcases Heap.of_written found with ⟨_, rfl⟩ | ⟨_, older⟩
    · exact fits
    · exact range other entry older

/-- A record in the tree of times is stored under the key of its expiry. -/
theorem Coherent.stored (coherent : store.Coherent crc) (timely : store.Timely) {address : Nat}
    (present : address ∈ store.timed) : ∃ entry, store.heap address = some entry ∧
      entry.expKey = NonceStore.expKey entry.expiresAt ∧ Epoch entry.expiresAt := by
  obtain ⟨entry, found⟩ := coherent.timed_node present
  exact ⟨entry, found, coherent.expiring address entry found, timely.fits address entry found⟩

/-- Inserting a record keeps the store timely. -/
theorem insert_timely (coherent : store.Coherent crc) (timely : store.Timely) {address : Nat}
    (free : store.heap address = none) {node : Node} (key : node.expKey = NonceStore.expKey node.expiresAt)
    (fits : Epoch node.expiresAt) : (store.insert address node).Timely := by
  refine timely_of_placed key fits timely.ordered (fun other => coherent.stored timely) ?_ rfl
    (rb.inorder_insert ..) timely.fits
  intro present
  obtain ⟨entry, found⟩ := coherent.timed_node present
  rw [free] at found
  cases found

/-- Renewing a record keeps the store timely. -/
theorem renew_timely (coherent : store.Coherent crc) (timely : store.Timely) {address : Nat} {node : Node}
    (found : store.heap address = some node) {expiresAt : Int} (fits : Epoch expiresAt) :
    (store.renew address expiresAt).Timely := by
  have erased : inorder (rb.shape (rb.delete address store.expRbtree)) = store.timed.erase address :=
    delete_timed coherent address
  have placed : (store.renew address expiresAt).timed = inorder (leafInsert
      (fun temp => insertTimerLeft { node with expiresAt := expiresAt, expKey := expKey expiresAt }
        (store.heap.node temp)) address (rb.shape (rb.delete address store.expRbtree))) := by
    rw [timed, renew, rb.inorder_insert, Heap.node_eq found]
  refine timely_of_placed rfl fits ?_ ?_ ?_ (renew_heap found expiresAt) placed timely.fits
  · rw [erased]
    exact timely.ordered.sublist List.erase_sublist
  · intro other inside
    rw [erased] at inside
    exact coherent.stored timely (List.mem_of_mem_erase inside)
  · rw [erased]
    exact fun inside => ((List.Nodup.mem_erase_iff coherent.timed_nodup).mp inside).1 rfl

/-- An allocation with its reclaims keeps the store timely. -/
theorem allocate_timely (coherent : store.Coherent crc) (timely : store.Timely) {slab : Slab Node}
    {keyLength : Nat} {answer : Option Nat} {swept : Store rb}
    (run : store.allocate slab keyLength now = (answer, swept)) : swept.Timely := by
  obtain ⟨coherentOnce, _⟩ := reclaim_spec now reclaimBatch coherent
  obtain ⟨timelyOnce, _⟩ := reclaim_expired coherent timely now reclaimBatch
  obtain ⟨timelyTwice, _⟩ := reclaim_expired coherentOnce timelyOnce now reclaimBatch
  unfold allocate at run
  dsimp only at run
  split at run
  · cases run
    exact timelyOnce
  split at run <;> cases run <;> exact timelyTwice

/-- Two passes have run when there is no room. -/
theorem allocate_full (coherent : store.Coherent crc) (timely : store.Timely) {slab : Slab Node}
    {keyLength : Nat} {swept : Store rb} (run : store.allocate slab keyLength now = (none, swept)) :
    (swept.expired now).length = (store.expired now).length - 2 * reclaimBatch := by
  obtain ⟨coherentOnce, _⟩ := reclaim_spec now reclaimBatch coherent
  obtain ⟨timelyOnce, once⟩ := reclaim_expired coherent timely now reclaimBatch
  obtain ⟨_, twice⟩ := reclaim_expired coherentOnce timelyOnce now reclaimBatch
  have both : (((store.reclaim now reclaimBatch).2.reclaim now reclaimBatch).2.expired now).length =
      (store.expired now).length - 2 * reclaimBatch := by
    rw [twice, once]
    omega
  unfold allocate at run
  dsimp only at run
  split at run
  · cases run
  split at run
  · obtain ⟨_, rfl⟩ := Prod.mk.inj run
    exact both
  · cases run
    exact both

theorem noteNomem_timed (now : Int) : (store.noteNomem now).timed = store.timed := by
  unfold noteNomem
  split <;> rfl

/-- Noting a full store keeps it timely. -/
theorem noteNomem_timely (timely : store.Timely) (now : Int) : (store.noteNomem now).Timely := by
  unfold noteNomem
  split
  · exact ⟨timely.ordered, timely.fits⟩
  · exact timely

/-- Every outcome of a check keeps the store timely. -/
theorem Outcome.timely {slab : Slab Node} {key : Bytes} {ttl : Int} {rc : Rc} {after : Store rb}
    (outcome : Outcome crc slab store key ttl now rc after) (coherent : store.Coherent crc)
    (timely : store.Timely) (fits : Epoch (now + ttl)) : after.Timely := by
  cases outcome with
  | live => exact timely
  | renewed found => exact renew_timely coherent timely found fits
  | recorded _ room =>
      obtain ⟨coherentSwept, _, free⟩ := allocate_spec coherent room
      exact insert_timely coherentSwept (allocate_timely coherent timely room) (free _ rfl) rfl fits
  | full _ noRoom => exact noteNomem_timely (allocate_timely coherent timely noRoom) now

/-- A call that gives up leaves no expired record exactly when two passes are enough for them. -/
theorem Outcome.gave_up_iff {slab : Slab Node} {key : Bytes} {ttl : Int} {after : Store rb}
    (outcome : Outcome crc slab store key ttl now .abort after) (coherent : store.Coherent crc)
    (timely : store.Timely) :
    (∀ other expiresAt, after.Record other expiresAt → now ≤ expiresAt) ↔
      (store.expired now).length ≤ 2 * reclaimBatch := by
  rw [← expired_eq_nil (outcome.coherent coherent), ← List.length_eq_zero_iff]
  cases outcome with
  | @full swept _ noRoom =>
      have unnoted : (swept.noteNomem now).expired now = swept.expired now := by
        rw [expired, expired, noteNomem_timed]
        congr 1
        ext address
        rw [expiry, noteNomem_heap, expiry]
      rw [unnoted, allocate_full coherent timely noRoom]
      omega

end Store

namespace World

variable {crc : Bytes → UInt32} {world : World rb}

/-- Every run with clocks after the epoch keeps the expiry tree in order. -/
theorem run_timely {calls : List Call} (coherent : world.store.Coherent crc) (timely : world.store.Timely)
    (admissible : ∀ call ∈ calls, 1 ≤ call.ttl → Epoch (call.now + call.ttl)) :
    (world.run crc calls).store.Coherent crc ∧ (world.run crc calls).store.Timely := by
  induction calls generalizing world with
  | nil => exact ⟨coherent, timely⟩
  | cons call rest ih =>
      have later := fun other inside => admissible other (List.mem_cons_of_mem call inside)
      rcases lt_or_ge call.ttl 1 with nonpositive | positive
      · have unchanged : world.run crc (call :: rest) = world.run crc rest := by
          show (world.check crc call).run crc rest = _
          rw [(check_of_nonpositive nonpositive).2]
        rw [unchanged]
        exact ih coherent timely later
      · have outcome := check_outcome coherent positive
        exact ih (outcome.coherent coherent)
          (outcome.timely coherent timely (admissible call (by simp) positive)) later

/-- In every run with clocks after the epoch, a call that gives up leaves only live records exactly when
at most four records had expired. -/
theorem gave_up_iff_few_expired (rb : Balanced Nat) (crc : Bytes → UInt32) (calls : List Call) (call : Call)
    (admissible : ∀ earlier ∈ calls, 1 ≤ earlier.ttl → Epoch (earlier.now + earlier.ttl))
    (gaveUp : ((init rb).run crc calls).answer crc call = .abort) :
    (∀ key expiresAt, (((init rb).run crc calls).check crc call).store.Record key expiresAt →
        call.now ≤ expiresAt) ↔
      (((init rb).run crc calls).store.expired call.now).length ≤ 2 * reclaimBatch := by
  obtain ⟨coherent, timely⟩ : ((init rb).run crc calls).store.Coherent crc ∧ ((init rb).run crc calls).store.Timely :=
    run_timely (Store.initZone_coherent rb crc) (Store.initZone_timely rb) admissible
  rcases lt_or_ge call.ttl 1 with nonpositive | positive
  · rw [(check_of_nonpositive nonpositive).1] at gaveUp
    cases gaveUp
  · have outcome := check_outcome coherent positive
    rw [gaveUp] at outcome
    exact outcome.gave_up_iff coherent timely

end World

/-- This pool has eight slots for short keys only. -/
def shortKeys : Slab Node where
  alloc heap size := if size ≤ 1 then (List.range 8).find? fun address => (heap address).isNone else none
  alloc_free heap size address found := by
    split at found
    · simpa using List.find?_some found
    · cases found

/-- Records with short keys expire at 101. -/
def shortCalls (keys : List String) : List Call :=
  keys.map fun key => ⟨ascii key, 1, 100, shortKeys⟩

/-- Four expired records are within the two batches of one call. -/
theorem gave_up_iff_few_expired_four :
    (∀ key expiresAt, (((World.init (plain Nat)).run crc32Long (shortCalls ["a", "b", "c", "d"])).check
        crc32Long ⟨ascii "long", 1, 200, shortKeys⟩).store.Record key expiresAt → 200 ≤ expiresAt) ↔
      (((World.init (plain Nat)).run crc32Long (shortCalls ["a", "b", "c", "d"])).store.expired 200).length ≤
        2 * reclaimBatch :=
  World.gave_up_iff_few_expired (plain Nat) crc32Long (shortCalls ["a", "b", "c", "d"])
    ⟨ascii "long", 1, 200, shortKeys⟩ (by decide) (by decide +kernel)

/-- Five short records have expired, and a long key finds no room beside the last of them. -/
theorem gave_up_beside_expired :
    ¬ ∀ (crc : Bytes → UInt32) (calls : List Call) (call : Call),
      ((calls ++ [call]).Pairwise fun earlier later => earlier.now ≤ later.now) →
      (∀ other ∈ calls ++ [call], 1 ≤ other.ttl ∧ Epoch (other.now + other.ttl)) →
      ((World.init (plain Nat)).run crc calls).answer crc call = .abort →
      ∀ key expiresAt, (((World.init (plain Nat)).run crc calls).check crc call).store.Record key expiresAt →
        call.now ≤ expiresAt := by
  intro live
  have alive := live crc32Long (shortCalls ["a", "b", "c", "d", "e"]) ⟨ascii "long", 1, 200, shortKeys⟩
    (by simp [shortCalls]) (by decide) (by decide +kernel) (ascii "e") 101
    ⟨4, ⟨crc32Long (ascii "e"), expKey 101, ascii "e", 101⟩, by decide +kernel, rfl, rfl⟩
  exact absurd alive (by decide)

end AuthHttpsig.NonceStore
