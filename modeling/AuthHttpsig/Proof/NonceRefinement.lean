/-
This file proves that the nonce store refines a map from keys to expiry times over every run
of calls.
-/

import AuthHttpsig.Proof.NonceInvariant

namespace AuthHttpsig.NonceStore

open SearchTree KeyTree

variable {rb : Balanced Nat}

/-- The store holds a record of the key with this expiry. -/
def Store.Record (store : Store rb) (key : Bytes) (expiresAt : Int) : Prop :=
  ∃ address node, store.heap address = some node ∧ node.nonceKey = key ∧ node.expiresAt = expiresAt

/-- The key has a record that is live at `now`. -/
def Store.Live (store : Store rb) (key : Bytes) (now : Int) : Prop :=
  ∃ expiresAt, now ≤ expiresAt ∧ store.Record key expiresAt

/-- Every expiry is a `time_t`. -/
def Store.Fits (store : Store rb) : Prop :=
  ∀ key expiresAt, store.Record key expiresAt → TimeT expiresAt

/-- The two trees hold the same nodes, each under its own expiry. -/
def Store.TreesAgree (store : Store rb) : Prop :=
  store.table.addresses.Perm store.timed ∧ store.table.addresses.Nodup ∧
    ∀ address ∈ store.timed, ∃ node,
      store.heap address = some node ∧ node.expKey.toInt = node.expiresAt

namespace Store
variable {crc : Bytes → UInt32} {store after : Store rb} {slab : Slab Node} {key : Bytes} {ttl now : Int}
  {rc : Rc}

/-- In a coherent store both trees hold the same records. -/
theorem Coherent.treesAgree (coherent : store.Coherent crc) (fits : store.Fits) : store.TreesAgree := by
  refine ⟨coherent.agree, coherent.table.nodup, ?_⟩
  intro address present
  obtain ⟨node, found⟩ := coherent.table.exists_node (coherent.agree.mem_iff.mpr present)
  have representable := fits node.nonceKey node.expiresAt ⟨address, node, found, rfl, rfl⟩
  exact ⟨node, found, by rw [coherent.expiring address node found, expKey_toInt representable]⟩

/-- A key has at most one record. -/
theorem Coherent.record_unique (coherent : store.Coherent crc) {expiresAt other : Int}
    (record : store.Record key expiresAt) (twin : store.Record key other) : expiresAt = other := by
  obtain ⟨address, node, found, keyed, rfl⟩ := record
  obtain ⟨place, entry, alsoFound, alsoKeyed, rfl⟩ := twin
  have same := coherent.table.address_unique found alsoFound (keyed.trans alsoKeyed.symm)
  subst same
  rw [found] at alsoFound
  cases alsoFound
  rfl

/-- This is everything that one call of the store can do. -/
inductive Outcome (crc : Bytes → UInt32) (slab : Slab Node) (store : Store rb) (key : Bytes) (ttl now : Int) :
    Rc → Store rb → Prop
  | live {address node} (found : store.heap address = some node) (keyed : node.nonceKey = key)
      (alive : now ≤ node.expiresAt) : Outcome crc slab store key ttl now .declined store
  | renewed {address node} (found : store.heap address = some node) (keyed : node.nonceKey = key)
      (expired : node.expiresAt < now) :
      Outcome crc slab store key ttl now .ok (store.renew address (now + ttl))
  | recorded {address swept}
      (absent : ∀ other node, store.heap other = some node → node.nonceKey ≠ key)
      (room : store.allocate slab key.length now = (some address, swept)) :
      Outcome crc slab store key ttl now .ok
        (swept.insert address ⟨crc key, expKey (now + ttl), key, now + ttl⟩)
  | full {swept}
      (absent : ∀ other node, store.heap other = some node → node.nonceKey ≠ key)
      (noRoom : store.allocate slab key.length now = (none, swept)) :
      Outcome crc slab store key ttl now .abort (swept.noteNomem now)

/-- A check has one of the outcomes of the specification. -/
theorem shmCheck_outcome (coherent : store.Coherent crc) (positive : 1 ≤ ttl)
    (call : store.shmCheck crc slab key ttl now = (rc, after)) :
    Outcome crc slab store key ttl now rc after := by
  unfold shmCheck at call
  rw [if_neg (by omega)] at call
  cases search : store.find (crc key) key with
  | some address =>
      obtain ⟨node, found, keyed⟩ := (Table.find_eq_some coherent.table key address).mp search
      simp only [search, Heap.node_eq found] at call
      split at call
      · cases call
        exact .live found keyed (by omega)
      · cases call
        exact .renewed found keyed (by omega)
  | none =>
      have absent := (Table.find_eq_none coherent.table key).mp search
      simp only [search] at call
      split at call
      · cases call
        exact .full absent ‹_›
      · cases call
        exact .recorded absent ‹_›

/-- The outcome keeps both trees coherent. -/
theorem Outcome.coherent (outcome : Outcome crc slab store key ttl now rc after)
    (coherent : store.Coherent crc) : after.Coherent crc := by
  cases outcome with
  | live => exact coherent
  | renewed found => exact renew_coherent coherent found (now + ttl)
  | recorded absent room =>
      obtain ⟨coherentSwept, swept, free⟩ := allocate_spec coherent room
      refine insert_coherent coherentSwept (free _ rfl) ?_ rfl rfl
      exact fun other node found => absent other node (swept.older found)
  | full _ noRoom => exact noteNomem_coherent (allocate_spec coherent noRoom).1 now

/-- A call declines exactly a key with a live record, and otherwise accepts or aborts. -/
theorem Outcome.declined_iff (outcome : Outcome crc slab store key ttl now rc after)
    (coherent : store.Coherent crc) : rc = .declined ↔ store.Live key now := by
  have absent_not_live : (∀ other node, store.heap other = some node → node.nonceKey ≠ key) →
      ¬ store.Live key now := by
    rintro absent ⟨_, _, other, node, found, keyed, _⟩
    exact absent other node found keyed
  cases outcome with
  | live found keyed alive => exact iff_of_true rfl ⟨_, alive, _, _, found, keyed, rfl⟩
  | renewed found keyed expired =>
      refine iff_of_false Rc.noConfusion ?_
      rintro ⟨expiresAt, alive, record⟩
      have same := coherent.record_unique record ⟨_, _, found, keyed, rfl⟩
      omega
  | recorded absent => exact iff_of_false Rc.noConfusion (absent_not_live absent)
  | full absent => exact iff_of_false Rc.noConfusion (absent_not_live absent)

/-- A call that is not declined is accepted or finds the store full. -/
theorem Outcome.answered (outcome : Outcome crc slab store key ttl now rc after)
    (accepted : rc ≠ .declined) : rc = .ok ∨ rc = .abort := by
  cases outcome with
  | live => exact absurd rfl accepted
  | renewed => exact Or.inl rfl
  | recorded => exact Or.inl rfl
  | full => exact Or.inr rfl

/-- The shared store never answers with an error. -/
theorem Outcome.ne_error (outcome : Outcome crc slab store key ttl now rc after) : rc ≠ .error := by
  cases outcome <;> exact nofun

/-- An accepted key has its new expiry. -/
theorem Outcome.records (outcome : Outcome crc slab store key ttl now rc after) (accepted : rc = .ok) :
    after.Record key (now + ttl) := by
  cases outcome with
  | live => cases accepted
  | @renewed address node found keyed =>
      refine ⟨address, { node with expiresAt := now + ttl, expKey := expKey (now + ttl) }, ?_, keyed, rfl⟩
      rw [renew_heap found]
      exact Function.update_self ..
  | @recorded address =>
      exact ⟨address, ⟨crc key, expKey (now + ttl), key, now + ttl⟩, Function.update_self .., rfl, rfl⟩
  | full => cases accepted

/-- No call removes or changes a live record. -/
theorem Outcome.keeps (outcome : Outcome crc slab store key ttl now rc after)
    (coherent : store.Coherent crc) {other : Bytes} {expiresAt : Int} (alive : now ≤ expiresAt)
    (record : store.Record other expiresAt) : after.Record other expiresAt := by
  obtain ⟨address, node, found, keyed, rfl⟩ := record
  refine ⟨address, node, ?_, keyed, rfl⟩
  cases outcome with
  | live => exact found
  | @renewed place entry present _ expired =>
      have different : address ≠ place := by
        rintro rfl
        rw [found] at present
        cases present
        omega
      exact (Function.update_of_ne different ..).trans found
  | @recorded place swept _ room =>
      obtain ⟨_, sweep, free⟩ := allocate_spec coherent room
      have kept := sweep.live found alive
      have different : address ≠ place := by
        rintro rfl
        rw [free address rfl] at kept
        cases kept
      exact (Function.update_of_ne different ..).trans kept
  | full _ noRoom =>
      rw [noteNomem_heap]
      exact (allocate_spec coherent noRoom).2.1.live found alive

/-- Every record after a call is older than the call or is the one that it made. -/
theorem Outcome.origin (outcome : Outcome crc slab store key ttl now rc after)
    (coherent : store.Coherent crc) {other : Bytes} {expiresAt : Int}
    (record : after.Record other expiresAt) :
    store.Record other expiresAt ∨ rc = .ok ∧ other = key ∧ expiresAt = now + ttl := by
  obtain ⟨address, node, found, keyed, rfl⟩ := record
  cases outcome with
  | live => exact Or.inl ⟨address, node, found, keyed, rfl⟩
  | @renewed place entry present presentKey =>
      rw [renew_heap present] at found
      rcases eq_or_ne address place with rfl | different
      · rw [Function.update_self] at found
        cases found
        exact Or.inr ⟨rfl, keyed.symm.trans presentKey, rfl⟩
      · rw [Function.update_of_ne different] at found
        exact Or.inl ⟨address, node, found, keyed, rfl⟩
  | @recorded place swept _ room =>
      change Function.update swept.heap place _ address = some node at found
      rcases eq_or_ne address place with rfl | different
      · rw [Function.update_self] at found
        cases found
        exact Or.inr ⟨rfl, keyed.symm, rfl⟩
      · rw [Function.update_of_ne different] at found
        exact Or.inl ⟨address, node, (allocate_spec coherent room).2.1.older found, keyed, rfl⟩
  | full _ noRoom =>
      rw [noteNomem_heap] at found
      exact Or.inl ⟨address, node, (allocate_spec coherent noRoom).2.1.older found, keyed, rfl⟩

/-- After a check the expiry times still fit their keys. -/
theorem Outcome.fits (outcome : Outcome crc slab store key ttl now rc after)
    (coherent : store.Coherent crc) (representable : TimeT (now + ttl)) (fits : store.Fits) :
    after.Fits := by
  intro other expiresAt record
  rcases outcome.origin coherent record with older | ⟨_, _, rfl⟩
  · exact fits other expiresAt older
  · exact representable

end Store

/-- The abstract store is a map from keys to expiry times. -/
abbrev Records := Bytes → Option Int

/-- A call of the store has its key, its lifetime, its clock and the pool that serves it. -/
structure Call where
  key : Bytes
  ttl : Int
  now : Int
  slab : Slab Node

/-- The abstract store changes only at an accepted key. -/
def Records.checked (records : Records) (call : Call) (rc : Rc) : Records :=
  if rc = .ok then Function.update records call.key (some (call.now + call.ttl)) else records

/-- The concrete store runs beside the abstract one. -/
structure World (rb : Balanced Nat) where
  store : Store rb
  records : Records

namespace World

def init (rb : Balanced Nat) : World rb := ⟨Store.initZone rb, fun _ => none⟩

def answer (crc : Bytes → UInt32) (world : World rb) (call : Call) : Rc :=
  (world.store.shmCheck crc call.slab call.key call.ttl call.now).1

def check (crc : Bytes → UInt32) (world : World rb) (call : Call) : World rb where
  store := (world.store.shmCheck crc call.slab call.key call.ttl call.now).2
  records := world.records.checked call (world.answer crc call)

/-- The calls run one after another under the lock of the zone. -/
def run (crc : Bytes → UInt32) (world : World rb) (calls : List Call) : World rb :=
  calls.foldl (check crc) world

/-- The two stores agree on every record that is live at `now`. -/
structure Refines (crc : Bytes → UInt32) (world : World rb) (now : Int) : Prop where
  coherent : world.store.Coherent crc
  agree : ∀ key expiresAt, now ≤ expiresAt →
    (world.store.Record key expiresAt ↔ world.records key = some expiresAt)

variable {crc : Bytes → UInt32} {world : World rb} {now : Int}

/-- The empty store refines the empty map. -/
theorem init_refines (rb : Balanced Nat) (crc : Bytes → UInt32) (now : Int) :
    (init rb).Refines crc now where
  coherent := Store.initZone_coherent rb crc
  agree key expiresAt _ := by
    refine iff_of_false ?_ nofun
    rintro ⟨address, node, found, _⟩
    cases found

/-- The refinement at one time is one at any later time. -/
theorem Refines.later (refines : world.Refines crc now) {time : Int} (later : now ≤ time) :
    world.Refines crc time :=
  ⟨refines.coherent, fun key expiresAt alive => refines.agree key expiresAt (le_trans later alive)⟩

/-- A key is live in the store exactly when the map has it with time left. -/
theorem Refines.live_iff (refines : world.Refines crc now) (key : Bytes) :
    world.store.Live key now ↔ ∃ expiresAt, now ≤ expiresAt ∧ world.records key = some expiresAt :=
  exists_congr fun expiresAt => and_congr_right (refines.agree key expiresAt)

/-- A call of the world has one of the outcomes of the specification. -/
theorem check_outcome {call : Call} (coherent : world.store.Coherent crc) (positive : 1 ≤ call.ttl) :
    Store.Outcome crc call.slab world.store call.key call.ttl call.now (world.answer crc call)
      (world.check crc call).store :=
  Store.shmCheck_outcome coherent positive rfl

/-- A caller bug leaves both stores as they are. -/
theorem check_of_nonpositive {call : Call} (nonpositive : call.ttl < 1) :
    world.answer crc call = .error ∧ world.check crc call = world := by
  have step : world.store.shmCheck crc call.slab call.key call.ttl call.now = (.error, world.store) :=
    if_pos nonpositive
  have answered : world.answer crc call = .error := congrArg Prod.fst step
  refine ⟨answered, ?_⟩
  rw [check, step, answered]
  rfl

/-- A step of both stores keeps their agreement. -/
theorem Refines.check {call : Call} (refines : world.Refines crc call.now) :
    (world.check crc call).Refines crc call.now := by
  rcases lt_or_ge call.ttl 1 with nonpositive | positive
  · rw [(check_of_nonpositive nonpositive).2]
    exact refines
  have outcome := check_outcome refines.coherent positive
  have coherentAfter := outcome.coherent refines.coherent
  refine ⟨coherentAfter, ?_⟩
  intro key expiresAt alive
  show _ ↔ world.records.checked call (world.answer crc call) key = some expiresAt
  by_cases accepted : world.answer crc call = .ok
  · rw [Records.checked, if_pos accepted, Function.update_apply]
    split
    · rename_i same
      subst same
      have recorded := outcome.records accepted
      rw [Option.some_inj]
      exact ⟨fun record => coherentAfter.record_unique recorded record, fun same => same ▸ recorded⟩
    · rename_i different
      rw [← refines.agree key expiresAt alive]
      refine ⟨fun record => ?_, outcome.keeps refines.coherent alive⟩
      exact (outcome.origin refines.coherent record).resolve_right fun made => different made.2.1
  · rw [Records.checked, if_neg accepted, ← refines.agree key expiresAt alive]
    refine ⟨fun record => ?_, outcome.keeps refines.coherent alive⟩
    exact (outcome.origin refines.coherent record).resolve_right fun made => accepted made.1

/-- A run of both stores keeps their agreement up to the clock of the next call. -/
theorem Refines.run {calls : List Call} (refines : world.Refines crc now)
    (ordered : calls.Pairwise fun earlier later => earlier.now ≤ later.now)
    (started : ∀ call ∈ calls, now ≤ call.now) {time : Int}
    (later : ∀ call ∈ calls, call.now ≤ time) (reached : now ≤ time) :
    (world.run crc calls).Refines crc time := by
  induction calls generalizing world now with
  | nil => exact refines.later reached
  | cons call rest ih =>
      obtain ⟨before, orderedRest⟩ := List.pairwise_cons.mp ordered
      have atCall := refines.later (started call (by simp))
      exact ih atCall.check orderedRest before (fun other inside => later other (by simp [inside]))
        (later call (by simp))

/-- Every run from a new zone keeps the two stores in agreement. -/
theorem init_run_refines (rb : Balanced Nat) (crc : Bytes → UInt32) {calls : List Call} {time : Int}
    (ordered : calls.Pairwise fun earlier later => earlier.now ≤ later.now)
    (later : ∀ call ∈ calls, call.now ≤ time) : ((init rb).run crc calls).Refines crc time := by
  cases calls with
  | nil => exact init_refines rb crc time
  | cons first rest =>
      refine (init_refines rb crc first.now).run ordered ?_ later (later first (by simp))
      intro call inside
      rcases List.mem_cons.mp inside with rfl | inside
      · exact le_refl _
      · exact (List.pairwise_cons.mp ordered).1 call inside

/-- After a run the expiry times still fit their keys. -/
theorem run_fits {calls : List Call} (coherent : world.store.Coherent crc) (fits : world.store.Fits)
    (positive : ∀ call ∈ calls, 1 ≤ call.ttl)
    (representable : ∀ call ∈ calls, TimeT (call.now + call.ttl)) : (world.run crc calls).store.Fits := by
  induction calls generalizing world with
  | nil => exact fits
  | cons call rest ih =>
      have outcome := check_outcome coherent (positive call (by simp))
      exact ih (outcome.coherent coherent)
        (outcome.fits coherent (representable call (by simp)) fits)
        (fun other inside => positive other (by simp [inside]))
        (fun other inside => representable other (by simp [inside]))

/-- This is the contract of one call against the abstract map. -/
structure MapStep (crc : Bytes → UInt32) (world : World rb) (call : Call) : Prop where
  declined_iff : world.answer crc call = .declined ↔ world.store.Live call.key call.now
  declined_iff_mapped : world.answer crc call = .declined ↔
    ∃ expiresAt, call.now ≤ expiresAt ∧ world.records call.key = some expiresAt
  answered : world.answer crc call ≠ .declined →
    world.answer crc call = .ok ∨ world.answer crc call = .abort
  recorded : world.answer crc call = .ok → ∀ expiresAt,
    (world.check crc call).store.Record call.key expiresAt ↔ expiresAt = call.now + call.ttl
  kept : ∀ key expiresAt, call.now ≤ expiresAt → world.store.Record key expiresAt →
    ∀ other, (world.check crc call).store.Record key other ↔ other = expiresAt
  mapped : ∀ key expiresAt, call.now ≤ expiresAt →
    ((world.check crc call).store.Record key expiresAt ↔
      (world.check crc call).records key = some expiresAt)
  trees : (world.check crc call).store.TreesAgree

/-- Each call on a refining store is a step of the map. -/
theorem Refines.mapStep {call : Call} (refines : world.Refines crc call.now) (fits : world.store.Fits)
    (positive : 1 ≤ call.ttl) (representable : TimeT (call.now + call.ttl)) : world.MapStep crc call := by
  have outcome := check_outcome refines.coherent positive
  have declined := outcome.declined_iff refines.coherent
  have after := refines.check
  refine ⟨declined, declined.trans (refines.live_iff call.key), outcome.answered, ?_, ?_, after.agree,
    after.coherent.treesAgree (outcome.fits refines.coherent representable fits)⟩
  · intro accepted expiresAt
    have recorded := outcome.records accepted
    exact ⟨fun record => after.coherent.record_unique record recorded, fun same => same ▸ recorded⟩
  · intro key expiresAt alive record other
    have kept := outcome.keeps refines.coherent alive record
    exact ⟨fun twin => after.coherent.record_unique twin kept, fun same => same ▸ kept⟩

end World

/-- In every run with a clock that never goes back, each call of the store is a call of the map. -/
theorem shmCheck_refines_map (rb : Balanced Nat) (crc : Bytes → UInt32) (calls : List Call) (call : Call)
    (ordered : (calls ++ [call]).Pairwise fun earlier later => earlier.now ≤ later.now)
    (admissible : ∀ other ∈ calls ++ [call], 1 ≤ other.ttl ∧ TimeT (other.now + other.ttl)) :
    ((World.init rb).run crc calls).MapStep crc call := by
  obtain ⟨orderedCalls, _, later⟩ := List.pairwise_append.mp ordered
  have positive : ∀ other ∈ calls, 1 ≤ other.ttl := fun other inside =>
    (admissible other (by simp [inside])).1
  have refines := World.init_run_refines rb crc orderedCalls fun other inside =>
    later other inside call (by simp)
  have nothing : (World.init rb).store.Fits := by
    rintro _ _ ⟨_, _, found, _⟩
    cases found
  have fits := World.run_fits (Store.initZone_coherent rb crc) nothing positive
    fun other inside => (admissible other (by simp [inside])).2
  exact refines.mapStep fits (admissible call (by simp)).1 (admissible call (by simp)).2

/-- This pool has room for two nodes. -/
def twoSlots : Slab Node where
  alloc heap _ := if heap 0 = none then some 0 else if heap 1 = none then some 1 else none
  alloc_free heap _ address found := by
    split at found
    · cases found
      assumption
    split at found
    · cases found
      assumption
    · cases found

/-- A replayed key on a store with two slots. -/
theorem shmCheck_refines_map_replay :
    (((World.init (plain Nat)).run crc32Long
        [⟨ascii "a", 5, 100, twoSlots⟩, ⟨ascii "b", 1, 101, twoSlots⟩]).MapStep crc32Long
          ⟨ascii "a", 5, 105, twoSlots⟩) ∧
      ((World.init (plain Nat)).run crc32Long
        [⟨ascii "a", 5, 100, twoSlots⟩, ⟨ascii "b", 1, 101, twoSlots⟩]).answer crc32Long
          ⟨ascii "a", 5, 105, twoSlots⟩ = .declined :=
  ⟨shmCheck_refines_map (plain Nat) crc32Long
      [⟨ascii "a", 5, 100, twoSlots⟩, ⟨ascii "b", 1, 101, twoSlots⟩] ⟨ascii "a", 5, 105, twoSlots⟩
      (by simp) (by simp [Checked.InRange]), by decide +kernel⟩

end AuthHttpsig.NonceStore
