/-
This file says once what each operation of the key-directory cache can do to the nodes.
-/

import AuthHttpsig.Construction.Cache

namespace AuthHttpsig.Cache

open SearchTree KeyTree

variable {rb : Balanced Nat}

namespace Zone

/-- The tree of the zone is coherent. -/
def Coherent (crc : Bytes → UInt32) (zone : Zone rb) : Prop := zone.table.Coherent Node.identity crc

/-- A new node takes the room of this node when the slab has no room for it. -/
def evictee (slab : Slab Node) (zone : Zone rb) (host : Bytes) (now : Int) : Option Nat :=
  match slab.alloc zone.heap host.length with
  | some _ => none
  | none => zone.findVictim now

/-- An eviction frees only this node, and only when nobody fetches it. -/
def Evicted (lost : Option Nat) (before after : Heap Node) : Prop :=
  ∀ address, after address = before address ∨
    after address = none ∧ lost = some address ∧ ∃ node, before address = some node ∧ node.fetching = false

theorem Evicted.refl (lost : Option Nat) (heap : Heap Node) : Evicted lost heap heap :=
  fun _ => .inl rfl

/-- An eviction adds no node. -/
theorem Evicted.older {lost : Option Nat} {before after : Heap Node} (evicted : Evicted lost before after)
    {address : Nat} {node : Node} (found : after address = some node) : before address = some node := by
  rcases evicted address with same | ⟨freed, _⟩
  · rw [← same, found]
  · rw [freed] at found
    cases found

/-- A node stays unless it is the one that is lost. -/
theorem Evicted.survives {lost : Option Nat} {before after : Heap Node} (evicted : Evicted lost before after)
    {address : Nat} {node : Node} (found : before address = some node) :
    after address = some node ∨ lost = some address := by
  rcases evicted address with same | ⟨_, freed, _⟩
  · exact .inl (same.trans found)
  · exact .inr freed

/-- A node that is being fetched is never lost. -/
theorem Evicted.keeps {lost : Option Nat} {before after : Heap Node} (evicted : Evicted lost before after)
    {address : Nat} {node : Node} (found : before address = some node) (fetching : node.fetching = true) :
    after address = some node := by
  rcases evicted address with same | ⟨_, _, idle, present, stopped⟩
  · rw [same, found]
  · rw [found] at present
    cases present
    rw [fetching] at stopped
    cases stopped

variable {crc : Bytes → UInt32} {zone : Zone rb} {host : Bytes} {now : Int}

/-- The zone starts coherent. -/
theorem initZone_coherent (rb : Balanced Nat) (crc : Bytes → UInt32) : (initZone rb).Coherent crc :=
  Table.empty_coherent rb Node.identity crc

/-- A search finds the node of the host. -/
theorem find_eq_some (coherent : zone.Coherent crc) (host : Bytes) (address : Nat) :
    zone.find (crc host) host = some address ↔
      ∃ node, zone.heap address = some node ∧ node.host = host :=
  Table.find_eq_some coherent host address

/-- A search fails exactly when no node has the host. -/
theorem find_eq_none (coherent : zone.Coherent crc) (host : Bytes) :
    zone.find (crc host) host = none ↔
      ∀ address node, zone.heap address = some node → node.host ≠ host :=
  Table.find_eq_none coherent host

/-- Two nodes of one host are one node. -/
theorem address_unique (coherent : zone.Coherent crc) {address other : Nat} {node twin : Node}
    (found : zone.heap address = some node) (alsoFound : zone.heap other = some twin)
    (same : node.host = twin.host) : address = other :=
  Table.Coherent.address_unique coherent found alsoFound same

/-- A change of a node that keeps its host and its hash keeps the zone coherent. -/
theorem set_coherent (coherent : zone.Coherent crc) {address : Nat} {node changed : Node}
    (found : zone.heap address = some node) (same : changed.identity = node.identity) :
    (zone.set address changed).Coherent crc :=
  Table.Coherent.set coherent found same

/-- The walk takes a node that nobody fetches. -/
theorem findVictim_spec (coherent : zone.Coherent crc) {victim : Nat}
    (found : zone.findVictim now = some victim) :
    ∃ node, zone.heap victim = some node ∧ node.fetching = false := by
  obtain ⟨node, present⟩ := Table.Coherent.exists_node coherent (List.mem_of_find?_eq_some found)
  have safe := List.find?_some found
  rw [Heap.node_eq present] at safe
  simp only [Bool.and_eq_true, Bool.not_eq_true'] at safe
  exact ⟨node, present, safe.1⟩

/-- An allocation evicts, and gives a new node when there is room. -/
inductive Allocated (crc : Bytes → UInt32) (zone : Zone rb) (host : Bytes) (lost : Option Nat) :
    Option Nat → Zone rb → Prop
  | full {after} (coherent : after.Coherent crc) (evicted : Evicted lost zone.heap after.heap)
      (counter : after.generation = zone.generation) : Allocated crc zone host lost none after
  | created {address after} {middle : Heap Node} (coherent : after.Coherent crc)
      (evicted : Evicted lost zone.heap middle) (free : middle address = none)
      (heap : after.heap = Function.update middle address (some (newNode (crc host) host)))
      (counter : after.generation = zone.generation) : Allocated crc zone host lost (some address) after

/-- A new node of an absent host keeps the zone coherent. -/
theorem insertNew_coherent (coherent : zone.Coherent crc) {address : Nat} (free : zone.heap address = none)
    (absent : ∀ other node, zone.heap other = some node → node.host ≠ host) :
    (zone.insertNew address (crc host) host).Coherent crc :=
  Table.Coherent.insert coherent free absent rfl

/-- An allocation for an absent host evicts at most one node. -/
theorem allocNode_allocated (coherent : zone.Coherent crc) {slab : Slab Node} {answer : Option Nat}
    {after : Zone rb} (absent : ∀ other node, zone.heap other = some node → node.host ≠ host)
    (run : zone.allocNode slab host (crc host) now = (answer, after)) :
    Allocated crc zone host (zone.evictee slab host now) answer after := by
  unfold allocNode at run
  split at run
  · rename_i address room
    cases run
    have free := slab.alloc_free _ _ _ room
    exact .created (insertNew_coherent coherent free absent) (.refl _ _) free rfl rfl
  rename_i exhausted
  have lost : zone.evictee slab host now = zone.findVictim now := by simp only [evictee, exhausted]
  rw [lost]
  split at run
  · cases run
    exact .full coherent (.refl _ _) rfl
  · rename_i victim found
    rw [found]
    obtain ⟨node, present, idle⟩ := findVictim_spec coherent found
    have coherentAfter : Coherent crc { zone with table := zone.table.delete victim } :=
      Table.Coherent.delete coherent victim
    have evicted : Evicted (some victim) zone.heap (zone.table.delete victim).heap := by
      intro address
      rcases eq_or_ne address victim with rfl | different
      · exact .inr ⟨Function.update_self .., rfl, node, present, idle⟩
      · exact .inl (Function.update_of_ne different ..)
    dsimp only at run
    split at run
    · rename_i address room
      cases run
      have free := slab.alloc_free _ _ _ room
      exact .created (insertNew_coherent coherentAfter free fun other entry stored =>
        absent other entry (evicted.older stored)) evicted free rfl rfl
    · cases run
      exact .full coherentAfter evicted rfl

/-- The entry of a host is its node, or a new node that took some room. -/
structure Entry (crc : Bytes → UInt32) (zone : Zone rb) (host : Bytes) (lost : Option Nat) (address : Nat)
    (node : Node) (after : Zone rb) : Prop where
  coherent : after.Coherent crc
  found : after.heap address = some node
  named : node.host = host
  counter : after.generation = zone.generation
  origin : ∀ other entry, after.heap other = some entry →
    zone.heap other = some entry ∨ other = address ∧ entry = newNode (crc host) host
  fresh : zone.heap address = some node ∨ node = newNode (crc host) host ∧
    ∀ other entry, zone.heap other = some entry → entry.host ≠ host
  keeps : ∀ other entry, zone.heap other = some entry → entry.fetching = true →
    after.heap other = some entry
  survives : ∀ other entry, zone.heap other = some entry → after.heap other = some entry ∨
    lost = some other ∧ ∀ place stored, zone.heap place = some stored → stored.host ≠ host

/-- A found node is the entry of its host. -/
theorem Entry.ofFound (coherent : zone.Coherent crc) {address : Nat} {node : Node}
    (found : zone.heap address = some node) (named : node.host = host) (lost : Option Nat) :
    Entry crc zone host lost address node zone where
  coherent := coherent
  found := found
  named := named
  counter := rfl
  origin _ _ stored := .inl stored
  fresh := .inl found
  keeps _ _ stored _ := stored
  survives _ _ stored := .inl stored

/-- A new node is the entry of its host. -/
theorem Entry.ofAllocated {lost : Option Nat} {address : Nat} {after : Zone rb}
    (absent : ∀ other node, zone.heap other = some node → node.host ≠ host)
    (allocated : Allocated crc zone host lost (some address) after) :
    Entry crc zone host lost address (newNode (crc host) host) after := by
  cases allocated with
  | @created _ _ middle coherent evicted free heap counter =>
      have older {other : Nat} {entry : Node} (kept : middle other = some entry) :
          after.heap other = some entry := by
        have different : other ≠ address := by
          rintro rfl
          rw [free] at kept
          cases kept
        rw [heap, Function.update_of_ne different, kept]
      refine ⟨coherent, ?_, rfl, counter, ?_, .inr ⟨rfl, absent⟩, ?_, ?_⟩
      · rw [heap, Function.update_self]
      · intro other entry stored
        rw [heap] at stored
        rcases eq_or_ne other address with rfl | different
        · rw [Function.update_self] at stored
          cases stored
          exact .inr ⟨rfl, rfl⟩
        · rw [Function.update_of_ne different] at stored
          exact .inl (evicted.older stored)
      · intro other entry stored fetching
        exact older (evicted.keeps stored fetching)
      · intro other entry stored
        exact (evicted.survives stored).imp older fun freed => ⟨freed, absent⟩

/-- This is everything that a lookup can do. -/
inductive LookedUp (crc : Bytes → UInt32) (zone : Zone rb) (host : Bytes) (now : Int) (lost : Option Nat) :
    Answer → Zone rb → Prop
  | refused {answer} (status : answer.status ≠ some .claimed) (empty : answer.jwks = [])
      (unknown : answer.generation = 0) : LookedUp crc zone host now lost answer zone
  | copied {answer address node} (served : answer.status = some .hit ∨ answer.status = some .busy)
      (found : zone.heap address = some node) (named : node.host = host) (filled : node.jwks ≠ [])
      (jwks : answer.jwks = node.jwks) (generation : answer.generation = node.generation) :
      LookedUp crc zone host now lost answer zone
  | unavailable {after} (absent : ∀ other node, zone.heap other = some node → node.host ≠ host)
      (full : Allocated crc zone host lost none after) :
      LookedUp crc zone host now lost ⟨some .unavailable, [], 0⟩ after
  | claimed {address node created} (entry : Entry crc zone host lost address node created)
      (expired : ¬ (node.fetching = true ∧ now - node.fetchingSince < fetchTimeout)) :
      LookedUp crc zone host now lost ⟨some .claimed, [], 0⟩
        (created.set address { node with fetching := true, fetchingSince := now })

/-- An answer with the stored document leaves the zone as it is. -/
theorem copyJwks_lookedUp {memory : Memory} {status : Status} {address : Nat} {node : Node}
    (served : status = .hit ∨ status = .busy) (found : zone.heap address = some node)
    (named : node.host = host) (filled : node.jwks.length > 0) (lost : Option Nat) :
    LookedUp crc zone host now lost (copyJwks memory status node) zone := by
  unfold copyJwks
  split
  · exact .copied (by simpa using served) found named (List.length_pos_iff.mp filled) rfl rfl
  · exact .refused (by simp) rfl rfl

/-- A lookup ends in one of these ways. -/
theorem lookup_lookedUp (coherent : zone.Coherent crc) {memory : Memory} {answer : Answer} {after : Zone rb}
    (run : zone.lookup crc memory host now = (answer, after)) :
    LookedUp crc zone host now (zone.evictee memory.slab host now) answer after := by
  unfold lookup at run
  cases search : zone.find (crc host) host with
  | none =>
      have absent := (find_eq_none coherent host).mp search
      simp only [search, createClaim] at run
      split at run
      · rename_i full failed
        cases run
        exact .unavailable absent (allocNode_allocated coherent absent failed)
      · rename_i address created made
        cases run
        have entry := Entry.ofAllocated absent (allocNode_allocated coherent absent made)
        unfold claim
        rw [Heap.node_eq entry.found]
        exact .claimed entry (by simp [newNode])
  | some address =>
      obtain ⟨node, found, named⟩ := (find_eq_some coherent host address).mp search
      simp only [search, Heap.node_eq found] at run
      split at run
      · split at run
        · rename_i filled
          cases run
          exact copyJwks_lookedUp (by decide) found named filled _
        · cases run
          exact .refused (by simp) rfl rfl
      split at run
      · split at run
        · rename_i filled
          cases run
          exact copyJwks_lookedUp (by decide) found named filled _
        · cases run
          exact .refused (by simp) rfl rfl
      · rename_i idle
        cases run
        unfold claim
        rw [Heap.node_eq found]
        exact .claimed (Entry.ofFound coherent found named _) idle

/-- This is everything that a rotation claim can do. -/
inductive Rotated (crc : Bytes → UInt32) (zone : Zone rb) (host : Bytes) (now retryTtl : Int) :
    Bool → Zone rb → Prop
  | declined : Rotated crc zone host now retryTtl false zone
  | claimed {address node} (found : zone.heap address = some node) (named : node.host = host)
      (idle : node.fetching = false)
      (passed : ¬ (node.forcedRefetchAt ≠ 0 ∧ now - node.forcedRefetchAt < retryTtl)) :
      Rotated crc zone host now retryTtl true (zone.set address
        { node with fetching := true, fetchingSince := now, forcedRefetchAt := now })

/-- A rotation claim ends in one of these ways. -/
theorem claimRotationRefetch_rotated (coherent : zone.Coherent crc) {retryTtl : Int} {taken : Bool}
    {after : Zone rb} (run : zone.claimRotationRefetch crc host now retryTtl = (taken, after)) :
    Rotated crc zone host now retryTtl taken after := by
  unfold claimRotationRefetch at run
  cases search : zone.find (crc host) host with
  | none =>
      simp only [search] at run
      cases run
      exact .declined
  | some address =>
      obtain ⟨node, found, named⟩ := (find_eq_some coherent host address).mp search
      simp only [search, Heap.node_eq found] at run
      split at run
      · cases run
        exact .declined
      split at run
      · cases run
        exact .declined
      · rename_i idle passed
        cases run
        exact .claimed found named (by simpa using idle) passed

/-- This is everything that a store can do. -/
inductive Stored (crc : Bytes → UInt32) (zone : Zone rb) (host jwks : Bytes) (expiresAt retryAt : Int)
    (lost : Option Nat) : Nat → Zone rb → Prop
  | full {after} (absent : ∀ other node, zone.heap other = some node → node.host ≠ host)
      (full : Allocated crc zone host lost none after) :
      Stored crc zone host jwks expiresAt retryAt lost 0 after
  | noRoom {address node created} (entry : Entry crc zone host lost address node created) :
      Stored crc zone host jwks expiresAt retryAt lost 0
        (created.set address { node with fetching := false, expiresAt := retryAt })
  | replaced {address node created} (entry : Entry crc zone host lost address node created) :
      Stored crc zone host jwks expiresAt retryAt lost ((zone.generation + 1) % 2 ^ 64)
        ({ created with generation := (zone.generation + 1) % 2 ^ 64 }.set address
          { node with
            jwks := jwks
            expiresAt := expiresAt
            fetching := false
            generation := (zone.generation + 1) % 2 ^ 64 })

/-- A store at an entry succeeds with a new generation or only backs off. -/
theorem Entry.storeAt {lost : Option Nat} {address : Nat} {node : Node} {created : Zone rb}
    (entry : Entry crc zone host lost address node created) (memory : Memory) (jwks : Bytes)
    (expiresAt retryAt : Int) : Stored crc zone host jwks expiresAt retryAt lost
      (created.storeAt memory address jwks expiresAt retryAt).1
      (created.storeAt memory address jwks expiresAt retryAt).2 := by
  unfold Zone.storeAt
  simp only [Heap.node_eq entry.found, entry.counter]
  split
  · exact .replaced entry
  · exact .noRoom entry

/-- A store ends in one of these ways. -/
theorem store_stored (coherent : zone.Coherent crc) {memory : Memory} {jwks : Bytes}
    {expiresAt retryTtl clock : Int} {generation : Nat} {after : Zone rb}
    (run : zone.store crc memory host jwks expiresAt retryTtl clock = (generation, after)) :
    Stored crc zone host jwks expiresAt (clock + retryTtl) (zone.evictee memory.slab host clock) generation
      after := by
  unfold store at run
  cases search : zone.find (crc host) host with
  | some address =>
      obtain ⟨node, found, named⟩ := (find_eq_some coherent host address).mp search
      simp only [search] at run
      have known := Entry.ofFound coherent found named (zone.evictee memory.slab host clock)
      have stored := known.storeAt memory jwks expiresAt (clock + retryTtl)
      rw [run] at stored
      exact stored
  | none =>
      have absent := (find_eq_none coherent host).mp search
      simp only [search] at run
      split at run
      · rename_i full failed
        cases run
        exact .full absent (allocNode_allocated coherent absent failed)
      · rename_i address created made
        have entry := Entry.ofAllocated absent (allocNode_allocated coherent absent made)
        have stored := entry.storeAt memory jwks expiresAt (clock + retryTtl)
        rw [run] at stored
        exact stored

/-- A host without a node has no document and the generation 0. -/
def pair (crc : Bytes → UInt32) (zone : Zone rb) (host : Bytes) : Bytes × Nat :=
  match zone.find (crc host) host with
  | none => ([], 0)
  | some address => ((zone.heap.node address).jwks, (zone.heap.node address).generation)

/-- The pair of a host comes from its node. -/
theorem pair_found (coherent : zone.Coherent crc) {address : Nat} {node : Node}
    (found : zone.heap address = some node) (named : node.host = host) :
    zone.pair crc host = (node.jwks, node.generation) := by
  have search := (find_eq_some coherent host address).mpr ⟨node, found, named⟩
  simp only [pair, search, Heap.node_eq found]

/-- A changed node gives its own pair. -/
theorem pair_set (coherent : zone.Coherent crc) {address : Nat} {node : Node}
    (found : zone.heap address = some node) (named : node.host = host) (changed : Node)
    (same : changed.identity = node.identity) :
    (zone.set address changed).pair crc host = (changed.jwks, changed.generation) := by
  refine pair_found (set_coherent coherent found same) (Function.update_self ..) ?_
  rw [← named]
  exact congrArg Prod.snd same

/-- A host without a node has the empty pair. -/
theorem pair_absent (coherent : zone.Coherent crc)
    (absent : ∀ address node, zone.heap address = some node → node.host ≠ host) :
    zone.pair crc host = ([], 0) := by
  simp only [pair, (find_eq_none coherent host).mpr absent]

/-- An entry has the pair that its host had before. -/
theorem Entry.pair_eq {lost : Option Nat} {address : Nat} {node : Node} {created : Zone rb}
    (coherent : zone.Coherent crc) (entry : Entry crc zone host lost address node created) :
      zone.pair crc host = (node.jwks, node.generation) := by
  rcases entry.fresh with found | ⟨rfl, absent⟩
  · exact pair_found coherent found entry.named
  · exact pair_absent coherent absent

/-- A failed store reports 0 and leaves the document of the host in place. -/
theorem store_pair (coherent : zone.Coherent crc) {memory : Memory} {jwks : Bytes}
    {expiresAt retryTtl clock : Int} {generation : Nat} {after : Zone rb}
    (few : zone.generation + 1 < 2 ^ 64)
    (run : zone.store crc memory host jwks expiresAt retryTtl clock = (generation, after)) :
    after.pair crc host = if generation = 0 then zone.pair crc host else (jwks, generation) := by
  cases store_stored coherent run with
  | full absent full =>
      cases full with
      | full coherentAfter evicted _ =>
          rw [if_pos rfl, pair_absent coherent absent]
          exact pair_absent coherentAfter fun other node found => absent other node (evicted.older found)
  | noRoom entry =>
      rw [if_pos rfl, entry.pair_eq coherent]
      exact pair_set entry.coherent entry.found entry.named _ rfl
  | replaced entry =>
      have next : (zone.generation + 1) % 2 ^ 64 ≠ 0 := by
        rw [Nat.mod_eq_of_lt few]
        exact Nat.succ_ne_zero _
      rw [if_neg next]
      exact pair_set entry.coherent entry.found entry.named _ rfl

/-- This is everything that a release can do. -/
inductive Released (crc : Bytes → UInt32) (zone : Zone rb) (host : Bytes) (retryAt : Int) :
    Zone rb → Prop
  | absent : Released crc zone host retryAt zone
  | released {address node} (found : zone.heap address = some node) (named : node.host = host) :
      Released crc zone host retryAt
        (zone.set address { node with fetching := false, expiresAt := retryAt })

/-- A release ends in one of these ways. -/
theorem release_released (coherent : zone.Coherent crc) (retryAt : Int) :
    Released crc zone host retryAt (zone.release crc host retryAt) := by
  unfold release
  cases search : zone.find (crc host) host with
  | none => exact .absent
  | some address =>
      obtain ⟨node, found, named⟩ := (find_eq_some coherent host address).mp search
      simp only [Heap.node_eq found]
      exact .released found named

end Zone
end AuthHttpsig.Cache
