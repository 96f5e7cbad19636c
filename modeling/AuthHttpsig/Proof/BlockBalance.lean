/-
This file proves that no call leaks a block of its zone or frees one twice, and that each call does to the
nodes what the zone without blocks does for some allocator.
-/

import AuthHttpsig.Construction.Blocks
import AuthHttpsig.Proof.CacheSteps
import AuthHttpsig.Proof.NonceRefinement
import AuthHttpsig.Proof.RotationRate

namespace AuthHttpsig.Cache.Shm

open SearchTree KeyTree

variable {rb : Balanced Nat} {crc : Bytes → UInt32} {setup pool after : Pool} {mark : Nat} {shm : Shm rb}
  {host : Bytes} {now : Int}

/-- Each linked node has its block, and a second one when its `jwks.data` is set. -/
def blocks (shm : Shm rb) : List Nat :=
  shm.zone.table.addresses ++ shm.zone.table.addresses.filterMap shm.jwksData

/-- The pool has exactly the blocks of the linked nodes besides those of the setup. -/
structure Accounted (crc : Bytes → UInt32) (setup : Pool) (shm : Shm rb) : Prop where
  coherent : shm.zone.Coherent crc
  holds : setup.Holds shm.shpool shm.blocks
  documented : ∀ address node, shm.zone.heap address = some node → shm.jwksData address = none → node.jwks = []

/-- A fresh cache zone accounts for every block of its pool. -/
theorem initZone_accounted (rb : Balanced Nat) (crc : Bytes → UInt32) (setup : Pool) :
    (initZone rb setup).Accounted crc setup where
  coherent := Zone.initZone_coherent rb crc
  holds := by
    have unlinked : (initZone rb setup).zone.table.addresses = [] := by
      simp [initZone, Zone.initZone]
    rw [blocks, unlinked]
    exact .refl setup
  documented _ _ found _ := by cases found

/-- Freeing a document gives back exactly its block. -/
theorem freeJwks_holds {data : Option Nat} {blocks : List Nat} (holds : setup.Holds pool (data.toList ++ blocks)) :
    ∃ after, freeJwks pool data = some after ∧ setup.Holds after blocks := by
  cases data with
  | none => exact ⟨pool, rfl, holds⟩
  | some data => exact holds.free

/-- Freeing a document issues no block. -/
theorem freeJwks_issued {data : Option Nat} (done : freeJwks pool data = some after) :
    after.issued = pool.issued := by
  cases data with
  | none =>
      cases done
      rfl
  | some data => exact Pool.free_issued done

/-- Freeing an older document leaves the blocks issued since the mark. -/
theorem freeJwks_since {data : Option Nat}
    (early : ∀ address, data = some address → ∀ number, pool.serial address = some number → number < mark)
    (done : freeJwks pool data = some after) : Pool.Since mark pool after := by
  cases data with
  | none =>
      cases done
      exact .refl mark pool
  | some data => exact .free (early data rfl) done

/-- The blocks of the documents, with that of the first node split off. -/
theorem filterMap_cons (data : Nat → Option Nat) (address : Nat) (rest : List Nat) :
    (address :: rest).filterMap data = (data address).toList ++ rest.filterMap data := by
  rw [List.filterMap_cons]
  cases data address <;> rfl

/-- The document of one node comes first. -/
theorem document_first (data : Nat → Option Nat) {nodes : List Nat} {address : Nat} (linked : address ∈ nodes) :
    (nodes ++ nodes.filterMap data).Perm
      ((data address).toList ++ (nodes ++ (nodes.erase address).filterMap data)) := by
  have documents := (List.perm_cons_erase linked).filterMap data
  rw [filterMap_cons] at documents
  exact (documents.append_left nodes).trans (List.perm_append_comm_assoc ..)

/-- An eviction frees the blocks of the victim. -/
theorem evict_accounted (accounted : shm.Accounted crc setup) {victim : Nat}
    (linked : victim ∈ shm.zone.table.addresses) :
    ∃ evicted, shm.evict victim = some evicted ∧
      evicted.zone = { shm.zone with table := shm.zone.table.delete victim } ∧
      evicted.Accounted crc setup ∧ Pool.Since shm.shpool.issued shm.shpool evicted.shpool := by
  have split := accounted.holds.perm (document_first shm.jwksData linked).symm
  obtain ⟨withoutJwks, freedJwks, rest⟩ := freeJwks_holds split
  have same := freeJwks_issued freedJwks
  have nodes : (shm.zone.table.addresses ++ (shm.zone.table.addresses.erase victim).filterMap shm.jwksData).Perm
      (victim :: (shm.zone.table.addresses.erase victim ++
        (shm.zone.table.addresses.erase victim).filterMap shm.jwksData)) :=
    (List.perm_cons_erase linked).append_right _
  obtain ⟨shpool, freed, holds⟩ := (rest.perm nodes.symm).free
  have first : Pool.Since shm.shpool.issued shm.shpool withoutJwks :=
    freeJwks_since (fun address _ => shm.shpool.early address) freedJwks
  have second : Pool.Since shm.shpool.issued withoutJwks shpool :=
    .free (fun number live => same ▸ withoutJwks.early victim number live) freed
  refine ⟨⟨{ shm.zone with table := shm.zone.table.delete victim }, shm.jwksData, shpool⟩, ?_, rfl, ⟨?_, ?_, ?_⟩,
    first.trans second⟩
  · simp only [evict, freedJwks, freed, Option.bind_eq_bind, Option.bind_some]
    rfl
  · exact Table.Coherent.delete accounted.coherent victim
  · rw [blocks, Table.Coherent.addresses_delete accounted.coherent]
    exact holds
  · intro address node found unset
    exact accounted.documented address node (Heap.of_freed found).2 unset

/-- Linking a node adds its address to the table. -/
theorem link_addresses (shm : Shm rb) (address : Nat) (shpool : Pool) (hash : UInt32) (host : Bytes) :
    (shm.link address shpool hash host).zone.table.addresses.Perm (address :: shm.zone.table.addresses) :=
  Table.addresses_insert ..

/-- A new node has the new block. -/
theorem link_accounted (accounted : shm.Accounted crc setup) {slab : Slab Nat} {size address : Nat} {shpool : Pool}
    (absent : ∀ other node, shm.zone.heap other = some node → node.host ≠ host)
    (room : shm.shpool.alloc slab size = some (address, shpool)) :
    shm.zone.heap address = none ∧ (shm.link address shpool (crc host) host).Accounted crc setup := by
  have unlinked : address ∉ shm.zone.table.addresses := fun linked =>
    accounted.holds.fresh room (List.mem_append_left _ linked)
  have free : shm.zone.heap address = none := by
    rw [accounted.coherent.allocated] at unlinked
    simpa using unlinked
  refine ⟨free, Zone.insertNew_coherent accounted.coherent free absent, ?_, ?_⟩
  · refine (accounted.holds.alloc room).perm ?_
    have linked := link_addresses shm address shpool (crc host) host
    have documents : (address :: shm.zone.table.addresses).filterMap (Function.update shm.jwksData address none) =
        shm.zone.table.addresses.filterMap shm.jwksData := by
      rw [filterMap_cons, Function.update_self, Option.toList_none, List.nil_append]
      refine List.filterMap_congr fun other present => Function.update_of_ne ?_ ..
      rintro rfl
      exact unlinked present
    have linkedDocuments := linked.filterMap (Function.update shm.jwksData address none)
    rw [documents] at linkedDocuments
    exact linked.append linkedDocuments
  · intro other node found unset
    rcases Heap.of_written found with ⟨_, rfl⟩ | ⟨elsewhere, older⟩
    · rfl
    · have still : shm.jwksData other = none := (Function.update_of_ne elsewhere ..).symm.trans unset
      exact accounted.documented other node older still

/-- A request for a block gives no node or links a new one. -/
inductive Tried (crc : Bytes → UInt32) (setup : Pool) (shm : Shm rb) (host : Bytes) :
    Option Nat × Shm rb → Prop
  | full : Tried crc setup shm host (none, shm)
  | linked {address shpool} (free : shm.zone.heap address = none)
      (accounted : (shm.link address shpool (crc host) host).Accounted crc setup)
      (since : ∀ mark, Pool.Since mark shm.shpool shpool) :
      Tried crc setup shm host (some address, shm.link address shpool (crc host) host)

/-- An attempt to make a node either links a fresh one or leaves the zone accounted for. -/
theorem tryNode_tried (accounted : shm.Accounted crc setup) (slab : Slab Nat)
    (absent : ∀ other node, shm.zone.heap other = some node → node.host ≠ host) :
    Tried crc setup shm host (shm.tryNode slab host (crc host)) := by
  unfold tryNode
  split
  · exact .full
  · rename_i room
    obtain ⟨free, linked⟩ := link_accounted accounted absent room
    exact .linked free linked fun mark => .alloc mark room

/-- The call keeps the account, and it frees no block of its own. -/
structure Kept (crc : Bytes → UInt32) (setup : Pool) (before after : Shm rb) : Prop where
  accounted : after.Accounted crc setup
  since : Pool.Since before.shpool.issued before.shpool after.shpool

/-- Some allocator of nodes makes the same zone. -/
structure Allocated (crc : Bytes → UInt32) (setup : Pool) (shm : Shm rb) (host : Bytes) (now : Int)
    (answer : Option Nat) (after : Shm rb) : Prop where
  kept : Kept crc setup shm after
  zone : ∃ nodes, shm.zone.allocNode nodes host (crc host) now = (answer, after.zone)
  linked : ∀ address, answer = some address →
    address ∈ after.zone.table.addresses ∧ after.jwksData address = none

/-- A linked node is in the table. -/
theorem link_mem (shm : Shm rb) (address : Nat) (shpool : Pool) (hash : UInt32) (host : Bytes) :
    address ∈ (shm.link address shpool hash host).zone.table.addresses :=
  (link_addresses shm address shpool hash host).mem_iff.mpr List.mem_cons_self

/-- Making a node, evicting where the pool is full, leaves the zone accounted for. -/
theorem allocNode_allocated (accounted : shm.Accounted crc setup) (slab : Slab Nat)
    (absent : ∀ other node, shm.zone.heap other = some node → node.host ≠ host) (now : Int) :
    ∃ answer after, shm.allocNode slab host (crc host) now = some (answer, after) ∧
      Allocated crc setup shm host now answer after := by
  unfold allocNode
  have tried := tryNode_tried accounted slab absent
  generalize shm.tryNode slab host (crc host) = first at tried
  cases tried with
  | @linked address shpool free linked since =>
      refine ⟨_, _, rfl, ⟨linked, since _⟩, ⟨.answering Node none address, ?_⟩, ?_⟩
      · simp only [Zone.allocNode, Slab.answering_first host.length free]
        rfl
      · rintro _ ⟨⟩
        exact ⟨link_mem .., Function.update_self ..⟩
  | full =>
      dsimp only
      cases chosen : shm.zone.findVictim now with
      | none =>
          refine ⟨none, shm, rfl, ⟨accounted, .refl _ _⟩, ⟨.exhausted Node, ?_⟩, nofun⟩
          simp only [Zone.allocNode, Slab.exhausted, chosen]
      | some victim =>
          have present : victim ∈ shm.zone.table.addresses := List.mem_of_find?_eq_some chosen
          obtain ⟨evicted, done, zone, accountedAfter, since⟩ := evict_accounted accounted present
          have gone : evicted.zone.heap victim = none := by
            rw [zone]
            exact Function.update_self ..
          have stillAbsent : ∀ other node, evicted.zone.heap other = some node → node.host ≠ host := by
            intro other node found
            rw [zone] at found
            exact absent other node (Heap.of_freed found).2
          have held := (accounted.coherent.allocated victim).mp present
          have again := tryNode_tried accountedAfter slab stillAbsent
          simp only [done, Option.map_some]
          generalize evicted.tryNode slab host (crc host) = second at again
          cases again with
          | full =>
              refine ⟨none, evicted, rfl, ⟨accountedAfter, since⟩, ⟨.exhausted Node, ?_⟩, nofun⟩
              simp only [Zone.allocNode, Slab.exhausted, chosen, zone]
          | @linked address shpool free linked sinceAgain =>
              refine ⟨_, _, rfl, ⟨linked, since.trans (sinceAgain _)⟩,
                ⟨.answering Node (some victim) address, ?_⟩, ?_⟩
              · have room := Slab.answering_gone host.length gone free
                rw [zone] at room
                simp only [Zone.allocNode, Slab.answering_held host.length held, chosen, room, link, zone]
              · rintro _ ⟨⟩
                exact ⟨link_mem .., Function.update_self ..⟩

/-- A change of a node that keeps its identity and its document keeps the account. -/
theorem Accounted.set (accounted : shm.Accounted crc setup) {address : Nat} {node changed : Node}
    (found : shm.zone.heap address = some node) (same : changed.identity = node.identity)
    (kept : changed.jwks = node.jwks) :
    Accounted crc setup { shm with zone := shm.zone.set address changed } where
  coherent := Zone.set_coherent accounted.coherent found same
  holds := accounted.holds
  documented other entry stored unset := by
    rcases Heap.of_written stored with ⟨rfl, rfl⟩ | ⟨_, older⟩
    · rw [kept]
      exact accounted.documented other node found unset
    · exact accounted.documented other entry older unset

/-- Claiming the fetch right moves no block. -/
theorem Accounted.claim (accounted : shm.Accounted crc setup) {address : Nat}
    (linked : address ∈ shm.zone.table.addresses) (now : Int) :
    Accounted crc setup { shm with zone := shm.zone.claim address now } := by
  obtain ⟨node, found⟩ := accounted.coherent.exists_node linked
  unfold Zone.claim
  rw [Heap.node_eq found]
  exact accounted.set found rfl rfl

/-- A host with a node is claimed or changes nothing. -/
theorem lookup_found {zone : Zone rb} {address : Nat} (search : zone.find (crc host) host = some address)
    (memory : Memory) (now : Int) :
    (zone.lookup crc memory host now).2 = zone ∨ (zone.lookup crc memory host now).2 = zone.claim address now := by
  simp only [Zone.lookup, search]
  split
  · split <;> exact .inl rfl
  split
  · split <;> exact .inl rfl
  · exact .inr rfl

/-- A node that the search finds is in the table. -/
theorem find_linked (accounted : shm.Accounted crc setup) {address : Nat}
    (search : shm.zone.find (crc host) host = some address) : address ∈ shm.zone.table.addresses := by
  obtain ⟨node, found, _⟩ := (Zone.find_eq_some accounted.coherent host address).mp search
  exact accounted.coherent.mem_addresses found

/-- A lookup keeps the accounts and is the lookup of the zone alone. -/
theorem lookup_kept (accounted : shm.Accounted crc setup) (slab : Slab Nat) (poolRoom : Bool) (host : Bytes)
    (now : Int) : ∃ answer after, shm.lookup crc slab poolRoom host now = some (answer, after) ∧
      Kept crc setup shm after ∧ ∃ memory, shm.zone.lookup crc memory host now = (answer, after.zone) := by
  unfold lookup
  cases search : shm.zone.find (crc host) host with
  | some address =>
      refine ⟨_, _, rfl, ⟨?_, .refl _ _⟩, _, rfl⟩
      rcases lookup_found search (memory false poolRoom) now with same | claimed
      · rw [same]
        exact accounted
      · rw [claimed]
        exact accounted.claim (find_linked accounted search) now
  | none =>
      have absent := (Zone.find_eq_none accounted.coherent host).mp search
      obtain ⟨answer, after, done, kept, ⟨nodes, zone⟩, linked⟩ := allocNode_allocated accounted slab absent now
      simp only [done, Option.map_some]
      cases answer with
      | none =>
          refine ⟨_, _, rfl, kept, ⟨nodes, false, false⟩, ?_⟩
          simp only [Zone.lookup, search, Zone.createClaim, zone]
      | some address =>
          have claimed := kept.accounted.claim (linked address rfl).1 now
          refine ⟨_, _, rfl, ⟨claimed, kept.since⟩, ⟨nodes, false, false⟩, ?_⟩
          simp only [Zone.lookup, search, Zone.createClaim, zone]

/-- A rotation claim keeps the accounts. -/
theorem claimRotationRefetch_kept (accounted : shm.Accounted crc setup) (host : Bytes) (now retryTtl : Int) :
    Kept crc setup shm (shm.claimRotationRefetch crc host now retryTtl).2 := by
  refine ⟨?_, .refl _ _⟩
  unfold claimRotationRefetch
  cases made : shm.zone.claimRotationRefetch crc host now retryTtl with
  | mk taken zone =>
      cases Zone.claimRotationRefetch_rotated accounted.coherent made with
      | declined => exact accounted
      | claimed found _ _ _ => exact accounted.set found rfl rfl

/-- A release keeps the accounts. -/
theorem release_kept (accounted : shm.Accounted crc setup) (host : Bytes) (retryAt : Int) :
    Kept crc setup shm (shm.release crc host retryAt) := by
  refine ⟨?_, .refl _ _⟩
  unfold release
  have released : Zone.Released crc shm.zone host retryAt _ := Zone.release_released accounted.coherent retryAt
  generalize shm.zone.release crc host retryAt = zone at released
  cases released with
  | absent => exact accounted
  | released found _ => exact accounted.set found rfl rfl

/-- The document of this node was allocated below the mark. -/
def Early (shm : Shm rb) (mark address : Nat) : Prop :=
  ∀ data, shm.jwksData address = some data → ∀ number, shm.shpool.serial data = some number → number < mark

/-- A new document of a linked node replaces the older one. -/
theorem replace_accounted (accounted : shm.Accounted crc setup) {slab : Slab Nat} {address data : Nat}
    {grown : Pool} (linked : address ∈ shm.zone.table.addresses) (early : shm.Early mark address) (jwks : Bytes)
    (expiresAt retryAt : Int) (room : shm.shpool.alloc slab jwks.length = some (data, grown)) :
    ∃ shpool, freeJwks grown (shm.jwksData address) = some shpool ∧ Pool.Since mark shm.shpool shpool ∧
      Accounted crc setup
        ⟨(shm.zone.storeAt (memory true true) address jwks expiresAt retryAt).2,
          Function.update shm.jwksData address (some data), shpool⟩ := by
  obtain ⟨node, found⟩ := accounted.coherent.exists_node linked
  have absent : address ∉ shm.zone.table.addresses.erase address := accounted.coherent.nodup.not_mem_erase
  have others :
      (shm.zone.table.addresses.erase address).filterMap (Function.update shm.jwksData address (some data)) =
        (shm.zone.table.addresses.erase address).filterMap shm.jwksData := by
    refine List.filterMap_congr fun other present => Function.update_of_ne ?_ ..
    rintro rfl
    exact absent present
  have split := (accounted.holds.alloc room).perm ((document_first shm.jwksData linked).cons data).symm
  obtain ⟨shpool, freed, holds⟩ := freeJwks_holds (split.perm List.perm_middle)
  have since : Pool.Since mark grown shpool := by
    refine freeJwks_since (fun older set number live => early older set number ?_) freed
    rw [← Pool.alloc_others room ?_, live]
    rintro rfl
    refine accounted.holds.fresh room (List.mem_append_right _ ?_)
    exact List.mem_filterMap.mpr ⟨address, linked, set⟩
  refine ⟨shpool, freed, (Pool.Since.alloc mark room).trans since, ?_, ?_, ?_⟩
  · have numbered : Zone.Coherent crc { shm.zone with generation := (shm.zone.generation + 1) % 2 ^ 64 } :=
      accounted.coherent
    simp only [Zone.storeAt, memory, if_true, Heap.node_eq found]
    exact Zone.set_coherent numbered found (by rfl)
  · have splitAfter := document_first (Function.update shm.jwksData address (some data)) linked
    rw [Function.update_self, others] at splitAfter
    exact holds.perm splitAfter
  · intro other entry stored unset
    rcases Heap.of_written stored with ⟨rfl, _⟩ | ⟨elsewhere, older⟩
    · change Function.update shm.jwksData other (some data) other = none at unset
      rw [Function.update_self] at unset
      cases unset
    · have still : shm.jwksData other = none := (Function.update_of_ne elsewhere ..).symm.trans unset
      exact accounted.documented other entry older still

/-- A store at a linked node keeps the account, and it needs only the room for a document. -/
theorem storeAt_accounted (accounted : shm.Accounted crc setup) (slab : Slab Nat) {address : Nat}
    (linked : address ∈ shm.zone.table.addresses) (early : shm.Early mark address) (jwks : Bytes)
    (expiresAt retryAt : Int) :
    ∃ generation after, shm.storeAt slab address jwks expiresAt retryAt = some (generation, after) ∧
      after.Accounted crc setup ∧ Pool.Since mark shm.shpool after.shpool ∧ ∃ dataRoom, ∀ nodes,
        shm.zone.storeAt ⟨nodes, dataRoom, true⟩ address jwks expiresAt retryAt = (generation, after.zone) := by
  unfold storeAt
  split
  · obtain ⟨node, found⟩ := accounted.coherent.exists_node linked
    refine ⟨_, _, rfl, ?_, .refl _ _, false, fun _ => rfl⟩
    simp only [Zone.storeAt, memory, Heap.node_eq found]
    exact accounted.set found rfl rfl
  · rename_i room
    obtain ⟨shpool, freed, since, replaced⟩ :=
      replace_accounted accounted linked early jwks expiresAt retryAt room
    simp only [freed, Option.bind_eq_bind, Option.bind_some]
    exact ⟨_, _, rfl, replaced, since, true, fun _ => rfl⟩

/-- A store keeps the accounts and is the store of the zone alone. -/
theorem store_kept (accounted : shm.Accounted crc setup) (slab : Slab Nat) (host jwks : Bytes)
    (expiresAt retryTtl clock : Int) :
    ∃ generation after, shm.store crc slab host jwks expiresAt retryTtl clock = some (generation, after) ∧
      Kept crc setup shm after ∧
      ∃ memory, shm.zone.store crc memory host jwks expiresAt retryTtl clock = (generation, after.zone) := by
  unfold store
  cases search : shm.zone.find (crc host) host with
  | some address =>
      have early : shm.Early shm.shpool.issued address := fun data _ => shm.shpool.early data
      obtain ⟨generation, after, done, accountedAfter, since, dataRoom, zone⟩ :=
        storeAt_accounted accounted slab (find_linked accounted search) early jwks expiresAt (clock + retryTtl)
      refine ⟨generation, after, done, ⟨accountedAfter, since⟩, ⟨.exhausted Node, dataRoom, true⟩, ?_⟩
      simp only [Zone.store, search, zone]
  | none =>
      have absent := (Zone.find_eq_none accounted.coherent host).mp search
      obtain ⟨answer, created, made, kept, ⟨nodes, zone⟩, linked⟩ :=
        allocNode_allocated accounted slab absent clock
      simp only [made, Option.bind_eq_bind, Option.bind_some]
      cases answer with
      | none =>
          refine ⟨0, created, rfl, kept, ⟨nodes, false, true⟩, ?_⟩
          simp only [Zone.store, search, zone]
      | some address =>
          obtain ⟨present, unset⟩ := linked address rfl
          have early : created.Early shm.shpool.issued address := by
            intro data set
            rw [unset] at set
            cases set
          obtain ⟨generation, after, done, accountedAfter, since, dataRoom, stored⟩ :=
            storeAt_accounted kept.accounted slab present early jwks expiresAt (clock + retryTtl)
          refine ⟨generation, after, done, ⟨accountedAfter, kept.since.trans since⟩, ⟨nodes, dataRoom, true⟩, ?_⟩
          simp only [Zone.store, search, zone, stored]

end Cache.Shm

namespace NonceStore.Shm

open SearchTree KeyTree

variable {rb : Balanced Nat} {crc : Bytes → UInt32} {setup : Pool} {shm : Shm rb}

/-- Each linked node has its block. -/
def blocks (shm : Shm rb) : List Nat := shm.store.table.addresses

/-- The pool has exactly the blocks of the linked nodes besides those of the setup. -/
structure Accounted (crc : Bytes → UInt32) (setup : Pool) (shm : Shm rb) : Prop where
  coherent : shm.store.Coherent crc
  holds : setup.Holds shm.shpool shm.blocks

/-- A fresh nonce zone accounts for every block of its pool. -/
theorem initZone_accounted (rb : Balanced Nat) (crc : Bytes → UInt32) (setup : Pool) :
    (initZone rb setup).Accounted crc setup where
  coherent := Store.initZone_coherent rb crc
  holds := by
    have unlinked : (initZone rb setup).blocks = [] := by
      simp [blocks, initZone, Store.initZone]
    rw [unlinked]
    exact .refl setup

/-- A reclaim keeps the account, and it allocates nothing. -/
structure Reclaimed (crc : Bytes → UInt32) (setup before after : Pool) (store : Store rb) : Prop where
  accounted : Accounted crc setup ⟨store, after⟩
  issued : after.issued = before.issued
  since : Pool.Since before.issued before after

/-- Deleting a linked record returns its block and no other. -/
theorem delete_reclaimed (accounted : shm.Accounted crc setup) {address : Nat}
    (linked : address ∈ shm.store.table.addresses) :
    ∃ shpool, shm.delete address = some ⟨shm.store.delete address, shpool⟩ ∧
      Reclaimed crc setup shm.shpool shpool (shm.store.delete address) := by
  obtain ⟨shpool, freed, holds⟩ := (accounted.holds.perm (List.perm_cons_erase linked).symm).free
  refine ⟨shpool, ?_, ⟨Store.delete_coherent accounted.coherent address, ?_⟩, Pool.free_issued freed, ?_⟩
  · simp only [delete, freed, Option.map_some]
  · rw [blocks, Store.delete, accounted.coherent.table.addresses_delete]
    exact holds
  · exact .free (fun number => shm.shpool.early address number) freed

/-- A reclaim returns the blocks of the records it deletes and no other. -/
theorem reclaim_reclaimed (accounted : shm.Accounted crc setup) (now : Int) (room : Nat) :
    ∃ shpool,
      shm.reclaim now room = some ((shm.store.reclaim now room).1, ⟨(shm.store.reclaim now room).2, shpool⟩) ∧
      Reclaimed crc setup shm.shpool shpool (shm.store.reclaim now room).2 := by
  induction room generalizing shm with
  | zero => exact ⟨shm.shpool, rfl, accounted, rfl, .refl _ _⟩
  | succ room ih =>
      simp only [reclaim, Store.reclaim]
      cases least : leftmost (rb.shape shm.store.expRbtree) with
      | none => exact ⟨shm.shpool, rfl, accounted, rfl, .refl _ _⟩
      | some address =>
      dsimp only
      by_cases live : (shm.store.heap.node address).expiresAt ≥ now
      · rw [if_pos live, if_pos live]
        exact ⟨shm.shpool, rfl, accounted, rfl, .refl _ _⟩
      rw [if_neg live, if_neg live]
      have linked : address ∈ shm.store.table.addresses :=
        accounted.coherent.agree.mem_iff.mpr (leftmost_mem least)
      obtain ⟨middle, deleted, first⟩ := delete_reclaimed accounted linked
      obtain ⟨shpool, done, rest⟩ := ih first.accounted
      refine ⟨shpool, ?_, rest.accounted, rest.issued.trans first.issued, first.since.trans ?_⟩
      · simp only [deleted, done, Option.bind_eq_bind, Option.bind_some]
        rfl
      · rw [← first.issued]
        exact rest.since

/-- A reclaim that makes progress frees some node. -/
theorem reclaim_progress {store : Store rb} (coherent : store.Coherent crc) {now : Int} {room : Nat}
    (progress : (store.reclaim now room).1 > 0) :
    ∃ victim, (store.heap victim).isSome ∧ (store.reclaim now room).2.heap victim = none := by
  cases room with
  | zero => cases progress
  | succ room =>
      simp only [Store.reclaim] at progress ⊢
      cases least : leftmost (rb.shape store.expRbtree) with
      | none =>
          rw [least] at progress
          cases progress
      | some victim =>
      rw [least] at progress
      dsimp only at progress ⊢
      split at progress
      · cases progress
      rename_i expired
      rw [if_neg expired]
      have linked : victim ∈ store.table.addresses := coherent.agree.mem_iff.mpr (leftmost_mem least)
      refine ⟨victim, (coherent.table.allocated victim).mp linked, ?_⟩
      obtain ⟨_, swept⟩ := Store.reclaim_spec now room (Store.delete_coherent coherent victim)
      have gone : (store.delete victim).heap victim = none := Function.update_self ..
      rw [Option.eq_none_iff_forall_ne_some]
      intro node stays
      rw [swept.older stays] at gone
      cases gone

/-- A request for a block gives `NULL` or a new block. -/
inductive Tried (setup : Pool) (shm : Shm rb) : Option Nat × Shm rb → Prop
  | full : Tried setup shm (none, shm)
  | room {address shpool} (free : shm.store.heap address = none)
      (holds : setup.Holds shpool (address :: shm.blocks)) (since : ∀ mark, Pool.Since mark shm.shpool shpool) :
      Tried setup shm (some address, ⟨shm.store, shpool⟩)

theorem tryNode_tried (accounted : shm.Accounted crc setup) (slab : Slab Nat) (keyLength : Nat) :
    Tried setup shm (shm.tryNode slab keyLength) := by
  unfold tryNode
  split
  · exact .full
  · rename_i address shpool room
    refine .room ?_ (accounted.holds.alloc room) fun mark => .alloc mark room
    have unlinked : address ∉ shm.store.table.addresses := accounted.holds.fresh room
    rw [accounted.coherent.table.allocated] at unlinked
    simpa using unlinked

/-- The new block is not linked yet, and some allocator of nodes gives the same answer. -/
structure Allocated (crc : Bytes → UInt32) (setup : Pool) (shm : Shm rb) (keyLength : Nat) (now : Int)
    (answer : Option Nat) (after : Shm rb) : Prop where
  holds : setup.Holds after.shpool (answer.toList ++ after.blocks)
  since : Pool.Since shm.shpool.issued shm.shpool after.shpool
  store : ∃ nodes, shm.store.allocate nodes keyLength now = (answer, after.store)

/-- Making a record, reclaiming where the pool is full, leaves the zone accounted for. -/
theorem allocate_allocated (accounted : shm.Accounted crc setup) (slab : Slab Nat) (keyLength : Nat) (now : Int) :
    ∃ answer after, shm.allocate slab keyLength now = some (answer, after) ∧
      Allocated crc setup shm keyLength now answer after := by
  obtain ⟨shpool, done, swept⟩ := reclaim_reclaimed accounted now reclaimBatch
  simp only [allocate, done, Option.bind_eq_bind, Option.bind_some]
  have tried := tryNode_tried swept.accounted slab keyLength
  generalize tryNode slab ⟨_, shpool⟩ keyLength = first at tried
  cases tried with
  | @room address created free holds since =>
      refine ⟨_, _, rfl, holds, swept.since.trans (since _), ⟨.answering Node none address, ?_⟩⟩
      simp only [Store.allocate, Slab.answering_first keyLength free]
  | full =>
      obtain ⟨shpoolAgain, doneAgain, again⟩ := reclaim_reclaimed swept.accounted now reclaimBatch
      have since := swept.since.trans (swept.issued ▸ again.since)
      dsimp only
      simp only [doneAgain, Option.bind_some]
      by_cases progress : ((shm.store.reclaim now reclaimBatch).2.reclaim now reclaimBatch).1 > 0
      · obtain ⟨victim, held, gone⟩ := reclaim_progress swept.accounted.coherent progress
        have tried := tryNode_tried again.accounted slab keyLength
        rw [if_pos progress]
        generalize tryNode slab ⟨_, shpoolAgain⟩ keyLength = second at tried
        cases tried with
        | full =>
            refine ⟨_, _, rfl, again.accounted.holds, since, ⟨.exhausted Node, ?_⟩⟩
            simp only [Store.allocate, Slab.exhausted, if_pos progress]
        | @room address created free holds sinceAgain =>
            refine ⟨_, _, rfl, holds, since.trans (sinceAgain _),
              ⟨.answering Node (some victim) address, ?_⟩⟩
            have room := Slab.answering_gone keyLength gone free
            simp only [Store.allocate, Slab.answering_held keyLength held, if_pos progress, room]
      · rw [if_neg progress]
        refine ⟨_, _, rfl, again.accounted.holds, since, ⟨.exhausted Node, ?_⟩⟩
        simp only [Store.allocate, Slab.exhausted, if_neg progress]

/-- Noting a full zone does not touch the table. -/
theorem noteNomem_table (store : Store rb) (now : Int) : (store.noteNomem now).table = store.table := by
  unfold Store.noteNomem
  split <;> rfl

/-- The call keeps the account, and it frees no block of its own. -/
structure Kept (crc : Bytes → UInt32) (setup : Pool) (before after : Shm rb) : Prop where
  accounted : after.Accounted crc setup
  since : Pool.Since before.shpool.issued before.shpool after.shpool

/-- A check keeps the accounts and is the check of the store alone. -/
theorem shmCheck_kept (accounted : shm.Accounted crc setup) (slab : Slab Nat) (key : Bytes) (ttl now : Int) :
    ∃ rc after, shm.shmCheck crc slab key ttl now = some (rc, after) ∧ Kept crc setup shm after ∧
      ∃ nodes, shm.store.shmCheck crc nodes key ttl now = (rc, after.store) := by
  unfold shmCheck
  by_cases short : ttl < 1
  · rw [if_pos short]
    exact ⟨_, _, rfl, ⟨accounted, .refl _ _⟩, .exhausted Node, if_pos short⟩
  rw [if_neg short]
  have coherentAfter {nodes : Slab Node} {rc : Rc} {after : Store rb}
      (step : shm.store.shmCheck crc nodes key ttl now = (rc, after)) : after.Coherent crc :=
    (Store.shmCheck_outcome accounted.coherent (by omega) step).coherent accounted.coherent
  cases search : shm.store.find (crc key) key with
  | some address =>
      dsimp only
      by_cases live : (shm.store.heap.node address).expiresAt ≥ now
      · have step : shm.store.shmCheck crc (.exhausted Node) key ttl now = (.declined, shm.store) := by
          simp only [Store.shmCheck, if_neg short, search, if_pos live]
        rw [if_pos live]
        exact ⟨_, _, rfl, ⟨accounted, .refl _ _⟩, _, step⟩
      · have step : shm.store.shmCheck crc (.exhausted Node) key ttl now =
            (.ok, shm.store.renew address (now + ttl)) := by
          simp only [Store.shmCheck, if_neg short, search, if_neg live]
        rw [if_neg live]
        exact ⟨_, _, rfl, ⟨⟨coherentAfter step, accounted.holds⟩, .refl _ _⟩, _, step⟩
  | none =>
      obtain ⟨answer, swept, done, holds, since, nodes, allocated⟩ :=
        allocate_allocated accounted slab key.length now
      simp only [done, Option.map_some]
      cases answer with
      | none =>
          have step : shm.store.shmCheck crc nodes key ttl now = (.abort, swept.store.noteNomem now) := by
            simp only [Store.shmCheck, if_neg short, search, allocated]
          refine ⟨_, _, rfl, ⟨⟨coherentAfter step, ?_⟩, since⟩, _, step⟩
          rw [blocks, noteNomem_table]
          exact holds
      | some address =>
          have step : shm.store.shmCheck crc nodes key ttl now = (.ok, swept.store.insert address
              ⟨crc key, expKey (now + ttl), key, now + ttl⟩) := by
            simp only [Store.shmCheck, if_neg short, search, allocated]
          refine ⟨_, _, rfl, ⟨⟨coherentAfter step, ?_⟩, since⟩, _, step⟩
          exact holds.perm (Table.addresses_insert ..)

end NonceStore.Shm

namespace ShmZones

open SearchTree

variable {rb : Balanced Nat} {crcShort crcLong : Bytes → UInt32} {cachePool noncePool : Pool} {zones : ShmZones rb}

structure Accounted (crcShort crcLong : Bytes → UInt32) (cachePool noncePool : Pool) (zones : ShmZones rb) :
    Prop where
  cache : zones.cache.Accounted crcShort cachePool
  nonces : zones.nonces.Accounted crcLong noncePool

/-- The zones without blocks can come to the same nodes. -/
structure Simulated (crcShort crcLong : Bytes → UInt32) (zones : ShmZones rb) : Prop where
  cache : ∃ operations, (Cache.Limiter.run crcShort (.init rb 0) operations).zone = zones.cache.zone
  nonces : ∃ checks, (NonceStore.World.run crcLong (.init rb) checks).store = zones.nonces.store

/-- The call keeps both accounts, and the zones without blocks follow it. -/
structure Kept (crcShort crcLong : Bytes → UInt32) (cachePool noncePool : Pool) (before after : ShmZones rb) :
    Prop where
  cache : Cache.Shm.Kept crcShort cachePool before.cache after.cache
  nonces : NonceStore.Shm.Kept crcLong noncePool before.nonces after.nonces
  simulated : before.Simulated crcShort crcLong → after.Simulated crcShort crcLong

/-- A step of the cache zone that the limiter follows keeps the simulation. -/
theorem simulated_cache (simulated : zones.Simulated crcShort crcLong) {cache : Cache.Shm rb}
    (operations : List Cache.Operation)
    (step : ∀ limiter : Cache.Limiter rb, limiter.zone = zones.cache.zone →
      (limiter.run crcShort operations).zone = cache.zone) :
    Simulated crcShort crcLong { zones with cache := cache } where
  cache := by
    obtain ⟨before, reached⟩ := simulated.cache
    refine ⟨before ++ operations, ?_⟩
    rw [← step _ reached, Cache.Limiter.run, List.foldl_append]
    rfl
  nonces := simulated.nonces

/-- Every call succeeds. -/
theorem call_kept (accounted : zones.Accounted crcShort crcLong cachePool noncePool) (call : ShmCall) :
    ∃ after, zones.call crcShort crcLong call = some after ∧
      Kept crcShort crcLong cachePool noncePool zones after := by
  have cacheStays : Cache.Shm.Kept crcShort cachePool zones.cache zones.cache := ⟨accounted.cache, .refl _ _⟩
  have noncesStay : NonceStore.Shm.Kept crcLong noncePool zones.nonces zones.nonces :=
    ⟨accounted.nonces, .refl _ _⟩
  cases call with
  | lookup slab poolRoom host now =>
      obtain ⟨answer, after, done, kept, memory, zone⟩ :=
        Cache.Shm.lookup_kept accounted.cache slab poolRoom host now
      refine ⟨{ zones with cache := after }, ?_, kept, noncesStay, fun simulated => ?_⟩
      · simp only [call, done, Option.bind_eq_bind, Option.bind_some]
        rfl
      · refine simulated_cache simulated [.wait now, .lookup host memory] ?_
        intro limiter same
        simp only [Cache.Limiter.run, List.foldl_cons, List.foldl_nil, Cache.Limiter.step, same, zone]
  | claimRotationRefetch host now retryTtl =>
      have kept := Cache.Shm.claimRotationRefetch_kept accounted.cache host now retryTtl
      refine ⟨_, rfl, kept, noncesStay, fun simulated => ?_⟩
      refine simulated_cache simulated [.wait now, .rotate host retryTtl] ?_
      intro limiter same
      simp only [Cache.Limiter.run, List.foldl_cons, List.foldl_nil, Cache.Limiter.step, same]
      rfl
  | store slab host jwks expiresAt retryTtl clock =>
      obtain ⟨generation, after, done, kept, memory, zone⟩ :=
        Cache.Shm.store_kept accounted.cache slab host jwks expiresAt retryTtl clock
      refine ⟨{ zones with cache := after }, ?_, kept, noncesStay, fun simulated => ?_⟩
      · simp only [call, done, Option.bind_eq_bind, Option.bind_some]
        rfl
      · refine simulated_cache simulated [.wait clock, .store host memory jwks expiresAt retryTtl] ?_
        intro limiter same
        simp only [Cache.Limiter.run, List.foldl_cons, List.foldl_nil, Cache.Limiter.step, same, zone]
  | release host retryAt =>
      have kept := Cache.Shm.release_kept accounted.cache host retryAt
      refine ⟨_, rfl, kept, noncesStay, fun simulated => ?_⟩
      refine simulated_cache simulated [.release host retryAt] ?_
      intro limiter same
      simp only [Cache.Limiter.run, List.foldl_cons, List.foldl_nil, Cache.Limiter.step, same]
      rfl
  | shmCheck slab key ttl now =>
      obtain ⟨rc, after, done, kept, nodes, step⟩ :=
        NonceStore.Shm.shmCheck_kept accounted.nonces slab key ttl now
      refine ⟨{ zones with nonces := after }, ?_, cacheStays, kept, fun simulated => ⟨simulated.cache, ?_⟩⟩
      · simp only [call, done, Option.bind_eq_bind, Option.bind_some]
        rfl
      · obtain ⟨checks, reached⟩ := simulated.nonces
        refine ⟨checks ++ [⟨key, ttl, now, nodes⟩], ?_⟩
        rw [NonceStore.World.run, List.foldl_append]
        change (NonceStore.Store.shmCheck crcLong nodes (NonceStore.World.run crcLong (.init rb) checks).store
          key ttl now).2 = after.store
        rw [reached, step]

/-- Every run succeeds. -/
theorem run_kept (accounted : zones.Accounted crcShort crcLong cachePool noncePool)
    (simulated : zones.Simulated crcShort crcLong) (calls : List ShmCall) :
    ∃ after, zones.run crcShort crcLong calls = some after ∧
      after.Accounted crcShort crcLong cachePool noncePool ∧ after.Simulated crcShort crcLong := by
  induction calls generalizing zones with
  | nil => exact ⟨zones, rfl, accounted, simulated⟩
  | cons first rest ih =>
      obtain ⟨middle, done, kept⟩ := call_kept accounted first
      have accountedAfter : middle.Accounted crcShort crcLong cachePool noncePool :=
        ⟨kept.cache.accounted, kept.nonces.accounted⟩
      obtain ⟨after, finished, ended⟩ := ih accountedAfter (kept.simulated simulated)
      refine ⟨after, ?_, ended⟩
      rw [run, List.foldlM_cons, done]
      exact finished

/-- Every list of calls on fresh zones keeps the accounts and the simulation. -/
theorem initZones_kept (rb : Balanced Nat) (crcShort crcLong : Bytes → UInt32) (cachePool noncePool : Pool)
    (calls : List ShmCall) :
    ∃ after, (initZones rb cachePool noncePool).run crcShort crcLong calls = some after ∧
      after.Accounted crcShort crcLong cachePool noncePool ∧ after.Simulated crcShort crcLong := by
  refine run_kept ⟨?_, ?_⟩ ⟨⟨[], rfl⟩, ⟨[], rfl⟩⟩ calls
  · exact Cache.Shm.initZone_accounted rb crcShort cachePool
  · exact NonceStore.Shm.initZone_accounted rb crcLong noncePool

/-- In every run the zones without blocks come to the same nodes. -/
theorem run_simulated (rb : Balanced Nat) (crcShort crcLong : Bytes → UInt32) (cachePool noncePool : Pool)
    (calls : List ShmCall) :
    ∃ after, (initZones rb cachePool noncePool).run crcShort crcLong calls = some after ∧
      after.Simulated crcShort crcLong := by
  obtain ⟨after, finished, _, simulated⟩ := initZones_kept rb crcShort crcLong cachePool noncePool calls
  exact ⟨after, finished, simulated⟩

/-- Over every run of calls, whatever requests fail, no free fails and the two pools have the blocks of the setup,
one block for each linked node and one for each `jwks.data` that is set. Each next call frees exactly the
blocks that no linked node has any more. -/
theorem blocks_balanced (rb : Balanced Nat) (crcShort crcLong : Bytes → UInt32) (cachePool noncePool : Pool)
    (calls : List ShmCall) :
    ∃ zones, (initZones rb cachePool noncePool).run crcShort crcLong calls = some zones ∧
      cachePool.Balanced zones.cache.shpool zones.cache.blocks ∧
      noncePool.Balanced zones.nonces.shpool zones.nonces.blocks ∧
      (∀ address node, zones.cache.zone.heap address = some node → node.jwks ≠ [] →
        ∃ data ∈ zones.cache.blocks, zones.cache.jwksData address = some data) ∧
      zones.nonces.blocks.Perm zones.nonces.store.timed ∧
      ∀ call, ∃ after, zones.call crcShort crcLong call = some after ∧
        zones.cache.shpool.Settled zones.cache.blocks after.cache.shpool after.cache.blocks ∧
        zones.nonces.shpool.Settled zones.nonces.blocks after.nonces.shpool after.nonces.blocks := by
  obtain ⟨zones, finished, accounted, _⟩ := initZones_kept rb crcShort crcLong cachePool noncePool calls
  refine ⟨zones, finished, accounted.cache.holds.balanced, accounted.nonces.holds.balanced, ?_,
    accounted.nonces.coherent.agree, ?_⟩
  · intro address node found filled
    cases set : zones.cache.jwksData address with
    | none => exact absurd (accounted.cache.documented address node found set) filled
    | some data =>
        have linked := accounted.cache.coherent.mem_addresses found
        exact ⟨data, List.mem_append_right _ (List.mem_filterMap.mpr ⟨address, linked, set⟩), rfl⟩
  · intro call
    obtain ⟨after, done, kept⟩ := call_kept accounted call
    refine ⟨after, done, ?_, ?_⟩
    · exact accounted.cache.holds.settled kept.cache.accounted.holds kept.cache.since
    · exact accounted.nonces.holds.settled kept.nonces.accounted.holds kept.nonces.since

/-- The second store replaces the document, and the last lookup evicts the node of the first host without
getting a block for its own. -/
def sampleCalls : List ShmCall :=
  [.store (.firstFree Nat 2) (ascii "a") (ascii "{}") 100 10 0,
    .store (.firstFree Nat 3) (ascii "a") (ascii "{ }") 100 10 0,
    .lookup (.firstFree Nat 3) true (ascii "b") 200,
    .lookup (.exhausted Nat) true (ascii "c") 200]

example : ((initZones (plain Nat) .empty .empty).run (fun _ => 0) (fun _ => 0) sampleCalls).map
    (fun zones => (zones.cache.blocks, zones.cache.shpool.freed)) = some ([1], [0, 2, 1]) := rfl

end ShmZones
end AuthHttpsig
