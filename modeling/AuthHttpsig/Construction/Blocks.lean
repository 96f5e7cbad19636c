/-
This file gives the blocks that the key-directory cache and the nonce store hold in the slab pools of their
zones. A call without a result has freed a block that was not allocated.
-/

import AuthHttpsig.Construction.Cache
import AuthHttpsig.Construction.NonceStore
import AuthHttpsig.Library.BlockPool

namespace AuthHttpsig.Cache

open SearchTree KeyTree

/-- This is the size of a node with pointers of 64 bits, without the host behind it. -/
def nodeSize : Nat := 112

/-- A node has its own block, and a second one when its `jwks.data` is set. -/
structure Shm (rb : Balanced Nat) where
  zone : Zone rb
  jwksData : Nat → Option Nat
  shpool : Pool

namespace Shm

variable {rb : Balanced Nat}

/-- The pool of a new zone has the blocks of the setup. -/
def initZone (rb : Balanced Nat) (shpool : Pool) : Shm rb where
  zone := Zone.initZone rb
  jwksData _ := none
  shpool := shpool

def freeJwks (shpool : Pool) : Option Nat → Option Pool
  | none => some shpool
  | some data => shpool.free data

/-- The victim leaves the tree, and its blocks are freed. -/
def evict (shm : Shm rb) (victim : Nat) : Option (Shm rb) := do
  let withoutJwks ← freeJwks shm.shpool (shm.jwksData victim)
  let shpool ← withoutJwks.free victim
  return { shm with zone := { shm.zone with table := shm.zone.table.delete victim }, shpool := shpool }

/-- The new node has no document. -/
def link (shm : Shm rb) (address : Nat) (shpool : Pool) (hash : UInt32) (host : Bytes) : Shm rb where
  zone := shm.zone.insertNew address hash host
  jwksData := Function.update shm.jwksData address none
  shpool := shpool

/-- This is one request for the block of a node. -/
def tryNode (slab : Slab Nat) (shm : Shm rb) (host : Bytes) (hash : UInt32) : Option Nat × Shm rb :=
  match shm.shpool.alloc slab (nodeSize + host.length) with
  | none => (none, shm)
  | some (address, shpool) => (some address, shm.link address shpool hash host)

/-- This is `ngx_auth_httpsig_cache_alloc_node`. -/
def allocNode (slab : Slab Nat) (shm : Shm rb) (host : Bytes) (hash : UInt32) (now : Int) :
    Option (Option Nat × Shm rb) :=
  match shm.tryNode slab host hash with
  | (some address, created) => some (some address, created)
  | (none, full) =>
      match full.zone.findVictim now with
      | none => some (none, full)
      | some victim => (full.evict victim).map fun evicted => evicted.tryNode slab host hash

/-- This call asks the pool for no node. -/
def memory (dataRoom poolRoom : Bool) : Memory := ⟨Slab.exhausted Node, dataRoom, poolRoom⟩

/-- This is `ngx_auth_httpsig_cache_lookup`. Only a host without a node needs a block. -/
def lookup (crc : Bytes → UInt32) (slab : Slab Nat) (poolRoom : Bool) (shm : Shm rb) (host : Bytes) (now : Int) :
    Option (Answer × Shm rb) :=
  match shm.zone.find (crc host) host with
  | some _ =>
      let out := shm.zone.lookup crc (memory false poolRoom) host now
      some (out.1, { shm with zone := out.2 })
  | none =>
      (shm.allocNode slab host (crc host) now).map fun
        | (none, full) => (⟨some .unavailable, [], 0⟩, full)
        | (some address, created) =>
            (⟨some .claimed, [], 0⟩, { created with zone := created.zone.claim address now })

/-- This is `ngx_auth_httpsig_cache_claim_rotation_refetch`. -/
def claimRotationRefetch (crc : Bytes → UInt32) (shm : Shm rb) (host : Bytes) (now retryTtl : Int) :
    Bool × Shm rb :=
  let out := shm.zone.claimRotationRefetch crc host now retryTtl
  (out.1, { shm with zone := out.2 })

/-- The new document is allocated before the older one is freed. -/
def storeAt (slab : Slab Nat) (shm : Shm rb) (address : Nat) (jwks : Bytes) (expiresAt retryAt : Int) :
    Option (Nat × Shm rb) :=
  match shm.shpool.alloc slab jwks.length with
  | none =>
      let out := shm.zone.storeAt (memory false true) address jwks expiresAt retryAt
      some (out.1, { shm with zone := out.2 })
  | some (data, grown) => do
      let shpool ← freeJwks grown (shm.jwksData address)
      let out := shm.zone.storeAt (memory true true) address jwks expiresAt retryAt
      return (out.1, ⟨out.2, Function.update shm.jwksData address (some data), shpool⟩)

/-- This is `ngx_auth_httpsig_cache_store`. -/
def store (crc : Bytes → UInt32) (slab : Slab Nat) (shm : Shm rb) (host jwks : Bytes)
    (expiresAt retryTtl clock : Int) : Option (Nat × Shm rb) :=
  match shm.zone.find (crc host) host with
  | some address => shm.storeAt slab address jwks expiresAt (clock + retryTtl)
  | none => do
      match ← shm.allocNode slab host (crc host) clock with
      | (none, full) => return (0, full)
      | (some address, created) => created.storeAt slab address jwks expiresAt (clock + retryTtl)

/-- This is `ngx_auth_httpsig_cache_release`. -/
def release (crc : Bytes → UInt32) (shm : Shm rb) (host : Bytes) (retryAt : Int) : Shm rb :=
  { shm with zone := shm.zone.release crc host retryAt }

end Shm
end AuthHttpsig.Cache

namespace AuthHttpsig.NonceStore

open SearchTree KeyTree

/-- This is the size of a node with pointers of 64 bits, without the key behind it. -/
def nodeSize : Nat := 104

/-- A node has one block. -/
structure Shm (rb : Balanced Nat) where
  store : Store rb
  shpool : Pool

namespace Shm

variable {rb : Balanced Nat}

/-- The pool of a new zone has the blocks of the setup. -/
def initZone (rb : Balanced Nat) (shpool : Pool) : Shm rb := ⟨Store.initZone rb, shpool⟩

/-- The node leaves both trees, and its block is freed. -/
def delete (shm : Shm rb) (address : Nat) : Option (Shm rb) :=
  (shm.shpool.free address).map fun shpool => ⟨shm.store.delete address, shpool⟩

/-- This is `ngx_auth_httpsig_nonce_store_reclaim` with the rounds that remain. -/
def reclaim (now : Int) : Nat → Shm rb → Option (Nat × Shm rb)
  | 0, shm => some (0, shm)
  | room + 1, shm =>
      match leftmost (rb.shape shm.store.expRbtree) with
      | none => some (0, shm)
      | some address =>
          if (shm.store.heap.node address).expiresAt ≥ now then some (0, shm)
          else do
            let deleted ← shm.delete address
            let freed ← reclaim now room deleted
            return (freed.1 + 1, freed.2)

/-- This is one request for the block of a node. -/
def tryNode (slab : Slab Nat) (shm : Shm rb) (keyLength : Nat) : Option Nat × Shm rb :=
  match shm.shpool.alloc slab (nodeSize + keyLength) with
  | none => (none, shm)
  | some (address, shpool) => (some address, { shm with shpool := shpool })

/-- A failed request is repeated once when a second pass frees a node. -/
def allocate (slab : Slab Nat) (shm : Shm rb) (keyLength : Nat) (now : Int) : Option (Option Nat × Shm rb) := do
  let swept ← shm.reclaim now reclaimBatch
  match swept.2.tryNode slab keyLength with
  | (some address, created) => return (some address, created)
  | (none, full) =>
      let again ← full.reclaim now reclaimBatch
      return if again.1 > 0 then again.2.tryNode slab keyLength else (none, again.2)

/-- This is `ngx_auth_httpsig_nonce_store_shm_check`. -/
def shmCheck (crc : Bytes → UInt32) (slab : Slab Nat) (shm : Shm rb) (key : Bytes) (ttl now : Int) :
    Option (Rc × Shm rb) :=
  if ttl < 1 then some (.error, shm)
  else
    match shm.store.find (crc key) key with
    | some address =>
        if (shm.store.heap.node address).expiresAt ≥ now then some (.declined, shm)
        else some (.ok, { shm with store := shm.store.renew address (now + ttl) })
    | none =>
        (shm.allocate slab key.length now).map fun
          | (none, full) => (.abort, { full with store := full.store.noteNomem now })
          | (some address, swept) =>
              let node : Node :=
                { hash := crc key, nonceKey := key, expiresAt := now + ttl, expKey := expKey (now + ttl) }
              (.ok, { swept with store := swept.store.insert address node })

end Shm
end AuthHttpsig.NonceStore

namespace AuthHttpsig

/-- Each zone has its own pool. -/
structure ShmZones (rb : SearchTree.Balanced Nat) where
  cache : Cache.Shm rb
  nonces : NonceStore.Shm rb

/-- A call that needs memory meets its own allocator. -/
inductive ShmCall where
  | lookup (slab : KeyTree.Slab Nat) (poolRoom : Bool) (host : Bytes) (now : Int)
  | claimRotationRefetch (host : Bytes) (now retryTtl : Int)
  | store (slab : KeyTree.Slab Nat) (host jwks : Bytes) (expiresAt retryTtl clock : Int)
  | release (host : Bytes) (retryAt : Int)
  | shmCheck (slab : KeyTree.Slab Nat) (key : Bytes) (ttl now : Int)

namespace ShmZones

variable {rb : SearchTree.Balanced Nat}

def initZones (rb : SearchTree.Balanced Nat) (cachePool noncePool : Pool) : ShmZones rb where
  cache := Cache.Shm.initZone rb cachePool
  nonces := NonceStore.Shm.initZone rb noncePool

/-- The two checksums are `ngx_crc32_short` and `ngx_crc32_long`. -/
def call (crcShort crcLong : Bytes → UInt32) (zones : ShmZones rb) : ShmCall → Option (ShmZones rb)
  | .lookup slab poolRoom host now => do
      let out ← zones.cache.lookup crcShort slab poolRoom host now
      return { zones with cache := out.2 }
  | .claimRotationRefetch host now retryTtl =>
      some { zones with cache := (zones.cache.claimRotationRefetch crcShort host now retryTtl).2 }
  | .store slab host jwks expiresAt retryTtl clock => do
      let out ← zones.cache.store crcShort slab host jwks expiresAt retryTtl clock
      return { zones with cache := out.2 }
  | .release host retryAt => some { zones with cache := zones.cache.release crcShort host retryAt }
  | .shmCheck slab key ttl now => do
      let out ← zones.nonces.shmCheck crcLong slab key ttl now
      return { zones with nonces := out.2 }

def run (crcShort crcLong : Bytes → UInt32) (zones : ShmZones rb) (calls : List ShmCall) : Option (ShmZones rb) :=
  calls.foldlM (call crcShort crcLong) zones

end ShmZones
end AuthHttpsig
