/-
This file gives the shared-memory cache of key directories of `ngx_auth_httpsig_cache.c`.
-/

import AuthHttpsig.Library.KeyTree

namespace AuthHttpsig.Cache

open SearchTree KeyTree

def fetchTimeout : Int := 30

/-- An empty `jwks` was never stored, and the generation 0 was never assigned. -/
structure Node where
  hash : UInt32
  host : Bytes
  jwks : Bytes
  expiresAt : Int
  fetchingSince : Int
  forcedRefetchAt : Int
  generation : Nat
  fetching : Bool
  deriving DecidableEq, Inhabited, Repr

/-- The tree compares the CRC of a node first and its host second. -/
def Node.identity (node : Node) : Identity := (node.hash, node.host)

/-- The generation counts the stores of the whole zone in 64 bits. -/
structure Zone (rb : Balanced Nat) where
  table : Table rb Node
  generation : Nat

inductive Status where
  | hit
  | claimed
  | busy
  | negative
  | unavailable
  deriving DecidableEq, Repr

/-- A lookup gives its status, the copied document and its generation. An absent status is
`NGX_ERROR`. -/
structure Answer where
  status : Option Status
  jwks : Bytes
  generation : Nat
  deriving DecidableEq, Repr

/-- One call meets this slab pool, this room for a document and this room in the request pool. -/
structure Memory where
  slab : Slab Node
  dataRoom : Bool
  poolRoom : Bool

variable {rb : Balanced Nat}

namespace Zone

def initZone (rb : Balanced Nat) : Zone rb where
  table := Table.empty rb Node
  generation := 0

abbrev heap (zone : Zone rb) : Heap Node := zone.table.heap

def find (zone : Zone rb) (hash : UInt32) (host : Bytes) : Option Nat :=
  zone.table.find Node.identity (hash, host)

def set (zone : Zone rb) (address : Nat) (node : Node) : Zone rb :=
  { zone with table := zone.table.set address node }

/-- The in-order walk takes the first node that has expired and is not being fetched. -/
def findVictim (zone : Zone rb) (now : Int) : Option Nat :=
  zone.table.addresses.find? fun address =>
    let node := zone.heap.node address
    !node.fetching && node.expiresAt ≤ now

/-- This is a node after `ngx_memzero` with its host. -/
def newNode (hash : UInt32) (host : Bytes) : Node where
  hash := hash
  host := host
  jwks := []
  expiresAt := 0
  fetchingSince := 0
  forcedRefetchAt := 0
  generation := 0
  fetching := false

def insertNew (zone : Zone rb) (address : Nat) (hash : UInt32) (host : Bytes) : Zone rb :=
  { zone with table := zone.table.insert Node.identity address (newNode hash host) }

/-- This is `ngx_auth_httpsig_cache_alloc_node`. -/
def allocNode (slab : Slab Node) (zone : Zone rb) (host : Bytes) (hash : UInt32) (now : Int) :
    Option Nat × Zone rb :=
  match slab.alloc zone.heap host.length with
  | some address => (some address, zone.insertNew address hash host)
  | none =>
      match zone.findVictim now with
      | none => (none, zone)
      | some victim =>
          let evicted := { zone with table := zone.table.delete victim }
          match slab.alloc evicted.heap host.length with
          | some address => (some address, evicted.insertNew address hash host)
          | none => (none, evicted)

/-- The copy needs room in the pool of the caller. -/
def copyJwks (memory : Memory) (status : Status) (node : Node) : Answer :=
  if memory.poolRoom then ⟨some status, node.jwks, node.generation⟩ else ⟨none, [], 0⟩

/-- The node is marked as being fetched from now on. -/
def claim (zone : Zone rb) (address : Nat) (now : Int) : Zone rb :=
  zone.set address { zone.heap.node address with fetching := true, fetchingSince := now }

/-- A host without a node gets a node that is being fetched. -/
def createClaim (crc : Bytes → UInt32) (memory : Memory) (zone : Zone rb) (host : Bytes) (now : Int) :
    Answer × Zone rb :=
  match zone.allocNode memory.slab host (crc host) now with
  | (none, full) => (⟨some .unavailable, [], 0⟩, full)
  | (some address, created) => (⟨some .claimed, [], 0⟩, created.claim address now)

/-- This is `ngx_auth_httpsig_cache_lookup`. -/
def lookup (crc : Bytes → UInt32) (memory : Memory) (zone : Zone rb) (host : Bytes) (now : Int) :
    Answer × Zone rb :=
  match zone.find (crc host) host with
  | none => zone.createClaim crc memory host now
  | some address =>
      let node := zone.heap.node address
      if node.expiresAt > now then
        if node.jwks.length > 0 then (copyJwks memory .hit node, zone)
        else (⟨some .negative, [], 0⟩, zone)
      else if node.fetching ∧ now - node.fetchingSince < fetchTimeout then
        if node.jwks.length > 0 then (copyJwks memory .busy node, zone)
        else (⟨some .busy, [], 0⟩, zone)
      else (⟨some .claimed, [], 0⟩, zone.claim address now)

/-- This is `ngx_auth_httpsig_cache_claim_rotation_refetch`, which answers `NGX_OK` or
`NGX_DECLINED`. -/
def claimRotationRefetch (crc : Bytes → UInt32) (zone : Zone rb) (host : Bytes) (now retryTtl : Int) :
    Bool × Zone rb :=
  match zone.find (crc host) host with
  | none => (false, zone)
  | some address =>
      let node := zone.heap.node address
      if node.fetching then (false, zone)
      else if node.forcedRefetchAt ≠ 0 ∧ now - node.forcedRefetchAt < retryTtl then (false, zone)
      else
        (true, zone.set address
          { node with fetching := true, fetchingSince := now, forcedRefetchAt := now })

/-- The document replaces the older one under the next generation, or the fetch right is released when
there is no room. -/
def storeAt (memory : Memory) (zone : Zone rb) (address : Nat) (jwks : Bytes)
    (expiresAt retryAt : Int) : Nat × Zone rb :=
  let node := zone.heap.node address
  if memory.dataRoom then
    let generation := (zone.generation + 1) % 2 ^ 64
    (generation, { zone with generation := generation }.set address
      { node with jwks := jwks, expiresAt := expiresAt, fetching := false, generation := generation })
  else (0, zone.set address { node with fetching := false, expiresAt := retryAt })

/-- This is `ngx_auth_httpsig_cache_store`, which writes the generation. -/
def store (crc : Bytes → UInt32) (memory : Memory) (zone : Zone rb) (host jwks : Bytes)
    (expiresAt retryTtl clock : Int) : Nat × Zone rb :=
  match zone.find (crc host) host with
  | some address => zone.storeAt memory address jwks expiresAt (clock + retryTtl)
  | none =>
      match zone.allocNode memory.slab host (crc host) clock with
      | (none, full) => (0, full)
      | (some address, created) => created.storeAt memory address jwks expiresAt (clock + retryTtl)

/-- This is `ngx_auth_httpsig_cache_release`. -/
def release (crc : Bytes → UInt32) (zone : Zone rb) (host : Bytes) (retryAt : Int) : Zone rb :=
  match zone.find (crc host) host with
  | none => zone
  | some address =>
      zone.set address { zone.heap.node address with fetching := false, expiresAt := retryAt }

end Zone
end AuthHttpsig.Cache
