/-
This file gives the shared-memory nonce store of `ngx_auth_httpsig_nonce_store.c`. The red-black
tree, the slab pool and the CRC of the core are parameters.
-/

import AuthHttpsig.Library.KeyTree

namespace AuthHttpsig.NonceStore

open SearchTree KeyTree

def keyPrefix : Bytes := ascii "auth_httpsig:nonce:"

def nonceMaxLen : Nat := 256

def reclaimBatch : Nat := 2

def nomemLogInterval : Int := 60

/-- These are the codes of `ngx_auth_httpsig_nonce_store_shm_check`. -/
inductive Rc where
  | ok
  | declined
  | abort
  | error
  deriving DecidableEq, Repr

/-- A node is linked in both trees. Its keys there are `hash` and `expKey`. -/
structure Node where
  hash : UInt32
  expKey : BitVec 64
  nonceKey : Bytes
  expiresAt : Int
  deriving DecidableEq, Inhabited, Repr

def crcStep (crc : UInt32) : UInt32 :=
  if crc &&& 1 = 0 then crc >>> 1 else (crc >>> 1) ^^^ 0xedb88320

/-- This is what `ngx_crc32_long` computes from its table. -/
def crc32Long (octets : Bytes) : UInt32 :=
  octets.foldl (fun crc octet => crcStep^[8] (crc ^^^ octet.toUInt32)) 0xffffffff ^^^ 0xffffffff

/-- The key tree compares the CRC of a node first and its nonce key second. -/
def Node.identity (node : Node) : Identity := (node.hash, node.nonceKey)

/-- The key tree and the expiry tree hold the addresses of the same nodes. -/
structure Store (rb : Balanced Nat) where
  table : Table rb Node
  expRbtree : rb.Tree
  lastNomemLog : Int

/-- This is the conversion `(ngx_rbtree_key_t) cn->expires_at`. -/
def expKey (expiresAt : Int) : BitVec 64 := BitVec.ofInt 64 expiresAt

/-- This is the choice of `ngx_rbtree_insert_timer_value`. -/
def insertTimerLeft (node temp : Node) : Bool := (node.expKey - temp.expKey).msb

variable {rb : Balanced Nat}

namespace Store

/-- A new zone has two empty trees. -/
def initZone (rb : Balanced Nat) : Store rb where
  table := Table.empty rb Node
  expRbtree := rb.empty
  lastNomemLog := 0

abbrev heap (store : Store rb) : Heap Node := store.table.heap

def find (store : Store rb) (hash : UInt32) (key : Bytes) : Option Nat :=
  store.table.find Node.identity (hash, key)

/-- The node leaves both trees and its memory is freed. -/
def delete (store : Store rb) (address : Nat) : Store rb :=
  { store with
    table := store.table.delete address
    expRbtree := rb.delete address store.expRbtree }

/-- This is `ngx_auth_httpsig_nonce_store_reclaim` with the rounds that remain. -/
def reclaim (now : Int) : Nat → Store rb → Nat × Store rb
  | 0, store => (0, store)
  | room + 1, store =>
      match leftmost (rb.shape store.expRbtree) with
      | none => (0, store)
      | some address =>
          if (store.heap.node address).expiresAt ≥ now then (0, store)
          else
            let freed := reclaim now room (store.delete address)
            (freed.1 + 1, freed.2)

/-- The found node takes a new place in the expiry tree. -/
def renew (store : Store rb) (address : Nat) (expiresAt : Int) : Store rb :=
  let node := { store.heap.node address with expiresAt := expiresAt, expKey := expKey expiresAt }
  { store with
    table := store.table.set address node
    expRbtree := rb.insert (fun temp => insertTimerLeft node (store.heap.node temp)) address
      (rb.delete address store.expRbtree) }

/-- The new node is inserted in both trees. -/
def insert (store : Store rb) (address : Nat) (node : Node) : Store rb :=
  { store with
    table := store.table.insert Node.identity address node
    expRbtree := rb.insert (fun temp => insertTimerLeft node (store.heap.node temp)) address
      store.expRbtree }

/-- A failed request is repeated once when a second pass frees a node. -/
def allocate (slab : Slab Node) (store : Store rb) (keyLength : Nat) (now : Int) : Option Nat × Store rb :=
  let swept := (store.reclaim now reclaimBatch).2
  match slab.alloc swept.heap keyLength with
  | some address => (some address, swept)
  | none =>
      let again := swept.reclaim now reclaimBatch
      if again.1 > 0 then (slab.alloc again.2.heap keyLength, again.2) else (none, again.2)

def noteNomem (store : Store rb) (now : Int) : Store rb :=
  if now - store.lastNomemLog ≥ nomemLogInterval then { store with lastNomemLog := now } else store

/-- This is `ngx_auth_httpsig_nonce_store_shm_check`. -/
def shmCheck (crc : Bytes → UInt32) (slab : Slab Node) (store : Store rb) (key : Bytes) (ttl now : Int) :
    Rc × Store rb :=
  if ttl < 1 then (.error, store)
  else
    match store.find (crc key) key with
    | some address =>
        if (store.heap.node address).expiresAt ≥ now then (.declined, store)
        else (.ok, store.renew address (now + ttl))
    | none =>
        match store.allocate slab key.length now with
        | (none, full) => (.abort, full.noteNomem now)
        | (some address, swept) =>
            (.ok, swept.insert address
              { hash := crc key, nonceKey := key, expiresAt := now + ttl, expKey := expKey (now + ttl) })

end Store

/-- This is `ngx_auth_httpsig_nonce_store_key`. -/
def storeKey (agentHost keyid nonce : Bytes) : Bytes :=
  keyPrefix ++ agentHost ++ [0] ++ keyid ++ [0] ++ nonce

/-- This is `ngx_auth_httpsig_nonce_store_ttl`. -/
def storeTtl (expires maxSkew now : Int) : Int :=
  let ttl := expires + maxSkew - now
  if ttl < 1 then 1 else ttl

end AuthHttpsig.NonceStore
