/-
This file gives the parsed-key cache of one worker of `ngx_auth_httpsig_keys_cache.c`. The parsed
key sets are values of any type.
-/

import AuthHttpsig.Library.Bytes

namespace AuthHttpsig.KeysCache

def maxEntries : Nat := 16

/-- A used slot owns its host and its keys. -/
structure Slot (κ : Type) where
  host : Bytes
  generation : Nat
  keys : κ
  touched : Nat

/-- A free slot has no pool. -/
structure Cache (κ : Type) where
  slots : Fin maxEntries → Option (Slot κ)
  clock : Nat

variable {κ : Type}

def create : Cache κ where
  slots _ := none
  clock := 0

/-- This is `ngx_auth_httpsig_keys_cache_find`. -/
def find (cache : Cache κ) (host : Bytes) : Option (Fin maxEntries) :=
  (List.finRange maxEntries).find? fun index => (cache.slots index).any fun slot => slot.host == host

/-- The used slot is touched, and the clock counts the touches in 64 bits. -/
def touch (cache : Cache κ) (index : Fin maxEntries) (slot : Slot κ) : Cache κ where
  slots := Function.update cache.slots index (some { slot with touched := (cache.clock + 1) % 2 ^ 64 })
  clock := (cache.clock + 1) % 2 ^ 64

/-- This is `ngx_auth_httpsig_keys_cache_get`. -/
def get (cache : Cache κ) (host : Bytes) (generation : Nat) : Option κ × Cache κ :=
  if generation = 0 then (none, cache)
  else
    match find cache host with
    | none => (none, cache)
    | some index =>
        match cache.slots index with
        | none => (none, cache)
        | some slot =>
            if slot.generation ≠ generation then (none, cache)
            else (some slot.keys, touch cache index slot)

/-- The first free slot is taken, or the slot that was touched first. -/
def victim (cache : Cache κ) : List (Fin maxEntries) → Fin maxEntries → Fin maxEntries
  | [], oldest => oldest
  | index :: rest, oldest =>
      match cache.slots index with
      | none => index
      | some slot =>
          if (cache.slots oldest).any fun other => slot.touched < other.touched then
            victim cache rest index
          else victim cache rest oldest

/-- This is `ngx_auth_httpsig_keys_cache_slot_for`. -/
def slotFor (cache : Cache κ) (host : Bytes) : Fin maxEntries :=
  match find cache host with
  | some index => index
  | none => victim cache (List.finRange maxEntries) ⟨0, by decide⟩

/-- This is `ngx_auth_httpsig_keys_cache_put`. The pool of the entry may have no room, and the document
may not parse. -/
def put (load : Bytes → Option κ) (poolRoom : Bool) (cache : Cache κ) (host jwks : Bytes)
    (generation : Nat) : Option κ × Cache κ :=
  if generation = 0 ∨ poolRoom = false then (none, cache)
  else
    match load jwks with
    | none => (none, cache)
    | some keys => (some keys, touch cache (slotFor cache host) ⟨host, generation, keys, 0⟩)

end AuthHttpsig.KeysCache
