/-
This file gives the state that a request keeps of its key directory, and how it resolves the document
into keys.
-/

import AuthHttpsig.Construction.Cache
import AuthHttpsig.Construction.KeysCache

namespace AuthHttpsig.Directory

open SearchTree

/-- These are the fields of the request context for the directory. -/
structure Ctx where
  directoryHost : Bytes
  jwks : Bytes
  directoryGeneration : Nat
  deriving DecidableEq, Repr

/-- This is a context from `ngx_pcalloc`. -/
def Ctx.zero : Ctx := ⟨[], [], 0⟩

/-- The handler keeps the document of a hit, and a stale document of a busy host. -/
def Ctx.noteLookup (ctx : Ctx) (host : Bytes) (answer : Cache.Answer) : Ctx where
  directoryHost := host
  jwks :=
    match answer.status with
    | some .hit => answer.jwks
    | some .busy => if answer.jwks.length > 0 then answer.jwks else ctx.jwks
    | _ => ctx.jwks
  directoryGeneration := answer.generation

/-- The fetched document replaces the stale one, also when the zone has no room for it. -/
def Ctx.noteStore (ctx : Ctx) (jwks : Bytes) (generation : Nat) : Ctx :=
  { ctx with jwks := jwks, directoryGeneration := generation }

/-- One call meets this room in the pool of a new slot and this room in the pool of the request. -/
structure Room where
  entryPool : Bool
  requestPool : Bool

variable {κ : Type}

/-- The document is parsed into the pool of the request. -/
def loadJwks (load : Bytes → Option κ) (room : Room) (jwks : Bytes) : Option κ :=
  if room.requestPool then load jwks else none

/-- This is `ngx_http_auth_httpsig_resolve_keys`. A worker may have no cache of parsed keys. -/
def resolveKeys (load : Bytes → Option κ) (room : Room) (localKeys : Option (KeysCache.Cache κ))
    (ctx : Ctx) : Option κ × Option (KeysCache.Cache κ) :=
  if ctx.jwks.length = 0 then (none, localKeys)
  else
    match localKeys with
    | none => (loadJwks load room ctx.jwks, none)
    | some cache =>
        if ctx.directoryGeneration = 0 then (loadJwks load room ctx.jwks, some cache)
        else
          match KeysCache.get cache ctx.directoryHost ctx.directoryGeneration with
          | (some keys, after) => (some keys, some after)
          | (none, after) =>
              match KeysCache.put load room.entryPool after ctx.directoryHost ctx.jwks
                  ctx.directoryGeneration with
              | (some keys, filled) => (some keys, some filled)
              | (none, unfilled) => (loadJwks load room ctx.jwks, some unfilled)

end AuthHttpsig.Directory
