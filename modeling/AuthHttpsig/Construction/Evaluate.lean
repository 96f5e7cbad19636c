/-
This file gives the request evaluation and the nonce check of `ngx_http_auth_httpsig_module.c`.
Allocation failures of the request pool are left out.
-/

import AuthHttpsig.Construction.NonceStore
import AuthHttpsig.Construction.Profile

namespace AuthHttpsig.Module

open SearchTree

inductive Mode where
  | off
  | observe
  | enforce
  deriving DecidableEq, Repr

inductive NonceBackend where
  | off
  | shm
  | redis
  deriving DecidableEq, Repr

inductive NonceFailure where
  | failOpen
  | failClosed
  deriving DecidableEq, Repr

/-- These are the `NGX_AUTH_HTTPSIG_FETCH_*` codes. -/
inductive FetchReason where
  | ok
  | notHttps
  | redirect
  | status
  | mediaType
  | tooLarge
  | empty
  | notAllowed
  | busy
  | unavailable
  | invalid
  | failed
  deriving DecidableEq, Repr

/-- These fields of a merged location decide an evaluation. -/
structure LocConf where
  mode : Mode
  profile : Profile.Definition
  expiresMax : Int
  maxSkew : Int
  jwksKeys : Option Keys
  keyidFallbackAllow : Bool
  nonceStore : NonceBackend
  nonceRequired : Bool
  nonceStoreFailure : NonceFailure

/-- This is the context of the module in one request. -/
structure RequestCtx where
  done : Bool
  keysUnavailable : Bool
  internalError : Bool
  nonceStoreUnavailable : Bool
  result : Result
  directoryReason : FetchReason
  keyid : Bytes
  agent : Bytes
  jwks : Bytes
  deriving DecidableEq

/-- This is a context from `ngx_pcalloc`. -/
def RequestCtx.zero : RequestCtx where
  done := false
  keysUnavailable := false
  internalError := false
  nonceStoreUnavailable := false
  result := .ok
  directoryReason := .ok
  keyid := []
  agent := []
  jwks := []

/-- The verdict of the nonce store stays in the pool of the request. -/
structure Verdict where
  result : Result
  unavailable : Bool
  internalError : Bool
  deriving DecidableEq

/-- An internal redirect clears `ctx` and keeps `verdict`. -/
structure RequestState where
  ctx : Option RequestCtx
  verdict : Option Verdict

/-- One evaluation meets this clock, these parsed keys, this slab pool and this Redis server. -/
structure Env where
  now : Int
  loadKeys : Bytes → Option Keys
  slab : KeyTree.Slab NonceStore.Node
  redis : Bytes → Int → NonceStore.Rc

variable {rb : Balanced Nat}

/-- The configured backend checks the key. -/
def backendCheck (crc : Bytes → UInt32) (lcf : LocConf) (env : Env) (key : Bytes) (ttl now : Int)
    (store : NonceStore.Store rb) : NonceStore.Rc × NonceStore.Store rb :=
  match lcf.nonceStore with
  | .shm => store.shmCheck crc env.slab key ttl now
  | .redis => (env.redis key ttl, store)
  | .off => (.error, store)

def verdictOf (lcf : LocConf) : NonceStore.Rc → Verdict
  | .ok => ⟨.ok, false, false⟩
  | .declined => ⟨.nonceReplayed, false, false⟩
  | .abort =>
      ⟨if lcf.nonceStoreFailure = .failClosed then .nonceStoreUnavailable else .ok, true, false⟩
  | .error => ⟨.ok, false, true⟩

/-- The first check of a request decides its verdict. -/
def firstVerdict (crc : Bytes → UInt32) (lcf : LocConf) (env : Env) (sig : Profile.Signature)
    (now : Int) (store : NonceStore.Store rb) : Verdict × NonceStore.Store rb :=
  if NonceStore.nonceMaxLen < sig.nonce.length then (⟨.nonceTooLong, false, false⟩, store)
  else
    let checked := backendCheck crc lcf env (NonceStore.storeKey sig.agentHost sig.keyid sig.nonce)
      (NonceStore.storeTtl sig.expires lcf.maxSkew now) now store
    (verdictOf lcf checked.1, checked.2)

/-- This is `ngx_http_auth_httpsig_check_nonce`. It gives the outcome for `ctx`, the memoized verdict
and the store. -/
def checkNonce (crc : Bytes → UInt32) (lcf : LocConf) (env : Env) (memo : Option Verdict)
    (sig : Profile.Signature) (now : Int) (store : NonceStore.Store rb) :
    Verdict × Option Verdict × NonceStore.Store rb :=
  if lcf.nonceStore = .off then (⟨.ok, false, false⟩, memo, store)
  else if sig.nonce.length = 0 then
    (⟨if lcf.nonceRequired then .nonceMissing else .ok, false, false⟩, memo, store)
  else
    match memo with
    | some verdict => (verdict, memo, store)
    | none =>
        let first := firstVerdict crc lcf env sig now store
        (first.1, some first.1, first.2)

def resolveKeys (env : Env) (jwks : Bytes) : Option Keys :=
  if jwks.length = 0 then none else env.loadKeys jwks

/-- The clock is read once for the time window and the nonce. -/
def profileCtx (lcf : LocConf) (dynamicKeys : Option Keys) (now : Int) : Profile.Ctx where
  profile := lcf.profile
  keys := Keys.chain dynamicKeys lcf.jwksKeys
  kidFallbackKeys := if lcf.keyidFallbackAllow then dynamicKeys else none
  expiresMax := lcf.expiresMax
  maxSkew := lcf.maxSkew
  now := now

/-- Missing keys of the directory explain an unknown key. -/
def declinedResult (ctx : RequestCtx) (result : Result) : Result :=
  if (result = .unknownKeyid ∨ result = .keyidNotThumbprint) ∧ ctx.keysUnavailable then .keyUnavailable
  else result

/-- A document that gives no keys makes the keys unavailable. -/
def noteKeys (dynamicKeys : Option Keys) (ctx : RequestCtx) : RequestCtx :=
  if dynamicKeys.isNone ∧ ctx.jwks.length ≠ 0 then
    { ctx with keysUnavailable := true, directoryReason := .invalid }
  else ctx

/-- An accepted signature gives its key id and its agent. -/
def noteVerdict (sig : Profile.Signature) (verdict : Verdict) (ctx : RequestCtx) : RequestCtx :=
  let ctx := { ctx with
    result := verdict.result
    nonceStoreUnavailable := verdict.unavailable
    internalError := ctx.internalError || verdict.internalError }
  if verdict.result = .ok then { ctx with keyid := sig.keyid, agent := sig.agentHost } else ctx

/-- This is `ngx_http_auth_httpsig_evaluate` on a main request. It gives `*out`, the state of the
request and the store. -/
def evaluate (crc : Bytes → UInt32) (lcf : LocConf) (env : Env) (req : Base.Request)
    (state : RequestState) (store : NonceStore.Store rb) :
    Option RequestCtx × RequestState × NonceStore.Store rb :=
  if lcf.mode = .off then (none, state, store)
  else
    let ctx := state.ctx.getD RequestCtx.zero
    if ctx.done then (some ctx, state, store)
    else
      let ctx := { ctx with done := true, result := .notSigned }
      if (Base.fieldValue req (ascii "signature-input")).isNone then
        (some ctx, { state with ctx := some ctx }, store)
      else
        let dynamicKeys := resolveKeys env ctx.jwks
        let ctx := noteKeys dynamicKeys ctx
        match Profile.verify (profileCtx lcf dynamicKeys env.now) env.now req with
        | .error .error =>
            let ctx := { ctx with internalError := true }
            (some ctx, { state with ctx := some ctx }, store)
        | .error (.declined result) =>
            let ctx := { ctx with result := declinedResult ctx result }
            (some ctx, { state with ctx := some ctx }, store)
        | .ok sig =>
            let checked := checkNonce crc lcf env state.verdict sig env.now store
            let ctx := noteVerdict sig checked.1 ctx
            (some ctx, ⟨some ctx, checked.2.1⟩, checked.2.2)

end AuthHttpsig.Module
