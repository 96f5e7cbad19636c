/-
This file gives the phase handlers of `ngx_http_auth_httpsig_module.c`, the handler of its fetch
subrequest and its pool cleanup, as programs that call nginx and the shared cache.
-/

import AuthHttpsig.Construction.Authority
import AuthHttpsig.Construction.Cache
import AuthHttpsig.Construction.Response
import AuthHttpsig.Construction.Shortage
import AuthHttpsig.Library.Interaction

namespace AuthHttpsig.Module

/-- These fields of a merged location decide a fetch. The media type is that of the profile. -/
structure DirectoryConf where
  enabled : Bool
  allow : Option (List Bytes)
  requestUri : Bytes
  maxSize : Nat
  cacheMinTtl : Int
  cacheMaxTtl : Int
  keyRotationRetryTtl : Int
  mediaType : Bytes

structure StatusConf where
  parseError : Nat
  missing : Nat
  replay : Nat
  invalid : Nat
  deriving DecidableEq, Repr

/-- This is the merged configuration of a location. -/
structure Location extends LocConf where
  require : Bool
  satisfyAny : Bool
  status : StatusConf
  directory : DirectoryConf

/-- This is the whole context of the module in one request. -/
structure Context extends RequestCtx where
  directoryDone : Bool
  claimed : Bool
  directoryHost : Bytes
  directoryGeneration : Nat
  deriving DecidableEq

/-- This is a context from `ngx_pcalloc`. -/
def Context.zero : Context where
  toRequestCtx := RequestCtx.zero
  directoryDone := false
  claimed := false
  directoryHost := []
  directoryGeneration := 0

/-- An evaluation leaves the fields of the directory alone. -/
def Context.withEvaluated (ctx : Context) (evaluated : RequestCtx) : Context :=
  { ctx with toRequestCtx := evaluated }

/-- The handlers allocate from the pool of the request in these places. -/
inductive Site where
  | context
  | signatureInput
  | signatureAgent
  | label
  | host
  | postSubrequest
  | cacheControl
  | body
  deriving DecidableEq, Repr

/-- The data of the pool cleanup keep the host and the retry time of the claim. -/
structure Cleanup where
  host : Bytes
  retryTtl : Int
  deriving DecidableEq, Repr

/-- These are the calls of the handlers. -/
inductive Op where
  | room (site : Site)
  | agentRoom
  | time
  | lookup (host : Bytes) (now : Int)
  | claimRotationRefetch (host : Bytes) (now retryTtl : Int)
  | store (host jwks : Bytes) (expiresAt retryTtl : Int)
  | release (host : Bytes) (retryAt : Int)
  | resolveKeys (host : Bytes) (generation : Nat) (jwks : Bytes)
  | loadJwks (jwks : Bytes)
  | addCleanup (cleanup : Cleanup)
  | subrequest (uri : Bytes)
  deriving DecidableEq, Repr

/-- A Boolean answer says that the call succeeds. A lookup, a store and the key sources answer as they do. -/
abbrev Answer : Op → Type
  | .room _ => Bool
  | .agentRoom => Profile.AgentRoom
  | .time => Int
  | .lookup .. => Cache.Answer
  | .claimRotationRefetch .. => Bool
  | .store .. => Nat
  | .release .. => Unit
  | .resolveKeys .. => Option Keys
  | .loadJwks _ => Bool
  | .addCleanup _ => Bool
  | .subrequest _ => Bool

abbrev Handler (α : Type) : Type := Prog Op Answer α

open Prog (ask)

/-- These are `NGX_DECLINED`, `NGX_AGAIN` and `NGX_ERROR`. -/
inductive PhaseRc where
  | declined
  | again
  | error
  deriving DecidableEq, Repr

/-- The keys are unavailable when the request has no document to fall back on. -/
def Context.noteFailure (ctx : Context) (reason : FetchReason) : Context :=
  { ctx with
    keysUnavailable := ctx.keysUnavailable || ctx.jwks.length == 0
    directoryReason := reason }

/-- This is `ngx_http_auth_httpsig_directory_fail_open`. -/
def directoryFailOpen (ctx : Context) (reason : FetchReason) : PhaseRc × Context :=
  (.declined, { ctx.noteFailure reason with directoryDone := true })

/-- This is `ngx_http_auth_httpsig_directory_fail_open_release`. -/
def directoryFailOpenRelease (ctx : Context) (retryTtl : Int) (reason : FetchReason) :
    Handler (PhaseRc × Context) := do
  let ctx := { ctx with claimed := false }
  let now ← ask Op.time
  ask (Op.release ctx.directoryHost (now + retryTtl))
  return directoryFailOpen ctx reason

def directoryDecline (ctx : Context) : PhaseRc × Context := (.declined, { ctx with directoryDone := true })

/-- The claimed host is fetched by a subrequest. -/
def directoryFetch (conf : DirectoryConf) (ctx : Context) : Handler (PhaseRc × Context) := do
  let ctx := { ctx with claimed := true }
  let retryTtl := conf.cacheMinTtl
  if !(← ask (Op.addCleanup ⟨ctx.directoryHost, retryTtl⟩)) then directoryFailOpenRelease ctx retryTtl .failed
  else if !(← ask (Op.room .postSubrequest)) then directoryFailOpenRelease ctx retryTtl .failed
  else if !(← ask (Op.subrequest conf.requestUri)) then directoryFailOpenRelease ctx retryTtl .failed
  else return (.again, ctx)

/-- This is `ngx_http_auth_httpsig_resolve_keys`. -/
def resolveKeysOf (ctx : Context) : Handler (Option Keys) :=
  if ctx.jwks.length = 0 then return none
  else ask (Op.resolveKeys ctx.directoryHost ctx.directoryGeneration ctx.jwks)

/-- No key source of the location knows the key id. -/
def rotationSignal (keys jwksKeys : Option Keys) (keyid : Bytes) : Bool :=
  match keys with
  | none => false
  | some cached => !cached.has keyid && !cached.hasKid keyid && !jwksKeys.any fun source => source.has keyid

/-- A hit serves the request, unless its unknown key id claims a refetch. -/
def directoryHit (lcf : Location) (keyid : Bytes) (ctx : Context) : Handler (PhaseRc × Context) :=
  if keyid.length = 0 then return directoryDecline ctx
  else do
    let keys ← resolveKeysOf ctx
    if !rotationSignal keys lcf.jwksKeys keyid then return directoryDecline ctx
    else
      let now ← ask Op.time
      if ← ask (Op.claimRotationRefetch ctx.directoryHost now lcf.directory.keyRotationRetryTtl) then
        directoryFetch lcf.directory ctx
      else return directoryDecline ctx

/-- The status of the lookup decides how the handler goes on. -/
def directoryAnswered (lcf : Location) (keyid : Bytes) (answer : Cache.Answer) (ctx : Context) :
    Handler (PhaseRc × Context) :=
  match answer.status with
  | none => return directoryFailOpen ctx .failed
  | some .hit => directoryHit lcf keyid { ctx with jwks := answer.jwks }
  | some .busy =>
      if answer.jwks.length > 0 then return directoryDecline { ctx with jwks := answer.jwks }
      else return directoryFailOpen ctx .busy
  | some .negative | some .unavailable => return directoryFailOpen ctx .unavailable
  | some .claimed => directoryFetch lcf.directory ctx

/-- The lookup writes the generation of its answer. -/
def directoryLookup (lcf : Location) (keyid : Bytes) (ctx : Context) : Handler (PhaseRc × Context) := do
  let now ← ask Op.time
  let answer ← ask (Op.lookup ctx.directoryHost now)
  directoryAnswered lcf keyid answer { ctx with directoryGeneration := answer.generation }

/-- The authority of the agent is normalized and has to be allowed. -/
def directoryAgent (lcf : Location) (sigAgent : List Bytes) (label keyid : Bytes) (ctx : Context) :
    Handler (PhaseRc × Context) := do
  let room ← ask Op.agentRoom
  let agentHost := Profile.agentAuthorityIn room sigAgent label
  let hostRoom ← ask (Op.room .host)
  match Directory.normalizeHost agentHost with
  | .error _ => return directoryFailOpen ctx .notAllowed
  | .ok host =>
      if !hostRoom || !Directory.allowed lcf.directory.allow host then return directoryFailOpen ctx .notAllowed
      else directoryLookup lcf keyid { ctx with directoryHost := host }

/-- A context that has not finished its fetch looks at the request. -/
def directoryStart (lcf : Location) (headers : List RawHeader) (ctx : Context) :
    Handler (PhaseRc × Context) := do
  if !(← ask (Op.room .signatureInput)) then return (.error, ctx)
  else if !(← ask (Op.room .signatureAgent)) then return (.error, ctx)
  else
    let sigInput := collectHeader headers (ascii "signature-input")
    let sigAgent := collectHeader headers (ascii "signature-agent")
    if sigInput.length = 0 ∨ sigAgent.length = 0 then return directoryDecline ctx
    else if !(← ask (Op.room .label)) then return (.error, ctx)
    else
      match Profile.selectLabel lcf.profile sigInput with
      | none => return directoryDecline ctx
      | some (label, keyid) => directoryAgent lcf sigAgent label keyid ctx

/-- This is `ngx_http_auth_httpsig_directory_handler` on a main request. -/
def directoryHandler (lcf : Location) (headers : List RawHeader) (ctx : Option Context) :
    Handler (PhaseRc × Option Context) :=
  if lcf.mode = .off ∨ lcf.directory.enabled = false then return (.declined, ctx)
  else
    match ctx with
    | some ctx =>
        if ctx.directoryDone then return (.declined, some ctx)
        else if ctx.claimed then return (.again, some ctx)
        else if ctx.done then return (.declined, some { ctx with directoryDone := true })
        else do
          let out ← directoryStart lcf headers ctx
          return (out.1, some out.2)
    | none => do
        if !(← ask (Op.room .context)) then return (.error, none)
        else
          let out ← directoryStart lcf headers Context.zero
          return (out.1, some out.2)

/-- Cache-Control is copied, and it counts as absent without room. -/
def readCacheControl (lines : List Bytes) : Handler Bytes :=
  if lines.isEmpty then return []
  else do
    if ← ask (Op.room .cacheControl) then return Profile.joinLines lines else return []

/-- The fetch failed, and its claim is released. -/
def directoryRelease (conf : DirectoryConf) (ctx : Context) (reason : FetchReason) (now : Int) :
    Handler Context := do
  let ctx := ctx.noteFailure reason
  ask (Op.release ctx.directoryHost (now + conf.cacheMinTtl))
  return { ctx with claimed := false, directoryDone := true }

/-- An accepted response is stored when its document parses. -/
def directoryAccept (conf : DirectoryConf) (ctx : Context) (cacheControl : Bytes) (age : Int) (body : Bytes)
    (now : Int) : Handler Context := do
  if !(← ask (Op.room .body)) then directoryRelease conf ctx .failed now
  else if !(← ask (Op.loadJwks body)) then directoryRelease conf ctx .invalid now
  else
    let ttl := Directory.directoryTtl cacheControl age conf.cacheMinTtl conf.cacheMaxTtl
    let generation ← ask (Op.store ctx.directoryHost body (now + ttl) conf.cacheMinTtl)
    return { ctx with jwks := body, directoryGeneration := generation, claimed := false, directoryDone := true }

/-- This is `ngx_http_auth_httpsig_directory_done`. -/
def directoryDone (conf : DirectoryConf) (response : Directory.Response) (ctx : Context) : Handler Context :=
  match response.ok, response.upstream with
  | true, some upstream => do
      let cacheControl ← readCacheControl upstream.cacheControl
      let checked := Directory.checkResponse (Directory.bareSchema upstream.schema) response.status
        response.contentType conf.mediaType response.body.length conf.maxSize
      let now ← ask Op.time
      match checked with
      | .error reason => directoryRelease conf ctx reason now
      | .ok _ => directoryAccept conf ctx cacheControl (Directory.ageOf upstream.headers) response.body now
  | _, _ => do
      let now ← ask Op.time
      directoryRelease conf ctx .failed now

/-- This is `ngx_http_auth_httpsig_directory_cleanup`. -/
def directoryCleanup (cleanup : Cleanup) (ctx : Context) : Handler Context :=
  if ctx.claimed then do
    let now ← ask Op.time
    ask (Op.release cleanup.host (now + cleanup.retryTtl))
    return { ctx with claimed := false }
  else return ctx

/-- This is `ngx_http_auth_httpsig_deny_code`. -/
def denyCode (lcf : Location) (code : Nat) : Nat :=
  if lcf.satisfyAny ∧ code ≠ 403 ∧ code ≠ 401 then 403 else code

/-- The access phase passes with `NGX_OK`, has no opinion with `NGX_DECLINED`, or answers with a status. -/
inductive Access where
  | ok
  | declined
  | status (code : Nat)
  deriving DecidableEq, Repr

/-- An internal error of the evaluation is no verdict. -/
def internalAccess (lcf : Location) : Access := if lcf.mode = .enforce then .status 500 else .declined

/-- A failed verification is denied in the mode that enforces. -/
def enforceAccess (lcf : Location) (code : Nat) : Access :=
  if lcf.mode ≠ .enforce then .declined else .status (denyCode lcf code)

/-- The result of the context decides. -/
def accessOf (lcf : Location) (ctx : RequestCtx) : Access :=
  if ctx.internalError then internalAccess lcf
  else
    match ctx.result with
    | .ok => .ok
    | .notSigned => if lcf.require then .status (denyCode lcf lcf.status.missing) else .declined
    | .keyUnavailable => .declined
    | .nonceReplayed => enforceAccess lcf lcf.status.replay
    | .nonceStoreUnavailable => enforceAccess lcf 503
    | .parseError => enforceAccess lcf lcf.status.parseError
    | _ => enforceAccess lcf lcf.status.invalid

/-- This is the rest of `ngx_http_auth_httpsig_access_handler` after its evaluation. -/
def accessDecision (lcf : Location) (rc : Rc) (ctx : Option RequestCtx) : Access :=
  match rc, ctx with
  | .ok, some ctx => accessOf lcf ctx
  | _, _ => internalAccess lcf

end AuthHttpsig.Module
