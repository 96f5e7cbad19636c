/-
This file gives the directives of `ngx_http_auth_httpsig_module.c`, their setters and the merging of the
configuration blocks.
-/

import AuthHttpsig.Construction.Authority
import AuthHttpsig.Construction.Evaluate

namespace AuthHttpsig.Config
open Ascii
open AuthHttpsig.Module (Mode NonceBackend NonceFailure)

def maxJwksSize : Nat := 262144

/-- These are the directives with the values that the slots of nginx parse, or with their arguments. -/
inductive Directive where
  | mode (value : Mode)
  | require (value : Bool)
  | statusParseError (code : Nat)
  | statusMissing (code : Nat)
  | statusReplay (code : Nat)
  | statusInvalid (code : Nat)
  | schemeVar (name : Bytes)
  | jwksFile (path : Bytes)
  | profile (name : Bytes)
  | expiresMax (seconds : Int)
  | maxSkew (seconds : Int)
  | agentAllow (hosts : List Bytes)
  | keyidFallbackAllow (value : Bool)
  | keyDirectoryRequest (uri : Bytes)
  | keyDirectoryMaxSize (size : Nat)
  | keyCacheMinTtl (seconds : Int)
  | keyCacheMaxTtl (seconds : Int)
  | keyRotationRetryTtl (seconds : Int)
  | keyCacheZone (zone : Bytes)
  | nonceStore (value : NonceBackend)
  | nonceStoreFailure (value : NonceFailure)
  | nonceRequired (value : Bool)
  | nonceStoreRedis (parameters : List Bytes)
  | nonceStoreZone (zone : Bytes)
  deriving DecidableEq, Repr

/-- An absent field is unset. -/
structure LocConf where
  mode : Option Mode
  schemeIndex : Option Nat
  keyidFallbackAllow : Option Bool
  require : Option Bool
  nonceRequired : Option Bool
  nonceStoreFailure : Option NonceFailure
  nonceStore : Option NonceBackend
  keys : Option Keys
  profile : Option Profile.Definition
  expiresMax : Option Int
  maxSkew : Option Int
  allow : Option (List Bytes)
  requestUri : Bytes
  maxSize : Option Nat
  cacheMinTtl : Option Int
  cacheMaxTtl : Option Int
  keyRotationRetryTtl : Option Int
  enabled : Bool
  statusParseError : Option Nat
  statusMissing : Option Nat
  statusReplay : Option Nat
  statusInvalid : Option Nat

def createLocConf : LocConf where
  mode := none
  schemeIndex := none
  keyidFallbackAllow := none
  require := none
  nonceRequired := none
  nonceStoreFailure := none
  nonceStore := none
  keys := none
  profile := none
  expiresMax := none
  maxSkew := none
  allow := none
  requestUri := []
  maxSize := none
  cacheMinTtl := none
  cacheMaxTtl := none
  keyRotationRetryTtl := none
  enabled := false
  statusParseError := none
  statusMissing := none
  statusReplay := none
  statusInvalid := none

/-- A zone is known by its name. -/
structure MainConf where
  shmZone : Option Bytes
  dynamic : Bool
  accessUsed : Bool
  nonceStoreBackend : NonceBackend
  nonceRedis : Bool
  nonceShmZone : Option Bytes
  deriving DecidableEq

def createMainConf : MainConf where
  shmZone := none
  dynamic := false
  accessUsed := false
  nonceStoreBackend := .off
  nonceRedis := false
  nonceShmZone := none

/-- These are the answers of nginx, of the file system and of the resolver while the configuration is
read. The binary may have no Redis support. -/
structure Environment where
  loadJwksFile : Bytes → Option Keys
  variableIndex : Bytes → Option Nat
  parseSize : Bytes → Option Nat
  pageSize : Nat
  sharedMemoryAdd : Bytes → Nat → Bool
  redisParameters : List Bytes → Bool
  haveNonceRedis : Bool

/-- A slot of nginx takes one value. -/
def setSlot {α : Type} (field : Option α) (value : α) : Except String (Option α) :=
  if field.isSome then .error "is duplicate" else .ok (some value)

def setStatus (field : Option Nat) (code : Nat) : Except String (Option Nat) := do
  let slot ← setSlot field code
  if 400 ≤ code ∧ code ≤ 599 then return slot
  else throw "value must be between 400 and 599"

def setSchemeVar (env : Environment) (conf : LocConf) (name : Bytes) : Except String LocConf :=
  if conf.schemeIndex.isSome then .error "is duplicate"
  else if name.length ≤ 1 ∨ name.head? ≠ some dollar then .error "invalid variable name"
  else
    match env.variableIndex name.tail with
    | none => .error "no variable"
    | some index => .ok { conf with schemeIndex := some index }

def setJwksFile (env : Environment) (conf : LocConf) (path : Bytes) : Except String LocConf :=
  if conf.keys.isSome then .error "is duplicate"
  else
    match env.loadJwksFile path with
    | none => .error "failed to load JWKS"
    | some keys => .ok { conf with keys := some keys }

def setProfile (conf : LocConf) (name : Bytes) : Except String LocConf :=
  if conf.profile.isSome then .error "is duplicate"
  else
    match Profile.get name with
    | none => .error "unknown profile"
    | some definition => .ok { conf with profile := some definition }

def argIsOff (value : Bytes) : Bool := value.length == 3 && sameFolded value (ascii "off")

def isOff (hosts : List Bytes) : Bool := hosts.length == 1 && hosts.all argIsOff

/-- This is `ngx_http_auth_httpsig_set_agent_allow`. A lone `off` is an empty list. -/
def setAgentAllow (main : MainConf) (conf : LocConf) (hosts : List Bytes) : Except String (MainConf × LocConf) :=
  if !isOff hosts && hosts.any argIsOff then
    .error "\"off\" cannot be combined with hostnames in \"auth_httpsig_agent_allow\""
  else if conf.allow.any fun allow => isOff hosts || allow.length == 0 then
    .error "\"auth_httpsig_agent_allow off\" cannot be combined with other directives in the same block"
  else if isOff hosts then .ok (main, { conf with allow := some [] })
  else
    match hosts.mapM Directory.normalizeHost with
    | .error _ => .error "invalid host in \"auth_httpsig_agent_allow\""
    | .ok normalized =>
        .ok ({ main with dynamic := true }, { conf with allow := some (conf.allow.getD [] ++ normalized) })

/-- This is `ngx_http_auth_httpsig_set_key_directory_request`. -/
def setKeyDirectoryRequest (conf : LocConf) (uri : Bytes) : Except String LocConf :=
  if conf.requestUri.length > 0 then .error "is duplicate"
  else if uri.head? ≠ some slash then .error "must start with \"/\""
  else if uri.contains dollar then .error "must not contain variables"
  else .ok { conf with requestUri := uri }

/-- This is `ngx_http_auth_httpsig_add_zone`. A zone of this module serves one directive. -/
def addZone (env : Environment) (main : MainConf) (zone : Bytes) : Except String Bytes :=
  let name := zone.takeWhile fun c => c != colon
  match zone.dropWhile fun c => c != colon with
  | [] => .error "invalid zone size"
  | _ :: text =>
      match env.parseSize text with
      | none => .error "invalid zone size"
      | some size =>
          if size < 8 * env.pageSize then .error "zone is too small"
          else if !env.sharedMemoryAdd name size then .error "zone conflict"
          else if main.shmZone = some name ∨ main.nonceShmZone = some name then
            .error "shared memory zone is already used by another directive"
          else .ok name

def setKeyCacheZone (env : Environment) (main : MainConf) (zone : Bytes) : Except String MainConf :=
  if main.shmZone.isSome then .error "is duplicate"
  else do
    let name ← addZone env main zone
    return { main with shmZone := some name }

def setNonceStoreRedis (env : Environment) (main : MainConf) (parameters : List Bytes) :
    Except String MainConf :=
  if main.nonceRedis then .error "is duplicate"
  else if env.redisParameters parameters then .ok { main with nonceRedis := true }
  else .error "invalid parameter"

def setNonceStoreZone (env : Environment) (main : MainConf) (zone : Bytes) : Except String MainConf :=
  if main.nonceShmZone.isSome then .error "is duplicate"
  else do
    let name ← addZone env main zone
    return { main with nonceShmZone := some name }

/-- A setter of a location field leaves the main configuration. -/
def setLoc (env : Environment) (conf : LocConf) : Directive → Except String LocConf
  | .mode value => return { conf with mode := ← setSlot conf.mode value }
  | .require value => return { conf with require := ← setSlot conf.require value }
  | .statusParseError code => return { conf with statusParseError := ← setStatus conf.statusParseError code }
  | .statusMissing code => return { conf with statusMissing := ← setStatus conf.statusMissing code }
  | .statusReplay code => return { conf with statusReplay := ← setStatus conf.statusReplay code }
  | .statusInvalid code => return { conf with statusInvalid := ← setStatus conf.statusInvalid code }
  | .schemeVar name => setSchemeVar env conf name
  | .jwksFile path => setJwksFile env conf path
  | .profile name => setProfile conf name
  | .expiresMax seconds => return { conf with expiresMax := ← setSlot conf.expiresMax seconds }
  | .maxSkew seconds => return { conf with maxSkew := ← setSlot conf.maxSkew seconds }
  | .keyidFallbackAllow value =>
      return { conf with keyidFallbackAllow := ← setSlot conf.keyidFallbackAllow value }
  | .keyDirectoryRequest uri => setKeyDirectoryRequest conf uri
  | .keyDirectoryMaxSize size => return { conf with maxSize := ← setSlot conf.maxSize size }
  | .keyCacheMinTtl seconds => return { conf with cacheMinTtl := ← setSlot conf.cacheMinTtl seconds }
  | .keyCacheMaxTtl seconds => return { conf with cacheMaxTtl := ← setSlot conf.cacheMaxTtl seconds }
  | .keyRotationRetryTtl seconds =>
      return { conf with keyRotationRetryTtl := ← setSlot conf.keyRotationRetryTtl seconds }
  | .nonceStore value => return { conf with nonceStore := ← setSlot conf.nonceStore value }
  | .nonceStoreFailure value =>
      return { conf with nonceStoreFailure := ← setSlot conf.nonceStoreFailure value }
  | .nonceRequired value => return { conf with nonceRequired := ← setSlot conf.nonceRequired value }
  | .agentAllow _ | .keyCacheZone _ | .nonceStoreRedis _ | .nonceStoreZone _ => return conf

/-- The zones and the Redis server stand in the http block alone. -/
def apply (env : Environment) (http : Bool) (main : MainConf) (conf : LocConf) :
    Directive → Except String (MainConf × LocConf)
  | .agentAllow hosts =>
      if hosts.length = 0 then .error "invalid number of arguments" else setAgentAllow main conf hosts
  | .keyCacheZone zone =>
      if http then return (← setKeyCacheZone env main zone, conf) else .error "directive is not allowed here"
  | .nonceStoreRedis parameters =>
      if http then return (← setNonceStoreRedis env main parameters, conf)
      else .error "directive is not allowed here"
  | .nonceStoreZone zone =>
      if http then return (← setNonceStoreZone env main zone, conf) else .error "directive is not allowed here"
  | directive => return (main, ← setLoc env conf directive)

/-- A block holds directives and further blocks in the order of the file. -/
inductive Body where
  | done
  | directive (first : Directive) (rest : Body)
  | block (inner rest : Body)
  deriving DecidableEq, Repr

/-- Each block has its configuration and its inner blocks. -/
inductive Forest where
  | empty
  | block (conf : LocConf) (inner rest : Forest)

/-- The setters run in the order of the file. -/
def read (env : Environment) (http : Bool) (main : MainConf) (conf : LocConf) :
    Body → Except String (MainConf × LocConf × Forest)
  | .done => .ok (main, conf, .empty)
  | .directive first rest => do
      let (main, conf) ← apply env http main conf first
      read env http main conf rest
  | .block inner rest => do
      let (main, innerConf, innerBlocks) ← read env false main createLocConf inner
      let (main, conf, restBlocks) ← read env http main conf rest
      return (main, conf, .block innerConf innerBlocks restBlocks)

def defaultScheme : Bytes := ascii "scheme"

def mergeScheme (env : Environment) (parent conf : LocConf) : Except String Nat :=
  match conf.schemeIndex.or parent.schemeIndex with
  | some index => .ok index
  | none =>
      match env.variableIndex defaultScheme with
      | some index => .ok index
      | none => .error "no variable"

/-- These are the merged fields before any check. -/
def mergeValues (parent conf : LocConf) (schemeIndex : Nat) : LocConf :=
  let profile := (conf.profile.or parent.profile).getD Profile.webBotAuth
  let allow := conf.allow.or parent.allow
  let requestUri := if conf.requestUri.length = 0 then parent.requestUri else conf.requestUri
  { mode := some ((conf.mode.or parent.mode).getD .off)
    schemeIndex := some schemeIndex
    keyidFallbackAllow := some ((conf.keyidFallbackAllow.or parent.keyidFallbackAllow).getD false)
    require := some ((conf.require.or parent.require).getD false)
    nonceRequired := some ((conf.nonceRequired.or parent.nonceRequired).getD false)
    nonceStoreFailure := some ((conf.nonceStoreFailure.or parent.nonceStoreFailure).getD .failOpen)
    nonceStore := some ((conf.nonceStore.or parent.nonceStore).getD .off)
    keys := conf.keys.or parent.keys
    profile := some profile
    expiresMax := some ((conf.expiresMax.or parent.expiresMax).getD profile.expiresMax)
    maxSkew := some ((conf.maxSkew.or parent.maxSkew).getD profile.maxSkew)
    allow := allow
    requestUri := requestUri
    maxSize := some ((conf.maxSize.or parent.maxSize).getD 65536)
    cacheMinTtl := some ((conf.cacheMinTtl.or parent.cacheMinTtl).getD 300)
    cacheMaxTtl := some ((conf.cacheMaxTtl.or parent.cacheMaxTtl).getD 3600)
    keyRotationRetryTtl := some ((conf.keyRotationRetryTtl.or parent.keyRotationRetryTtl).getD 300)
    enabled := (allow.getD []).length > 0 && requestUri.length > 0
    statusParseError := some ((conf.statusParseError.or parent.statusParseError).getD 400)
    statusMissing := some ((conf.statusMissing.or parent.statusMissing).getD 403)
    statusReplay := some ((conf.statusReplay.or parent.statusReplay).getD 429)
    statusInvalid := some ((conf.statusInvalid.or parent.statusInvalid).getD 403) }

def checkLimits (merged : LocConf) : Except String Unit :=
  if merged.cacheMinTtl = some 0 then .error "\"auth_httpsig_key_cache_min_ttl\" must not be 0"
  else if merged.cacheMaxTtl.getD 0 < merged.cacheMinTtl.getD 0 then
    .error "\"auth_httpsig_key_cache_max_ttl\" must not be less than \"auth_httpsig_key_cache_min_ttl\""
  else if merged.keyRotationRetryTtl = some 0 then
    .error "\"auth_httpsig_key_rotation_retry_ttl\" must not be 0"
  else if merged.maxSize.getD 0 > maxJwksSize then
    .error "\"auth_httpsig_key_directory_max_size\" must not exceed 262144 bytes"
  else .ok ()

/-- Only a block that declares a list of hosts is checked for the request and the zone. -/
def checkDirectory (main : MainConf) (conf merged : LocConf) : Except String Unit :=
  if (conf.allow.getD []).length > 0 then
    if merged.requestUri.length = 0 then
      .error "\"auth_httpsig_agent_allow\" is set but no \"auth_httpsig_key_directory_request\" is configured"
    else if main.shmZone.isNone then
      .error "\"auth_httpsig_agent_allow\" is set but no \"auth_httpsig_key_cache_zone\" is configured"
    else .ok ()
  else .ok ()

def checkMode (merged : LocConf) : Except String Unit :=
  if merged.mode ≠ some .off ∧ merged.keys.isNone ∧ merged.enabled = false then
    .error "\"auth_httpsig_mode\" is not \"off\" but no \"auth_httpsig_jwks_file\" is configured"
  else if merged.require = some true ∧ merged.mode = some .off then
    .error "\"auth_httpsig_require\" is \"on\" but \"auth_httpsig_mode\" is \"off\""
  else .ok ()

/-- Only a block that declares the nonce store or its requirement is checked against the mode. -/
def checkNonce (conf merged : LocConf) : Except String Unit :=
  if conf.nonceStore.isSome ∧ merged.nonceStore ≠ some .off ∧ merged.mode = some .off then
    .error "\"auth_httpsig_nonce_store\" is not \"off\" but \"auth_httpsig_mode\" is \"off\""
  else if conf.nonceRequired.isSome ∧ merged.nonceRequired = some true ∧ merged.nonceStore = some .off then
    .error "\"auth_httpsig_nonce_required\" is \"on\" but \"auth_httpsig_nonce_store\" is \"off\""
  else .ok ()

/-- The whole configuration selects one backend, which must be configured. -/
def selectBackend (env : Environment) (main : MainConf) (backend : NonceBackend) : Except String MainConf :=
  if backend = .off then .ok main
  else if main.nonceStoreBackend ≠ .off ∧ main.nonceStoreBackend ≠ backend then
    .error "\"auth_httpsig_nonce_store\" must select the same backend everywhere in the configuration"
  else if backend = .redis ∧ env.haveNonceRedis = false then
    .error "\"auth_httpsig_nonce_store\" is \"redis\" but this binary was built without redis support"
  else if backend = .redis ∧ main.nonceRedis = false then
    .error "\"auth_httpsig_nonce_store\" is \"redis\" but no \"auth_httpsig_nonce_store_redis\" is configured"
  else if backend = .shm ∧ main.nonceShmZone.isNone then
    .error "\"auth_httpsig_nonce_store\" is \"shm\" but no \"auth_httpsig_nonce_store_zone\" is configured"
  else .ok { main with nonceStoreBackend := backend }

/-- An enforced mode and a required signature need the access handler. -/
def noteAccess (main : MainConf) (merged : LocConf) : MainConf :=
  if merged.mode = some .enforce ∨ merged.require = some true then { main with accessUsed := true } else main

/-- This is `ngx_http_auth_httpsig_merge_loc_conf`. -/
def mergeLocConf (env : Environment) (main : MainConf) (parent conf : LocConf) :
    Except String (MainConf × LocConf) := do
  let schemeIndex ← mergeScheme env parent conf
  let merged := mergeValues parent conf schemeIndex
  checkLimits merged
  checkDirectory main conf merged
  checkMode merged
  checkNonce conf merged
  let main ← selectBackend env main (merged.nonceStore.getD .off)
  return (noteAccess main merged, merged)

/-- Every block is merged with its parent before its inner blocks. -/
def merge (env : Environment) (main : MainConf) (parent : LocConf) :
    Forest → Except String (MainConf × Forest)
  | .empty => .ok (main, .empty)
  | .block conf inner rest => do
      let (main, merged) ← mergeLocConf env main parent conf
      let (main, inner) ← merge env main merged inner
      let (main, rest) ← merge env main parent rest
      return (main, .block merged inner rest)

/-- The http block is read as a whole before its servers are merged. -/
def load (env : Environment) (http : Body) : Except String (MainConf × Forest) := do
  let (main, conf, servers) ← read env true createMainConf createLocConf http
  merge env main conf servers

/-- These are the handlers that `ngx_http_auth_httpsig_init` registers. -/
structure Handlers where
  directory : Bool
  access : Bool
  deriving DecidableEq

def init (main : MainConf) : Handlers := ⟨main.dynamic, main.accessUsed⟩

end AuthHttpsig.Config
