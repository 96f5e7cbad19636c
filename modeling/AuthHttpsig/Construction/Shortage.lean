/-
This file gives the request evaluation under allocation failures of the request pool and failures of
the key library.
-/

import AuthHttpsig.Construction.Evaluate
import AuthHttpsig.Library.Interaction

namespace AuthHttpsig

namespace Keys

/-- A call of the key library may fail. -/
def answering (verifies verifiesKid : Bool) (keys : Keys) : Keys :=
  { keys with
    verify := fun keyid msg sig => if verifies then keys.verify keyid msg sig else .error
    verifyKid := fun kid msg sig => if verifiesKid then keys.verifyKid kid msg sig else .error }

/-- This is `ngx_auth_httpsig_keys_chain`, which gives `NULL` where a chain has no room. -/
def chainIn (room : Bool) : Option Keys → Option Keys → Option Keys
  | none, second => second
  | some first, none => some first
  | some first, some second => if room then some (chained first second) else none

end Keys

namespace Profile
open Ascii Sfv Base

/-- Each line of Signature-Agent meets this room for its two parses, and the host meets this room for its
copy. -/
structure AgentRoom where
  dictionary : Nat → Bool
  item : Nat → Bool
  copy : Bool

def AgentRoom.full : AgentRoom := ⟨fun _ => true, fun _ => true, true⟩

/-- A line that is no dictionary gives its string or else its octets. -/
def agentLine (itemRoom : Bool) (line : Bytes) : Bytes :=
  if itemRoom then
    match parseItem line with
    | .ok ⟨.string value, _⟩ => value
    | _ => line
  else line

/-- A parse without room is taken for one that declines. -/
def agentLinesIn (room : AgentRoom) (label : Bytes) : Nat → AgentScan → List Bytes → AgentScan
  | _, scan, [] => scan
  | index, scan, line :: rest =>
      if line.length = 0 || maxSfvLength < line.length then agentLinesIn room label (index + 1) scan rest
      else match room.dictionary index, parseDictionary line with
        | true, .ok dict =>
            let scan := dict.entries.foldl (agentEntry label) scan
            if scan.found.isSome then scan else agentLinesIn room label (index + 1) scan rest
        | _, _ =>
            let url := agentLine (room.item index) line
            agentLinesIn room label (index + 1)
              { scan with fallback := if scan.fallback.isNone then some url else scan.fallback } rest

/-- This is `ngx_auth_httpsig_profile_agent_url`. -/
def agentUrlIn (room : AgentRoom) (raws : List Bytes) (label : Bytes) : Option Bytes :=
  let scan := agentLinesIn room label 0 ⟨none, none⟩ raws
  match scan.found with
  | some url => some url
  | none => scan.fallback

/-- This is `ngx_auth_httpsig_profile_agent_copy`, which leaves the output empty without room. -/
def agentCopyIn (room : AgentRoom) (text : Bytes) : Bytes := if room.copy then strlow text else []

def agentHostIn (room : AgentRoom) (raws : List Bytes) (label : Bytes) : Bytes :=
  match (agentUrlIn room raws label).bind agentBounds with
  | none => []
  | some bounds => agentCopyIn room bounds.host

def agentAuthorityIn (room : AgentRoom) (raws : List Bytes) (label : Bytes) : Bytes :=
  match (agentUrlIn room raws label).bind agentBounds with
  | none => []
  | some bounds => agentCopyIn room bounds.authority

/-- The steps of one verification meet this room. -/
structure Room where
  inputField : Bool
  signatureField : Bool
  inputDictionary : Bool
  signatureDictionary : Bool
  agentLines : Bool
  base : Bool
  agent : AgentRoom

def Room.full : Room := ⟨true, true, true, true, true, true, AgentRoom.full⟩

/-- A step without room is an internal error. -/
def need (room : Bool) : Except Failure Unit := if room then .ok () else .error .error

def selectSignatureIn (room : Room) (ctx : Ctx) (req : Request) :
    Except Failure (Dictionary × Signature) := do
  let inputRaw ← ofOption .notSigned (fieldValue req (ascii "signature-input"))
  need room.inputField
  let sigRaw ← ofOption .parseError (fieldValue req (ascii "signature"))
  need room.signatureField
  need room.inputDictionary
  let inputDict ← parseField inputRaw
  need room.signatureDictionary
  let sigDict ← parseField sigRaw
  if inputDict.duplicateKeys || sigDict.duplicateKeys then .error (.declined .parseError)
  else do
    let entry ← ofOption .notSigned (selectEntry inputDict ctx.profile.tag)
    match entry.2 with
    | .item _ => .error (.declined .parseError)
    | .innerList list =>
        let sig ← ofOption .parseError
          (extractParams list.params { Signature.zero with label := entry.1, components := list })
        let sig := { sig with covered := coveredComponents list.items }
        if !profileMatch ctx.profile sig then .error (.declined .profileMismatch) else return (sigDict, sig)

/-- This is `ngx_auth_httpsig_profile_verify`. -/
def verifyIn (room : Room) (ctx : Ctx) (clock : Int) (req : Request) : Except Failure Signature := do
  let (sigDict, sig) ← selectSignatureIn room ctx req
  need room.agentLines
  let agentRaws := collect req signatureAgent
  let agentPresent := !agentRaws.isEmpty
  if ctx.profile.requireAgentCovered && agentPresent && !sig.covered.contains .signatureAgent then
    .error (.declined .profileMismatch)
  else if !timeWindow ctx (ctx.effectiveNow clock) sig then .error (.declined .expired)
  else do
    let signature ← ofOption .parseError (signatureOf sigDict sig.label)
    let sig := { sig with signature := signature }
    need room.base
    match build req sig.components with
    | .error _ => .error (.declined .parseError)
    | .ok base => do
        verifyEd25519 ctx.keys sig.keyid base sig.signature ctx.kidFallbackKeys
        return if agentPresent then { sig with agentHost := agentHostIn room.agent agentRaws sig.label } else sig

end Profile

namespace Module

open SearchTree

/-- One evaluation meets this room, and these answers of the key library. -/
structure Room where
  context : Bool
  snapshot : Bool
  jwks : Bool
  chain : Bool
  dynamicVerifies : Bool
  dynamicVerifiesKid : Bool
  staticVerifies : Bool
  profile : Profile.Room
  verdict : Bool
  nonceKey : Bool

def Room.full : Room := ⟨true, true, true, true, true, true, true, Profile.Room.full, true, true⟩

variable {rb : Balanced Nat}

/-- A verdict that cannot be formed is an internal error. -/
def failedVerdict : Verdict := ⟨.ok, false, true⟩

/-- The backend is asked about a key for this time. -/
structure NonceCall where
  key : Bytes
  ttl : Int
  now : Int

/-- A nonce check calls its backend. -/
abbrev Checking : Type → Type := Prog NonceCall fun _ => NonceStore.Rc

/-- The configured backend answers a call. -/
def backend (crc : Bytes → UInt32) (lcf : LocConf) (env : Env) (call : NonceCall) (store : NonceStore.Store rb) :
    NonceStore.Rc × NonceStore.Store rb :=
  backendCheck crc lcf env call.key call.ttl call.now store

def firstVerdictOf (room : Room) (lcf : LocConf) (sig : Profile.Signature) (now : Int) : Checking Verdict :=
  if NonceStore.nonceMaxLen < sig.nonce.length then pure ⟨.nonceTooLong, false, false⟩
  else if !room.nonceKey then pure failedVerdict
  else do
    let rc ← Prog.ask ⟨NonceStore.storeKey sig.agentHost sig.keyid sig.nonce,
      NonceStore.storeTtl sig.expires lcf.maxSkew now, now⟩
    return verdictOf lcf rc

/-- This is `ngx_http_auth_httpsig_check_nonce`. A verdict without room in the pool is not memoized. -/
def checkNonceOf (room : Room) (lcf : LocConf) (memo : Option Verdict) (sig : Profile.Signature) (now : Int) :
    Checking (Verdict × Option Verdict) :=
  if lcf.nonceStore = .off then pure (⟨.ok, false, false⟩, memo)
  else if sig.nonce.length = 0 then
    pure (⟨if lcf.nonceRequired then .nonceMissing else .ok, false, false⟩, memo)
  else
    match memo with
    | some verdict => pure (verdict, memo)
    | none =>
        if !room.verdict then pure (failedVerdict, none)
        else do
          let first ← firstVerdictOf room lcf sig now
          return (first, some first)

/-- The store serves the calls of the nonce check. -/
def checkNonceIn (room : Room) (crc : Bytes → UInt32) (lcf : LocConf) (env : Env) (memo : Option Verdict)
    (sig : Profile.Signature) (now : Int) (store : NonceStore.Store rb) :
    Verdict × Option Verdict × NonceStore.Store rb :=
  let out := (checkNonceOf room lcf memo sig now).serve (backend crc lcf env) store
  (out.1.1, out.1.2, out.2)

/-- This is `ngx_http_auth_httpsig_resolve_keys`, which gives `NULL` where the document cannot be parsed. -/
def resolveKeysIn (room : Room) (env : Env) (jwks : Bytes) : Option Keys :=
  if room.jwks then
    (resolveKeys env jwks).map (Keys.answering room.dynamicVerifies room.dynamicVerifiesKid)
  else none

def profileCtxIn (room : Room) (lcf : LocConf) (dynamicKeys : Option Keys) (now : Int) : Profile.Ctx where
  profile := lcf.profile
  keys := Keys.chainIn room.chain dynamicKeys (lcf.jwksKeys.map (Keys.answering room.staticVerifies true))
  kidFallbackKeys := if lcf.keyidFallbackAllow then dynamicKeys else none
  expiresMax := lcf.expiresMax
  maxSkew := lcf.maxSkew
  now := now

/-- This is `ngx_http_auth_httpsig_evaluate` on a main request. It gives the return code, `*out` and the state of
the request, and it calls the backend of the nonces. -/
def evaluateOf (room : Room) (lcf : LocConf) (env : Env) (req : Base.Request) (state : RequestState) :
    Checking (Rc × Option RequestCtx × RequestState) :=
  if lcf.mode = .off then pure (.ok, none, state)
  else if state.ctx.any RequestCtx.done then pure (.ok, state.ctx, state)
  else if state.ctx.isNone && !room.context then pure (.error, none, state)
  else
    let ctx := { state.ctx.getD RequestCtx.zero with done := true, result := .notSigned }
    if (Base.fieldValue req (ascii "signature-input")).isNone then
      pure (.ok, some ctx, { state with ctx := some ctx })
    else if !room.snapshot then
      let ctx := { ctx with internalError := true }
      pure (.ok, some ctx, { state with ctx := some ctx })
    else
      let dynamicKeys := resolveKeysIn room env ctx.jwks
      let ctx := noteKeys dynamicKeys ctx
      match Profile.verifyIn room.profile (profileCtxIn room lcf dynamicKeys env.now) env.now req with
      | .error .error =>
          let ctx := { ctx with internalError := true }
          pure (.ok, some ctx, { state with ctx := some ctx })
      | .error (.declined result) =>
          let ctx := { ctx with result := declinedResult ctx result }
          pure (.ok, some ctx, { state with ctx := some ctx })
      | .ok sig => do
          let checked ← checkNonceOf room lcf state.verdict sig env.now
          let ctx := noteVerdict sig checked.1 ctx
          return (.ok, some ctx, ⟨some ctx, checked.2⟩)

/-- The store serves the calls of the evaluation. -/
def evaluateIn (room : Room) (crc : Bytes → UInt32) (lcf : LocConf) (env : Env) (req : Base.Request)
    (state : RequestState) (store : NonceStore.Store rb) :
    Rc × Option RequestCtx × RequestState × NonceStore.Store rb :=
  let out := (evaluateOf room lcf env req state).serve (backend crc lcf env) store
  (out.1.1, out.1.2.1, out.1.2.2, out.2)

end Module
end AuthHttpsig
