/-
This file gives the profile table of `ngx_auth_httpsig_profile.c`, the verification steps of a
request against it and the extraction of the agent from Signature-Agent.
-/

import AuthHttpsig.Construction.Base
import AuthHttpsig.Construction.Keys

namespace AuthHttpsig.Profile
open Ascii Sfv Base

/-- These are the `NGX_AUTH_HTTPSIG_PARAM_*` bits. -/
inductive Param where
  | created
  | expires
  | keyid
  | alg
  | nonce
  | tag
  deriving DecidableEq, Repr

/-- These are the `NGX_AUTH_HTTPSIG_COMP_*` bits. -/
inductive Component where
  | method
  | targetUri
  | authority
  | scheme
  | requestTarget
  | path
  | query
  | signatureAgent
  deriving DecidableEq, Repr

/-- A set of bits is the list of them. -/
structure Definition where
  name : Bytes
  tag : Bytes
  requiredParams : List Param
  anyOfComponents : List Component
  allOfComponents : List Component
  requireAgentCovered : Bool
  expiresMax : Int
  maxSkew : Int
  alg : Bytes

def webBotAuth : Definition where
  name := ascii "web-bot-auth"
  tag := ascii "web-bot-auth"
  requiredParams := [.created, .expires, .keyid, .tag]
  anyOfComponents := [.targetUri, .authority]
  allOfComponents := []
  requireAgentCovered := true
  expiresMax := 86400
  maxSkew := 60
  alg := ascii "ed25519"

def profiles : List Definition := [webBotAuth]

def get (name : Bytes) : Option Definition := profiles.find? fun profile => profile.name == name

def components : List (Bytes × Component) :=
  [(ascii "@method", .method),
   (ascii "@target-uri", .targetUri),
   (ascii "@authority", .authority),
   (ascii "@scheme", .scheme),
   (ascii "@request-target", .requestTarget),
   (ascii "@path", .path),
   (ascii "@query", .query),
   (ascii "signature-agent", .signatureAgent)]

structure Signature where
  label : Bytes
  keyid : Bytes
  alg : Bytes
  nonce : Bytes
  tag : Bytes
  created : Int
  expires : Int
  present : List Param
  covered : List Component
  components : InnerList
  signature : Bytes
  agentHost : Bytes
  deriving DecidableEq, Repr

/-- This is `ngx_memzero` of a signature. -/
def Signature.zero : Signature where
  label := []
  keyid := []
  alg := []
  nonce := []
  tag := []
  created := 0
  expires := 0
  present := []
  covered := []
  components := ⟨[], []⟩
  signature := []
  agentHost := []

inductive ParamKind where
  | integer
  | string
  deriving DecidableEq

structure ParamEntry where
  name : Bytes
  kind : ParamKind
  bit : Param

def params : List ParamEntry :=
  [⟨ascii "created", .integer, .created⟩,
   ⟨ascii "expires", .integer, .expires⟩,
   ⟨ascii "keyid", .string, .keyid⟩,
   ⟨ascii "alg", .string, .alg⟩,
   ⟨ascii "nonce", .string, .nonce⟩,
   ⟨ascii "tag", .string, .tag⟩]

/-- The offset of an integer entry selects the field. -/
def Signature.storeInteger (sig : Signature) (value : Int) : Param → Signature
  | .created => { sig with created := value }
  | .expires => { sig with expires := value }
  | _ => sig

/-- The offset of a string entry selects the field. -/
def Signature.storeString (sig : Signature) (value : Bytes) : Param → Signature
  | .keyid => { sig with keyid := value }
  | .alg => { sig with alg := value }
  | .nonce => { sig with nonce := value }
  | .tag => { sig with tag := value }
  | _ => sig

def Signature.setPresent (sig : Signature) (bit : Param) : Signature :=
  { sig with present := sig.present ++ [bit] }

/-- A parameter of the wrong type declines the signature. -/
def extractParam (list : Params) (sig : Signature) (entry : ParamEntry) : Option Signature :=
  match paramGet list entry.name with
  | none => some sig
  | some value =>
      match entry.kind, value with
      | .integer, .integer number => some ((sig.storeInteger number entry.bit).setPresent entry.bit)
      | .string, .string text => some ((sig.storeString text entry.bit).setPresent entry.bit)
      | _, _ => none

def extractParams (list : Params) (sig : Signature) : Option Signature :=
  params.foldlM (extractParam list) sig

def coveredComponents (items : List Item) : List Component :=
  items.filterMap fun item =>
    match item.bare with
    | .string name => components.lookup name
    | _ => none

/-- Steps 7 to 9 check the parameters, the algorithm and the covered components. -/
def profileMatch (profile : Definition) (sig : Signature) : Bool :=
  profile.requiredParams.all (fun param => sig.present.contains param) &&
  !(sig.present.contains .alg && 0 < profile.alg.length &&
    (sig.alg.length != profile.alg.length || !sameFolded sig.alg profile.alg)) &&
  !(!profile.anyOfComponents.isEmpty &&
    !profile.anyOfComponents.any fun component => sig.covered.contains component) &&
  profile.allOfComponents.all fun component => sig.covered.contains component

def memberParams : Member → Params
  | .item single => single.params
  | .innerList several => several.params

/-- The first entry with the tag wins. -/
def selectEntry (dict : Dictionary) (tag : Bytes) : Option (Bytes × Member) :=
  dict.entries.find? fun entry => paramGet (memberParams entry.2) (ascii "tag") == some (.string tag)

/-- The values of all lines of one name stay apart. -/
def collect (req : Request) (name : Bytes) : List Bytes :=
  (req.headers.filter fun header => header.name == name).map Header.value

/-- An entry is usable without a type or with the token `directory`. -/
def agentTypeOk (list : Params) : Bool :=
  match paramGet list (ascii "type") with
  | none => true
  | some type => type == .token (ascii "directory")

/-- The string of a usable Signature-Agent entry. -/
def usableUrl : Member → Option Bytes
  | .item ⟨.string url, list⟩ => if agentTypeOk list then some url else none
  | _ => none

/-- The entry under the label and the first usable entry over all lines so far. -/
structure AgentScan where
  found : Option Bytes
  fallback : Option Bytes
  deriving DecidableEq, Repr

/-- An empty label stands for none. -/
def agentEntry (label : Bytes) (scan : AgentScan) (entry : Bytes × Member) : AgentScan :=
  match usableUrl entry.2 with
  | none => scan
  | some url =>
      { found := if scan.found.isNone && 0 < label.length && entry.1 == label then some url
          else scan.found
        fallback := if scan.fallback.isNone then some url else scan.fallback }

def agentLines (label : Bytes) : AgentScan → List Bytes → AgentScan
  | scan, [] => scan
  | scan, line :: rest =>
      if line.length = 0 || maxSfvLength < line.length then agentLines label scan rest
      else match parseDictionary line with
        | .ok dict =>
            let scan := dict.entries.foldl (agentEntry label) scan
            if scan.found.isSome then scan else agentLines label scan rest
        | .error _ =>
            let url := match parseItem line with
              | .ok ⟨.string value, _⟩ => value
              | _ => line
            agentLines label
              { scan with fallback := if scan.fallback.isNone then some url else scan.fallback } rest

def agentUrl (raws : List Bytes) (label : Bytes) : Option Bytes :=
  let scan := agentLines label ⟨none, none⟩ raws
  match scan.found with
  | some url => some url
  | none => scan.fallback

def isHostChar (c : UInt8) : Bool := isLower c || isUpper c || isDigit c || c == minus || c == dot

def isIpv6Char (c : UInt8) : Bool := isHex c || c == colon

/-- The host ends at the first `]` after its bracket or at the first `:`. -/
def splitHost : Bytes → Option (Bytes × Bytes)
  | [] => none
  | c :: rest =>
      if c == lbracket then
        let inside := rest.takeWhile (· != rbracket)
        match rest.dropWhile (· != rbracket) with
        | [] => none
        | close :: after =>
            if inside.all isIpv6Char && !inside.isEmpty then some (c :: inside ++ [close], after) else none
      else
        let host := (c :: rest).takeWhile (· != colon)
        if host.all isHostChar then some (host, (c :: rest).dropWhile (· != colon)) else none

/-- The port is absent or a colon with digits. -/
def portOk : Bytes → Bool
  | [] => true
  | c :: digits => c == colon && !digits.isEmpty && digits.all isDigit

structure AgentBounds where
  host : Bytes
  authority : Bytes
  deriving DecidableEq, Repr

/-- The host and the authority of an https URL without its user information. -/
def agentBounds (url : Bytes) : Option AgentBounds :=
  if url.length < 8 || !sameFolded (url.take 8) (ascii "https://") then none
  else
    let authority := (url.drop 8).takeWhile fun c => c != slash && c != question && c != hash
    let start := (authority.reverse.takeWhile (· != at_)).reverse
    match splitHost start with
    | none => none
    | some (host, port) =>
        if portOk port && !host.isEmpty then some ⟨host, host ++ port⟩ else none

def agentHost (raws : List Bytes) (label : Bytes) : Bytes :=
  match (agentUrl raws label).bind agentBounds with
  | none => []
  | some bounds => strlow bounds.host

def agentAuthority (raws : List Bytes) (label : Bytes) : Bytes :=
  match (agentUrl raws label).bind agentBounds with
  | none => []
  | some bounds => strlow bounds.authority

structure Ctx where
  profile : Definition
  keys : Option Keys
  kidFallbackKeys : Option Keys
  expiresMax : Int
  maxSkew : Int
  now : Int

def ofOption {α : Type} (result : Result) : Option α → Except Failure α
  | some value => .ok value
  | none => .error (.declined result)

def parseField (raw : Bytes) : Except Failure Dictionary :=
  match parseDictionary raw with
  | .ok dict => .ok dict
  | .error _ => .error (.declined .parseError)

/-- Step 11 checks the time window and the lifetime. -/
def timeWindow (ctx : Ctx) (now : Int) (sig : Signature) : Bool :=
  !(sig.present.contains .created && now + ctx.maxSkew < sig.created) &&
  !(sig.present.contains .expires &&
    (sig.expires < now - ctx.maxSkew ||
      sig.present.contains .created &&
        (sig.expires < sig.created || ctx.expiresMax < sig.expires - sig.created)))

/-- Step 12 reads the signature under the label. -/
def signatureOf (dict : Dictionary) (label : Bytes) : Option Bytes :=
  match dictGet dict label with
  | some (.item ⟨.byteSequence value, _⟩) => some value
  | _ => none

/-- The clock is `ngx_time()`, which a zero `now` selects. -/
def Ctx.effectiveNow (ctx : Ctx) (clock : Int) : Int := if ctx.now ≠ 0 then ctx.now else clock

/-- Steps 1 to 9 select and check the tagged signature. -/
def selectSignature (ctx : Ctx) (req : Request) : Except Failure (Dictionary × Signature) := do
  let inputRaw ← ofOption .notSigned (fieldValue req (ascii "signature-input"))
  let sigRaw ← ofOption .parseError (fieldValue req (ascii "signature"))
  let inputDict ← parseField inputRaw
  let sigDict ← parseField sigRaw
  if inputDict.duplicateKeys || sigDict.duplicateKeys then .error (.declined .parseError)
  else do
    let entry ← ofOption .notSigned (selectEntry inputDict ctx.profile.tag)
    match entry.2 with
    | .item _ => .error (.declined .parseError)
    | .innerList list =>
        let sig ← ofOption .parseError
          (extractParams list.params { Signature.zero with label := entry.1, components := list })
        let sig := { sig with covered := coveredComponents list.items }
        if !profileMatch ctx.profile sig then .error (.declined .profileMismatch) else return (sigDict, sig)

/-- This is `ngx_auth_httpsig_profile_verify` on non-null arguments. -/
def verify (ctx : Ctx) (clock : Int) (req : Request) : Except Failure Signature := do
  let (sigDict, sig) ← selectSignature ctx req
  let agentRaws := collect req signatureAgent
  let agentPresent := !agentRaws.isEmpty
  if ctx.profile.requireAgentCovered && agentPresent && !sig.covered.contains .signatureAgent then
    .error (.declined .profileMismatch)
  else if !timeWindow ctx (ctx.effectiveNow clock) sig then .error (.declined .expired)
  else do
    let signature ← ofOption .parseError (signatureOf sigDict sig.label)
    let sig := { sig with signature := signature }
    match build req sig.components with
    | .error _ => .error (.declined .parseError)
    | .ok base => do
        verifyEd25519 ctx.keys sig.keyid base sig.signature ctx.kidFallbackKeys
        return if agentPresent then { sig with agentHost := agentHost agentRaws sig.label } else sig

/-- The extraction stops at the first parameter of a wrong type. -/
def extractParamsOut (list : Params) : List ParamEntry → Signature → Signature × Bool
  | [], sig => (sig, true)
  | entry :: rest, sig =>
      match extractParam list sig entry with
      | none => (sig, false)
      | some sig => extractParamsOut list rest sig

/-- Steps 1 to 5 find the tagged entry. -/
def selectFields (ctx : Ctx) (req : Request) : Except Failure (Dictionary × Bytes × Member) := do
  let inputRaw ← ofOption .notSigned (fieldValue req (ascii "signature-input"))
  let sigRaw ← ofOption .parseError (fieldValue req (ascii "signature"))
  let inputDict ← parseField inputRaw
  let sigDict ← parseField sigRaw
  if inputDict.duplicateKeys || sigDict.duplicateKeys then .error (.declined .parseError)
  else do
    let entry ← ofOption .notSigned (selectEntry inputDict ctx.profile.tag)
    return (sigDict, entry.1, entry.2)

/-- Steps 1 to 9 with the content of `*sig`. -/
def selectOut (ctx : Ctx) (req : Request) : Signature × Except Failure Dictionary :=
  match selectFields ctx req with
  | .error failure => (Signature.zero, .error failure)
  | .ok (_, _, .item _) => (Signature.zero, .error (.declined .parseError))
  | .ok (sigDict, label, .innerList list) =>
      let extracted :=
        extractParamsOut list.params params { Signature.zero with label := label, components := list }
      if !extracted.2 then (extracted.1, .error (.declined .parseError))
      else
        let sig := { extracted.1 with covered := coveredComponents list.items }
        if !profileMatch ctx.profile sig then (sig, .error (.declined .profileMismatch))
        else (sig, .ok sigDict)

/-- This is `ngx_auth_httpsig_profile_verify` with the content of `*sig` also where it declines. -/
def verifyOut (ctx : Ctx) (clock : Int) (req : Request) : Signature × Except Failure Unit :=
  match selectOut ctx req with
  | (sig, .error failure) => (sig, .error failure)
  | (sig, .ok sigDict) =>
      let agentRaws := collect req signatureAgent
      let agentPresent := !agentRaws.isEmpty
      if ctx.profile.requireAgentCovered && agentPresent && !sig.covered.contains .signatureAgent then
        (sig, .error (.declined .profileMismatch))
      else if !timeWindow ctx (ctx.effectiveNow clock) sig then (sig, .error (.declined .expired))
      else match signatureOf sigDict sig.label with
        | none => (sig, .error (.declined .parseError))
        | some signature =>
            let sig := { sig with signature := signature }
            match build req sig.components with
            | .error _ => (sig, .error (.declined .parseError))
            | .ok base =>
                match verifyEd25519 ctx.keys sig.keyid base sig.signature ctx.kidFallbackKeys with
                | .error failure => (sig, .error failure)
                | .ok _ =>
                    (if agentPresent then { sig with agentHost := agentHost agentRaws sig.label } else sig,
                      .ok ())

/-- The lines are joined by a comma and a space. -/
def joinLines : List Bytes → Bytes
  | [] => []
  | [line] => line
  | line :: next :: rest => line ++ ascii ", " ++ joinLines (next :: rest)

/-- This is `ngx_auth_httpsig_profile_select_label`. It gives the label and the key id. -/
def selectLabel (profile : Definition) (signatureInput : List Bytes) : Option (Bytes × Bytes) :=
  if signatureInput.length = 0 then none
  else match parseDictionary (joinLines signatureInput) with
    | .error _ => none
    | .ok dict =>
        if dict.duplicateKeys then none
        else match selectEntry dict profile.tag with
          | none => none
          | some (_, .item _) => none
          | some (label, .innerList list) =>
              match extractParams list.params Signature.zero with
              | none => none
              | some sig =>
                  let sig := { sig with covered := coveredComponents list.items }
                  if !profileMatch profile sig then none
                  else if profile.requireAgentCovered && !sig.covered.contains .signatureAgent then none
                  else some (label, sig.keyid)

end AuthHttpsig.Profile
