/-
This file gives the signature base of `ngx_auth_httpsig_base.c`: the values of the covered
components and the bounded buffer that joins them.
-/

import AuthHttpsig.Construction.SfvWrite

namespace AuthHttpsig.Base
open Ascii Sfv

def maxBaseLength : Nat := 16384

/-- Each header has its name in lower case and its value without white space at its ends. -/
structure Header where
  name : Bytes
  value : Bytes
  deriving DecidableEq, Repr

structure Request where
  method : Bytes
  scheme : Bytes
  authority : Bytes
  path : Bytes
  query : Bytes
  hasQuery : Bool
  requestTarget : Bytes
  targetDefined : Bool
  headers : List Header
  deriving DecidableEq, Repr

inductive Reason where
  | unknownComponent
  | unsupportedParam
  | duplicateComponent
  | missingField
  | undefinedTarget
  | tooLong
  deriving DecidableEq, Repr

/-- The name is `ngx_auth_httpsig_base_signature_agent`. -/
def signatureAgent : Bytes := ascii "signature-agent"

def rejectParams (params : Params) : Except Reason Unit :=
  if params.length ≠ 0 then .error .unsupportedParam else .ok ()

def effectivePath (req : Request) : Bytes := if req.path.length = 0 then ascii "/" else req.path

def queryValue (req : Request) : Bytes := question :: req.query

def targetUri (req : Request) : Bytes :=
  req.scheme ++ ascii "://" ++ req.authority ++ effectivePath req ++
    if req.hasQuery then question :: req.query else []

def isHex (c : UInt8) : Bool := isDigit c || (0x61 ≤ c && c ≤ 0x66) || (0x41 ≤ c && c ≤ 0x46)

def hexVal (c : UInt8) : Nat :=
  if isDigit c then c.toNat - 48
  else if 0x61 ≤ c && c ≤ 0x66 then c.toNat - 97 + 10
  else c.toNat - 65 + 10

def hexOctet (high low : UInt8) : UInt8 := UInt8.ofNat (hexVal high * 16 + hexVal low)

/-- The comparison decodes the raw key on the fly. -/
def qsKeyEq : Bytes → Bytes → Bool
  | [], target => target.isEmpty
  | _ :: _, [] => false
  | c :: rest, t :: target =>
      if c == plus then t == sp && qsKeyEq rest target
      else if c == percent then
        match rest with
        | high :: low :: after =>
            if isHex high && isHex low then t == hexOctet high low && qsKeyEq after target
            else t == c && qsKeyEq (high :: low :: after) target
        | [d] => t == c && qsKeyEq [d] target
        | [] => t == c && qsKeyEq [] target
      else t == c && qsKeyEq rest target

/-- A `+` is a space, `%XX` is its octet and every other octet stands for itself. -/
def qsDecode : Bytes → Bytes
  | [] => []
  | c :: rest =>
      if c == plus then sp :: qsDecode rest
      else if c == percent then
        match rest with
        | high :: low :: after =>
            if isHex high && isHex low then hexOctet high low :: qsDecode after
            else c :: qsDecode (high :: low :: after)
        | [d] => c :: qsDecode [d]
        | [] => [c]
      else c :: qsDecode rest

def qsUnreserved (c : UInt8) : Bool :=
  isDigit c || isUpper c || isLower c || c == asterisk || c == minus || c == dot || c == underscore

def hexDigits : Bytes := ascii "0123456789ABCDEF"

def hexDigit (value : Nat) : UInt8 := hexDigits.getD value 0

/-- The encoder allocates this many octets. -/
def qsEncodeCap (decoded : Bytes) : Nat :=
  decoded.foldl (fun cap c => cap + if c == sp || qsUnreserved c then 1 else 3) 0

def qsEncode : Bytes → Bytes
  | [] => []
  | c :: rest =>
      if c == sp then plus :: qsEncode rest
      else if qsUnreserved c then c :: qsEncode rest
      else percent :: hexDigit (c.toNat / 16) :: hexDigit (c.toNat % 16) :: qsEncode rest

/-- The loop keeps the raw value of the first segment with the name and rejects a second one. -/
def queryParamLoop (target : Bytes) : Nat → Option Bytes → Bytes → Except Reason (Option Bytes)
  | 0, found, _ => .ok found
  | _ + 1, found, [] => .ok found
  | fuel + 1, found, c :: rest =>
      let segment := (c :: rest).takeWhile (· != ampersand)
      let next := ((c :: rest).dropWhile (· != ampersand)).drop 1
      let key := segment.takeWhile (· != equals)
      let value := (segment.dropWhile (· != equals)).drop 1
      if qsKeyEq key target then
        if found.isSome then .error .missingField
        else queryParamLoop target fuel (some value) next
      else queryParamLoop target fuel found next

def queryParam (req : Request) (component : Item) : Except Reason Bytes :=
  match paramGet component.params (ascii "name") with
  | some (.string name) =>
      if component.params.length ≠ 1 then .error .unsupportedParam
      else do
        match ← queryParamLoop (qsDecode name) (req.query.length + 1) none req.query with
        | none => .error .missingField
        | some valueRaw => return qsEncode (qsDecode valueRaw)
  | _ => .error .unknownComponent

/-- The key parameter counts alone or with a true `sf` parameter, and only on Signature-Agent. -/
def fieldAgentKey (name : Bytes) (params : Params) : Option Bytes :=
  if name != signatureAgent then none
  else if params.length = 0 || 2 < params.length then none
  else match paramGet params (ascii "key") with
    | some (.string key) =>
        if params.length = 2 then
          match paramGet params (ascii "sf") with
          | some (.boolean true) => some key
          | _ => none
        else some key
    | _ => none

/-- The values of all lines of one name are joined by a comma and a space. -/
def fieldValue (req : Request) (name : Bytes) : Option Bytes :=
  match (req.headers.filter fun header => header.name == name).map Header.value with
  | [] => none
  | first :: more => some (more.foldl (fun joined value => joined ++ ascii ", " ++ value) first)

def fieldAgentMember (req : Request) (key : Bytes) : Except Reason Bytes :=
  match fieldValue req signatureAgent with
  | none => .error .missingField
  | some raw =>
      match parseDictionary raw with
      | .error _ => .error .missingField
      | .ok dict =>
          match dictGet dict key with
          | none => .error .missingField
          | some member => .ok (writeMember member)

/-- The caller has checked that the bare item is the string `name`. -/
def field (req : Request) (name : Bytes) (params : Params) : Except Reason Bytes :=
  if name.any isUpper then .error .unknownComponent
  else match fieldAgentKey name params with
    | some key => fieldAgentMember req key
    | none => do
        rejectParams params
        match fieldValue req name with
        | none => .error .missingField
        | some value => return value

inductive DeriveId where
  | method
  | scheme
  | authority
  | path
  | query
  | queryParam
  | requestTarget
  | targetUri
  deriving DecidableEq, Repr

structure Derive where
  name : Bytes
  id : DeriveId
  needsTarget : Bool

def deriveTable : List Derive :=
  [⟨ascii "@method", .method, false⟩,
   ⟨ascii "@scheme", .scheme, false⟩,
   ⟨ascii "@authority", .authority, false⟩,
   ⟨ascii "@path", .path, true⟩,
   ⟨ascii "@query", .query, true⟩,
   ⟨ascii "@query-param", .queryParam, false⟩,
   ⟨ascii "@request-target", .requestTarget, false⟩,
   ⟨ascii "@target-uri", .targetUri, true⟩]

def deriveComponent (req : Request) (component : Item) (name : Bytes) : Except Reason Bytes :=
  if name.head? != some at_ then .error .unknownComponent
  else match deriveTable.find? fun derive => derive.name == name with
  | none => .error .unknownComponent
  | some derive =>
      if derive.id = .queryParam then
        if !req.targetDefined then .error .undefinedTarget else queryParam req component
      else do
        rejectParams component.params
        if derive.needsTarget && !req.targetDefined then .error .undefinedTarget
        else match derive.id with
          | .method => return req.method
          | .scheme => return req.scheme
          | .authority => return req.authority
          | .path => return effectivePath req
          | .query => return queryValue req
          | .requestTarget => return req.requestTarget
          | .targetUri => return targetUri req
          | .queryParam => .error .unknownComponent

/-- A name that starts with `@` is derived, and every other name is a field. -/
def componentValue (req : Request) (component : Item) : Except Reason Bytes :=
  match component.bare with
  | .string name =>
      if name.head? == some at_ then deriveComponent req component name
      else field req name component.params
  | _ => .error .unknownComponent

/-- The buffer has the capacity of `maxBaseLength` octets. -/
def bufPut (buf data : Bytes) : Except Reason Bytes :=
  if maxBaseLength < buf.length + data.length then .error .tooLong else .ok (buf ++ data)

def buildLoop (req : Request) : List Item → List Bytes → Bytes → Except Reason Bytes
  | [], _, buf => .ok buf
  | component :: rest, labels, buf =>
      match component.bare with
      | .string _ => do
          let label := writeItem component
          if labels.contains label then .error .duplicateComponent
          else do
            let value ← componentValue req component
            let buf ← bufPut buf label
            let buf ← bufPut buf (ascii ": ")
            let buf ← bufPut buf value
            let buf ← bufPut buf [lf]
            buildLoop req rest (labels ++ [label]) buf
      | _ => .error .unknownComponent

def build (req : Request) (covered : InnerList) : Except Reason Bytes :=
  if maxSfvItems < covered.items.length then .error .tooLong
  else do
    let buf ← buildLoop req covered.items [] []
    let buf ← bufPut buf (ascii "\"@signature-params\": ")
    bufPut buf (writeInnerList covered)

end AuthHttpsig.Base
