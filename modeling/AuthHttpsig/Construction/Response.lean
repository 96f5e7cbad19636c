/-
This file gives the check of a key-directory response and its time to live of
`ngx_auth_httpsig_directory.c`.
-/

import AuthHttpsig.Construction.Evaluate
import AuthHttpsig.Construction.Request

namespace AuthHttpsig.Directory
open Ascii
open AuthHttpsig.Module (FetchReason RawHeader isOws trim)

/-- These parts of a finished subrequest are read. A subrequest without an upstream has no response. -/
structure Upstream where
  schema : Bytes
  cacheControl : List Bytes
  headers : List RawHeader
  deriving DecidableEq, Repr

structure Response where
  ok : Bool
  upstream : Option Upstream
  status : Nat
  contentType : Bytes
  body : Bytes
  deriving DecidableEq, Repr

def tokenIs (token name : Bytes) : Bool := token.length == name.length && sameFolded token name

/-- The media type of the profile matches, and the one of JSON. -/
def mediaTypeMatches (type mediaType : Bytes) : Bool :=
  if type.length = 0 then false
  else (decide (mediaType.length > 0) && tokenIs type mediaType) || tokenIs type (ascii "application/json")

/-- This is `ngx_auth_httpsig_directory_check_response`. -/
def checkResponse (schema : Bytes) (status : Nat) (contentType mediaType : Bytes)
    (bodyLength maxSize : Nat) : Except FetchReason Unit :=
  if !tokenIs schema (ascii "https") then .error .notHttps
  else if 300 ≤ status ∧ status ≤ 399 then .error .redirect
  else if status ≠ 200 then .error .status
  else if !mediaTypeMatches (trim (contentType.takeWhile (· != semicolon))) mediaType then .error .mediaType
  else if maxSize < bodyLength then .error .tooLarge
  else if bodyLength = 0 then .error .empty
  else .ok ()

/-- This is `NGX_AUTH_HTTPSIG_TTL_PARSE_CAP`. -/
def ttlParseCap : Int := 9223372036854775807 / 1000

def parseUintStep (value : Int) (c : UInt8) : Int :=
  if value < ttlParseCap then value * 10 + digitValue c else ttlParseCap

/-- This is `ngx_auth_httpsig_directory_parse_uint` with the number of the octets that it consumes. -/
def parseUint (text : Bytes) : Int × Nat :=
  let digits := text.takeWhile isDigit
  (digits.foldl parseUintStep 0, digits.length)

/-- The digits are written to the value, also where octets after them decline the directive. -/
def parseDirective (token name : Bytes) (value : Int) : Bool × Int :=
  if token.length < name.length || !sameFolded (token.take name.length) name then (false, value)
  else match (token.drop name.length).dropWhile isOws with
    | [] => (false, value)
    | c :: rest =>
        if c != equals then (false, value)
        else
          let text := rest.dropWhile isOws
          let parsed := parseUint text
          (decide (parsed.2 ≠ 0) && ((text.drop parsed.2).dropWhile isOws).isEmpty, parsed.1)

structure Freshness where
  forbid : Bool
  haveMaxage : Bool
  maxage : Int
  haveSmaxage : Bool
  smaxage : Int
  deriving DecidableEq, Repr

def Freshness.zero : Freshness := ⟨false, false, 0, false, 0⟩

/-- This is `ngx_auth_httpsig_directory_apply_directive`. -/
def applyDirective (fresh : Freshness) (token : Bytes) : Freshness :=
  if tokenIs token (ascii "no-store") || tokenIs token (ascii "no-cache") || tokenIs token (ascii "private") then
    { fresh with forbid := true }
  else
    let shared := parseDirective token (ascii "s-maxage") fresh.smaxage
    if shared.1 then { fresh with haveSmaxage := true, smaxage := shared.2 }
    else
      let own := parseDirective token (ascii "max-age") fresh.maxage
      { fresh with
        smaxage := shared.2
        haveMaxage := fresh.haveMaxage || own.1
        maxage := own.2 }

/-- The tokens stand between the commas, without the white space at their ends. -/
def tokens (cacheControl : Bytes) : List Bytes :=
  ((cacheControl.splitOn comma).map trim).filter fun token => decide (token.length > 0)

def Freshness.derived (fresh : Freshness) : Int :=
  if fresh.forbid then 0
  else if fresh.haveSmaxage then fresh.smaxage
  else if fresh.haveMaxage then fresh.maxage
  else 0

/-- This is `ngx_auth_httpsig_directory_ttl`. -/
def directoryTtl (cacheControl : Bytes) (age minTtl maxTtl : Int) : Int :=
  let fresh := (tokens cacheControl).foldl applyDirective Freshness.zero
  let value := fresh.derived - age
  let value := if value < 0 then 0 else value
  let value := if value < minTtl then minTtl else value
  if maxTtl < value then maxTtl else value

/-- This is `ngx_atotm`, which declines an overflow. -/
def atotm (text : Bytes) : Option Int :=
  if text.length = 0 || !text.all isDigit then none
  else
    let value := text.foldl (fun (total : Nat) c => total * 10 + digitValue c) 0
    if value < 2 ^ 63 then some value else none

/-- The first line of the field counts, and a line that is no number counts as zero. -/
def ageOf (headers : List RawHeader) : Int :=
  match headers.find? fun header => tokenIs header.key (ascii "age") with
  | none => 0
  | some header => (atotm header.value).getD 0

/-- The scheme of the upstream ends before `://`. -/
def bareSchema (schema : Bytes) : Bytes :=
  if 3 ≤ schema.length ∧ schema.drop (schema.length - 3) = ascii "://" then schema.take (schema.length - 3)
  else schema

end AuthHttpsig.Directory
