/-
This file gives the request snapshot and the header collection of `ngx_http_auth_httpsig_module.c`.
-/

import AuthHttpsig.Construction.Base

namespace AuthHttpsig.Module
open Ascii Base

structure RawHeader where
  key : Bytes
  value : Bytes
  deriving DecidableEq, Repr

/-- These parts of a request of nginx enter its snapshot. -/
structure RawRequest where
  methodName : Bytes
  isConnect : Bool
  unparsedUri : Bytes
  host : Option Bytes
  server : Bytes
  headers : List RawHeader
  deriving DecidableEq, Repr

def isOws (c : UInt8) : Bool := c == sp || c == htab

/-- The value loses the white space at both of its ends. -/
def trim (value : Bytes) : Bytes := ((value.dropWhile isOws).reverse.dropWhile isOws).reverse

def buildHeader (header : RawHeader) : Header := ⟨strlow header.key, trim header.value⟩

def defaultPorts : List (Bytes × Bytes) := [(ascii "http", ascii ":80"), (ascii "https", ascii ":443")]

/-- The first default port of the scheme that ends the authority is dropped. -/
def stripDefaultPort (scheme authority : Bytes) : List (Bytes × Bytes) → Bytes
  | [] => authority
  | (name, suffix) :: rest =>
      if sameFolded scheme name && decide (suffix.length < authority.length) &&
          authority.drop (authority.length - suffix.length) == suffix then
        authority.take (authority.length - suffix.length)
      else stripDefaultPort scheme authority rest

def isSchemeChar (c : UInt8) : Bool := isAlpha c || isDigit c || c == plus || c == minus || c == dot

/-- An absolute-form target loses its scheme and its authority. -/
def pathQuery (uri : Bytes) : Bytes :=
  let scheme := uri.takeWhile isSchemeChar
  let rest := uri.dropWhile isSchemeChar
  if !scheme.isEmpty && rest.take 3 == ascii "://" then
    (rest.drop 3).dropWhile fun c => c != slash && c != question
  else uri

/-- This is `ngx_http_auth_httpsig_build_request`. The scheme is the value of the scheme variable. -/
def buildRequest (scheme : Option Bytes) (raw : RawRequest) : Option Request := do
  let scheme ← scheme
  let authority := stripDefaultPort scheme (strlow (raw.host.getD raw.server)) defaultPorts
  let headers := raw.headers.map buildHeader
  if raw.isConnect || raw.unparsedUri == [asterisk] then
    return ⟨raw.methodName, scheme, authority, [], [], false, raw.unparsedUri, false, headers⟩
  else
    let target := pathQuery raw.unparsedUri
    match target.dropWhile (· != question) with
    | _ :: query =>
        return ⟨raw.methodName, scheme, authority, target.takeWhile (· != question), query, true,
          raw.unparsedUri, true, headers⟩
    | [] => return ⟨raw.methodName, scheme, authority, target, [], false, raw.unparsedUri, true, headers⟩

/-- This is `ngx_http_auth_httpsig_collect_header`. -/
def collectHeader (headers : List RawHeader) (name : Bytes) : List Bytes :=
  (headers.filter fun header => header.key.length == name.length && sameFolded header.key name).map
    fun header => trim header.value

end AuthHttpsig.Module
