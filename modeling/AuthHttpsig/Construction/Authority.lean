/-
This file gives the host normalization and the allow list of `ngx_auth_httpsig_directory.c`.
-/

import AuthHttpsig.Library.Bytes

namespace AuthHttpsig.Directory
open Ascii

/-- These are the `NGX_AUTH_HTTPSIG_HOST_*` codes. -/
inductive HostReason where
  | empty
  | hasScheme
  | wildcard
  | invalidChar
  deriving DecidableEq, Repr

def isHostChar (c : UInt8) : Bool := isAlpha c || isDigit c || c == dot || c == minus || c == colon

def isIpv6Char (c : UInt8) : Bool :=
  isDigit c || (0x61 ≤ c && c ≤ 0x66) || (0x41 ≤ c && c ≤ 0x46) || c == colon

/-- The text holds `://`. -/
def hasScheme : Bytes → Bool
  | [] => false
  | c :: rest => (c == colon && rest.take 2 == [slash, slash]) || hasScheme rest

/-- The octets after a bracketed address remain, or all octets when there is none. -/
def skipBracket (host : Bytes) : Option Bytes :=
  match host with
  | [] => some []
  | c :: tail =>
      if c == lbracket then
        let inside := tail.takeWhile fun d => d != rbracket
        if inside.all isIpv6Char then
          match tail.dropWhile fun d => d != rbracket with
          | [] => none
          | _ :: rest => if inside.length = 0 then none else some rest
        else none
      else some host

/-- The port `:443` says nothing here. -/
def dropDefaultPort (host : Bytes) : Bytes :=
  if host.length > 4 ∧ host.drop (host.length - 4) = ascii ":443" then host.take (host.length - 4) else host

/-- This is `ngx_auth_httpsig_directory_normalize_host`. -/
def normalizeHost (host : Bytes) : Except HostReason Bytes :=
  if host.length = 0 then .error .empty
  else if hasScheme host then .error .hasScheme
  else if host.contains asterisk then .error .wildcard
  else
    match skipBracket host with
    | none => .error .invalidChar
    | some rest => if rest.all isHostChar then .ok (dropDefaultPort (strlow host)) else .error .invalidChar

/-- A colon with one or more digits follows. -/
def isPortSuffix : Bytes → Bool
  | [] => false
  | c :: digits => c == colon && !digits.isEmpty && digits.all isDigit

/-- This is `ngx_auth_httpsig_directory_hostname`. A text of another shape stays unchanged. -/
def hostname : Bytes → Bytes
  | [] => []
  | c :: tail =>
      if c == lbracket then
        match tail.dropWhile fun d => d != rbracket with
        | [] => c :: tail
        | close :: rest =>
            if rest.isEmpty || isPortSuffix rest then c :: tail.takeWhile (fun d => d != rbracket) ++ [close]
            else c :: tail
      else if isPortSuffix ((c :: tail).dropWhile fun d => d != colon) then
        (c :: tail).takeWhile fun d => d != colon
      else c :: tail

/-- This is `ngx_auth_httpsig_directory_allowed`. An undeclared list allows nothing. -/
def allowed (allow : Option (List Bytes)) (host : Bytes) : Bool := (allow.getD []).contains host

end AuthHttpsig.Directory
