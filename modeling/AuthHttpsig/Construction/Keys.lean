/-
This file gives the key lookup of `ngx_auth_httpsig_keys.c` and the signature check of
`ngx_auth_httpsig_verify.c`. The keys themselves are an oracle.
-/

import AuthHttpsig.Library.Bytes

namespace AuthHttpsig

/-- These are the `NGX_AUTH_HTTPSIG_RESULT_*` codes. -/
inductive Result where
  | ok
  | notSigned
  | parseError
  | unknownKeyid
  | signatureMismatch
  | expired
  | profileMismatch
  | keyUnavailable
  | keyidNotThumbprint
  | nonceReplayed
  | nonceTooLong
  | nonceMissing
  | nonceStoreUnavailable
  deriving DecidableEq, Repr

/-- A declined step gives its result, and an internal error leaves the result unset. -/
inductive Failure where
  | declined (result : Result)
  | error
  deriving DecidableEq, Repr

inductive Rc where
  | ok
  | declined
  | error
  deriving DecidableEq, Repr

/-- A key source is the table of its functions. -/
structure Keys where
  has : Bytes → Bool
  hasKid : Bytes → Bool
  verify : Bytes → Bytes → Bytes → Rc
  verifyKid : Bytes → Bytes → Bytes → Rc

namespace Keys

/-- The source tries its first keys before its second keys. -/
def chained (first second : Keys) : Keys where
  has keyid := first.has keyid || second.has keyid
  hasKid kid := first.hasKid kid || second.hasKid kid
  verify keyid msg sig :=
    if first.verify keyid msg sig = .ok then .ok else second.verify keyid msg sig
  verifyKid kid msg sig :=
    if first.verifyKid kid msg sig = .ok then .ok else second.verifyKid kid msg sig

/-- The absent handle is `NULL`. -/
def chain : Option Keys → Option Keys → Option Keys
  | none, second => second
  | some first, none => some first
  | some first, some second => some (chained first second)

end Keys

def ed25519SignatureLength : Nat := 64

/-- This is `ngx_auth_httpsig_verify_ed25519`. -/
def verifyEd25519 (keys : Option Keys) (keyid base signature : Bytes) (kidFallbackKeys : Option Keys) :
    Except Failure Unit :=
  match keys with
  | none => .error (.declined .unknownKeyid)
  | some source =>
      if keyid.length = 0 then .error (.declined .unknownKeyid)
      else if signature.length ≠ ed25519SignatureLength then .error (.declined .signatureMismatch)
      else if !source.has keyid then
        if !source.hasKid keyid then .error (.declined .unknownKeyid)
        else match kidFallbackKeys with
          | none => .error (.declined .keyidNotThumbprint)
          | some fallback =>
              match fallback.verifyKid keyid base signature with
              | .ok => .ok ()
              | .declined => .error (.declined .keyidNotThumbprint)
              | .error => .error .error
      else match source.verify keyid base signature with
        | .ok => .ok ()
        | .declined => .error (.declined .signatureMismatch)
        | .error => .error .error

end AuthHttpsig
