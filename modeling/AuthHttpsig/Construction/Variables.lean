/-
This file gives the getters of the `$httpsig_*` variables of `ngx_http_auth_httpsig_module.c`.
-/

import AuthHttpsig.Construction.Handlers

namespace AuthHttpsig

/-- This is `ngx_auth_httpsig_result_name`. -/
def Result.name : Result → Bytes
  | .ok => ascii "ok"
  | .notSigned => ascii "not_signed"
  | .parseError => ascii "parse_error"
  | .unknownKeyid => ascii "unknown_keyid"
  | .signatureMismatch => ascii "signature_mismatch"
  | .expired => ascii "expired"
  | .profileMismatch => ascii "profile_mismatch"
  | .keyUnavailable => ascii "key_unavailable"
  | .keyidNotThumbprint => ascii "keyid_not_thumbprint"
  | .nonceReplayed => ascii "nonce_replayed"
  | .nonceTooLong => ascii "nonce_too_long"
  | .nonceMissing => ascii "nonce_missing"
  | .nonceStoreUnavailable => ascii "nonce_store_unavailable"

namespace Module

/-- This is `ngx_auth_httpsig_directory_reason_name`. -/
def FetchReason.name : FetchReason → Bytes
  | .ok => ascii "directory_ok"
  | .notHttps => ascii "directory_not_https"
  | .redirect => ascii "directory_redirect"
  | .status => ascii "directory_status"
  | .mediaType => ascii "directory_media_type"
  | .tooLarge => ascii "directory_too_large"
  | .empty => ascii "directory_empty"
  | .notAllowed => ascii "agent_not_allowed"
  | .busy => ascii "directory_busy"
  | .unavailable => ascii "directory_unavailable"
  | .invalid => ascii "directory_invalid"
  | .failed => ascii "directory_failed"

/-- A getter reads the context that a successful evaluation gives, and the variable is unset otherwise. -/
def variableOf (rc : Rc) (ctx : Option RequestCtx) (get : RequestCtx → Option Bytes) : Option Bytes :=
  if rc = .ok then ctx.bind get else none

/-- This is `ngx_http_auth_httpsig_variable_verified` after its evaluation. -/
def variableVerified (rc : Rc) (ctx : Option RequestCtx) : Option Bytes :=
  variableOf rc ctx fun ctx =>
    if ctx.result = .notSigned ∨ ctx.result = .keyUnavailable then none
    else some (ascii (if ctx.result = .ok then "1" else "0"))

/-- This is `ngx_http_auth_httpsig_variable_keyid` after its evaluation. -/
def variableKeyid (rc : Rc) (ctx : Option RequestCtx) : Option Bytes :=
  variableOf rc ctx fun ctx => if ctx.result ≠ .ok then none else some ctx.keyid

/-- This is `ngx_http_auth_httpsig_variable_agent` after its evaluation. -/
def variableAgent (rc : Rc) (ctx : Option RequestCtx) : Option Bytes :=
  variableOf rc ctx fun ctx => if ctx.result ≠ .ok ∨ ctx.agent.length = 0 then none else some ctx.agent

/-- This is `ngx_http_auth_httpsig_variable_error` after its evaluation. -/
def variableError (rc : Rc) (ctx : Option RequestCtx) : Option Bytes :=
  variableOf rc ctx fun ctx =>
    if ctx.internalError then some (ascii "internal")
    else if ctx.nonceStoreUnavailable then some (ascii "nonce_store_unavailable")
    else if ctx.result = .ok ∨ ctx.result = .notSigned then none
    else if ctx.result = .keyUnavailable ∧ ctx.directoryReason ≠ .ok then some ctx.directoryReason.name
    else some ctx.result.name

/-- This is `ngx_http_auth_httpsig_variable_directory_host`. It evaluates nothing. -/
def variableDirectoryHost : Option Context → Option Bytes
  | none => none
  | some ctx => if ctx.directoryHost.length = 0 then none else some ctx.directoryHost

/-- This is `ngx_http_auth_httpsig_variable_directory_hostname`. It evaluates nothing. -/
def variableDirectoryHostname : Option Context → Option Bytes
  | none => none
  | some ctx =>
      if ctx.directoryHost.length = 0 then none else some (Directory.hostname ctx.directoryHost)

end Module
end AuthHttpsig
