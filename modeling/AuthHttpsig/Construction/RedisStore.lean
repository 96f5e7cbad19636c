/-
This file gives the Redis nonce store of `ngx_auth_httpsig_nonce_store.c`. The calls of the Redis client
library and of the clock are answered by the surroundings.
-/

import AuthHttpsig.Construction.NonceStore
import AuthHttpsig.Library.Interaction

namespace AuthHttpsig.RedisStore

/-- These fields of the configuration decide a check. -/
structure Conf where
  db : Nat
  backoffMax : Int

/-- These are the error codes of a connection. -/
inductive ConnError where
  | io
  | eof
  | other
  deriving DecidableEq, Repr

/-- An absent reply leaves its error on the connection. -/
inductive Reply where
  | null (err : ConnError)
  | error
  | nil
  | status (text : Bytes)
  | other
  deriving DecidableEq, Repr

/-- The connection, the end of the back-off window and its length are static variables of the worker. -/
structure Local where
  conn : Option (Option ConnError)
  retryAfter : Int
  backoff : Int
  deriving DecidableEq, Repr

/-- A worker starts with zeroed static variables. -/
def Local.zero : Local := ⟨none, 0, 0⟩

/-- These are the calls that leave the module. -/
inductive Op where
  | time
  | timeUpdate
  | connectWithTimeout
  | setTimeout
  | select (db : Nat)
  | setNxEx (key : Bytes) (seconds : Int)
  deriving DecidableEq

/-- A connect gives no context, a context with an error or a healthy one. -/
abbrev Answer : Op → Type
  | .time | .timeUpdate => Int
  | .connectWithTimeout => Option (Option ConnError)
  | .setTimeout => Bool
  | .select _ | .setNxEx .. => Reply

abbrev Run (α : Type) : Type := Prog Op Answer α

def nextBackoff (current max : Int) : Int :=
  let max := if max < 1 then 1 else max
  if current < 1 then 1 else if current * 2 > max then max else current * 2

def close (statics : Local) : Local := { statics with conn := none }

/-- This is `ngx_auth_httpsig_nonce_store_redis_arm_backoff`. -/
def armBackoff (conf : Conf) (statics : Local) : Run Local := do
  let now ← Prog.ask .timeUpdate
  let backoff := nextBackoff statics.backoff conf.backoffMax
  return { statics with backoff := backoff, retryAfter := now + backoff }

/-- This is `ngx_auth_httpsig_nonce_store_redis_connect`. -/
def connect (conf : Conf) (statics : Local) : Run (Bool × Local) :=
  if statics.conn = some none then return (true, statics)
  else do
    let conn ← Prog.ask .connectWithTimeout
    if conn ≠ some none then return (false, close statics)
    else if !(← Prog.ask .setTimeout) then return (false, close statics)
    else if conf.db > 0 then
      let reply : Reply ← Prog.ask (Op.select conf.db)
      match reply with
      | .null _ | .error => return (false, close statics)
      | _ => return (true, { statics with conn := conn })
    else return (true, { statics with conn := conn })

/-- A connection that broke on the first command is opened once more for one more command. -/
def retry (conf : Conf) (key : Bytes) (ttl : Int) (statics : Local) (reply : Reply) :
    Run (Reply × Bool × Local) :=
  if reply = .null .io ∨ reply = .null .eof then do
    let (connected, statics) ← connect conf (close statics)
    if connected then
      let again ← Prog.ask (.setNxEx key (ttl + 1))
      return (again, true, statics)
    else return (reply, false, statics)
  else return (reply, false, statics)

/-- The reply decides, and a definite answer ends the back-off. -/
def conclude (conf : Conf) (reply : Reply) (retried : Bool) (statics : Local) :
    Run (NonceStore.Rc × Local) :=
  match reply with
  | .null _ | .error => do
      let armed ← armBackoff conf (close statics)
      return (.abort, armed)
  | .nil =>
      if retried then return (.abort, statics)
      else return (.declined, { statics with retryAfter := 0, backoff := 0 })
  | .status text =>
      if text = ascii "OK" then return (.ok, { statics with retryAfter := 0, backoff := 0 })
      else return (.abort, close statics)
  | .other => return (.abort, close statics)

/-- The call is attempted when no back-off window holds. -/
def attempt (conf : Conf) (key : Bytes) (ttl : Int) (statics : Local) : Run (NonceStore.Rc × Local) := do
  let (connected, statics) ← connect conf statics
  if connected then
    let first ← Prog.ask (.setNxEx key (ttl + 1))
    let (reply, retried, statics) ← retry conf key ttl statics first
    conclude conf reply retried statics
  else
    let armed ← armBackoff conf statics
    return (.abort, armed)

/-- This is `ngx_auth_httpsig_nonce_store_redis_check`. -/
def redisCheck (conf : Conf) (key : Bytes) (ttl : Int) (statics : Local) : Run (NonceStore.Rc × Local) :=
  if ttl < 1 then return (.error, statics)
  else if statics.retryAfter ≠ 0 then do
    let now ← Prog.ask .time
    if now < statics.retryAfter then return (.abort, statics) else attempt conf key ttl statics
  else attempt conf key ttl statics

end AuthHttpsig.RedisStore
