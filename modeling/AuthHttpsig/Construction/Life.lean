/-
This file gives the life of one request: the runs of its handlers, the reads of the `$httpsig_*`
variables, its fetch subrequests, its internal redirects and the end of its pool, in any order.
-/

import AuthHttpsig.Construction.Handlers

namespace AuthHttpsig.Module

open SearchTree

/-- A call of a handler with its answer. -/
abbrev Call : Type := Prog.Event Op Answer

/-- The surroundings answer the calls of one handler run. -/
abbrev Surroundings : Type := (op : Op) → Answer op

/-- The call creates a fetch subrequest. -/
def Call.creates : Call → Bool
  | ⟨.subrequest _, success⟩ => success
  | _ => false

/-- The call registers a pool cleanup. -/
def Call.cleanup : Call → Option Cleanup
  | ⟨.addCleanup cleanup, success⟩ => if success then some cleanup else none
  | _ => none

/-- nginx keeps a context with the calls that were made for it and with the returned subrequests. -/
structure Slot where
  ctx : Context
  calls : List Call
  returned : Nat

namespace Slot

def created (slot : Slot) : Nat := slot.calls.countP Call.creates

def cleanups (slot : Slot) : List Cleanup := slot.calls.filterMap Call.cleanup

/-- The post-subrequest handler of a created subrequest has not run. -/
def Outstanding (slot : Slot) : Prop := slot.returned < slot.created

instance (slot : Slot) : Decidable slot.Outstanding := inferInstanceAs (Decidable (_ < _))

/-- A program has run on the context. -/
def after (slot : Slot) (surroundings : Surroundings) (program : Handler Context) : Slot where
  ctx := program.run surroundings
  calls := slot.calls ++ program.trace surroundings
  returned := slot.returned

/-- The post-subrequest handler runs on the context that it was given. -/
def finish (slot : Slot) (conf : DirectoryConf) (response : Directory.Response)
    (surroundings : Surroundings) : Slot :=
  { slot.after surroundings (directoryDone conf response slot.ctx) with returned := slot.returned + 1 }

/-- Each cleanup runs once when the pool is destroyed. -/
def destroy (surroundings : Surroundings) (slot : Slot) : Slot :=
  slot.cleanups.foldl (fun slot cleanup => slot.after surroundings (directoryCleanup cleanup slot.ctx)) slot

end Slot

/-- An internal redirect detaches the context, whose memory and subrequests remain. The pool also keeps the
verdict of the nonce store. -/
structure Life where
  current : Option Slot
  detached : List Slot
  verdict : Option Verdict
  destroyed : Bool

/-- One evaluation meets this room, this scheme, these parsed keys and this nonce store. -/
structure Visit (rb : Balanced Nat) where
  room : Room
  scheme : Bytes
  env : Env
  store : NonceStore.Store rb

inductive Move (rb : Balanced Nat) where
  | handle (lcf : Location) (surroundings : Surroundings)
  | read (lcf : Location) (visit : Visit rb)
  | finish (index : Option Nat) (conf : DirectoryConf) (response : Directory.Response)
      (surroundings : Surroundings)
  | redirect
  | destroy (surroundings : Surroundings)

/-- With a scheme at hand every request gets its snapshot. -/
theorem buildRequest_isSome (scheme : Bytes) (raw : RawRequest) :
    (buildRequest (some scheme) raw).isSome = true := by
  simp only [buildRequest, Option.bind_eq_bind, Option.bind_some]
  split
  · rfl
  · split <;> rfl

variable {rb : Balanced Nat}

/-- The snapshot takes the scheme that the location names. -/
def Visit.request (visit : Visit rb) (raw : RawRequest) : Base.Request :=
  (buildRequest (some visit.scheme) raw).get (buildRequest_isSome visit.scheme raw)

namespace Life

def init : Life := ⟨none, [], none, false⟩

def slots (life : Life) : List Slot := life.current.toList ++ life.detached

def ctx (life : Life) : Option Context := life.current.map Slot.ctx

/-- The context of the module is written, after these calls for it. -/
def put (life : Life) (ctx : Option Context) (calls : List Call) : Life :=
  match ctx, life.current with
  | none, _ => life
  | some ctx, some slot =>
      { life with current := some { slot with ctx := ctx, calls := slot.calls ++ calls } }
  | some ctx, none => { life with current := some ⟨ctx, calls, 0⟩ }

/-- The directory handler runs in its phase. -/
def handle (raw : RawRequest) (life : Life) (lcf : Location) (surroundings : Surroundings) :
    PhaseRc × Life :=
  let program := directoryHandler lcf raw.headers life.ctx
  let out := program.run surroundings
  (out.1, life.put out.2 (program.trace surroundings))

/-- This is the state that an evaluation reads. -/
def state (life : Life) : RequestState := ⟨life.ctx.map Context.toRequestCtx, life.verdict⟩

/-- A getter of a variable or the access handler evaluates the request. -/
def evaluate (crc : Bytes → UInt32) (raw : RawRequest) (life : Life) (lcf : LocConf) (visit : Visit rb) :
    Rc × Option RequestCtx × Life :=
  let out := evaluateIn visit.room crc lcf visit.env (visit.request raw) life.state visit.store
  (out.1, out.2.1,
    { life.put (out.2.2.1.ctx.map (life.ctx.getD Context.zero).withEvaluated) [] with
      verdict := out.2.2.1.verdict })

/-- This is `ngx_http_auth_httpsig_access_handler`. -/
def access (crc : Bytes → UInt32) (raw : RawRequest) (life : Life) (lcf : Location) (visit : Visit rb) :
    Access × Life :=
  if lcf.mode ≠ .enforce ∧ lcf.require = false then (.declined, life)
  else
    let out := life.evaluate crc raw lcf.toLocConf visit
    (accessDecision lcf out.1 out.2.1, out.2.2)

/-- The subrequest of a slot returns. -/
def finish (life : Life) (index : Option Nat) (change : Slot → Slot) : Life :=
  match index with
  | none => { life with current := life.current.map change }
  | some index => { life with detached := life.detached.modify index change }

def move (crc : Bytes → UInt32) (raw : RawRequest) (life : Life) : Move rb → Life
  | .handle lcf surroundings => (life.handle raw lcf surroundings).2
  | .read lcf visit => (life.evaluate crc raw lcf.toLocConf visit).2.2
  | .finish index conf response surroundings =>
      life.finish index fun slot => slot.finish conf response surroundings
  | .redirect => { life with current := none, detached := life.slots }
  | .destroy surroundings =>
      { life with
        current := life.current.map (Slot.destroy surroundings)
        detached := life.detached.map (Slot.destroy surroundings)
        destroyed := true }

/-- The slot that a move names. -/
def slotAt (life : Life) : Option Nat → Option Slot
  | none => life.current
  | some index => life.detached[index]?

/-- Nothing happens after the end of the pool, and a post-subrequest handler runs once for each created
subrequest. -/
def Permitted (life : Life) : Move rb → Prop
  | .finish index .. => life.destroyed = false ∧ ∃ slot ∈ life.slotAt index, slot.Outstanding
  | .handle .. | .read .. | .redirect | .destroy _ => life.destroyed = false

/-- The permitted moves that meet the condition come in any order. -/
inductive Reaches (crc : Bytes → UInt32) (raw : RawRequest) (condition : Life → Move rb → Prop) :
    Life → Prop
  | init : Reaches crc raw condition init
  | move {life : Life} (next : Move rb) (before : Reaches crc raw condition life)
      (permitted : life.Permitted next) (met : condition life next) :
      Reaches crc raw condition (life.move crc raw next)

end Life
end AuthHttpsig.Module
