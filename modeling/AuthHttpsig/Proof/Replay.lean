/-
This file proves that no signature is accepted twice by the evaluation of requests, as long as
every request is as signed.
-/

import AuthHttpsig.Construction.Evaluate
import AuthHttpsig.Proof.NonceReplay
import AuthHttpsig.Proof.ProfileAgent

namespace AuthHttpsig

namespace Profile
open Base

/-- A declined verification names its failure. -/
theorem verify_ne_ok {ctx : Ctx} {clock : Int} {req : Request} :
    verify ctx clock req ≠ .error (.declined .ok) := by
  intro failed
  rcases (verify_fails ctx clock req).of_eq failed with same | ⟨result, member, same⟩
  · cases same
  · cases same
    simp at member

/-- The parameters of the covered list give the fields of a verified signature, and the base of its
components was signed inside the time window. -/
theorem verify_signed {ctx : Ctx} {clock : Int} {req : Request} {sig : Signature}
    (profile : ctx.profile = webBotAuth) (done : verify ctx clock req = .ok sig) :
    sig.keyid = ((readString sig.components.params (ascii "keyid")).getD none).getD [] ∧
    sig.nonce = ((readString sig.components.params (ascii "nonce")).getD none).getD [] ∧
    sig.expires = ((readInteger sig.components.params (ascii "expires")).getD none).getD 0 ∧
    ctx.effectiveNow clock ≤ sig.expires + ctx.maxSkew := by
  obtain ⟨sigDict, picked, signature, base, chosen, _, inTime, _, _, _, _, rfl⟩ := verify_eq_ok.mp done
  obtain ⟨_, _, _, label, list, carried, _, _, _, _, _, _, _, read, rfl, matched⟩ :=
    selectSignature_eq_ok.mp chosen
  rw [profile] at matched
  have expiring := (profileMatch_selected.mp matched).2.1
  have present : Param.expires ∈ (selected label list carried).present := by
    rw [selected_eq]
    exact (mem_bits carried).2.1.mpr expiring
  have window := NonceStore.timeWindow_expires present inTime
  rw [selected_eq] at window ⊢
  exact ⟨by simp [read.keyid], by simp [read.nonce], by simp [read.expires], window⟩

end Profile

namespace Module
open SearchTree KeyTree NonceStore

variable {rb : Balanced Nat}

/-- The base string, the key id and the signature that a request presents. -/
def presented (lcf : LocConf) (req : Base.Request) : Option (Bytes × Bytes × Bytes) :=
  match Profile.selectSignature (profileCtx lcf none 0) req with
  | .error _ => none
  | .ok (dict, sig) =>
      match Base.build req sig.components, Profile.signatureOf dict sig.label with
      | .ok base, some signature => some (base, sig.keyid, signature)
      | _, _ => none

/-- The workers share the zone of the store, and each request is served by one worker. The log has
every context that an evaluation gave. -/
structure Server (rb : Balanced Nat) where
  store : Store rb
  requests : Nat → RequestState
  log : List (Nat × RequestCtx)

namespace Server

def init (rb : Balanced Nat) : Server rb where
  store := Store.initZone rb
  requests _ := ⟨none, none⟩
  log := []

/-- The directory phase gives keys, or the reason why there are none. -/
def directory (server : Server rb) (id : Nat) (jwks : Bytes) (keysUnavailable : Bool)
    (reason : FetchReason) : Server rb :=
  let ctx := ((server.requests id).ctx.getD RequestCtx.zero)
  let ctx := { ctx with jwks := jwks, keysUnavailable := keysUnavailable, directoryReason := reason }
  { server with requests := Function.update server.requests id { server.requests id with ctx := some ctx } }

/-- An internal redirect clears the context of the request. -/
def redirect (server : Server rb) (id : Nat) : Server rb :=
  { server with requests := Function.update server.requests id { server.requests id with ctx := none } }

/-- A worker evaluates one request. -/
def evaluate (crc : Bytes → UInt32) (lcf : LocConf) (content : Nat → Base.Request) (server : Server rb)
    (id : Nat) (env : Env) : Server rb :=
  let out := Module.evaluate crc lcf env (content id) (server.requests id) server.store
  { store := out.2.2
    requests := Function.update server.requests id out.2.1
    log := server.log ++ (out.1.toList.map fun ctx => (id, ctx)) }

/-- The steps of any workers on any requests come in any order, and the clock never goes back. -/
inductive Reaches (crc : Bytes → UInt32) (lcf : LocConf) (content : Nat → Base.Request) :
    Server rb → Int → Prop
  | init (now : Int) : Reaches crc lcf content (init rb) now
  | directory {server : Server rb} {now : Int} (id : Nat) (jwks : Bytes) (keysUnavailable : Bool)
      (reason : FetchReason) (before : Reaches crc lcf content server now) :
      Reaches crc lcf content (server.directory id jwks keysUnavailable reason) now
  | redirect {server : Server rb} {now : Int} (id : Nat) (before : Reaches crc lcf content server now) :
      Reaches crc lcf content (server.redirect id) now
  | evaluate {server : Server rb} {now : Int} (id : Nat) (env : Env)
      (before : Reaches crc lcf content server now) (later : now ≤ env.now) :
      Reaches crc lcf content (server.evaluate crc lcf content id env) env.now

/-- The request was evaluated to `RESULT_OK`. -/
def Accepted (server : Server rb) (id : Nat) : Prop :=
  ∃ entry ∈ server.log, entry.1 = id ∧ entry.2.result = .ok

instance (server : Server rb) (id : Nat) : Decidable (server.Accepted id) :=
  inferInstanceAs (Decidable (∃ entry ∈ server.log, _))

/-- No evaluation found the store without room. -/
def Available (server : Server rb) : Prop :=
  ∀ entry ∈ server.log, entry.2.nonceStoreUnavailable = false

instance (server : Server rb) : Decidable server.Available :=
  inferInstanceAs (Decidable (∀ entry ∈ server.log, _))

end Server

/-- This is one nonce check with the shared-memory store and required nonces. -/
inductive CheckedNonce (crc : Bytes → UInt32) (lcf : LocConf) (env : Env) (memo : Option Verdict)
    (sig : Profile.Signature) (now : Int) (store : Store rb) :
    Verdict × Option Verdict × Store rb → Prop
  | missing {verdict} (declined : verdict.result ≠ .ok) :
      CheckedNonce crc lcf env memo sig now store (verdict, memo, store)
  | remembered {verdict} (held : memo = some verdict) :
      CheckedNonce crc lcf env memo sig now store (verdict, memo, store)
  | tooLong {verdict} (declined : verdict.result ≠ .ok) :
      CheckedNonce crc lcf env memo sig now store (verdict, some verdict, store)
  | stored {rc after}
      (call : store.shmCheck crc env.slab (storeKey sig.agentHost sig.keyid sig.nonce)
        (storeTtl sig.expires lcf.maxSkew now) now = (rc, after)) :
      CheckedNonce crc lcf env memo sig now store (verdictOf lcf rc, some (verdictOf lcf rc), after)

/-- What a required nonce check on the shared store does. -/
theorem checkNonce_checked {crc : Bytes → UInt32} {lcf : LocConf} {env : Env} {memo : Option Verdict}
    {sig : Profile.Signature} {now : Int} {store : Store rb} (shm : lcf.nonceStore = .shm)
    (required : lcf.nonceRequired = true) :
    CheckedNonce crc lcf env memo sig now store (checkNonce crc lcf env memo sig now store) := by
  unfold checkNonce
  rw [if_neg (by rw [shm]; decide), required]
  split
  · exact .missing nofun
  cases held : memo with
  | some verdict => exact .remembered rfl
  | none =>
      simp only [firstVerdict, backendCheck, shm]
      split
      · exact .tooLong nofun
      · exact .stored rfl

theorem noteVerdict_result (sig : Profile.Signature) (verdict : Verdict) (ctx : RequestCtx) :
    (noteVerdict sig verdict ctx).result = verdict.result ∧
      (noteVerdict sig verdict ctx).nonceStoreUnavailable = verdict.unavailable := by
  unfold noteVerdict
  split <;> exact ⟨rfl, rfl⟩

/-- A declined evaluation is not OK. -/
theorem declinedResult_ne_ok {ctx : RequestCtx} {result : Result} (named : result ≠ .ok) :
    declinedResult ctx result ≠ .ok := by
  unfold declinedResult
  split
  · exact nofun
  · exact named

/-- This is one evaluation in a location that is not off. It repeats its old outcome, it refuses the
request, or it has verified the request and follows the nonce check. -/
inductive Evaluated (crc : Bytes → UInt32) (lcf : LocConf) (env : Env) (req : Base.Request)
    (state : RequestState) (store : Store rb) :
    Option RequestCtx × RequestState × Store rb → Prop
  | again {ctx} (held : state.ctx = some ctx) (done : ctx.done = true) :
      Evaluated crc lcf env req state store (some ctx, state, store)
  | refused {ctx} (declined : ctx.result ≠ .ok) :
      Evaluated crc lcf env req state store (some ctx, { state with ctx := some ctx }, store)
  | verified {ctx sig dynamicKeys} {checked : Verdict × Option Verdict × Store rb}
      (accepted : Profile.verify (profileCtx lcf dynamicKeys env.now) env.now req = .ok sig)
      (nonce : checkNonce crc lcf env state.verdict sig env.now store = checked)
      (result : ctx.result = checked.1.result)
      (unavailable : ctx.nonceStoreUnavailable = checked.1.unavailable) :
      Evaluated crc lcf env req state store (some ctx, ⟨some ctx, checked.2.1⟩, checked.2.2)

/-- What an evaluation does, by the judgement it comes to. -/
theorem evaluate_evaluated {crc : Bytes → UInt32} {lcf : LocConf} {env : Env} {req : Base.Request}
    {state : RequestState} {store : Store rb} (mode : lcf.mode ≠ .off) :
    Evaluated crc lcf env req state store (evaluate crc lcf env req state store) := by
  unfold evaluate
  rw [if_neg mode]
  dsimp only
  split
  · rename_i done
    cases held : state.ctx with
    | none => simp [held, RequestCtx.zero] at done
    | some ctx =>
        rw [held] at done
        exact .again held done
  split
  · exact .refused nofun
  split
  · refine .refused ?_
    unfold noteKeys
    split <;> exact nofun
  · rename_i result failed
    refine .refused (declinedResult_ne_ok ?_)
    rintro rfl
    exact Profile.verify_ne_ok failed
  · rename_i sig accepted
    obtain ⟨result, unavailable⟩ := noteVerdict_result sig
      (checkNonce crc lcf env state.verdict sig env.now store).1 _
    exact .verified accepted rfl result unavailable

/-- A verified request presents the base, the key id and the signature that were verified. -/
theorem presented_of_verified {lcf : LocConf} {dynamicKeys : Option Keys} {now : Int} {req : Base.Request}
    {sig : Profile.Signature} (done : Profile.verify (profileCtx lcf dynamicKeys now) now req = .ok sig) :
    ∃ base, Base.build req sig.components = .ok base ∧
      presented lcf req = some (base, sig.keyid, sig.signature) := by
  obtain ⟨sigDict, picked, signature, base, chosen, _, _, found, built, _, _, rfl⟩ :=
    Profile.verify_eq_ok.mp done
  have chosen : Profile.selectSignature (profileCtx lcf none 0) req = .ok (sigDict, picked) := chosen
  exact ⟨base, built, by simp [presented, chosen, built, found]⟩

/-- The profile judges at the time of the evaluation. -/
theorem effectiveNow_profileCtx (lcf : LocConf) (dynamicKeys : Option Keys) (now : Int) :
    (profileCtx lcf dynamicKeys now).effectiveNow now = now := by
  unfold Profile.Ctx.effectiveNow profileCtx
  dsimp only
  split <;> rfl

/-- Requests that are as signed and present one signature have one nonce key and one expiry. -/
theorem same_storeKey {lcf : LocConf} (profile : lcf.profile = Profile.webBotAuth)
    {first second : Option Keys} {now later : Int} {req other : Base.Request} {sig otherSig : Profile.Signature}
    (lineFree : req.LineFree) (otherLineFree : other.LineFree)
    (signed : Profile.AgentSigned lcf.profile.tag req) (otherSigned : Profile.AgentSigned lcf.profile.tag other)
    (done : Profile.verify (profileCtx lcf first now) now req = .ok sig)
    (otherDone : Profile.verify (profileCtx lcf second later) later other = .ok otherSig)
    (same : presented lcf req = presented lcf other) :
    storeKey sig.agentHost sig.keyid sig.nonce = storeKey otherSig.agentHost otherSig.keyid otherSig.nonce ∧
      sig.expires = otherSig.expires := by
  obtain ⟨base, built, shown⟩ := presented_of_verified done
  obtain ⟨otherBase, otherBuilt, otherShown⟩ := presented_of_verified otherDone
  rw [shown, otherShown, Option.some.injEq, Prod.mk.injEq] at same
  obtain ⟨rfl, _⟩ := same
  obtain ⟨components, named⟩ :=
    Profile.signedHost_eq lineFree otherLineFree done otherDone built otherBuilt
  have host : sig.agentHost = otherSig.agentHost := by
    rw [(Profile.agentSigned_iff done).mp signed, (Profile.agentSigned_iff otherDone).mp otherSigned, named]
  obtain ⟨keyid, nonce, expires, _⟩ :=
    Profile.verify_signed (show (profileCtx lcf first now).profile = _ from profile) done
  obtain ⟨otherKeyid, otherNonce, otherExpires, _⟩ :=
    Profile.verify_signed (show (profileCtx lcf second later).profile = _ from profile) otherDone
  rw [← components] at otherKeyid otherNonce otherExpires
  exact ⟨by rw [host, keyid, nonce, otherKeyid, otherNonce], by rw [expires, otherExpires]⟩

/-- The request was verified, and the store keeps its nonce until the signature is too old. -/
def Recorded (lcf : LocConf) (req : Base.Request) (store : Store rb) (now : Int) : Prop :=
  ∃ dynamicKeys clock sig, Profile.verify (profileCtx lcf dynamicKeys clock) clock req = .ok sig ∧
    (now ≤ sig.expires + lcf.maxSkew → ∃ expiresAt, sig.expires + lcf.maxSkew ≤ expiresAt ∧
      store.Record (storeKey sig.agentHost sig.keyid sig.nonce) expiresAt)

/-- A recorded nonce stays recorded. -/
theorem Recorded.later {lcf : LocConf} {req : Base.Request} {store : Store rb} {now time : Int}
    (recorded : Recorded lcf req store now) (later : now ≤ time) : Recorded lcf req store time := by
  obtain ⟨dynamicKeys, clock, sig, done, kept⟩ := recorded
  exact ⟨dynamicKeys, clock, sig, done, fun inside => kept (le_trans later inside)⟩

/-- A call of the store keeps what is recorded. -/
theorem Recorded.keeps {crc : Bytes → UInt32} {lcf : LocConf} {req : Base.Request} {store after : Store rb}
    {slab : Slab Node} {key : Bytes} {ttl now : Int} {rc : NonceStore.Rc} (recorded : Recorded lcf req store now)
    (coherent : store.Coherent crc) (outcome : Store.Outcome crc slab store key ttl now rc after) :
    Recorded lcf req after now := by
  obtain ⟨dynamicKeys, clock, sig, done, kept⟩ := recorded
  refine ⟨dynamicKeys, clock, sig, done, fun inside => ?_⟩
  obtain ⟨expiresAt, covers, record⟩ := kept inside
  exact ⟨expiresAt, covers, outcome.keeps coherent (le_trans inside covers) record⟩

/-- The server has recorded every accepted request, and it has accepted no signature twice. -/
structure Guarded (crc : Bytes → UInt32) (lcf : LocConf) (content : Nat → Base.Request)
    (server : Server rb) (now : Int) : Prop where
  coherent : server.store.Coherent crc
  recorded : ∀ id, server.Accepted id → Recorded lcf (content id) server.store now
  apart : ∀ id other, id ≠ other → server.Accepted id → server.Accepted other →
    presented lcf (content id) ≠ presented lcf (content other)
  memo : ∀ id verdict, (server.requests id).verdict = some verdict → verdict.result = .ok →
    verdict.unavailable = false → server.Accepted id
  done : ∀ id ctx, (server.requests id).ctx = some ctx → ctx.done = true → ctx.result = .ok →
    server.Accepted id

section Guarded
variable {crc : Bytes → UInt32} {lcf : LocConf} {content : Nat → Base.Request} {server : Server rb}
  {now : Int}

/-- Before any request nothing has to be recorded. -/
theorem Guarded.init (now : Int) : Guarded crc lcf content (Server.init rb) now where
  coherent := Store.initZone_coherent rb crc
  recorded := by rintro _ ⟨_, logged, _⟩; cases logged
  apart := by rintro _ _ _ ⟨_, logged, _⟩; cases logged
  memo := by rintro _ _ ⟨⟩
  done := by rintro _ _ ⟨⟩

/-- A new context of one request keeps the guard when it was not accepted by the change. -/
theorem Guarded.setCtx (guarded : Guarded crc lcf content server now) (id : Nat) (changed : Option RequestCtx)
    (same : ∀ ctx, changed = some ctx → ctx.done = true → ctx.result = .ok → server.Accepted id) :
    Guarded crc lcf content { server with
      requests := Function.update server.requests id { server.requests id with ctx := changed } } now where
  coherent := guarded.coherent
  recorded := guarded.recorded
  apart := guarded.apart
  memo other verdict held := by
    rcases eq_or_ne other id with rfl | different
    · exact guarded.memo other verdict (by simpa using held)
    · exact guarded.memo other verdict (by simpa [different] using held)
  done other ctx held := by
    rcases eq_or_ne other id with rfl | different
    · exact same ctx (by simpa using held)
    · exact guarded.done other ctx (by simpa [different] using held)

/-- One more evaluation keeps the guard when an acceptance by it is recorded and new. -/
theorem Guarded.extend (guarded : Guarded crc lcf content server now) {id : Nat} {ctx : RequestCtx}
    {state : RequestState} {store : Store rb} {time : Int} (coherent : store.Coherent crc)
    (kept : ∀ other, server.Accepted other → Recorded lcf (content other) store time)
    (fresh : ctx.result = .ok → server.Accepted id ∨ Recorded lcf (content id) store time ∧
      ∀ other, other ≠ id → server.Accepted other → presented lcf (content other) ≠ presented lcf (content id))
    (memo : ∀ verdict, state.verdict = some verdict → verdict.result = .ok → verdict.unavailable = false →
      server.Accepted id ∨ ctx.result = .ok)
    (done : ∀ held, state.ctx = some held → held.done = true → held.result = .ok →
      server.Accepted id ∨ ctx.result = .ok) :
    Guarded crc lcf content
      ⟨store, Function.update server.requests id state, server.log ++ [(id, ctx)]⟩ time := by
  let next : Server rb := ⟨store, Function.update server.requests id state, server.log ++ [(id, ctx)]⟩
  have older : ∀ other, server.Accepted other → next.Accepted other := by
    rintro other ⟨entry, logged, accepted⟩
    exact ⟨entry, List.mem_append_left _ logged, accepted⟩
  have newer : ∀ other, next.Accepted other → server.Accepted other ∨ other = id ∧ ctx.result = .ok := by
    rintro other ⟨entry, logged, same, result⟩
    rcases List.mem_append.mp logged with logged | logged
    · exact .inl ⟨entry, logged, same, result⟩
    · cases List.mem_singleton.mp logged
      exact .inr ⟨same.symm, result⟩
  have atId : server.Accepted id ∨ ctx.result = .ok → next.Accepted id := by
    rintro (accepted | result)
    · exact older id accepted
    · exact ⟨(id, ctx), List.mem_append_right _ (List.mem_singleton_self _), rfl, result⟩
  have newFact : ctx.result = .ok → Recorded lcf (content id) store time ∧ ∀ other, other ≠ id →
      server.Accepted other → presented lcf (content other) ≠ presented lcf (content id) := by
    intro result
    rcases fresh result with accepted | facts
    · exact ⟨kept id accepted, fun other different held => guarded.apart other id different held accepted⟩
    · exact facts
  refine ⟨coherent, ?_, ?_, ?_, ?_⟩
  · intro other accepted
    rcases newer other accepted with accepted | ⟨rfl, result⟩
    · exact kept other accepted
    · exact (newFact result).1
  · intro first second different firstAccepted secondAccepted
    rcases newer first firstAccepted with firstOld | ⟨rfl, result⟩
    · rcases newer second secondAccepted with secondOld | ⟨rfl, result⟩
      · exact guarded.apart first second different firstOld secondOld
      · exact (newFact result).2 first different firstOld
    · rcases newer second secondAccepted with secondOld | ⟨rfl, _⟩
      · exact ((newFact result).2 second different.symm secondOld).symm
      · exact absurd rfl different
  · intro other verdict held result available
    rcases eq_or_ne other id with rfl | different
    · exact atId (memo verdict (by simpa using held) result available)
    · exact older other (guarded.memo other verdict (by simpa [different] using held) result available)
  · intro other held present finished result
    rcases eq_or_ne other id with rfl | different
    · exact atId (done held (by simpa using present) finished result)
    · exact older other (guarded.done other held (by simpa [different] using present) finished result)

/-- A store that accepts a verified request records it, and no accepted request presented the same. -/
theorem Guarded.fresh (guarded : Guarded crc lcf content server now) {id : Nat} {env : Env}
    {dynamicKeys : Option Keys} {sig : Profile.Signature} {after : Store rb}
    (profile : lcf.profile = Profile.webBotAuth) (later : now ≤ env.now)
    (lineFree : ∀ id, (content id).LineFree) (signed : ∀ id, Profile.AgentSigned lcf.profile.tag (content id))
    (accepted : Profile.verify (profileCtx lcf dynamicKeys env.now) env.now (content id) = .ok sig)
    (outcome : Store.Outcome crc env.slab server.store (storeKey sig.agentHost sig.keyid sig.nonce)
      (storeTtl sig.expires lcf.maxSkew env.now) env.now .ok after) :
    Recorded lcf (content id) after env.now ∧ ∀ other, other ≠ id → server.Accepted other →
      presented lcf (content other) ≠ presented lcf (content id) := by
  constructor
  · exact ⟨dynamicKeys, env.now, sig, accepted, fun _ =>
      ⟨_, storeTtl_covers sig.expires lcf.maxSkew env.now, outcome.records rfl⟩⟩
  · intro other _ held same
    obtain ⟨otherKeys, clock, otherSig, done, kept⟩ := (guarded.recorded other held).later later
    obtain ⟨key, expires⟩ :=
      same_storeKey profile (lineFree other) (lineFree id) (signed other) (signed id) done accepted same
    have window := (Profile.verify_signed
      (show (profileCtx lcf dynamicKeys env.now).profile = _ from profile) accepted).2.2.2
    rw [effectiveNow_profileCtx] at window
    have inside : env.now ≤ otherSig.expires + lcf.maxSkew := by rw [expires]; exact window
    obtain ⟨expiresAt, covers, record⟩ := kept inside
    -- The record of the other request is live under the same key, so the store declines.
    have live : server.store.Live (storeKey sig.agentHost sig.keyid sig.nonce) env.now :=
      ⟨expiresAt, le_trans inside covers, key ▸ record⟩
    exact absurd ((outcome.declined_iff guarded.coherent).mpr live) nofun

/-- A verdict accepts with the store available only on its OK. -/
theorem verdictOf_accepts {rc : NonceStore.Rc} (answered : rc ≠ .error)
    (result : (verdictOf lcf rc).result = .ok) (available : (verdictOf lcf rc).unavailable = false) :
    rc = .ok := by
  cases rc with
  | ok => rfl
  | declined => cases result
  | abort => cases available
  | error => exact absurd rfl answered

/-- An evaluation that finds the store available keeps the guard. -/
theorem Guarded.evaluate (guarded : Guarded crc lcf content server now) (id : Nat) (env : Env)
    (mode : lcf.mode ≠ .off) (shm : lcf.nonceStore = .shm) (required : lcf.nonceRequired = true)
    (profile : lcf.profile = Profile.webBotAuth) (later : now ≤ env.now)
    (lineFree : ∀ id, (content id).LineFree) (signed : ∀ id, Profile.AgentSigned lcf.profile.tag (content id))
    (available : (server.evaluate crc lcf content id env).Available) :
    Guarded crc lcf content (server.evaluate crc lcf content id env) env.now := by
  unfold Server.evaluate at available ⊢
  have evaluated : Evaluated crc lcf env (content id) (server.requests id) server.store _ :=
    evaluate_evaluated mode
  revert evaluated available
  generalize Module.evaluate crc lcf env (content id) (server.requests id) server.store = out
  intro available evaluated
  have still : ∀ other, server.Accepted other → Recorded lcf (content other) server.store env.now :=
    fun other accepted => (guarded.recorded other accepted).later later
  cases evaluated with
  | again held done =>
      exact guarded.extend guarded.coherent still
        (fun result => .inl (guarded.done id _ held done result))
        (fun verdict memo result unavailable => .inl (guarded.memo id verdict memo result unavailable))
        (fun ctx present finished result => .inl (guarded.done id ctx present finished result))
  | refused declined =>
      refine guarded.extend guarded.coherent still (fun result => absurd result declined)
        (fun verdict memo result unavailable => .inl (guarded.memo id verdict memo result unavailable)) ?_
      rintro _ ⟨⟩ _ result
      exact .inr result
  | @verified ctx sig dynamicKeys checked accepted nonce result unavailable =>
      have checkedNonce : CheckedNonce crc lcf env (server.requests id).verdict sig env.now server.store checked :=
        nonce ▸ checkNonce_checked shm required
      have flag : ctx.nonceStoreUnavailable = false := available (id, ctx) (by simp)
      rw [unavailable] at flag
      have followed : ∀ held : RequestCtx, some ctx = some held → held.done = true → held.result = .ok →
          server.Accepted id ∨ ctx.result = .ok := by
        rintro _ ⟨⟩ _ result
        exact .inr result
      cases checkedNonce with
      | missing declined =>
          exact guarded.extend guarded.coherent still (fun found => absurd (result.symm.trans found) declined)
            (fun verdict memo result unavailable => .inl (guarded.memo id verdict memo result unavailable)) followed
      | @remembered verdict held =>
          exact guarded.extend guarded.coherent still
            (fun found => .inl (guarded.memo id verdict held (result.symm.trans found) flag))
            (fun verdict memo result unavailable => .inl (guarded.memo id verdict memo result unavailable)) followed
      | tooLong declined =>
          refine guarded.extend guarded.coherent still (fun found => absurd (result.symm.trans found) declined)
            ?_ followed
          rintro _ ⟨⟩ accepted _
          exact absurd accepted declined
      | @stored rc after call =>
          have outcome := Store.shmCheck_outcome guarded.coherent
            (storeTtl_pos sig.expires lcf.maxSkew env.now) call
          refine guarded.extend (outcome.coherent guarded.coherent)
            (fun other accepted => (still other accepted).keeps guarded.coherent outcome) ?_ ?_ followed
          · intro found
            have rcOk := verdictOf_accepts outcome.ne_error (result.symm.trans found) flag
            subst rcOk
            exact .inr (guarded.fresh profile later lineFree signed accepted outcome)
          · rintro _ ⟨⟩ accepted _
            exact .inr (result.trans accepted)

/-- Every run with an available store keeps the guard when its requests are as signed. -/
theorem Server.Reaches.guarded (reaches : Server.Reaches crc lcf content server now)
    (mode : lcf.mode ≠ .off) (shm : lcf.nonceStore = .shm) (required : lcf.nonceRequired = true)
    (profile : lcf.profile = Profile.webBotAuth) (lineFree : ∀ id, (content id).LineFree)
    (signed : ∀ id, Profile.AgentSigned lcf.profile.tag (content id)) (available : server.Available) :
    Guarded crc lcf content server now := by
  induction reaches with
  | init now => exact Guarded.init now
  | @directory server now id jwks keysUnavailable reason _ ih =>
      refine (ih available).setCtx id _ ?_
      rintro _ ⟨⟩ done result
      cases held : (server.requests id).ctx with
      | none => simp [held, RequestCtx.zero] at done
      | some ctx =>
          simp only [held, Option.getD_some] at done result
          exact (ih available).done id ctx held done result
  | redirect id _ ih =>
      refine (ih available).setCtx id none ?_
      rintro _ ⟨⟩
  | evaluate id env _ later ih =>
      refine (ih fun entry logged => available entry ?_).evaluate id env mode shm required profile later
        lineFree signed available
      exact List.mem_append_left _ logged

end Guarded

/-- In a run whose requests are all as signed, no two requests that present one signature over one base
are both accepted. -/
theorem no_replay_accepted {crc : Bytes → UInt32} {lcf : LocConf} {content : Nat → Base.Request}
    {server : Server rb} {now : Int} (reaches : Server.Reaches crc lcf content server now)
    (mode : lcf.mode = .enforce) (profile : lcf.profile = Profile.webBotAuth) (shm : lcf.nonceStore = .shm)
    (required : lcf.nonceRequired = true) (available : server.Available)
    (lineFree : ∀ id, (content id).LineFree)
    (signed : ∀ id, Profile.AgentSigned lcf.profile.tag (content id)) :
    ∀ id other, id ≠ other → server.Accepted id → server.Accepted other →
      presented lcf (content id) ≠ presented lcf (content other) :=
  (reaches.guarded (by rw [mode]; decide) shm required profile lineFree signed available).apart

/-- The sample location enforces the profile with the key that signed one base. -/
def sampleLocation : LocConf where
  mode := .enforce
  profile := Profile.webBotAuth
  expiresMax := 86400
  maxSkew := 60
  jwksKeys := some (Profile.sampleKeys Profile.keyedBase)
  keyidFallbackAllow := false
  nonceStore := .shm
  nonceRequired := true
  nonceStoreFailure := .failOpen

def sampleEnv : Env where
  now := 1100
  loadKeys _ := none
  slab := twoSlots
  redis _ _ := .abort

/-- The signer sends request 0, and then a copy of it arrives as request 1. -/
def replayed (copy : Base.Request) (id : Nat) : Base.Request :=
  if id = 0 then Profile.signedRequest else copy

def replayRun (copy : Base.Request) : Server (plain Nat) :=
  ((Server.init (plain Nat)).evaluate crc32Long sampleLocation (replayed copy) 0 sampleEnv).evaluate crc32Long
    sampleLocation (replayed copy) 1 sampleEnv

/-- The signed request and its copy, one after the other, are a run. -/
theorem replayRun_reaches (copy : Base.Request) :
    Server.Reaches crc32Long sampleLocation (replayed copy) (replayRun copy) 1100 :=
  .evaluate 1 sampleEnv (.evaluate 0 sampleEnv (.init 1100) (le_refl _)) (le_refl _)

/-- Both requests of the run are free of line feeds. -/
theorem replayed_lineFree {copy : Base.Request} (lineFree : copy.LineFree) (id : Nat) :
    (replayed copy id).LineFree := by
  unfold replayed
  split
  · exact Profile.signedRequest_lineFree
  · exact lineFree

/-- A copy with a rewritten agent field is accepted again. -/
theorem replayRun_rewritten :
    (replayRun Profile.rewrittenRequest).Available ∧ (replayRun Profile.rewrittenRequest).Accepted 0 ∧
      (replayRun Profile.rewrittenRequest).Accepted 1 ∧
      presented sampleLocation Profile.signedRequest = presented sampleLocation Profile.rewrittenRequest := by
  decide +kernel

/-- The rewritten copy has another agent, so it is accepted under another nonce key. -/
theorem replay_accepted :
    ¬ ∀ (crc : Bytes → UInt32) (lcf : LocConf) (content : Nat → Base.Request) (server : Server (plain Nat))
        (now : Int), Server.Reaches crc lcf content server now →
      lcf.mode = .enforce → lcf.profile = Profile.webBotAuth → lcf.nonceStore = .shm →
      lcf.nonceRequired = true → server.Available → (∀ id, (content id).LineFree) →
      ∀ id other, id ≠ other → server.Accepted id → server.Accepted other →
        presented lcf (content id) ≠ presented lcf (content other) := by
  intro safe
  obtain ⟨available, original, copy, same⟩ := replayRun_rewritten
  have different := safe crc32Long sampleLocation (replayed Profile.rewrittenRequest)
    (replayRun Profile.rewrittenRequest) 1100 (replayRun_reaches _) rfl rfl rfl rfl available
    (replayed_lineFree Profile.rewrittenRequest_lineFree) 0 1 (by decide) original copy
  exact different same

/-- Both requests of the run are as signed. -/
theorem replayed_agentSigned (id : Nat) :
    Profile.AgentSigned sampleLocation.profile.tag (replayed Profile.extendedRequest id) := by
  unfold replayed
  split
  · exact Profile.signedRequest_agentSigned
  · decide +kernel

/-- The run with a copy that has a further agent line. -/
theorem replayRun_extended :
    (replayRun Profile.extendedRequest).Available ∧ (replayRun Profile.extendedRequest).Accepted 0 ∧
      presented sampleLocation Profile.signedRequest = presented sampleLocation Profile.extendedRequest := by
  decide +kernel

/-- A copy with a further line is as signed, so it is not accepted. -/
theorem no_replay_accepted_further_line :
    (replayRun Profile.extendedRequest).Accepted 0 ∧ ¬ (replayRun Profile.extendedRequest).Accepted 1 :=
  ⟨replayRun_extended.2.1, fun accepted =>
    no_replay_accepted (replayRun_reaches Profile.extendedRequest) rfl rfl rfl rfl replayRun_extended.1
      (replayed_lineFree Profile.extendedRequest_lineFree) replayed_agentSigned 0 1 (by decide)
      replayRun_extended.2.1 accepted replayRun_extended.2.2⟩

end Module
end AuthHttpsig
