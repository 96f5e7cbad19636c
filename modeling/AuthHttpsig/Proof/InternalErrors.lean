/-
This file shows when an internal error of an evaluation reaches the variables as no verdict.
-/

import AuthHttpsig.Construction.Variables
import AuthHttpsig.Proof.Evaluation
import AuthHttpsig.Proof.LocationDecision
import AuthHttpsig.Proof.NonceReplay
import AuthHttpsig.Proof.ReplayKeys

namespace AuthHttpsig.Module

open SearchTree
open NonceStore (storeTtl nonceMaxLen)

variable {rb : Balanced Nat}

/-- An internal error leaves the request without a verdict, and the variables say so. -/
def Silent (rc : Rc) (ctx : Option RequestCtx) : Prop :=
  ∀ out ∈ ctx, out.internalError = true → out.result = .notSigned ∧ variableVerified rc ctx = none ∧
    variableKeyid rc ctx = none ∧ variableAgent rc ctx = none ∧ variableError rc ctx = some (ascii "internal")

/-- The variables follow the result. -/
theorem silent_iff {ctx : RequestCtx} :
    Silent .ok (some ctx) ↔ (ctx.internalError = true → ctx.result = .notSigned) := by
  constructor
  · exact fun silent failed => (silent ctx rfl failed).1
  · rintro unsigned out ⟨⟩ failed
    have result := unsigned failed
    simp [variableVerified, variableKeyid, variableAgent, variableError, variableOf, result, failed]

/-- The nonce check of this signature fails internally. -/
def NonceFault (room : Room) (lcf : LocConf) (env : Env) (memo : Option Verdict) (sig : Profile.Signature) : Prop :=
  lcf.nonceStore ≠ .off ∧ sig.nonce ≠ [] ∧
    match memo with
    | some verdict => verdict.internalError = true
    | none => room.verdict = false ∨ (sig.nonce.length ≤ nonceMaxLen ∧ (room.nonceKey = false ∨
        (lcf.nonceStore = .redis ∧
          env.redis (nonceKey sig) (storeTtl sig.expires lcf.maxSkew env.now) = .error)))

/-- The shared store never answers with an error. -/
theorem shmCheck_ne_error (crc : Bytes → UInt32) (slab : KeyTree.Slab NonceStore.Node) (store : NonceStore.Store rb)
    (key : Bytes) {ttl : Int} (now : Int) (positive : 1 ≤ ttl) :
      (store.shmCheck crc slab key ttl now).1 ≠ .error := by
  unfold NonceStore.Store.shmCheck
  rw [if_neg (by omega)]
  split
  · split <;> simp
  · split <;> simp

/-- A verdict is an internal error exactly for an error of the store. -/
theorem verdictOf_internalError (lcf : LocConf) (rc : NonceStore.Rc) :
    (verdictOf lcf rc).internalError = true ↔ rc = .error := by
  cases rc <;> simp [verdictOf]

/-- The zone never answers with an internal error. -/
theorem consult_error (crc : Bytes → UInt32) {lcf : LocConf} (env : Env) (sig : Profile.Signature)
    (store : NonceStore.Store rb) (enabled : lcf.nonceStore ≠ .off) :
    (consult crc lcf env sig store).1 = .error ↔ lcf.nonceStore = .redis ∧
      env.redis (nonceKey sig) (storeTtl sig.expires lcf.maxSkew env.now) = .error := by
  unfold consult backendCheck
  cases kind : lcf.nonceStore with
  | off => exact absurd kind enabled
  | shm =>
      have answer := shmCheck_ne_error crc env.slab store (nonceKey sig) env.now
        (NonceStore.storeTtl_pos sig.expires lcf.maxSkew env.now)
      simpa using answer
  | redis => simp

/-- No memoized verdict is an internal error. -/
def Clean (memo : Option Verdict) : Prop := ∀ verdict ∈ memo, verdict.internalError = false

/-- The verdict is an internal error exactly at a fault, and its result is then OK. -/
theorem NonceChecked.fault {room : Room} {crc : Bytes → UInt32} {lcf : LocConf} {env : Env} {memo : Option Verdict}
    {sig : Profile.Signature} {store : NonceStore.Store rb} {out : Verdict × Option Verdict × NonceStore.Store rb}
    (checked : NonceChecked room crc lcf env memo sig store out) (clean : Clean memo) :
    (out.1.internalError = true ↔ NonceFault room lcf env memo sig) ∧
      (out.1.internalError = true → out.1.result = .ok) ∧ (Clean out.2.1 ∨ NonceFault room lcf env memo sig) := by
  cases checked with
  | off disabled => exact ⟨by simp [NonceFault, disabled], by simp, .inl clean⟩
  | absent _ empty => exact ⟨by simp [NonceFault, empty], by simp, .inl clean⟩
  | @known verdict enabled filled found =>
      subst found
      exact ⟨by simp [NonceFault, enabled, filled], by simp [clean verdict rfl], .inl clean⟩
  | unmarked enabled filled first noRoom =>
      subst first
      exact ⟨by simp [NonceFault, enabled, filled, noRoom, failedVerdict], fun _ => rfl, .inl clean⟩
  | tooLong enabled filled first marked long =>
      subst first
      refine ⟨by simp [NonceFault, marked, long], by simp, .inl ?_⟩
      simp [Clean]
  | keyless enabled filled first marked short noRoom =>
      subst first
      have fault : NonceFault room lcf env none sig := ⟨enabled, filled, .inr ⟨short, .inl noRoom⟩⟩
      exact ⟨iff_of_true rfl fault, fun _ => rfl, .inr fault⟩
  | consulted consults =>
      have same : (verdictOf lcf (consult crc lcf env sig store).1).internalError = true ↔
          NonceFault room lcf env memo sig := by
        rw [verdictOf_internalError, consult_error crc env sig store consults.enabled, consults.first]
        simp [NonceFault, consults.enabled, consults.filled, consults.marked, consults.short, consults.keyed]
      refine ⟨same, ?_, ?_⟩
      · intro failed
        rw [(verdictOf_internalError ..).mp failed]
        rfl
      · by_cases fault : NonceFault room lcf env memo sig
        · exact .inr fault
        · left
          rintro verdict ⟨⟩
          exact Bool.eq_false_iff.mpr fun failed => fault (same.mp failed)

/-- Only a finished evaluation has an internal error, and it left the request unsigned. -/
def RequestCtx.Muted (ctx : RequestCtx) : Prop :=
  ctx.internalError = true → ctx.done = true ∧ ctx.result = .notSigned

/-- A context with the same outcome is muted too. -/
theorem RequestCtx.Muted.of_outcome {before after : RequestCtx} (same : after.outcome = before.outcome)
    (muted : before.Muted) : after.Muted := by
  intro failed
  have internal : after.outcome.internalError = before.outcome.internalError := by rw [same]
  have done : after.outcome.done = before.outcome.done := by rw [same]
  have result : after.outcome.result = before.outcome.result := by rw [same]
  obtain ⟨marked, unsigned⟩ := muted (internal.symm.trans failed)
  exact ⟨done.trans marked, result.trans unsigned⟩

/-- A muted context shows nothing. -/
theorem RequestCtx.Muted.silent {ctx : RequestCtx} (muted : ctx.Muted) : Silent .ok (some ctx) :=
  silent_iff.mpr fun failed => (muted failed).2

/-- A context without an internal error is muted. -/
theorem RequestCtx.muted_of_sound {ctx : RequestCtx} (sound : ctx.internalError = false) : ctx.Muted := by
  intro failed
  rw [sound] at failed
  cases failed

namespace Life

variable {crc : Bytes → UInt32} {raw : RawRequest} {life : Life}

/-- The read verifies no signature whose nonce check fails internally. -/
def Clear (raw : RawRequest) (life : Life) : Move rb → Prop
  | .read lcf visit => ∀ sig, Judges visit.room lcf.toLocConf (visit.request raw) life.state →
      judgedIn visit.room lcf.toLocConf visit.env (visit.request raw) life.state = .ok sig →
        ¬ NonceFault visit.room lcf.toLocConf visit.env life.verdict sig
  | .handle .. | .finish .. | .redirect | .destroy _ => True

/-- The context and the memoized verdict show no internal error as a verdict. -/
structure Kept (life : Life) : Prop where
  muted : ∀ ctx ∈ life.ctx, ctx.toRequestCtx.Muted
  clean : Clean life.verdict

/-- A muted evaluation keeps the invariant. -/
theorem Kept.put (kept : life.Kept) {state : RequestState} (muted : ∀ ctx ∈ state.ctx, ctx.Muted)
    (clean : Clean state.verdict) :
    Kept { life.put (state.ctx.map (life.ctx.getD Context.zero).withEvaluated) [] with
      verdict := state.verdict } := by
  refine ⟨?_, clean⟩
  intro ctx present
  have present : ctx ∈ (life.put (state.ctx.map (life.ctx.getD Context.zero).withEvaluated) []).ctx := present
  rw [put_ctx_or] at present
  cases written : state.ctx with
  | none =>
      rw [written] at present
      exact kept.muted ctx present
  | some out =>
      rw [written] at present
      cases present
      exact muted out written

/-- A context that no evaluation finished has no internal error. -/
theorem Kept.fresh {room : Room} {lcf : LocConf} (kept : life.Kept) (begins : Begins room lcf life.state) :
    (life.state.ctx.getD RequestCtx.zero).internalError = false := by
  have fresh := begins.fresh
  unfold Life.state at fresh ⊢
  cases present : life.ctx with
  | none => rfl
  | some ctx =>
      rw [present, Option.map_some, Option.any_some] at fresh
      by_contra failed
      have done := (kept.muted ctx present (by simpa using failed)).1
      rw [fresh] at done
      cases done

/-- What the evaluation finds is muted. -/
theorem Kept.state_muted (kept : life.Kept) : ∀ ctx ∈ life.state.ctx, ctx.Muted := by
  intro ctx present
  obtain ⟨whole, found, rfl⟩ := Option.map_eq_some_iff.mp present
  exact kept.muted whole found

/-- Without a verified signature, an internal error comes with the result that the request is not signed. -/
theorem Kept.unjudged_muted (kept : life.Kept) {lcf : LocConf} {room : Room} {env : Env} {req : Base.Request}
    {store : NonceStore.Store rb} {out : Rc × Option RequestCtx × RequestState × NonceStore.Store rb}
    (ended : Ended room crc lcf env req life.state store out) (unjudged : Unjudged room lcf env req life.state) :
    (∀ ctx ∈ out.2.2.1.ctx, ctx.Muted) ∧ Silent out.1 out.2.1 := by
  cases ended with
  | disabled => exact ⟨kept.state_muted, by simp [Silent]⟩
  | again _ present => exact ⟨kept.state_muted, (kept.state_muted _ present).silent⟩
  | noContext => exact ⟨kept.state_muted, by simp [Silent]⟩
  | unsigned begins =>
      have muted : life.state.begun.Muted := RequestCtx.muted_of_sound (kept.fresh begins)
      exact ⟨by rintro _ ⟨⟩; exact muted, muted.silent⟩
  | noSnapshot _ _ _ ends =>
      subst ends
      exact ⟨by rintro _ ⟨⟩ _; exact ⟨rfl, rfl⟩, silent_iff.mpr fun _ => rfl⟩
  | failed _ _ ends =>
      obtain ⟨done, result, _⟩ := keyedIn_fields room env life.state
      subst ends
      exact ⟨by rintro _ ⟨⟩ _; exact ⟨done, result⟩, silent_iff.mpr fun _ => result⟩
  | declined judges _ ends =>
      obtain ⟨_, _, internal⟩ := keyedIn_fields room env life.state
      have muted : RequestCtx.Muted _ :=
        RequestCtx.muted_of_sound ((congrArg _ ends).trans (internal.trans (kept.fresh judges.toBegins)))
      exact ⟨by rintro _ ⟨⟩; exact muted, muted.silent⟩
  | verified judges judged => exact absurd judged (unjudged _ judges)

/-- An evaluation of such a request is silent exactly when its nonce check does not fail internally. -/
theorem Kept.evaluated (kept : life.Kept) (lcf : Location) (visit : Visit rb) :
    (Silent (life.evaluate crc raw lcf.toLocConf visit).1 (life.evaluate crc raw lcf.toLocConf visit).2.1 ↔
        Clear raw life (.read lcf visit)) ∧
      (Clear raw life (.read lcf visit) → (life.evaluate crc raw lcf.toLocConf visit).2.2.Kept) := by
  have ended := evaluateIn_ended visit.room crc lcf.toLocConf visit.env (visit.request raw) life.state visit.store
  unfold Life.evaluate Clear
  generalize evaluateIn visit.room crc lcf.toLocConf visit.env (visit.request raw) life.state visit.store =
    out at ended
  rcases ended.unjudged_or with ⟨unjudged, same, _⟩ | ⟨sig, verdict, memo, store, judges, judged, checked, rfl⟩
  · obtain ⟨muted, silent⟩ := kept.unjudged_muted ended unjudged
    exact ⟨iff_of_true silent fun sig judges judged => absurd judged (unjudged sig judges),
      fun _ => kept.put muted (by rw [same]; exact kept.clean)⟩
  · obtain ⟨_, _, internal⟩ := keyedIn_fields visit.room visit.env life.state
    obtain ⟨result, _, raised⟩ := noteVerdict_fields sig verdict (keyedIn visit.room visit.env life.state)
    rw [internal, kept.fresh judges.toBegins, Bool.false_or] at raised
    have outcome := checkNonceIn_checked visit.room crc lcf.toLocConf visit.env life.state.verdict sig visit.store
    rw [checked] at outcome
    obtain ⟨faulty, accepted, cleaner⟩ := outcome.fault kept.clean
    constructor
    · rw [silent_iff, raised, result]
      constructor
      · intro silent other _ found fault
        rw [judged, Except.ok.injEq] at found
        subst found
        have failed := faulty.mpr fault
        have unsigned := silent failed
        rw [accepted failed] at unsigned
        cases unsigned
      · intro clear failed
        exact absurd (faulty.mp failed) (clear sig judges judged)
    · intro clear
      have sound : ¬ verdict.internalError = true := fun failed => clear sig judges judged (faulty.mp failed)
      have muted := RequestCtx.muted_of_sound (raised.trans (Bool.eq_false_iff.mpr sound))
      exact kept.put (by rintro _ ⟨⟩; exact muted) (cleaner.resolve_right (clear sig judges judged))

/-- A step that leaves the outcome keeps the invariant. -/
theorem Kept.of_outcome (kept : life.Kept) {after : Life}
    (same : (after.ctx.getD Context.zero).outcome = (life.ctx.getD Context.zero).outcome)
    (verdict : after.verdict = life.verdict) : after.Kept := by
  have muted : (life.ctx.getD Context.zero).toRequestCtx.Muted := by
    cases present : life.ctx with
    | none => exact RequestCtx.muted_of_sound rfl
    | some ctx => exact kept.muted ctx present
  refine ⟨?_, by rw [verdict]; exact kept.clean⟩
  intro ctx present
  rw [Option.mem_def.mp present, Option.getD_some] at same
  exact muted.of_outcome same

/-- A run of the handler keeps the invariant. -/
theorem Kept.handle (kept : life.Kept) (lcf : Location) (surroundings : Surroundings) :
    (life.handle raw lcf surroundings).2.Kept := by
  have current : (life.handle raw lcf surroundings).2.ctx =
      ((directoryHandler lcf raw.headers life.ctx).run surroundings).2.or life.ctx := put_ctx_or ..
  have same := directoryHandler_outcome surroundings lcf raw.headers life.ctx
  refine kept.of_outcome ?_ (put_verdict ..)
  rw [current]
  cases out : ((directoryHandler lcf raw.headers life.ctx).run surroundings).2 with
  | none => rfl
  | some ctx => rwa [out] at same

/-- The completion of a fetch keeps the invariant. -/
theorem Kept.finish (kept : life.Kept) (index : Option Nat) (conf : DirectoryConf) (response : Directory.Response)
    (surroundings : Surroundings) : (life.finish index fun slot => slot.finish conf response surroundings).Kept := by
  cases index with
  | some index => exact ⟨kept.muted, kept.clean⟩
  | none =>
      have current : (life.finish none fun slot => slot.finish conf response surroundings).ctx =
          life.ctx.map fun ctx => (directoryDone conf response ctx).run surroundings := by
        simp only [Life.finish, Life.ctx, Option.map_map]
        rfl
      refine kept.of_outcome ?_ rfl
      rw [current]
      cases life.ctx with
      | none => rfl
      | some ctx => exact directoryDone_outcome conf response ctx

/-- A run without such faults keeps every internal error unexposed until the pool ends. -/
theorem Reaches.unexposed (reaches : Reaches crc raw (Clear raw : Life → Move rb → Prop) life)
    (alive : life.destroyed = false) : life.Kept := by
  induction reaches with
  | init => exact ⟨by simp [Life.init, Life.ctx], by simp [Life.init, Clean]⟩
  | @move life next _ permitted met ih =>
      cases next with
      | handle lcf surroundings => exact (ih permitted).handle lcf surroundings
      | read lcf visit => exact ((ih permitted).evaluated lcf visit).2 met
      | finish index conf response surroundings => exact (ih permitted.1).finish index conf response surroundings
      | redirect => exact ⟨by simp [Life.move, Life.ctx], (ih permitted).clean⟩
      | destroy surroundings => cases alive

/-- In a run whose nonce checks do not fail internally, an evaluation leaves an internal error unexposed exactly
when its own nonce check does not fail internally. -/
theorem internal_error_unexposed_iff (reaches : Reaches crc raw (Clear raw : Life → Move rb → Prop) life)
    (alive : life.destroyed = false) (lcf : Location) (visit : Visit rb) :
    Silent (life.evaluate crc raw lcf.toLocConf visit).1 (life.evaluate crc raw lcf.toLocConf visit).2.1 ↔
      life.Clear raw (.read lcf visit) :=
  ((reaches.unexposed alive).evaluated lcf visit).1

/-- There is no room for the snapshot of the request. -/
def shortVisit : Visit (plain Nat) := { plainVisit with room := { Room.full with snapshot := false } }

/-- A read that runs short outside the nonce check is a clear step. -/
theorem shortVisit_clear (raw : RawRequest) (life : Life) : life.Clear raw (.read knowingLocation shortVisit) := by
  intro sig judges
  have snapshot := judges.snapshot
  cases snapshot

/-- The first evaluation had no room for its snapshot, and the request was redirected. -/
def shortLife : Life :=
  (init.move NonceStore.crc32Long Profile.agentRequest (.read knowingLocation shortVisit)).move NonceStore.crc32Long
    Profile.agentRequest (.redirect : Move (plain Nat))

/-- An evaluation that runs short shows nothing. -/
theorem internal_error_unexposed_iff_short :
    (shortLife.evaluate NonceStore.crc32Long Profile.agentRequest knowingLocation.toLocConf shortVisit).2.1.any
        RequestCtx.internalError = true ∧
      Silent
        (shortLife.evaluate NonceStore.crc32Long Profile.agentRequest knowingLocation.toLocConf shortVisit).1
        (shortLife.evaluate NonceStore.crc32Long Profile.agentRequest knowingLocation.toLocConf shortVisit).2.1 := by
  have reaches : Reaches NonceStore.crc32Long Profile.agentRequest
      (Clear Profile.agentRequest : Life → Move (plain Nat) → Prop) shortLife :=
    (Reaches.init.move (.read knowingLocation shortVisit) rfl (shortVisit_clear _ _)).move .redirect
      (show Life.destroyed _ = false by decide +kernel) trivial
  exact ⟨by decide +kernel, (internal_error_unexposed_iff reaches (by decide +kernel) knowingLocation shortVisit).mpr
    (shortVisit_clear _ _)⟩

/-- This location keeps nonces in the zone. -/
def storingLocation : Location := { knowingLocation with nonceStore := .shm }

/-- There is no room for the key of the nonce. -/
def keylessVisit : Visit (plain Nat) := { plainVisit with room := { Room.full with nonceKey := false } }

/-- A verified request whose nonce was not checked is shown as verified. -/
theorem internal_error_exposed :
    ¬ ∀ (crc : Bytes → UInt32) (raw : RawRequest) (life : Life),
      Reaches crc raw (fun _ (_ : Move (plain Nat)) => True) life → life.destroyed = false →
        ∀ (lcf : Location) (visit : Visit (plain Nat)), Silent (life.evaluate crc raw lcf.toLocConf visit).1
          (life.evaluate crc raw lcf.toLocConf visit).2.1 := by
  intro silent
  let out := init.evaluate NonceStore.crc32Long (agentNonceRequest (ascii "s=\"https://b.test\""))
    storingLocation.toLocConf keylessVisit
  have exposed : out.2.1.any RequestCtx.internalError = true ∧ variableVerified out.1 out.2.1 = some (ascii "1") := by
    decide +kernel
  obtain ⟨ctx, present, failed⟩ := (Option.any_eq_true _ _).mp exposed.1
  have hidden := (silent NonceStore.crc32Long _ init .init rfl storingLocation keylessVisit ctx present failed).2.1
  rw [show variableVerified _ _ = some (ascii "1") from exposed.2] at hidden
  cases hidden

end Life

end AuthHttpsig.Module
