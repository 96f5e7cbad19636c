/-
This file shows what a request is like before its evaluation: it has no internal error, its keys are missing only
without a document, and its nonce verdict is not about keys.
-/

import AuthHttpsig.Proof.Evaluation
import AuthHttpsig.Proof.LocationDecision

namespace AuthHttpsig.Module

open SearchTree

/-- The keys are reported missing only at the end of a fetch that left no document. -/
def Context.Lost (ctx : Context) : Prop := ctx.keysUnavailable = true → ctx.directoryDone = true ∧ ctx.jwks = []

section Handlers

variable {surroundings : Surroundings} {ctx : Context}

theorem Context.lost_of_available (available : ctx.keysUnavailable = false) : ctx.Lost := by
  intro unavailable
  rw [available] at unavailable
  cases unavailable

/-- Noting a failure reports the keys missing only without a document. -/
theorem noteFailure_lost (available : ctx.keysUnavailable = false) (reason : FetchReason) {after : Context}
    (unavailable : after.keysUnavailable = (ctx.noteFailure reason).keysUnavailable) (jwks : after.jwks = ctx.jwks)
    (finished : after.directoryDone = true) : after.Lost := by
  intro lost
  rw [unavailable, Context.noteFailure, available, Bool.false_or, beq_iff_eq] at lost
  exact ⟨finished, by rw [jwks]; exact List.eq_nil_of_length_eq_zero lost⟩

/-- Failing open reports the keys missing only without a document. -/
theorem directoryFailOpen_lost (available : ctx.keysUnavailable = false) (reason : FetchReason) :
    (directoryFailOpen ctx reason).2.Lost :=
  noteFailure_lost available reason rfl rfl rfl

theorem directoryDecline_lost (available : ctx.keysUnavailable = false) : (directoryDecline ctx).2.Lost :=
  Context.lost_of_available available

/-- The fetch reports the keys missing only at its end without a document. -/
theorem directoryFetch_lost (conf : DirectoryConf) (available : ctx.keysUnavailable = false) :
    ((directoryFetch conf ctx).run surroundings).2.Lost := by
  have released (reason : FetchReason) :
      (directoryFailOpen { { ctx with claimed := true } with claimed := false } reason).2.Lost :=
    directoryFailOpen_lost available reason
  simp only [directoryFetch, Prog.ask_bind, Prog.run_call]
  split
  · exact released .failed
  rw [Prog.run_call]
  split
  · exact released .failed
  rw [Prog.run_call]
  split
  · exact released .failed
  · exact Context.lost_of_available available

/-- The hit branch reports the keys missing only without a document. -/
theorem directoryHit_lost (lcf : Location) (keyid : Bytes) (available : ctx.keysUnavailable = false) :
    ((directoryHit lcf keyid ctx).run surroundings).2.Lost := by
  unfold directoryHit
  split
  · exact directoryDecline_lost available
  rw [Prog.run_bind]
  split
  · exact directoryDecline_lost available
  simp only [Prog.ask_bind, Prog.run_call]
  split
  · exact directoryFetch_lost lcf.directory available
  · exact directoryDecline_lost available

/-- Whatever the cache answers, the keys are reported missing only without a document. -/
theorem directoryAnswered_lost (lcf : Location) (keyid : Bytes) (answer : Cache.Answer)
    (available : ctx.keysUnavailable = false) :
    ((directoryAnswered lcf keyid answer ctx).run surroundings).2.Lost := by
  rcases answer with ⟨status, jwks, generation⟩
  have available' : ({ ctx with jwks := jwks } : Context).keysUnavailable = false := available
  rcases status with _ | status
  · exact directoryFailOpen_lost available .failed
  cases status with
  | hit => exact directoryHit_lost lcf keyid available'
  | claimed => exact directoryFetch_lost lcf.directory available
  | busy =>
      simp only [directoryAnswered]
      split
      · exact directoryDecline_lost available'
      · exact directoryFailOpen_lost available .busy
  | negative => exact directoryFailOpen_lost available .unavailable
  | unavailable => exact directoryFailOpen_lost available .unavailable

/-- A first run of the handler reports the keys missing only without a document. -/
theorem directoryStart_lost (lcf : Location) (headers : List RawHeader) (available : ctx.keysUnavailable = false) :
    ((directoryStart lcf headers ctx).run surroundings).2.Lost := by
  have agent (sigAgent : List Bytes) (label keyid : Bytes) :
      ((directoryAgent lcf sigAgent label keyid ctx).run surroundings).2.Lost := by
    simp only [directoryAgent, Prog.ask_bind, Prog.run_call]
    split
    · exact directoryFailOpen_lost available .notAllowed
    split
    · exact directoryFailOpen_lost available .notAllowed
    · simp only [directoryLookup, Prog.ask_bind, Prog.run_call]
      exact directoryAnswered_lost lcf keyid _ available
  simp only [directoryStart, Prog.ask_bind, Prog.run_call]
  split
  · exact Context.lost_of_available available
  rw [Prog.run_call]
  split
  · exact Context.lost_of_available available
  split
  · exact directoryDecline_lost available
  rw [Prog.run_call]
  split
  · exact Context.lost_of_available available
  split
  · exact directoryDecline_lost available
  · exact agent _ _ _

/-- The directory handler reports missing keys only where it leaves no document. -/
theorem directoryHandler_lost (surroundings : Surroundings) (lcf : Location) (headers : List RawHeader)
    {before : Option Context} (lost : ∀ ctx ∈ before, ctx.done = false → ctx.Lost) :
    ∀ ctx ∈ ((directoryHandler lcf headers before).run surroundings).2, ctx.done = false → ctx.Lost := by
  unfold directoryHandler
  split
  · exact lost
  cases before with
  | none =>
      simp only [Prog.ask_bind, Prog.run_call]
      split
      · rintro ctx ⟨⟩
      · rw [Prog.run_bind]
        rintro ctx ⟨⟩ _
        exact directoryStart_lost lcf headers rfl
  | some ctx =>
      dsimp only
      split
      · exact lost
      rename_i unfinished
      split
      · exact lost
      split
      · rename_i done
        rintro after ⟨⟩ undone
        exact absurd done (by simpa using undone)
      · rename_i undone
        have available : ctx.keysUnavailable = false := by
          by_contra unavailable
          exact unfinished (lost ctx rfl (by simpa using undone) (by simpa using unavailable)).1
        rw [Prog.run_bind]
        rintro after ⟨⟩ _
        exact directoryStart_lost lcf headers available

/-- The completion of a fetch reports the keys missing only without a document. -/
theorem directoryDone_lost (conf : DirectoryConf) (response : Directory.Response)
    (available : ctx.keysUnavailable = false) : ((directoryDone conf response ctx).run surroundings).Lost := by
  have released (reason : FetchReason) (now : Int) :
      ((directoryRelease conf ctx reason now).run surroundings).Lost :=
    noteFailure_lost available reason rfl rfl rfl
  unfold directoryDone
  split
  · rw [Prog.run_bind]
    simp only [Prog.ask_bind, Prog.run_call]
    split
    · exact released _ _
    simp only [directoryAccept, Prog.ask_bind, Prog.run_call]
    split
    · exact released _ _
    rw [Prog.run_call]
    split
    · exact released _ _
    · exact Context.lost_of_available available
  · exact released .failed (surroundings .time)

end Handlers

variable {rb : Balanced Nat}

/-- These results are about the keys. -/
def keyResults : List Result := [.keyUnavailable, .unknownKeyid]

/-- No verdict on a nonce is a result about keys. -/
theorem verdictOf_keyless (lcf : LocConf) (rc : NonceStore.Rc) : (verdictOf lcf rc).result ∉ keyResults := by
  cases rc with
  | abort =>
      simp only [verdictOf]
      split <;> decide
  | _ => simp [verdictOf, keyResults]

/-- A nonce check gives no result about the keys. -/
theorem NonceChecked.no_key_result {room : Room} {crc : Bytes → UInt32} {lcf : LocConf} {env : Env}
    {memo : Option Verdict} {sig : Profile.Signature} {store : NonceStore.Store rb}
    {out : Verdict × Option Verdict × NonceStore.Store rb}
    (checked : NonceChecked room crc lcf env memo sig store out)
    (known : ∀ verdict ∈ memo, verdict.result ∉ keyResults) :
    out.1.result ∉ keyResults ∧ ∀ verdict ∈ out.2.1, verdict.result ∉ keyResults := by
  cases checked with
  | off => exact ⟨by simp [keyResults], known⟩
  | absent =>
      refine ⟨?_, known⟩
      dsimp only
      split <;> decide
  | known _ _ found => exact ⟨known _ found, known⟩
  | unmarked => exact ⟨by simp [keyResults, failedVerdict], by simp⟩
  | tooLong => exact ⟨by simp [keyResults], by simp [keyResults]⟩
  | keyless => exact ⟨by simp [keyResults, failedVerdict], by simp [keyResults, failedVerdict]⟩
  | consulted => exact ⟨verdictOf_keyless lcf _, by rintro _ ⟨⟩; exact verdictOf_keyless lcf _⟩

/-- Contexts of one outcome are done and failed alike. -/
theorem RequestCtx.kept_of_outcome {before after : RequestCtx} (same : after.outcome = before.outcome) :
    after.done = before.done ∧ after.internalError = before.internalError := by
  have done := congrArg RequestCtx.done same
  have internal := congrArg RequestCtx.internalError same
  exact ⟨done, internal⟩

namespace Life

variable {crc : Bytes → UInt32} {raw : RawRequest} {life : Life}

/-- Before its evaluation a request has no internal error, and its keys are missing only without a document. -/
structure Regular (life : Life) : Prop where
  sound : ∀ ctx ∈ life.ctx, ctx.done = false → ctx.internalError = false
  lost : ∀ ctx ∈ life.ctx, ctx.done = false → ctx.Lost
  keyless : ∀ verdict ∈ life.verdict, verdict.result ∉ keyResults

/-- A run of the handler keeps a life regular. -/
theorem Regular.handle (regular : life.Regular) (lcf : Location) (surroundings : Surroundings) :
    (life.handle raw lcf surroundings).2.Regular := by
  have current : (life.handle raw lcf surroundings).2.ctx =
      ((directoryHandler lcf raw.headers life.ctx).run surroundings).2.or life.ctx := put_ctx_or ..
  have same := directoryHandler_outcome surroundings lcf raw.headers life.ctx
  have lost := directoryHandler_lost surroundings lcf raw.headers regular.lost
  have verdict : (life.handle raw lcf surroundings).2.verdict = life.verdict := put_verdict ..
  refine ⟨?_, ?_, by rw [verdict]; exact regular.keyless⟩
  · rw [current]
    intro ctx present undone
    cases out : ((directoryHandler lcf raw.headers life.ctx).run surroundings).2 with
    | none =>
        rw [out, Option.none_or] at present
        exact regular.sound ctx present undone
    | some after =>
        rw [out, Option.some_or, Option.mem_some] at present
        subst present
        rw [out, Option.getD_some] at same
        obtain ⟨done, internal⟩ := RequestCtx.kept_of_outcome same
        rw [internal]
        cases before : life.ctx with
        | none => rfl
        | some ctx =>
            rw [before] at done
            exact regular.sound ctx before (done.symm.trans undone)
  · rw [current]
    intro ctx present
    rcases Option.or_eq_some_iff.mp present with found | ⟨_, kept⟩
    · exact lost ctx found
    · exact regular.lost ctx kept

/-- An evaluation keeps a life regular. -/
theorem Regular.evaluate (regular : life.Regular) (lcf : Location) (visit : Visit rb) :
    (life.evaluate crc raw lcf.toLocConf visit).2.2.Regular := by
  have ended := evaluateIn_ended visit.room crc lcf.toLocConf visit.env (visit.request raw) life.state visit.store
  have written := evaluateIn_written visit.room crc lcf.toLocConf visit.env (visit.request raw) life.state visit.store
  unfold Life.evaluate
  generalize evaluateIn visit.room crc lcf.toLocConf visit.env (visit.request raw) life.state visit.store = out
    at ended written
  have keyless : ∀ verdict ∈ out.2.2.1.verdict, verdict.result ∉ keyResults := by
    rcases ended.unjudged_or with ⟨_, same, _⟩ | ⟨sig, verdict, memo, store, _, _, checked, rfl⟩
    · rw [same]
      exact regular.keyless
    · have outcome := checkNonceIn_checked visit.room crc lcf.toLocConf visit.env life.state.verdict sig visit.store
      rw [checked] at outcome
      exact (outcome.no_key_result regular.keyless).2
  have unwritten : ∀ ctx ∈ (life.put (out.2.2.1.ctx.map (life.ctx.getD Context.zero).withEvaluated) []).ctx,
      ctx.done = false → ctx ∈ life.ctx := by
    intro ctx present undone
    rw [put_ctx_or] at present
    rcases written with ⟨_, same⟩ | ⟨after, _, _, wrote, done⟩
    · rw [same] at present
      unfold Life.state at present
      cases before : life.ctx with
      | none => simp [before] at present
      | some old =>
          rw [before] at present
          exact present
    · rw [wrote, Option.map_some, Option.some_or, Option.mem_some] at present
      subst present
      exact absurd done (by rw [← Bool.not_eq_true] at undone; exact undone)
  exact ⟨fun ctx present undone => regular.sound ctx (unwritten ctx present undone) undone,
    fun ctx present undone => regular.lost ctx (unwritten ctx present undone) undone, keyless⟩

/-- The completion of a waiting fetch keeps a life regular. -/
theorem Regular.finish (regular : life.Regular) {index : Option Nat}
    (waiting : ∀ slot ∈ life.slotAt index, slot.ctx.directoryDone = false) (conf : DirectoryConf)
    (response : Directory.Response) (surroundings : Surroundings) :
    (life.finish index fun slot => slot.finish conf response surroundings).Regular := by
  cases index with
  | some index => exact ⟨regular.sound, regular.lost, regular.keyless⟩
  | none =>
      have current : ∀ ctx ∈ (life.finish none fun slot => slot.finish conf response surroundings).ctx,
          ∃ before ∈ life.ctx, before.directoryDone = false ∧
            ctx = (directoryDone conf response before).run surroundings := by
        intro ctx present
        obtain ⟨_, found, rfl⟩ := Option.map_eq_some_iff.mp present
        obtain ⟨slot, stood, rfl⟩ := Option.map_eq_some_iff.mp found
        exact ⟨slot.ctx, Option.map_eq_some_iff.mpr ⟨slot, stood, rfl⟩, waiting slot stood, rfl⟩
      refine ⟨?_, ?_, regular.keyless⟩
      · intro ctx present undone
        obtain ⟨before, stood, _, rfl⟩ := current ctx present
        obtain ⟨done, internal⟩ := RequestCtx.kept_of_outcome (directoryDone_outcome conf response before)
        exact internal.trans (regular.sound before stood (done.symm.trans undone))
      · intro ctx present undone
        obtain ⟨before, stood, unfinished, rfl⟩ := current ctx present
        obtain ⟨done, _⟩ := RequestCtx.kept_of_outcome (directoryDone_outcome conf response before)
        apply directoryDone_lost
        by_contra unavailable
        have finished := (regular.lost before stood (done.symm.trans undone) (by simpa using unavailable)).1
        rw [unfinished] at finished
        cases finished

/-- Every life of a request is regular until its pool ends. -/
theorem Reaches.regular {condition : Life → Move rb → Prop} (reaches : Reaches crc raw condition life)
    (alive : life.destroyed = false) : life.Regular := by
  induction reaches with
  | init => exact ⟨by simp [Life.init, Life.ctx], by simp [Life.init, Life.ctx], by simp [Life.init]⟩
  | @move life next before permitted met ih =>
      cases next with
      | handle lcf surroundings => exact (ih permitted).handle lcf surroundings
      | read lcf visit => exact (ih permitted).evaluate lcf visit
      | finish index conf response surroundings =>
          obtain ⟨alive, slot, found, outstanding⟩ := permitted
          apply (ih alive).finish
          intro other same
          obtain rfl := Option.mem_unique same found
          have phase := (phased_iff alive).mp before.phased other (slotAt_mem found)
          have claimed := phase.outstanding_iff.mp outstanding
          cases phase with
          | idle unclaimed => simp [unclaimed] at claimed
          | fetching _ waiting => exact waiting
          | settled unclaimed => simp [unclaimed] at claimed
      | redirect => exact ⟨by simp [Life.move, Life.ctx], by simp [Life.move, Life.ctx], (ih permitted).keyless⟩
      | destroy surroundings => cases alive

end Life

end AuthHttpsig.Module
