/-
This file shows which evaluation decides the access of a location: the first one since the last internal redirect,
under the configuration of the location that asked for it.
-/

import AuthHttpsig.Proof.ClaimBalance
import AuthHttpsig.Proof.Evaluation

namespace AuthHttpsig.Module

open SearchTree

/-- An evaluation writes these fields, and the directory writes the others. -/
def RequestCtx.outcome (ctx : RequestCtx) : RequestCtx :=
  { ctx with keysUnavailable := false, directoryReason := .ok, jwks := [] }

/-- The directory has written this context, and no evaluation has. -/
def RequestCtx.unevaluated (ctx : RequestCtx) : RequestCtx :=
  { RequestCtx.zero with
    keysUnavailable := ctx.keysUnavailable
    directoryReason := ctx.directoryReason
    jwks := ctx.jwks }

theorem RequestCtx.unevaluated_of_outcome {ctx : RequestCtx} (fresh : ctx.outcome = RequestCtx.zero) :
    ctx.unevaluated = ctx := by
  rcases ctx with ⟨done, unavailable, internalError, storeUnavailable, result, reason, keyid, agent, jwks⟩
  simp only [outcome, zero, RequestCtx.mk.injEq] at fresh
  obtain ⟨rfl, _, rfl, rfl, rfl, _, rfl, rfl, _⟩ := fresh
  rfl

/-- The access decision reads only what the evaluation wrote. -/
theorem accessOf_outcome (lcf : Location) {first second : RequestCtx} (same : first.outcome = second.outcome) :
    accessOf lcf first = accessOf lcf second := by
  have decides (ctx : RequestCtx) : accessOf lcf ctx = accessOf lcf ctx.outcome := rfl
  rw [decides first, same, ← decides second]

section Handlers

variable {surroundings : Surroundings}

/-- The fetch leaves the outcome of the evaluation. -/
theorem directoryFetch_outcome (conf : DirectoryConf) (ctx : Context) :
    ((directoryFetch conf ctx).run surroundings).2.outcome = ctx.outcome := by
  simp only [directoryFetch, Prog.ask_bind, Prog.run_call]
  split
  · rfl
  rw [Prog.run_call]
  split
  · rfl
  rw [Prog.run_call]
  split <;> rfl

/-- The hit branch leaves the outcome of the evaluation. -/
theorem directoryHit_outcome (lcf : Location) (keyid : Bytes) (ctx : Context) :
    ((directoryHit lcf keyid ctx).run surroundings).2.outcome = ctx.outcome := by
  unfold directoryHit
  split
  · rfl
  rw [Prog.run_bind]
  split
  · rfl
  simp only [Prog.ask_bind, Prog.run_call]
  split
  · exact directoryFetch_outcome lcf.directory ctx
  · rfl

/-- Whatever the cache answers, the outcome of the evaluation stays. -/
theorem directoryAnswered_outcome (lcf : Location) (keyid : Bytes) (answer : Cache.Answer) (ctx : Context) :
    ((directoryAnswered lcf keyid answer ctx).run surroundings).2.outcome = ctx.outcome := by
  rcases answer with ⟨status, jwks, generation⟩
  rcases status with _ | status
  · rfl
  cases status with
  | hit => exact directoryHit_outcome lcf keyid { ctx with jwks := jwks }
  | claimed => exact directoryFetch_outcome lcf.directory ctx
  | busy =>
      simp only [directoryAnswered]
      split <;> rfl
  | negative => rfl
  | unavailable => rfl

/-- A first run of the handler leaves the outcome of the evaluation. -/
theorem directoryStart_outcome (lcf : Location) (headers : List RawHeader) (ctx : Context) :
    ((directoryStart lcf headers ctx).run surroundings).2.outcome = ctx.outcome := by
  have agent (sigAgent : List Bytes) (label keyid : Bytes) :
      ((directoryAgent lcf sigAgent label keyid ctx).run surroundings).2.outcome = ctx.outcome := by
    simp only [directoryAgent, Prog.ask_bind, Prog.run_call]
    split
    · rfl
    split
    · rfl
    · simp only [directoryLookup, Prog.ask_bind, Prog.run_call]
      rw [directoryAnswered_outcome]
  simp only [directoryStart, Prog.ask_bind, Prog.run_call]
  split
  · rfl
  rw [Prog.run_call]
  split
  · rfl
  split
  · rfl
  rw [Prog.run_call]
  split
  · rfl
  split
  · rfl
  · exact agent _ _ _

/-- The directory handler leaves the outcome of the evaluation alone. -/
theorem directoryHandler_outcome (surroundings : Surroundings) (lcf : Location) (headers : List RawHeader)
    (before : Option Context) :
    (((directoryHandler lcf headers before).run surroundings).2.getD Context.zero).outcome =
      (before.getD Context.zero).outcome := by
  unfold directoryHandler
  split
  · rfl
  cases before with
  | none =>
      simp only [Prog.ask_bind, Prog.run_call]
      split
      · rfl
      · rw [Prog.run_bind]
        exact directoryStart_outcome lcf headers Context.zero
  | some ctx =>
      dsimp only
      split
      · rfl
      split
      · rfl
      split
      · rfl
      · rw [Prog.run_bind]
        exact directoryStart_outcome lcf headers ctx

/-- The completion of a fetch leaves the outcome of the evaluation. -/
theorem directoryDone_outcome (conf : DirectoryConf) (response : Directory.Response) (ctx : Context) :
    ((directoryDone conf response ctx).run surroundings).outcome = ctx.outcome := by
  unfold directoryDone
  split
  · rw [Prog.run_bind]
    simp only [Prog.ask_bind, Prog.run_call]
    split
    · rfl
    simp only [directoryAccept, Prog.ask_bind, Prog.run_call]
    split
    · rfl
    rw [Prog.run_call]
    split <;> rfl
  · rfl

end Handlers

variable {rb : Balanced Nat}

theorem noteVerdict_done (sig : Profile.Signature) (verdict : Verdict) (ctx : RequestCtx) :
    (noteVerdict sig verdict ctx).done = ctx.done := by
  unfold noteVerdict
  dsimp only
  split <;> rfl

/-- An evaluation that returns no context changes nothing, and another one writes the context that it returns. -/
theorem evaluateIn_written (room : Room) (crc : Bytes → UInt32) (lcf : LocConf) (env : Env) (req : Base.Request)
    (state : RequestState) (store : NonceStore.Store rb) :
    ((evaluateIn room crc lcf env req state store).2.1 = none ∧
        (evaluateIn room crc lcf env req state store).2.2.1 = state) ∨
      ∃ ctx, (evaluateIn room crc lcf env req state store).1 = .ok ∧
        (evaluateIn room crc lcf env req state store).2.1 = some ctx ∧
        (evaluateIn room crc lcf env req state store).2.2.1.ctx = some ctx ∧ ctx.done = true := by
  have ended := evaluateIn_ended room crc lcf env req state store
  generalize evaluateIn room crc lcf env req state store = out at ended ⊢
  cases ended with
  | disabled => exact .inl ⟨rfl, rfl⟩
  | noContext => exact .inl ⟨rfl, rfl⟩
  | again _ present done => exact .inr ⟨_, rfl, rfl, present, done⟩
  | unsigned => exact .inr ⟨_, rfl, rfl, rfl, rfl⟩
  | noSnapshot _ _ _ ends => exact .inr ⟨_, rfl, rfl, rfl, by rw [ends]; rfl⟩
  | failed _ _ ends => exact .inr ⟨_, rfl, rfl, rfl, by rw [ends, (keyedIn_fields room env state).1]⟩
  | declined _ _ ends => exact .inr ⟨_, rfl, rfl, rfl, by rw [ends, (keyedIn_fields room env state).1]⟩
  | verified _ _ _ ends =>
      exact .inr ⟨_, rfl, rfl, rfl, by rw [ends, noteVerdict_done, (keyedIn_fields room env state).1]⟩

/-- A remembered verdict stays remembered. -/
theorem checkNonceIn_verdict (room : Room) (crc : Bytes → UInt32) (lcf : LocConf) (env : Env) (verdict : Verdict)
    (sig : Profile.Signature) (now : Int) (store : NonceStore.Store rb) :
    (checkNonceIn room crc lcf env (some verdict) sig now store).2.1 = some verdict := by
  unfold checkNonceIn checkNonceOf
  split
  · rfl
  · split <;> rfl

/-- A verdict of the nonce store stays. -/
theorem evaluateIn_verdict (room : Room) (crc : Bytes → UInt32) (lcf : LocConf) (env : Env) (req : Base.Request)
    {state : RequestState} (store : NonceStore.Store rb) {verdict : Verdict} (known : state.verdict = some verdict) :
    (evaluateIn room crc lcf env req state store).2.2.1.verdict = some verdict := by
  have ended := evaluateIn_ended room crc lcf env req state store
  generalize evaluateIn room crc lcf env req state store = out at ended ⊢
  rcases ended.unjudged_or with ⟨_, kept, _⟩ | ⟨sig, answer, memo, after, _, _, checked, rfl⟩
  · rw [kept, known]
  · have noted := checkNonceIn_verdict room crc lcf env verdict sig env.now store
    rw [← known, checked] at noted
    exact noted.trans known

/-- A context that is done is not evaluated again. -/
theorem evaluateIn_done (room : Room) (crc : Bytes → UInt32) {lcf : LocConf} (env : Env) (req : Base.Request)
    {state : RequestState} (store : NonceStore.Store rb) (enabled : lcf.mode ≠ .off) {ctx : RequestCtx}
    (present : state.ctx = some ctx) (done : ctx.done = true) :
    evaluateIn room crc lcf env req state store = (.ok, some ctx, state, store) := by
  unfold evaluateIn evaluateOf
  rw [if_neg enabled, if_pos (by rw [present]; exact done), present]
  rfl

/-- The access handler consults an evaluation where the location enforces or requires a signature. -/
def Location.decide (lcf : Location) (evaluated : Rc × Option RequestCtx) : Access :=
  if lcf.mode ≠ .enforce ∧ lcf.require = false then .declined else accessDecision lcf evaluated.1 evaluated.2

namespace Life

/-- The request is evaluated under this location with the documents and the nonce verdict that it has, as if no
one had evaluated it before. -/
def freshEvaluation (crc : Bytes → UInt32) (raw : RawRequest) (life : Life) (lcf : LocConf) (visit : Visit rb) :
    Rc × Option RequestCtx :=
  let out := evaluateIn visit.room crc lcf visit.env (visit.request raw)
    ⟨life.ctx.map fun ctx => ctx.unevaluated, life.verdict⟩ visit.store
  (out.1, out.2.1)

/-- The move is no redirect and no first evaluation. -/
def Quiet (crc : Bytes → UInt32) (raw : RawRequest) (life : Life) (first : Option RequestCtx) : Move rb → Prop
  | .redirect => False
  | .read lcf visit => first.isSome = true ∨ (life.freshEvaluation crc raw lcf.toLocConf visit).2 = none
  | .handle .. | .finish .. | .destroy _ => True

/-- This is what the first evaluation since the last internal redirect wrote. -/
inductive First (rb : Balanced Nat) (crc : Bytes → UInt32) (raw : RawRequest) : Life → Option RequestCtx → Prop
  | init : First rb crc raw Life.init none
  | redirect {life : Life} {first : Option RequestCtx} (before : First rb crc raw life first)
      (permitted : life.Permitted (.redirect : Move rb)) :
        First rb crc raw (life.move crc raw (.redirect : Move rb)) none
  | evaluate {life : Life} {lcf : Location} {visit : Visit rb} {out : RequestCtx}
      (before : First rb crc raw life none) (permitted : life.Permitted (.read lcf visit))
      (evaluated : (life.freshEvaluation crc raw lcf.toLocConf visit).2 = some out) :
      First rb crc raw (life.move crc raw (.read lcf visit)) (some out)
  | later {life : Life} {first : Option RequestCtx} (next : Move rb) (before : First rb crc raw life first)
      (permitted : life.Permitted next) (quiet : life.Quiet crc raw first next) :
      First rb crc raw (life.move crc raw next) first

variable {crc : Bytes → UInt32} {raw : RawRequest} {life after : Life} {first : Option RequestCtx}

/-- Every life of a request has or has not been evaluated. -/
theorem Reaches.exists_first {condition : Life → Move rb → Prop} (reaches : Reaches crc raw condition life) :
    ∃ first, First rb crc raw life first := by
  induction reaches with
  | init => exact ⟨none, .init⟩
  | @move life next _ permitted _ ih =>
      obtain ⟨first, before⟩ := ih
      cases next with
      | redirect => exact ⟨none, .redirect before permitted⟩
      | read lcf visit =>
          cases first with
          | some out => exact ⟨some out, .later _ before permitted (.inl rfl)⟩
          | none =>
              cases evaluated : (life.freshEvaluation crc raw lcf.toLocConf visit).2 with
              | none => exact ⟨none, .later _ before permitted (.inr evaluated)⟩
              | some out => exact ⟨some out, .evaluate before permitted evaluated⟩
      | handle | finish | destroy => exact ⟨first, .later _ before permitted trivial⟩

/-- The context shows what the first evaluation wrote. -/
def Shows (life : Life) : Option RequestCtx → Prop
  | none => ∀ ctx ∈ life.ctx, ctx.outcome = RequestCtx.zero
  | some out => ∃ ctx, life.ctx = some ctx ∧ ctx.outcome = out.outcome ∧ ctx.done = true

/-- A step that leaves the outcome shows the same evaluation. -/
theorem Shows.keep (shows : life.Shows first)
    (same : (after.ctx.getD Context.zero).outcome = (life.ctx.getD Context.zero).outcome)
    (kept : life.ctx.isSome = true → after.ctx.isSome = true) : after.Shows first := by
  cases first with
  | none =>
      intro ctx present
      rw [Option.mem_def.mp present, Option.getD_some] at same
      rw [same]
      cases earlier : life.ctx with
      | none => rfl
      | some before => exact shows before earlier
  | some out =>
      obtain ⟨before, earlier, written, done⟩ := shows
      obtain ⟨ctx, present⟩ := Option.isSome_iff_exists.mp (kept (by rw [earlier]; rfl))
      rw [present, earlier, Option.getD_some, Option.getD_some] at same
      have marked : ctx.outcome.done = before.outcome.done := congrArg RequestCtx.done same
      exact ⟨ctx, present, same.trans written, marked.trans done⟩

/-- An evaluation of a context that was not evaluated is a fresh one. -/
theorem Shows.fresh (shows : life.Shows none) (lcf : LocConf) (visit : Visit rb) :
    life.freshEvaluation crc raw lcf visit =
      ((life.evaluate crc raw lcf visit).1, (life.evaluate crc raw lcf visit).2.1) := by
  have same : (life.ctx.map fun ctx => ctx.unevaluated) = life.ctx.map Context.toRequestCtx := by
    cases earlier : life.ctx with
    | none => rfl
    | some ctx => exact congrArg some (RequestCtx.unevaluated_of_outcome (shows ctx earlier))
  unfold freshEvaluation evaluate state
  rw [same]

/-- The evaluation writes its context into the request, or it leaves the request as it was. -/
theorem evaluate_written (crc : Bytes → UInt32) (raw : RawRequest) (life : Life) (lcf : LocConf)
    (visit : Visit rb) :
    ((life.evaluate crc raw lcf visit).2.1 = none ∧ (life.evaluate crc raw lcf visit).2.2 = life) ∨
      ∃ out, (life.evaluate crc raw lcf visit).1 = .ok ∧ (life.evaluate crc raw lcf visit).2.1 = some out ∧
        (life.evaluate crc raw lcf visit).2.2.ctx = some ((life.ctx.getD Context.zero).withEvaluated out) ∧
        out.done = true := by
  have kept : life.state.ctx.map (life.ctx.getD Context.zero).withEvaluated = life.ctx := by
    unfold state
    cases life.ctx <;> rfl
  rcases evaluateIn_written visit.room crc lcf visit.env (visit.request raw) life.state visit.store with
    ⟨nothing, same⟩ | ⟨out, returned, found, written, done⟩
  · refine .inl ⟨nothing, ?_⟩
    unfold evaluate
    dsimp only
    rw [same, kept, put_ctx]
    rfl
  · refine .inr ⟨out, returned, found, ?_, done⟩
    unfold evaluate
    dsimp only
    rw [written]
    exact put_ctx_or ..

/-- A second evaluation returns what the first one wrote. -/
theorem evaluate_again {lcf : LocConf} (visit : Visit rb) (enabled : lcf.mode ≠ .off) {ctx : Context}
    (present : life.ctx = some ctx) (done : ctx.done = true) :
    (life.evaluate crc raw lcf visit).1 = .ok ∧ (life.evaluate crc raw lcf visit).2.1 = some ctx.toRequestCtx := by
  have stated : life.state.ctx = some ctx.toRequestCtx := by
    unfold state
    rw [present]
    rfl
  unfold evaluate
  rw [evaluateIn_done visit.room crc visit.env (visit.request raw) visit.store enabled stated done]
  exact ⟨rfl, rfl⟩

/-- A read that starts no other evaluation shows the first one. -/
theorem Shows.read {lcf : LocConf} {visit : Visit rb} (shows : life.Shows first)
    (quiet : first.isSome = true ∨ (life.freshEvaluation crc raw lcf visit).2 = none) :
    (life.evaluate crc raw lcf visit).2.2.Shows first := by
  rcases evaluate_written crc raw life lcf visit with ⟨_, same⟩ | ⟨out, _, found, written, _⟩
  · rw [same]
    exact shows
  cases first with
  | none =>
      have nothing := quiet.resolve_left (by simp)
      rw [shows.fresh lcf visit, found] at nothing
      cases nothing
  | some earlier =>
      obtain ⟨ctx, present, _, done⟩ := id shows
      have enabled : lcf.mode ≠ .off := by
        intro off
        simp [evaluate, evaluateIn, evaluateOf, off] at found
      rw [(evaluate_again visit enabled present done).2] at found
      cases found
      apply shows.keep
      · rw [written, present]
        rfl
      · intro _
        rw [written]
        rfl

/-- A run of the handler shows the same evaluation. -/
theorem Shows.handle (shows : life.Shows first) (lcf : Location) (surroundings : Surroundings) :
    (life.handle raw lcf surroundings).2.Shows first := by
  have current : (life.handle raw lcf surroundings).2.ctx =
      ((directoryHandler lcf raw.headers life.ctx).run surroundings).2.or life.ctx := put_ctx_or ..
  have same := directoryHandler_outcome surroundings lcf raw.headers life.ctx
  apply shows.keep
  · rw [current]
    cases out : ((directoryHandler lcf raw.headers life.ctx).run surroundings).2 with
    | none => rfl
    | some ctx => rwa [out] at same
  · intro present
    rw [current, Option.isSome_or, present, Bool.or_true]

/-- The completion of a fetch shows the same evaluation. -/
theorem Shows.finish (shows : life.Shows first) (index : Option Nat) (conf : DirectoryConf)
    (response : Directory.Response) (surroundings : Surroundings) :
    (life.finish index fun slot => slot.finish conf response surroundings).Shows first := by
  cases index with
  | some index => exact shows
  | none =>
      have current : (life.finish none fun slot => slot.finish conf response surroundings).ctx =
          life.ctx.map fun ctx => (directoryDone conf response ctx).run surroundings := by
        simp only [Life.finish, Life.ctx, Option.map_map]
        rfl
      apply shows.keep
      · rw [current]
        cases life.ctx with
        | none => rfl
        | some ctx => exact directoryDone_outcome conf response ctx
      · rw [current, Option.isSome_map]
        exact id

/-- In every life, the context shows what the first evaluation wrote. -/
theorem First.shows (labelled : First rb crc raw life first) (alive : life.destroyed = false) : life.Shows first := by
  induction labelled with
  | init =>
      intro ctx absent
      cases absent
  | redirect _ _ _ =>
      intro ctx absent
      cases absent
  | @evaluate life lcf visit out before permitted evaluated ih =>
      have shows := ih permitted
      rw [shows.fresh] at evaluated
      rcases evaluate_written crc raw life lcf.toLocConf visit with ⟨nothing, _⟩ | ⟨other, _, found, written, done⟩
      · rw [nothing] at evaluated
        cases evaluated
      · rw [found] at evaluated
        cases evaluated
        exact ⟨_, written, rfl, done⟩
  | @later life first next before permitted quiet ih =>
      cases next with
      | handle lcf surroundings => exact (ih permitted).handle lcf surroundings
      | read lcf visit => exact (ih permitted).read quiet
      | finish index conf response surroundings => exact (ih permitted.1).finish index conf response surroundings
      | redirect => exact quiet.elim
      | destroy surroundings => cases alive

/-- A nonce verdict of the request stays for all its later evaluations. -/
theorem move_verdict {verdict : Verdict} (known : life.verdict = some verdict) (next : Move rb) :
    (life.move crc raw next).verdict = some verdict := by
  cases next with
  | handle lcf surroundings => exact (put_verdict ..).trans known
  | read lcf visit => exact evaluateIn_verdict visit.room crc lcf.toLocConf visit.env _ visit.store known
  | finish index => cases index <;> exact known
  | redirect => exact known
  | destroy surroundings => exact known

/-- A location decides by the first evaluation since the last internal redirect, and by an evaluation of its own
when there was none. -/
theorem decision_of_first_evaluation {condition : Life → Move rb → Prop} (reaches : Reaches crc raw condition life)
    (alive : life.destroyed = false) :
    (∃ first, First rb crc raw life first) ∧
      (∀ first, First rb crc raw life first → ∀ (lcf : Location) (visit : Visit rb),
        (lcf.mode = .off → lcf.require = false) →
        (life.access crc raw lcf visit).1 = lcf.decide
          (match first with
            | none => life.freshEvaluation crc raw lcf.toLocConf visit
            | some out => (.ok, some out))) ∧
      ∀ verdict, life.verdict = some verdict → ∀ next : Move rb, (life.move crc raw next).verdict = some verdict := by
  refine ⟨reaches.exists_first, ?_, fun verdict known => move_verdict known⟩
  intro first labelled lcf visit accepted
  have shows := labelled.shows alive
  unfold access Location.decide
  split
  · rfl
  rename_i consults
  cases first with
  | none => rw [shows.fresh]
  | some out =>
      obtain ⟨ctx, present, written, done⟩ := shows
      have enabled : lcf.mode ≠ .off := by
        intro off
        exact consults ⟨by rw [off]; decide, accepted off⟩
      obtain ⟨returned, found⟩ := evaluate_again visit enabled present done
      dsimp only
      rw [returned, found]
      exact accessOf_outcome lcf written

/-- A server-level location knows the key of the agent. -/
def knowingLocation : Location := { agentLocation with jwksKeys := Profile.agentCtx.keys }

def plainVisit : Visit (plain Nat) where
  room := Room.full
  scheme := ascii "https"
  env := ⟨1100, fun _ => none, KeyTree.Slab.exhausted NonceStore.Node, fun _ _ => .abort⟩
  store := NonceStore.Store.initZone (plain Nat)

/-- A variable was read under the first location. -/
def readLife : Life :=
  init.move NonceStore.crc32Long Profile.agentRequest (.read knowingLocation plainVisit)

/-- What the life of the counterexample shows after its read. -/
theorem readLife_facts :
    readLife.destroyed = false ∧
      (init.freshEvaluation NonceStore.crc32Long Profile.agentRequest knowingLocation.toLocConf plainVisit).2.isSome =
        true ∧
      (readLife.access NonceStore.crc32Long Profile.agentRequest agentLocation plainVisit).1 = .ok ∧
      agentLocation.decide (readLife.freshEvaluation NonceStore.crc32Long Profile.agentRequest
        agentLocation.toLocConf plainVisit) = .status 403 := by
  decide +kernel

/-- One read reaches the life of the counterexample. -/
theorem readLife_reaches :
    Reaches NonceStore.crc32Long Profile.agentRequest (fun _ (_ : Move (plain Nat)) => True) readLife :=
  Reaches.init.move (.read knowingLocation plainVisit) rfl trivial

/-- The second location decides by what the first one evaluated. -/
theorem decision_of_first_evaluation_read :
    ∃ out, First (plain Nat) NonceStore.crc32Long Profile.agentRequest readLife (some out) ∧
      (readLife.access NonceStore.crc32Long Profile.agentRequest agentLocation plainVisit).1 =
        agentLocation.decide (.ok, some out) := by
  obtain ⟨alive, returned, _⟩ := readLife_facts
  obtain ⟨out, evaluated⟩ := Option.isSome_iff_exists.mp returned
  have labelled : First (plain Nat) NonceStore.crc32Long Profile.agentRequest readLife (some out) :=
    First.evaluate .init rfl evaluated
  exact ⟨out, labelled, (decision_of_first_evaluation readLife_reaches alive).2.1 (some out) labelled agentLocation
    plainVisit (by decide)⟩

/-- A read under another location changes the decision of a location. -/
theorem decision_of_other_location :
    ¬ ∀ (crc : Bytes → UInt32) (raw : RawRequest) (life : Life) (lcf : Location) (visit : Visit (plain Nat)),
      Reaches crc raw (fun _ (_ : Move (plain Nat)) => True) life → life.destroyed = false → lcf.mode = .enforce →
      (life.access crc raw lcf visit).1 = lcf.decide (life.freshEvaluation crc raw lcf.toLocConf visit) := by
  intro own
  obtain ⟨alive, _, passes, denies⟩ := readLife_facts
  have same := own _ _ _ agentLocation plainVisit readLife_reaches alive rfl
  rw [passes, denies] at same
  cases same

end Life

end AuthHttpsig.Module
