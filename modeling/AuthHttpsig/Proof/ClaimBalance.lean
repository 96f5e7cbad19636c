/-
This file shows that each fetch claim of a request is completed exactly once, in every order of the events
of its life.
-/

import AuthHttpsig.Construction.Life
import AuthHttpsig.Proof.LabelAgreement

namespace AuthHttpsig.Module

open SearchTree

/-- A note of the cache calls of a request: it obtains a claim, or it stores or releases. -/
inductive Note where
  | claim (host : Bytes)
  | complete (host : Bytes)
  deriving DecidableEq, Repr

/-- A lookup that answers `CLAIMED` and a successful rotation claim obtain a claim. -/
def Call.note : Call → Option Note
  | ⟨.lookup host _, answer⟩ => if answer.status = some .claimed then some (.claim host) else none
  | ⟨.claimRotationRefetch host _ _, success⟩ => if success then some (.claim host) else none
  | ⟨.store host _ _ _, _⟩ => some (.complete host)
  | ⟨.release host _, _⟩ => some (.complete host)
  | _ => none

def notes (calls : List Call) : List Note := calls.filterMap Call.note

/-- Claims and completions alternate on equal hosts, and this host is left claimed. -/
inductive Alternates : List Note → Option Bytes → Prop
  | nil : Alternates [] none
  | claim {earlier : List Note} (host : Bytes) (alternates : Alternates earlier none) :
      Alternates (earlier ++ [.claim host]) (some host)
  | complete {earlier : List Note} {host : Bytes} (alternates : Alternates earlier (some host)) :
      Alternates (earlier ++ [.complete host]) none

/-- The calls of one handler run that matter for its claim. -/
structure Tally where
  notes : List Note
  cleanups : List Cleanup
  created : Nat
  deriving DecidableEq

def tally (calls : List Call) : Tally where
  notes := notes calls
  cleanups := calls.filterMap Call.cleanup
  created := calls.countP Call.creates

def Tally.zero : Tally := ⟨[], [], 0⟩

def Tally.add (first second : Tally) : Tally where
  notes := first.notes ++ second.notes
  cleanups := first.cleanups ++ second.cleanups
  created := first.created + second.created

@[simp] theorem tally_nil : tally [] = Tally.zero := rfl

/-- The tally of two call lists in a row is the sum of their tallies. -/
theorem tally_append (first second : List Call) : tally (first ++ second) = (tally first).add (tally second) := by
  simp only [tally, notes, Tally.add, List.filterMap_append, List.countP_append]

@[simp] theorem Tally.zero_add (sum : Tally) : Tally.zero.add sum = sum := by
  simp [Tally.zero, Tally.add]

@[simp] theorem Tally.add_zero (sum : Tally) : sum.add Tally.zero = sum := by
  simp [Tally.zero, Tally.add]

/-- These calls neither claim nor complete nor create anything. -/
def Op.quiet : Op → Bool
  | .room _ | .agentRoom | .time | .resolveKeys .. | .loadJwks _ => true
  | _ => false

/-- A quiet call leaves no mark in the tally. -/
theorem tally_quiet {op : Op} (quiet : op.quiet = true) (answer : Answer op) (rest : List Call) :
    tally (⟨op, answer⟩ :: rest) = tally rest := by
  cases op <;> first | rfl | cases quiet

theorem tally_cons (call : Call) (rest : List Call) : tally (call :: rest) = (tally [call]).add (tally rest) :=
  tally_append [call] rest

/-- A lookup counts as a claim exactly when it answers that the fetch right was claimed. -/
theorem tally_lookup (host : Bytes) (now : Int) (answer : Cache.Answer) (rest : List Call) :
    tally (⟨.lookup host now, answer⟩ :: rest) =
      (Tally.mk (if answer.status = some .claimed then [.claim host] else []) [] 0).add (tally rest) := by
  rw [tally_cons]
  congr 1
  by_cases claimed : answer.status = some .claimed
  · have noted : Call.note ⟨.lookup host now, answer⟩ = some (.claim host) := if_pos claimed
    simp only [tally, notes, List.filterMap_cons, noted, claimed, if_true]
    rfl
  · have noted : Call.note ⟨.lookup host now, answer⟩ = none := if_neg claimed
    simp only [tally, notes, List.filterMap_cons, noted, claimed, if_false]
    rfl

/-- A rotation call counts as a claim exactly when it succeeds. -/
theorem tally_rotate (host : Bytes) (now retryTtl : Int) (success : Bool) (rest : List Call) :
    tally (⟨.claimRotationRefetch host now retryTtl, success⟩ :: rest) =
      (Tally.mk (if success then [.claim host] else []) [] 0).add (tally rest) := by
  rw [tally_cons]
  cases success <;> rfl

/-- A release counts as a completion of the host it names. -/
theorem tally_release (host : Bytes) (retryAt : Int) (answer : Unit) (rest : List Call) :
    tally (⟨.release host retryAt, answer⟩ :: rest) = (Tally.mk [.complete host] [] 0).add (tally rest) :=
  tally_cons _ rest

/-- A registered cleanup is tallied, a refused one is not. -/
theorem tally_addCleanup (cleanup : Cleanup) (success : Bool) (rest : List Call) :
    tally (⟨.addCleanup cleanup, success⟩ :: rest) =
      (Tally.mk [] (if success then [cleanup] else []) 0).add (tally rest) := by
  rw [tally_cons]
  cases success <;> rfl

/-- An issued subrequest is counted, a refused one is not. -/
theorem tally_subrequest (uri : Bytes) (success : Bool) (rest : List Call) :
    tally (⟨.subrequest uri, success⟩ :: rest) = (Tally.mk [] [] (if success then 1 else 0)).add (tally rest) := by
  rw [tally_cons]
  cases success <;> rfl

theorem Tally.add_assoc (first second third : Tally) :
    (first.add second).add third = first.add (second.add third) := by
  simp [Tally.add, Nat.add_assoc]

/-- Everything that a run of the directory handler can do with the claim of an idle context. -/
inductive Handled : Tally → PhaseRc × Context → Prop
  | idle {rc : PhaseRc} {ctx : Context} (unclaimed : ctx.claimed = false) (answered : rc ≠ .again) :
      Handled Tally.zero (rc, ctx)
  | released {ctx : Context} {host : Bytes} {cleanups : List Cleanup} (unclaimed : ctx.claimed = false)
      (finished : ctx.directoryDone = true) (named : ctx.directoryHost = host)
      (kept : ∀ cleanup ∈ cleanups, cleanup.host = host) :
      Handled ⟨[.claim host, .complete host], cleanups, 0⟩ (.declined, ctx)
  | fetching {ctx : Context} {host : Bytes} {retryTtl : Int} (claimed : ctx.claimed = true)
      (waiting : ctx.directoryDone = false) (named : ctx.directoryHost = host) :
      Handled ⟨[.claim host], [⟨host, retryTtl⟩], 1⟩ (.again, ctx)

variable {surroundings : Surroundings}

/-- A claim is released in the run that obtained it. -/
theorem directoryFailOpenRelease_handled (ctx : Context) {cleanups : List Cleanup}
    (kept : ∀ cleanup ∈ cleanups, cleanup.host = ctx.directoryHost) (retryTtl : Int) (reason : FetchReason) :
    (directoryFailOpenRelease ctx retryTtl reason).Yields surroundings fun calls out =>
      Handled ((Tally.mk [.claim ctx.directoryHost] cleanups 0).add (tally calls)) out := by
  simp only [directoryFailOpenRelease, Prog.ask_bind, Prog.yields_call, Prog.pure_eq, Prog.yields_done]
  rw [tally_quiet rfl, tally_release, tally_nil, Tally.add_zero]
  simp only [Tally.add, List.append_nil, List.singleton_append]
  exact .released rfl rfl rfl kept

/-- After its claim, the handler releases the host or waits for the subrequest. -/
theorem directoryFetch_handled (conf : DirectoryConf) (ctx : Context) (waiting : ctx.directoryDone = false) :
    (directoryFetch conf ctx).Yields surroundings fun calls out =>
      Handled ((Tally.mk [.claim ctx.directoryHost] [] 0).add (tally calls)) out := by
  have released (cleanups : List Cleanup) (kept : ∀ cleanup ∈ cleanups, cleanup.host = ctx.directoryHost) :
      (directoryFailOpenRelease { ctx with claimed := true } conf.cacheMinTtl .failed).Yields surroundings
        fun calls out => Handled ((Tally.mk [.claim ctx.directoryHost] cleanups 0).add (tally calls)) out :=
    directoryFailOpenRelease_handled _ kept _ _
  have kept : ∀ cleanup ∈ [Cleanup.mk ctx.directoryHost conf.cacheMinTtl], cleanup.host = ctx.directoryHost := by
    simp
  simp only [directoryFetch, Prog.ask_bind, Prog.yields_call]
  split
  · rename_i unregistered
    apply (released [] (by simp)).imp
    intro calls out handled
    rw [tally_addCleanup, if_neg (by simpa using unregistered), ← Tally.add_assoc]
    exact handled
  rename_i registered
  rw [Prog.yields_call]
  split
  · apply (released _ kept).imp
    intro calls out handled
    rw [tally_addCleanup, if_pos (by simpa using registered), tally_quiet rfl, ← Tally.add_assoc]
    exact handled
  rw [Prog.yields_call]
  split
  · rename_i refused
    apply (released _ kept).imp
    intro calls out handled
    rw [tally_addCleanup, if_pos (by simpa using registered), tally_quiet rfl, tally_subrequest,
      if_neg (by simpa using refused), ← Tally.add_assoc, ← Tally.add_assoc]
    exact handled
  · rename_i created
    simp only [Prog.pure_eq, Prog.yields_done]
    rw [tally_addCleanup, if_pos (by simpa using registered), tally_quiet rfl, tally_subrequest,
      if_pos (by simpa using created), tally_nil]
    exact .fetching rfl waiting rfl

/-- Declining without a claim leaves nothing outstanding. -/
theorem directoryDecline_handled (ctx : Context) (unclaimed : ctx.claimed = false) :
    Handled Tally.zero (directoryDecline ctx) :=
  .idle unclaimed nofun

/-- Failing open without a claim leaves nothing outstanding. -/
theorem directoryFailOpen_handled (ctx : Context) (unclaimed : ctx.claimed = false) (reason : FetchReason) :
    Handled Tally.zero (directoryFailOpen ctx reason) :=
  .idle unclaimed nofun

/-- The resolution of the keys makes no call that counts. -/
theorem resolveKeysOf_quiet (ctx : Context) (rest : List Call) :
    tally ((resolveKeysOf ctx).trace surroundings ++ rest) = tally rest := by
  unfold resolveKeysOf
  split
  · rfl
  · exact tally_quiet rfl _ rest

/-- The hit branch leaves the claim and the subrequest in step. -/
theorem directoryHit_handled (lcf : Location) (keyid : Bytes) (ctx : Context)
    (waiting : ctx.directoryDone = false) (unclaimed : ctx.claimed = false) :
    (directoryHit lcf keyid ctx).Yields surroundings fun calls out => Handled (tally calls) out := by
  unfold directoryHit
  split
  · exact directoryDecline_handled _ unclaimed
  rw [Prog.yields_bind]
  simp only [Prog.Yields, resolveKeysOf_quiet]
  split
  · exact directoryDecline_handled _ unclaimed
  simp only [Prog.ask_bind, Prog.run_call, Prog.trace_call]
  rw [tally_quiet rfl, tally_rotate]
  split
  · rename_i claimed
    exact directoryFetch_handled lcf.directory _ waiting
  · exact directoryDecline_handled _ unclaimed

/-- The claim of a lookup is the only one that a run on the answer finds. -/
theorem directoryAnswered_handled (lcf : Location) (keyid : Bytes) (answer : Cache.Answer) (ctx : Context)
    (waiting : ctx.directoryDone = false) (unclaimed : ctx.claimed = false) :
    (directoryAnswered lcf keyid answer ctx).Yields surroundings fun calls out =>
      Handled ((Tally.mk (if answer.status = some .claimed then [.claim ctx.directoryHost] else []) [] 0).add
        (tally calls)) out := by
  rcases answer with ⟨status, jwks, generation⟩
  cases status with
  | none => exact directoryFailOpen_handled ctx unclaimed .failed
  | some status =>
      cases status with
      | hit =>
          apply (directoryHit_handled lcf keyid { ctx with jwks := jwks } waiting unclaimed).imp
          intro calls out handled
          exact (Tally.zero_add (tally calls)).symm ▸ handled
      | claimed => exact directoryFetch_handled lcf.directory ctx waiting
      | busy =>
          by_cases stale : jwks.length > 0
          · simp only [directoryAnswered, stale, if_true]
            exact directoryDecline_handled { ctx with jwks := jwks } unclaimed
          · simp only [directoryAnswered, stale, if_false]
            exact directoryFailOpen_handled ctx unclaimed .busy
      | negative => exact directoryFailOpen_handled ctx unclaimed .unavailable
      | unavailable => exact directoryFailOpen_handled ctx unclaimed .unavailable

/-- After the cache lookup the claim and the subrequest are in step. -/
theorem directoryLookup_handled (lcf : Location) (keyid : Bytes) (ctx : Context)
    (waiting : ctx.directoryDone = false) (unclaimed : ctx.claimed = false) :
    (directoryLookup lcf keyid ctx).Yields surroundings fun calls out => Handled (tally calls) out := by
  simp only [directoryLookup, Prog.ask_bind, Prog.Yields, Prog.run_call, Prog.trace_call]
  rw [tally_quiet rfl, tally_lookup]
  obtain ⟨answer, answered⟩ : ∃ answer : Cache.Answer,
      surroundings (.lookup ctx.directoryHost (surroundings .time)) = answer := ⟨_, rfl⟩
  rw [answered]
  exact directoryAnswered_handled lcf keyid answer { ctx with directoryGeneration := answer.generation } waiting
    unclaimed

/-- After the agent is read the claim and the subrequest are in step. -/
theorem directoryAgent_handled (lcf : Location) (sigAgent : List Bytes) (label keyid : Bytes) (ctx : Context)
    (waiting : ctx.directoryDone = false) (unclaimed : ctx.claimed = false) :
    (directoryAgent lcf sigAgent label keyid ctx).Yields surroundings fun calls out =>
      Handled (tally calls) out := by
  simp only [directoryAgent, Prog.ask_bind, Prog.Yields, Prog.run_call, Prog.trace_call]
  rw [tally_quiet rfl, tally_quiet rfl]
  split
  · exact directoryFailOpen_handled _ unclaimed .notAllowed
  rename_i host normalized
  split
  · exact directoryFailOpen_handled _ unclaimed .notAllowed
  · exact directoryLookup_handled lcf keyid { ctx with directoryHost := host } waiting unclaimed

/-- A first run of the handler leaves the claim and the subrequest in step. -/
theorem directoryStart_handled (lcf : Location) (headers : List RawHeader) (ctx : Context)
    (waiting : ctx.directoryDone = false) (unclaimed : ctx.claimed = false) :
    (directoryStart lcf headers ctx).Yields surroundings fun calls out => Handled (tally calls) out := by
  have failed : Handled Tally.zero (.error, ctx) := .idle unclaimed nofun
  simp only [directoryStart, Prog.ask_bind, Prog.Yields, Prog.run_call, Prog.trace_call]
  rw [tally_quiet rfl]
  split
  · exact failed
  simp only [Prog.run_call, Prog.trace_call]
  rw [tally_quiet rfl]
  split
  · exact failed
  split
  · exact directoryDecline_handled _ unclaimed
  simp only [Prog.run_call, Prog.trace_call]
  rw [tally_quiet rfl]
  split
  · exact failed
  split
  · exact directoryDecline_handled _ unclaimed
  · exact directoryAgent_handled lcf _ _ _ _ waiting unclaimed

/-- Everything that a run of the directory handler can do with the claim of its request. -/
inductive Ran (before : Option Context) : List Call → PhaseRc × Option Context → Prop
  | skipped : Ran before [] (.declined, before)
  | failed {calls : List Call} (absent : before = none) : Ran before calls (.error, none)
  | waiting {ctx : Context} (present : before = some ctx) (claimed : ctx.claimed = true) :
      Ran before [] (.again, some ctx)
  | started {calls : List Call} {rc : PhaseRc} {ctx : Context}
      (idle : ∀ ctx ∈ before, ctx.claimed = false ∧ ctx.directoryDone = false)
      (handled : Handled (tally calls) (rc, ctx)) : Ran before calls (rc, some ctx)

/-- A run of the handler either starts the request or leaves a waiting one as it was. -/
theorem directoryHandler_ran (lcf : Location) (headers : List RawHeader) (before : Option Context) :
    (directoryHandler lcf headers before).Yields surroundings (Ran before) := by
  unfold directoryHandler
  simp only [Prog.pure_eq]
  split
  · rw [Prog.yields_done]
    exact .skipped
  cases before with
  | none =>
      simp only [Prog.ask_bind, Prog.yields_call]
      split
      · rw [Prog.yields_done]
        exact .failed rfl
      rw [Prog.yields_bind]
      apply (directoryStart_handled lcf headers Context.zero rfl rfl).imp
      intro calls out handled
      rw [Prog.yields_done, List.append_nil]
      apply Ran.started
      · intro ctx absent
        cases absent
      · rwa [tally_quiet rfl]
  | some ctx =>
      dsimp only
      split
      · rw [Prog.yields_done]
        exact .skipped
      rename_i unfinished
      split
      · rename_i claimed
        rw [Prog.yields_done]
        exact .waiting rfl claimed
      rename_i unclaimed
      have idle : ∀ other ∈ some ctx, other.claimed = false ∧ other.directoryDone = false := by
        simpa using And.intro unclaimed unfinished
      split
      · rw [Prog.yields_done]
        exact .started idle (.idle (idle ctx rfl).1 (by decide))
      rw [Prog.yields_bind]
      apply (directoryStart_handled lcf headers ctx (idle ctx rfl).2 (idle ctx rfl).1).imp
      intro calls out handled
      rw [Prog.yields_done, List.append_nil]
      exact .started idle handled

/-- A failed fetch releases the host and ends the fetch of the context. -/
def Completes (ctx : Context) (calls : List Call) (after : Context) : Prop :=
  tally calls = ⟨[.complete ctx.directoryHost], [], 0⟩ ∧ after.claimed = false ∧ after.directoryDone = true

/-- A quiet call before a completing run changes nothing in what is completed. -/
theorem Completes.cons {ctx after : Context} {calls : List Call} (completes : Completes ctx calls after) {op : Op}
    (quiet : op.quiet = true) (answer : Answer op) : Completes ctx (⟨op, answer⟩ :: calls) after :=
  ⟨(tally_quiet quiet answer calls).trans completes.1, completes.2⟩

/-- Releasing the fetch right completes the outstanding claim. -/
theorem directoryRelease_completes (conf : DirectoryConf) (ctx : Context) (reason : FetchReason) (now : Int) :
    (directoryRelease conf ctx reason now).Yields surroundings (Completes ctx) :=
  ⟨rfl, rfl, rfl⟩

/-- Accepting a document completes the outstanding claim. -/
theorem directoryAccept_completes (conf : DirectoryConf) (ctx : Context) (cacheControl : Bytes) (age : Int)
    (body : Bytes) (now : Int) :
    (directoryAccept conf ctx cacheControl age body now).Yields surroundings (Completes ctx) := by
  simp only [directoryAccept, Prog.ask_bind, Prog.yields_call]
  split
  · apply (directoryRelease_completes conf ctx .failed now).imp
    intro calls after completes
    exact completes.cons rfl _
  rw [Prog.yields_call]
  split
  · apply (directoryRelease_completes conf ctx .invalid now).imp
    intro calls after completes
    exact (completes.cons rfl _).cons rfl _
  · exact ⟨rfl, rfl, rfl⟩

/-- Reading the Cache-Control lines leaves no mark in the tally. -/
theorem readCacheControl_quiet (lines : List Bytes) (rest : List Call) :
    tally ((readCacheControl lines).trace surroundings ++ rest) = tally rest := by
  unfold readCacheControl
  split
  · rfl
  simp only [Prog.ask_bind, Prog.trace_call]
  split <;> exact tally_quiet rfl _ rest

/-- The end of a subrequest completes the claim of its context, whatever the response is. -/
theorem directoryDone_completes (conf : DirectoryConf) (response : Directory.Response) (ctx : Context) :
    (directoryDone conf response ctx).Yields surroundings (Completes ctx) := by
  unfold directoryDone
  split
  · rename_i upstream succeeded answered
    rw [Prog.yields_bind]
    simp only [Prog.ask_bind, Prog.Yields, Completes, readCacheControl_quiet]
    rw [Prog.trace_call, tally_quiet rfl, Prog.run_call]
    split
    · exact directoryRelease_completes conf ctx _ _
    · exact directoryAccept_completes conf ctx _ _ _ _
  · rw [Prog.ask_bind, Prog.yields_call]
    apply (directoryRelease_completes conf ctx .failed _).imp
    intro calls after completes
    exact completes.cons rfl _

namespace Slot

/-- A context is idle, or it waits for its subrequest, or its fetch is over. -/
inductive Phase (slot : Slot) : Prop
  | idle (unclaimed : slot.ctx.claimed = false) (waiting : slot.ctx.directoryDone = false)
      (counted : tally slot.calls = Tally.zero) (returned : slot.returned = 0)
  | fetching {retryTtl : Int} (claimed : slot.ctx.claimed = true) (waiting : slot.ctx.directoryDone = false)
      (counted : tally slot.calls =
        ⟨[.claim slot.ctx.directoryHost], [⟨slot.ctx.directoryHost, retryTtl⟩], 1⟩)
      (returned : slot.returned = 0)
  | settled {sum : Tally} (unclaimed : slot.ctx.claimed = false) (finished : slot.ctx.directoryDone = true)
      (counted : tally slot.calls = sum) (alternates : Alternates sum.notes none) (once : sum.created ≤ 1)
      (returned : slot.returned = sum.created)

variable {slot : Slot}

theorem alternates_claim (host : Bytes) : Alternates [.claim host] (some host) := .claim host .nil

theorem alternates_complete (host : Bytes) : Alternates [.claim host, .complete host] none :=
  (alternates_claim host).complete

/-- A run of the directory handler on an idle context ends in a phase, and it waits only for a claimed fetch. -/
theorem Phase.handled (counted : tally slot.calls = Tally.zero) (returned : slot.returned = 0)
    {out : PhaseRc × Context} {calls : List Call} (handled : Handled (tally calls) out) :
    Phase { slot with ctx := out.2, calls := slot.calls ++ calls } ∧ (out.1 = .again → out.2.claimed = true) := by
  have counts : tally (slot.calls ++ calls) = tally calls := by
    rw [tally_append, counted, Tally.zero_add]
  generalize tally calls = sum at handled counts
  cases handled with
  | @idle rc ctx unclaimed answered =>
      refine ⟨?_, fun again => absurd again answered⟩
      cases finished : ctx.directoryDone with
      | false => exact .idle unclaimed finished counts returned
      | true => exact .settled unclaimed finished counts .nil (Nat.zero_le 1) returned
  | released unclaimed finished named kept =>
      exact ⟨.settled unclaimed finished counts (alternates_complete _) (Nat.zero_le 1) returned, nofun⟩
  | fetching claimed waiting named =>
      subst named
      exact ⟨.fetching claimed waiting counts returned, fun _ => claimed⟩

/-- Only a waiting context has an outstanding subrequest. -/
theorem Phase.outstanding_iff (phase : slot.Phase) : slot.Outstanding ↔ slot.ctx.claimed = true := by
  have created : slot.created = (tally slot.calls).created := rfl
  unfold Outstanding
  cases phase with
  | idle unclaimed waiting counted returned => simp [created, counted, returned, unclaimed, Tally.zero]
  | fetching claimed waiting counted returned => simp [created, counted, returned, claimed]
  | settled unclaimed finished counted alternates once returned => simp [created, counted, returned, unclaimed]

/-- In every phase at most one subrequest was created. -/
theorem Phase.created_le (phase : slot.Phase) : slot.created ≤ 1 := by
  have created : slot.created = (tally slot.calls).created := rfl
  cases phase with
  | idle unclaimed waiting counted returned => simp [created, counted, Tally.zero]
  | fetching claimed waiting counted returned => simp [created, counted]
  | settled unclaimed finished counted alternates once returned => simpa [created, counted] using once

/-- This is the host whose claim the context holds. -/
def held (slot : Slot) : Option Bytes := if slot.ctx.claimed then some slot.ctx.directoryHost else none

/-- In every phase claims and completions alternate. -/
theorem Phase.alternates (phase : slot.Phase) : Alternates (notes slot.calls) slot.held := by
  have noted : notes slot.calls = (tally slot.calls).notes := rfl
  cases phase with
  | idle unclaimed waiting counted returned =>
      simp only [noted, counted, held, unclaimed, Bool.false_eq_true, if_false]
      exact .nil
  | fetching claimed waiting counted returned =>
      simp only [noted, counted, held, claimed, if_true]
      exact alternates_claim _
  | settled unclaimed finished counted alternates once returned =>
      simpa only [noted, counted, held, unclaimed, Bool.false_eq_true, if_false] using alternates

/-- The return of an outstanding subrequest settles its context. -/
theorem Phase.finish (phase : slot.Phase) (outstanding : slot.Outstanding) (conf : DirectoryConf)
    (response : Directory.Response) : (slot.finish conf response surroundings).Phase := by
  have claimed := phase.outstanding_iff.mp outstanding
  have completes : (directoryDone conf response slot.ctx).Yields surroundings (Completes slot.ctx) :=
    directoryDone_completes conf response slot.ctx
  obtain ⟨completed, unclaimed, finished⟩ := completes
  cases phase with
  | idle free _ _ _ | settled free _ _ _ _ _ => simp [claimed] at free
  | @fetching retryTtl _ _ counted returned =>
      have counts : tally (slot.finish conf response surroundings).calls =
          ⟨[.claim slot.ctx.directoryHost, .complete slot.ctx.directoryHost],
            [⟨slot.ctx.directoryHost, retryTtl⟩], 1⟩ := by
        simp only [Slot.finish, after, tally_append, counted, completed]
        rfl
      have once : slot.returned + 1 = 1 := by omega
      exact .settled unclaimed finished counts (alternates_complete _) (le_refl 1) once

/-- The pool is gone, and no claim is left. -/
structure Ended (slot : Slot) : Prop where
  unclaimed : slot.ctx.claimed = false
  alternates : Alternates (notes slot.calls) none
  once : slot.created ≤ 1

/-- A cleanup of a context that holds no claim does nothing. -/
theorem after_cleanup_unclaimed (unclaimed : slot.ctx.claimed = false) (cleanup : Cleanup) :
    slot.after surroundings (directoryCleanup cleanup slot.ctx) = slot := by
  simp [Slot.after, directoryCleanup, unclaimed]

/-- Without a claim the cleanups of the pool do nothing. -/
theorem foldl_cleanup_unclaimed (unclaimed : slot.ctx.claimed = false) (cleanups : List Cleanup) :
    cleanups.foldl (fun slot cleanup => slot.after surroundings (directoryCleanup cleanup slot.ctx)) slot = slot := by
  induction cleanups with
  | nil => rfl
  | cons cleanup rest ih => rw [List.foldl_cons, after_cleanup_unclaimed unclaimed, ih]

/-- The cleanup releases the claim of a context that still waits. -/
theorem Phase.destroy (phase : slot.Phase) : (slot.destroy surroundings).Ended := by
  have registered : slot.cleanups = (tally slot.calls).cleanups := rfl
  have unchanged (unclaimed : slot.ctx.claimed = false) : (slot.destroy surroundings).Ended := by
    rw [Slot.destroy, foldl_cleanup_unclaimed unclaimed]
    have alternates := phase.alternates
    rw [held, unclaimed] at alternates
    exact ⟨unclaimed, alternates, phase.created_le⟩
  cases phase with
  | idle unclaimed _ _ _ | settled unclaimed _ _ _ _ _ => exact unchanged unclaimed
  | @fetching retryTtl claimed waiting counted returned =>
      rw [Slot.destroy, registered, counted, List.foldl_cons, List.foldl_nil]
      simp only [after, directoryCleanup, claimed, if_true, Prog.ask_bind, Prog.run_call, Prog.trace_call]
      have counts (now : Int) (answer : Unit) : tally (slot.calls ++
          [⟨.time, now⟩, ⟨.release slot.ctx.directoryHost (now + retryTtl), answer⟩]) =
            ⟨[.claim slot.ctx.directoryHost, .complete slot.ctx.directoryHost],
              [⟨slot.ctx.directoryHost, retryTtl⟩], 1⟩ := by
        rw [tally_append, counted]
        rfl
      have alternates (now : Int) (answer : Unit) : Alternates (tally (slot.calls ++
          [⟨.time, now⟩, ⟨.release slot.ctx.directoryHost (now + retryTtl), answer⟩])).notes none := by
        rw [counts]
        exact alternates_complete _
      have once (now : Int) (answer : Unit) := congrArg Tally.created (counts now answer)
      exact ⟨rfl, alternates _ _, (once _ _).le⟩

end Slot

namespace Life

/-- Every context of the request is in a phase, until the end of the pool settles them all. -/
def Phased (life : Life) : Prop :=
  if life.destroyed then ∀ slot ∈ life.slots, slot.Ended else ∀ slot ∈ life.slots, slot.Phase

variable {life : Life} {raw : RawRequest}

/-- The contexts of a life are the current one and the detached ones. -/
theorem mem_slots {life : Life} {slot : Slot} :
    slot ∈ life.slots ↔ life.current = some slot ∨ slot ∈ life.detached := by
  simp [slots]

@[simp] theorem put_detached (life : Life) (ctx : Option Context) (calls : List Call) :
    (life.put ctx calls).detached = life.detached := by
  unfold put
  split <;> rfl

@[simp] theorem put_destroyed (life : Life) (ctx : Option Context) (calls : List Call) :
    (life.put ctx calls).destroyed = life.destroyed := by
  unfold put
  split <;> rfl

@[simp] theorem put_verdict (life : Life) (ctx : Option Context) (calls : List Call) :
    (life.put ctx calls).verdict = life.verdict := by
  unfold put
  split <;> rfl

theorem put_ctx_or (life : Life) (ctx : Option Context) (calls : List Call) :
    (life.put ctx calls).ctx = ctx.or life.ctx := by
  rcases life with ⟨current, detached, verdict, destroyed⟩
  cases ctx <;> cases current <;> rfl

/-- A run that only reads the context leaves the request as it is. -/
theorem put_ctx (life : Life) : life.put life.ctx [] = life := by
  rcases life with ⟨current, detached, verdict, destroyed⟩
  cases current <;> simp [put, ctx]

/-- A run of the directory handler keeps the phases, and it answers `NGX_AGAIN` only for a waiting context. -/
theorem put_phase {calls : List Call} {out : PhaseRc × Option Context} (phased : ∀ slot ∈ life.current, slot.Phase)
    (ran : Ran life.ctx calls out) :
    (∀ slot ∈ (life.put out.2 calls).current, slot.Phase) ∧
      (out.1 = .again → ∃ slot, (life.put out.2 calls).current = some slot ∧ slot.ctx.claimed = true) := by
  rcases life with ⟨current, detached, verdict, destroyed⟩
  cases ran with
  | skipped =>
      rw [put_ctx]
      exact ⟨phased, nofun⟩
  | failed absent => exact ⟨phased, nofun⟩
  | waiting present claimed =>
      obtain ⟨slot, rfl, rfl⟩ := Option.map_eq_some_iff.mp present
      rw [← present, put_ctx]
      exact ⟨phased, fun _ => ⟨slot, rfl, claimed⟩⟩
  | @started _ rc ctx idle handled =>
      cases current with
      | none =>
          have unreturned : (Slot.mk ctx [] 0).returned = 0 := rfl
          obtain ⟨phase, waits⟩ := Slot.Phase.handled tally_nil unreturned handled
          refine ⟨?_, fun again => ⟨_, rfl, waits again⟩⟩
          rintro slot ⟨⟩
          exact phase
      | some slot =>
          obtain ⟨unclaimed, waiting⟩ := idle slot.ctx rfl
          cases phased slot rfl with
          | idle _ _ counted returned =>
              obtain ⟨phase, waits⟩ := Slot.Phase.handled counted returned handled
              refine ⟨?_, fun again => ⟨_, rfl, waits again⟩⟩
              rintro other ⟨⟩
              exact phase
          | fetching claimed _ _ _ => simp [unclaimed] at claimed
          | settled _ finished _ _ _ _ => simp [waiting] at finished

/-- An evaluation changes no field of the directory and makes no call. -/
theorem put_evaluated (phased : ∀ slot ∈ life.current, slot.Phase) (evaluated : Option RequestCtx) :
    ∀ slot ∈ (life.put (evaluated.map (life.ctx.getD Context.zero).withEvaluated) []).current, slot.Phase := by
  rcases life with ⟨current, detached, verdict, destroyed⟩
  cases evaluated with
  | none => exact phased
  | some evaluated =>
      cases current with
      | none =>
          rintro slot ⟨⟩
          exact .idle rfl rfl rfl rfl
      | some before =>
          rintro slot ⟨⟩
          have calls : tally (before.calls ++ []) = tally before.calls := by rw [List.append_nil]
          cases phased before rfl with
          | idle unclaimed waiting counted returned =>
              exact .idle unclaimed waiting (calls.trans counted) returned
          | fetching claimed waiting counted returned =>
              exact .fetching claimed waiting (calls.trans counted) returned
          | settled unclaimed finished counted alternates once returned =>
              exact .settled unclaimed finished (calls.trans counted) alternates once returned

/-- A change of the named slot keeps what holds of every slot. -/
theorem finish_slots {holds : Slot → Prop} {index : Option Nat} {change : Slot → Slot}
    (all : ∀ slot ∈ life.slots, holds slot) (changed : ∀ slot ∈ life.slotAt index, holds (change slot)) :
    ∀ slot ∈ (life.finish index change).slots, holds slot := by
  intro slot present
  cases index with
  | none =>
      rcases mem_slots.mp present with current | detached
      · obtain ⟨before, found, rfl⟩ := Option.map_eq_some_iff.mp current
        exact changed before found
      · exact all slot (mem_slots.mpr (.inr detached))
  | some index =>
      rcases mem_slots.mp present with current | detached
      · exact all slot (mem_slots.mpr (.inl current))
      · obtain ⟨place, found⟩ := List.mem_iff_getElem?.mp detached
        simp only [finish, List.getElem?_modify] at found
        obtain ⟨before, stood, rfl⟩ := Option.map_eq_some_iff.mp found
        by_cases same : index = place
        · subst same
          simpa using changed before stood
        · simpa [same] using all before (mem_slots.mpr (.inr (List.mem_of_getElem? stood)))

theorem slotAt_mem {index : Option Nat} {slot : Slot} (found : slot ∈ life.slotAt index) : slot ∈ life.slots := by
  cases index with
  | none => exact mem_slots.mpr (.inl found)
  | some index => exact mem_slots.mpr (.inr (List.mem_of_getElem? found))

/-- While the request lives, being phased is a property of each of its contexts. -/
theorem phased_iff (alive : life.destroyed = false) : life.Phased ↔ ∀ slot ∈ life.slots, slot.Phase := by
  simp only [Phased, alive, Bool.false_eq_true, if_false]

/-- A step that only writes the current context keeps the phases of the detached ones. -/
theorem Phased.ofCurrent {after : Life} (phased : life.Phased) (alive : life.destroyed = false)
    (detached : after.detached = life.detached) (also : after.destroyed = false)
    (current : ∀ slot ∈ after.current, slot.Phase) : after.Phased := by
  rw [phased_iff alive] at phased
  rw [phased_iff also]
  intro slot present
  rcases mem_slots.mp present with found | older
  · exact current slot found
  · exact phased slot (mem_slots.mpr (.inr (detached ▸ older)))

/-- A step keeps the phases. -/
theorem Phased.move {rb : Balanced Nat} (crc : Bytes → UInt32) (phased : life.Phased) {next : Move rb}
    (permitted : life.Permitted next) : (life.move crc raw next).Phased := by
  have alive : life.destroyed = false := by
    cases next with
    | finish => exact permitted.1
    | handle | read | redirect | destroy => exact permitted
  have all := (phased_iff alive).mp phased
  have current : ∀ slot ∈ life.current, slot.Phase := fun slot found => all slot (mem_slots.mpr (.inl found))
  cases next with
  | handle lcf surroundings =>
      exact phased.ofCurrent alive (put_detached ..) ((put_destroyed ..).trans alive)
        (put_phase current (directoryHandler_ran lcf raw.headers life.ctx)).1
  | read lcf visit =>
      exact phased.ofCurrent alive (put_detached ..) ((put_destroyed ..).trans alive) (put_evaluated current _)
  | finish index conf response surroundings =>
      obtain ⟨_, slot, found, outstanding⟩ := permitted
      have also : (life.finish index fun slot => slot.finish conf response surroundings).destroyed = false := by
        cases index <;> exact alive
      apply (phased_iff also).mpr
      apply finish_slots all
      intro other same
      obtain rfl := Option.mem_unique same found
      exact (all other (slotAt_mem found)).finish outstanding conf response
  | redirect =>
      apply (phased_iff (show (life.move crc raw (.redirect : Move rb)).destroyed = false from alive)).mpr
      intro slot present
      rcases mem_slots.mp present with found | moved
      · cases found
      · exact all slot moved
  | destroy surroundings =>
      have ended : ∀ slot ∈ (life.move crc raw (.destroy surroundings : Move rb)).slots, slot.Ended := by
        intro slot present
        rcases mem_slots.mp present with found | older
        · obtain ⟨before, stood, rfl⟩ := Option.map_eq_some_iff.mp found
          exact (all before (mem_slots.mpr (.inl stood))).destroy
        · obtain ⟨before, stood, rfl⟩ := List.mem_map.mp older
          exact (all before (mem_slots.mpr (.inr stood))).destroy
      simpa only [Phased, Life.move, if_true] using ended

/-- Every reachable life has each of its contexts in a phase. -/
theorem Reaches.phased {rb : Balanced Nat} {crc : Bytes → UInt32} {condition : Life → Move rb → Prop}
    (reaches : Reaches crc raw condition life) : life.Phased := by
  induction reaches with
  | init => exact (phased_iff rfl).mpr fun slot present => absurd present List.not_mem_nil
  | move next before permitted met ih => exact ih.move crc permitted

/-- In every life of a request, the cache calls of each context alternate between a claim and one completion for
its host, and a claim is left only while it is held, never after the end of the pool. Each context creates at most
one subrequest, and the handler answers `NGX_AGAIN` only while the claim is held and its subrequest is
outstanding. -/
theorem claims_complete {rb : Balanced Nat} {crc : Bytes → UInt32} {condition : Life → Move rb → Prop}
    (reaches : Reaches crc raw condition life) :
    (∀ slot ∈ life.slots, Alternates (notes slot.calls) slot.held ∧ slot.created ≤ 1) ∧
      (life.destroyed = true → ∀ slot ∈ life.slots, Alternates (notes slot.calls) none) ∧
      ∀ lcf surroundings, life.destroyed = false → (life.handle raw lcf surroundings).1 = .again →
        ∃ slot, (life.handle raw lcf surroundings).2.current = some slot ∧
          Alternates (notes slot.calls) (some slot.ctx.directoryHost) ∧ slot.Outstanding := by
  have phased := reaches.phased
  cases alive : life.destroyed with
  | false =>
      have all := (phased_iff alive).mp phased
      refine ⟨fun slot present => ⟨(all slot present).alternates, (all slot present).created_le⟩,
        fun ended => absurd ended Bool.false_ne_true, ?_⟩
      intro lcf surroundings _ again
      obtain ⟨phases, waits⟩ := put_phase (fun slot found => all slot (mem_slots.mpr (.inl found)))
        (show (directoryHandler lcf raw.headers life.ctx).Yields surroundings (Ran life.ctx) from
          directoryHandler_ran lcf raw.headers life.ctx)
      obtain ⟨slot, found, claimed⟩ := waits again
      have alternates := (phases slot found).alternates
      rw [Slot.held, claimed] at alternates
      exact ⟨slot, found, alternates, (phases slot found).outstanding_iff.mpr claimed⟩
  | true =>
      have ended : ∀ slot ∈ life.slots, slot.Ended := by
        simpa only [Phased, alive, if_true] using phased
      refine ⟨?_, fun _ slot present => (ended slot present).alternates,
        fun _ _ alive => absurd alive.symm Bool.false_ne_true⟩
      intro slot present
      have free := (ended slot present).unclaimed
      rw [Slot.held, free]
      exact ⟨(ended slot present).alternates, (ended slot present).once⟩

/-- This location fetches the keys of one agent. -/
def agentLocation : Location where
  mode := .enforce
  profile := Profile.webBotAuth
  expiresMax := 86400
  maxSkew := 60
  jwksKeys := none
  keyidFallbackAllow := false
  nonceStore := .off
  nonceRequired := false
  nonceStoreFailure := .failOpen
  require := false
  satisfyAny := false
  status := ⟨400, 403, 403, 403⟩
  directory :=
    { enabled := true
      allow := some [ascii "b.test"]
      requestUri := ascii "/fetch"
      maxSize := 65536
      cacheMinTtl := 60
      cacheMaxTtl := 3600
      keyRotationRetryTtl := 300
      mediaType := ascii "application/http-message-signatures-directory+json" }

/-- The lookup gives the claim, and every other call succeeds. -/
def claimingSurroundings : Surroundings
  | .room _ => true
  | .agentRoom => Profile.AgentRoom.full
  | .time => 1100
  | .lookup .. => ⟨some .claimed, [], 0⟩
  | .claimRotationRefetch .. => true
  | .store .. => (1 : Nat)
  | .release .. => ()
  | .resolveKeys .. => (none : Option Keys)
  | .loadJwks _ => true
  | .addCleanup _ => true
  | .subrequest _ => true

/-- The handler has claimed the host and waits. -/
def waiting : Life :=
  init.move NonceStore.crc32Long Profile.agentRequest
    (.handle agentLocation claimingSurroundings : Move (plain Nat))

/-- The client aborts while the keys are fetched. -/
def aborted : Life :=
  waiting.move NonceStore.crc32Long Profile.agentRequest (.destroy claimingSurroundings : Move (plain Nat))

/-- An aborted request completes its one claim in the pool cleanup. -/
theorem claims_complete_aborted :
    (aborted.slots.map fun slot => notes slot.calls) =
        [[.claim (ascii "b.test"), .complete (ascii "b.test")]] ∧
      ∀ slot ∈ aborted.slots, Alternates (notes slot.calls) none := by
  have alive : waiting.destroyed = false := by decide +kernel
  have claimed : Reaches NonceStore.crc32Long Profile.agentRequest (fun _ _ => True) waiting :=
    Reaches.init.move (.handle agentLocation claimingSurroundings : Move (plain Nat)) rfl trivial
  have reaches : Reaches NonceStore.crc32Long Profile.agentRequest (fun _ _ => True) aborted :=
    claimed.move (.destroy claimingSurroundings : Move (plain Nat)) alive trivial
  have ended : aborted.destroyed = true := by decide +kernel
  have noted : (aborted.slots.map fun slot => notes slot.calls) =
      [[.claim (ascii "b.test"), .complete (ascii "b.test")]] := by decide +kernel
  exact ⟨noted, (claims_complete reaches).2.1 ended⟩

end Life
end AuthHttpsig.Module
