/-
This file shows when a location that enforces lets a request pass: its signature verifies, it is not signed, or
its key id is unknown while no usable document is held for it.
-/

import AuthHttpsig.Proof.CacheSteps
import AuthHttpsig.Proof.ClaimBalance
import AuthHttpsig.Proof.EnoughRoom

namespace AuthHttpsig

namespace Profile
open Sfv Base

/-- A signature was selected, and the keys do not know its key id. -/
def Misses (keys : Option Keys) (ctx : Ctx) (req : Request) : Prop :=
  ∃ sigDict sig, selectSignature ctx req = .ok (sigDict, sig) ∧ ∀ source ∈ keys, source.has sig.keyid = false

/-- These failures explain that no key has the key id. -/
def UnknownKey (failure : Failure) : Prop :=
  failure = .declined .unknownKeyid ∨ failure = .declined .keyidNotThumbprint

/-- A key is reported as unknown only where the given keys do not have it. -/
theorem verifyEd25519_unknown {keys fallback : Option Keys} {keyid base signature : Bytes} :
    Fails (fun failure => UnknownKey failure → ∀ source ∈ keys, keyid = [] ∨ source.has keyid = false)
      (verifyEd25519 keys keyid base signature fallback) := by
  unfold verifyEd25519
  cases keys with
  | none => exact fun _ => by simp
  | some source =>
      dsimp only
      split
      · rename_i empty
        simp [Fails, List.length_eq_zero_iff.mp empty]
      split
      · simp [Fails, UnknownKey]
      split
      · rename_i missing
        have unknown : source.has keyid = false := by simpa using missing
        repeat' split
        all_goals simp [Fails, unknown]
      · split <;> simp [Fails, UnknownKey]

/-- Only a key id that no key has is reported as unknown. -/
theorem verify_unknown {ctx : Ctx} {clock : Int} {req : Request} {result : Result}
    (failed : verify ctx clock req = .error (.declined result))
    (unknown : result = .unknownKeyid ∨ result = .keyidNotThumbprint) :
    ∃ sigDict sig, selectSignature ctx req = .ok (sigDict, sig) ∧
      ∀ source ∈ ctx.keys, sig.keyid = [] ∨ source.has sig.keyid = false := by
  have named : UnknownKey (.declined result) := unknown.imp (congrArg _) (congrArg _)
  unfold verify at failed
  cases selected : selectSignature ctx req with
  | error failure =>
      rw [selected] at failed
      cases failed
      obtain ⟨other, member, same⟩ := (selectSignature_fails ctx req).of_eq selected
      cases same
      rcases unknown with rfl | rfl <;> simp at member
  | ok found =>
      obtain ⟨sigDict, sig⟩ := found
      rw [selected, ok_bind] at failed
      refine ⟨sigDict, sig, rfl, ?_⟩
      have fails : Fails (fun failure =>
          UnknownKey failure → ∀ source ∈ ctx.keys, sig.keyid = [] ∨ source.has sig.keyid = false)
          (Except.error (Failure.declined result) : Except Failure Signature) := by
        rw [← failed]
        dsimp only
        split
        · simp [Fails, UnknownKey]
        split
        · simp [Fails, UnknownKey]
        apply Fails.bind
        · unfold ofOption
          split <;> simp [Fails, UnknownKey]
        intro signature
        split
        · simp [Fails, UnknownKey]
        · exact verifyEd25519_unknown.bind fun _ => trivial
      exact fails named

/-- The verification of a request without Signature-Input finds no signature. -/
theorem verify_unsigned {ctx : Ctx} {clock : Int} {req : Request}
    (absent : fieldValue req (ascii "signature-input") = none) :
    verify ctx clock req = .error (.declined .notSigned) := by
  unfold verify selectSignature
  rw [absent]
  rfl

end Profile

namespace Module

open SearchTree

/-- The document is parsed into keys. -/
def Usable (load : Bytes → Option Keys) (document : Bytes) : Prop :=
  document ≠ [] ∧ (load document).isSome = true

/-- The empty document is not usable. -/
theorem not_usable_nil (load : Bytes → Option Keys) : ¬ Usable load [] := fun usable => usable.1 rfl

/-- The data of one evaluation. -/
structure Evaluation where
  lcf : LocConf
  env : Env
  jwks : Bytes
  req : Base.Request

namespace Evaluation

def ctx (evaluation : Evaluation) : Profile.Ctx :=
  profileCtx evaluation.lcf (resolveKeys evaluation.env evaluation.jwks) evaluation.env.now

/-- This is what `profile_verify` reports. -/
def outcome (evaluation : Evaluation) : Except Failure Profile.Signature :=
  Profile.verify evaluation.ctx evaluation.env.now evaluation.req

/-- The verification failed on its key id, which is the thumbprint of no static key. -/
def Misses (static : Option Keys) (evaluation : Evaluation) : Prop :=
  (∃ failure, evaluation.outcome = .error failure ∧ Profile.UnknownKey failure) ∧
    Profile.Misses static evaluation.ctx evaluation.req

end Evaluation

/-- What an evaluation left in its context, for the access decision. -/
inductive Judged (static : Option Keys) (evaluation : Evaluation) (ctx : RequestCtx) : Prop
  | internal (failed : ctx.internalError = true)
  | verified {sig : Profile.Signature} (accepted : evaluation.outcome = .ok sig)
  | notSigned (declined : evaluation.outcome = .error (.declined .notSigned))
  | unknown (unavailable : ctx.keysUnavailable = true) (missing : evaluation.Misses static)
  | failed (refused : ctx.result ≠ .ok ∧ ctx.result ≠ .notSigned ∧ ctx.result ≠ .keyUnavailable)

variable {rb : Balanced Nat}

/-- The keys of an evaluation have every key of its location, and no key has an empty thumbprint. -/
theorem Evaluation.misses_static {static : Option Keys} {evaluation : Evaluation}
    (same : evaluation.lcf.jwksKeys = static) (thumbprints : ∀ source ∈ static, source.has [] = false)
    {result : Result} (failed : evaluation.outcome = .error (.declined result))
    (unknown : result = .unknownKeyid ∨ result = .keyidNotThumbprint) : evaluation.Misses static := by
  obtain ⟨sigDict, sig, selected, missing⟩ := Profile.verify_unknown failed unknown
  refine ⟨⟨_, failed, unknown.imp (congrArg _) (congrArg _)⟩, sigDict, sig, selected, ?_⟩
  intro source found
  have empty : sig.keyid = [] → source.has sig.keyid = false := fun empty => empty ▸ thumbprints source found
  subst same
  simp only [Evaluation.ctx, profileCtx, Option.mem_def.mp found] at missing
  cases dynamic : resolveKeys evaluation.env evaluation.jwks with
  | none => exact (missing source (by rw [dynamic]; rfl)).elim empty id
  | some first =>
      rcases missing (Keys.chained first source) (by rw [dynamic]; rfl) with nothing | both
      · exact empty nothing
      · simp only [Keys.chained, Bool.or_eq_false_iff] at both
        exact both.2

/-- A run of a handler meets this clock and this zone. nginx may refuse its subrequest, and there is enough memory. -/
structure Scene (rb : Balanced Nat) where
  now : Int
  zone : Cache.Zone rb
  slab : KeyTree.Slab Cache.Node
  rotates : Bool
  creates : Bool
  generation : Nat

namespace Scene

def surroundings (crc : Bytes → UInt32) (load : Bytes → Option Keys) (scene : Scene rb) : Surroundings
  | .room _ => true
  | .agentRoom => Profile.AgentRoom.full
  | .time => scene.now
  | .lookup host now => (scene.zone.lookup crc ⟨scene.slab, true, true⟩ host now).1
  | .claimRotationRefetch .. => scene.rotates
  | .store .. => scene.generation
  | .release .. => ()
  | .resolveKeys _ _ jwks => load jwks
  | .loadJwks jwks => (load jwks).isSome
  | .addCleanup _ => true
  | .subrequest _ => scene.creates

/-- This is the document that the zone holds for the host. -/
def document (crc : Bytes → UInt32) (scene : Scene rb) (host : Bytes) : Bytes := (scene.zone.pair crc host).1

end Scene

/-- This is the host of a lookup. -/
def Call.lookedUp : Call → Option Bytes
  | ⟨.lookup host _, _⟩ => some host
  | _ => none

/-- The lookup obtains the claim of its host. -/
def Call.claims : Call → Bool
  | ⟨.lookup .., answer⟩ => answer.status = some .claimed
  | _ => false

/-- A lookup retains the document of its host. -/
def retain (document : Bytes → Bytes) (retained : Bytes) (calls : List Call) : Bytes :=
  ((calls.findSome? Call.lookedUp).map document).getD retained

/-- The answer of a lookup copies the document of the zone, unless it claims a refetch. -/
inductive Served (document : Bytes) : Cache.Answer → Prop
  | hit (generation : Nat) (held : document ≠ []) : Served document ⟨some .hit, document, generation⟩
  | busy (generation : Nat) : Served document ⟨some .busy, document, generation⟩
  | negative (absent : document = []) : Served document ⟨some .negative, [], 0⟩
  | unavailable (absent : document = []) : Served document ⟨some .unavailable, [], 0⟩
  | claimed : Served document ⟨some .claimed, [], 0⟩

/-- A lookup answers with the document the scene serves for that host. -/
theorem lookup_served (crc : Bytes → UInt32) (scene : Scene rb) (host : Bytes) (now : Int) :
    Served (scene.document crc host) (scene.zone.lookup crc ⟨scene.slab, true, true⟩ host now).1 := by
  unfold Scene.document Cache.Zone.lookup Cache.Zone.pair
  cases scene.zone.find (crc host) host with
  | none =>
      simp only [Cache.Zone.createClaim]
      split
      · exact .unavailable rfl
      · exact .claimed
  | some address =>
      simp only [Cache.Zone.copyJwks, if_true]
      split
      · split
        · rename_i held
          exact .hit _ (List.length_pos_iff.mp held)
        · rename_i absent
          exact .negative (List.eq_nil_of_length_eq_zero (by omega))
      split
      · split
        · exact .busy _
        · rename_i filled
          have absent : (scene.zone.heap.node address).jwks = [] := List.eq_nil_of_length_eq_zero (by omega)
          rw [absent]
          exact .busy 0
      · exact .claimed

/-- The surroundings have enough memory, they parse with this function, and their zone holds these documents. -/
structure Plentiful (load : Bytes → Option Keys) (document : Bytes → Bytes) (surroundings : Surroundings) :
    Prop where
  room : ∀ site, surroundings (.room site) = true
  cleanup : ∀ cleanup, surroundings (.addCleanup cleanup) = true
  served : ∀ host now, Served (document host) (surroundings (.lookup host now))
  resolves : ∀ host generation jwks, surroundings (.resolveKeys host generation jwks) = load jwks
  loads : ∀ jwks, surroundings (.loadJwks jwks) = (load jwks).isSome

/-- A scene with room everywhere is plentiful. -/
theorem Scene.plentiful (crc : Bytes → UInt32) (load : Bytes → Option Keys) (scene : Scene rb) :
    Plentiful load (scene.document crc) (scene.surroundings crc load) where
  room _ := rfl
  cleanup _ := rfl
  served host now := lookup_served crc scene host now
  resolves _ _ _ := rfl
  loads _ := rfl

/-- The fetch of a context is idle, or it waits, or it is over. Missing keys are only reported when no usable
document is held. -/
inductive Stage (load : Bytes → Option Keys) (retained : Bytes) (ctx : Context) : Prop
  | idle (unclaimed : ctx.claimed = false) (waiting : ctx.directoryDone = false) (empty : ctx.jwks = [])
      (nothing : retained = []) (available : ctx.keysUnavailable = false)
  | fetching (claimed : ctx.claimed = true) (waiting : ctx.directoryDone = false)
      (held : ctx.jwks = [] ∨ ctx.jwks = retained ∧ Usable load retained) (available : ctx.keysUnavailable = false)
  | settled (unclaimed : ctx.claimed = false) (finished : ctx.directoryDone = true)
      (held : ctx.jwks = [] ∨ ctx.jwks = retained ∨ Usable load ctx.jwks)
      (lost : ctx.keysUnavailable = true → ¬ Usable load ctx.jwks ∧ ¬ Usable load retained)

/-- The directory does not touch the outcome of an evaluation. -/
def Context.Keeps (before after : Context) : Prop :=
  after.done = before.done ∧ after.internalError = before.internalError ∧ after.result = before.result ∧
    (before.keysUnavailable = true → after.keysUnavailable = true)

section Handler

variable {load : Bytes → Option Keys} {document : Bytes → Bytes} {surroundings : Surroundings} {retained : Bytes}

/-- Where the keys are noted as unavailable, no usable document is at hand. -/
theorem Stage.lost {ctx : Context} (stage : Stage load retained ctx) (unavailable : ctx.keysUnavailable = true) :
    ¬ Usable load ctx.jwks ∧ ¬ Usable load retained := by
  cases stage with
  | idle _ _ _ _ available | fetching _ _ _ available => simp [unavailable] at available
  | settled _ _ _ lost => exact lost unavailable

/-- Failing open with the keys available keeps the context. -/
theorem directoryFailOpen_keeps (ctx : Context) (available : ctx.keysUnavailable = false) (reason : FetchReason) :
    ctx.Keeps (directoryFailOpen ctx reason).2 :=
  ⟨rfl, rfl, rfl, fun unavailable => by simp [available] at unavailable⟩

/-- A failure of the fetch is settled when nothing usable stays behind. -/
theorem directoryFailOpen_stage (ctx : Context) (unclaimed : ctx.claimed = false)
    (held : ctx.jwks = [] ∨ ctx.jwks = retained ∧ Usable load retained) (available : ctx.keysUnavailable = false)
    (covered : ctx.jwks = [] → ¬ Usable load retained) (reason : FetchReason) :
    Stage load retained (directoryFailOpen ctx reason).2 := by
  refine .settled unclaimed rfl ?_ ?_
  · exact held.imp id fun same => .inl same.1
  · intro unavailable
    have empty : ctx.jwks = [] := by
      simpa [directoryFailOpen, Context.noteFailure, available] using unavailable
    refine ⟨?_, covered empty⟩
    change ¬ Usable load ctx.jwks
    rw [empty]
    exact not_usable_nil load

/-- Declining leaves the context in its stage. -/
theorem directoryDecline_stage (ctx : Context) (unclaimed : ctx.claimed = false)
    (held : ctx.jwks = [] ∨ ctx.jwks = retained) (available : ctx.keysUnavailable = false) :
    Stage load retained (directoryDecline ctx).2 := by
  refine .settled unclaimed rfl (held.imp id .inl) ?_
  intro unavailable
  have both : true = false := unavailable.symm.trans available
  cases both

/-- Declining keeps the context. -/
theorem directoryDecline_keeps (ctx : Context) : ctx.Keeps (directoryDecline ctx).2 := ⟨rfl, rfl, rfl, id⟩

/-- nginx creates the subrequest. -/
def Created (surroundings : Surroundings) : Prop := ∀ uri, surroundings (.subrequest uri) = true

/-- A claimed fetch waits for its subrequest, unless nginx refuses it. -/
theorem directoryFetch_stage (plenty : Plentiful load document surroundings) (conf : DirectoryConf) {ctx : Context}
    (waiting : ctx.directoryDone = false)
    (held : ctx.jwks = [] ∨ ctx.jwks = retained ∧ Usable load retained) (available : ctx.keysUnavailable = false) :
    (directoryFetch conf ctx).Yields surroundings fun _ out => ctx.Keeps out.2 ∧
      ((ctx.jwks = [] → Usable load retained → Created surroundings) → Stage load retained out.2) := by
  simp only [directoryFetch, Prog.ask_bind, Prog.yields_call]
  split
  · rename_i refused
    simp [plenty.cleanup] at refused
  rw [Prog.yields_call]
  split
  · rename_i refused
    simp [plenty.room] at refused
  rw [Prog.yields_call]
  split
  · rename_i refused
    refine ⟨directoryFailOpen_keeps _ available .failed, ?_⟩
    intro created
    apply directoryFailOpen_stage { ctx with claimed := false } rfl held available
    intro empty usable
    simp [created empty usable _] at refused
  · exact ⟨⟨rfl, rfl, rfl, id⟩, fun _ => .fetching rfl waiting held available⟩

/-- With room, the keys of a context are those its document loads to. -/
theorem resolveKeysOf_run (plenty : Plentiful load document surroundings) {ctx : Context} (filled : ctx.jwks ≠ []) :
    (resolveKeysOf ctx).run surroundings = load ctx.jwks := by
  rw [resolveKeysOf, if_neg (by simpa using filled)]
  exact plenty.resolves _ _ _

/-- The hit branch keeps the context and its stage. -/
theorem directoryHit_stage (plenty : Plentiful load document surroundings) (lcf : Location) (keyid : Bytes)
    (ctx : Context) (waiting : ctx.directoryDone = false) (unclaimed : ctx.claimed = false)
    (available : ctx.keysUnavailable = false) (same : ctx.jwks = retained) (filled : ctx.jwks ≠ []) :
    (directoryHit lcf keyid ctx).Yields surroundings fun _ out => ctx.Keeps out.2 ∧ Stage load retained out.2 := by
  have declined : ctx.Keeps (directoryDecline ctx).2 ∧ Stage load retained (directoryDecline ctx).2 :=
    ⟨directoryDecline_keeps ctx, directoryDecline_stage ctx unclaimed (.inr same) available⟩
  unfold directoryHit
  split
  · exact declined
  rw [Prog.yields_bind]
  simp only [Prog.Yields, resolveKeysOf_run plenty filled]
  split
  · exact declined
  rename_i rotating
  have usable : Usable load retained := by
    subst same
    refine ⟨filled, ?_⟩
    cases loaded : load ctx.jwks with
    | none => simp [rotationSignal, loaded] at rotating
    | some keys => rfl
  simp only [Prog.ask_bind, Prog.run_call]
  split
  · obtain ⟨keeps, stage⟩ := directoryFetch_stage plenty lcf.directory waiting (.inr ⟨same, usable⟩) available
    exact ⟨keeps, stage fun empty => absurd empty filled⟩
  · exact declined

/-- The claim of a lookup whose document is usable has to get its subrequest. -/
theorem directoryAnswered_stage (plenty : Plentiful load document surroundings) (lcf : Location) (keyid : Bytes)
    {answer : Cache.Answer} (ctx : Context) (waiting : ctx.directoryDone = false) (unclaimed : ctx.claimed = false)
    (available : ctx.keysUnavailable = false) (empty : ctx.jwks = []) (served : Served retained answer) :
    (directoryAnswered lcf keyid answer ctx).Yields surroundings fun _ out => ctx.Keeps out.2 ∧
      ((answer.status = some .claimed → Usable load retained → Created surroundings) →
        Stage load retained out.2) := by
  have unavailable (absent : retained = []) (reason : FetchReason) :
      Stage load retained (directoryFailOpen ctx reason).2 := by
    apply directoryFailOpen_stage ctx unclaimed (.inl empty) available
    intro _
    rw [absent]
    exact not_usable_nil load
  cases served with
  | hit generation held =>
      obtain ⟨keeps, stage⟩ := directoryHit_stage plenty lcf keyid { ctx with jwks := retained } waiting
        unclaimed available rfl held
      exact ⟨keeps, fun _ => stage⟩
  | busy generation =>
      simp only [directoryAnswered]
      split
      · exact ⟨⟨rfl, rfl, rfl, id⟩, fun _ =>
          directoryDecline_stage { ctx with jwks := retained } unclaimed (.inr rfl) available⟩
      · rename_i absent
        exact ⟨directoryFailOpen_keeps ctx available .busy, fun _ =>
          unavailable (List.eq_nil_of_length_eq_zero (by omega)) .busy⟩
  | negative absent =>
      exact ⟨directoryFailOpen_keeps ctx available .unavailable, fun _ => unavailable absent .unavailable⟩
  | unavailable absent =>
      exact ⟨directoryFailOpen_keeps ctx available .unavailable, fun _ => unavailable absent .unavailable⟩
  | claimed =>
      obtain ⟨keeps, stage⟩ := directoryFetch_stage plenty lcf.directory waiting (.inl empty) available
      exact ⟨keeps, fun created => stage fun _ => created rfl⟩

/-- A usable document that a claimed lookup found is only given up when nginx refuses the subrequest. -/
def Pursued (load : Bytes → Option Keys) (retained : Bytes) (surroundings : Surroundings)
    (calls : List Call) : Prop :=
  calls.any Call.claims = true → Usable load retained → Created surroundings

/-- The handler leaves the fetch in a stage. -/
def Staged (load : Bytes → Option Keys) (document : Bytes → Bytes) (surroundings : Surroundings) (ctx : Context)
    (calls : List Call) (after : Context) : Prop :=
  ctx.Keeps after ∧
    (Pursued load (retain document [] calls) surroundings calls → Stage load (retain document [] calls) after)

/-- A call that neither looks up nor claims does not change the stage. -/
theorem Staged.cons {ctx after : Context} {calls : List Call} {call : Call}
    (staged : Staged load document surroundings ctx calls after) (quiet : call.lookedUp = none)
    (unclaiming : call.claims = false) : Staged load document surroundings ctx (call :: calls) after := by
  simpa only [Staged, Pursued, retain, List.findSome?_cons, quiet, List.any_cons, unclaiming, Bool.false_or]
    using staged

/-- The lookup leaves the context in a stage that agrees with the cache. -/
theorem directoryLookup_stage (plenty : Plentiful load document surroundings) (lcf : Location) (keyid : Bytes)
    (ctx : Context) (waiting : ctx.directoryDone = false) (unclaimed : ctx.claimed = false)
    (available : ctx.keysUnavailable = false) (empty : ctx.jwks = []) :
    (directoryLookup lcf keyid ctx).Yields surroundings fun calls out =>
      Staged load document surroundings ctx calls out.2 := by
  simp only [directoryLookup, Prog.ask_bind, Prog.yields_call]
  have served := plenty.served ctx.directoryHost (surroundings .time)
  obtain ⟨keeps, stage⟩ := directoryAnswered_stage plenty lcf keyid
    { ctx with directoryGeneration := (surroundings (.lookup ctx.directoryHost (surroundings .time))).generation }
    waiting unclaimed available empty served
  refine ⟨keeps, ?_⟩
  intro pursued
  apply stage
  intro claimed usable
  apply pursued _ usable
  simp [Call.claims, claimed]

/-- A first run of the handler leaves the context in a stage. -/
theorem directoryStart_stage (plenty : Plentiful load document surroundings) (lcf : Location)
    (headers : List RawHeader) (ctx : Context) (waiting : ctx.directoryDone = false)
    (unclaimed : ctx.claimed = false) (available : ctx.keysUnavailable = false) (empty : ctx.jwks = []) :
    (directoryStart lcf headers ctx).Yields surroundings fun calls out =>
      Staged load document surroundings ctx calls out.2 := by
  have declined : Staged load document surroundings ctx [] (directoryDecline ctx).2 :=
    ⟨directoryDecline_keeps ctx, fun _ => directoryDecline_stage ctx unclaimed (.inl empty) available⟩
  have refused : Staged load document surroundings ctx [] (directoryFailOpen ctx .notAllowed).2 :=
    ⟨directoryFailOpen_keeps ctx available .notAllowed, fun _ =>
      directoryFailOpen_stage ctx unclaimed (.inl empty) available (fun _ => not_usable_nil load) .notAllowed⟩
  have agent (sigAgent : List Bytes) (label keyid : Bytes) :
      (directoryAgent lcf sigAgent label keyid ctx).Yields surroundings fun calls out =>
        Staged load document surroundings ctx calls out.2 := by
    simp only [directoryAgent, Prog.ask_bind, Prog.yields_call]
    split
    · exact (refused.cons rfl rfl).cons rfl rfl
    rename_i host normalized
    split
    · exact (refused.cons rfl rfl).cons rfl rfl
    · apply (directoryLookup_stage plenty lcf keyid { ctx with directoryHost := host } waiting unclaimed
        available empty).imp
      intro calls out staged
      exact (Staged.cons staged rfl rfl).cons rfl rfl
  simp only [directoryStart, Prog.ask_bind, Prog.yields_call]
  split
  · rename_i full
    simp [plenty.room] at full
  rw [Prog.yields_call]
  split
  · rename_i full
    simp [plenty.room] at full
  split
  · exact (declined.cons rfl rfl).cons rfl rfl
  rw [Prog.yields_call]
  split
  · rename_i full
    simp [plenty.room] at full
  split
  · exact ((declined.cons rfl rfl).cons rfl rfl).cons rfl rfl
  · apply (agent _ _ _).imp
    intro calls out staged
    exact ((staged.cons rfl rfl).cons rfl rfl).cons rfl rfl

/-- Everything that a run of the directory handler can do with the stage of its request. -/
inductive Handles (load : Bytes → Option Keys) (document : Bytes → Bytes) (surroundings : Surroundings)
    (before : Option Context) : List Call → PhaseRc × Option Context → Prop
  | skipped {rc : PhaseRc} : Handles load document surroundings before [] (rc, before)
  | late {rc : PhaseRc} {ctx : Context} (present : before = some ctx) (unclaimed : ctx.claimed = false)
      (waiting : ctx.directoryDone = false) :
      Handles load document surroundings before [] (rc, some { ctx with directoryDone := true })
  | started {calls : List Call} {rc : PhaseRc} {ctx : Context}
      (idle : ∀ ctx ∈ before, ctx.claimed = false ∧ ctx.directoryDone = false)
      (staged : Staged load document surroundings (before.getD Context.zero) calls ctx) :
      Handles load document surroundings before calls (rc, some ctx)

/-- Every run of the handler leaves a stage or the context it found. -/
theorem directoryHandler_handles (plenty : Plentiful load document surroundings) (lcf : Location)
    (headers : List RawHeader) {before : Option Context}
    (fresh : ∀ ctx ∈ before, ctx.claimed = false → ctx.directoryDone = false →
      ctx.keysUnavailable = false ∧ ctx.jwks = []) :
    (directoryHandler lcf headers before).Yields surroundings (Handles load document surroundings before) := by
  unfold directoryHandler
  simp only [Prog.pure_eq]
  split
  · rw [Prog.yields_done]
    exact .skipped
  cases before with
  | none =>
      simp only [Prog.ask_bind, Prog.yields_call]
      split
      · rename_i full
        simp [plenty.room] at full
      rw [Prog.yields_bind]
      apply (directoryStart_stage plenty lcf headers Context.zero rfl rfl rfl rfl).imp
      intro calls out staged
      rw [Prog.yields_done, List.append_nil]
      refine .started ?_ (staged.cons rfl rfl)
      intro ctx absent
      cases absent
  | some ctx =>
      dsimp only
      split
      · rw [Prog.yields_done]
        exact .skipped
      rename_i unfinished
      split
      · rw [Prog.yields_done]
        exact .skipped
      rename_i free
      have waiting : ctx.directoryDone = false := by simpa using unfinished
      have unclaimed : ctx.claimed = false := by simpa using free
      split
      · rw [Prog.yields_done]
        exact .late rfl unclaimed waiting
      obtain ⟨available, empty⟩ := fresh ctx rfl unclaimed waiting
      rw [Prog.yields_bind]
      apply (directoryStart_stage plenty lcf headers ctx waiting unclaimed available empty).imp
      intro calls out staged
      rw [Prog.yields_done, List.append_nil]
      refine .started ?_ staged
      rintro other ⟨⟩
      exact ⟨unclaimed, waiting⟩

/-- The response is accepted, and its document is parsed. -/
def Accepted (load : Bytes → Option Keys) (conf : DirectoryConf) (response : Directory.Response) : Prop :=
  response.ok = true ∧ (load response.body).isSome = true ∧ ∃ upstream ∈ response.upstream,
    Directory.checkResponse (Directory.bareSchema upstream.schema) response.status response.contentType
      conf.mediaType response.body.length conf.maxSize = .ok ()

/-- An accepted response has a body. -/
theorem checkResponse_filled {schema contentType mediaType : Bytes} {status length maxSize : Nat}
    (accepted : Directory.checkResponse schema status contentType mediaType length maxSize = .ok ()) :
    length ≠ 0 := by
  unfold Directory.checkResponse at accepted
  simp only [if_error_eq_ok] at accepted
  exact accepted.2.2.2.2.2.1

/-- The end of a fetch settles its context. -/
def Settles (load : Bytes → Option Keys) (retained : Bytes) (conf : DirectoryConf) (response : Directory.Response)
    (ctx after : Context) : Prop :=
  ctx.Keeps after ∧
    ((ctx.jwks = [] → Usable load retained → Accepted load conf response) → Stage load retained after)

/-- Releasing after a rejected response settles the context. -/
theorem directoryRelease_settles {ctx : Context}
    (held : ctx.jwks = [] ∨ ctx.jwks = retained ∧ Usable load retained) (available : ctx.keysUnavailable = false)
    {conf : DirectoryConf} {response : Directory.Response} (rejected : ¬ Accepted load conf response)
    (reason : FetchReason) (now : Int) :
    (directoryRelease conf ctx reason now).Yields surroundings fun _ after =>
      Settles load retained conf response ctx after := by
  refine ⟨directoryFailOpen_keeps ctx available reason, ?_⟩
  intro pursued
  apply directoryFailOpen_stage { ctx with claimed := false } rfl held available
  intro empty usable
  exact rejected (pursued empty usable)

/-- The completion of a fetch settles the context, whatever the response. -/
theorem directoryDone_settles (plenty : Plentiful load document surroundings) (conf : DirectoryConf)
    (response : Directory.Response) {ctx : Context}
    (held : ctx.jwks = [] ∨ ctx.jwks = retained ∧ Usable load retained) (available : ctx.keysUnavailable = false) :
    (directoryDone conf response ctx).Yields surroundings fun _ after =>
      Settles load retained conf response ctx after := by
  unfold directoryDone
  split
  · rename_i upstream succeeded answered
    rw [Prog.yields_bind]
    simp only [Prog.ask_bind, Prog.Yields, Prog.run_call]
    split
    · rename_i reason checked
      apply directoryRelease_settles held available
      rintro ⟨_, _, other, found, accepted⟩
      obtain rfl : upstream = other := Option.some.inj (answered.symm.trans found)
      rw [checked] at accepted
      cases accepted
    rename_i checked
    simp only [directoryAccept, Prog.ask_bind, Prog.run_call]
    split
    · rename_i full
      simp [plenty.room] at full
    simp only [Prog.run_call]
    split
    · rename_i refused
      apply directoryRelease_settles held available
      rintro ⟨_, loaded, _⟩
      simp [plenty.loads, loaded] at refused
    · rename_i loads
      refine ⟨⟨rfl, rfl, rfl, id⟩, fun _ => ?_⟩
      have filled : response.body ≠ [] := fun empty => checkResponse_filled checked (by simp [empty])
      have usable : Usable load response.body :=
        ⟨filled, Option.isSome_iff_ne_none.mpr (by simpa [plenty.loads] using loads)⟩
      refine .settled rfl rfl (.inr (.inr usable)) ?_
      intro unavailable
      change ctx.keysUnavailable = true at unavailable
      simp [available] at unavailable
  · rename_i other
    rw [Prog.ask_bind, Prog.yields_call]
    apply directoryRelease_settles held available
    rintro ⟨succeeded, _, upstream, found, _⟩
    exact other upstream succeeded found

end Handler

/-- Evaluations read the context and write only what an access decision needs. -/
structure Marked (before after : RequestCtx) (dynamicKeys : Option Keys) : Prop where
  done : after.done = true
  jwks : after.jwks = before.jwks
  unavailable : after.keysUnavailable = true →
    before.keysUnavailable = true ∨ dynamicKeys = none ∧ before.jwks ≠ []
  still : before.keysUnavailable = true → after.keysUnavailable = true

/-- Noting the keys of an evaluation marks it as done. -/
theorem noteKeys_marked (dynamicKeys : Option Keys) (before : RequestCtx) :
    Marked before (noteKeys dynamicKeys { before with done := true, result := .notSigned }) dynamicKeys := by
  unfold noteKeys
  split
  · rename_i missing
    refine ⟨rfl, rfl, fun _ => .inr ⟨Option.isNone_iff_eq_none.mp missing.1, ?_⟩, fun _ => rfl⟩
    simpa using missing.2
  · exact ⟨rfl, rfl, .inl, id⟩

/-- Noting the verdict keeps the mark of the evaluation. -/
theorem noteVerdict_marked {before ctx : RequestCtx} {dynamicKeys : Option Keys}
    (noted : Marked before ctx dynamicKeys) (sig : Profile.Signature) (verdict : Verdict) :
    Marked before (noteVerdict sig verdict ctx) dynamicKeys := by
  unfold noteVerdict
  dsimp only
  split <;> exact ⟨noted.1, noted.2, noted.3, noted.4⟩

/-- A declined verification is judged by its result, and only missing keys turn an unknown key id into a pass. -/
theorem declined_judged {static : Option Keys} {evaluation : Evaluation} {ctx : RequestCtx} {result : Result}
    (same : evaluation.lcf.jwksKeys = static) (thumbprints : ∀ source ∈ static, source.has [] = false)
    (failed : evaluation.outcome = .error (.declined result)) :
    Judged static evaluation { ctx with result := declinedResult ctx result } := by
  obtain impossible | ⟨other, member, found⟩ := (Profile.verify_fails _ _ _).of_eq failed
  · cases impossible
  cases found
  by_cases unsigned : result = .notSigned
  · subst unsigned
    exact .notSigned failed
  by_cases unknown : result = .unknownKeyid ∨ result = .keyidNotThumbprint
  · by_cases unavailable : ctx.keysUnavailable = true
    · exact .unknown unavailable (Evaluation.misses_static same thumbprints failed unknown)
    · apply Judged.failed
      rw [declinedResult, if_neg fun both => unavailable both.2]
      rcases unknown with rfl | rfl <;> simp
  · apply Judged.failed
    simp only [declinedResult, unknown, false_and, if_false]
    refine ⟨?_, unsigned, ?_⟩ <;> rintro rfl <;> simp at member

/-- An evaluation that begins marks the context and judges it. -/
theorem evaluate_judged (crc : Bytes → UInt32) {lcf : LocConf} (env : Env) (req : Base.Request)
    (state : RequestState) (store : NonceStore.Store rb) (enabled : lcf.mode ≠ .off)
    (undone : (state.ctx.getD RequestCtx.zero).done = false) {static : Option Keys}
    (thumbprints : ∀ source ∈ static, source.has [] = false) :
    ∃ after, (evaluate crc lcf env req state store).1 = some after ∧
      (evaluate crc lcf env req state store).2.1.ctx = some after ∧
      Marked (state.ctx.getD RequestCtx.zero) after (resolveKeys env (state.ctx.getD RequestCtx.zero).jwks) ∧
      (lcf.jwksKeys = static → Judged static ⟨lcf, env, (state.ctx.getD RequestCtx.zero).jwks, req⟩ after) := by
  unfold evaluate
  simp only [enabled, undone, if_false, Bool.false_eq_true]
  obtain ⟨before, known⟩ : ∃ before, state.ctx.getD RequestCtx.zero = before := ⟨_, rfl⟩
  rw [known] at undone ⊢
  split
  · rename_i absent
    exact ⟨_, rfl, rfl, ⟨rfl, rfl, .inl, id⟩,
      fun _ => .notSigned (Profile.verify_unsigned (Option.isNone_iff_eq_none.mp absent))⟩
  have noted := noteKeys_marked (resolveKeys env before.jwks) before
  generalize noteKeys (resolveKeys env before.jwks)
    { before with done := true, result := .notSigned } = ctx at noted ⊢
  split
  · exact ⟨_, rfl, rfl, ⟨noted.1, noted.2, noted.3, noted.4⟩, fun _ => .internal rfl⟩
  · rename_i result failed
    exact ⟨_, rfl, rfl, ⟨noted.1, noted.2, noted.3, noted.4⟩,
      fun same => declined_judged same thumbprints failed⟩
  · rename_i sig accepted
    exact ⟨_, rfl, rfl, noteVerdict_marked noted sig _, fun _ => .verified accepted⟩

/-- What the directory changes does not change a judgement. -/
theorem Judged.keeps {static : Option Keys} {evaluation : Evaluation} {before after : Context}
    (judged : Judged static evaluation before.toRequestCtx) (keeps : before.Keeps after) :
    Judged static evaluation after.toRequestCtx := by
  obtain ⟨_, internalError, result, unavailable⟩ := keeps
  cases judged with
  | internal failed => exact .internal (internalError.trans failed)
  | verified accepted => exact .verified accepted
  | notSigned declined => exact .notSigned declined
  | unknown missing unknown => exact .unknown (unavailable missing) unknown
  | failed refused =>
      rw [← result] at refused
      exact .failed refused

/-- An evaluation stays in the stage of its context. -/
theorem Stage.evaluated {load : Bytes → Option Keys} {retained : Bytes} {before : Context} {after : RequestCtx}
    (stage : Stage load retained before) {env : Env} (parsed : env.loadKeys = load)
    (marked : Marked before.toRequestCtx after (resolveKeys env before.jwks)) :
    Stage load retained (before.withEvaluated after) := by
  obtain ⟨_, jwks, unavailable, still⟩ := marked
  have unusable : resolveKeys env before.jwks = none ∧ before.jwks ≠ [] → ¬ Usable load before.jwks := by
    rintro ⟨missing, filled⟩ usable
    rw [resolveKeys, if_neg (by simpa using filled), parsed] at missing
    simp [Usable, missing] at usable
  have available (before_ : before.keysUnavailable = false) (held : before.jwks = [] ∨ Usable load before.jwks) :
      after.keysUnavailable = false := by
    by_contra set
    rcases unavailable (by simpa using set) with earlier | missing
    · simp [earlier] at before_
    · rcases held with empty | usable
      · exact missing.2 empty
      · exact unusable missing usable
  cases stage with
  | idle unclaimed waiting empty nothing before_ =>
      exact .idle unclaimed waiting (jwks.trans empty) nothing (available before_ (.inl empty))
  | fetching claimed waiting held before_ =>
      refine .fetching claimed waiting (held.imp jwks.trans fun same => ⟨jwks.trans same.1, same.2⟩) ?_
      rcases held with empty | ⟨same, usable⟩
      · exact available before_ (.inl empty)
      · exact available before_ (.inr (same.symm ▸ usable))
  | settled unclaimed finished held lost =>
      have unchanged : (before.withEvaluated after).jwks = before.jwks := jwks
      refine .settled unclaimed finished (unchanged ▸ held) ?_
      intro set
      rw [unchanged]
      rcases unavailable set with earlier | missing
      · exact lost earlier
      · refine ⟨unusable missing, ?_⟩
        rcases held with empty | same | usable
        · exact absurd empty missing.2
        · exact same ▸ unusable missing
        · exact absurd usable (unusable missing)

namespace Life

variable (crc : Bytes → UInt32) (raw : RawRequest) {life : Life} (lcf : LocConf) {visit : Visit rb}

theorem state_ctx_getD (life : Life) :
    life.state.ctx.getD RequestCtx.zero = (life.ctx.getD Context.zero).toRequestCtx := by
  unfold state
  cases life.ctx <;> rfl

/-- Nothing is evaluated in the mode that is off, and nothing twice. -/
theorem evaluate_skips (full : visit.room = Room.full)
    (skips : lcf.mode = .off ∨ (life.ctx.getD Context.zero).done = true) :
    (life.evaluate crc raw lcf visit).2.2 = life ∧
      (lcf.mode ≠ .off → (life.evaluate crc raw lcf visit).1 = .ok ∧
        (life.evaluate crc raw lcf visit).2.1 = some (life.ctx.getD Context.zero).toRequestCtx) := by
  have written : life.state.ctx.map (life.ctx.getD Context.zero).withEvaluated = life.ctx := by
    unfold state
    cases life.ctx <;> rfl
  have kept : { life.put (life.state.ctx.map (life.ctx.getD Context.zero).withEvaluated) [] with
      verdict := life.state.verdict } = life := by
    rw [written, put_ctx]
    rfl
  unfold evaluate
  rw [full, evaluateIn_full]
  unfold Module.evaluate
  by_cases off : lcf.mode = .off
  · simp only [off, if_true]
    exact ⟨kept, fun enabled => absurd rfl enabled⟩
  · have done : (life.state.ctx.getD RequestCtx.zero).done = true := by
      rw [state_ctx_getD]
      exact skips.resolve_left off
    simp only [off, if_false, done, if_true]
    exact ⟨kept, fun _ => ⟨trivial, congrArg some (state_ctx_getD life)⟩⟩

/-- An evaluation that begins judges the context. -/
theorem evaluate_begins (full : visit.room = Room.full) (enabled : lcf.mode ≠ .off)
    (undone : (life.ctx.getD Context.zero).done = false) {static : Option Keys}
    (thumbprints : ∀ source ∈ static, source.has [] = false) :
    ∃ after, (life.evaluate crc raw lcf visit).1 = .ok ∧ (life.evaluate crc raw lcf visit).2.1 = some after ∧
      (life.evaluate crc raw lcf visit).2.2.ctx = some ((life.ctx.getD Context.zero).withEvaluated after) ∧
      Marked (life.ctx.getD Context.zero).toRequestCtx after
        (resolveKeys visit.env (life.ctx.getD Context.zero).jwks) ∧
      (lcf.jwksKeys = static →
        Judged static ⟨lcf, visit.env, (life.ctx.getD Context.zero).jwks, visit.request raw⟩ after) := by
  rw [← state_ctx_getD] at undone
  obtain ⟨after, returned, written, evaluated, judged⟩ := evaluate_judged crc visit.env (visit.request raw)
    life.state visit.store enabled undone thumbprints
  rw [state_ctx_getD] at evaluated judged
  refine ⟨after, ?_, ?_, ?_, evaluated, judged⟩
  · unfold evaluate
    rw [full, evaluateIn_full]
  · unfold evaluate
    rw [full, evaluateIn_full]
    exact returned
  · unfold evaluate
    rw [full, evaluateIn_full]
    change (life.put ((Module.evaluate crc lcf visit.env (visit.request raw) life.state visit.store).2.1.ctx.map
      (life.ctx.getD Context.zero).withEvaluated) []).ctx = _
    rw [put_ctx_or, written]
    rfl

end Life

/-- A request with the document that the zone held at its last lookup, and with its last evaluation. -/
structure World where
  life : Life
  retained : Bytes
  evaluation : Option Evaluation

/-- These are the moves of a request with enough memory. -/
inductive Happening (rb : Balanced Nat) where
  | handle (lcf : Location) (scene : Scene rb)
  | read (lcf : Location) (visit : Visit rb)
  | finish (index : Option Nat) (conf : DirectoryConf) (response : Directory.Response) (scene : Scene rb)
  | redirect
  | destroy (scene : Scene rb)

def Happening.move (crc : Bytes → UInt32) (load : Bytes → Option Keys) : Happening rb → Move rb
  | .handle lcf scene => .handle lcf (scene.surroundings crc load)
  | .read lcf visit => .read lcf visit
  | .finish index conf response scene => .finish index conf response (scene.surroundings crc load)
  | .redirect => .redirect
  | .destroy scene => .destroy (scene.surroundings crc load)

/-- An evaluation has enough memory, and it parses the documents as the handlers do. -/
def Happening.Promised (load : Bytes → Option Keys) : Happening rb → Prop
  | .read _ visit => visit.room = Room.full ∧ visit.env.loadKeys = load
  | _ => True

namespace World

def init : World := ⟨Life.init, [], none⟩

section Step

variable (crc : Bytes → UInt32) (raw : RawRequest) (load : Bytes → Option Keys)

/-- These are the calls of the directory handler. -/
def calls (world : World) (lcf : Location) (scene : Scene rb) : List Call :=
  (directoryHandler lcf raw.headers world.life.ctx).trace (scene.surroundings crc load)

/-- A lookup retains a document until the next internal redirect. -/
def retainedAfter (world : World) : Happening rb → Bytes
  | .handle lcf scene => retain (scene.document crc) world.retained (world.calls crc raw load lcf scene)
  | .redirect => []
  | .read .. | .finish .. | .destroy _ => world.retained

/-- A read evaluates a context that was not evaluated before. -/
def evaluationAfter (world : World) : Happening rb → Option Evaluation
  | .read lcf visit =>
      let ctx := world.life.ctx.getD Context.zero
      if lcf.mode = .off ∨ ctx.done = true then world.evaluation
      else some ⟨lcf.toLocConf, visit.env, ctx.jwks, visit.request raw⟩
  | .redirect => none
  | .handle .. | .finish .. | .destroy _ => world.evaluation

def step (world : World) (next : Happening rb) : World where
  life := world.life.move crc raw (next.move crc load)
  retained := world.retainedAfter crc raw load next
  evaluation := world.evaluationAfter raw next

/-- The permitted moves that meet the condition come in any order. -/
inductive Reaches (condition : World → Happening rb → Prop) : World → Prop
  | init : Reaches condition init
  | step {world : World} (next : Happening rb) (before : Reaches condition world)
      (permitted : world.life.Permitted (next.move crc load)) (promised : next.Promised load)
      (met : condition world next) : Reaches condition (world.step crc raw load next)

/-- A claimed fetch of a host whose held document is usable does not fail. -/
def Meets (world : World) : Happening rb → Prop
  | .handle lcf scene =>
      let calls := world.calls crc raw load lcf scene
      Pursued load (retain (scene.document crc) [] calls) (scene.surroundings crc load) calls
  | .finish none conf response _ =>
      (∀ ctx ∈ world.life.ctx, ctx.jwks = []) → Usable load world.retained → Accepted load conf response
  | .read .. | .finish (some _) .. | .redirect | .destroy _ => True

end Step

/-- The signature of the request verified. -/
def Verified (world : World) : Prop := ∃ evaluation ∈ world.evaluation, ∃ sig, evaluation.outcome = .ok sig

def NotSigned (world : World) : Prop :=
  ∃ evaluation ∈ world.evaluation, evaluation.outcome = .error (.declined .notSigned)

/-- No static key has the key id, and no usable document is held for the request. -/
def Unknown (load : Bytes → Option Keys) (static : Option Keys) (world : World) : Prop :=
  (∃ evaluation ∈ world.evaluation, evaluation.Misses static) ∧
    (∀ ctx ∈ world.life.ctx, ¬ Usable load ctx.jwks) ∧ ¬ Usable load world.retained

/-- The first evaluation of a request is under the location of the read. -/
theorem read_evaluation {crc : Bytes → UInt32} {raw : RawRequest} {load : Bytes → Option Keys} {world : World}
    {lcf : Location} {visit : Visit rb} {evaluation : Evaluation} (unevaluated : world.evaluation = none)
    (found : evaluation ∈ (world.step crc raw load (.read lcf visit)).evaluation) :
    evaluation.lcf = lcf.toLocConf := by
  change evaluation ∈ world.evaluationAfter raw (.read lcf visit) at found
  unfold evaluationAfter at found
  dsimp only at found
  split at found
  · rw [unevaluated] at found
    cases found
  · cases found
    rfl

/-- The context of a request is in a stage, and its evaluation was judged when it had these static keys. -/
structure Kept (load : Bytes → Option Keys) (static : Option Keys) (world : World) : Prop where
  fresh : world.life.ctx = none → world.retained = []
  staged : ∀ ctx ∈ world.life.ctx, Stage load world.retained ctx
  judged : ∀ ctx ∈ world.life.ctx, ctx.done = true →
    ∃ evaluation ∈ world.evaluation, evaluation.lcf.jwksKeys = static → Judged static evaluation ctx.toRequestCtx

variable {crc : Bytes → UInt32} {raw : RawRequest} {load : Bytes → Option Keys} {static : Option Keys} {world : World}

/-- The invariant holds before the request starts. -/
theorem Kept.init : Kept load static init where
  fresh _ := rfl
  staged ctx absent := by cases absent
  judged ctx absent := by cases absent

/-- A run of the directory handler keeps a stage. -/
theorem Kept.handle (kept : world.Kept load static) (lcf : Location) (scene : Scene rb)
    (met : world.Meets crc raw load (.handle lcf scene)) :
    (world.step crc raw load (.handle lcf scene)).Kept load static := by
  have fresh : ∀ ctx ∈ world.life.ctx, ctx.claimed = false → ctx.directoryDone = false →
      ctx.keysUnavailable = false ∧ ctx.jwks = [] := by
    intro ctx found unclaimed waiting
    cases kept.staged ctx found with
    | idle _ _ empty _ available => exact ⟨available, empty⟩
    | fetching claimed _ _ _ => simp [unclaimed] at claimed
    | settled _ finished _ _ => simp [waiting] at finished
  have handled := directoryHandler_handles (scene.plentiful crc load) lcf raw.headers fresh
  have current : (world.step crc raw load (.handle lcf scene)).life.ctx = ((directoryHandler lcf raw.headers
      world.life.ctx).run (scene.surroundings crc load)).2.or world.life.ctx := Life.put_ctx_or ..
  have retained : (world.step crc raw load (.handle lcf scene)).retained =
      retain (scene.document crc) world.retained (world.calls crc raw load lcf scene) := rfl
  have evaluation : (world.step crc raw load (.handle lcf scene)).evaluation = world.evaluation := rfl
  unfold Prog.Yields at handled
  change Handles load (scene.document crc) (scene.surroundings crc load) world.life.ctx
    (world.calls crc raw load lcf scene) _ at handled
  change Pursued load (retain (scene.document crc) [] (world.calls crc raw load lcf scene))
    (scene.surroundings crc load) (world.calls crc raw load lcf scene) at met
  generalize world.step crc raw load (.handle lcf scene) = after at current retained evaluation ⊢
  generalize world.calls crc raw load lcf scene = calls at handled met retained
  generalize (directoryHandler lcf raw.headers world.life.ctx).run (scene.surroundings crc load) = out
    at handled current
  cases handled with
  | skipped =>
      have same : after.life.ctx = world.life.ctx := by rw [current, Option.or_self]
      have still : after.retained = world.retained := retained
      refine ⟨?_, ?_, ?_⟩
      · rw [same, still]
        exact kept.fresh
      · rw [same, still]
        exact kept.staged
      · rw [same, evaluation]
        exact kept.judged
  | @late _ ctx present unclaimed waiting =>
      have same : after.life.ctx = some { ctx with directoryDone := true } := current
      have still : after.retained = world.retained := retained
      refine ⟨fun absent => by simp [same] at absent, ?_, ?_⟩
      · rw [same, still]
        rintro _ ⟨⟩
        cases kept.staged ctx present with
        | idle _ _ empty nothing available =>
            exact directoryDecline_stage ctx unclaimed (.inl empty) available
        | fetching claimed _ _ _ => simp [unclaimed] at claimed
        | settled _ finished _ _ => simp [waiting] at finished
      · rw [same, evaluation]
        rintro _ ⟨⟩ done
        exact kept.judged ctx present done
  | @started _ _ ctx idle staged =>
      have same : after.life.ctx = some ctx := current
      have nothing : world.retained = [] := by
        cases before : world.life.ctx with
        | none => exact kept.fresh before
        | some earlier =>
            obtain ⟨unclaimed, waiting⟩ := idle earlier before
            cases kept.staged earlier before with
            | idle _ _ _ nothing _ => exact nothing
            | fetching claimed _ _ _ => simp [unclaimed] at claimed
            | settled _ finished _ _ => simp [waiting] at finished
      rw [nothing] at retained
      refine ⟨fun absent => by simp [same] at absent, ?_, ?_⟩
      · rw [same, retained]
        rintro _ ⟨⟩
        exact staged.2 met
      · rw [same, evaluation]
        rintro _ ⟨⟩ done
        cases before : world.life.ctx with
        | none =>
            rw [before] at staged
            have undone : ctx.done = false := staged.1.1
            simp [done] at undone
        | some earlier =>
            rw [before] at staged
            obtain ⟨evaluation, found, judged⟩ := kept.judged earlier before (staged.1.1.symm.trans done)
            exact ⟨evaluation, found, fun same => (judged same).keeps staged.1⟩

/-- A promised read keeps the invariant. -/
theorem Kept.read (kept : world.Kept load static) (thumbprints : ∀ source ∈ static, source.has [] = false)
    (lcf : Location) (visit : Visit rb) (promised : (Happening.read lcf visit).Promised load) :
    (world.step crc raw load (.read lcf visit)).Kept load static := by
  obtain ⟨full, parsed⟩ := promised
  by_cases skips : lcf.mode = .off ∨ (world.life.ctx.getD Context.zero).done = true
  · have same : world.step crc raw load (.read lcf visit) = world := by
      have life := (Life.evaluate_skips crc raw lcf.toLocConf full skips).1
      have evaluation : world.evaluationAfter raw (.read lcf visit) = world.evaluation := if_pos skips
      unfold step
      rw [evaluation]
      exact congrArg (fun life => World.mk life world.retained world.evaluation) life
    rw [same]
    exact kept
  · obtain ⟨enabled, unmarked⟩ := not_or.mp skips
    have undone : (world.life.ctx.getD Context.zero).done = false := by simpa using unmarked
    obtain ⟨after, _, _, written, evaluated, judged⟩ :=
      Life.evaluate_begins crc raw lcf.toLocConf full enabled undone thumbprints
    have current : (world.step crc raw load (.read lcf visit)).life.ctx =
        some ((world.life.ctx.getD Context.zero).withEvaluated after) := written
    have evaluation : (world.step crc raw load (.read lcf visit)).evaluation =
        some ⟨lcf.toLocConf, visit.env, (world.life.ctx.getD Context.zero).jwks, visit.request raw⟩ := if_neg skips
    have stage : Stage load world.retained (world.life.ctx.getD Context.zero) := by
      cases before : world.life.ctx with
      | none => exact .idle rfl rfl rfl (kept.fresh before) rfl
      | some ctx => exact kept.staged ctx before
    refine ⟨fun absent => by simp [current] at absent, ?_, ?_⟩
    · rw [current]
      rintro _ ⟨⟩
      exact stage.evaluated parsed evaluated
    · rw [current, evaluation]
      rintro _ ⟨⟩ _
      exact ⟨_, rfl, judged⟩

/-- The end of the fetch of the request settles its context. -/
theorem Kept.finish (kept : world.Kept load static) (phased : ∀ slot ∈ world.life.slots, slot.Phase)
    (index : Option Nat) (conf : DirectoryConf) (response : Directory.Response) (scene : Scene rb)
    (outstanding : ∃ slot ∈ world.life.slotAt index, slot.Outstanding)
    (met : world.Meets crc raw load (.finish index conf response scene)) :
    (world.step crc raw load (.finish index conf response scene)).Kept load static := by
  cases index with
  | some index => exact ⟨kept.fresh, kept.staged, kept.judged⟩
  | none =>
      obtain ⟨slot, found, waits⟩ := outstanding
      have present : world.life.current = some slot := found
      have claimed := (phased slot (Life.slotAt_mem found)).outstanding_iff.mp waits
      have before : world.life.ctx = some slot.ctx := by rw [Life.ctx, present, Option.map_some]
      have settled : Settles load world.retained conf response slot.ctx
          ((directoryDone conf response slot.ctx).run (scene.surroundings crc load)) := by
        cases kept.staged slot.ctx before with
        | idle unclaimed _ _ _ _ | settled unclaimed _ _ _ => simp [claimed] at unclaimed
        | fetching _ _ held available =>
            exact directoryDone_settles (scene.plentiful crc load) conf response held available
      have current : (world.step crc raw load (.finish none conf response scene)).life.ctx =
          some ((directoryDone conf response slot.ctx).run (scene.surroundings crc load)) := by
        change Option.map Slot.ctx (Option.map _ world.life.current) = _
        rw [present]
        rfl
      have pursued : slot.ctx.jwks = [] → Usable load world.retained → Accepted load conf response := by
        intro empty
        apply met
        rw [before]
        rintro _ ⟨⟩
        exact empty
      refine ⟨fun absent => by simp [current] at absent, ?_, ?_⟩
      · rw [current]
        rintro _ ⟨⟩
        exact settled.2 pursued
      · rw [current]
        rintro _ ⟨⟩ done
        obtain ⟨evaluation, known, judged⟩ := kept.judged slot.ctx before (settled.1.1.symm.trans done)
        exact ⟨evaluation, known, fun same => (judged same).keeps settled.1⟩

/-- The moves of a request with its history are moves of the request. -/
theorem Reaches.life {condition : World → Happening rb → Prop} (reaches : Reaches crc raw load condition world) :
    Life.Reaches crc raw (fun (_ : Life) (_ : Move rb) => True) world.life := by
  induction reaches with
  | init => exact .init
  | step next before permitted promised met ih => exact ih.move (next.move crc load) permitted trivial

/-- The invariant holds in every world that promised steps reach. -/
theorem Reaches.kept {world : World} (thumbprints : ∀ source ∈ static, source.has [] = false)
    (reaches : Reaches crc raw load (Meets crc raw load : World → Happening rb → Prop) world)
    (alive : world.life.destroyed = false) : world.Kept load static := by
  induction reaches with
  | init => exact .init
  | @step world next before permitted promised met ih =>
      have earlier : world.life.destroyed = false := by
        cases next with
        | finish => exact permitted.1
        | handle | read | redirect | destroy => exact permitted
      have kept := ih earlier
      cases next with
      | handle lcf scene => exact kept.handle lcf scene met
      | read lcf visit => exact kept.read thumbprints lcf visit promised
      | finish index conf response scene =>
          exact kept.finish ((Life.phased_iff earlier).mp before.life.phased) index conf response scene permitted.2
            met
      | redirect =>
          refine ⟨fun _ => rfl, ?_, ?_⟩
          · intro ctx absent
            cases absent
          · intro ctx absent
            cases absent
      | destroy scene => cases alive

/-- The access decision of a judged context passes for one of three reasons. -/
theorem accessOf_passes {lcf : Location} (enforces : lcf.mode = .enforce) {ctx : RequestCtx}
    {evaluation : Evaluation} (judged : Judged static evaluation ctx)
    (passes : accessOf lcf ctx = .ok ∨ accessOf lcf ctx = .declined) :
    (∃ sig, evaluation.outcome = .ok sig) ∨ evaluation.outcome = .error (.declined .notSigned) ∨
      ctx.keysUnavailable = true ∧ evaluation.Misses static := by
  cases judged with
  | internal failed => simp [accessOf, internalAccess, failed, enforces] at passes
  | verified accepted => exact .inl ⟨_, accepted⟩
  | notSigned declined => exact .inr (.inl declined)
  | unknown unavailable missing => exact .inr (.inr ⟨unavailable, missing⟩)
  | failed refused =>
      obtain ⟨verified, signed, available⟩ := refused
      unfold accessOf at passes
      split at passes
      · simp [internalAccess, enforces] at passes
      · cases result : ctx.result <;>
          simp_all [enforceAccess]

/-- At an enforcing location with room the access phase decides on the verdict it reads. -/
theorem access_read (crc : Bytes → UInt32) (raw : RawRequest) (load : Bytes → Option Keys) (world : World)
    {lcf : Location} (enforces : lcf.mode = .enforce) (visit : Visit rb) (full : visit.room = Room.full)
    {static : Option Keys} (thumbprints : ∀ source ∈ static, source.has [] = false) :
    ∃ ctx, (world.step crc raw load (.read lcf visit)).life.ctx = some ctx ∧ ctx.done = true ∧
      (world.life.access crc raw lcf visit).1 = accessOf lcf ctx.toRequestCtx := by
  have enabled : lcf.mode ≠ .off := by
    rw [enforces]
    decide
  have access : (world.life.access crc raw lcf visit).1 =
      accessDecision lcf (world.life.evaluate crc raw lcf.toLocConf visit).1
        (world.life.evaluate crc raw lcf.toLocConf visit).2.1 := by
    unfold Life.access
    rw [if_neg fun both => both.1 enforces]
  rw [access]
  cases done : (world.life.ctx.getD Context.zero).done with
  | true =>
      obtain ⟨unchanged, decided⟩ := Life.evaluate_skips crc raw lcf.toLocConf full
        (.inr done)
      obtain ⟨returned, out⟩ := decided enabled
      refine ⟨world.life.ctx.getD Context.zero, ?_, done, ?_⟩
      · change (world.life.evaluate crc raw lcf.toLocConf visit).2.2.ctx = _
        rw [unchanged]
        cases before : world.life.ctx with
        | none =>
            rw [before] at done
            cases done
        | some ctx => rfl
      · rw [returned, out]
        rfl
  | false =>
      obtain ⟨after, returned, out, written, marked, _⟩ :=
        Life.evaluate_begins crc raw lcf.toLocConf full enabled done thumbprints
      refine ⟨_, written, marked.done, ?_⟩
      rw [returned, out]
      rfl

/-- A location that enforces passes a request only when its signature verifies, when it is not signed, or when its
key id is unknown and no usable document is held for it, as long as no claimed fetch fails over a usable one and the
evaluation that decides had the static keys of the location. -/
theorem enforced_pass_explained {lcf : Location} (thumbprints : ∀ source ∈ lcf.jwksKeys, source.has [] = false)
    (reaches : Reaches crc raw load (Meets crc raw load : World → Happening rb → Prop) world)
    (alive : world.life.destroyed = false) (enforces : lcf.mode = .enforce) {visit : Visit rb}
    (promised : (Happening.read lcf visit).Promised load)
    (decides : ∀ evaluation ∈ (world.step crc raw load (.read lcf visit)).evaluation,
      evaluation.lcf.jwksKeys = lcf.jwksKeys)
    (passes : (world.life.access crc raw lcf visit).1 = .ok ∨ (world.life.access crc raw lcf visit).1 = .declined) :
    (world.step crc raw load (.read lcf visit)).Verified ∨ (world.step crc raw load (.read lcf visit)).NotSigned ∨
      (world.step crc raw load (.read lcf visit)).Unknown load lcf.jwksKeys := by
  have kept := (reaches.step (.read lcf visit) alive promised trivial).kept thumbprints
    ((Life.put_destroyed ..).trans alive)
  obtain ⟨ctx, current, done, decided⟩ := access_read crc raw load world enforces visit promised.1 thumbprints
  rw [decided] at passes
  obtain ⟨evaluation, found, judged⟩ := kept.judged ctx current done
  rcases accessOf_passes enforces (judged (decides evaluation found)) passes with
    verified | unsigned | ⟨unavailable, missing⟩
  · exact .inl ⟨evaluation, found, verified⟩
  · exact .inr (.inl ⟨evaluation, found, unsigned⟩)
  · obtain ⟨unusable, retained⟩ := (kept.staged ctx current).lost unavailable
    refine .inr (.inr ⟨⟨evaluation, found, missing⟩, ?_, retained⟩)
    rw [current]
    rintro _ ⟨⟩
    exact unusable

/-- The zone holds an expired document of the agent. -/
def expiredZone (jwks : Bytes) : Cache.Zone (plain Nat) :=
  let hash := NonceStore.crc32Long (ascii "b.test")
  ((Cache.Zone.initZone (plain Nat)).insertNew 0 hash (ascii "b.test")).set 0
    { Cache.Zone.newNode hash (ascii "b.test") with jwks := jwks, expiresAt := 1000, generation := 1 }

def expiredScene (jwks : Bytes) : Scene (plain Nat) where
  now := 1100
  zone := expiredZone jwks
  slab := KeyTree.Slab.exhausted Cache.Node
  rotates := false
  creates := true
  generation := 2

/-- One document has the key of the agent, whose signature is wrong. -/
def loadAgent (jwks : Bytes) : Option Keys :=
  if jwks = ascii "jwks" then
    some ⟨fun keyid => keyid == ascii "k", fun _ => false, fun _ _ _ => .declined, fun _ _ _ => .declined⟩
  else none

/-- The upstream does not answer. -/
def failedResponse : Directory.Response := ⟨false, none, 0, [], []⟩

def agentVisit : Visit (plain Nat) where
  room := Room.full
  scheme := ascii "https"
  env := ⟨1100, loadAgent, KeyTree.Slab.exhausted NonceStore.Node, fun _ _ => .abort⟩
  store := NonceStore.Store.initZone (plain Nat)

/-- The handler has claimed the expired entry of the agent. -/
def claimedWorld (jwks : Bytes) : World :=
  init.step NonceStore.crc32Long Profile.agentRequest loadAgent (.handle Life.agentLocation (expiredScene jwks))

/-- The refetch of that entry has failed. -/
def failedWorld (jwks : Bytes) : World :=
  (claimedWorld jwks).step NonceStore.crc32Long Profile.agentRequest loadAgent
    (.finish none Life.agentLocation.directory failedResponse (expiredScene jwks))

/-- The location then evaluates the request. -/
def judgedWorld (jwks : Bytes) : World :=
  (failedWorld jwks).step NonceStore.crc32Long Profile.agentRequest loadAgent
    (.read Life.agentLocation agentVisit)

/-- What the two worlds of the counterexample look like before and after the failed fetch. -/
theorem claimedWorld_facts (jwks : Bytes) (either : jwks = [] ∨ jwks = ascii "jwks") :
    ((claimedWorld jwks).life.current.any fun slot => decide slot.Outstanding) = true ∧
      (claimedWorld jwks).life.destroyed = false ∧ (claimedWorld jwks).retained = jwks ∧
      (failedWorld jwks).life.destroyed = false ∧
      ((failedWorld jwks).life.access NonceStore.crc32Long Profile.agentRequest Life.agentLocation agentVisit).1 =
        .declined ∧
      (judgedWorld jwks).retained = jwks ∧
      (judgedWorld jwks).evaluation.map Evaluation.outcome = some (.error (.declined .unknownKeyid)) := by
  rcases either with rfl | rfl <;> decide +kernel

/-- Two steps reach the world of the failed fetch. -/
theorem failedWorld_reaches {jwks : Bytes} (either : jwks = [] ∨ jwks = ascii "jwks")
    {condition : World → Happening (plain Nat) → Prop}
    (claims : condition init (.handle Life.agentLocation (expiredScene jwks)))
    (fails : condition (claimedWorld jwks)
      (.finish none Life.agentLocation.directory failedResponse (expiredScene jwks))) :
    Reaches NonceStore.crc32Long Profile.agentRequest loadAgent condition (failedWorld jwks) := by
  obtain ⟨outstanding, alive, _⟩ := claimedWorld_facts jwks either
  obtain ⟨slot, found, waits⟩ := (Option.any_eq_true _ _).mp outstanding
  have claimed : Reaches NonceStore.crc32Long Profile.agentRequest loadAgent condition (claimedWorld jwks) :=
    Reaches.init.step (.handle Life.agentLocation (expiredScene jwks)) rfl trivial claims
  exact claimed.step (.finish none Life.agentLocation.directory failedResponse (expiredScene jwks))
    ⟨alive, slot, found, of_decide_eq_true waits⟩ trivial fails

/-- The entry without a document leaves nothing to fall back on. -/
theorem enforced_pass_explained_unfetched :
    (judgedWorld []).Verified ∨ (judgedWorld []).NotSigned ∨ (judgedWorld []).Unknown loadAgent none := by
  obtain ⟨_, _, nothing, alive, passes, _⟩ := claimedWorld_facts [] (.inl rfl)
  have reaches : Reaches NonceStore.crc32Long Profile.agentRequest loadAgent
      (Meets NonceStore.crc32Long Profile.agentRequest loadAgent : World → Happening (plain Nat) → Prop)
      (failedWorld []) := by
    apply failedWorld_reaches (.inl rfl)
    · intro _ _ uri
      rfl
    · intro _ usable
      rw [nothing] at usable
      exact absurd usable (not_usable_nil loadAgent)
  have keyless : ∀ source ∈ Life.agentLocation.jwksKeys, source.has [] = false := by
    intro source absent
    cases absent
  exact enforced_pass_explained keyless reaches alive rfl ⟨rfl, rfl⟩
    (fun _ found => congrArg LocConf.jwksKeys (read_evaluation rfl found)) (.inr passes)

/-- The failed refetch of an expired entry gives up its usable document, so a wrong signature passes. -/
theorem enforced_pass_unexplained :
    ¬ ∀ (crc : Bytes → UInt32) (raw : RawRequest) (load : Bytes → Option Keys) (static : Option Keys)
        (world : World) (lcf : Location) (visit : Visit (plain Nat)),
      (∀ source ∈ static, source.has [] = false) →
      Reaches crc raw load (fun _ (_ : Happening (plain Nat)) => True) world → world.life.destroyed = false →
      lcf.mode = .enforce → lcf.jwksKeys = static → (Happening.read lcf visit).Promised load →
      ((world.life.access crc raw lcf visit).1 = .ok ∨ (world.life.access crc raw lcf visit).1 = .declined) →
      (world.step crc raw load (.read lcf visit)).Verified ∨ (world.step crc raw load (.read lcf visit)).NotSigned ∨
        (world.step crc raw load (.read lcf visit)).Unknown load static := by
  intro explained
  obtain ⟨_, _, _, alive, passes, retained, outcome⟩ := claimedWorld_facts (ascii "jwks") (.inr rfl)
  obtain ⟨evaluation, found, declined⟩ := Option.map_eq_some_iff.mp outcome
  have three := explained NonceStore.crc32Long Profile.agentRequest loadAgent none (failedWorld (ascii "jwks"))
    Life.agentLocation agentVisit (by simp) (failedWorld_reaches (.inr rfl) trivial trivial) alive rfl rfl
    ⟨rfl, rfl⟩ (.inr passes)
  rcases three with ⟨other, same, sig, accepted⟩ | ⟨other, same, unsigned⟩ | ⟨_, _, unusable⟩
  · obtain rfl := Option.mem_unique found same
    rw [declined] at accepted
    cases accepted
  · obtain rfl := Option.mem_unique found same
    rw [declined] at unsigned
    cases unsigned
  · change ¬ Usable loadAgent (judgedWorld (ascii "jwks")).retained at unusable
    rw [retained] at unusable
    exact unusable ⟨by decide, by decide +kernel⟩

end World

end Module
end AuthHttpsig
