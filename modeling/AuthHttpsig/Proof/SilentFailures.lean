/-
This file shows which evaluations report every failure of an allocation or of the key library as an internal
error.
-/

import AuthHttpsig.Proof.AgentShortage
import AuthHttpsig.Proof.RegularLife
import AuthHttpsig.Proof.ReplayKeys

namespace AuthHttpsig

namespace Profile
open Base

/-- These are the steps of a verification before it asks for a key. They give the signature and its base. -/
def prepare (ctx : Ctx) (clock : Int) (req : Request) : Except Failure (Signature × Bytes) := do
  let (sigDict, sig) ← selectSignature ctx req
  if ctx.profile.requireAgentCovered && !(collect req signatureAgent).isEmpty &&
      !sig.covered.contains .signatureAgent then .error (.declined .profileMismatch)
  else if !timeWindow ctx (ctx.effectiveNow clock) sig then .error (.declined .expired)
  else do
    let signature ← ofOption .parseError (signatureOf sigDict sig.label)
    match build req sig.components with
    | .error _ => .error (.declined .parseError)
    | .ok base => return ({ sig with signature := signature }, base)

/-- The keys verify the prepared signature, and the agent is extracted. -/
def answeredIn (room : AgentRoom) (ctx : Ctx) (req : Request) (prepared : Signature × Bytes) :
    Except Failure Signature := do
  verifyEd25519 ctx.keys prepared.1.keyid prepared.2 prepared.1.signature ctx.kidFallbackKeys
  return { prepared.1 with agentHost := agentHostIn room (collect req signatureAgent) prepared.1.label }

/-- A step before the keys has no room. -/
def Room.Tight (room : Room) : Prop :=
  room.inputField = false ∨ room.signatureField = false ∨ room.inputDictionary = false ∨
    room.signatureDictionary = false ∨ room.agentLines = false ∨ room.base = false

/-- Only the keys refuse a prepared signature. -/
theorem answeredIn_refused {room : AgentRoom} {ctx : Ctx} {req : Request} {prepared : Signature × Bytes}
    {failure : Failure} (refused : answeredIn room ctx req prepared = .error failure) :
    verifyEd25519 ctx.keys prepared.1.keyid prepared.2 prepared.1.signature ctx.kidFallbackKeys = .error failure := by
  unfold answeredIn at refused
  cases answer : verifyEd25519 ctx.keys prepared.1.keyid prepared.2 prepared.1.signature ctx.kidFallbackKeys with
  | error other =>
      rw [answer] at refused
      cases refused
      rfl
  | ok accepted =>
      rw [answer] at refused
      cases refused

/-- A need that is not met cuts off with an error, for the cause given. -/
theorem cut_need {α : Type} {cause : Prop} {room : Bool} {short : Unit → Except Failure α} {whole : Except Failure α}
    (tight : room = false → cause) (rest : Cut cause .error (short ()) whole) :
    Cut cause .error (need room >>= short) whole := by
  cases room with
  | false => exact .inr ⟨tight rfl, rfl⟩
  | true => exact rest

/-- Without room the selection is cut short. -/
theorem selectSignatureIn_cut (room : Room) (ctx : Ctx) (req : Request) :
    Cut room.Tight .error (selectSignatureIn room ctx req) (selectSignature ctx req) := by
  unfold selectSignatureIn selectSignature
  refine (Cut.refl ..).bind fun inputRaw _ => ?_
  refine cut_need (by simp +contextual [Room.Tight]) ?_
  refine (Cut.refl ..).bind fun sigRaw _ => ?_
  refine cut_need (by simp +contextual [Room.Tight]) ?_
  refine cut_need (by simp +contextual [Room.Tight]) ?_
  refine (Cut.refl ..).bind fun inputDict _ => ?_
  exact cut_need (by simp +contextual [Room.Tight]) (Cut.refl ..)

/-- A selected signature has no agent yet. -/
theorem selectSignature_agentHost {ctx : Ctx} {req : Request} {sigDict : Sfv.Dictionary} {sig : Signature}
    (chosen : selectSignature ctx req = .ok (sigDict, sig)) : sig.agentHost = [] := by
  obtain ⟨_, _, _, label, list, carried, _, _, _, _, _, _, _, _, rfl, _⟩ := selectSignature_eq_ok.mp chosen
  rw [selected_eq]

/-- Without room the verification is cut short before it asks for a key. -/
theorem verifyIn_cut (room : Room) (ctx : Ctx) (clock : Int) (req : Request) :
    Cut room.Tight .error (verifyIn room ctx clock req)
      (prepare ctx clock req >>= answeredIn room.agent ctx req) := by
  unfold verifyIn prepare
  rw [bind_assoc]
  refine (selectSignatureIn_cut room ctx req).bind ?_
  rintro ⟨sigDict, sig⟩ chosen
  have agentless := selectSignature_agentHost chosen
  refine cut_need (by simp +contextual [Room.Tight]) ?_
  dsimp only
  split
  · exact .refl ..
  split
  · exact .refl ..
  rw [bind_assoc]
  refine (Cut.refl ..).bind fun signature _ => ?_
  refine cut_need (by simp +contextual [Room.Tight]) ?_
  cases build req sig.components with
  | error _ => exact .refl ..
  | ok base =>
      refine (Cut.refl ..).bind fun _ _ => .inl ?_
      cases collect req signatureAgent with
      | nil =>
          have empty : agentHostIn room.agent [] sig.label = [] := rfl
          simp [empty, agentless]
      | cons line rest => rfl

/-- The steps before the keys fail only with one of these results. -/
theorem prepare_fails (ctx : Ctx) (clock : Int) (req : Request) :
    Fails (Declines [.notSigned, .parseError, .profileMismatch, .expired]) (prepare ctx clock req) := by
  unfold prepare
  apply ((selectSignature_fails ctx req).imp fun _ declines => declines.mono (by simp)).bind
  rintro ⟨sigDict, sig⟩
  dsimp only
  split
  · exact ⟨.profileMismatch, by simp, rfl⟩
  split
  · exact ⟨.expired, by simp, rfl⟩
  apply (ofOption_fails (by simp) _).bind
  intro signature
  split
  · exact ⟨.parseError, by simp, rfl⟩
  · trivial

end Profile

namespace Keys

@[simp] theorem map_answering (keys : Option Keys) : keys.map (answering true true) = keys := by
  cases keys <;> rfl

/-- A key library that fails cuts the check of a signature short. -/
theorem verifyEd25519_cut (verifies verifiesKid : Bool) (keys : Option Keys) (keyid base signature : Bytes) :
    Cut (verifies = false) .error
      (verifyEd25519 (keys.map (answering verifies verifiesKid)) keyid base signature none)
      (verifyEd25519 keys keyid base signature none) := by
  cases keys with
  | none => exact .refl ..
  | some source =>
      cases verifies with
      | true => exact .refl ..
      | false =>
          simp only [verifyEd25519, answering, Option.map_some]
          split
          · exact .refl ..
          split
          · exact .refl ..
          split
          · exact .refl ..
          · exact .inr ⟨trivial, rfl⟩

end Keys

namespace Module

open SearchTree

variable {rb : Balanced Nat}

/-- These fields of a context are the verdict of its evaluation. -/
def RequestCtx.told (ctx : RequestCtx) : Result × Bytes × Bytes := (ctx.result, ctx.keyid, ctx.agent)

/-- The evaluation fails internally, or its verdict is the one of the whole evaluation. -/
def Reported (rc : Rc) (ctx whole : Option RequestCtx) : Prop :=
  rc = .error ∨ (∃ out ∈ ctx, out.internalError = true) ∨ ctx.map RequestCtx.told = whole.map RequestCtx.told

/-- This is the context at the end of an evaluation that judged a signature. -/
def concluded (room : Room) (crc : Bytes → UInt32) (lcf : LocConf) (env : Env) (state : RequestState)
    (store : NonceStore.Store rb) : Except Failure Profile.Signature → RequestCtx
  | .error .error => { keyedIn room env state with internalError := true }
  | .error (.declined result) =>
      { keyedIn room env state with result := declinedResult (keyedIn room env state) result }
  | .ok sig =>
      noteVerdict sig (checkNonceIn room crc lcf env state.verdict sig env.now store).1 (keyedIn room env state)

section Evaluate

variable {crc : Bytes → UInt32} {lcf : LocConf} {env : Env} {req : Base.Request} {state : RequestState}
  {store : NonceStore.Store rb}

/-- An evaluation that judges ends with the concluded context. -/
theorem Judges.ends {room : Room} (judges : Judges room lcf req state) :
    (evaluateIn room crc lcf env req state store).1 = .ok ∧
      (evaluateIn room crc lcf env req state store).2.1 =
        some (concluded room crc lcf env state store (judgedIn room lcf env req state)) := by
  have ended := evaluateIn_ended room crc lcf env req state store
  generalize evaluateIn room crc lcf env req state store = out at ended
  cases ended with
  | disabled off => exact absurd off judges.enabled
  | again _ present done =>
      have fresh := judges.fresh
      rw [present, Option.any_some, done] at fresh
      cases fresh
  | noContext _ absent short =>
      have roomy := judges.roomy
      rw [absent, short] at roomy
      simp at roomy
  | unsigned _ absent =>
      have carried := judges.carried
      rw [absent] at carried
      cases carried
  | noSnapshot _ _ short =>
      have snapshot := judges.snapshot
      rw [short] at snapshot
      cases snapshot
  | failed _ judged ends =>
      rw [judged]
      exact ⟨rfl, congrArg some ends⟩
  | declined _ judged ends =>
      rw [judged]
      exact ⟨rfl, congrArg some ends⟩
  | verified _ judged checked ends =>
      rw [judged, concluded, checked]
      exact ⟨rfl, congrArg some ends⟩

/-- An evaluation that judges no signature reports its failures. -/
theorem reported_unless (room : Room) (unjudged : ¬ Judges room lcf req state) :
    Reported (evaluateIn room crc lcf env req state store).1 (evaluateIn room crc lcf env req state store).2.1
      (evaluateIn Room.full crc lcf env req state store).2.1 := by
  have ended := evaluateIn_ended room crc lcf env req state store
  generalize evaluateIn room crc lcf env req state store = out at ended
  cases ended with
  | disabled off =>
      right; right
      simp [evaluateIn, evaluateOf, off]
  | again enabled present done =>
      right; right
      rw [evaluateIn_done Room.full crc env req store enabled present done]
  | noContext => exact .inl rfl
  | unsigned begins absent =>
      right; right
      rw [evaluateIn, evaluateOf, if_neg begins.enabled, if_neg (by simp [begins.fresh]),
        if_neg (by simp [Room.full])]
      dsimp only
      rw [if_pos (by rw [absent]; rfl)]
      rfl
  | noSnapshot _ _ _ ends => exact .inr (.inl ⟨_, rfl, by rw [ends]⟩)
  | failed judges => exact absurd judges unjudged
  | declined judges => exact absurd judges unjudged
  | verified judges => exact absurd judges unjudged

/-- The steps before the keys give this signature and this base. -/
def Prepared (lcf : LocConf) (env : Env) (req : Base.Request) (sig : Profile.Signature) (base : Bytes) : Prop :=
  Profile.prepare (profileCtx lcf none env.now) env.now req = .ok (sig, base)

/-- The profile is asked with the keys of this room. -/
def ctxIn (room : Room) (lcf : LocConf) (env : Env) (state : RequestState) : Profile.Ctx :=
  profileCtxIn room lcf (resolveKeysIn room env state.begun.jwks) env.now

/-- A judgement that is short of memory is that of the profile or cut off. -/
theorem judgedIn_cut (room : Room) (lcf : LocConf) (env : Env) (req : Base.Request) (state : RequestState) :
    Cut room.profile.Tight .error (judgedIn room lcf env req state)
      (Profile.prepare (profileCtx lcf none env.now) env.now req >>=
        Profile.answeredIn room.profile.agent (ctxIn room lcf env state) req) :=
  Profile.verifyIn_cut room.profile (ctxIn room lcf env state) env.now req

/-- With room before the keys, the answer of the keys decides. -/
theorem Prepared.judged {room : Room} {sig : Profile.Signature} {base : Bytes}
    (prepared : Prepared lcf env req sig base)
    (roomy : ¬ room.profile.Tight) : judgedIn room lcf env req state =
      Profile.answeredIn room.profile.agent (ctxIn room lcf env state) req (sig, base) := by
  have cut := judgedIn_cut room lcf env req state
  rw [prepared, ok_bind] at cut
  exact cut.resolve_right fun tight => roomy tight.1

theorem roomy_full (agentRoom : Profile.AgentRoom) : ¬ ({ Profile.Room.full with agent := agentRoom }).Tight := by
  simp [Profile.Room.Tight, Profile.Room.full]

/-- Noting the keys changes neither the key id nor the agent. -/
theorem keyedIn_names (room : Room) (env : Env) (state : RequestState) :
    (keyedIn room env state).keyid = state.begun.keyid ∧ (keyedIn room env state).agent = state.begun.agent := by
  unfold keyedIn noteKeys
  split <;> exact ⟨rfl, rfl⟩

/-- A judgement that fails before the keys is the same in every room. -/
theorem reported_unprepared {room : Room} {failure : Failure} (judges : Judges room lcf req state)
    (whole : Judges Room.full lcf req state)
    (failed : Profile.prepare (profileCtx lcf none env.now) env.now req = .error failure) :
    Reported (evaluateIn room crc lcf env req state store).1 (evaluateIn room crc lcf env req state store).2.1
      (evaluateIn Room.full crc lcf env req state store).2.1 := by
  obtain ⟨result, member, rfl⟩ := (Profile.prepare_fails ..).of_eq failed
  have plain (ctx : RequestCtx) : declinedResult ctx result = result := by
    unfold declinedResult
    rw [if_neg]
    rintro ⟨rfl | rfl, _⟩ <;> simp at member
  have full := judgedIn_cut Room.full lcf env req state
  have short := judgedIn_cut room lcf env req state
  rw [failed] at full short
  have full : judgedIn Room.full lcf env req state = .error (.declined result) :=
    full.resolve_right fun tight => roomy_full Profile.AgentRoom.full tight.1
  rw [judges.ends.2, whole.ends.2, full]
  rcases short with same | ⟨_, tight⟩
  · have same : judgedIn room lcf env req state = .error (.declined result) := same
    rw [same]
    exact .inr (.inr (by simp only [Option.map_some, RequestCtx.told, concluded, plain, keyedIn_names]))
  · rw [tight]
    exact .inr (.inl ⟨_, rfl, rfl⟩)

/-- Before its evaluation the context has no internal error, and its keys are missing only without a document. -/
structure RequestState.Regular (state : RequestState) : Prop where
  sound : state.begun.internalError = false
  available : state.begun.jwks ≠ [] → state.begun.keysUnavailable = false
  keyless : ∀ verdict ∈ state.verdict, verdict.result ∉ keyResults

/-- With room the judgement itself never reports the keys as unavailable. -/
theorem judgedIn_ne_keyUnavailable (lcf : LocConf) (env : Env) (req : Base.Request) (state : RequestState) :
    judgedIn Room.full lcf env req state ≠ .error (.declined .keyUnavailable) := by
  intro judged
  have verified : judgedIn Room.full lcf env req state =
      Profile.verify (ctxIn Room.full lcf env state) env.now req := Profile.verifyIn_full ..
  rw [verified] at judged
  rcases (Profile.verify_fails ..).of_eq judged with same | ⟨result, member, same⟩
  · cases same
  · cases same
    simp at member

/-- With the keys of its document, the whole evaluation tells no missing key, and it tells an unknown key only where
the keys say so. -/
theorem whole_keyResult (crc : Bytes → UInt32) (lcf : LocConf) (req : Base.Request) (store : NonceStore.Store rb)
    (regular : state.Regular) {keys : Keys} (resolved : resolveKeys env state.begun.jwks = some keys) :
    let result := (concluded Room.full crc lcf env state store (judgedIn Room.full lcf env req state)).result
    result ≠ .keyUnavailable ∧
      (result = .unknownKeyid → judgedIn Room.full lcf env req state = .error (.declined .unknownKeyid)) := by
  have filled : state.begun.jwks ≠ [] := by
    intro empty
    rw [empty] at resolved
    cases resolved
  have keyed : keyedIn Room.full env state = state.begun := by
    simp [keyedIn, resolveKeysIn_full, noteKeys, resolved]
  have available := regular.available filled
  have unavailable := judgedIn_ne_keyUnavailable lcf env req state
  dsimp only
  generalize judgedIn Room.full lcf env req state = judged at unavailable ⊢
  rcases judged with (result | _) | sig
  · have plain : declinedResult state.begun result = result := by simp [declinedResult, available]
    simp only [concluded, keyed, plain]
    exact ⟨fun same => unavailable (by rw [same]), fun same => by rw [same]⟩
  · simp [concluded, keyed, RequestState.begun]
  · have checked := checkNonceIn_checked Room.full crc lcf env state.verdict sig store
    have keyless := (checked.no_key_result regular.keyless).1
    simp only [concluded, (noteVerdict_fields ..).1]
    simp only [keyResults, List.mem_cons, List.not_mem_nil, or_false, not_or] at keyless
    exact ⟨keyless.1, fun same => absurd same keyless.2⟩

/-- A key unknown to both sources is unknown to the second. -/
theorem verifyEd25519_chained {first second : Keys} {keyid base signature : Bytes} {fallback : Option Keys}
    (unknown : verifyEd25519 (some (Keys.chained first second)) keyid base signature fallback =
      .error (.declined .unknownKeyid)) :
    verifyEd25519 (some second) keyid base signature none = .error (.declined .unknownKeyid) := by
  unfold verifyEd25519 at unknown ⊢
  dsimp only at unknown ⊢
  split
  · rfl
  rename_i named
  rw [if_neg named] at unknown
  split at unknown
  · cases unknown
  rename_i sized
  rw [if_neg sized]
  split at unknown
  · rename_i missing
    split at unknown
    · rename_i unlabelled
      simp only [Keys.chained, Bool.not_or, Bool.and_eq_true] at missing unlabelled
      rw [if_pos missing.2, if_pos unlabelled.2]
    · split at unknown
      · cases unknown
      · split at unknown <;> cases unknown
  · split at unknown <;> cases unknown

/-- An unknown key is told as it is, or as an unavailable one when the keys are missing. -/
theorem Prepared.unknown {room : Room} {sig : Profile.Signature} {base : Bytes}
    (prepared : Prepared lcf env req sig base)
    (roomy : ¬ room.profile.Tight)
    (unknown : verifyEd25519 (ctxIn room lcf env state).keys sig.keyid base sig.signature
      (ctxIn room lcf env state).kidFallbackKeys = .error (.declined .unknownKeyid)) :
    concluded room crc lcf env state store (judgedIn room lcf env req state) =
      { keyedIn room env state with
        result := if (keyedIn room env state).keysUnavailable then .keyUnavailable else .unknownKeyid } := by
  rw [prepared.judged roomy, Profile.answeredIn, unknown]
  simp [concluded, declinedResult, bind, Except.bind]

/-- There is no room for the document of the keys. -/
def Room.keyless : Room := { Room.full with jwks := false }

/-- There is no room to chain two sources of keys. -/
def Room.unchained : Room := { Room.full with chain := false }

/-- Whether the evaluation judges depends only on the context and the snapshot. -/
theorem Judges.other (room : Room) (judges : Judges Room.full lcf req state) (context : room.context = true)
    (snapshot : room.snapshot = true) : Judges room lcf req state :=
  ⟨⟨judges.enabled, judges.fresh, .inr context⟩, judges.carried, snapshot⟩

/-- A reported judgement has an internal error or the verdict of the whole one. -/
theorem Judges.reported_iff {room : Room} (judges : Judges room lcf req state)
    (whole : Judges Room.full lcf req state) :
    Reported (evaluateIn room crc lcf env req state store).1 (evaluateIn room crc lcf env req state store).2.1
        (evaluateIn Room.full crc lcf env req state store).2.1 ↔
      (concluded room crc lcf env state store (judgedIn room lcf env req state)).internalError = true ∨
        (concluded room crc lcf env state store (judgedIn room lcf env req state)).told =
          (concluded Room.full crc lcf env state store (judgedIn Room.full lcf env req state)).told := by
  rw [judges.ends.1, judges.ends.2, whole.ends.2]
  simp [Reported]

/-- With the keys of a document some failure is told as a verdict about the keys. -/
theorem keys_unreported (regular : state.Regular) (judges : Judges Room.full lcf req state) {sig : Profile.Signature}
    {base : Bytes} (prepared : Prepared lcf env req sig base) {keys : Keys}
    (resolved : resolveKeys env state.begun.jwks = some keys) :
    ¬ ∀ room, Reported (evaluateIn room crc lcf env req state store).1
      (evaluateIn room crc lcf env req state store).2.1 (evaluateIn Room.full crc lcf env req state store).2.1 := by
  intro reported
  have filled : state.begun.jwks ≠ [] := by
    intro empty
    rw [empty] at resolved
    cases resolved
  have roomy := roomy_full Profile.AgentRoom.full
  obtain ⟨notMissing, isUnknown⟩ := whole_keyResult crc lcf req store regular resolved
  -- Without the document the configured keys must know the key.
  have known : verifyEd25519 lcf.jwksKeys sig.keyid base sig.signature none ≠ .error (.declined .unknownKeyid) := by
    intro missing
    have keyed : keyedIn Room.keyless env state =
        { state.begun with keysUnavailable := true, directoryReason := .invalid } := by
      simp [keyedIn, resolveKeysIn, Room.keyless, noteKeys, filled]
    have asked : verifyEd25519 (ctxIn Room.keyless lcf env state).keys sig.keyid base sig.signature
        (ctxIn Room.keyless lcf env state).kidFallbackKeys = .error (.declined .unknownKeyid) := by
      simpa [ctxIn, profileCtxIn, resolveKeysIn, Room.keyless, Room.full, Keys.chainIn] using missing
    have other := ((judges.other Room.keyless rfl rfl).reported_iff judges).mp (reported Room.keyless)
    rw [prepared.unknown roomy asked, keyed] at other
    rcases other with internal | same
    · exact absurd internal (by simp [regular.sound])
    · exact notMissing (congrArg Prod.fst same).symm
  cases static : lcf.jwksKeys with
  | none => exact known (by rw [static]; rfl)
  | some configured =>
      -- Without the chain no key is known, and then the chain has to know none either.
      have keyed : keyedIn Room.unchained env state = state.begun := by
        simp [keyedIn, resolveKeysIn, Room.unchained, Room.full, noteKeys, resolved]
      have asked : verifyEd25519 (ctxIn Room.unchained lcf env state).keys sig.keyid base sig.signature
          (ctxIn Room.unchained lcf env state).kidFallbackKeys = .error (.declined .unknownKeyid) := by
        simp [ctxIn, profileCtxIn, resolveKeysIn, Room.unchained, Room.full, Keys.chainIn, resolved, static,
          verifyEd25519]
      have other := ((judges.other Room.unchained rfl rfl).reported_iff judges).mp (reported Room.unchained)
      rw [prepared.unknown roomy asked, keyed] at other
      rcases other with internal | same
      · exact absurd internal (by simp [regular.sound])
      · have result := congrArg Prod.fst same
        simp only [RequestCtx.told, regular.available filled, Bool.false_eq_true, if_false] at result
        have unknown := isUnknown result.symm
        rw [prepared.judged roomy] at unknown
        have chained : (ctxIn Room.full lcf env state).keys = some (Keys.chained keys configured) := by
          simp [ctxIn, profileCtxIn_full, resolveKeysIn_full, profileCtx, resolved, static, Keys.chain]
        have refused := Profile.answeredIn_refused unknown
        rw [chained] at refused
        exact known (by rw [static]; exact verifyEd25519_chained refused)

/-- Keys that do not resolve with room do not resolve without it. -/
theorem resolveKeysIn_none (room : Room) {jwks : Bytes} (resolved : resolveKeys env jwks = none) :
    resolveKeysIn room env jwks = none := by
  simp [resolveKeysIn, resolved]

/-- Without resolved keys none are noted. -/
theorem keyedIn_none (room : Room) (resolved : resolveKeys env state.begun.jwks = none) :
    keyedIn room env state = noteKeys none state.begun := by
  rw [keyedIn, resolveKeysIn_none room resolved]

/-- Without the keys of a document the configured keys decide, unless the judgement is cut short. -/
theorem Prepared.static {sig : Profile.Signature} {base : Bytes} (prepared : Prepared lcf env req sig base)
    (resolved : resolveKeys env state.begun.jwks = none) (room : Room) :
    Cut (room.profile.Tight ∨ room.staticVerifies = false) .error (judgedIn room lcf env req state)
      (verifyEd25519 lcf.jwksKeys sig.keyid base sig.signature none >>= fun _ => .ok { sig with
        agentHost := Profile.agentHostIn room.profile.agent
          (Profile.collect req Base.signatureAgent) sig.label }) := by
  have cut := judgedIn_cut room lcf env req state
  rw [prepared, ok_bind] at cut
  rcases cut with same | ⟨tight, failed⟩
  · have keys : (ctxIn room lcf env state).keys = lcf.jwksKeys.map (Keys.answering room.staticVerifies true) := by
      simp [ctxIn, profileCtxIn, resolveKeysIn_none room resolved, Keys.chainIn]
    have fallback : (ctxIn room lcf env state).kidFallbackKeys = none := by
      simp [ctxIn, profileCtxIn, resolveKeysIn_none room resolved]
    rw [same, Profile.answeredIn, keys, fallback]
    rcases (Keys.verifyEd25519_cut room.staticVerifies true lcf.jwksKeys sig.keyid base sig.signature).bind
      fun _ _ => Cut.refl (room.staticVerifies = false) Failure.error _ with whole | ⟨fails, short⟩
    · exact .inl whole
    · exact .inr ⟨.inr fails, short⟩
  · exact .inr ⟨.inl tight, failed⟩

/-- The nonce check gives this verdict when the signature has this agent. -/
def verdictFor (crc : Bytes → UInt32) (lcf : LocConf) (env : Env) (memo : Option Verdict) (sig : Profile.Signature)
    (store : NonceStore.Store rb) (agent : Bytes) : Verdict :=
  (checkNonce crc lcf env memo { sig with agentHost := agent } env.now store).1

/-- A nonce check short of memory is an internal error or the check with room. -/
theorem checkNonceIn_failed_or (room : Room) (crc : Bytes → UInt32) (lcf : LocConf) (env : Env)
    (memo : Option Verdict)
    (sig : Profile.Signature) (now : Int) (store : NonceStore.Store rb) :
    (checkNonceIn room crc lcf env memo sig now store).1.internalError = true ∨
      (checkNonceIn room crc lcf env memo sig now store).1 = (checkNonce crc lcf env memo sig now store).1 := by
  unfold checkNonceIn checkNonceOf checkNonce
  split
  · exact .inr rfl
  split
  · exact .inr rfl
  cases memo with
  | some verdict => exact .inr rfl
  | none =>
      dsimp only
      split
      · exact .inl rfl
      rw [Prog.serve_bind]
      unfold firstVerdictOf firstVerdict
      split
      · exact .inr rfl
      split
      · exact .inl rfl
      · exact .inr rfl

/-- The backend answers this about the key of the nonce when the signature has this agent. -/
def answerFor (crc : Bytes → UInt32) (lcf : LocConf) (env : Env) (sig : Profile.Signature)
    (store : NonceStore.Store rb) (agent : Bytes) : NonceStore.Rc :=
  (consult crc lcf env { sig with agentHost := agent } store).1

/-- Under the other agent the nonce is refused as it is under this one, or its check fails internally. -/
def NonceRefuses (crc : Bytes → UInt32) (lcf : LocConf) (env : Env) (memo : Option Verdict) (sig : Profile.Signature)
    (store : NonceStore.Store rb) (agent other : Bytes) : Prop :=
  lcf.nonceStore ≠ .off ∧
    if sig.nonce.length = 0 then lcf.nonceRequired = true
    else match memo with
      | some verdict => verdict.internalError = true ∨ verdict.result ≠ .ok
      | none => NonceStore.nonceMaxLen < sig.nonce.length ∨ answerFor crc lcf env sig store other = .error ∨
          answerFor crc lcf env sig store other = answerFor crc lcf env sig store agent ∧
            (answerFor crc lcf env sig store other = .declined ∨
              answerFor crc lcf env sig store other = .abort ∧ lcf.nonceStoreFailure = .failClosed)

/-- When a changed answer of the store is no failure: the verdict is the same refusal or an error. -/
theorem verdictOf_refuses (lcf : LocConf) (answer other : NonceStore.Rc) :
    ((verdictOf lcf other).internalError = true ∨
        (verdictOf lcf other).result = (verdictOf lcf answer).result ∧ (verdictOf lcf other).result ≠ .ok) ↔
      other = .error ∨
        other = answer ∧ (other = .declined ∨ other = .abort ∧ lcf.nonceStoreFailure = .failClosed) := by
  cases kind : lcf.nonceStoreFailure <;> cases other <;> cases answer <;> simp [verdictOf, kind]

/-- When another agent in the nonce key is no failure, in terms of the store alone. -/
theorem nonceRefuses_iff (crc : Bytes → UInt32) (lcf : LocConf) (env : Env) (memo : Option Verdict)
    (sig : Profile.Signature) (store : NonceStore.Store rb) (agent other : Bytes) :
    ((verdictFor crc lcf env memo sig store other).internalError = true ∨
        (verdictFor crc lcf env memo sig store other).result = (verdictFor crc lcf env memo sig store agent).result ∧
          (verdictFor crc lcf env memo sig store other).result ≠ .ok) ↔
      NonceRefuses crc lcf env memo sig store agent other := by
  unfold verdictFor checkNonce NonceRefuses
  dsimp only
  by_cases off : lcf.nonceStore = .off
  · simp [off]
  rw [if_neg off, if_neg off]
  by_cases empty : sig.nonce.length = 0
  · rw [if_pos empty, if_pos empty, if_pos empty]
    cases lcf.nonceRequired <;> simp [off]
  rw [if_neg empty, if_neg empty, if_neg empty]
  cases memo with
  | some verdict => simp [off]
  | none =>
      dsimp only
      unfold firstVerdict
      dsimp only
      by_cases long : NonceStore.nonceMaxLen < sig.nonce.length
      · rw [if_pos long, if_pos long]
        simp [off, long]
      rw [if_neg long, if_neg long]
      refine (verdictOf_refuses lcf (answerFor crc lcf env sig store agent)
        (answerFor crc lcf env sig store other)).trans ?_
      simp [off, long]

/-- Two verified signatures with different agents tell the same only when both are refused alike. -/
theorem noteVerdict_told_iff {sig : Profile.Signature} {verdict other : Verdict} {agent otherAgent : Bytes}
    (ctx : RequestCtx) (differ : otherAgent ≠ agent) :
    (noteVerdict { sig with agentHost := otherAgent } other ctx).told =
        (noteVerdict { sig with agentHost := agent } verdict ctx).told ↔
      other.result = verdict.result ∧ other.result ≠ .ok := by
  unfold noteVerdict RequestCtx.told
  dsimp only
  by_cases same : other.result = verdict.result
  · by_cases ok : other.result = .ok
    · have also := same.symm.trans ok
      simp [ok, also, differ]
    · have also : verdict.result ≠ .ok := fun accepted => ok (same.trans accepted)
      rw [if_neg ok, if_neg also]
      simp [same, also]
  · constructor
    · intro told
      have result := congrArg Prod.fst told
      refine absurd ?_ same
      split at result <;> split at result <;> exact result
    · exact fun refused => absurd refused.1 same

/-- An evaluation judges no signature that the shortage of one step can turn into another verdict. Its document gives
no keys, and what the configured keys verify has no agent to lose, or its nonce is refused whatever the agent is. -/
def Spared (crc : Bytes → UInt32) (lcf : LocConf) (env : Env) (req : Base.Request) (state : RequestState)
    (store : NonceStore.Store rb) : Prop :=
  lcf.mode ≠ .off → state.ctx.any RequestCtx.done = false → ∀ sig base, Prepared lcf env req sig base →
    resolveKeys env state.begun.jwks = none ∧
      (verifyEd25519 lcf.jwksKeys sig.keyid base sig.signature none = .ok () →
        ∀ agent ∈ Profile.shortAgents (Profile.collect req Base.signatureAgent) sig.label,
          agent ≠ Profile.agentHost (Profile.collect req Base.signatureAgent) sig.label →
            NonceRefuses crc lcf env state.verdict sig store
              (Profile.agentHost (Profile.collect req Base.signatureAgent) sig.label) agent)

/-- A prepared request carries a Signature-Input field. -/
theorem Prepared.carried {sig : Profile.Signature} {base : Bytes} (prepared : Prepared lcf env req sig base) :
    (Base.fieldValue req (ascii "signature-input")).isSome = true := by
  unfold Prepared Profile.prepare at prepared
  obtain ⟨⟨sigDict, picked⟩, chosen, _⟩ := bind_eq_ok.mp prepared
  obtain ⟨inputRaw, _, _, _, _, _, found, _⟩ := Profile.selectSignature_eq_ok.mp chosen
  rw [found]
  rfl

/-- Only the extraction of the agent meets this room. -/
def Room.withAgent (agentRoom : Profile.AgentRoom) : Room :=
  { Room.full with profile := { Profile.Room.full with agent := agentRoom } }

/-- Where the configured keys verify the signature, a shortage of the agent leaves the verdict of its nonce. -/
theorem Prepared.concluded_agent {sig : Profile.Signature} {base : Bytes} (prepared : Prepared lcf env req sig base)
    (crc : Bytes → UInt32) (store : NonceStore.Store rb) (resolved : resolveKeys env state.begun.jwks = none)
    (accepted : verifyEd25519 lcf.jwksKeys sig.keyid base sig.signature none = .ok ())
    (agentRoom : Profile.AgentRoom) {agent : Bytes}
    (reached : Profile.agentHostIn agentRoom (Profile.collect req Base.signatureAgent) sig.label = agent) :
    concluded (Room.withAgent agentRoom) crc lcf env state store
        (judgedIn (Room.withAgent agentRoom) lcf env req state) =
      noteVerdict { sig with agentHost := agent } (verdictFor crc lcf env state.verdict sig store agent)
        (noteKeys none state.begun) := by
  have judged := (prepared.static resolved (Room.withAgent agentRoom)).resolve_right fun short =>
    short.1.elim (roomy_full agentRoom) Bool.noConfusion
  have agentIs : (Room.withAgent agentRoom).profile.agent = agentRoom := rfl
  rw [accepted, ok_bind, agentIs, reached] at judged
  have checked : (checkNonceIn (Room.withAgent agentRoom) crc lcf env state.verdict { sig with agentHost := agent }
      env.now store).1 = verdictFor crc lcf env state.verdict sig store agent :=
    congrArg Prod.fst (checkNonceIn_full crc lcf env state.verdict { sig with agentHost := agent } env.now store)
  rw [judged, concluded, checked, keyedIn_none _ resolved]

theorem Prepared.concluded_whole {sig : Profile.Signature} {base : Bytes} (prepared : Prepared lcf env req sig base)
    (crc : Bytes → UInt32) (store : NonceStore.Store rb) (resolved : resolveKeys env state.begun.jwks = none)
    (accepted : verifyEd25519 lcf.jwksKeys sig.keyid base sig.signature none = .ok ()) :
    let agent := Profile.agentHost (Profile.collect req Base.signatureAgent) sig.label
    concluded Room.full crc lcf env state store (judgedIn Room.full lcf env req state) =
      noteVerdict { sig with agentHost := agent } (verdictFor crc lcf env state.verdict sig store agent)
        (noteKeys none state.begun) :=
  prepared.concluded_agent crc store resolved accepted Profile.AgentRoom.full (Profile.agentHostIn_full ..)

/-- What the configured keys verify is reported in a room exactly when its agent stays or its nonce is refused. -/
theorem Prepared.agent_reported_iff {sig : Profile.Signature} {base : Bytes}
    (prepared : Prepared lcf env req sig base) (regular : state.Regular) (judges : Judges Room.full lcf req state)
    (resolved : resolveKeys env state.begun.jwks = none)
    (accepted : verifyEd25519 lcf.jwksKeys sig.keyid base sig.signature none = .ok ())
    (agentRoom : Profile.AgentRoom) {agent : Bytes}
    (reached : Profile.agentHostIn agentRoom (Profile.collect req Base.signatureAgent) sig.label = agent)
    (differ : agent ≠ Profile.agentHost (Profile.collect req Base.signatureAgent) sig.label) :
    Reported (evaluateIn (Room.withAgent agentRoom) crc lcf env req state store).1
        (evaluateIn (Room.withAgent agentRoom) crc lcf env req state store).2.1
        (evaluateIn Room.full crc lcf env req state store).2.1 ↔
      NonceRefuses crc lcf env state.verdict sig store
        (Profile.agentHost (Profile.collect req Base.signatureAgent) sig.label) agent := by
  have sound : (noteKeys none state.begun).internalError = false := by
    rw [← keyedIn_none Room.full resolved, (keyedIn_fields ..).2.2]
    exact regular.sound
  have whole := prepared.concluded_whole crc store resolved accepted
  rw [(judges.other (Room.withAgent agentRoom) rfl rfl).reported_iff judges,
    prepared.concluded_agent crc store resolved accepted agentRoom reached, whole, noteVerdict_told_iff _ differ,
    (noteVerdict_fields ..).2.2, sound, Bool.false_or]
  exact nonceRefuses_iff ..

/-- A nonce that is refused under every agent keeps the verdict. -/
theorem Prepared.reported_static {sig : Profile.Signature} {base : Bytes} (prepared : Prepared lcf env req sig base)
    (judges : Judges Room.full lcf req state) (resolved : resolveKeys env state.begun.jwks = none)
    {room : Room} (other : Judges room lcf req state)
    (refuses : verifyEd25519 lcf.jwksKeys sig.keyid base sig.signature none = .ok () →
      ∀ agent ∈ Profile.shortAgents (Profile.collect req Base.signatureAgent) sig.label,
        agent ≠ Profile.agentHost (Profile.collect req Base.signatureAgent) sig.label →
          NonceRefuses crc lcf env state.verdict sig store
            (Profile.agentHost (Profile.collect req Base.signatureAgent) sig.label) agent) :
    Reported (evaluateIn room crc lcf env req state store).1 (evaluateIn room crc lcf env req state store).2.1
      (evaluateIn Room.full crc lcf env req state store).2.1 := by
  rw [other.reported_iff judges]
  rcases prepared.static resolved room with judged | ⟨_, short⟩
  · cases answer : verifyEd25519 lcf.jwksKeys sig.keyid base sig.signature none with
    | error failure =>
        have whole := (prepared.static resolved Room.full).resolve_right fun short =>
          short.1.elim (roomy_full Profile.AgentRoom.full) Bool.noConfusion
        rw [answer] at judged whole
        have judged : judgedIn room lcf env req state = .error failure := judged
        have whole : judgedIn Room.full lcf env req state = .error failure := whole
        rw [judged, whole]
        cases failure with
        | error => exact .inl rfl
        | declined result =>
            right
            simp only [concluded, keyedIn_none _ resolved]
    | ok accepted =>
        rw [answer, ok_bind] at judged
        rw [judged, prepared.concluded_whole crc store resolved answer]
        have known := Profile.agentHostIn_mem room.profile.agent (Profile.collect req Base.signatureAgent) sig.label
        generalize Profile.agentHostIn room.profile.agent (Profile.collect req Base.signatureAgent) sig.label = agent
          at known ⊢
        simp only [concluded, keyedIn_none _ resolved, (noteVerdict_fields ..).2.2, Bool.or_eq_true]
        rcases checkNonceIn_failed_or room crc lcf env state.verdict { sig with agentHost := agent } env.now
          store with
          failed | checked
        · exact .inl (.inr failed)
        rw [checked]
        by_cases same : agent = Profile.agentHost (Profile.collect req Base.signatureAgent) sig.label
        · subst same
          exact .inr rfl
        · rw [noteVerdict_told_iff _ same]
          exact ((nonceRefuses_iff ..).mpr (refuses answer agent known same)).imp_left .inr
  · rw [short]
    exact .inl rfl

/-- Every failure of an evaluation is reported exactly when the evaluation is spared. -/
theorem all_reported_iff (crc : Bytes → UInt32) (lcf : LocConf) (env : Env) (req : Base.Request)
    (store : NonceStore.Store rb) (regular : state.ctx.any RequestCtx.done = false → state.Regular) :
    (∀ room, Reported (evaluateIn room crc lcf env req state store).1
        (evaluateIn room crc lcf env req state store).2.1 (evaluateIn Room.full crc lcf env req state store).2.1) ↔
      Spared crc lcf env req state store := by
  constructor
  · intro reported enabled fresh sig base prepared
    have judges : Judges Room.full lcf req state := ⟨⟨enabled, fresh, .inr rfl⟩, prepared.carried, rfl⟩
    cases resolved : resolveKeys env state.begun.jwks with
    | some keys => exact absurd reported (keys_unreported (regular fresh) judges prepared resolved)
    | none =>
        refine ⟨rfl, ?_⟩
        intro accepted agent known differ
        obtain ⟨agentRoom, reached⟩ := Profile.shortAgents_reached known
        exact (prepared.agent_reported_iff (regular fresh) judges resolved accepted agentRoom reached differ).mp
          (reported (Room.withAgent agentRoom))
  · intro spared room
    by_cases judges : Judges room lcf req state
    · have whole : Judges Room.full lcf req state :=
        ⟨⟨judges.enabled, judges.fresh, .inr rfl⟩, judges.carried, rfl⟩
      cases prepared : Profile.prepare (profileCtx lcf none env.now) env.now req with
      | error failure => exact reported_unprepared judges whole prepared
      | ok found =>
          obtain ⟨sig, base⟩ := found
          have prepared : Prepared lcf env req sig base := prepared
          obtain ⟨resolved, refuses⟩ := spared judges.enabled judges.fresh sig base prepared
          exact prepared.reported_static whole resolved judges refuses
    · exact reported_unless room judges

end Evaluate

/-- The same visit meets another room. -/
def Visit.inRoom (visit : Visit rb) (room : Room) : Visit rb := { visit with room := room }

namespace Life

variable {crc : Bytes → UInt32} {raw : RawRequest} {life : Life}

/-- The state that an evaluation of a regular life reads is regular. -/
theorem Regular.state (regular : life.Regular) (fresh : life.state.ctx.any RequestCtx.done = false) :
    life.state.Regular := by
  unfold Life.state at fresh ⊢
  cases present : life.ctx with
  | none => exact ⟨rfl, fun filled => absurd rfl filled, regular.keyless⟩
  | some ctx =>
      have undone : ctx.done = false := by simpa [present] using fresh
      refine ⟨regular.sound ctx present undone, ?_, regular.keyless⟩
      intro filled
      exact Bool.eq_false_iff.mpr fun missing => filled (regular.lost ctx present undone missing).2

/-- In every life of a request, an evaluation reports each failure of its allocations and of the key library as an
internal error, or it gives the verdict without failures, exactly when it is spared. -/
theorem failures_reported_iff {condition : Life → Move rb → Prop} (reaches : Reaches crc raw condition life)
    (alive : life.destroyed = false) (lcf : Location) (visit : Visit rb) :
    (∀ room, Reported (life.evaluate crc raw lcf.toLocConf (visit.inRoom room)).1
        (life.evaluate crc raw lcf.toLocConf (visit.inRoom room)).2.1
        (life.evaluate crc raw lcf.toLocConf (visit.inRoom Room.full)).2.1) ↔
      Spared crc lcf.toLocConf visit.env (visit.request raw) life.state visit.store :=
  all_reported_iff crc lcf.toLocConf visit.env (visit.request raw) visit.store (reaches.regular alive).state

/-- There is no room to copy the host of the agent. -/
def copyless : Room := Room.withAgent { Profile.AgentRoom.full with copy := false }

/-- A request without an agent field is spared. -/
theorem agentless_spared : Spared NonceStore.crc32Long knowingLocation.toLocConf plainVisit.env
    (plainVisit.request (agentNonceRequest [])) init.state plainVisit.store := by
  have agents : Profile.collect (plainVisit.request (agentNonceRequest [])) Base.signatureAgent = [[]] := by
    decide +kernel
  have resolved : resolveKeys plainVisit.env init.state.begun.jwks = none := rfl
  intro _ _ sig base _
  refine ⟨resolved, ?_⟩
  intro _ agent known differ
  rw [agents] at known differ
  have nothing : Profile.shortAgents [[]] sig.label = [[]] := rfl
  rw [nothing, List.mem_singleton] at known
  exact absurd known differ

/-- A signature without an agent has none to lose. -/
theorem failures_reported_iff_agentless :
    Reported
      (init.evaluate NonceStore.crc32Long (agentNonceRequest []) knowingLocation.toLocConf
        (plainVisit.inRoom copyless)).1
      (init.evaluate NonceStore.crc32Long (agentNonceRequest []) knowingLocation.toLocConf
        (plainVisit.inRoom copyless)).2.1
      (init.evaluate NonceStore.crc32Long (agentNonceRequest []) knowingLocation.toLocConf
        (plainVisit.inRoom Room.full)).2.1 := by
  have reaches : Reaches NonceStore.crc32Long (agentNonceRequest [])
    (fun _ (_ : Move (plain Nat)) => True) init := .init
  exact (failures_reported_iff reaches rfl knowingLocation plainVisit).mpr agentless_spared copyless

/-- Without room for its copy the agent of a verified signature is lost. -/
theorem failures_unreported :
    ¬ ∀ (crc : Bytes → UInt32) (raw : RawRequest) (life : Life),
      Reaches crc raw (fun _ (_ : Move (plain Nat)) => True) life → life.destroyed = false →
        ∀ (lcf : Location) (visit : Visit (plain Nat)) (room : Room),
          Reported (life.evaluate crc raw lcf.toLocConf (visit.inRoom room)).1
            (life.evaluate crc raw lcf.toLocConf (visit.inRoom room)).2.1
            (life.evaluate crc raw lcf.toLocConf (visit.inRoom Room.full)).2.1 := by
  intro reported
  let short := init.evaluate NonceStore.crc32Long Profile.agentRequest knowingLocation.toLocConf
    (plainVisit.inRoom copyless)
  let whole := init.evaluate NonceStore.crc32Long Profile.agentRequest knowingLocation.toLocConf
    (plainVisit.inRoom Room.full)
  have lost : short.1 = .ok ∧ short.2.1.any RequestCtx.internalError = false ∧
      short.2.1.map RequestCtx.told ≠ whole.2.1.map RequestCtx.told := by decide +kernel
  rcases reported NonceStore.crc32Long Profile.agentRequest init .init rfl knowingLocation plainVisit copyless with
    failed | ⟨ctx, present, internal⟩ | told
  · exact absurd (lost.1.symm.trans failed) (by decide)
  · exact Bool.false_ne_true (lost.2.1.symm.trans ((Option.any_eq_true _ _).mpr ⟨ctx, present, internal⟩))
  · exact lost.2.2 told

end Life

end Module
end AuthHttpsig
