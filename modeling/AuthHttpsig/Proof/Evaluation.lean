/-
This file says once what an evaluation of a request can do.
-/

import AuthHttpsig.Construction.Shortage

namespace AuthHttpsig.Module

open SearchTree

variable {rb : Balanced Nat}

/-- An evaluation begins with this context. -/
def RequestState.begun (state : RequestState) : RequestCtx :=
  { state.ctx.getD RequestCtx.zero with done := true, result := .notSigned }

/-- The context goes into the state of the request. -/
def RequestState.put (state : RequestState) (ctx : RequestCtx) : RequestState := { state with ctx := some ctx }

/-- The location is on, and the request has a context that no evaluation finished. -/
structure Begins (room : Room) (lcf : LocConf) (state : RequestState) : Prop where
  enabled : lcf.mode ≠ .off
  fresh : state.ctx.any RequestCtx.done = false
  roomy : state.ctx.isSome = true ∨ room.context = true

/-- The signature of the request is judged with the keys of its document. -/
def judgedIn (room : Room) (lcf : LocConf) (env : Env) (req : Base.Request) (state : RequestState) :
    Except Failure Profile.Signature :=
  Profile.verifyIn room.profile (profileCtxIn room lcf (resolveKeysIn room env state.begun.jwks) env.now) env.now req

/-- The context knows whether the document gave keys. -/
def keyedIn (room : Room) (env : Env) (state : RequestState) : RequestCtx :=
  noteKeys (resolveKeysIn room env state.begun.jwks) state.begun

/-- The evaluation begins, finds a signature and takes its snapshot. -/
structure Judges (room : Room) (lcf : LocConf) (req : Base.Request) (state : RequestState) : Prop
    extends Begins room lcf state where
  carried : (Base.fieldValue req (ascii "signature-input")).isSome = true
  snapshot : room.snapshot = true

/-- An evaluation ends in one of these ways. -/
inductive Ended (room : Room) (crc : Bytes → UInt32) (lcf : LocConf) (env : Env) (req : Base.Request)
    (state : RequestState) (store : NonceStore.Store rb) :
    Rc × Option RequestCtx × RequestState × NonceStore.Store rb → Prop
  | disabled (off : lcf.mode = .off) : Ended room crc lcf env req state store (.ok, none, state, store)
  | again {ctx : RequestCtx} (enabled : lcf.mode ≠ .off) (present : state.ctx = some ctx) (done : ctx.done = true) :
      Ended room crc lcf env req state store (.ok, some ctx, state, store)
  | noContext (enabled : lcf.mode ≠ .off) (absent : state.ctx = none) (short : room.context = false) :
      Ended room crc lcf env req state store (.error, none, state, store)
  | unsigned (begins : Begins room lcf state)
      (absent : Base.fieldValue req (ascii "signature-input") = none) :
      Ended room crc lcf env req state store (.ok, some state.begun, state.put state.begun, store)
  | noSnapshot (begins : Begins room lcf state)
      (carried : (Base.fieldValue req (ascii "signature-input")).isSome = true) (short : room.snapshot = false)
      {ctx : RequestCtx} (ends : ctx = { state.begun with internalError := true }) :
      Ended room crc lcf env req state store (.ok, some ctx, state.put ctx, store)
  | failed (judges : Judges room lcf req state) (judged : judgedIn room lcf env req state = .error .error)
      {ctx : RequestCtx} (ends : ctx = { keyedIn room env state with internalError := true }) :
      Ended room crc lcf env req state store (.ok, some ctx, state.put ctx, store)
  | declined {result : Result} (judges : Judges room lcf req state)
      (judged : judgedIn room lcf env req state = .error (.declined result)) {ctx : RequestCtx}
      (ends : ctx = { keyedIn room env state with result := declinedResult (keyedIn room env state) result }) :
      Ended room crc lcf env req state store (.ok, some ctx, state.put ctx, store)
  | verified {sig : Profile.Signature} {verdict : Verdict} {memo : Option Verdict} {kept : NonceStore.Store rb}
      (judges : Judges room lcf req state) (judged : judgedIn room lcf env req state = .ok sig)
      (checked : checkNonceIn room crc lcf env state.verdict sig env.now store = (verdict, memo, kept))
      {ctx : RequestCtx} (ends : ctx = noteVerdict sig verdict (keyedIn room env state)) :
      Ended room crc lcf env req state store (.ok, some ctx, ⟨some ctx, memo⟩, kept)

theorem evaluateIn_ended (room : Room) (crc : Bytes → UInt32) (lcf : LocConf) (env : Env) (req : Base.Request)
    (state : RequestState) (store : NonceStore.Store rb) :
    Ended room crc lcf env req state store (evaluateIn room crc lcf env req state store) := by
  unfold evaluateIn evaluateOf
  split
  · next off => exact .disabled off
  rename_i enabled
  split
  · rename_i finished
    obtain ⟨ctx, present, done⟩ := (Option.any_eq_true _ _).mp finished
    rw [present]
    exact .again enabled present done
  rename_i fresh
  simp only [Bool.not_eq_true] at fresh
  split
  · rename_i short
    simp only [Bool.and_eq_true, Option.isNone_iff_eq_none, Bool.not_eq_true'] at short
    exact .noContext enabled short.1 short.2
  rename_i context
  have roomy : state.ctx.isSome = true ∨ room.context = true := by
    cases present : state.ctx with
    | none => simpa [present] using context
    | some ctx => exact .inl rfl
  have begins : Begins room lcf state := ⟨enabled, fresh, roomy⟩
  dsimp only
  split
  · rename_i absent
    exact .unsigned begins (Option.isNone_iff_eq_none.mp absent)
  rename_i carried
  simp only [Bool.not_eq_true, Option.isNone_eq_false_iff] at carried
  split
  · rename_i short
    exact .noSnapshot begins carried (by simpa using short) rfl
  rename_i snapshot
  have judges : Judges room lcf req state := ⟨begins, carried, by simpa using snapshot⟩
  split
  · next judged => exact .failed judges judged rfl
  · next result judged => exact .declined judges judged rfl
  · next sig judged =>
      rw [Prog.serve_bind]
      exact .verified judges judged rfl rfl

theorem keyedIn_fields (room : Room) (env : Env) (state : RequestState) :
    (keyedIn room env state).done = true ∧ (keyedIn room env state).result = .notSigned ∧
      (keyedIn room env state).internalError = (state.ctx.getD RequestCtx.zero).internalError := by
  unfold keyedIn noteKeys
  split <;> exact ⟨rfl, rfl, rfl⟩

theorem noteVerdict_fields (sig : Profile.Signature) (verdict : Verdict) (ctx : RequestCtx) :
    (noteVerdict sig verdict ctx).result = verdict.result ∧
      (noteVerdict sig verdict ctx).nonceStoreUnavailable = verdict.unavailable ∧
      (noteVerdict sig verdict ctx).internalError = (ctx.internalError || verdict.internalError) := by
  unfold noteVerdict
  dsimp only
  split <;> exact ⟨rfl, rfl, rfl⟩

/-- No signature of the request is judged to be good. -/
def Unjudged (room : Room) (lcf : LocConf) (env : Env) (req : Base.Request) (state : RequestState) : Prop :=
  ∀ sig, Judges room lcf req state → judgedIn room lcf env req state ≠ .ok sig

/-- An evaluation that verifies a signature makes the calls of its nonce check. -/
theorem evaluateOf_judged {room : Room} {lcf : LocConf} {env : Env} {req : Base.Request} {state : RequestState}
    {sig : Profile.Signature} (judges : Judges room lcf req state)
    (judged : judgedIn room lcf env req state = .ok sig) :
    evaluateOf room lcf env req state = (do
      let checked ← checkNonceOf room lcf state.verdict sig env.now
      let ctx := noteVerdict sig checked.1 (keyedIn room env state)
      return (.ok, some ctx, ⟨some ctx, checked.2⟩)) := by
  have roomy : ¬(state.ctx.isNone && !room.context) = true := by
    intro short
    simp only [Bool.and_eq_true, Option.isNone_iff_eq_none, Bool.not_eq_true'] at short
    rcases judges.roomy with present | context
    · rw [short.1] at present
      cases present
    · rw [short.2] at context
      cases context
  have carried : ¬(Base.fieldValue req (ascii "signature-input")).isNone = true := by
    rw [Option.isNone_iff_eq_none, ← ne_eq, Option.ne_none_iff_isSome]
    exact judges.carried
  unfold evaluateOf
  rw [if_neg judges.enabled, if_neg (by simp [judges.fresh]), if_neg roomy]
  dsimp only
  rw [if_neg carried, if_neg (by simp [judges.snapshot])]
  have verified : Profile.verifyIn room.profile (profileCtxIn room lcf
      (resolveKeysIn room env (state.ctx.getD RequestCtx.zero).jwks) env.now) env.now req = .ok sig := judged
  rw [verified]
  rfl

/-- Any other evaluation makes no call. -/
theorem evaluateOf_unjudged {room : Room} {lcf : LocConf} {env : Env} {req : Base.Request} {state : RequestState}
    (unjudged : Unjudged room lcf env req state) :
    ∃ out, evaluateOf room lcf env req state = pure out := by
  unfold evaluateOf
  split
  · exact ⟨_, rfl⟩
  rename_i enabled
  split
  · exact ⟨_, rfl⟩
  rename_i fresh
  split
  · exact ⟨_, rfl⟩
  rename_i context
  have roomy : state.ctx.isSome = true ∨ room.context = true := by
    cases present : state.ctx with
    | none => simpa [present] using context
    | some ctx => exact .inl rfl
  dsimp only
  split
  · exact ⟨_, rfl⟩
  rename_i carried
  simp only [Bool.not_eq_true, Option.isNone_eq_false_iff] at carried
  split
  · exact ⟨_, rfl⟩
  rename_i snapshot
  split
  · exact ⟨_, rfl⟩
  · exact ⟨_, rfl⟩
  · next sig judged =>
      exact absurd judged (unjudged sig ⟨⟨enabled, by simpa using fresh, roomy⟩, carried, by simpa using snapshot⟩)

/-- An evaluation that judges no signature to be good leaves the nonces alone. -/
theorem Ended.unjudged_or {room : Room} {crc : Bytes → UInt32} {lcf : LocConf} {env : Env} {req : Base.Request}
    {state : RequestState} {store : NonceStore.Store rb}
    {out : Rc × Option RequestCtx × RequestState × NonceStore.Store rb}
    (ended : Ended room crc lcf env req state store out) :
    (Unjudged room lcf env req state ∧ out.2.2.1.verdict = state.verdict ∧ out.2.2.2 = store) ∨
      ∃ sig verdict memo kept, Judges room lcf req state ∧ judgedIn room lcf env req state = .ok sig ∧
        checkNonceIn room crc lcf env state.verdict sig env.now store = (verdict, memo, kept) ∧
        out = (.ok, some (noteVerdict sig verdict (keyedIn room env state)),
          ⟨some (noteVerdict sig verdict (keyedIn room env state)), memo⟩, kept) := by
  cases ended with
  | disabled off => exact .inl ⟨fun _ judges => absurd off judges.enabled, rfl, rfl⟩
  | again _ present done =>
      refine .inl ⟨fun _ judges => ?_, rfl, rfl⟩
      have fresh := judges.fresh
      rw [present, Option.any_some, done] at fresh
      cases fresh
  | noContext _ absent short =>
      refine .inl ⟨fun _ judges => ?_, rfl, rfl⟩
      rcases judges.roomy with present | roomy
      · rw [absent] at present
        cases present
      · rw [short] at roomy
        cases roomy
  | unsigned _ absent =>
      refine .inl ⟨fun _ judges => ?_, rfl, rfl⟩
      have carried := judges.carried
      rw [absent] at carried
      cases carried
  | noSnapshot _ _ short _ =>
      refine .inl ⟨fun _ judges => ?_, rfl, rfl⟩
      have snapshot := judges.snapshot
      rw [short] at snapshot
      cases snapshot
  | failed _ judged _ =>
      refine .inl ⟨fun _ _ accepted => ?_, rfl, rfl⟩
      rw [judged] at accepted
      cases accepted
  | declined _ judged _ =>
      refine .inl ⟨fun _ _ accepted => ?_, rfl, rfl⟩
      rw [judged] at accepted
      cases accepted
  | verified judges judged checked ends =>
      subst ends
      exact .inr ⟨_, _, _, _, judges, judged, checked, rfl⟩

/-- The nonce check asks the backend. -/
structure Consults (room : Room) (lcf : LocConf) (memo : Option Verdict) (sig : Profile.Signature) : Prop where
  enabled : lcf.nonceStore ≠ .off
  filled : sig.nonce ≠ []
  first : memo = none
  marked : room.verdict = true
  short : sig.nonce.length ≤ NonceStore.nonceMaxLen
  keyed : room.nonceKey = true

/-- This is the key under which the store keeps the nonce of a signature. -/
def nonceKey (sig : Profile.Signature) : Bytes := NonceStore.storeKey sig.agentHost sig.keyid sig.nonce

/-- The backend is asked about the key of the signature. -/
def consult (crc : Bytes → UInt32) (lcf : LocConf) (env : Env) (sig : Profile.Signature)
    (store : NonceStore.Store rb) : NonceStore.Rc × NonceStore.Store rb :=
  backendCheck crc lcf env (nonceKey sig) (NonceStore.storeTtl sig.expires lcf.maxSkew env.now) env.now store

/-- A nonce check ends in one of these ways. -/
inductive NonceChecked (room : Room) (crc : Bytes → UInt32) (lcf : LocConf) (env : Env) (memo : Option Verdict)
    (sig : Profile.Signature) (store : NonceStore.Store rb) :
    Verdict × Option Verdict × NonceStore.Store rb → Prop
  | off (disabled : lcf.nonceStore = .off) :
      NonceChecked room crc lcf env memo sig store (⟨.ok, false, false⟩, memo, store)
  | absent (enabled : lcf.nonceStore ≠ .off) (empty : sig.nonce = []) : NonceChecked room crc lcf env memo sig store
      (⟨if lcf.nonceRequired then .nonceMissing else .ok, false, false⟩, memo, store)
  | known {verdict : Verdict} (enabled : lcf.nonceStore ≠ .off) (filled : sig.nonce ≠ [])
      (found : memo = some verdict) : NonceChecked room crc lcf env memo sig store (verdict, memo, store)
  | unmarked (enabled : lcf.nonceStore ≠ .off) (filled : sig.nonce ≠ []) (first : memo = none)
      (noRoom : room.verdict = false) : NonceChecked room crc lcf env memo sig store (failedVerdict, none, store)
  | tooLong (enabled : lcf.nonceStore ≠ .off) (filled : sig.nonce ≠ []) (first : memo = none)
      (marked : room.verdict = true) (long : NonceStore.nonceMaxLen < sig.nonce.length) :
      NonceChecked room crc lcf env memo sig store
        (⟨.nonceTooLong, false, false⟩, some ⟨.nonceTooLong, false, false⟩, store)
  | keyless (enabled : lcf.nonceStore ≠ .off) (filled : sig.nonce ≠ []) (first : memo = none)
      (marked : room.verdict = true) (short : sig.nonce.length ≤ NonceStore.nonceMaxLen)
      (noRoom : room.nonceKey = false) :
      NonceChecked room crc lcf env memo sig store (failedVerdict, some failedVerdict, store)
  | consulted (consults : Consults room lcf memo sig) : NonceChecked room crc lcf env memo sig store
      (verdictOf lcf (consult crc lcf env sig store).1, some (verdictOf lcf (consult crc lcf env sig store).1),
        (consult crc lcf env sig store).2)

theorem checkNonceIn_checked (room : Room) (crc : Bytes → UInt32) (lcf : LocConf) (env : Env) (memo : Option Verdict)
    (sig : Profile.Signature) (store : NonceStore.Store rb) :
    NonceChecked room crc lcf env memo sig store (checkNonceIn room crc lcf env memo sig env.now store) := by
  unfold checkNonceIn checkNonceOf
  split
  · next disabled => exact .off disabled
  rename_i enabled
  split
  · next empty => exact .absent enabled (List.eq_nil_of_length_eq_zero empty)
  rename_i filled
  have filled : sig.nonce ≠ [] := fun empty => filled (by rw [empty]; rfl)
  cases memo with
  | some verdict => exact .known enabled filled rfl
  | none =>
      dsimp only
      split
      · next noRoom => exact .unmarked enabled filled rfl (by simpa using noRoom)
      rename_i marked
      have marked : room.verdict = true := by simpa using marked
      rw [Prog.serve_bind]
      unfold firstVerdictOf
      split
      · next long => exact .tooLong enabled filled rfl marked long
      rename_i short
      have short : sig.nonce.length ≤ NonceStore.nonceMaxLen := Nat.not_lt.mp short
      split
      · next noRoom => exact .keyless enabled filled rfl marked short (by simpa using noRoom)
      · next keyed => exact .consulted ⟨enabled, filled, rfl, marked, short, by simpa using keyed⟩

/-- A check that consults the backend calls it once, about its own key. -/
theorem checkNonceOf_consults {room : Room} {lcf : LocConf} {memo : Option Verdict} {sig : Profile.Signature}
    (consults : Consults room lcf memo sig) (now : Int) :
    checkNonceOf room lcf memo sig now = (do
      let rc ← Prog.ask ⟨nonceKey sig, NonceStore.storeTtl sig.expires lcf.maxSkew now, now⟩
      return (verdictOf lcf rc, some (verdictOf lcf rc))) := by
  have first := consults.first
  subst first
  unfold checkNonceOf firstVerdictOf
  rw [if_neg consults.enabled, if_neg fun empty => consults.filled (List.eq_nil_of_length_eq_zero empty)]
  dsimp only
  rw [if_neg (by simp [consults.marked]), if_neg (Nat.not_lt.mpr consults.short), if_neg (by simp [consults.keyed])]
  rfl

/-- Any other check makes no call. -/
theorem checkNonceOf_idle {room : Room} {lcf : LocConf} {memo : Option Verdict} {sig : Profile.Signature}
    (idle : ¬ Consults room lcf memo sig) (now : Int) : ∃ out, checkNonceOf room lcf memo sig now = pure out := by
  unfold checkNonceOf
  split
  · exact ⟨_, rfl⟩
  rename_i enabled
  split
  · exact ⟨_, rfl⟩
  rename_i filled
  have filled : sig.nonce ≠ [] := fun empty => filled (by rw [empty]; rfl)
  cases memo with
  | some verdict => exact ⟨_, rfl⟩
  | none =>
      dsimp only
      split
      · exact ⟨_, rfl⟩
      rename_i marked
      unfold firstVerdictOf
      split
      · exact ⟨_, rfl⟩
      rename_i short
      split
      · exact ⟨_, rfl⟩
      · next keyed =>
          exact absurd ⟨enabled, filled, rfl, by simpa using marked, Nat.not_lt.mp short, by simpa using keyed⟩ idle

end AuthHttpsig.Module
