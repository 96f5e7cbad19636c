/-
This file shows that an evaluation with enough room, whose key library answers, is the plain evaluation.
-/

import AuthHttpsig.Construction.Shortage
import AuthHttpsig.Library.Result

namespace AuthHttpsig

namespace Keys

@[simp] theorem answering_true (keys : Keys) : keys.answering true true = keys := rfl

@[simp] theorem chainIn_true (first second : Option Keys) : chainIn true first second = chain first second := by
  cases first <;> cases second <;> rfl

end Keys

namespace Profile

@[simp] theorem need_true : need true = .ok () := rfl

/-- A scan whose parses all have room is the plain scan. -/
theorem agentLinesIn_full (label : Bytes) (index : Nat) (scan : AgentScan) (raws : List Bytes) :
    agentLinesIn AgentRoom.full label index scan raws = agentLines label scan raws := by
  induction raws generalizing index scan with
  | nil => rfl
  | cons line rest ih =>
      simp only [agentLinesIn, agentLines, AgentRoom.full, agentLine, if_true]
      split
      · exact ih (index + 1) scan
      cases Sfv.parseDictionary line with
      | error failure => exact ih (index + 1) _
      | ok dict =>
          dsimp only
          split
          · rfl
          · exact ih (index + 1) _

theorem agentUrlIn_full (raws : List Bytes) (label : Bytes) :
    agentUrlIn AgentRoom.full raws label = agentUrl raws label := by
  unfold agentUrlIn agentUrl
  rewrite [agentLinesIn_full]
  rfl

@[simp] theorem agentHostIn_full (raws : List Bytes) (label : Bytes) :
    agentHostIn AgentRoom.full raws label = agentHost raws label := by
  simp only [agentHostIn, agentHost, agentUrlIn_full]
  cases (agentUrl raws label).bind agentBounds <;> rfl

@[simp] theorem agentAuthorityIn_full (raws : List Bytes) (label : Bytes) :
    agentAuthorityIn AgentRoom.full raws label = agentAuthority raws label := by
  simp only [agentAuthorityIn, agentAuthority, agentUrlIn_full]
  cases (agentUrl raws label).bind agentBounds <;> rfl

theorem selectSignatureIn_full (ctx : Ctx) (req : Base.Request) :
    selectSignatureIn Room.full ctx req = selectSignature ctx req := by
  have inputField : need Room.full.inputField = .ok () := rfl
  have signatureField : need Room.full.signatureField = .ok () := rfl
  have inputDictionary : need Room.full.inputDictionary = .ok () := rfl
  have signatureDictionary : need Room.full.signatureDictionary = .ok () := rfl
  unfold selectSignatureIn selectSignature
  refine bind_congr fun inputRaw => ?_
  rewrite [inputField, ok_bind]
  refine bind_congr fun sigRaw => ?_
  rewrite [signatureField, ok_bind, inputDictionary, ok_bind]
  refine bind_congr fun inputDict => ?_
  rewrite [signatureDictionary, ok_bind]
  exact bind_congr fun sigDict => rfl

/-- Verification with enough room is the plain verification. -/
theorem verifyIn_full (ctx : Ctx) (clock : Int) (req : Base.Request) :
    verifyIn Room.full ctx clock req = verify ctx clock req := by
  have host : agentHostIn Room.full.agent = agentHost := funext₂ agentHostIn_full
  unfold verifyIn verify
  rewrite [selectSignatureIn_full, host]
  refine bind_congr fun selected => ?_
  refine if_congr Iff.rfl rfl (if_congr Iff.rfl rfl (bind_congr fun signature => ?_))
  cases Base.build req selected.2.components <;> rfl

end Profile

namespace Module

open SearchTree

variable {rb : Balanced Nat}

theorem resolveKeysIn_full (env : Env) (jwks : Bytes) : resolveKeysIn Room.full env jwks = resolveKeys env jwks := by
  have answering : Keys.answering true true = id := funext Keys.answering_true
  simp only [resolveKeysIn, Room.full, if_true, answering, Option.map_id, id]

theorem profileCtxIn_full (lcf : LocConf) (dynamicKeys : Option Keys) (now : Int) :
    profileCtxIn Room.full lcf dynamicKeys now = profileCtx lcf dynamicKeys now := by
  have answering : Keys.answering true true = id := funext Keys.answering_true
  simp only [profileCtxIn, profileCtx, Room.full, answering, Option.map_id, id, Keys.chainIn_true]

/-- With room for its key the first check is the plain one. -/
theorem firstVerdictOf_full (crc : Bytes → UInt32) (lcf : LocConf) (env : Env) (sig : Profile.Signature)
    (now : Int) (store : NonceStore.Store rb) :
    (firstVerdictOf Room.full lcf sig now).serve (backend crc lcf env) store =
      firstVerdict crc lcf env sig now store := by
  unfold firstVerdictOf firstVerdict
  split <;> rfl

theorem checkNonceOf_full (crc : Bytes → UInt32) (lcf : LocConf) (env : Env) (memo : Option Verdict)
    (sig : Profile.Signature) (now : Int) (store : NonceStore.Store rb) :
    (checkNonceOf Room.full lcf memo sig now).serve (backend crc lcf env) store =
      (((checkNonce crc lcf env memo sig now store).1, (checkNonce crc lcf env memo sig now store).2.1),
        (checkNonce crc lcf env memo sig now store).2.2) := by
  have marked : Room.full.verdict = true := rfl
  unfold checkNonceOf checkNonce
  split
  · rfl
  split
  · rfl
  cases memo with
  | some verdict => rfl
  | none =>
      simp only [marked, Bool.not_true, Bool.false_eq_true, if_false]
      rw [Prog.serve_bind, firstVerdictOf_full]
      rfl

theorem checkNonceIn_full (crc : Bytes → UInt32) (lcf : LocConf) (env : Env) (memo : Option Verdict)
    (sig : Profile.Signature) (now : Int) (store : NonceStore.Store rb) :
    checkNonceIn Room.full crc lcf env memo sig now store = checkNonce crc lcf env memo sig now store := by
  unfold checkNonceIn
  rw [checkNonceOf_full]

/-- Without a shortage the evaluation returns `NGX_OK` with the plain outcome. -/
theorem evaluateIn_full (crc : Bytes → UInt32) (lcf : LocConf) (env : Env) (req : Base.Request)
    (state : RequestState) (store : NonceStore.Store rb) :
    evaluateIn Room.full crc lcf env req state store = (.ok, evaluate crc lcf env req state store) := by
  have context : Room.full.context = true := rfl
  have snapshot : Room.full.snapshot = true := rfl
  have profile : Room.full.profile = Profile.Room.full := rfl
  rcases state with ⟨ctx, memo⟩
  unfold evaluateIn evaluateOf evaluate
  simp only [context, snapshot, profile, resolveKeysIn_full, profileCtxIn_full, Profile.verifyIn_full,
    Bool.not_true, Bool.and_false, Bool.false_eq_true, if_false]
  split
  · rfl
  cases ctx with
  | none =>
      simp only [Option.any_none, Option.getD_none, RequestCtx.zero, Bool.false_eq_true, if_false]
      split
      · rfl
      rcases Profile.verify (profileCtx lcf (resolveKeys env []) env.now) env.now req with (_ | _) | sig
      · rfl
      · rfl
      · rw [Prog.serve_bind, checkNonceOf_full]
        rfl
  | some ctx =>
      simp only [Option.any_some, Option.getD_some]
      split
      · rfl
      split
      · rfl
      rcases Profile.verify (profileCtx lcf (resolveKeys env ctx.jwks) env.now) env.now req with (_ | _) | sig
      · rfl
      · rfl
      · rw [Prog.serve_bind, checkNonceOf_full]
        rfl

end Module
end AuthHttpsig
