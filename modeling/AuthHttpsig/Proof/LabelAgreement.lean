/-
This file shows that the label selection before a fetch agrees with the verification of the request.
-/

import AuthHttpsig.Construction.Request
import AuthHttpsig.Proof.ProfileAccepts

namespace AuthHttpsig.Profile

open Ascii Sfv Base

/-- The extraction with its last state gives the result of the extraction alone. -/
theorem extractParamsOut_eq (list : Params) (entries : List ParamEntry) (sig : Signature) :
    entries.foldlM (extractParam list) sig =
      if (extractParamsOut list entries sig).2 then some (extractParamsOut list entries sig).1 else none := by
  induction entries generalizing sig with
  | nil => rfl
  | cons entry rest ih =>
      rw [List.foldlM_cons, extractParamsOut]
      cases extracted : extractParam list sig entry with
      | none => rfl
      | some next => exact ih next

theorem selectSignature_eq_selectFields (ctx : Ctx) (req : Request) :
    selectSignature ctx req =
      (selectFields ctx req >>= fun (sigDict, label, member) =>
        match member with
        | .item _ => .error (.declined .parseError)
        | .innerList list => do
            let sig ← ofOption .parseError
              (extractParams list.params { Signature.zero with label := label, components := list })
            let sig := { sig with covered := coveredComponents list.items }
            if !profileMatch ctx.profile sig then .error (.declined .profileMismatch)
            else return (sigDict, sig)) := by
  unfold selectSignature selectFields
  simp only [bind_assoc]
  congr 1
  funext inputRaw
  congr 1
  funext sigRaw
  congr 1
  funext inputDict
  congr 1
  funext sigDict
  split
  · rfl
  · rewrite [bind_assoc]
    exact bind_congr fun entry => rfl

/-- The selection is what its last state says. -/
theorem selectOut_eq (ctx : Ctx) (req : Request) :
    selectSignature ctx req = (selectOut ctx req).2.map fun sigDict => (sigDict, (selectOut ctx req).1) := by
  rw [selectSignature_eq_selectFields]
  unfold selectOut
  cases selectFields ctx req with
  | error failure => rfl
  | ok found =>
      obtain ⟨sigDict, label, member⟩ := found
      cases member with
      | item single => rfl
      | innerList list =>
          dsimp only
          rw [ok_bind]
          simp only [extractParams, extractParamsOut_eq]
          split
          · next extracted =>
              simp only [ofOption, ok_bind, extracted, Bool.not_true, Bool.false_eq_true, if_false]
              split <;> rfl
          · next stopped =>
              simp only [stopped, Bool.not_false, if_true]
              rfl

/-- The verification is what its last state says. -/
theorem verifyOut_eq (ctx : Ctx) (clock : Int) (req : Request) :
    verify ctx clock req = (verifyOut ctx clock req).2.map fun _ => (verifyOut ctx clock req).1 := by
  unfold verify verifyOut
  rw [selectOut_eq]
  obtain ⟨sig, result⟩ := selectOut ctx req
  cases result with
  | error failure => rfl
  | ok sigDict =>
      simp only [Except.map, ok_bind]
      split
      · rfl
      · split
        · rfl
        · cases signatureOf sigDict sig.label with
          | none => rfl
          | some signature =>
              simp only [ofOption, ok_bind]
              cases build req sig.components with
              | error reason => rfl
              | ok base =>
                  dsimp only
                  cases verifyEd25519 ctx.keys sig.keyid base signature ctx.kidFallbackKeys with
                  | error failure => rfl
                  | ok accepted => split <;> rfl

theorem joinLines_cons (line : Bytes) (rest : List Bytes) :
    joinLines (line :: rest) = rest.foldl (fun joined value => joined ++ ascii ", " ++ value) line := by
  induction rest generalizing line with
  | nil => rfl
  | cons next rest ih =>
      have flat (front : Bytes) (others : List Bytes) :
          others.foldl (fun joined value => joined ++ ascii ", " ++ value) (line ++ ascii ", " ++ front) =
            line ++ ascii ", " ++ others.foldl (fun joined value => joined ++ ascii ", " ++ value) front := by
        induction others generalizing front with
        | nil => rfl
        | cons other others ih =>
            rw [List.foldl_cons, List.foldl_cons, ← ih]
            simp only [List.append_assoc]
      rw [joinLines, ih, List.foldl_cons, flat]

/-- The value of a field is the join of its lines. -/
theorem fieldValue_eq_some {req : Request} {name value : Bytes} :
    fieldValue req name = some value ↔ collect req name ≠ [] ∧ value = joinLines (collect req name) := by
  unfold fieldValue collect
  cases (req.headers.filter fun header => header.name == name).map Header.value with
  | nil => simp
  | cons first more =>
      rw [joinLines_cons]
      simp [eq_comm]

theorem buildRequest_headers {scheme : Option Bytes} {raw : Module.RawRequest} {req : Request}
    (built : Module.buildRequest scheme raw = some req) : req.headers = raw.headers.map Module.buildHeader := by
  cases scheme with
  | none => simp [Module.buildRequest] at built
  | some scheme =>
      simp only [Module.buildRequest, Option.bind_eq_bind, Option.bind_some] at built
      split at built
      · cases built
        rfl
      · split at built
        · cases built
          rfl
        · cases built
          rfl

/-- Both collections of a name in lower case give the same lines. -/
theorem collect_eq_collectHeader {scheme : Option Bytes} {raw : Module.RawRequest} {req : Request}
    {name : Bytes} (built : Module.buildRequest scheme raw = some req) (lower : strlow name = name) :
    collect req name = Module.collectHeader raw.headers name := by
  have same (header : Module.RawHeader) :
      ((Module.buildHeader header).name == name) =
        (header.key.length == name.length && sameFolded header.key name) := by
    rw [Bool.eq_iff_iff]
    simp only [Module.buildHeader, sameFolded, lower, beq_iff_eq, Bool.and_eq_true]
    constructor
    · intro folded
      exact ⟨by rw [← folded]; simp [strlow], folded⟩
    · exact fun both => both.2
  rw [collect, buildRequest_headers built, List.filter_map, List.map_map, Module.collectHeader]
  exact congrArg (List.map _) (List.filter_congr fun header _ => same header)

/-- A selected signature that covers the agent is the one that is selected before a fetch. -/
theorem selectLabel_of_selectSignature {ctx : Ctx} {req : Request} {sigDict : Dictionary} {sig : Signature}
    (chosen : selectSignature ctx req = .ok (sigDict, sig))
    (covered : (ctx.profile.requireAgentCovered && !sig.covered.contains .signatureAgent) = false) :
    selectLabel ctx.profile (collect req (ascii "signature-input")) = some (sig.label, sig.keyid) := by
  obtain ⟨inputRaw, sigRaw, inputDict, label, list, carried, inputPresent, _, parsed, _, distinct, _,
    picked, read, rfl, matched⟩ := selectSignature_eq_ok.mp chosen
  obtain ⟨present, rfl⟩ := fieldValue_eq_some.mp inputPresent
  have extracted : extractParams list.params Signature.zero = some (carried.record Signature.zero) :=
    extractParams_eq_some.mpr ⟨carried, read, rfl⟩
  -- The match reads neither the label nor the list of a signature.
  have fields : ({ carried.record Signature.zero with covered := coveredComponents list.items } : Signature) =
      { selected label list carried with label := [], components := ⟨[], []⟩ } := by
    rw [selected_eq]
    rcases carried with ⟨_ | _, _ | _, _ | _, _ | _, _ | _, _ | _⟩ <;> rfl
  have accepts : profileMatch ctx.profile
      { carried.record Signature.zero with covered := coveredComponents list.items } = true := by
    rw [fields]
    exact matched
  have keyid : (carried.record Signature.zero).keyid = (selected label list carried).keyid := by
    rw [selected_eq]
    rcases carried with ⟨_ | _, _ | _, _ | _, _ | _, _ | _, _ | _⟩ <;> rfl
  have listed : (selected label list carried).label = label := by rw [selected_eq]
  unfold selectLabel
  rw [if_neg (by simpa using present), parsed]
  simp only [distinct, picked, extracted, listed, Bool.false_eq_true, if_false]
  have covers : coveredComponents list.items = (selected label list carried).covered := by rw [selected_eq]
  rw [if_neg (by simpa using accepts), if_neg, keyid]
  rw [covers]
  exact Bool.eq_false_iff.mp covered

/-- A verification that gets past the profile reports the signature that is selected before a fetch. -/
theorem verifyOut_selects (ctx : Ctx) (clock : Int) {req : Request} (agent : collect req signatureAgent ≠ []) :
    (∃ declined ∈ [Result.notSigned, .parseError, .profileMismatch],
        (verifyOut ctx clock req).2 = .error (.declined declined)) ∨
      selectLabel ctx.profile (collect req (ascii "signature-input")) =
        some ((verifyOut ctx clock req).1.label, (verifyOut ctx clock req).1.keyid) := by
  have fails := selectSignature_fails ctx req
  rw [selectOut_eq] at fails
  unfold verifyOut
  cases out : selectOut ctx req with
  | mk sig result =>
      cases result with
      | error failure =>
          rw [out] at fails
          obtain ⟨declined, member, rfl⟩ := fails
          exact .inl ⟨declined, member, rfl⟩
      | ok sigDict =>
          have chosen : selectSignature ctx req = .ok (sigDict, sig) := by
            rw [selectOut_eq, out]
            rfl
          dsimp only
          split
          · exact .inl ⟨.profileMismatch, by simp, rfl⟩
          · next covered =>
              have selects := selectLabel_of_selectSignature chosen
                (by simpa [agent] using covered)
              right
              split
              · exact selects
              · cases signatureOf sigDict sig.label with
                | none => exact selects
                | some signature =>
                    dsimp only
                    cases build req sig.components with
                    | error reason => exact selects
                    | ok base =>
                        dsimp only
                        cases verifyEd25519 ctx.keys sig.keyid base signature ctx.kidFallbackKeys with
                        | error failure => exact selects
                        | ok accepted =>
                            dsimp only
                            split <;> exact selects

/-- The label selected before a fetch is the label verified, and a request without one is never verifiable. -/
theorem selectLabel_agrees (ctx : Ctx) (clock : Int) {scheme : Option Bytes} {raw : Module.RawRequest}
    {req : Request} (built : Module.buildRequest scheme raw = some req)
    (agent : Module.collectHeader raw.headers (ascii "signature-agent") ≠ []) :
    (∀ sig result, verifyOut ctx clock req = (sig, result) →
      (result = .ok () ∨ ∃ declined ∈ [Result.expired, .unknownKeyid, .keyidNotThumbprint, .signatureMismatch],
        result = .error (.declined declined)) →
      selectLabel ctx.profile (Module.collectHeader raw.headers (ascii "signature-input")) =
        some (sig.label, sig.keyid)) ∧
    (selectLabel ctx.profile (Module.collectHeader raw.headers (ascii "signature-input")) = none →
      ∀ (other : Ctx) (time : Int), other.profile = ctx.profile →
        ∃ declined ∈ [Result.notSigned, .parseError, .profileMismatch],
          (verifyOut other time req).2 = .error (.declined declined)) := by
  rw [← collect_eq_collectHeader built (by decide)] at agent ⊢
  constructor
  · intro sig result verified shown
    rcases verifyOut_selects ctx clock agent with ⟨declined, member, failed⟩ | selects
    · rw [verified] at failed
      dsimp only at failed
      rcases shown with rfl | ⟨other, otherMember, rfl⟩
      · cases failed
      · cases failed
        simp at member otherMember
        rcases member with rfl | rfl | rfl <;> simp at otherMember
    · rw [verified] at selects
      exact selects
  · intro none other time same
    rcases verifyOut_selects other time agent with fails | selects
    · exact fails
    · rw [same, none] at selects
      cases selects

/-- This request is signed for the profile by the agent that it names. -/
def agentRequest : Module.RawRequest where
  methodName := ascii "GET"
  isConnect := false
  unparsedUri := ascii "/"
  host := some (ascii "a.test")
  server := []
  headers :=
    [⟨ascii "Signature-Agent", ascii "s=\"https://b.test\""⟩,
      ⟨ascii "Signature-Input",
        ascii "s=(\"@authority\" \"signature-agent\");created=1000;expires=1600;keyid=\"k\";tag=\"web-bot-auth\""⟩,
      ⟨ascii "Signature",
        ascii "s=:AAAAAAAAAAAAAAAAAAAAAAAAAAAAAAAAAAAAAAAAAAAAAAAAAAAAAAAAAAAAAAAAAAAAAAAAAAAAAAAAAAAAAA==:"⟩]

/-- This is the snapshot of that request. -/
def agentSnapshot : Request where
  method := ascii "GET"
  scheme := ascii "https"
  authority := ascii "a.test"
  path := ascii "/"
  query := []
  hasQuery := false
  requestTarget := ascii "/"
  targetDefined := true
  headers := agentRequest.headers.map Module.buildHeader

/-- The key of the agent is known. -/
def agentCtx : Ctx where
  profile := webBotAuth
  keys := some ⟨fun keyid => keyid == ascii "k", fun _ => false, fun _ _ _ => .ok, fun _ _ _ => .declined⟩
  kidFallbackKeys := none
  expiresMax := 86400
  maxSkew := 60
  now := 0

theorem selectLabel_agrees_signed :
    selectLabel webBotAuth (Module.collectHeader agentRequest.headers (ascii "signature-input")) =
      some (ascii "s", ascii "k") := by
  have built : Module.buildRequest (some (ascii "https")) agentRequest = some agentSnapshot := by
    decide +kernel
  have label : (verifyOut agentCtx 1100 agentSnapshot).1.label = ascii "s" := by decide +kernel
  have keyid : (verifyOut agentCtx 1100 agentSnapshot).1.keyid = ascii "k" := by decide +kernel
  have result : (verifyOut agentCtx 1100 agentSnapshot).2 = .ok () := by decide +kernel
  have selects := (selectLabel_agrees agentCtx 1100 built (by decide +kernel)).1 _ _ (Prod.eta _).symm
    (.inl result)
  rw [label, keyid] at selects
  exact selects

end AuthHttpsig.Profile
