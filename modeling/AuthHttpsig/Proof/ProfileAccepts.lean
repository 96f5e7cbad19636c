/-
This file shows that the verification steps accept exactly the signatures of the profile, and
that the times of acceptance form an interval.
-/

import AuthHttpsig.Library.Result
import AuthHttpsig.Construction.Profile

namespace AuthHttpsig

/-- The key verifier accepts by thumbprint, or by the raw key id among the fallback keys. -/
def KeyAccepts (keys fallback : Option Keys) (keyid base signature : Bytes) : Prop :=
  ∃ source, keys = some source ∧ keyid ≠ [] ∧
    (source.has keyid = true ∧ source.verify keyid base signature = .ok ∨
      source.has keyid = false ∧ source.hasKid keyid = true ∧
        ∃ limited, fallback = some limited ∧ limited.verifyKid keyid base signature = .ok)

/-- A signature is accepted exactly when it has 64 octets and a given key accepts it. -/
theorem verifyEd25519_eq_ok {keys fallback : Option Keys} {keyid base signature : Bytes} :
    verifyEd25519 keys keyid base signature fallback = .ok () ↔
      signature.length = 64 ∧ KeyAccepts keys fallback keyid base signature := by
  unfold KeyAccepts
  cases keys with
  | none => simp [verifyEd25519]
  | some source =>
      by_cases unnamed : keyid = []
      · simp [verifyEd25519, unnamed]
      by_cases sized : signature.length = 64
      swap
      · simp [verifyEd25519, unnamed, sized, ed25519SignatureLength]
      simp only [verifyEd25519, List.length_eq_zero_iff, unnamed, if_false, ed25519SignatureLength,
        sized, ne_eq, not_true_eq_false, not_false_eq_true, Option.some.injEq, exists_eq_left', true_and]
      cases held : source.has keyid with
      | true => cases verified : source.verify keyid base signature <;> simp
      | false =>
          cases named : source.hasKid keyid with
          | false => simp
          | true =>
              cases fallback with
              | none => simp
              | some limited =>
                  cases verified : limited.verifyKid keyid base signature <;> simp [verified]

namespace Profile
open Ascii Sfv Base

theorem ofOption_eq_ok {α : Type} {result : Result} {value : Option α} {found : α} :
    ofOption result value = .ok found ↔ value = some found := by
  cases value <;> simp [ofOption]

/-- A field is read exactly when its dictionary parses. -/
theorem parseField_eq_ok {raw : Bytes} {dict : Dictionary} :
    parseField raw = .ok dict ↔ parseDictionary raw = .ok dict := by
  unfold parseField
  cases parseDictionary raw <;> simp

/-- An absent parameter is no value, and a value of another type is an error. -/
def readInteger (list : Params) (name : Bytes) : Option (Option Int) :=
  match paramGet list name with
  | none => some none
  | some (.integer value) => some (some value)
  | _ => none

def readString (list : Params) (name : Bytes) : Option (Option Bytes) :=
  match paramGet list name with
  | none => some none
  | some (.string value) => some (some value)
  | _ => none

/-- A value that was read is stored with its bit. -/
def Signature.recordInteger (sig : Signature) (bit : Param) : Option Int → Signature
  | none => sig
  | some value => (sig.storeInteger value bit).setPresent bit

def Signature.recordString (sig : Signature) (bit : Param) : Option Bytes → Signature
  | none => sig
  | some value => (sig.storeString value bit).setPresent bit

/-- An integer parameter is recorded as the integer read. -/
theorem extractParam_integer (list : Params) (sig : Signature) (name : Bytes) (bit : Param) :
    extractParam list sig ⟨name, .integer, bit⟩ =
      (readInteger list name).map (sig.recordInteger bit) := by
  unfold extractParam readInteger
  split
  · next none => simp [none, Signature.recordInteger]
  · next value found => cases value <;> simp [found, Signature.recordInteger]

/-- A string parameter is recorded as the text read. -/
theorem extractParam_string (list : Params) (sig : Signature) (name : Bytes) (bit : Param) :
    extractParam list sig ⟨name, .string, bit⟩ =
      (readString list name).map (sig.recordString bit) := by
  unfold extractParam readString
  split
  · next none => simp [none, Signature.recordString]
  · next value found => cases value <;> simp [found, Signature.recordString]

/-- The parameters that a signature may carry. -/
structure Carried where
  created : Option Int
  expires : Option Int
  keyid : Option Bytes
  alg : Option Bytes
  nonce : Option Bytes
  tag : Option Bytes

/-- Every parameter has its type whenever it is present. -/
structure Carried.Of (carried : Carried) (list : Params) : Prop where
  created : readInteger list (ascii "created") = some carried.created
  expires : readInteger list (ascii "expires") = some carried.expires
  keyid : readString list (ascii "keyid") = some carried.keyid
  alg : readString list (ascii "alg") = some carried.alg
  nonce : readString list (ascii "nonce") = some carried.nonce
  tag : readString list (ascii "tag") = some carried.tag

/-- The extraction stores the carried parameters one after the other. -/
def Carried.record (carried : Carried) (sig : Signature) : Signature :=
  (((((sig.recordInteger .created carried.created).recordInteger .expires carried.expires).recordString
    .keyid carried.keyid).recordString .alg carried.alg).recordString .nonce carried.nonce).recordString
    .tag carried.tag

/-- The parameters are extracted exactly when each has the type of its name. -/
theorem extractParams_eq_some {list : Params} {sig extracted : Signature} :
    extractParams list sig = some extracted ↔
      ∃ carried : Carried, carried.Of list ∧ extracted = carried.record sig := by
  simp only [extractParams, params, List.foldlM_cons, List.foldlM_nil, extractParam_integer,
    extractParam_string, Option.bind_eq_bind, Option.bind_eq_some_iff, Option.map_eq_some_iff,
    Option.pure_def, Option.some.injEq]
  constructor
  · rintro ⟨_, ⟨created, first, rfl⟩, _, ⟨expires, second, rfl⟩, _, ⟨keyid, third, rfl⟩,
      _, ⟨alg, fourth, rfl⟩, _, ⟨nonce, fifth, rfl⟩, _, ⟨tag, sixth, rfl⟩, rfl⟩
    exact ⟨⟨created, expires, keyid, alg, nonce, tag⟩, ⟨first, second, third, fourth, fifth, sixth⟩, rfl⟩
  · rintro ⟨carried, read, rfl⟩
    exact ⟨_, ⟨_, read.created, rfl⟩, _, ⟨_, read.expires, rfl⟩, _, ⟨_, read.keyid, rfl⟩,
      _, ⟨_, read.alg, rfl⟩, _, ⟨_, read.nonce, rfl⟩, _, ⟨_, read.tag, rfl⟩, rfl⟩

/-- The bits of the carried parameters stand in the order of the table. -/
def Carried.bits (carried : Carried) : List Param :=
  (if carried.created.isSome then [.created] else []) ++
  (if carried.expires.isSome then [.expires] else []) ++
  (if carried.keyid.isSome then [.keyid] else []) ++
  (if carried.alg.isSome then [.alg] else []) ++
  (if carried.nonce.isSome then [.nonce] else []) ++
  (if carried.tag.isSome then [.tag] else [])

/-- The signature before the remaining checks holds the label, the list and its parameters. -/
def selected (label : Bytes) (list : InnerList) (carried : Carried) : Signature :=
  { carried.record { Signature.zero with label := label, components := list } with
    covered := coveredComponents list.items }

/-- An absent parameter leaves its field at zero. -/
theorem selected_eq (label : Bytes) (list : InnerList) (carried : Carried) :
    selected label list carried =
      { label := label
        keyid := carried.keyid.getD []
        alg := carried.alg.getD []
        nonce := carried.nonce.getD []
        tag := carried.tag.getD []
        created := carried.created.getD 0
        expires := carried.expires.getD 0
        present := carried.bits
        covered := coveredComponents list.items
        components := list
        signature := []
        agentHost := [] } := by
  -- Each of the six parameters is absent or present, and both sides compute.
  rcases carried with ⟨_ | _, _ | _, _ | _, _ | _, _ | _, _ | _⟩ <;> rfl

/-- What a selected signature says about the two fields it was selected from. -/
theorem selectSignature_eq_ok {ctx : Ctx} {req : Request} {sigDict : Dictionary} {sig : Signature} :
    selectSignature ctx req = .ok (sigDict, sig) ↔
      ∃ inputRaw sigRaw inputDict label list carried,
        fieldValue req (ascii "signature-input") = some inputRaw ∧
        fieldValue req (ascii "signature") = some sigRaw ∧
        parseDictionary inputRaw = .ok inputDict ∧ parseDictionary sigRaw = .ok sigDict ∧
        inputDict.duplicateKeys = false ∧ sigDict.duplicateKeys = false ∧
        selectEntry inputDict ctx.profile.tag = some (label, .innerList list) ∧
        Carried.Of carried list.params ∧ sig = selected label list carried ∧
        profileMatch ctx.profile sig = true := by
  simp only [selectSignature, bind_eq_ok, ofOption_eq_ok, parseField_eq_ok, if_error_eq_ok,
    Bool.or_eq_true, not_or, Bool.not_eq_true]
  constructor
  · rintro ⟨inputRaw, first, sigRaw, second, inputDict, third, dict, fourth, ⟨fifth, sixth⟩, entry, seventh, done⟩
    obtain ⟨label, member⟩ := entry
    cases member with
    | item single => simp at done
    | innerList list =>
        simp only [bind_eq_ok, ofOption_eq_ok, extractParams_eq_some, if_error_eq_ok, pure_eq_ok,
          Bool.not_eq_true', Bool.not_eq_false, Prod.mk.injEq] at done
        obtain ⟨_, ⟨carried, read, rfl⟩, matched, rfl, rfl⟩ := done
        exact ⟨inputRaw, sigRaw, inputDict, label, list, carried, first, second, third, fourth, fifth,
          sixth, seventh, read, rfl, matched⟩
  · rintro ⟨inputRaw, sigRaw, inputDict, label, list, carried, first, second, third, fourth, fifth,
      sixth, seventh, read, rfl, matched⟩
    refine ⟨inputRaw, first, sigRaw, second, inputDict, third, sigDict, fourth, ⟨fifth, sixth⟩, _,
      seventh, ?_⟩
    simp only [bind_eq_ok, ofOption_eq_ok, extractParams_eq_some, if_error_eq_ok, pure_eq_ok,
      Bool.not_eq_true', Bool.not_eq_false, Prod.mk.injEq, true_and]
    exact ⟨_, ⟨carried, read, rfl⟩, matched, rfl⟩

/-- What an accepted request says about each step of the verification. -/
theorem verify_eq_ok {ctx : Ctx} {clock : Int} {req : Request} {sig : Signature} :
    verify ctx clock req = .ok sig ↔
      ∃ sigDict picked signature base,
        selectSignature ctx req = .ok (sigDict, picked) ∧
        ¬ (ctx.profile.requireAgentCovered = true ∧ collect req signatureAgent ≠ [] ∧
          Component.signatureAgent ∉ picked.covered) ∧
        timeWindow ctx (ctx.effectiveNow clock) picked = true ∧
        signatureOf sigDict picked.label = some signature ∧
        build req picked.components = .ok base ∧
        signature.length = 64 ∧ KeyAccepts ctx.keys ctx.kidFallbackKeys picked.keyid base signature ∧
        sig = { picked with
          signature := signature
          agentHost := if collect req signatureAgent = [] then picked.agentHost
            else agentHost (collect req signatureAgent) picked.label } := by
  simp only [verify, bind_eq_ok, Prod.exists, if_error_eq_ok, ofOption_eq_ok]
  have agent (picked : Signature) :
      (ctx.profile.requireAgentCovered && !(collect req signatureAgent).isEmpty &&
        !picked.covered.contains .signatureAgent) = true ↔
      ctx.profile.requireAgentCovered = true ∧ collect req signatureAgent ≠ [] ∧
        Component.signatureAgent ∉ picked.covered := by
    simp [and_assoc]
  simp only [agent, Bool.not_eq_true', Bool.not_eq_false]
  constructor
  · rintro ⟨sigDict, picked, selected, covered, inTime, signature, found, done⟩
    split at done
    · simp at done
    · next base built =>
        simp only [bind_eq_ok, pure_eq_ok] at done
        obtain ⟨_, verified, rfl⟩ := done
        obtain ⟨sized, accepted⟩ := verifyEd25519_eq_ok.mp verified
        refine ⟨sigDict, picked, signature, base, selected, covered, inTime, found, built, sized,
          accepted, ?_⟩
        by_cases absent : collect req signatureAgent = [] <;> simp [absent]
  · rintro ⟨sigDict, picked, signature, base, selected, covered, inTime, found, built, sized, accepted, rfl⟩
    refine ⟨sigDict, picked, selected, covered, inTime, signature, found, ?_⟩
    simp only [built]
    rw [bind_eq_ok]
    refine ⟨(), verifyEd25519_eq_ok.mpr ⟨sized, accepted⟩, ?_⟩
    rw [pure_eq_ok]
    by_cases absent : collect req signatureAgent = [] <;> simp [absent]

/-- A step declines with one of these results. -/
def Declines (results : List Result) (failure : Failure) : Prop :=
  ∃ result ∈ results, failure = .declined result

/-- A failure among some results is one among more of them. -/
theorem Declines.mono {first second : List Result} {failure : Failure} (declines : Declines first failure)
    (subset : first ⊆ second) : Declines second failure := by
  obtain ⟨result, member, same⟩ := declines
  exact ⟨result, subset member, same⟩

/-- A missing value fails with the result given for it. -/
theorem ofOption_fails {α : Type} {results : List Result} {result : Result} (member : result ∈ results)
    (value : Option α) : Fails (Declines results) (ofOption result value) := by
  cases value with
  | none => exact ⟨result, member, rfl⟩
  | some value => trivial

/-- A field that does not parse is a parse error. -/
theorem parseField_fails {results : List Result} (member : Result.parseError ∈ results) (raw : Bytes) :
    Fails (Declines results) (parseField raw) := by
  unfold parseField
  split
  · trivial
  · exact ⟨_, member, rfl⟩

/-- The selection fails only with one of these results. -/
theorem selectSignature_fails (ctx : Ctx) (req : Request) :
    Fails (Declines [.notSigned, .parseError, .profileMismatch]) (selectSignature ctx req) := by
  unfold selectSignature
  apply (ofOption_fails (by simp) _).bind
  intro inputRaw
  apply (ofOption_fails (by simp) _).bind
  intro sigRaw
  apply (parseField_fails (by simp) _).bind
  intro inputDict
  apply (parseField_fails (by simp) _).bind
  intro sigDict
  split
  · exact ⟨.parseError, by simp, rfl⟩
  · apply (ofOption_fails (by simp) _).bind
    intro entry
    split
    · exact ⟨.parseError, by simp, rfl⟩
    · apply (ofOption_fails (by simp) _).bind
      intro sig
      dsimp only
      split
      · exact ⟨.profileMismatch, by simp, rfl⟩
      · trivial

/-- The three declines of the key check; any other failure of it is an error. -/
theorem verifyEd25519_fails (keys fallback : Option Keys) (keyid base signature : Bytes) :
    Fails (fun failure => failure = .error ∨
        Declines [.unknownKeyid, .signatureMismatch, .keyidNotThumbprint] failure)
      (verifyEd25519 keys keyid base signature fallback) := by
  unfold verifyEd25519
  repeat' split
  all_goals simp [Fails, Declines]

/-- A verification fails internally or with one of these results. -/
theorem verify_fails (ctx : Ctx) (clock : Int) (req : Request) :
    Fails (fun failure => failure = .error ∨
        Declines [.notSigned, .parseError, .profileMismatch, .expired, .unknownKeyid, .signatureMismatch,
          .keyidNotThumbprint] failure)
      (verify ctx clock req) := by
  unfold verify
  apply ((selectSignature_fails ctx req).imp fun _ declines => .inr (declines.mono (by simp))).bind
  rintro ⟨sigDict, sig⟩
  dsimp only
  split
  · exact .inr ⟨.profileMismatch, by simp, rfl⟩
  · split
    · exact .inr ⟨.expired, by simp, rfl⟩
    · apply ((ofOption_fails (List.mem_singleton_self .parseError) _).imp fun _ declines =>
        .inr (declines.mono (by simp))).bind
      intro signature
      split
      · exact .inr ⟨.parseError, by simp, rfl⟩
      · apply ((verifyEd25519_fails _ _ _ _ _).imp fun _ fails =>
          fails.imp id fun declines => declines.mono (by simp)).bind
        intro _
        trivial

/-- A parameter of a list is present with the given value. -/
def HasParam (list : InnerList) (name : String) (value : BareItem) : Prop :=
  paramGet list.params (ascii name) = some value

/-- The parameter is a string whenever it is present. -/
def StringOrAbsent (list : InnerList) (name : String) : Prop :=
  paramGet list.params (ascii name) = none ∨ ∃ value, HasParam list name (.string value)

def Covers (list : InnerList) (name : String) : Prop :=
  ∃ item ∈ list.items, item.bare = .string (ascii name)

/-- The first member of the dictionary with the tag is an inner list. -/
def FirstTagged (dict : Dictionary) (tag : Bytes) (label : Bytes) (list : InnerList) : Prop :=
  ∃ before after, dict.entries = before ++ (label, .innerList list) :: after ∧
    HasParam list "tag" (.string tag) ∧
    ∀ entry ∈ before, paramGet (memberParams entry.2) (ascii "tag") ≠ some (.string tag)

/-- Everything that the profile asks of a request, apart from its place in time. -/
structure Acceptance (ctx : Ctx) (req : Request) where
  inputRaw : Bytes
  sigRaw : Bytes
  inputDict : Dictionary
  sigDict : Dictionary
  label : Bytes
  list : InnerList
  created : Int
  expires : Int
  keyid : Bytes
  signature : Bytes
  sigParams : Params
  base : Bytes
  inputPresent : fieldValue req (ascii "signature-input") = some inputRaw
  sigPresent : fieldValue req (ascii "signature") = some sigRaw
  inputParsed : parseDictionary inputRaw = .ok inputDict
  sigParsed : parseDictionary sigRaw = .ok sigDict
  inputDistinct : inputDict.duplicateKeys = false
  sigDistinct : sigDict.duplicateKeys = false
  firstTagged : FirstTagged inputDict (ascii "web-bot-auth") label list
  createdParam : HasParam list "created" (.integer created)
  expiresParam : HasParam list "expires" (.integer expires)
  keyidParam : HasParam list "keyid" (.string keyid)
  nonceParam : StringOrAbsent list "nonce"
  algParam : paramGet list.params (ascii "alg") = none ∨
    ∃ alg, HasParam list "alg" (.string alg) ∧ strlow alg = strlow (ascii "ed25519")
  anyOf : Covers list "@target-uri" ∨ Covers list "@authority"
  agentCovered : fieldValue req (ascii "signature-agent") = none ∨ Covers list "signature-agent"
  lifetime : 0 ≤ expires - created ∧ expires - created ≤ ctx.expiresMax
  signed : dictGet sigDict label = some (.item ⟨.byteSequence signature, sigParams⟩)
  sized : signature.length = 64
  built : build req list = .ok base
  verified : KeyAccepts ctx.keys ctx.kidFallbackKeys keyid base signature

/-- The selected entry is the first inner list with the wanted tag. -/
theorem selectEntry_eq_some {dict : Dictionary} {tag label : Bytes} {list : InnerList} :
    selectEntry dict tag = some (label, .innerList list) ↔ FirstTagged dict tag label list := by
  simp only [selectEntry, List.find?_eq_some_iff_append, beq_iff_eq, FirstTagged, HasParam,
    memberParams, Bool.not_eq_true', beq_eq_false_iff_ne]
  constructor
  · rintro ⟨tagged, before, after, shape, earlier⟩
    exact ⟨before, after, shape, tagged, earlier⟩
  · rintro ⟨before, after, shape, tagged, earlier⟩
    exact ⟨tagged, before, after, shape, earlier⟩

/-- An integer is read exactly where the parameter is one. -/
theorem readInteger_eq_some {list : Params} {name : Bytes} {value : Int} :
    readInteger list name = some (some value) ↔ paramGet list name = some (.integer value) := by
  unfold readInteger
  split
  · next none => simp [none]
  · next number found => simp [found]
  · next other => constructor <;> simp_all

/-- A text is read exactly where the parameter is one. -/
theorem readString_eq_some {list : Params} {name value : Bytes} :
    readString list name = some (some value) ↔ paramGet list name = some (.string value) := by
  unfold readString
  split
  · next none => simp [none]
  · next text found => simp [found]
  · next other => constructor <;> simp_all

/-- No text is read exactly where the parameter is absent. -/
theorem readString_eq_none {list : Params} {name : Bytes} :
    readString list name = some none ↔ paramGet list name = none := by
  unfold readString
  split
  · next none => simp [none]
  · next text found => simp [found]
  · next other => constructor <;> simp_all

/-- The signature of a label is the byte sequence under that label. -/
theorem signatureOf_eq_some {dict : Dictionary} {label signature : Bytes} :
    signatureOf dict label = some signature ↔
      ∃ list, dictGet dict label = some (.item ⟨.byteSequence signature, list⟩) := by
  unfold signatureOf
  split
  · next value list found => simp [found]
  · next other =>
      constructor
      · simp
      · rintro ⟨list, found⟩
        exact absurd found (other signature list)

/-- A component name is looked up exactly when the table lists it. -/
theorem components_lookup {name : Bytes} {component : Component} :
    components.lookup name = some component ↔ (name, component) ∈ components := by
  constructor
  · exact AssocList.mem_of_lookup
  · have table : ∀ pair ∈ components, components.lookup pair.1 = some pair.2 := by decide
    exact table (name, component)

/-- A component of the table is covered by an item with its name. -/
theorem mem_coveredComponents (list : InnerList) {name : String} {component : Component}
    (listed : (ascii name, component) ∈ components) :
    component ∈ coveredComponents list.items ↔ Covers list name := by
  have unique : ∀ pair ∈ components, ∀ other ∈ components, pair.2 = other.2 → pair.1 = other.1 := by
    decide
  simp only [coveredComponents, List.mem_filterMap, Covers]
  refine exists_congr fun item => and_congr_right fun _ => ?_
  obtain ⟨bare, list⟩ := item
  cases bare <;> simp only [reduceCtorEq, BareItem.string.injEq]
  rw [components_lookup]
  constructor
  · exact fun found => unique _ found _ listed rfl
  · rintro rfl
    exact listed

/-- A field has no value exactly when it has no line. -/
theorem fieldValue_eq_none {req : Request} {name : Bytes} :
    fieldValue req name = none ↔ collect req name = [] := by
  unfold fieldValue collect
  split
  · next none => simp [none]
  · next first more shape => simp [shape]

/-- The comparison of the source is equality up to letter case. -/
theorem sameFolded_iff {left right : Bytes} :
    ((left.length != right.length || !sameFolded left right) = false) ↔ strlow left = strlow right := by
  simp only [sameFolded, Bool.or_eq_false_iff, bne_eq_false_iff_eq, Bool.not_eq_false', beq_iff_eq,
    and_iff_right_iff_imp]
  intro same
  simpa [strlow] using congrArg List.length same

theorem targetUri_covered (list : InnerList) :
    Component.targetUri ∈ coveredComponents list.items ↔ Covers list "@target-uri" :=
  mem_coveredComponents list (by decide)

theorem authority_covered (list : InnerList) :
    Component.authority ∈ coveredComponents list.items ↔ Covers list "@authority" :=
  mem_coveredComponents list (by decide)

theorem signatureAgent_covered (list : InnerList) :
    Component.signatureAgent ∈ coveredComponents list.items ↔ Covers list "signature-agent" :=
  mem_coveredComponents list (by decide)

/-- A bit is set when its parameter is carried. -/
theorem mem_bits (carried : Carried) :
    (Param.created ∈ carried.bits ↔ carried.created.isSome = true) ∧
    (Param.expires ∈ carried.bits ↔ carried.expires.isSome = true) ∧
    (Param.keyid ∈ carried.bits ↔ carried.keyid.isSome = true) ∧
    (Param.alg ∈ carried.bits ↔ carried.alg.isSome = true) ∧
    (Param.tag ∈ carried.bits ↔ carried.tag.isSome = true) := by
  simp [Carried.bits]

/-- The profile asks for four parameters, its algorithm and one of two components. -/
theorem profileMatch_selected {label : Bytes} {list : InnerList} {carried : Carried} :
    profileMatch webBotAuth (selected label list carried) = true ↔
      carried.created.isSome = true ∧ carried.expires.isSome = true ∧ carried.keyid.isSome = true ∧
      carried.tag.isSome = true ∧
      (∀ alg, carried.alg = some alg → strlow alg = strlow (ascii "ed25519")) ∧
      (Covers list "@target-uri" ∨ Covers list "@authority") := by
  obtain ⟨created, expires, keyid, alg, tag⟩ := mem_bits carried
  rw [← targetUri_covered, ← authority_covered, selected_eq]
  have named : decide (0 < webBotAuth.alg.length) = true := by decide
  have algorithm : (carried.bits.contains .alg && decide (0 < webBotAuth.alg.length) &&
      ((carried.alg.getD []).length != webBotAuth.alg.length ||
        !sameFolded (carried.alg.getD []) webBotAuth.alg)) = false ↔
      ∀ alg, carried.alg = some alg → strlow alg = strlow (ascii "ed25519") := by
    rw [named, Bool.and_true, Bool.and_eq_false_iff, sameFolded_iff, List.contains_eq_mem,
      decide_eq_false_iff_not, alg]
    cases carried.alg <;> simp [webBotAuth]
  simp only [profileMatch, Bool.and_eq_true, Bool.not_eq_true', algorithm]
  simp only [webBotAuth, List.all_cons, List.all_nil, List.any_cons, List.any_nil, List.isEmpty_cons,
    List.contains_eq_mem, Bool.and_eq_true, decide_eq_true_eq, created, expires, keyid, tag,
    Bool.and_true, Bool.or_false, Bool.not_false, Bool.true_and, Bool.not_eq_false', Bool.or_eq_true,
    and_true, and_assoc]

/-- With both times present the window bounds them by the clock, the skew and the lifetime. -/
theorem timeWindow_selected {ctx : Ctx} {now created expires : Int} {label : Bytes} {list : InnerList}
    {carried : Carried} (first : carried.created = some created) (second : carried.expires = some expires) :
    timeWindow ctx now (selected label list carried) = true ↔
      created ≤ now + ctx.maxSkew ∧ now - ctx.maxSkew ≤ expires ∧
      0 ≤ expires - created ∧ expires - created ≤ ctx.expiresMax := by
  obtain ⟨createdBit, expiresBit, _⟩ := mem_bits carried
  have createdPresent := createdBit.mpr (by simp [first])
  have expiresPresent := expiresBit.mpr (by simp [second])
  rw [selected_eq]
  simp only [timeWindow, List.contains_eq_mem, createdPresent, expiresPresent, decide_true,
    Bool.true_and, first, second, Option.getD_some, Bool.and_eq_true, Bool.not_eq_true',
    decide_eq_false_iff_not, Bool.or_eq_false_iff, Int.not_lt]
  omega

/-- The evidence gives the parameters that the extraction reads. -/
theorem Acceptance.carried {ctx : Ctx} {req : Request} (accepted : Acceptance ctx req) :
    ∃ carried : Carried, carried.Of accepted.list.params ∧
      carried.created = some accepted.created ∧ carried.expires = some accepted.expires ∧
      carried.keyid = some accepted.keyid ∧ carried.tag = some (ascii "web-bot-auth") ∧
      ∀ alg, carried.alg = some alg → strlow alg = strlow (ascii "ed25519") := by
  obtain ⟨nonce, readNonce⟩ : ∃ nonce, readString accepted.list.params (ascii "nonce") = some nonce := by
    rcases accepted.nonceParam with absent | ⟨value, found⟩
    · exact ⟨none, readString_eq_none.mpr absent⟩
    · exact ⟨some value, readString_eq_some.mpr found⟩
  obtain ⟨alg, readAlg, folded⟩ : ∃ alg, readString accepted.list.params (ascii "alg") = some alg ∧
      ∀ value, alg = some value → strlow value = strlow (ascii "ed25519") := by
    rcases accepted.algParam with absent | ⟨value, found, same⟩
    · exact ⟨none, readString_eq_none.mpr absent, by simp⟩
    · exact ⟨some value, readString_eq_some.mpr found, by simpa using same⟩
  obtain ⟨_, _, _, tagged, _⟩ := accepted.firstTagged
  exact ⟨⟨some accepted.created, some accepted.expires, some accepted.keyid, alg, nonce,
    some (ascii "web-bot-auth")⟩,
    ⟨readInteger_eq_some.mpr accepted.createdParam, readInteger_eq_some.mpr accepted.expiresParam,
      readString_eq_some.mpr accepted.keyidParam, readAlg, readNonce, readString_eq_some.mpr tagged⟩,
    rfl, rfl, rfl, rfl, folded⟩

/-- The profile accepts a request when it is acceptable and the clock is in its window. -/
theorem verify_iff_acceptance (ctx : Ctx) (clock : Int) (req : Request)
    (profile : ctx.profile = webBotAuth) :
    (∃ sig, verify ctx clock req = .ok sig) ↔
      ∃ accepted : Acceptance ctx req,
        accepted.created ≤ ctx.effectiveNow clock + ctx.maxSkew ∧
        ctx.effectiveNow clock - ctx.maxSkew ≤ accepted.expires := by
  constructor
  · rintro ⟨sig, done⟩
    obtain ⟨sigDict, picked, signature, base, chosen, covered, inTime, found, built, sized, accepted, _⟩ :=
      verify_eq_ok.mp done
    obtain ⟨inputRaw, sigRaw, inputDict, label, list, carried, inputPresent, sigPresent, inputParsed,
      sigParsed, inputDistinct, sigDistinct, entry, read, rfl, matched⟩ := selectSignature_eq_ok.mp chosen
    rw [profile] at covered entry matched
    obtain ⟨created, expires, keyid, tag, alg, anyOf⟩ := profileMatch_selected.mp matched
    obtain ⟨created, createdParam⟩ := Option.isSome_iff_exists.mp created
    obtain ⟨expires, expiresParam⟩ := Option.isSome_iff_exists.mp expires
    obtain ⟨keyid, keyidParam⟩ := Option.isSome_iff_exists.mp keyid
    obtain ⟨early, late, nonnegative, short⟩ := (timeWindow_selected createdParam expiresParam).mp inTime
    rw [selected_eq] at covered found built accepted
    obtain ⟨sigParams, signed⟩ := signatureOf_eq_some.mp found
    have readCreated := read.created
    have readExpires := read.expires
    have readKeyid := read.keyid
    rw [createdParam, readInteger_eq_some] at readCreated
    rw [expiresParam, readInteger_eq_some] at readExpires
    rw [keyidParam, readString_eq_some] at readKeyid
    refine ⟨⟨inputRaw, sigRaw, inputDict, sigDict, label, list, created, expires, keyid, signature,
      sigParams, base, inputPresent, sigPresent, inputParsed, sigParsed, inputDistinct, sigDistinct,
      selectEntry_eq_some.mp entry, readCreated, readExpires, readKeyid, ?_, ?_, anyOf, ?_,
      ⟨nonnegative, short⟩, signed, sized, built, ?_⟩, early, late⟩
    · have readNonce := read.nonce
      cases nonce : carried.nonce with
      | none => exact .inl (readString_eq_none.mp (nonce ▸ readNonce))
      | some value => exact .inr ⟨value, readString_eq_some.mp (nonce ▸ readNonce)⟩
    · have readAlg := read.alg
      cases found : carried.alg with
      | none => exact .inl (readString_eq_none.mp (found ▸ readAlg))
      | some value => exact .inr ⟨value, readString_eq_some.mp (found ▸ readAlg), alg value found⟩
    · rw [fieldValue_eq_none, ← signatureAgent_covered]
      by_contra missing
      rw [not_or] at missing
      exact covered ⟨rfl, missing⟩
    · simpa [keyidParam] using accepted
  · rintro ⟨accepted, early, late⟩
    obtain ⟨carried, read, created, expires, keyid, tag, alg⟩ := accepted.carried
    have entry := selectEntry_eq_some.mpr accepted.firstTagged
    have chosen : selectSignature ctx req =
        .ok (accepted.sigDict, selected accepted.label accepted.list carried) := by
      refine selectSignature_eq_ok.mpr ⟨_, _, _, _, _, carried, accepted.inputPresent,
        accepted.sigPresent, accepted.inputParsed, accepted.sigParsed, accepted.inputDistinct,
        accepted.sigDistinct, profile ▸ entry, read, rfl, ?_⟩
      rw [profile, profileMatch_selected]
      exact ⟨by simp [created], by simp [expires], by simp [keyid], by simp [tag], alg, accepted.anyOf⟩
    refine ⟨_, verify_eq_ok.mpr ⟨_, _, accepted.signature, accepted.base, chosen, ?_,
      (timeWindow_selected created expires).mpr ⟨early, late, accepted.lifetime⟩, ?_, ?_,
      accepted.sized, ?_, rfl⟩⟩
    · rintro ⟨_, present, missing⟩
      rw [selected_eq, signatureAgent_covered] at missing
      exact accepted.agentCovered.elim (fun none => present (fieldValue_eq_none.mp none)) missing
    · rw [selected_eq]
      exact signatureOf_eq_some.mpr ⟨_, accepted.signed⟩
    · rw [selected_eq]
      exact accepted.built
    · rw [selected_eq]
      simpa [keyid] using accepted.verified

/-- A request has one pair of times at most. -/
theorem Acceptance.times_unique {ctx : Ctx} {req : Request} (first second : Acceptance ctx req) :
    first.created = second.created ∧ first.expires = second.expires := by
  have raws := first.inputPresent.symm.trans second.inputPresent
  have dicts := first.inputParsed
  rw [Option.some.inj raws, second.inputParsed, Except.ok.injEq] at dicts
  have entries := selectEntry_eq_some.mpr first.firstTagged
  rw [← dicts, selectEntry_eq_some.mpr second.firstTagged] at entries
  simp only [Option.some.injEq, Prod.mk.injEq, Member.innerList.injEq] at entries
  have created := first.createdParam
  have expires := first.expiresParam
  rw [HasParam, ← entries.2, second.createdParam] at created
  rw [HasParam, ← entries.2, second.expiresParam] at expires
  simp only [Option.some.injEq, BareItem.integer.injEq] at created expires
  exact ⟨created.symm, expires.symm⟩

/-- The evidence does not depend on the time of the context. -/
def Acceptance.retime {ctx : Ctx} {req : Request} (accepted : Acceptance ctx req) (now : Int) :
    Acceptance { ctx with now := now } req :=
  { accepted with lifetime := accepted.lifetime, verified := accepted.verified }

/-- The steps accept exactly the profile's signatures, and from the creation time less the skew to
the expiry time plus the skew. -/
theorem verify_sound_complete (ctx : Ctx) (req : Request) (profile : ctx.profile = webBotAuth) :
    (∀ clock, (∃ sig, verify ctx clock req = .ok sig) ↔
      ∃ accepted : Acceptance ctx req,
        accepted.created ≤ ctx.effectiveNow clock + ctx.maxSkew ∧
        ctx.effectiveNow clock - ctx.maxSkew ≤ accepted.expires) ∧
    ((∀ now clock, ¬ ∃ sig, verify { ctx with now := now } clock req = .ok sig) ∨
      ∃ created expires, ∀ now clock, (∃ sig, verify { ctx with now := now } clock req = .ok sig) ↔
        ({ ctx with now := now } : Ctx).effectiveNow clock ∈
          Set.Icc (created - ctx.maxSkew) (expires + ctx.maxSkew)) := by
  refine ⟨fun clock => verify_iff_acceptance ctx clock req profile, ?_⟩
  by_cases possible : Nonempty (Acceptance ctx req)
  · obtain ⟨accepted⟩ := possible
    refine .inr ⟨accepted.created, accepted.expires, fun now clock => ?_⟩
    rw [verify_iff_acceptance { ctx with now := now } clock req profile, Set.mem_Icc]
    constructor
    · rintro ⟨other, early, late⟩
      obtain ⟨created, expires⟩ := (accepted.retime now).times_unique other
      change accepted.created = other.created at created
      change accepted.expires = other.expires at expires
      rw [created, expires]
      simp only at early late
      omega
    · intro inside
      refine ⟨accepted.retime now, ?_, ?_⟩
      · change accepted.created ≤ _ + ctx.maxSkew
        omega
      · change _ - ctx.maxSkew ≤ accepted.expires
        omega
  · refine .inl fun now clock => ?_
    rw [verify_iff_acceptance { ctx with now := now } clock req profile]
    rintro ⟨accepted, _⟩
    exact possible ⟨accepted.retime ctx.now⟩

/-- A signed request with a window around the clock is acceptable. -/
theorem verify_sound_complete_signed :
    ∃ accepted : Acceptance
        ⟨webBotAuth, some ⟨fun keyid => keyid == ascii "k", fun _ => false, fun _ _ _ => .ok, fun _ _ _ => .declined⟩,
          none, 86400, 60, 0⟩
        ⟨ascii "GET", ascii "https", ascii "a.test", ascii "/", [], false, ascii "/", true,
          [⟨ascii "signature-input",
              ascii "s=(\"@authority\");created=1000;expires=1600;keyid=\"k\";tag=\"web-bot-auth\""⟩,
            ⟨ascii "signature",
              ascii "s=:AAAAAAAAAAAAAAAAAAAAAAAAAAAAAAAAAAAAAAAAAAAAAAAAAAAAAAAAAAAAAAAAAAAAAAAAAAAAAAAAAAAAAA==:"⟩]⟩,
      accepted.created ≤ 1100 + 60 ∧ 1100 - 60 ≤ accepted.expires :=
  ((verify_sound_complete _ _ rfl).1 1100).mp (exists_eq_ok.mpr (by decide +kernel))

end Profile
end AuthHttpsig
