/-
This file shows that other signatures on a message do not interfere with its verification, and
when a message that is signed only for others counts as not signed.
-/

import AuthHttpsig.Proof.LabelAgreement
import AuthHttpsig.Proof.SfvRoundTrip

namespace AuthHttpsig.Sfv

open Ascii AssocList Rfc8941

/-- The text spells these members in order, without a limit on their number. -/
inductive Spelled : Bytes → List (Bytes × Member) → Prop
  | mk (before text after : Bytes) (raws : List (Bytes × RawMember)) : Spaces before →
      Separated EntryText text raws → Ows after → (∀ entry ∈ raws, entry.2.Within) →
      Spelled (before ++ text ++ after) (raws.map fun entry => (entry.1, entry.2.value))

/-- Two separated lists with a comma between them are one separated list. -/
theorem separated_append {α : Type} {one : Bytes → α → Prop} {first second before after : Bytes}
    {values others : List α} (left : Separated one first values) (right : Separated one second others)
    (owsBefore : Ows before) (owsAfter : Ows after) :
    Separated one (first ++ before ++ comma :: after ++ second) (values ++ others) := by
  induction left with
  | last text value spelled => exact .cons _ _ _ _ _ _ spelled owsBefore owsAfter right
  | cons text space gap tail value values spelled owsSpace owsGap _ ih =>
      have joined := Separated.cons _ _ _ _ _ _ spelled owsSpace owsGap ih
      simpa using joined

/-- Joining two spelled dictionaries with a comma spells their entries in a row. -/
theorem Spelled.append {first second : Bytes} {entries others : List (Bytes × Member)}
    (left : Spelled first entries) (right : Spelled second others) :
    Spelled (first ++ ascii ", " ++ second) (entries ++ others) := by
  obtain ⟨before, text, after, raws, leading, separated, trailing, within⟩ := left
  obtain ⟨gap, more, rest, others, blank, separatedMore, trailingMore, withinMore⟩ := right
  have gapOws : Ows (sp :: gap) := by
    intro c member
    rcases List.mem_cons.mp member with rfl | inside
    · exact .inl rfl
    · exact .inl (blank c inside)
  have joined := Spelled.mk before _ rest (raws ++ others) leading
    (separated_append separated separatedMore trailing gapOws) trailingMore
    (fun entry member => (List.mem_append.mp member).elim (within entry) (withinMore entry))
  rw [List.map_append] at joined
  have comma_sp : ascii ", " = [comma, sp] := rfl
  simpa [comma_sp] using joined

/-- The dictionary of these members keeps the last one of each key. -/
def dictionaryOf (pairs : List (Bytes × Member)) : Dictionary :=
  ⟨lastWins pairs, !decide ((pairs.map Prod.fst).Nodup)⟩

/-- The dictionary of the read members is that of their keys and values. -/
theorem dictionaryValue_eq (raws : List (Bytes × RawMember)) :
    dictionaryValue raws = dictionaryOf (raws.map fun entry => (entry.1, entry.2.value)) := by
  simp [dictionaryValue, dictionaryOf, Function.comp_def]

/-- A dictionary without a repeated label lists its members as they are spelled. -/
theorem dictionaryOf_distinct {pairs : List (Bytes × Member)} (distinct : (pairs.map Prod.fst).Nodup) :
    dictionaryOf pairs = ⟨pairs, false⟩ := by
  rw [dictionaryOf, ← collect_eq_lastWins, collect_of_nodup _ distinct]
  simp [distinct]

/-- A dictionary has an entry for every key that occurs. -/
theorem dictionaryOf_length (pairs : List (Bytes × Member)) :
    (dictionaryOf pairs).entries.length = (firstKeys pairs).length := by
  rw [dictionaryOf, ← collect_eq_lastWins, ← collect_keys, List.length_map]

/-- A key has the value it was given last. -/
theorem dictGet_dictionaryOf (pairs : List (Bytes × Member)) (key : Bytes) :
    dictGet (dictionaryOf pairs) key = lastValue pairs key := by
  -- The parser compares keys as lists and the library by their decidable equality.
  have comparison : (inferInstance : BEq Bytes) = instBEqOfDecidableEq := lawful_beq_subsingleton _ _
  rw [← lastWins_lookup]
  exact congrArg (fun beq => @List.lookup _ _ beq key (lastWins pairs)) comparison

/-- A parsed text with members spells them. -/
theorem parseDictionary_spells {input : Bytes} {dict : Dictionary} (parsed : parseDictionary input = .ok dict)
    (nonempty : dict.entries ≠ []) : ∃ pairs, Spelled input pairs ∧ dict = dictionaryOf pairs := by
  have short : input.length ≤ maxSfvLength := by
    by_contra long
    rw [parseDictionary, parseWith, if_pos (by omega)] at parsed
    simp at parsed
  obtain ⟨raws, field, within, rfl⟩ := (parseDictionary_iff short dict).mp parsed
  obtain ⟨before, _, after, raws, leading, series, trailing⟩ := field
  cases series with
  | empty => exact absurd rfl nonempty
  | mk text rest raws separated ows =>
      have whole := Spelled.mk before text (rest ++ after) raws leading separated
        (ows_append ows (spaces_ows trailing)) within.2
      exact ⟨_, by simpa using whole, dictionaryValue_eq raws⟩

/-- A text that spells few enough members is parsed. -/
theorem Spelled.parses {input : Bytes} {pairs : List (Bytes × Member)} (spelled : Spelled input pairs)
    (few : (firstKeys pairs).length ≤ maxSfvItems) (short : input.length ≤ maxSfvLength) :
    Sfv.parseDictionary input = .ok (dictionaryOf pairs) := by
  obtain ⟨before, text, after, raws, leading, separated, trailing, within⟩ := spelled
  have bounded : WithinDictionary raws := by
    refine ⟨?_, within⟩
    rw [← dictionaryValue_length, dictionaryValue_eq, dictionaryOf_length]
    exact few
  apply (parseDictionary_iff short _).mpr
  refine ⟨raws, ?_, bounded, (dictionaryValue_eq raws).symm⟩
  have field := FieldText.mk before _ [] raws leading (SeriesText.mk text after raws separated trailing)
    (by simp [Spaces])
  simpa using field

/-- A parsed dictionary without a repeated key was spelled by its entries. -/
theorem parseDictionary_spelled {input : Bytes} {dict : Dictionary} (parsed : parseDictionary input = .ok dict)
    (distinct : dict.duplicateKeys = false) (nonempty : dict.entries ≠ []) : Spelled input dict.entries := by
  obtain ⟨pairs, spelled, rfl⟩ := parseDictionary_spells parsed nonempty
  rw [dictionaryOf_distinct (by simpa [dictionaryOf] using distinct)]
  exact spelled

/-- A spelled dictionary within the limits parses to its entries. -/
theorem Spelled.parseDictionary {input : Bytes} {entries : List (Bytes × Member)}
    (spelled : Spelled input entries) (distinct : (entries.map Prod.fst).Nodup)
    (few : entries.length ≤ maxSfvItems) (short : input.length ≤ maxSfvLength) :
    parseDictionary input = .ok ⟨entries, false⟩ := by
  have parsed := spelled.parses (by rw [← dictionaryOf_length, dictionaryOf_distinct distinct]; exact few) short
  rw [dictionaryOf_distinct distinct] at parsed
  exact parsed

end AuthHttpsig.Sfv

namespace AuthHttpsig.Base

open Ascii Sfv

/-- The snapshot has further header lines after its own. -/
def Request.withLines (req : Request) (more : List Header) : Request :=
  { req with headers := req.headers ++ more }

/-- A field without further lines keeps its value. -/
theorem fieldValue_withLines {req : Request} {more : List Header} {name : Bytes}
    (apart : ∀ header ∈ more, header.name ≠ name) : fieldValue (req.withLines more) name = fieldValue req name := by
  have none : more.filter (fun header => header.name == name) = [] := by
    rw [List.filter_eq_nil_iff]
    intro header member same
    exact apart header member (by simpa using same)
  rw [fieldValue, fieldValue, Request.withLines, List.filter_append, none, List.append_nil]

/-- The keyed agent member depends on the field value alone. -/
theorem fieldAgentMember_congr {req other : Request}
    (same : fieldValue other signatureAgent = fieldValue req signatureAgent) (key : Bytes) :
    fieldAgentMember other key = fieldAgentMember req key := by
  rw [fieldAgentMember, fieldAgentMember, same]

/-- A field component depends on its own value and that of the agent field. -/
theorem field_congr {req other : Request} {name : Bytes} (params : Params)
    (agent : fieldValue other signatureAgent = fieldValue req signatureAgent)
    (same : fieldValue other name = fieldValue req name) : field other name params = field req name params := by
  unfold field
  rw [same]
  split
  · rfl
  · split
    · exact fieldAgentMember_congr agent _
    · rfl

/-- The components that are not covered do not enter the base. -/
theorem build_withLines {req : Request} {more : List Header} {covered : InnerList}
    (agent : ∀ header ∈ more, header.name ≠ signatureAgent)
    (uncovered : ∀ item ∈ covered.items, ∀ header ∈ more, item.bare ≠ .string header.name) :
    build (req.withLines more) covered = build req covered := by
  have value (item : Item) (free : ∀ header ∈ more, item.bare ≠ .string header.name) :
      componentValue (req.withLines more) item = componentValue req item := by
    unfold componentValue
    split
    · next name named =>
        split
        · rfl
        · apply field_congr item.params (fieldValue_withLines agent)
          exact fieldValue_withLines fun header member same => free header member (by rw [named, same])
    · rfl
  have loop (items : List Item) (labels : List Bytes) (buf : Bytes)
      (free : ∀ item ∈ items, ∀ header ∈ more, item.bare ≠ .string header.name) :
      buildLoop (req.withLines more) items labels buf = buildLoop req items labels buf := by
    induction items generalizing labels buf with
    | nil => rfl
    | cons item rest ih =>
        have step := fun labels buf =>
          ih labels buf fun other member => free other (List.mem_cons_of_mem _ member)
        simp only [buildLoop, value item (free item List.mem_cons_self), step]
  rw [build, build, loop covered.items [] [] uncovered]

end AuthHttpsig.Base

namespace AuthHttpsig.Profile

open Ascii Sfv Base

/-- Further lines add their own values to a field. -/
theorem collect_withLines (req : Request) (more : List Header) (name : Bytes) :
    collect (req.withLines more) name =
      collect req name ++ (more.filter fun header => header.name == name).map Header.value := by
  rw [collect, Request.withLines, List.filter_append, List.map_append, collect]

/-- One more line is joined with a comma and a blank. -/
theorem joinLines_snoc {lines : List Bytes} (nonempty : lines ≠ []) (line : Bytes) :
    joinLines (lines ++ [line]) = joinLines lines ++ ascii ", " ++ line := by
  cases lines with
  | nil => exact absurd rfl nonempty
  | cons first rest => rw [List.cons_append, joinLines_cons, joinLines_cons, List.foldl_append]; rfl

/-- The line is a dictionary with members and without a repeated label. -/
def DictionaryLine (line : Bytes) (dict : Dictionary) : Prop :=
  parseDictionary line = .ok dict ∧ dict.entries ≠ [] ∧ dict.duplicateKeys = false

/-- A further line spells further members. -/
theorem spelled_snoc {lines : List Bytes} {line : Bytes} {entries more : List (Bytes × Member)}
    (nonempty : lines ≠ []) (first : Spelled (joinLines lines) entries) (second : Spelled line more) :
    Spelled (joinLines (lines ++ [line])) (entries ++ more) := by
  rw [joinLines_snoc nonempty]
  exact first.append second

/-- Joining spelled lines spells all their entries. -/
theorem spelled_joinLines {lines more : List Bytes} {entries : List (Bytes × Member)}
    {dicts : List Dictionary} (nonempty : lines ≠ []) (first : Spelled (joinLines lines) entries)
    (rest : List.Forall₂ DictionaryLine more dicts) :
    Spelled (joinLines (lines ++ more)) (entries ++ dicts.flatMap Dictionary.entries) := by
  induction rest generalizing lines entries with
  | nil => simpa using first
  | cons line _ ih =>
      have spelled := spelled_snoc nonempty first (parseDictionary_spelled line.1 line.2.2 line.2.1)
      simpa using ih (by simp) spelled

/-- The further lines of one field are dictionaries whose labels are new, within the limits of the parser. -/
structure Foreign (req : Request) (more : List Header) (name : Bytes) (dicts : List Dictionary) : Prop where
  lines : List.Forall₂ DictionaryLine ((more.filter fun header => header.name == name).map Header.value) dicts
  fresh : ∀ raw dict, fieldValue req name = some raw → parseDictionary raw = .ok dict →
    ((dict.entries ++ dicts.flatMap Dictionary.entries).map Prod.fst).Nodup ∧
      (dict.entries ++ dicts.flatMap Dictionary.entries).length ≤ maxSfvItems
  short : ∀ raw, fieldValue (req.withLines more) name = some raw → raw.length ≤ maxSfvLength

/-- The field with its further lines has its members before the further ones. -/
theorem Foreign.parsed {req : Request} {more : List Header} {name raw : Bytes} {dicts : List Dictionary}
    {dict : Dictionary} (foreign : Foreign req more name dicts) (present : fieldValue req name = some raw)
    (parsed : parseDictionary raw = .ok dict) (distinct : dict.duplicateKeys = false)
    (nonempty : dict.entries ≠ []) :
    ∃ joined, fieldValue (req.withLines more) name = some joined ∧
      parseDictionary joined = .ok ⟨dict.entries ++ dicts.flatMap Dictionary.entries, false⟩ := by
  obtain ⟨some_line, rfl⟩ := fieldValue_eq_some.mp present
  have joined : fieldValue (req.withLines more) name = some (joinLines (collect (req.withLines more) name)) := by
    refine fieldValue_eq_some.mpr ⟨?_, rfl⟩
    rw [collect_withLines]
    simp [some_line]
  refine ⟨_, joined, ?_⟩
  have short := foreign.short _ joined
  rw [collect_withLines] at short ⊢
  have spelled := spelled_joinLines some_line (parseDictionary_spelled parsed distinct nonempty) foreign.lines
  obtain ⟨labels, few⟩ := foreign.fresh _ dict present parsed
  exact spelled.parseDictionary labels few short

/-- An entry that was selected is still selected with more entries after it. -/
theorem selectEntry_append {dict : Dictionary} {tag : Bytes} {entry : Bytes × Member}
    (found : selectEntry dict tag = some entry) (others : List (Bytes × Member)) (duplicate : Bool) :
    selectEntry ⟨dict.entries ++ others, duplicate⟩ tag = some entry := by
  rw [selectEntry] at found ⊢
  rw [List.find?_append, found, Option.some_or]

/-- A signature that was found is still found with more entries after it. -/
theorem signatureOf_append {dict : Dictionary} {label signature : Bytes}
    (found : signatureOf dict label = some signature) (others : List (Bytes × Member)) (duplicate : Bool) :
    signatureOf ⟨dict.entries ++ others, duplicate⟩ label = some signature := by
  unfold signatureOf dictGet at found ⊢
  rw [List.lookup_append]
  cases inside : dict.entries.lookup label with
  | none => simp [inside] at found
  | some member => simpa [inside] using found

/-- A selected entry is an entry. -/
theorem selectEntry_nonempty {dict : Dictionary} {tag : Bytes} {entry : Bytes × Member}
    (found : selectEntry dict tag = some entry) : dict.entries ≠ [] := by
  intro empty
  simp [selectEntry, empty] at found

/-- A dictionary with a signature is not empty. -/
theorem signatureOf_nonempty {dict : Dictionary} {label signature : Bytes}
    (found : signatureOf dict label = some signature) : dict.entries ≠ [] := by
  intro empty
  simp [signatureOf, dictGet, empty] at found

/-- A verified request stays verified with the same signature when further signatures follow it. They may
even carry the tag of the profile, since the first tagged label is selected. -/
theorem verify_ignores_others {ctx : Ctx} {clock : Int} {req : Request} {sig : Signature}
    {more : List Header} {inputs signatures : List Dictionary} (verified : verify ctx clock req = .ok sig)
    (uncovered : ∀ item ∈ sig.components.items,
      item.bare ≠ .string (ascii "signature-input") ∧ item.bare ≠ .string (ascii "signature"))
    (named : ∀ header ∈ more, header.name = ascii "signature-input" ∨ header.name = ascii "signature")
    (foreignInputs : Foreign req more (ascii "signature-input") inputs)
    (foreignSignatures : Foreign req more (ascii "signature") signatures) :
    verify ctx clock (req.withLines more) = .ok sig := by
  obtain ⟨sigDict, picked, signature, base, chosen, covered, inTime, found, built, sized, accepted, rfl⟩ :=
    verify_eq_ok.mp verified
  obtain ⟨inputRaw, sigRaw, inputDict, label, list, carried, inputPresent, sigPresent, inputParsed,
    sigParsed, inputDistinct, sigDistinct, entry, read, rfl, matched⟩ := selectSignature_eq_ok.mp chosen
  have agentApart : ∀ header ∈ more, header.name ≠ signatureAgent := by
    intro header member
    rcases named header member with same | same <;> rw [same] <;> decide
  have agents : collect (req.withLines more) signatureAgent = collect req signatureAgent := by
    have none : more.filter (fun header => header.name == signatureAgent) = [] := by
      rw [List.filter_eq_nil_iff]
      intro header member same
      exact agentApart header member (by simpa using same)
    rw [collect_withLines, none, List.map_nil, List.append_nil]
  obtain ⟨inputJoined, inputJoinedPresent, inputJoinedParsed⟩ := foreignInputs.parsed inputPresent
    inputParsed inputDistinct (selectEntry_nonempty entry)
  obtain ⟨sigJoined, sigJoinedPresent, sigJoinedParsed⟩ := foreignSignatures.parsed sigPresent
    sigParsed sigDistinct (signatureOf_nonempty found)
  have chosenAgain : selectSignature ctx (req.withLines more) =
      .ok (⟨sigDict.entries ++ signatures.flatMap Dictionary.entries, false⟩, selected label list carried) := by
    refine selectSignature_eq_ok.mpr ⟨inputJoined, sigJoined, _, label, list, carried, inputJoinedPresent,
      sigJoinedPresent, inputJoinedParsed, sigJoinedParsed, rfl, rfl, ?_, read, rfl, matched⟩
    exact selectEntry_append entry _ _
  have baseAgain : build (req.withLines more) (selected label list carried).components = .ok base := by
    rw [build_withLines agentApart, built]
    intro item member header inside
    rcases named header inside with same | same
    · rw [same]
      exact (uncovered item member).1
    · rw [same]
      exact (uncovered item member).2
  refine verify_eq_ok.mpr ⟨_, _, signature, base, chosenAgain, ?_, inTime, ?_, baseAgain, sized, accepted, ?_⟩
  · rw [agents]
    exact covered
  · exact signatureOf_append found _ _
  · rw [agents]

/-- The labels of the field decide whether further lines are foreign to it. -/
theorem Foreign.of_labels {req : Request} {more : List Header} {name raw : Bytes} {dicts : List Dictionary}
    (labels : List Bytes)
    (lines : List.Forall₂ DictionaryLine ((more.filter fun header => header.name == name).map Header.value) dicts)
    (present : fieldValue req name = some raw)
    (known : (parseDictionary raw).map (fun dict => dict.entries.map Prod.fst) = .ok labels)
    (fresh : (labels ++ (dicts.flatMap Dictionary.entries).map Prod.fst).Nodup)
    (few : (labels ++ (dicts.flatMap Dictionary.entries).map Prod.fst).length ≤ maxSfvItems)
    (short : (fieldValue (req.withLines more) name).all (fun joined => joined.length ≤ maxSfvLength) = true) :
    Foreign req more name dicts := by
  refine ⟨lines, ?_, fun joined found => by simpa [found] using short⟩
  intro other dict found parsed
  rw [present, Option.some.injEq] at found
  subst found
  rw [parsed] at known
  obtain rfl : dict.entries.map Prod.fst = labels := by simpa [Except.map] using known
  exact ⟨by simpa using fresh, by simpa using few⟩

/-- A proxy has signed the request too. -/
def proxyLines : List Header :=
  [⟨ascii "signature-input", ascii "t=(\"@method\");tag=\"other\", u=()"⟩,
    ⟨ascii "signature", ascii "t=:AA==:"⟩]

/-- A request to which a proxy added its own signature. -/
theorem verify_ignores_others_proxy :
    ∃ sig, verify agentCtx 1100 (agentSnapshot.withLines proxyLines) = .ok sig ∧ sig.label = ascii "s" := by
  have facts : (verify agentCtx 1100 agentSnapshot).map (fun sig =>
      (sig.label, sig.components.items.map fun item => item.bare)) =
        .ok (ascii "s", [.string (ascii "@authority"), .string (ascii "signature-agent")]) := by
    decide +kernel
  cases verified : verify agentCtx 1100 agentSnapshot with
  | error failure => simp [verified, Except.map] at facts
  | ok sig =>
      obtain ⟨label, bares⟩ : sig.label = ascii "s" ∧ sig.components.items.map (fun item => item.bare) =
          [.string (ascii "@authority"), .string (ascii "signature-agent")] := by
        simpa [verified, Except.map] using facts
      have uncovered : ∀ item ∈ sig.components.items,
          item.bare ≠ .string (ascii "signature-input") ∧ item.bare ≠ .string (ascii "signature") := by
        intro item member
        have bare := List.mem_map_of_mem (f := fun item : Item => item.bare) member
        rw [bares] at bare
        simp only [List.mem_cons, List.not_mem_nil, or_false] at bare
        rcases bare with same | same <;> rw [same] <;> decide
      have inputs : Foreign agentSnapshot proxyLines (ascii "signature-input") [⟨
          [(ascii "t", .innerList ⟨[⟨.string (ascii "@method"), []⟩], [(ascii "tag", .string (ascii "other"))]⟩),
            (ascii "u", .innerList ⟨[], []⟩)], false⟩] :=
        .of_labels [ascii "s"] (.cons ⟨by decide +kernel, by simp, rfl⟩ .nil) rfl (by decide +kernel) (by decide)
          (by decide) (by decide +kernel)
      have signatures : Foreign agentSnapshot proxyLines (ascii "signature")
          [⟨[(ascii "t", .item ⟨.byteSequence [0], []⟩)], false⟩] :=
        .of_labels [ascii "s"] (.cons ⟨by decide +kernel, by simp, rfl⟩ .nil) rfl (by decide +kernel) (by decide)
          (by decide) (by decide +kernel)
      exact ⟨sig, verify_ignores_others verified uncovered (by decide) inputs signatures, label⟩

/-- No member of Signature-Input carries the tag of the profile. -/
def OutOfScope (tag : Bytes) (dict : Dictionary) : Prop :=
  ∀ entry ∈ dict.entries, paramGet (memberParams entry.2) (ascii "tag") ≠ some (.string tag)

instance (tag : Bytes) (dict : Dictionary) : Decidable (OutOfScope tag dict) :=
  inferInstanceAs (Decidable (∀ entry ∈ dict.entries, _))

/-- The Signature field is there and is a dictionary without duplicate labels. -/
def ReadableSignature (req : Request) : Prop :=
  ∃ raw dict, fieldValue req (ascii "signature") = some raw ∧ parseDictionary raw = .ok dict ∧
    dict.duplicateKeys = false

/-- A dictionary out of scope has nothing to select. -/
theorem selectEntry_outOfScope {tag : Bytes} {dict : Dictionary} (foreign : OutOfScope tag dict) :
    selectEntry dict tag = none := by
  rw [selectEntry, List.find?_eq_none]
  intro entry member
  simpa using foreign entry member

/-- A message that is signed only for others is declined before or at the choice of a label. -/
theorem selectSignature_outOfScope {ctx : Ctx} {req : Request} {raw : Bytes} {dict : Dictionary}
    (carried : fieldValue req (ascii "signature-input") = some raw) (parsed : parseDictionary raw = .ok dict)
    (distinct : dict.duplicateKeys = false) (foreign : OutOfScope ctx.profile.tag dict) :
    selectSignature ctx req =
      match fieldValue req (ascii "signature") with
      | none => .error (.declined .parseError)
      | some sigRaw => match parseDictionary sigRaw with
        | .error _ => .error (.declined .parseError)
        | .ok sigDict =>
            if sigDict.duplicateKeys then .error (.declined .parseError) else .error (.declined .notSigned) := by
  have unselected := selectEntry_outOfScope foreign
  unfold selectSignature
  rw [carried]
  cases fieldValue req (ascii "signature") with
  | none => rfl
  | some sigRaw =>
      simp only [ofOption, parseField, parsed, bind, Except.bind]
      cases parseDictionary sigRaw with
      | error reason => rfl
      | ok sigDict => simp only [distinct, Bool.false_or, unselected]

/-- A message that is signed only for others is not signed exactly when its Signature field is readable. -/
theorem verify_outOfScope_iff {ctx : Ctx} {req : Request} {raw : Bytes} {dict : Dictionary} (clock : Int)
    (carried : fieldValue req (ascii "signature-input") = some raw) (parsed : parseDictionary raw = .ok dict)
    (distinct : dict.duplicateKeys = false) (foreign : OutOfScope ctx.profile.tag dict) :
    verify ctx clock req = .error (.declined .notSigned) ↔ ReadableSignature req := by
  unfold verify
  rw [selectSignature_outOfScope carried parsed distinct foreign]
  unfold ReadableSignature
  cases fieldValue req (ascii "signature") with
  | none => simp [bind, Except.bind]
  | some sigRaw =>
      cases parsedSig : parseDictionary sigRaw with
      | error reason => simp [parsedSig, bind, Except.bind]
      | ok sigDict => cases distinctSig : sigDict.duplicateKeys <;> simp [parsedSig, distinctSig, bind, Except.bind]

/-- The message is signed for another ecosystem only. -/
def foreignRequest : Request :=
  { agentSnapshot with
    headers := [⟨ascii "signature-input", ascii "t=(\"@method\");tag=\"other\""⟩,
      ⟨ascii "signature", ascii "t=:AA==:"⟩] }

def foreignDictionary : Dictionary :=
  ⟨[(ascii "t", .innerList ⟨[⟨.string (ascii "@method"), []⟩], [(ascii "tag", .string (ascii "other"))]⟩)], false⟩

/-- A request that carries only a signature of another tag. -/
theorem verify_outOfScope_iff_foreign :
    verify agentCtx 1100 foreignRequest = .error (.declined .notSigned) ↔ ReadableSignature foreignRequest :=
  verify_outOfScope_iff 1100 rfl (show parseDictionary _ = .ok foreignDictionary by decide +kernel) rfl
    (by decide +kernel)

/-- Without a Signature field the same message fails. -/
theorem verify_outOfScope_fails :
    ¬ ∀ (ctx : Ctx) (clock : Int) (req : Request) (raw : Bytes) (dict : Dictionary),
      fieldValue req (ascii "signature-input") = some raw → parseDictionary raw = .ok dict →
      dict.duplicateKeys = false → OutOfScope ctx.profile.tag dict →
      verify ctx clock req = .error (.declined .notSigned) := by
  intro unsigned
  have answer := unsigned agentCtx 1100 { foreignRequest with headers := foreignRequest.headers.take 1 } _
    foreignDictionary rfl (by decide +kernel) rfl (by decide +kernel)
  exact absurd answer (by decide +kernel)

end AuthHttpsig.Profile
