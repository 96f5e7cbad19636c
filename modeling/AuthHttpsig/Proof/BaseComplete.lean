/-
This file shows that the signature base is exactly the construction of RFC 9421 section 2.5.
-/

import AuthHttpsig.Proof.BaseInjective
import AuthHttpsig.Proof.LabelAgreement

namespace AuthHttpsig.Rfc9421

open Ascii Sfv Base

def noPath (path : Bytes) : Bytes := if path = [] then ascii "/" else path

/-- These are the derived components of section 2.2 without `@query-param` and `@status`. -/
inductive Derived (req : Request) : Bytes → Bytes → Prop
  | method : Derived req (ascii "@method") req.method
  | scheme : Derived req (ascii "@scheme") req.scheme
  | authority : Derived req (ascii "@authority") req.authority
  | requestTarget : Derived req (ascii "@request-target") req.requestTarget
  | path (target : req.targetDefined = true) : Derived req (ascii "@path") (noPath req.path)
  | query (target : req.targetDefined = true) : Derived req (ascii "@query") (ascii "?" ++ req.query)
  | targetUri (target : req.targetDefined = true) :
      Derived req (ascii "@target-uri")
        (req.scheme ++ ascii "://" ++ req.authority ++ noPath req.path ++
          if req.hasQuery then ascii "?" ++ req.query else [])

/-- The lines of a field stand in receipt order. -/
def fieldLines (req : Request) (name : Bytes) : List Bytes :=
  (req.headers.filter fun header => header.name == name).map Header.value

/-- The `key` parameter stands alone or beside a true `sf`. -/
def KeyOnly (params : Params) (key : Bytes) : Prop :=
  paramGet params (ascii "key") = some (.string key) ∧
    (params.length = 1 ∨ params.length = 2 ∧ paramGet params (ascii "sf") = some (.boolean true))

/-- A component identifier has this component value. -/
inductive ComponentValue (req : Request) : Item → Bytes → Prop
  | derived {name value} (derived : Derived req name value) : ComponentValue req ⟨.string name, []⟩ value
  | field {name} (plain : name.head? ≠ some at_) (lower : ∀ c ∈ name, isUpper c = false)
      (present : fieldLines req name ≠ []) :
      ComponentValue req ⟨.string name, []⟩ ((ascii ", ").intercalate (fieldLines req name))
  | member {params key dict member} (keyed : KeyOnly params key)
      (present : fieldLines req signatureAgent ≠ [])
      (parsed : parseDictionary ((ascii ", ").intercalate (fieldLines req signatureAgent)) = .ok dict)
      (found : dictGet dict key = some member) :
      ComponentValue req ⟨.string signatureAgent, params⟩ (writeMember member)

/-- Each component gives one line, and the line of the signature parameters ends the base. -/
def signatureBase (covered : InnerList) (values : List Bytes) : Bytes :=
  ((covered.items.zip values).flatMap fun (item, value) => writeItem item ++ ascii ": " ++ value ++ [lf]) ++
    ascii "\"@signature-params\": " ++ writeInnerList covered

end AuthHttpsig.Rfc9421

namespace AuthHttpsig.Base

open Ascii Sfv Rfc9421

/-- Each row of the table is found under its name. -/
theorem deriveTable_find (derive : Derive) (member : derive ∈ deriveTable) :
    deriveTable.find? (fun other => other.name == derive.name) = some derive := by
  simp only [deriveTable, List.mem_cons, List.not_mem_nil, or_false] at member
  rcases member with rfl | rfl | rfl | rfl | rfl | rfl | rfl | rfl <;> rfl

theorem rejectParams_eq_ok {params : Params} {value : Unit} : rejectParams params = .ok value ↔ params = [] := by
  rw [rejectParams, if_error_eq_ok]
  simp

theorem effectivePath_eq (req : Request) : effectivePath req = noPath req.path := by
  simp [effectivePath, noPath, List.length_eq_zero_iff]

/-- The target URI written out. -/
theorem targetUri_eq (req : Request) :
    targetUri req = req.scheme ++ ascii "://" ++ req.authority ++ noPath req.path ++
      if req.hasQuery then ascii "?" ++ req.query else [] := by
  rw [targetUri, effectivePath_eq]
  rfl

/-- Every derived component starts with an at sign. -/
theorem deriveTable_head {derive : Derive} (listed : derive ∈ deriveTable) : derive.name.head? = some at_ := by
  simp only [deriveTable, List.mem_cons, List.not_mem_nil, or_false] at listed
  rcases listed with rfl | rfl | rfl | rfl | rfl | rfl | rfl | rfl <;> rfl

/-- A derived component other than `@query-param` has its value without parameters. -/
theorem deriveComponent_sound {req : Request} {item : Item} {name value : Bytes}
    (other : name ≠ ascii "@query-param") (done : deriveComponent req item name = .ok value) :
    item.params = [] ∧ Derived req name value := by
  rw [deriveComponent, if_error_eq_ok] at done
  obtain ⟨_, done⟩ := done
  split at done
  · cases done
  · next derive found =>
      have listed := List.mem_of_find?_eq_some found
      obtain rfl : derive.name = name := by simpa using List.find?_some found
      simp only [deriveTable, List.mem_cons, List.not_mem_nil, or_false] at listed
      rcases listed with rfl | rfl | rfl | rfl | rfl | rfl | rfl | rfl
      all_goals
        simp only [reduceCtorEq, if_false, if_true, bind_eq_ok, rejectParams_eq_ok, if_error_eq_ok,
          pure_eq_ok, Bool.false_and, Bool.true_and, exists_const, Bool.not_eq_true', Bool.not_eq_false,
          Bool.false_eq_true] at done
      · exact ⟨done.1, done.2 ▸ .method⟩
      · exact ⟨done.1, done.2 ▸ .scheme⟩
      · exact ⟨done.1, done.2 ▸ .authority⟩
      · exact ⟨done.1, done.2.2 ▸ effectivePath_eq req ▸ .path done.2.1⟩
      · exact ⟨done.1, done.2.2 ▸ .query done.2.1⟩
      · exact absurd rfl other
      · exact ⟨done.1, done.2 ▸ .requestTarget⟩
      · exact ⟨done.1, done.2.2 ▸ targetUri_eq req ▸ .targetUri done.2.1⟩

/-- A listed component without parameters has the value of its kind. -/
theorem deriveComponent_listed (req : Request) {item : Item} {derive : Derive} (listed : derive ∈ deriveTable)
    (bare : item.params = []) (target : derive.needsTarget = true → req.targetDefined = true)
    (plain : derive.id ≠ .queryParam) :
    deriveComponent req item derive.name =
      match derive.id with
      | .method => .ok req.method
      | .scheme => .ok req.scheme
      | .authority => .ok req.authority
      | .path => .ok (effectivePath req)
      | .query => .ok (queryValue req)
      | .requestTarget => .ok req.requestTarget
      | .targetUri => .ok (targetUri req)
      | .queryParam => .error .unknownComponent := by
  have defined : ¬(derive.needsTarget && !req.targetDefined) = true := by simpa using target
  rw [deriveComponent, if_neg (by simp [deriveTable_head listed]), deriveTable_find derive listed]
  have rejected : rejectParams item.params = .ok () := rejectParams_eq_ok.mpr bare
  simp only [plain, if_false, rejected, ok_bind, if_neg defined]
  cases derive.id <;> rfl

/-- A derived component of the grammar is computed. -/
theorem deriveComponent_complete {req : Request} {item : Item} {name value : Bytes}
    (bare : item.params = []) (derived : Derived req name value) : deriveComponent req item name = .ok value := by
  have listed (derive : Derive) (member : derive ∈ deriveTable) := fun target plain =>
    deriveComponent_listed req member bare target plain
  cases derived with
  | method => exact listed ⟨ascii "@method", .method, false⟩ (by simp [deriveTable]) nofun nofun
  | scheme => exact listed ⟨ascii "@scheme", .scheme, false⟩ (by simp [deriveTable]) nofun nofun
  | authority => exact listed ⟨ascii "@authority", .authority, false⟩ (by simp [deriveTable]) nofun nofun
  | requestTarget =>
      exact listed ⟨ascii "@request-target", .requestTarget, false⟩ (by simp [deriveTable]) nofun nofun
  | path target =>
      rw [← effectivePath_eq]
      exact listed ⟨ascii "@path", .path, true⟩ (by simp [deriveTable]) (fun _ => target) nofun
  | query target => exact listed ⟨ascii "@query", .query, true⟩ (by simp [deriveTable]) (fun _ => target) nofun
  | targetUri target =>
      rw [← targetUri_eq]
      exact listed ⟨ascii "@target-uri", .targetUri, true⟩ (by simp [deriveTable]) (fun _ => target) nofun

/-- The agent field is keyed exactly by one key parameter. -/
theorem fieldAgentKey_eq_some {name key : Bytes} {params : Params} :
    fieldAgentKey name params = some key ↔ name = signatureAgent ∧ KeyOnly params key := by
  unfold fieldAgentKey KeyOnly
  by_cases agent : name = signatureAgent
  · subst agent
    rcases params with _ | ⟨first, _ | ⟨second, _ | ⟨third, more⟩⟩⟩
    · simp
    · cases paramGet [first] (ascii "key") with
      | none => simp
      | some bare => cases bare <;> simp
    · cases paramGet [first, second] (ascii "key") with
      | none => simp
      | some bare =>
          cases bare with
          | string text =>
              cases paramGet [first, second] (ascii "sf") with
              | none => simp
              | some flag =>
                  cases flag with
                  | boolean value => cases value <;> simp
                  | _ => simp
          | _ => simp
    · simp
  · simp [agent]

/-- The lines of a field joined by a comma and a space are its value. -/
theorem joinLines_eq_intercalate (lines : List Bytes) :
    Profile.joinLines lines = (ascii ", ").intercalate lines := by
  induction lines using Profile.joinLines.induct with
  | case1 => rfl
  | case2 line => simp [Profile.joinLines]
  | case3 line next rest ih => simp [Profile.joinLines, ih, List.intercalate_cons_cons]

/-- A field value is its lines joined by a comma and a blank. -/
theorem fieldValue_eq_intercalate {req : Request} {name value : Bytes} :
    fieldValue req name = some value ↔
      fieldLines req name ≠ [] ∧ value = (ascii ", ").intercalate (fieldLines req name) := by
  rw [Profile.fieldValue_eq_some, joinLines_eq_intercalate]
  rfl

/-- The keyed member is that of the parsed dictionary, written canonically. -/
theorem fieldAgentMember_eq_ok {req : Request} {key value : Bytes} :
    fieldAgentMember req key = .ok value ↔
      fieldLines req signatureAgent ≠ [] ∧
        ∃ dict member, parseDictionary ((ascii ", ").intercalate (fieldLines req signatureAgent)) = .ok dict ∧
          dictGet dict key = some member ∧ value = writeMember member := by
  unfold fieldAgentMember
  cases present : fieldValue req signatureAgent with
  | none =>
      have absent : fieldLines req signatureAgent = [] := by
        by_contra some_line
        have found := fieldValue_eq_intercalate.mpr ⟨some_line, rfl⟩
        simp [present] at found
      simp [absent]
  | some raw =>
      obtain ⟨some_line, rfl⟩ := fieldValue_eq_intercalate.mp present
      cases parsed : parseDictionary ((ascii ", ").intercalate (fieldLines req signatureAgent)) with
      | error failure => simp [parsed]
      | ok dict =>
          cases found : dictGet dict key with
          | none => simp [parsed, found]
          | some member => simp [parsed, found, some_line, eq_comm]

/-- A field component is a keyed agent member or a plain field value under a lower-case name. -/
theorem field_eq_ok {req : Request} {name value : Bytes} {params : Params} :
    field req name params = .ok value ↔
      (∀ c ∈ name, isUpper c = false) ∧
        ((∃ key, name = signatureAgent ∧ KeyOnly params key ∧ fieldAgentMember req key = .ok value) ∨
          params = [] ∧ fieldValue req name = some value) := by
  rw [field, if_error_eq_ok]
  apply and_congr
  · simp
  · cases keyed : fieldAgentKey name params with
    | some key =>
        obtain ⟨rfl, only⟩ := fieldAgentKey_eq_some.mp keyed
        have nonempty : params ≠ [] := by
          rintro rfl
          exact absurd only.1 (by simp [paramGet])
        have unique (other : Bytes) : KeyOnly params other ↔ other = key := by
          constructor
          · intro also
            have same := only.1.symm.trans also.1
            simpa using same.symm
          · rintro rfl
            exact only
        simp [nonempty, unique]
    | none =>
        have unkeyed (key : Bytes) : ¬(name = signatureAgent ∧ KeyOnly params key) := by
          intro both
          rw [fieldAgentKey_eq_some.mpr both] at keyed
          cases keyed
        have nothing : ¬∃ key, name = signatureAgent ∧ KeyOnly params key ∧ fieldAgentMember req key = .ok value :=
          fun ⟨key, named, only, _⟩ => unkeyed key ⟨named, only⟩
        simp only [bind_eq_ok, rejectParams_eq_ok, nothing, false_or, exists_const]
        apply and_congr_right
        intro _
        cases fieldValue req name with
        | none => simp
        | some found => simp [pure_eq_ok]

/-- The code derives exactly the component values of the standard. -/
theorem componentValue_eq_ok {req : Request} {item : Item} {value : Bytes}
    (other : item.bare ≠ .string (ascii "@query-param")) :
    componentValue req item = .ok value ↔ ComponentValue req item value := by
  constructor
  · intro done
    obtain ⟨bare, params⟩ := item
    cases bare with
    | string name =>
        simp only [componentValue] at done
        split at done
        · obtain ⟨rfl, derived⟩ := deriveComponent_sound (by simpa using other) done
          exact .derived derived
        · next plain =>
            obtain ⟨lower, keyed | ⟨rfl, found⟩⟩ := field_eq_ok.mp done
            · obtain ⟨key, rfl, only, done⟩ := keyed
              obtain ⟨present, dict, member, parsed, found, rfl⟩ := fieldAgentMember_eq_ok.mp done
              exact .member only present parsed found
            · obtain ⟨present, rfl⟩ := fieldValue_eq_intercalate.mp found
              exact .field (by simpa using plain) lower present
    | _ => cases done
  · intro valued
    cases valued with
    | derived derived =>
        have head : ∀ {name value}, Derived req name value → name.head? = some at_ := by
          intro name value derived
          cases derived <;> rfl
        simp only [componentValue, head derived, beq_self_eq_true, if_true]
        exact deriveComponent_complete rfl derived
    | @field name plain lower present =>
        have found := fieldValue_eq_intercalate.mpr ⟨present, rfl⟩
        simp only [componentValue, beq_iff_eq, plain, if_false]
        exact field_eq_ok.mpr ⟨lower, .inr ⟨rfl, found⟩⟩
    | @member params key dict member only present parsed found =>
        have plain : ¬(signatureAgent.head? == some at_) = true := by decide
        have lower : ∀ c ∈ signatureAgent, isUpper c = false := by decide +kernel
        simp only [componentValue, plain]
        exact field_eq_ok.mpr ⟨lower, .inl ⟨key, rfl, only,
          fieldAgentMember_eq_ok.mpr ⟨present, dict, member, parsed, found, rfl⟩⟩⟩

/-- A put succeeds exactly when the base stays within its length limit. -/
theorem bufPut_iff {buf data result : Bytes} :
    bufPut buf data = .ok result ↔ (buf ++ data).length ≤ maxBaseLength ∧ buf ++ data = result := by
  rw [bufPut, if_error_eq_ok, Except.ok.injEq, List.length_append, Nat.not_lt]

/-- The lines of the components with their values. -/
def componentLines (items : List Item) (values : List Bytes) : Bytes :=
  (items.zip values).flatMap fun (item, value) => writeItem item ++ ascii ": " ++ value ++ [lf]

/-- A component with a value is named by a string. -/
theorem componentValue_named {req : Request} {item : Item} {value : Bytes}
    (valued : ComponentValue req item value) : ∃ name, item.bare = .string name := by
  cases valued <;> exact ⟨_, rfl⟩

/-- One turn of the loop appends the line of one component. -/
theorem buildLoop_cons {req : Request} {item : Item} {rest : List Item} {labels : List Bytes}
    {buf result : Bytes} (other : item.bare ≠ .string (ascii "@query-param")) :
    buildLoop req (item :: rest) labels buf = .ok result ↔
      writeItem item ∉ labels ∧ ∃ value, ComponentValue req item value ∧
        (buf ++ (writeItem item ++ ascii ": " ++ value ++ [lf])).length ≤ maxBaseLength ∧
        buildLoop req rest (labels ++ [writeItem item])
          (buf ++ (writeItem item ++ ascii ": " ++ value ++ [lf])) = .ok result := by
  by_cases named : ∃ name, item.bare = .string name
  · obtain ⟨name, bare⟩ := named
    have split (value : Bytes) : buf ++ (writeItem item ++ ascii ": " ++ value ++ [lf]) =
        buf ++ writeItem item ++ ascii ": " ++ value ++ [lf] := by
      simp
    simp only [buildLoop, bare, if_error_eq_ok, bind_eq_ok, bufPut_iff, componentValue_eq_ok other,
      List.contains_eq_mem, decide_eq_true_eq, split]
    apply and_congr_right
    intro _
    apply exists_congr
    intro value
    apply and_congr_right
    intro _
    constructor
    · rintro ⟨_, ⟨_, rfl⟩, _, ⟨_, rfl⟩, _, ⟨_, rfl⟩, _, ⟨fits, rfl⟩, done⟩
      exact ⟨fits, done⟩
    · rintro ⟨fits, done⟩
      have whole := fits
      simp only [List.length_append] at whole
      refine ⟨_, ⟨?_, rfl⟩, _, ⟨?_, rfl⟩, _, ⟨?_, rfl⟩, _, ⟨fits, rfl⟩, done⟩
      all_goals
        simp only [List.length_append]
        omega
  · constructor
    · intro done
      rw [buildLoop] at done
      split at done
      · next name bare => exact absurd ⟨name, bare⟩ named
      · cases done
    · rintro ⟨_, value, valued, _⟩
      exact absurd (componentValue_named valued) named

/-- The loop succeeds exactly when each component has a value, no identifier repeats and the lines fit. -/
theorem buildLoop_iff {req : Request} {items : List Item} {labels : List Bytes} {buf result : Bytes}
    (fits : buf.length ≤ maxBaseLength) (other : ∀ item ∈ items, item.bare ≠ .string (ascii "@query-param")) :
    buildLoop req items labels buf = .ok result ↔
      ∃ values, List.Forall₂ (ComponentValue req) items values ∧ (items.map writeItem).Nodup ∧
        (∀ item ∈ items, writeItem item ∉ labels) ∧ buf ++ componentLines items values = result ∧
        result.length ≤ maxBaseLength := by
  induction items generalizing labels buf with
  | nil =>
      simp only [buildLoop, Except.ok.injEq]
      constructor
      · rintro rfl
        exact ⟨[], .nil, by simp, by simp, by simp [componentLines], fits⟩
      · rintro ⟨values, valued, _, _, rfl, _⟩
        cases valued
        simp [componentLines]
  | cons item rest ih =>
      have otherRest := fun next (member : next ∈ rest) => other next (List.mem_cons_of_mem _ member)
      rw [buildLoop_cons (other item List.mem_cons_self)]
      constructor
      · rintro ⟨fresh, value, valued, room, done⟩
        obtain ⟨values, rest_valued, distinct, apart, joined, short⟩ := (ih room otherRest).mp done
        refine ⟨value :: values, .cons valued rest_valued, ?_, ?_, ?_, short⟩
        · rw [List.map_cons, List.nodup_cons]
          refine ⟨?_, distinct⟩
          rintro member
          obtain ⟨next, inside, same⟩ := List.mem_map.mp member
          exact apart next inside (by simp [same])
        · intro next member
          rcases List.mem_cons.mp member with rfl | inside
          · exact fresh
          · exact fun listed => apart next inside (List.mem_append_left _ listed)
        · rw [← joined, List.append_assoc]
          rfl
      · rintro ⟨values, valued, distinct, apart, joined, short⟩
        cases valued with
        | @cons _ value _ values valued rest_valued =>
            have grown : buf ++ (writeItem item ++ ascii ": " ++ value ++ [lf]) ++ componentLines rest values =
                result := by
              rw [← joined, List.append_assoc]
              rfl
            have room : (buf ++ (writeItem item ++ ascii ": " ++ value ++ [lf])).length ≤ maxBaseLength := by
              rw [← grown, List.length_append] at short
              omega
            rw [List.map_cons, List.nodup_cons] at distinct
            refine ⟨apart item List.mem_cons_self, value, valued, room, (ih room otherRest).mpr
              ⟨values, rest_valued, distinct.2, ?_, grown, short⟩⟩
            intro next member listed
            rcases List.mem_append.mp listed with before | same
            · exact apart next (List.mem_cons_of_mem _ member) before
            · exact distinct.1 (List.mem_map.mpr ⟨next, member, by simpa using same⟩)

/-- The base is built exactly when every component has a value, no identifier repeats and the text fits, and
then it is the base of the standard. -/
theorem build_iff_signatureBase (req : Request) (covered : InnerList) (base : Bytes)
    (other : ∀ item ∈ covered.items, item.bare ≠ .string (ascii "@query-param")) :
    build req covered = .ok base ↔
      covered.items.length ≤ maxSfvItems ∧ (covered.items.map writeItem).Nodup ∧
        ∃ values, List.Forall₂ (ComponentValue req) covered.items values ∧
          base = signatureBase covered values ∧ base.length ≤ maxBaseLength := by
  have start : ([] : Bytes).length ≤ maxBaseLength := Nat.zero_le _
  simp only [build, if_error_eq_ok, Nat.not_lt, bind_eq_ok, bufPut_iff, buildLoop_iff start other,
    List.nil_append]
  apply and_congr_right
  intro _
  constructor
  · rintro ⟨_, ⟨values, valued, distinct, _, rfl, _⟩, _, ⟨_, rfl⟩, short, rfl⟩
    exact ⟨distinct, values, valued, rfl, short⟩
  · rintro ⟨distinct, values, valued, rfl, short⟩
    have lengths := short
    simp only [signatureBase, List.length_append] at lengths
    refine ⟨_, ⟨values, valued, distinct, by simp, rfl, ?_⟩, _, ⟨?_, rfl⟩, short, rfl⟩
    · simp only [componentLines]
      omega
    · simp only [componentLines, List.length_append]
      omega

/-- This request repeats a field and names its agent in a dictionary. -/
def keyedRequest : Request where
  method := ascii "GET"
  scheme := ascii "https"
  authority := ascii "a.test"
  path := []
  query := []
  hasQuery := false
  requestTarget := ascii "/"
  targetDefined := true
  headers :=
    [⟨ascii "x", ascii "1"⟩, ⟨signatureAgent, ascii "s=\"https://b.test\";v=1.50"⟩, ⟨ascii "x", ascii "2"⟩]

def keyedList : InnerList :=
  ⟨[⟨.string (ascii "@path"), []⟩, ⟨.string (ascii "x"), []⟩,
    ⟨.string signatureAgent, [(ascii "key", .string (ascii "s"))]⟩], [(ascii "created", .integer 1)]⟩

/-- A repeated field joins its lines, and a keyed member is serialized again. -/
theorem build_iff_signatureBase_keyed :
    ∃ values, List.Forall₂ (ComponentValue keyedRequest) keyedList.items values ∧
      signatureBase keyedList values =
        ascii "\"@path\": /\n" ++ ascii "\"x\": 1, 2\n" ++
          ascii "\"signature-agent\";key=\"s\": \"https://b.test\";v=1.5\n" ++
          ascii "\"@signature-params\": (\"@path\" \"x\" \"signature-agent\";key=\"s\");created=1" := by
  have built : build keyedRequest keyedList = .ok (
      ascii "\"@path\": /\n" ++ ascii "\"x\": 1, 2\n" ++
        ascii "\"signature-agent\";key=\"s\": \"https://b.test\";v=1.5\n" ++
        ascii "\"@signature-params\": (\"@path\" \"x\" \"signature-agent\";key=\"s\");created=1") := by
    decide +kernel
  have other : ∀ item ∈ keyedList.items, item.bare ≠ .string (ascii "@query-param") := by
    simp only [keyedList, List.forall_mem_cons]
    exact ⟨by decide, by decide, by decide, nofun⟩
  obtain ⟨_, _, values, valued, shape, _⟩ :=
    (build_iff_signatureBase keyedRequest keyedList _ other).mp built
  exact ⟨values, valued, shape.symm⟩

end AuthHttpsig.Base
