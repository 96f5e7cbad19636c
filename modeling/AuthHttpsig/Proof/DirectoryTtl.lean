/-
This file shows that the time to live is exact and cannot overflow, and when a malformed directive
changes it.
-/

import AuthHttpsig.Library.Checked
import AuthHttpsig.Proof.Freshness

namespace AuthHttpsig.Directory
open Ascii
open AuthHttpsig.Module (isOws trim)

/-- This is one step of the digit loop in the signed arithmetic of C. -/
def parseUintStep64 (value : Int) (c : UInt8) : Option Int :=
  if value < ttlParseCap then do
    let scaled ← Checked.mul value 10
    Checked.add scaled (digitValue c)
  else some ttlParseCap

/-- This is `ngx_auth_httpsig_directory_parse_uint` in the signed arithmetic of C. -/
def parseUint64 (text : Bytes) : Option (Int × Nat) := do
  let digits := text.takeWhile isDigit
  let value ← digits.foldlM parseUintStep64 0
  return (value, digits.length)

/-- This is `ngx_auth_httpsig_directory_parse_directive` in the signed arithmetic of C. -/
def parseDirective64 (token name : Bytes) (value : Int) : Option (Bool × Int) :=
  if token.length < name.length || !sameFolded (token.take name.length) name then some (false, value)
  else match (token.drop name.length).dropWhile isOws with
    | [] => some (false, value)
    | c :: rest =>
        if c != equals then some (false, value)
        else do
          let text := rest.dropWhile isOws
          let parsed ← parseUint64 text
          return (decide (parsed.2 ≠ 0) && ((text.drop parsed.2).dropWhile isOws).isEmpty, parsed.1)

/-- This is `ngx_auth_httpsig_directory_apply_directive` in the signed arithmetic of C. -/
def applyDirective64 (fresh : Freshness) (token : Bytes) : Option Freshness :=
  if tokenIs token (ascii "no-store") || tokenIs token (ascii "no-cache") || tokenIs token (ascii "private") then
    some { fresh with forbid := true }
  else do
    let shared ← parseDirective64 token (ascii "s-maxage") fresh.smaxage
    if shared.1 then return { fresh with haveSmaxage := true, smaxage := shared.2 }
    else
      let own ← parseDirective64 token (ascii "max-age") fresh.maxage
      return { fresh with
        smaxage := shared.2
        haveMaxage := fresh.haveMaxage || own.1
        maxage := own.2 }

/-- This is `ngx_auth_httpsig_directory_ttl` in the signed arithmetic of C. -/
def directoryTtl64 (cacheControl : Bytes) (age minTtl maxTtl : Int) : Option Int := do
  let fresh ← (tokens cacheControl).foldlM applyDirective64 Freshness.zero
  let value ← Checked.sub fresh.derived age
  let value := if value < 0 then 0 else value
  let value := if value < minTtl then minTtl else value
  return if maxTtl < value then maxTtl else value

/-- A step from a value within the bounds of the accumulator does not overflow. -/
theorem parseUintStep64_eq {value : Int} {c : UInt8} (low : 0 ≤ value) (digit : isDigit c = true) :
    parseUintStep64 value c = some (parseUintStep value c) := by
  have small := digitValue_lt digit
  unfold parseUintStep64 parseUintStep
  by_cases below : value < ttlParseCap
  · have bound : 10 * ttlParseCap < 2 ^ 63 := by decide
    have scaled : Checked.mul value 10 = some (value * 10) := Checked.narrow_eq bound (by omega) (by omega)
    have summed : Checked.add (value * 10) (digitValue c) = some (value * 10 + digitValue c) :=
      Checked.narrow_eq bound (by omega) (by omega)
    rw [if_pos below, if_pos below, scaled]
    exact summed
  · rw [if_neg below, if_neg below]

/-- No digit takes the 64-bit reader past its range. -/
theorem foldlM_step64 {digits : Bytes} (inside : ∀ c ∈ digits, isDigit c = true) :
    digits.foldlM parseUintStep64 0 = some (saturated digits) := by
  induction digits using List.reverseRecOn with
  | nil => rfl
  | append_singleton digits c ih =>
      have before : ∀ d ∈ digits, isDigit d = true := fun d present => inside d (List.mem_append_left _ present)
      have digit := inside c (List.mem_append_right _ List.mem_cons_self)
      have step := parseUintStep64_eq (saturates_fold before).low digit
      have last : saturated (digits ++ [c]) = parseUintStep (saturated digits) c := List.foldl_concat ..
      rw [List.foldlM_append, ih before, last, Option.bind_eq_bind, Option.bind_some, List.foldlM_cons, step]
      rfl

/-- The 64-bit reader reads what the exact one does. -/
theorem parseUint64_eq (text : Bytes) : parseUint64 text = some (parseUint text) := by
  have folded := foldlM_step64 (digitsOf_digits text)
  rw [digitsOf] at folded
  rw [parseUint64, folded]
  rfl

/-- The 64-bit reader of a directive is the exact one. -/
theorem parseDirective64_eq (token name : Bytes) (value : Int) :
    parseDirective64 token name value = some (parseDirective token name value) := by
  unfold parseDirective64 parseDirective
  split
  · rfl
  · cases (token.drop name.length).dropWhile isOws with
    | nil => rfl
    | cons c rest =>
        dsimp only
        by_cases assigned : (c != equals) = true
        · rw [if_pos assigned, if_pos assigned]
        · rw [if_neg assigned, if_neg assigned, parseUint64_eq]
          rfl

/-- Applying a token in 64 bits is applying it. -/
theorem applyDirective64_eq (fresh : Freshness) (token : Bytes) :
    applyDirective64 fresh token = some (applyDirective fresh token) := by
  unfold applyDirective64 applyDirective
  split
  · rfl
  · rw [parseDirective64_eq, parseDirective64_eq]
    simp only [Option.bind_eq_bind, Option.bind_some]
    split <;> rfl

/-- The whole computation is without overflow. -/
theorem directoryTtl64_eq (cacheControl : Bytes) {age : Int} (minTtl maxTtl : Int) (notNegative : 0 ≤ age)
    (fits : Checked.InRange age) :
    directoryTtl64 cacheControl age minTtl maxTtl = some (directoryTtl cacheControl age minTtl maxTtl) := by
  have folded (tokens : List Bytes) (fresh : Freshness) :
      tokens.foldlM applyDirective64 fresh = some (tokens.foldl applyDirective fresh) := by
    induction tokens generalizing fresh with
    | nil => rfl
    | cons token rest ih =>
        rw [List.foldlM_cons, applyDirective64_eq]
        exact ih _
  have bounds := derived_bounds (tokens cacheControl)
  have bound : 10 * ttlParseCap < 2 ^ 63 := by decide
  have subtracted : Checked.sub ((tokens cacheControl).foldl applyDirective Freshness.zero).derived age =
      some (((tokens cacheControl).foldl applyDirective Freshness.zero).derived - age) :=
    if_pos ⟨by have := fits.2; omega, by omega⟩
  rw [directoryTtl64, folded, Option.bind_eq_bind, Option.bind_some, subtracted]
  rfl

/-- The last well-formed directive of the name has these digits. -/
def LastStated (name : Bytes) (tokens : List Bytes) (digits : Bytes) : Prop :=
  ∃ before token after, tokens = before ++ token :: after ∧ Directive name token digits ∧
    ∀ later ∈ after, ∀ other, ¬ Directive name later other

/-- No token is a well-formed directive of the name. -/
def Unstated (name : Bytes) (tokens : List Bytes) : Prop := ∀ token ∈ tokens, ∀ digits, ¬ Directive name token digits

/-- The tokens state this number of seconds. -/
inductive Stated (tokens : List Bytes) : Int → Prop
  | forbidden {token : Bytes} (member : token ∈ tokens) (forbids : prohibits token = true) : Stated tokens 0
  | shared {digits : Bytes} (allowed : ∀ token ∈ tokens, prohibits token = false)
      (last : LastStated sMaxage tokens digits) : Stated tokens (decimal digits)
  | own {digits : Bytes} (allowed : ∀ token ∈ tokens, prohibits token = false)
      (unshared : Unstated sMaxage tokens) (last : LastStated maxAge tokens digits) : Stated tokens (decimal digits)
  | silent (allowed : ∀ token ∈ tokens, prohibits token = false) (unshared : Unstated sMaxage tokens)
      (unowned : Unstated maxAge tokens) : Stated tokens 0

/-- A token that assigns to one of the two names is a well-formed directive of it. -/
def WellFormed (tokens : List Bytes) : Prop :=
  ∀ token ∈ tokens, ∀ name ∈ [sMaxage, maxAge], ∀ rest, Assigns name token rest →
    ∃ digits, Directive name token digits

/-- A directive is unstated exactly when no token states it. -/
theorem unstated_iff {name : Bytes} {tokens : List Bytes} :
    Unstated name tokens ↔ tokens.any (states name) = false := by
  rw [← Bool.not_eq_true, List.any_eq_true]
  constructor
  · rintro unstated ⟨token, member, stated⟩
    obtain ⟨digits, directive⟩ := states_iff.mp stated
    exact unstated token member digits directive
  · intro none token member digits directive
    exact none ⟨token, member, states_iff.mpr ⟨digits, directive⟩⟩

/-- One of several well-formed directives is the last one. -/
theorem exists_lastStated {name : Bytes} {tokens : List Bytes} (some : ¬ Unstated name tokens) :
    ∃ digits, LastStated name tokens digits := by
  induction tokens using List.reverseRecOn with
  | nil => exact absurd (fun token member => nomatch member) some
  | append_singleton tokens token ih =>
      by_cases directive : ∃ digits, Directive name token digits
      · obtain ⟨digits, directive⟩ := directive
        exact ⟨digits, tokens, token, [], rfl, directive, nofun⟩
      · have earlier : ¬ Unstated name tokens := by
          intro unstated
          refine some fun next member digits stated => ?_
          rcases List.mem_append.mp member with inside | last
          · exact unstated next inside digits stated
          · rw [List.mem_singleton.mp last] at stated
            exact directive ⟨digits, stated⟩
        obtain ⟨digits, before, first, after, rfl, stated, last⟩ := ih earlier
        refine ⟨digits, before, first, after ++ [token], by simp, stated, ?_⟩
        intro later member other also
        rcases List.mem_append.mp member with inside | end_
        · exact last later inside other also
        · rw [List.mem_singleton.mp end_] at also
          exact directive ⟨other, also⟩

/-- A directive stated last is stated. -/
theorem LastStated.states {name : Bytes} {tokens : List Bytes} {digits : Bytes}
    (last : LastStated name tokens digits) : tokens.any (states name) = true := by
  obtain ⟨before, token, after, rfl, directive, _⟩ := last
  exact List.any_eq_true.mpr ⟨token, by simp, states_iff.mpr ⟨digits, directive⟩⟩

/-- Among well-formed directives the last one fills the accumulator. -/
theorem LastStated.written {name : Bytes} {tokens : List Bytes} {digits : Bytes}
    (last : LastStated name tokens digits) (named : name ∈ [sMaxage, maxAge]) (formed : WellFormed tokens) :
    written name tokens = some (saturated digits) ∧ ∀ c ∈ digits, isDigit c = true := by
  obtain ⟨before, token, after, rfl, directive, unstated⟩ := last
  obtain ⟨text, found, _, digitsIs⟩ := directive.text
  have skipped : after.reverse.findSome? (directiveText name) = none := by
    refine List.findSome?_eq_none_iff.mpr fun later member => ?_
    cases assigned : directiveText name later with
    | none => rfl
    | some _ =>
        obtain ⟨rest, assigns, _⟩ := directiveText_eq_some.mp assigned
        have inside := List.mem_reverse.mp member
        obtain ⟨other, also⟩ := formed later (by simp [inside]) name named rest assigns
        exact absurd also (unstated later inside other)
  refine ⟨?_, digitsIs ▸ digitsOf_digits text⟩
  rw [Directory.written, List.reverse_append, List.reverse_cons, List.append_assoc, List.findSome?_append, skipped]
  simp [found, digitsIs]

/-- The tokens state one number. -/
theorem exists_stated (tokens : List Bytes) : ∃ seconds, Stated tokens seconds := by
  by_cases allowed : ∀ token ∈ tokens, prohibits token = false
  · by_cases unshared : Unstated sMaxage tokens
    · by_cases unowned : Unstated maxAge tokens
      · exact ⟨0, .silent allowed unshared unowned⟩
      · obtain ⟨digits, last⟩ := exists_lastStated unowned
        exact ⟨_, .own allowed unshared last⟩
    · obtain ⟨digits, last⟩ := exists_lastStated unshared
      exact ⟨_, .shared allowed last⟩
  · simp only [not_forall, Bool.not_eq_false] at allowed
    obtain ⟨token, member, forbids⟩ := allowed
    exact ⟨0, .forbidden member forbids⟩

/-- The accumulators of well-formed directives agree with the stated number up to the cap. -/
theorem Stated.saturates {tokens : List Bytes} {seconds : Int} (stated : Stated tokens seconds)
    (formed : WellFormed tokens) : Saturates seconds (tokens.foldl applyDirective Freshness.zero).derived := by
  have zero : Saturates 0 0 := ⟨le_refl 0, by decide, .inl rfl⟩
  rw [fresh_eq, Freshness.derived]
  dsimp only
  have none (allowed : ∀ token ∈ tokens, prohibits token = false) : tokens.any prohibits = false := by
    rw [← Bool.not_eq_true, List.any_eq_true]
    rintro ⟨token, member, forbids⟩
    exact absurd forbids (by simp [allowed token member])
  cases stated with
  | forbidden member forbids =>
      rw [List.any_eq_true.mpr ⟨_, member, forbids⟩, if_pos rfl]
      exact zero
  | shared allowed last =>
      obtain ⟨found, digits⟩ := last.written (by simp) formed
      rw [none allowed, last.states, found]
      exact saturates_fold digits
  | own allowed unshared last =>
      obtain ⟨found, digits⟩ := last.written (by simp) formed
      rw [none allowed, unstated_iff.mp unshared, last.states, found]
      exact saturates_fold digits
  | silent allowed unshared unowned =>
      rw [none allowed, unstated_iff.mp unshared, unstated_iff.mp unowned]
      exact zero

/-- The time to live never overflows and stays between its limits. It is the stated number less the age when
all directives are well-formed and the limits lie below the cap. -/
theorem directoryTtl_exact (cacheControl : Bytes) {age minTtl maxTtl : Int} (aged : 0 ≤ age)
    (ageFits : Checked.InRange age) (ordered : minTtl ≤ maxTtl) :
    directoryTtl64 cacheControl age minTtl maxTtl = some (directoryTtl cacheControl age minTtl maxTtl) ∧
      minTtl ≤ directoryTtl cacheControl age minTtl maxTtl ∧
      directoryTtl cacheControl age minTtl maxTtl ≤ maxTtl ∧
      (∃ seconds, Stated (tokens cacheControl) seconds) ∧
      (WellFormed (tokens cacheControl) → age + maxTtl ≤ ttlParseCap →
        ∀ seconds, Stated (tokens cacheControl) seconds →
          directoryTtl cacheControl age minTtl maxTtl = min maxTtl (max minTtl (max 0 (seconds - age)))) := by
  refine ⟨directoryTtl64_eq cacheControl minTtl maxTtl aged ageFits, ?_, ?_, exists_stated _, ?_⟩
  · rw [directoryTtl_eq, clamped]
    omega
  · rw [directoryTtl_eq, clamped]
    omega
  · intro formed capped seconds stated
    rw [directoryTtl_eq, (stated.saturates formed).clamped capped]
    rfl

/-- Tokens are well formed when each that starts a directive states it. -/
theorem wellFormed_iff {tokens : List Bytes} :
    WellFormed tokens ↔ ∀ token ∈ tokens, ∀ name ∈ [sMaxage, maxAge],
      directiveText name token = none ∨ states name token = true := by
  refine forall₂_congr fun token _ => forall₂_congr fun name _ => ?_
  cases assigned : directiveText name token with
  | none =>
      refine iff_of_true (fun rest assigns => ?_) (.inl rfl)
      rw [directiveText_eq_some.mpr ⟨rest, assigns, rfl⟩] at assigned
      cases assigned
  | some text =>
      obtain ⟨rest, assigns, _⟩ := directiveText_eq_some.mp assigned
      simp only [reduceCtorEq, false_or, states_iff]
      exact ⟨fun formed => formed rest assigns, fun directive _ _ => directive⟩

/-- The directive of shared caches wins, and the age is subtracted. -/
theorem directoryTtl_exact_shared :
    directoryTtl64 (ascii "s-maxage=800, max-age=100") 100 60 1000 = some 700 ∧
      ∀ seconds, Stated (tokens (ascii "s-maxage=800, max-age=100")) seconds →
        min 1000 (max 60 (max 0 (seconds - 100))) = 700 := by
  obtain ⟨checked, _, _, _, exact⟩ := directoryTtl_exact (ascii "s-maxage=800, max-age=100")
    (show (0 : Int) ≤ 100 by decide) (by decide) (show (60 : Int) ≤ 1000 by decide)
  have number : directoryTtl (ascii "s-maxage=800, max-age=100") 100 60 1000 = 700 := by decide +kernel
  rw [number] at checked exact
  exact ⟨checked, fun seconds stated =>
    (exact (wellFormed_iff.mpr (by decide +kernel)) (by decide) seconds stated).symm⟩

/-- The tokens of the parts between the commas. -/
def tokensOf (parts : List Bytes) : List Bytes := (parts.map trim).filter fun token => decide (token.length > 0)

/-- The token starts with the name of a directive and is no well-formed directive of it. -/
def Malformed (token : Bytes) : Prop :=
  ∃ name ∈ [sMaxage, maxAge], sameFolded (token.take name.length) name = true ∧
    ∀ digits, ¬ Directive name token digits

/-- The directives of the name decide the number that the tokens state. -/
def Decides (name : Bytes) (tokens : List Bytes) : Prop :=
  (∀ token ∈ tokens, prohibits token = false) ∧ ¬ Unstated name tokens ∧ (name = maxAge → Unstated sMaxage tokens)

/-- The inserted token assigns to no name that decides, or a later token assigns to this name again, or its
digits and the number before it come to one time to live. -/
def Harmless (left : List Bytes) (token : Bytes) (right : List Bytes) (age minTtl maxTtl : Int) : Prop :=
  ∀ name ∈ [sMaxage, maxAge], ∀ text, directiveText name token = some text → Decides name (left ++ right) →
    (∃ later ∈ right, directiveText name later ≠ none) ∨
      clamped age minTtl maxTtl (saturated (digitsOf text)) =
        clamped age minTtl maxTtl ((written name left).getD 0)

/-- The tokens of joined parts are the tokens of each. -/
theorem tokens_join {parts : List Bytes} (free : ∀ part ∈ parts, comma ∉ part) :
    tokens ([comma].intercalate parts) = tokensOf parts := by
  cases parts with
  | nil => rfl
  | cons part rest => rw [tokens, List.splitOn_intercalate comma free (by simp), tokensOf]

/-- The number that decides, as a value of the clamp. -/
theorem derived_cases (tokens : List Bytes) :
    (tokens.foldl applyDirective Freshness.zero).derived =
      if tokens.any prohibits then 0
      else if tokens.any (states sMaxage) then (written sMaxage tokens).getD 0
      else if tokens.any (states maxAge) then (written maxAge tokens).getD 0
      else 0 := by
  rw [fresh_eq, Freshness.derived]

/-- What later tokens write stands over what earlier ones wrote. -/
theorem written_append (name : Bytes) (left right : List Bytes) :
    written name (left ++ right) = (written name right).or (written name left) := by
  rw [written, List.reverse_append, List.findSome?_append, Option.map_or]
  rfl

/-- Nothing is written exactly when no token starts the directive. -/
theorem written_eq_none {name : Bytes} {tokens : List Bytes} :
    written name tokens = none ↔ ∀ token ∈ tokens, directiveText name token = none := by
  simp [written]

/-- The inserted token matters for a name unless a later one assigns to it. -/
theorem clamped_insert (name : Bytes) (left : List Bytes) (token : Bytes) (right : List Bytes)
    (age minTtl maxTtl : Int) :
    clamped age minTtl maxTtl ((written name (left ++ token :: right)).getD 0) =
        clamped age minTtl maxTtl ((written name (left ++ right)).getD 0) ↔
      ∀ text, directiveText name token = some text →
        (∃ later ∈ right, directiveText name later ≠ none) ∨
          clamped age minTtl maxTtl (saturated (digitsOf text)) =
            clamped age minTtl maxTtl ((written name left).getD 0) := by
  have inserted : left ++ token :: right = left ++ [token] ++ right := by simp
  rw [inserted, written_append, written_append, written_append]
  cases later : written name right with
  | some number =>
      have assigned : ∃ later ∈ right, directiveText name later ≠ none := by
        by_contra none
        simp only [not_exists, not_and, not_not] at none
        rw [written_eq_none.mpr none] at later
        cases later
      exact iff_of_true rfl fun _ _ => .inl assigned
  | none =>
      have unassigned : ¬ ∃ later ∈ right, directiveText name later ≠ none := by
        rintro ⟨next, member, assigned⟩
        exact assigned (written_eq_none.mp later next member)
      have single : written name [token] = (directiveText name token).map fun text => saturated (digitsOf text) := by
        simp [written]
      rw [single]
      cases directiveText name token with
      | none => simp
      | some text => simp [unassigned]

/-- A malformed token is not empty, forbids nothing and states nothing. -/
theorem malformed_silent {token : Bytes} (malformed : Malformed token) :
    token ≠ [] ∧ prohibits token = false ∧ ∀ name ∈ [sMaxage, maxAge], states name token = false := by
  obtain ⟨name, named, starts, undirected⟩ := malformed
  have filled : name ≠ [] := by
    rintro rfl
    simp [ascii] at named
  have head : token.head?.map toLower = name.head?.map toLower := by
    have folded : (token.take name.length).map toLower = name.map toLower := beq_iff_eq.mp starts
    rw [← List.head?_map (l := name), ← folded, List.head?_map, List.head?_take, if_neg (by simpa using filled)]
  have letter : name.head?.map toLower = some 0x73 ∨ name.head?.map toLower = some 0x6d := by
    simp only [List.mem_cons, List.not_mem_nil, or_false] at named
    rcases named with rfl | rfl
    · exact .inl (by decide)
    · exact .inr (by decide)
  refine ⟨?_, ?_, ?_⟩
  · rintro rfl
    rw [← head] at letter
    simp at letter
  · rw [← Bool.not_eq_true]
    intro forbids
    simp only [prohibits, Bool.or_eq_true] at forbids
    rw [← head] at letter
    rcases forbids with (same | same) | same
    all_goals
      rw [tokenIs_head same] at letter
      exact absurd letter (by decide)
  · intro other otherNamed
    rw [← Bool.not_eq_true, states_iff]
    rintro ⟨digits, directive⟩
    obtain ⟨_, _, assigns, _⟩ := id directive
    simp only [List.mem_cons, List.not_mem_nil, or_false] at named otherNamed
    have both := head.symm
    rcases named with rfl | rfl <;> rcases otherNamed with rfl | rfl
    · exact undirected digits directive
    · exact absurd (both.trans (assigns.head (by decide))) (by decide)
    · exact absurd (both.trans (assigns.head (by decide))) (by decide)
    · exact undirected digits directive

/-- A malformed token between the parts of a field keeps the time to live exactly when it is harmless. -/
theorem malformed_ignored_iff {left right : List Bytes} {part : Bytes} (leftFree : ∀ other ∈ left, comma ∉ other)
    (rightFree : ∀ other ∈ right, comma ∉ other) (free : comma ∉ part) (malformed : Malformed (trim part))
    (age minTtl maxTtl : Int) :
    directoryTtl ([comma].intercalate (left ++ part :: right)) age minTtl maxTtl =
        directoryTtl ([comma].intercalate (left ++ right)) age minTtl maxTtl ↔
      Harmless (tokensOf left) (trim part) (tokensOf right) age minTtl maxTtl := by
  have wholeFree : ∀ other ∈ left ++ right, comma ∉ other := by
    intro other member
    exact (List.mem_append.mp member).elim (leftFree other) (rightFree other)
  have insertedFree : ∀ other ∈ left ++ part :: right, comma ∉ other := by
    intro other member
    rcases List.mem_append.mp member with inside | inside
    · exact leftFree other inside
    · rcases List.mem_cons.mp inside with rfl | after
      · exact free
      · exact rightFree other after
  obtain ⟨filled, allowed, unstated⟩ := malformed_silent malformed
  have inserted : tokensOf (left ++ part :: right) = tokensOf left ++ trim part :: tokensOf right := by
    simp [tokensOf, List.length_pos_iff.mpr filled]
  have whole : tokensOf (left ++ right) = tokensOf left ++ tokensOf right := by simp [tokensOf]
  rw [directoryTtl_eq, directoryTtl_eq, tokens_join wholeFree, tokens_join insertedFree, inserted, whole,
    derived_cases, derived_cases]
  generalize tokensOf left = before
  generalize tokensOf right = after
  generalize trim part = token at *
  have flags (test : Bytes → Bool) (off : test token = false) :
      (before ++ token :: after).any test = (before ++ after).any test := by
    simp [off]
  rw [flags _ allowed, flags _ (unstated sMaxage (by simp)), flags _ (unstated maxAge (by simp))]
  have split : Harmless before token after age minTtl maxTtl ↔
      ∀ name ∈ [sMaxage, maxAge], Decides name (before ++ after) →
        clamped age minTtl maxTtl ((written name (before ++ token :: after)).getD 0) =
          clamped age minTtl maxTtl ((written name (before ++ after)).getD 0) := by
    refine forall₂_congr fun name _ => ?_
    rw [clamped_insert]
    exact ⟨fun harmless decides text found => harmless text found decides,
      fun kept text found decides => kept decides text found⟩
  rw [split]
  simp only [List.forall_mem_cons, List.not_mem_nil, false_implies, implies_true, and_true, Decides]
  generalize before ++ after = tokens
  have apart : sMaxage ≠ maxAge := by decide
  by_cases forbids : tokens.any prohibits = true
  · have forbidden : ¬ ∀ token ∈ tokens, prohibits token = false := by simpa using forbids
    simp [forbids, forbidden]
  have none : ∀ token ∈ tokens, prohibits token = false := by simpa using forbids
  by_cases shared : Unstated sMaxage tokens
  · by_cases own : Unstated maxAge tokens
    · simp [forbids, unstated_iff.mp shared, unstated_iff.mp own, shared, own]
    · have owned : tokens.any (states maxAge) = true := by simpa [unstated_iff] using own
      simp [forbids, unstated_iff.mp shared, owned, shared, own, eq_true none]
  · have sharing : tokens.any (states sMaxage) = true := by simpa [unstated_iff] using shared
    simp [forbids, sharing, shared, eq_true none, apart]

/-- A token that starts a directive and does not state it is malformed. -/
theorem malformed_of_check {name token : Bytes} (named : name ∈ [sMaxage, maxAge])
    (starts : sameFolded (token.take name.length) name = true) (unstated : states name token = false) :
    Malformed token := by
  refine ⟨name, named, starts, fun digits directive => ?_⟩
  rw [states_iff.mpr ⟨digits, directive⟩] at unstated
  cases unstated

/-- A name alone changes nothing. -/
theorem malformed_ignored_iff_bare :
    directoryTtl ([comma].intercalate ([ascii "max-age=100"] ++ ascii " max-age" :: [ascii "immutable"])) 0 1 1000 =
        directoryTtl ([comma].intercalate ([ascii "max-age=100"] ++ [ascii "immutable"])) 0 1 1000 ↔
      Harmless (tokensOf [ascii "max-age=100"]) (trim (ascii " max-age")) (tokensOf [ascii "immutable"]) 0 1 1000 :=
  malformed_ignored_iff (by decide) (by decide) (by decide)
    (malformed_of_check (List.mem_cons_of_mem _ List.mem_cons_self) (by decide) (by decide)) 0 1 1000

/-- The digits of a rejected directive replace the number of the directive before it. -/
theorem malformed_overwrites :
    Malformed (trim (ascii "max-age=5x")) ∧
      directoryTtl ([comma].intercalate ([ascii "max-age=100"] ++ [])) 0 1 1000 = 100 ∧
      directoryTtl ([comma].intercalate ([ascii "max-age=100"] ++ ascii "max-age=5x" :: [])) 0 1 1000 = 5 :=
  ⟨malformed_of_check (List.mem_cons_of_mem _ List.mem_cons_self) (by decide) (by decide), by decide +kernel,
    by decide +kernel⟩

end AuthHttpsig.Directory
