/-
This file shows what a `Cache-Control` field leaves in the accumulators of the time to live.
-/

import AuthHttpsig.Construction.Response

namespace AuthHttpsig.Directory
open Ascii
open AuthHttpsig.Module (isOws trim)

/-- The token gives a text to the directive after an equals sign. -/
def Assigns (name token rest : Bytes) : Prop :=
  ∃ spelled blank, token = spelled ++ blank ++ equals :: rest ∧ sameFolded spelled name = true ∧
    ∀ c ∈ blank, isOws c = true

/-- A well-formed directive has a name, an equals sign and digits, with white space around them. -/
def Directive (name token digits : Bytes) : Prop :=
  ∃ before after, Assigns name token (before ++ digits ++ after) ∧ (∀ c ∈ before, isOws c = true) ∧
    (∀ c ∈ after, isOws c = true) ∧ digits ≠ [] ∧ ∀ c ∈ digits, isDigit c = true

/-- The text after the equals sign of the directive, without its first white space. -/
def directiveText (name token : Bytes) : Option Bytes :=
  if token.length < name.length || !sameFolded (token.take name.length) name then none
  else match (token.drop name.length).dropWhile isOws with
    | [] => none
    | c :: rest => if c != equals then none else some (rest.dropWhile isOws)

def digitsOf (text : Bytes) : Bytes := text.takeWhile isDigit

/-- The number that the digits leave in the accumulator. -/
def saturated (digits : Bytes) : Int := digits.foldl parseUintStep 0

/-- The text has digits, and nothing but white space after them. -/
def complete (text : Bytes) : Bool :=
  decide ((digitsOf text).length ≠ 0) && ((text.drop (digitsOf text).length).dropWhile isOws).isEmpty

/-- Reading a directive tells whether its text is complete, and saturates the digits of it. -/
theorem parseDirective_eq (token name : Bytes) (value : Int) :
    parseDirective token name value =
      match directiveText name token with
      | none => (false, value)
      | some text => (complete text, saturated (digitsOf text)) := by
  unfold parseDirective directiveText
  split
  · rfl
  · cases (token.drop name.length).dropWhile isOws with
    | nil => rfl
    | cons c rest =>
        dsimp only
        by_cases assigned : (c != equals) = true
        · rw [if_pos assigned, if_pos assigned]
        · rw [if_neg assigned, if_neg assigned]
          rfl

/-- Texts that agree up to case have one length. -/
theorem sameFolded_length {left right : Bytes} (same : sameFolded left right = true) :
    left.length = right.length := by
  have lengths := congrArg List.length (beq_iff_eq.mp same)
  simpa [strlow] using lengths

theorem dropWhile_ows {blank rest : Bytes} (blanks : ∀ c ∈ blank, isOws c = true)
    (stop : ∀ c ∈ rest.head?, isOws c = false) : (blank ++ rest).dropWhile isOws = rest := by
  rw [List.dropWhile_append_of_pos blanks]
  cases rest with
  | nil => rfl
  | cons c rest => rw [List.dropWhile_cons_of_neg (by simpa using stop c rfl)]

/-- The parser finds the text after the equals sign. -/
theorem directiveText_eq_some {name token text : Bytes} :
    directiveText name token = some text ↔ ∃ rest, Assigns name token rest ∧ text = rest.dropWhile isOws := by
  unfold directiveText
  constructor
  · intro found
    split at found
    · cases found
    · rename_i prefixed
      simp only [Bool.or_eq_true, decide_eq_true_eq, Bool.not_eq_true', not_or, Bool.not_eq_false] at prefixed
      split at found
      · cases found
      · rename_i c rest tail
        split at found
        · cases found
        · rename_i assigned
          have sign : c = equals := by simpa using assigned
          refine ⟨rest, ⟨token.take name.length, (token.drop name.length).takeWhile isOws, ?_, prefixed.2, ?_⟩,
            (Option.some.inj found).symm⟩
          · have joined := List.takeWhile_append_dropWhile (p := isOws) (l := token.drop name.length)
            rw [tail, sign] at joined
            rw [List.append_assoc, joined, List.take_append_drop]
          · exact fun c present => List.mem_takeWhile_imp present
  · rintro ⟨rest, ⟨spelled, blank, rfl, named, blanks⟩, rfl⟩
    have size := sameFolded_length named
    have stop : ∀ c ∈ (equals :: rest).head?, isOws c = false := by
      rintro c ⟨⟩
      decide
    have start : (spelled ++ blank ++ equals :: rest).take name.length = spelled := by
      rw [← size, List.append_assoc, List.take_left]
    have tail : (spelled ++ blank ++ equals :: rest).drop name.length = blank ++ equals :: rest := by
      rw [← size, List.append_assoc, List.drop_left]
    have long : ¬ (spelled ++ blank ++ equals :: rest).length < name.length := by
      simp only [List.length_append, size]
      omega
    rw [start, tail, dropWhile_ows blanks stop, named, if_neg (by simpa using Nat.not_lt.mp long)]
    rfl

theorem digit_not_ows {c : UInt8} : isDigit c = true → isOws c = false := by
  grind [isDigit, isOws]

theorem ows_not_digit {c : UInt8} : isOws c = true → isDigit c = false := by
  grind [isDigit, isOws]

/-- The text of a well-formed directive is its digits and white space. -/
theorem Directive.text {name token digits : Bytes} (directive : Directive name token digits) :
    ∃ text, directiveText name token = some text ∧ complete text = true ∧ digitsOf text = digits := by
  obtain ⟨before, after, assigns, blanks, blanksAfter, filled, inside⟩ := directive
  have stop : ∀ c ∈ (digits ++ after).head?, isOws c = false := by
    intro c first
    cases digits with
    | nil => exact absurd rfl filled
    | cons d digits =>
        obtain rfl : d = c := by simpa using first
        exact digit_not_ows (inside d List.mem_cons_self)
  have text : (before ++ digits ++ after).dropWhile isOws = digits ++ after := by
    rw [List.append_assoc, dropWhile_ows blanks stop]
  have digitsIs : digitsOf (digits ++ after) = digits := by
    rw [digitsOf, List.takeWhile_append_of_pos inside]
    cases after with
    | nil => simp
    | cons c after =>
        have stopped := ows_not_digit (blanksAfter c List.mem_cons_self)
        simp [stopped]
  refine ⟨digits ++ after, directiveText_eq_some.mpr ⟨_, assigns, text.symm⟩, ?_, digitsIs⟩
  have rest : after.dropWhile isOws = [] := List.dropWhile_eq_nil_iff.mpr blanksAfter
  simp [complete, digitsIs, rest, filled]

/-- A text of digits and white space comes from a well-formed directive. -/
theorem directive_of_text {name token text : Bytes} (found : directiveText name token = some text)
    (whole : complete text = true) : Directive name token (digitsOf text) := by
  obtain ⟨rest, assigns, rfl⟩ := directiveText_eq_some.mp found
  simp only [complete, Bool.and_eq_true, decide_eq_true_eq, ne_eq, List.length_eq_zero_iff,
    List.isEmpty_iff, List.dropWhile_eq_nil_iff] at whole
  have split : rest = rest.takeWhile isOws ++ digitsOf (rest.dropWhile isOws) ++
      (rest.dropWhile isOws).drop (digitsOf (rest.dropWhile isOws)).length := by
    have first := List.takeWhile_append_dropWhile (p := isOws) (l := rest)
    have second := List.takeWhile_append_dropWhile (p := isDigit) (l := rest.dropWhile isOws)
    have third : ((rest.dropWhile isOws).takeWhile isDigit ++ (rest.dropWhile isOws).dropWhile isDigit).drop
        ((rest.dropWhile isOws).takeWhile isDigit).length = (rest.dropWhile isOws).dropWhile isDigit := List.drop_left
    rw [second] at third
    rw [digitsOf, third, List.append_assoc, second, first]
  exact ⟨_, _, split ▸ assigns, fun c present => List.mem_takeWhile_imp present, whole.2, whole.1,
    fun c present => List.mem_takeWhile_imp present⟩

/-- These tokens forbid every use of a stored response. -/
def prohibits (token : Bytes) : Bool :=
  tokenIs token (ascii "no-store") || tokenIs token (ascii "no-cache") || tokenIs token (ascii "private")

abbrev sMaxage : Bytes := ascii "s-maxage"

abbrev maxAge : Bytes := ascii "max-age"

/-- The token is a well-formed directive of the name. -/
def states (name token : Bytes) : Bool := (directiveText name token).any complete

/-- The number of the last token that assigns to the name, well-formed or not. -/
def written (name : Bytes) (tokens : List Bytes) : Option Int :=
  (tokens.reverse.findSome? (directiveText name)).map fun text => saturated (digitsOf text)

/-- A token states a directive exactly when it is a well-formed one. -/
theorem states_iff {name token : Bytes} : states name token = true ↔ ∃ digits, Directive name token digits := by
  rw [states, Option.any_eq_true]
  constructor
  · rintro ⟨text, found, whole⟩
    exact ⟨_, directive_of_text found whole⟩
  · rintro ⟨digits, directive⟩
    obtain ⟨text, found, whole, _⟩ := directive.text
    exact ⟨text, found, whole⟩

/-- The first octet of a token that assigns to a name is the one of the name. -/
theorem Assigns.head {name token rest : Bytes} (assigns : Assigns name token rest) (filled : name ≠ []) :
    token.head?.map toLower = name.head?.map toLower := by
  obtain ⟨spelled, blank, rfl, named, _⟩ := assigns
  have folded : spelled.map toLower = name.map toLower := beq_iff_eq.mp named
  have spelledFilled : spelled ≠ [] := by
    rintro rfl
    exact filled (List.map_eq_nil_iff.mp folded.symm)
  rw [List.append_assoc, List.head?_append_of_ne_nil _ spelledFilled, ← List.head?_map, ← List.head?_map, folded]

/-- A token with the name of a directive starts with its first letter. -/
theorem tokenIs_head {token name : Bytes} (same : tokenIs token name = true) :
    token.head?.map toLower = name.head?.map toLower := by
  simp only [tokenIs, Bool.and_eq_true] at same
  have folded : token.map toLower = name.map toLower := beq_iff_eq.mp same.2
  rw [← List.head?_map, ← List.head?_map, folded]

/-- A token assigns to one name at most. -/
theorem directiveText_apart {token text : Bytes} (found : directiveText sMaxage token = some text) :
    directiveText maxAge token = none := by
  cases other : directiveText maxAge token with
  | none => rfl
  | some _ =>
      obtain ⟨_, assigns, _⟩ := directiveText_eq_some.mp found
      obtain ⟨_, alsoAssigns, _⟩ := directiveText_eq_some.mp other
      have clash := (assigns.head (by decide)).symm.trans (alsoAssigns.head (by decide))
      exact absurd clash (by decide)

/-- A token that forbids storing assigns to no name. -/
theorem prohibits_apart {token : Bytes} (forbids : prohibits token = true) :
    directiveText sMaxage token = none ∧ directiveText maxAge token = none := by
  have letter : ∃ c, token.head?.map toLower = some c ∧ c ≠ 0x73 ∧ c ≠ 0x6d := by
    simp only [prohibits, Bool.or_eq_true] at forbids
    rcases forbids with (noStore | noCache) | priv
    · exact ⟨0x6e, tokenIs_head noStore, by decide⟩
    · exact ⟨0x6e, tokenIs_head noCache, by decide⟩
    · exact ⟨0x70, tokenIs_head priv, by decide⟩
  obtain ⟨c, first, notS, notM⟩ := letter
  constructor
  · cases found : directiveText sMaxage token with
    | none => rfl
    | some _ =>
        obtain ⟨_, assigns, _⟩ := directiveText_eq_some.mp found
        have head := first.symm.trans (assigns.head (by decide))
        exact absurd (Option.some.inj head) notS
  · cases found : directiveText maxAge token with
    | none => rfl
    | some _ =>
        obtain ⟨_, assigns, _⟩ := directiveText_eq_some.mp found
        have head := first.symm.trans (assigns.head (by decide))
        exact absurd (Option.some.inj head) notM

/-- The number that a token leaves in the accumulator of a name. -/
def overwrite (name token : Bytes) (value : Int) : Int :=
  match directiveText name token with
  | none => value
  | some text => saturated (digitsOf text)

/-- Each accumulator takes what the token says of its name. -/
theorem applyDirective_eq (fresh : Freshness) (token : Bytes) :
    applyDirective fresh token = {
      forbid := fresh.forbid || prohibits token
      haveMaxage := fresh.haveMaxage || states maxAge token
      maxage := overwrite maxAge token fresh.maxage
      haveSmaxage := fresh.haveSmaxage || states sMaxage token
      smaxage := overwrite sMaxage token fresh.smaxage } := by
  unfold applyDirective
  rw [parseDirective_eq, parseDirective_eq]
  by_cases forbids : prohibits token = true
  · obtain ⟨noShared, noOwn⟩ := prohibits_apart forbids
    have test := forbids
    unfold prohibits at test
    simp [test, forbids, states, overwrite, noShared, noOwn]
  · have test := forbids
    unfold prohibits at test
    rw [if_neg test]
    cases shared : directiveText sMaxage token with
    | some text =>
        have noOwn := directiveText_apart shared
        cases whole : complete text <;> simp [forbids, states, overwrite, shared, noOwn, whole]
    | none =>
        cases own : directiveText maxAge token with
        | none => simp [forbids, states, overwrite, shared, own]
        | some text => simp [forbids, states, overwrite, shared, own]

/-- One more token writes over what the tokens before it wrote. -/
theorem written_concat (name : Bytes) (tokens : List Bytes) (token : Bytes) :
    (written name (tokens ++ [token])).getD 0 = overwrite name token ((written name tokens).getD 0) := by
  rw [written, List.reverse_concat, List.findSome?_cons, overwrite]
  cases directiveText name token <;> rfl

/-- The accumulators after all tokens. -/
theorem fresh_eq (tokens : List Bytes) :
    tokens.foldl applyDirective Freshness.zero = {
      forbid := tokens.any prohibits
      haveMaxage := tokens.any (states maxAge)
      maxage := (written maxAge tokens).getD 0
      haveSmaxage := tokens.any (states sMaxage)
      smaxage := (written sMaxage tokens).getD 0 } := by
  induction tokens using List.reverseRecOn with
  | nil => rfl
  | append_singleton tokens token ih =>
      rw [List.foldl_concat, ih, applyDirective_eq, written_concat, written_concat]
      simp only [List.any_append, List.any_cons, List.any_nil, Bool.or_false]

/-- The value of a digit string. -/
def decimal (digits : Bytes) : Int := digits.foldl (fun total c => total * 10 + digitValue c) 0

/-- The number after the age and the two limits. -/
def clamped (age minTtl maxTtl derived : Int) : Int := min maxTtl (max minTtl (max 0 (derived - age)))

/-- The lifetime is clamped from what the folded tokens give. -/
theorem directoryTtl_eq (cacheControl : Bytes) (age minTtl maxTtl : Int) :
    directoryTtl cacheControl age minTtl maxTtl =
      clamped age minTtl maxTtl ((tokens cacheControl).foldl applyDirective Freshness.zero).derived := by
  simp only [directoryTtl, clamped]
  split <;> split <;> split <;> omega

/-- An accumulator is exact below the cap, and above the cap the value is there too. -/
structure Saturates (exact value : Int) : Prop where
  low : 0 ≤ value
  high : value < 10 * ttlParseCap
  agrees : value = exact ∨ ttlParseCap ≤ value ∧ ttlParseCap ≤ exact

/-- One more digit keeps the value the exact one or at least the cap. -/
theorem Saturates.step {exact value : Int} (saturates : Saturates exact value) {c : UInt8}
    (digit : isDigit c = true) : Saturates (exact * 10 + digitValue c) (parseUintStep value c) := by
  have small := digitValue_lt digit
  obtain ⟨low, high, agrees⟩ := saturates
  have cap : 0 < ttlParseCap := by decide
  by_cases below : value < ttlParseCap
  · rw [parseUintStep, if_pos below]
    exact ⟨by omega, by omega, by omega⟩
  · rw [parseUintStep, if_neg below]
    exact ⟨by omega, by omega, by omega⟩

/-- The invariant of the digit loop. -/
theorem saturates_fold {digits : Bytes} (inside : ∀ c ∈ digits, isDigit c = true) :
    Saturates (decimal digits) (saturated digits) := by
  induction digits using List.reverseRecOn with
  | nil => exact ⟨le_refl 0, by decide, .inl rfl⟩
  | append_singleton digits c ih =>
      have step := (ih fun d present => inside d (List.mem_append_left _ present)).step
        (inside c (List.mem_append_right _ List.mem_cons_self))
      simpa [decimal, saturated, List.foldl_concat] using step

theorem digitsOf_digits (text : Bytes) : ∀ c ∈ digitsOf text, isDigit c = true :=
  fun _ present => List.mem_takeWhile_imp present

/-- An accumulator holds no more than ten caps. -/
theorem written_bounds (name : Bytes) (tokens : List Bytes) :
    0 ≤ (written name tokens).getD 0 ∧ (written name tokens).getD 0 < 10 * ttlParseCap := by
  unfold written
  cases tokens.reverse.findSome? (directiveText name) with
  | none => decide
  | some text =>
      have saturates := saturates_fold (digitsOf_digits text)
      exact ⟨saturates.low, saturates.high⟩

/-- What the tokens give is not negative and below ten times the cap. -/
theorem derived_bounds (tokens : List Bytes) :
    0 ≤ (tokens.foldl applyDirective Freshness.zero).derived ∧
      (tokens.foldl applyDirective Freshness.zero).derived < 10 * ttlParseCap := by
  have own := written_bounds maxAge tokens
  have shared := written_bounds sMaxage tokens
  rw [fresh_eq, Freshness.derived]
  dsimp only
  split_ifs
  · decide
  · exact shared
  · exact own
  · decide

/-- The exact value and the accumulator agree after the limits. -/
theorem Saturates.clamped {exact value : Int} (saturates : Saturates exact value) {age minTtl maxTtl : Int}
    (capped : age + maxTtl ≤ ttlParseCap) : clamped age minTtl maxTtl value = clamped age minTtl maxTtl exact := by
  rcases saturates.agrees with rfl | ⟨large, alsoLarge⟩
  · rfl
  · unfold Directory.clamped
    omega

end AuthHttpsig.Directory
