/-
This file shows that the reader accepts every text of the grammar that stays within its limits.
-/

import AuthHttpsig.Proof.SfvSound

namespace AuthHttpsig.Sfv
open Ascii AssocList Rfc8941

/-- A bare item ends where one of these octets or the end of the input stands. -/
def Delimited (rest : Bytes) : Prop := ∀ c ∈ rest.head?, c ∈ [semicolon, sp, rparen, comma, htab]

/-- The parameters end where one of these octets or the end of the input stands. -/
def Ended (rest : Bytes) : Prop := ∀ c ∈ rest.head?, c ∈ [sp, rparen, comma, htab]

/-- The end of a value also delimits a bare item. -/
theorem Ended.delimited {rest : Bytes} (ended : Ended rest) : Delimited rest := by
  intro c head
  exact List.mem_cons_of_mem _ (ended c head)

/-- What is false of each delimiter is false where a bare item ends. -/
theorem Delimited.stops {rest : Bytes} (delimited : Delimited rest) {p : UInt8 → Bool}
    (none : [semicolon, sp, rparen, comma, htab].any p = false) : ∀ c ∈ rest.head?, p c = false := by
  intro c head
  rw [List.any_eq_false] at none
  exact Bool.eq_false_iff.mpr (none c (delimited c head))

/-- A key is read up to the first octet that is no key character. -/
theorem readKey_complete {key rest : Bytes} (spelled : KeyText key)
    (stop : ∀ c ∈ rest.head?, isKeyChar c = false) : readKey (key ++ rest) = .ok (key, rest) := by
  obtain ⟨c, tail, start, inside⟩ := spelled
  have scan : ∀ d ∈ tail, isKeyChar d = true := fun d member => (keyRest_iff d).mpr (inside d member)
  simp only [readKey, List.cons_append, (keyStart_iff c).mpr start, if_true,
    takeWhile_append_stop scan stop, dropWhile_append_stop scan stop]

/-- A token is read up to the first octet that is no token character. -/
theorem readToken_complete {text rest : Bytes} (spelled : TokenText text)
    (stop : ∀ c ∈ rest.head?, isTokenChar c = false) :
    readToken (text ++ rest) = .ok (text, rest) := by
  obtain ⟨c, tail, start, inside⟩ := spelled
  have scan : ∀ d ∈ tail, isTokenChar d = true := fun d member => (tokenRest_iff d).mpr (inside d member)
  simp only [readToken, List.cons_append, (tokenStart_iff c).mpr start, if_true,
    takeWhile_append_stop scan stop, dropWhile_append_stop scan stop]

/-- A string is scanned up to its closing quote. -/
theorem scanString_complete {text value : Bytes} (spelled : Chars text value) (rest : Bytes) :
    ∃ escapes, scanString (text ++ dquote :: rest) = .ok (text, escapes, rest) ∧
      unescape text = value ∧ (escapes = 0 → text = value) := by
  induction spelled with
  | nil =>
      refine ⟨0, ?_, rfl, fun _ => rfl⟩
      rw [List.nil_append]
      unfold scanString
      rfl
  | plain c text value unescaped _ ih =>
      obtain ⟨escapes, scanned, copied, same⟩ := ih
      obtain ⟨low, high, quote, slash⟩ := unescaped
      refine ⟨escapes, ?_, by rw [unescape_plain slash, copied], fun none => by rw [same none]⟩
      rw [List.cons_append]
      unfold scanString
      have printable : (decide (c < 0x20) || decide (0x7e < c)) = false := by
        simpa using ⟨low, high⟩
      simp only [beq_iff_eq, quote, slash, if_false, printable, Bool.false_eq_true, scanned]
      rfl
  | escaped c text value special _ ih =>
      obtain ⟨escapes, scanned, copied, _⟩ := ih
      have escape : (c == dquote || c == backslash) = true := by simpa using special
      refine ⟨escapes + 1, ?_, by simp [unescape, copied], by omega⟩
      simp only [List.cons_append, scanString, escape, if_true, scanned]
      rfl

/-- A quoted string is read to its value. -/
theorem readString_complete {text value : Bytes} (spelled : Chars text value) (rest : Bytes) :
    readString (dquote :: text ++ [dquote] ++ rest) = .ok (value, rest) := by
  obtain ⟨escapes, scanned, copied, same⟩ := scanString_complete spelled rest
  have shape : dquote :: text ++ [dquote] ++ rest = dquote :: (text ++ dquote :: rest) := by simp
  have chosen : (if escapes = 0 then text else unescape text) = value := by
    split
    · next none => exact same none
    · exact copied
  simp only [shape, readString, beq_self_eq_true, if_true, scanned]
  exact congrArg (fun value => Except.ok (value, rest)) chosen

/-- Padding octets are all counted. -/
theorem countPads_all {pads : Bytes} (padded : ∀ c ∈ pads, c = equals) (count : Nat) :
    countPads count pads = some (count + pads.length) := by
  induction pads generalizing count with
  | nil => rfl
  | cons c rest ih =>
      have pad := padded c (by simp)
      rw [countPads, pad, if_pos (beq_self_eq_true _), ih fun d member => padded d (by simp [member])]
      rw [List.length_cons, Nat.add_assoc, Nat.add_comm 1]

/-- Padding after the digits is counted. -/
theorem countPads_complete {body pads : Bytes} (plain : ∀ c ∈ body, c ≠ equals)
    (padded : ∀ c ∈ pads, c = equals) : countPads 0 (body ++ pads) = some pads.length := by
  induction body with
  | nil => simpa using countPads_all padded 0
  | cons c rest ih =>
      have different := plain c (by simp)
      simp only [List.cons_append, countPads, beq_iff_eq, different, if_false, Nat.lt_irrefl]
      exact ih fun d member => plain d (by simp [member])

/-- An octet outside of the alphabet is no digit of it. -/
theorem base64_ne {c other : UInt8} (inside : Base64Octet c)
    (outside : Base64.decodeChar other = none) : c ≠ other := by
  rintro rfl
  have found := (base64_iff c).mpr inside
  rw [outside] at found
  cases found

/-- A byte sequence is read to its octets. -/
theorem readByteSequence_complete {body pads value : Bytes} (inside : ∀ c ∈ body, Base64Octet c)
    (padded : ∀ c ∈ pads, c = equals) (few : pads.length ≤ 2)
    (decoded : Base64.decode body = some value) (rest : Bytes) :
    readByteSequence (colon :: body ++ pads ++ [colon] ++ rest) = .ok (value, rest) := by
  have shape : colon :: body ++ pads ++ [colon] ++ rest = colon :: (body ++ pads ++ colon :: rest) := by
    simp
  have scan : ∀ c ∈ body ++ pads, (c != colon) = true := by
    intro c member
    rcases List.mem_append.mp member with inBody | inPads
    · simpa using base64_ne (inside c inBody) (by decide)
    · rw [padded c inPads]
      decide
  have stop : ∀ c ∈ (colon :: rest).head?, (c != colon) = false := by simp
  have plain : ∀ c ∈ body, c ≠ equals := fun c member => base64_ne (inside c member) (by decide)
  simp only [shape, readByteSequence, beq_self_eq_true, if_true, takeWhile_append_stop scan stop,
    dropWhile_append_stop scan stop, countPads_complete plain padded]
  rw [if_neg (by omega), Base64.decode_append_pads padded, decoded]

/-- Digits within the limit are read to their value. -/
theorem readDigits_complete (limit value digits : Nat) (reason : String) (ds rest : Bytes)
    (all : Digits ds) (few : digits + ds.length ≤ limit)
    (stop : ∀ c ∈ rest.head?, isDigit c = false) :
    readDigits limit reason value digits (ds ++ rest) =
      .ok ((ds.foldl (fun value c => value * 10 + digitValue c) value, digits + ds.length), rest) := by
  induction ds generalizing value digits with
  | nil =>
      cases rest with
      | nil => rfl
      | cons c rest => simp [readDigits, stop c rfl]
  | cons c tail ih =>
      have digit := (digit_iff c).mpr (all c (by simp))
      rw [List.length_cons] at few
      simp only [List.cons_append, readDigits, digit, if_true]
      rw [if_neg (by omega), ih _ _ (fun d member => all d (by simp [member])) (by omega)]
      simp only [List.foldl_cons, List.length_cons]
      rw [Nat.add_right_comm, Nat.add_assoc]

/-- A run of digits starts with a digit. -/
theorem startsWithDigit_digits {ds : Bytes} (all : Digits ds) (some_digit : 1 ≤ ds.length)
    (rest : Bytes) : startsWithDigit (ds ++ rest) = true := by
  cases ds with
  | nil => simp at some_digit
  | cons c tail => exact (digit_iff c).mpr (all c (by simp))

/-- At most fifteen digits are read as an integer. -/
theorem readUnsigned_integer {ds rest : Bytes} (negative : Bool) (all : Digits ds)
    (some_digit : 1 ≤ ds.length) (few : ds.length ≤ 15)
    (stop : ∀ c ∈ rest.head?, isDigit c = false) (no_dot : ∀ c ∈ rest.head?, (c == dot) = false) :
    readUnsigned negative (ds ++ rest) = .ok (.integer (signed negative (decimalValue ds)), rest) := by
  have read := readDigits_complete 15 0 0 "number too long" ds rest all (by omega) stop
  simp only [readUnsigned, startsWithDigit_digits all some_digit, Bool.not_true, Bool.false_eq_true,
    if_false, read]
  cases rest with
  | nil => rfl
  | cons c tail =>
      have other := no_dot c rfl
      simp only [beq_eq_false_iff_ne, ne_eq] at other
      simp only [ok_bind, bne_iff_ne, ne_eq, other, not_false_eq_true, if_true]
      rfl

/-- At most twelve digits with at most three after the point are read as a decimal. -/
theorem readUnsigned_decimal {ds fs rest : Bytes} (negative : Bool) (all : Digits ds)
    (some_digit : 1 ≤ ds.length) (few : ds.length ≤ 12) (fraction : Digits fs)
    (some_fraction : 1 ≤ fs.length) (few_fraction : fs.length ≤ 3)
    (stop : ∀ c ∈ rest.head?, isDigit c = false) :
    readUnsigned negative (ds ++ dot :: fs ++ rest) =
      .ok (.decimal (signed negative
        (decimalValue ds * 1000 + decimalValue fs * 10 ^ (3 - fs.length))), rest) := by
  have read := readDigits_complete 15 0 0 "number too long" ds (dot :: (fs ++ rest)) all (by omega)
    (by simp; decide)
  have readFraction := readDigits_complete 3 0 0 "decimal fraction too long" fs rest fraction
    (by omega) stop
  rw [List.append_assoc, List.cons_append]
  simp only [readUnsigned, startsWithDigit_digits all some_digit, Bool.not_true, Bool.false_eq_true,
    if_false, read, ok_bind, bne_self_eq_false, Nat.zero_add]
  rw [if_neg (by omega)]
  simp only [startsWithDigit_digits fraction some_fraction, Bool.not_true, Bool.false_eq_true,
    if_false, readFraction, Nat.zero_add, ok_bind]
  rfl

/-- A sign or a digit starts a number. -/
theorem readBareItem_number {ds : Bytes} (negative : Bool) (all : Digits ds)
    (some_digit : 1 ≤ ds.length) (rest : Bytes) :
    readBareItem (signText negative ++ ds ++ rest) = readUnsigned negative (ds ++ rest) := by
  cases negative with
  | true => simp [signText, readBareItem, readNumber]
  | false =>
      cases ds with
      | nil => simp at some_digit
      | cons c tail =>
          have digit := (digit_iff c).mpr (all c (by simp))
          have unsigned : c ≠ minus := by
            rintro rfl
            exact absurd digit (by decide)
          simp [signText, readBareItem, readNumber, digit, unsigned]

/-- Every spelled bare item is read to its value. -/
theorem readBareItem_complete {text rest : Bytes} {value : BareItem} (spelled : BareText text value)
    (delimited : Delimited rest) : readBareItem (text ++ rest) = .ok (value, rest) := by
  have stop := delimited.stops (p := isDigit) (by decide)
  cases spelled with
  | integer negative ds all some_digit few =>
      rw [readBareItem_number negative all some_digit]
      exact readUnsigned_integer negative all some_digit few stop
        (delimited.stops (p := fun c => c == dot) (by decide))
  | decimal negative ds fs all some_digit few fraction some_fraction few_fraction =>
      rw [List.append_assoc, List.append_assoc, ← List.append_assoc,
        readBareItem_number negative all some_digit, ← List.append_assoc]
      exact readUnsigned_decimal negative all some_digit few fraction some_fraction few_fraction stop
  | string text value chars =>
      have read := readString_complete chars rest
      rw [List.cons_append, List.cons_append] at read ⊢
      have skipped : (dquote == minus || isDigit dquote) = false := by decide
      simp only [readBareItem, skipped, Bool.false_eq_true, if_false, beq_self_eq_true, if_true, read]
      rfl
  | token token spelled =>
      have read := readToken_complete spelled (delimited.stops (p := isTokenChar) (by decide))
      obtain ⟨c, tail, start, inside⟩ := spelled
      have starts := (tokenStart_iff c).mpr start
      have others : (c == minus || isDigit c) = false ∧ (c == dquote) = false ∧ (c == colon) = false ∧
          (c == question) = false := by
        clear start read inside stop delimited
        grind [isAlpha, isLower, isUpper, isDigit]
      obtain ⟨number, quote, bytes, flag⟩ := others
      rw [List.cons_append] at read ⊢
      simp only [readBareItem, number, quote, bytes, flag, Bool.false_eq_true, if_false, starts,
        if_true, read]
      rfl
  | byteSequence body pads value inside padded few whole decoded =>
      have read := readByteSequence_complete inside padded few decoded rest
      rw [List.cons_append, List.cons_append, List.cons_append] at read ⊢
      have skipped : (colon == minus || isDigit colon) = false ∧ (colon == dquote) = false := by decide
      simp only [readBareItem, skipped.1, skipped.2, Bool.false_eq_true, if_false, beq_self_eq_true,
        if_true, read]
      rfl
  | boolean value => cases value <;> rfl

/-- Each octet that starts a bare item is apart from the white space and the parentheses. -/
theorem bareText_head {text : Bytes} {value : BareItem} (spelled : BareText text value) :
    ∃ c tail, text = c :: tail ∧ c ∉ [sp, htab, lparen, rparen] := by
  have digit_head {c : UInt8} (digit : Digit c) : c ∉ [sp, htab, lparen, rparen] := by
    intro member
    simp only [List.mem_cons, List.not_mem_nil, or_false] at member
    rcases member with rfl | rfl | rfl | rfl <;> exact absurd ((digit_iff _).mpr digit) (by decide)
  have number_head {negative : Bool} {ds : Bytes} (all : Digits ds) (some_digit : 1 ≤ ds.length)
      (after : Bytes) :
      ∃ c tail, signText negative ++ ds ++ after = c :: tail ∧ c ∉ [sp, htab, lparen, rparen] := by
    cases negative with
    | true => exact ⟨minus, ds ++ after, rfl, by decide⟩
    | false =>
        cases ds with
        | nil => simp at some_digit
        | cons c tail => exact ⟨c, tail ++ after, rfl, digit_head (all c (by simp))⟩
  cases spelled with
  | integer negative ds all some_digit few => simpa using number_head all some_digit []
  | decimal negative ds fs all some_digit => exact number_head all some_digit _
  | string text value chars => exact ⟨dquote, text ++ [dquote], rfl, by decide⟩
  | token token spelled =>
      obtain ⟨c, tail, start, inside⟩ := spelled
      refine ⟨c, tail, rfl, ?_⟩
      intro member
      simp only [List.mem_cons, List.not_mem_nil, or_false] at member
      rcases member with rfl | rfl | rfl | rfl <;>
        exact absurd ((tokenStart_iff _).mpr start) (by decide)
  | byteSequence body pads value => exact ⟨colon, body ++ pads ++ [colon], by simp, by decide⟩
  | boolean value => exact ⟨question, _, rfl, by decide⟩

/-- A key starts with no white space. -/
theorem keyText_head {text : Bytes} (spelled : KeyText text) :
    ∃ c tail, text = c :: tail ∧ c ∉ [sp, htab] := by
  obtain ⟨c, tail, start, inside⟩ := spelled
  refine ⟨c, tail, rfl, ?_⟩
  intro member
  simp only [List.mem_cons, List.not_mem_nil, or_false] at member
  rcases member with rfl | rfl <;> exact absurd ((keyStart_iff _).mpr start) (by decide)

/-- Spaces are skipped up to the next octet. -/
theorem skipSp_complete {spaces rest : Bytes} (blank : Spaces spaces)
    (stop : ∀ c ∈ rest.head?, c ≠ sp) : skipSp (spaces ++ rest) = rest := by
  apply dropWhile_append_stop
  · intro c member
    simpa using blank c member
  · intro c head
    simpa using stop c head

/-- White space is skipped up to the next octet. -/
theorem skipOws_complete {blank : Bytes} (rest : Bytes) (ows : Ows blank)
    (stop : ∀ c ∈ rest.head?, c ≠ sp ∧ c ≠ htab) : skipOws (blank ++ rest) = rest := by
  apply dropWhile_append_stop
  · intro c member
    simpa using ows c member
  · intro c head
    simpa using stop c head

/-- The parameters are empty or start with a semicolon, so a bare item before them is delimited. -/
theorem paramsText_delimited {text rest : Bytes} {raw : RawParams} (spelled : ParamsText text raw)
    (ended : Ended rest) : Delimited (text ++ rest) := by
  cases spelled with
  | nil => exact ended.delimited
  | flag => simp [Delimited]
  | valued => simp [Delimited]

/-- A parameter without a value is true. -/
theorem readParameterValue_flag {rest : Bytes} (delimited : Delimited rest) :
    readParameterValue rest = .ok (.boolean true, rest) := by
  cases rest with
  | nil => rfl
  | cons c tail =>
      have other := delimited.stops (p := fun c => c == equals) (by decide) c rfl
      simp [readParameterValue, other]

/-- A pair that fits is not refused. -/
theorem upsert_room {ν : Type} {entries : List (Bytes × ν)} {key : Bytes} {value : ν} {limit : Nat}
    (few : (upsert entries key value).length ≤ limit) :
    (!(entries.map Prod.fst).contains key && decide (limit ≤ entries.length)) = false := by
  have keys := congrArg List.length (upsert_keys entries key value)
  by_cases old : key ∈ entries.map Prod.fst
  · rw [List.contains_iff_mem.mpr old]
    rfl
  · rw [if_neg old, List.length_map, List.length_append, List.length_map, List.length_singleton] at keys
    rw [Bool.and_eq_false_iff]
    right
    simp only [decide_eq_false_iff_not]
    omega

/-- The loop reads spelled parameters when it has the fuel and the room. -/
theorem readParametersLoop_complete {text rest : Bytes} {raw : RawParams} {params : Params}
    {fuel : Nat} (spelled : ParamsText text raw) (ended : Ended rest) (enough : text.length < fuel)
    (few : (raw.foldl (fun entries pair => upsert entries pair.1 pair.2) params).length ≤ maxSfvParams) :
    readParametersLoop fuel params (text ++ rest) =
      .ok (raw.foldl (fun entries pair => upsert entries pair.1 pair.2) params, rest) := by
  obtain ⟨fuel, rfl⟩ : ∃ less, fuel = less + 1 := ⟨fuel - 1, by omega⟩
  induction spelled generalizing params fuel with
  | nil =>
      cases rest with
      | nil => rfl
      | cons c tail =>
          have other : (c == semicolon) = false := by
            have member := ended c rfl
            simp only [List.mem_cons, List.not_mem_nil, or_false] at member
            rcases member with rfl | rfl | rfl | rfl <;> decide
          simp [readParametersLoop, other]
  | flag spaces key text raw blank spelledKey spelledParams ih =>
      obtain ⟨c, tail, keyShape, apart⟩ := keyText_head spelledKey
      have delimited := paramsText_delimited spelledParams ended
      have shape : semicolon :: spaces ++ key ++ text ++ rest =
          semicolon :: (spaces ++ (key ++ (text ++ rest))) := by simp
      have skipped : skipSp (spaces ++ (key ++ (text ++ rest))) = key ++ (text ++ rest) := by
        apply skipSp_complete blank
        rw [keyShape]
        simp only [List.cons_append, List.head?_cons, Option.mem_some_iff]
        rintro _ rfl
        simp_all
      have grown : (upsert params key (.boolean true)).length ≤ maxSfvParams :=
        (foldl_upsert_length_le _ raw).trans few
      simp only [shape, readParametersLoop, beq_self_eq_true, if_true, skipped,
        readKey_complete spelledKey (delimited.stops (p := isKeyChar) (by decide)), ok_bind,
        upsert_room grown, Bool.false_eq_true, if_false, readParameterValue_flag delimited]
      have shorter : text.length < fuel := by
        simp only [List.length_append, List.length_cons] at enough
        omega
      obtain ⟨less, rfl⟩ : ∃ less, fuel = less + 1 := ⟨fuel - 1, by omega⟩
      exact ih few less shorter
  | valued spaces key bare text value raw blank spelledKey spelledValue spelledParams ih =>
      obtain ⟨c, tail, keyShape, apart⟩ := keyText_head spelledKey
      have delimited := paramsText_delimited spelledParams ended
      have shape : semicolon :: spaces ++ key ++ equals :: bare ++ text ++ rest =
          semicolon :: (spaces ++ (key ++ equals :: (bare ++ (text ++ rest)))) := by simp
      have skipped : skipSp (spaces ++ (key ++ equals :: (bare ++ (text ++ rest)))) =
          key ++ equals :: (bare ++ (text ++ rest)) := by
        apply skipSp_complete blank
        rw [keyShape]
        simp only [List.cons_append, List.head?_cons, Option.mem_some_iff]
        rintro _ rfl
        simp_all
      have keyStop : ∀ c ∈ (equals :: (bare ++ (text ++ rest))).head?, isKeyChar c = false := by
        simp only [List.head?_cons, Option.mem_some_iff]
        rintro _ rfl
        decide
      have grown : (upsert params key value).length ≤ maxSfvParams :=
        (foldl_upsert_length_le _ raw).trans few
      simp only [shape, readParametersLoop, beq_self_eq_true, if_true, skipped,
        readKey_complete spelledKey keyStop, ok_bind, upsert_room grown, Bool.false_eq_true, if_false,
        readParameterValue, readBareItem_complete spelledValue delimited]
      have shorter : text.length < fuel := by
        simp only [List.length_append, List.length_cons] at enough
        omega
      obtain ⟨less, rfl⟩ : ∃ less, fuel = less + 1 := ⟨fuel - 1, by omega⟩
      exact ih few less shorter

/-- Spelled parameters are read with the last value of each key. -/
theorem readParameters_complete {text rest : Bytes} {raw : RawParams} (spelled : ParamsText text raw)
    (ended : Ended rest) (within : WithinParams raw) :
    readParameters (text ++ rest) = .ok (lastWins raw, rest) := by
  have collected : collect raw = lastWins raw := collect_eq_lastWins raw
  have length := congrArg List.length (collect_keys raw)
  rw [List.length_map] at length
  rw [← collected]
  apply readParametersLoop_complete spelled ended
  · rw [List.length_append]
    omega
  · change (collect raw).length ≤ maxSfvParams
    rw [length]
    exact within

/-- A spelled item is read to its value. -/
theorem readItem_complete {text : Bytes} (rest : Bytes) {raw : RawItem} (spelled : ItemText text raw)
    (ended : Ended rest) (within : raw.Within) : readItem (text ++ rest) = .ok (raw.value, rest) := by
  obtain ⟨bare, params, item, spelledBare, spelledParams⟩ := spelled
  have delimited := paramsText_delimited spelledParams ended
  rw [List.append_assoc, readItem, readBareItem_complete spelledBare delimited]
  simp only [ok_bind, readParameters_complete spelledParams ended within]
  rfl

/-- An item starts with no white space and no parenthesis. -/
theorem itemText_head {text : Bytes} {raw : RawItem} (spelled : ItemText text raw) :
    ∃ c tail, text = c :: tail ∧ c ∉ [sp, htab, lparen, rparen] := by
  obtain ⟨bare, params, item, spelledBare, _⟩ := spelled
  obtain ⟨c, tail, shape, apart⟩ := bareText_head spelledBare
  exact ⟨c, tail ++ params, by rw [shape, List.cons_append], apart⟩

/-- The first octet of a list of items is no space. -/
theorem itemsText_head {text rest : Bytes} {raws : List RawItem} (spelled : ItemsText text raws) :
    ∀ c ∈ (text ++ rparen :: rest).head?, c ≠ sp := by
  have item_head {text : Bytes} {raw : RawItem} (spelled : ItemText text raw) (tail : Bytes) :
      ∀ c ∈ (text ++ tail).head?, c ≠ sp := by
    obtain ⟨c, _, shape, apart⟩ := itemText_head spelled
    rw [shape]
    simp only [List.cons_append, List.head?_cons, Option.mem_some_iff]
    rintro _ rfl
    simp_all
  cases spelled with
  | nil =>
      simp only [List.nil_append, List.head?_cons, Option.mem_some_iff]
      rintro _ rfl
      decide
  | last text spaces item spelled => simpa using item_head spelled (spaces ++ rparen :: rest)
  | cons text spaces tail item next items spelled =>
      simpa using item_head spelled (spaces ++ (tail ++ rparen :: rest))

/-- The last item is followed by the closing parenthesis. -/
theorem readInnerItems_last {fuel : Nat} {items : List Item} {text rest : Bytes} {raw : RawItem}
    (spelled : ItemText text raw) (within : raw.Within) (room : items.length < maxSfvItems) :
    readInnerItems (fuel + 1) items (text ++ rparen :: rest) = .ok (items ++ [raw.value], rest) := by
  have read := readItem_complete (rparen :: rest) spelled (by simp [Ended]) within
  obtain ⟨c, tail, rfl, apart⟩ := itemText_head spelled
  have other : (c == rparen) = false := by
    simp only [beq_eq_false_iff_ne, ne_eq]
    rintro rfl
    simp at apart
  rw [List.cons_append] at read ⊢
  simp only [readInnerItems, other, Bool.false_eq_true, if_false, read, ok_bind,
    beq_self_eq_true, if_true]
  rw [if_neg (by omega)]
  rfl

/-- An item that spaces follow is read before the others. -/
theorem readInnerItems_step {fuel : Nat} {items : List Item} {text spaces tail : Bytes}
    {raw : RawItem} (spelled : ItemText text raw) (within : raw.Within)
    (room : items.length < maxSfvItems) (blank : Spaces spaces) (some_space : spaces ≠ [])
    (stop : ∀ c ∈ tail.head?, c ≠ sp) :
    readInnerItems (fuel + 1) items (text ++ spaces ++ tail) =
      readInnerItems fuel (items ++ [raw.value]) tail := by
  obtain ⟨space, spaces, rfl⟩ := List.exists_cons_of_ne_nil some_space
  have spaced : space = sp := blank space (by simp)
  subst spaced
  have read := readItem_complete (sp :: spaces ++ tail) spelled (by simp [Ended]) within
  have skipped := skipSp_complete blank stop
  obtain ⟨c, rest, rfl, apart⟩ := itemText_head spelled
  have other : (c == rparen) = false := by
    simp only [beq_eq_false_iff_ne, ne_eq]
    rintro rfl
    simp at apart
  have shape : c :: rest ++ sp :: spaces ++ tail = c :: (rest ++ sp :: (spaces ++ tail)) := by simp
  rw [shape]
  rw [List.cons_append] at skipped
  rw [List.cons_append, List.cons_append] at read
  have apartSp : (sp == rparen) = false := by decide
  simp only [readInnerItems, other, Bool.false_eq_true, if_false, read, ok_bind, apartSp,
    bne_self_eq_false, skipped]
  rw [if_neg (by omega)]

/-- Spelled items are read in order. -/
theorem readInnerItems_complete {fuel : Nat} {items : List Item} {text rest : Bytes}
    {raws : List RawItem} (spelled : ItemsText text raws) (enough : text.length < fuel)
    (few : items.length + raws.length ≤ maxSfvItems) (within : ∀ raw ∈ raws, raw.Within) :
    readInnerItems fuel items (text ++ rparen :: rest) =
      .ok (items ++ raws.map RawItem.value, rest) := by
  obtain ⟨fuel, rfl⟩ : ∃ less, fuel = less + 1 := ⟨fuel - 1, by omega⟩
  induction spelled generalizing items fuel with
  | nil => simp [readInnerItems]
  | last text spaces item spelled blank =>
      have room : items.length < maxSfvItems := by
        rw [List.length_singleton] at few
        omega
      have bounded := within item (by simp)
      by_cases none : spaces = []
      · rw [none, List.append_nil, readInnerItems_last spelled bounded room]
        rfl
      · rw [readInnerItems_step spelled bounded room blank none (by simp; decide)]
        have positive := List.length_pos_iff.mpr none
        rw [List.length_append] at enough
        obtain ⟨less, rfl⟩ : ∃ less, fuel = less + 1 := ⟨fuel - 1, by omega⟩
        simp [readInnerItems]
  | cons text spaces tail item next raws spelled blank some_space spelledTail ih =>
      rw [List.length_cons] at few
      have positive := List.length_pos_iff.mpr some_space
      rw [List.append_assoc, readInnerItems_step spelled (within item (by simp)) (by omega) blank
        some_space (itemsText_head spelledTail)]
      rw [List.length_append, List.length_append] at enough
      obtain ⟨less, rfl⟩ : ∃ less, fuel = less + 1 := ⟨fuel - 1, by omega⟩
      rw [ih (by rw [List.length_append, List.length_singleton]; omega)
        (fun raw member => within raw (by simp [member])) less (by omega)]
      simp

/-- A spelled inner list is read to its value. -/
theorem readInnerList_complete {text : Bytes} (rest : Bytes) {raw : RawInnerList}
    (spelled : InnerListText text raw) (ended : Ended rest) (within : raw.Within) :
    ∃ tail, text = lparen :: tail ∧ readInnerList (tail ++ rest) = .ok (raw.value, rest) := by
  obtain ⟨spaces, items, params, list, blank, spelledItems, spelledParams⟩ := spelled
  obtain ⟨few, bounded, withinParams⟩ := within
  refine ⟨spaces ++ items ++ rparen :: params, rfl, ?_⟩
  have shape : spaces ++ items ++ rparen :: params ++ rest =
      spaces ++ (items ++ rparen :: (params ++ rest)) := by simp
  rw [shape, readInnerList, skipSp_complete blank (itemsText_head spelledItems),
    readInnerItems_complete spelledItems (by simp only [List.length_append]; omega) (by simpa using few)
      bounded]
  simp only [ok_bind, List.nil_append, readParameters_complete spelledParams ended withinParams]
  rfl

/-- A member starts with no white space. -/
theorem memberText_head {text : Bytes} {raw : RawMember} (spelled : MemberText text raw) :
    ∃ c tail, text = c :: tail ∧ c ∉ [sp, htab] := by
  cases spelled with
  | item item spelled =>
      obtain ⟨c, tail, shape, apart⟩ := itemText_head spelled
      exact ⟨c, tail, shape, fun member => apart (by simp_all)⟩
  | innerList list spelled =>
      obtain ⟨spaces, items, params, list⟩ := spelled
      exact ⟨lparen, _, rfl, by decide⟩

/-- A spelled member is read to its value. -/
theorem readMember_complete {text rest : Bytes} {raw : RawMember} (spelled : MemberText text raw)
    (ended : Ended rest) (within : raw.Within) :
    readMember 0 (text ++ rest) = .ok (raw.value, rest) := by
  cases spelled with
  | item item spelled =>
      have read := readItem_complete rest spelled ended within
      obtain ⟨c, tail, rfl, apart⟩ := itemText_head spelled
      have other : (c == lparen) = false := by
        simp only [beq_eq_false_iff_ne, ne_eq]
        rintro rfl
        simp at apart
      rw [List.cons_append] at read ⊢
      rw [readMember, if_neg (by decide)]
      simp only [other, Bool.false_eq_true, if_false, read, ok_bind]
      rfl
  | innerList list spelled =>
      obtain ⟨tail, rfl, read⟩ := readInnerList_complete rest spelled ended within
      rw [List.cons_append, readMember, if_neg (by decide)]
      simp only [beq_self_eq_true, if_true, read, ok_bind]
      rfl

/-- A dictionary entry starts with no white space. -/
theorem entryText_head {text : Bytes} {entry : Bytes × RawMember} (spelled : EntryText text entry) :
    ∃ c tail, text = c :: tail ∧ c ∉ [sp, htab] := by
  cases spelled with
  | flag key params raw spelledKey spelledParams =>
      obtain ⟨c, tail, shape, apart⟩ := keyText_head spelledKey
      exact ⟨c, tail ++ params, by rw [shape, List.cons_append], apart⟩
  | valued key text member spelledKey spelledMember =>
      obtain ⟨c, tail, shape, apart⟩ := keyText_head spelledKey
      exact ⟨c, tail ++ equals :: text, by rw [shape, List.cons_append], apart⟩

/-- An entry reads as its key and the value after it. -/
theorem readEntry_complete {text rest : Bytes} {entry : Bytes × RawMember}
    (spelled : EntryText text entry) (ended : Ended rest) (within : entry.2.Within) :
    ∃ after, readKey (text ++ rest) = .ok (entry.1, after) ∧
      readMemberValue after = .ok (entry.2.value, rest) := by
  cases spelled with
  | flag key params raw spelledKey spelledParams =>
      have delimited := paramsText_delimited spelledParams ended
      refine ⟨params ++ rest, ?_, ?_⟩
      · rw [List.append_assoc]
        exact readKey_complete spelledKey (delimited.stops (p := isKeyChar) (by decide))
      · have read := readParameters_complete spelledParams ended within
        cases shape : params ++ rest with
        | nil =>
            rw [shape] at read
            simp only [readMemberValue, read, ok_bind]
            rfl
        | cons c tail =>
            rw [shape] at read
            have other := delimited.stops (p := fun c => c == equals) (by decide) c (by rw [shape]; rfl)
            simp only [readMemberValue, other, Bool.false_eq_true, if_false, read, ok_bind]
            rfl
  | valued key text member spelledKey spelledMember =>
      refine ⟨equals :: (text ++ rest), ?_, ?_⟩
      · rw [List.append_assoc, List.cons_append]
        apply readKey_complete spelledKey
        simp only [List.head?_cons, Option.mem_some_iff]
        rintro _ rfl
        decide
      · simp only [readMemberValue, beq_self_eq_true, if_true]
        exact readMember_complete spelledMember ended within

/-- Trailing white space ends a series. -/
theorem readSeparator_ended {blank : Bytes} (ows : Ows blank) : readSeparator blank = .ok none := by
  have skipped := skipOws_complete [] ows (by simp)
  rw [List.append_nil] at skipped
  rw [readSeparator, skipped]

/-- A comma with white space around it leads to the next value. -/
theorem readSeparator_comma {before after more : Bytes} (ows : Ows before) (owsAgain : Ows after)
    (starts : ∃ c tail, more = c :: tail ∧ c ∉ [sp, htab]) :
    readSeparator (before ++ comma :: after ++ more) = .ok (some more) := by
  obtain ⟨c, tail, rfl, apart⟩ := starts
  have shape : before ++ comma :: after ++ c :: tail = before ++ comma :: (after ++ c :: tail) := by simp
  have first := skipOws_complete (comma :: (after ++ c :: tail)) ows (by simp; decide)
  have second := skipOws_complete (c :: tail) owsAgain (by simpa using apart)
  simp only [shape, readSeparator, first, bne_self_eq_false, Bool.false_eq_true, if_false, second]

/-- White space ends a value. -/
theorem ows_ended {blank : Bytes} (ows : Ows blank) : Ended blank := by
  intro c head
  rcases ows c (List.mem_of_mem_head? head) with rfl | rfl <;> decide

/-- A comma after white space ends a value. -/
theorem ows_comma_ended {blank : Bytes} (ows : Ows blank) (rest : Bytes) :
    Ended (blank ++ comma :: rest) := by
  cases blank with
  | nil => simp [Ended]
  | cons c tail => rcases ows c (by simp) with rfl | rfl <;> simp [Ended]

/-- A series starts with its first value. -/
theorem separated_head {α : Type} {one : Bytes → α → Prop} {text : Bytes} {values : List α}
    (starts : ∀ text value, one text value → ∃ c tail, text = c :: tail ∧ c ∉ [sp, htab])
    (spelled : Separated one text values) (rest : Bytes) :
    ∃ c tail, text ++ rest = c :: tail ∧ c ∉ [sp, htab] := by
  cases spelled with
  | last text value spelled =>
      obtain ⟨c, tail, rfl, apart⟩ := starts text value spelled
      exact ⟨c, tail ++ rest, rfl, apart⟩
  | cons text before after tail value values spelled =>
      obtain ⟨c, front, rfl, apart⟩ := starts text value spelled
      exact ⟨c, front ++ before ++ comma :: after ++ tail ++ rest, by simp, apart⟩

/-- The entries before further ones are within the limits. -/
theorem withinDictionary_take {entries : List (Bytes × RawMember)} (more : List (Bytes × RawMember))
    (within : WithinDictionary (entries ++ more)) : WithinDictionary entries := by
  induction more using List.reverseRecOn with
  | nil => simpa using within
  | append_singleton more entry ih =>
      rw [← List.append_assoc] at within
      apply ih
      refine ⟨(firstKeys_length_mono _ entry).trans within.1, ?_⟩
      exact fun other member => within.2 other (List.mem_append_left _ member)

/-- An entry within the limits is not refused. -/
theorem withinDictionary_room {entries : List (Bytes × RawMember)} {entry : Bytes × RawMember}
    (within : WithinDictionary (entries ++ [entry])) :
    (!((dictionaryValue entries).entries.map Prod.fst).contains entry.1 &&
      decide (maxSfvItems ≤ (dictionaryValue entries).entries.length)) = false := by
  have bound := within.1
  rw [← dictionaryValue_length, show [entry] = [(entry.1, entry.2)] from rfl,
    dictionaryValue_append] at bound
  exact upsert_room bound

/-- The loop reads spelled entries when it has the fuel and the room. -/
theorem readDictionaryLoop_complete {text after : Bytes} {fuel : Nat}
    (entries : List (Bytes × RawMember)) {raws : List (Bytes × RawMember)} (spelled : Separated EntryText text raws)
    (ows : Ows after) (enough : (text ++ after).length < fuel)
    (within : WithinDictionary (entries ++ raws)) :
    readDictionaryLoop fuel (dictionaryValue entries) (text ++ after) =
      .ok (dictionaryValue (entries ++ raws), []) := by
  obtain ⟨fuel, rfl⟩ : ∃ less, fuel = less + 1 := ⟨fuel - 1, by omega⟩
  induction spelled generalizing entries fuel with
  | last text entry spelled =>
      obtain ⟨unread, keyed, valued⟩ := readEntry_complete spelled (ows_ended ows)
        (within.2 entry (by simp))
      obtain ⟨c, tail, shape, _⟩ := entryText_head spelled
      rw [shape, List.cons_append] at keyed ⊢
      simp only [readDictionaryLoop, keyed, ok_bind, withinDictionary_room within, Bool.false_eq_true,
        if_false, valued,
        readSeparator_ended ows]
      rw [← dictionaryValue_append]
      rfl
  | cons text before blank tail entry raws spelled owsBefore owsAfter spelledTail ih =>
      have first : WithinDictionary (entries ++ [entry]) := by
        apply withinDictionary_take raws
        simpa using within
      obtain ⟨unread, keyed, valued⟩ := readEntry_complete spelled
        (ows_comma_ended owsBefore (blank ++ (tail ++ after))) (within.2 entry (by simp))
      obtain ⟨c, front, shape, _⟩ := entryText_head spelled
      have separator := readSeparator_comma owsBefore owsAfter
        (separated_head (fun _ _ => entryText_head) spelledTail after)
      have whole : text ++ before ++ comma :: blank ++ tail ++ after =
          text ++ (before ++ comma :: (blank ++ (tail ++ after))) := by simp
      rw [List.append_assoc, List.cons_append] at separator
      rw [whole]
      rw [shape, List.cons_append] at keyed ⊢
      simp only [readDictionaryLoop, keyed, ok_bind, withinDictionary_room first, Bool.false_eq_true, if_false,
        valued,
        separator]
      rw [← dictionaryValue_append]
      have shorter : (tail ++ after).length < fuel := by
        rw [shape] at enough
        simp only [List.length_append, List.length_cons] at enough ⊢
        omega
      obtain ⟨less, rfl⟩ : ∃ less, fuel = less + 1 := ⟨fuel - 1, by omega⟩
      rw [ih _ (by simpa using within) less shorter]
      simp

/-- The loop reads spelled members when it has the fuel and the room. -/
theorem readListLoop_complete {text after : Bytes} {fuel : Nat} (members : List Member)
    {raws : List RawMember} (spelled : Separated MemberText text raws) (ows : Ows after)
    (enough : (text ++ after).length < fuel) (few : members.length + raws.length ≤ maxSfvItems)
    (within : ∀ raw ∈ raws, raw.Within) :
    readListLoop fuel members (text ++ after) = .ok (members ++ raws.map RawMember.value, []) := by
  obtain ⟨fuel, rfl⟩ : ∃ less, fuel = less + 1 := ⟨fuel - 1, by omega⟩
  induction spelled generalizing members fuel with
  | last text raw spelled =>
      have read := readMember_complete spelled (ows_ended ows) (within raw (by simp))
      obtain ⟨c, tail, shape, _⟩ := memberText_head spelled
      rw [List.length_singleton] at few
      rw [shape, List.cons_append] at read ⊢
      simp only [readListLoop, read, ok_bind, readSeparator_ended ows]
      rw [if_neg (by omega)]
      rfl
  | cons text before blank tail raw raws spelled owsBefore owsAfter spelledTail ih =>
      have read := readMember_complete spelled
        (ows_comma_ended owsBefore (blank ++ (tail ++ after))) (within raw (by simp))
      obtain ⟨c, front, shape, _⟩ := memberText_head spelled
      have separator := readSeparator_comma owsBefore owsAfter
        (separated_head (fun _ _ => memberText_head) spelledTail after)
      have whole : text ++ before ++ comma :: blank ++ tail ++ after =
          text ++ (before ++ comma :: (blank ++ (tail ++ after))) := by simp
      rw [List.append_assoc, List.cons_append] at separator
      rw [List.length_cons] at few
      rw [whole]
      rw [shape, List.cons_append] at read ⊢
      simp only [readListLoop, read, ok_bind, separator]
      have shorter : (tail ++ after).length < fuel := by
        rw [shape] at enough
        simp only [List.length_append, List.length_cons] at enough ⊢
        omega
      obtain ⟨less, rfl⟩ : ∃ less, fuel = less + 1 := ⟨fuel - 1, by omega⟩
      rw [if_neg (by omega), ih _ (by rw [List.length_append, List.length_singleton]; omega)
        (fun raw member => within raw (by simp [member])) less shorter]
      simp

end AuthHttpsig.Sfv
