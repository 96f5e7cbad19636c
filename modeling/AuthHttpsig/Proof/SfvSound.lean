import Mathlib.Data.List.TakeWhile
import AuthHttpsig.Library.Result
import AuthHttpsig.Proof.SfvGrammar

namespace AuthHttpsig.Sfv
open Ascii AssocList Rfc8941

theorem lower_iff (c : UInt8) : isLower c = true ↔ Lcalpha c := by
  simp [isLower, Lcalpha]

theorem digit_iff (c : UInt8) : isDigit c = true ↔ Digit c := by
  simp [isDigit, Digit]

theorem alpha_iff (c : UInt8) : isAlpha c = true ↔ Alpha c := by
  simp [isAlpha, isLower, isUpper, Alpha, Lcalpha, Ucalpha]

/-- The code and the grammar let the same octets start a key. -/
theorem keyStart_iff (c : UInt8) : (isLower c || c == asterisk) = true ↔ KeyStart c := by
  simp only [Bool.or_eq_true, lower_iff, beq_iff_eq, KeyStart]

/-- The code and the grammar let the same octets go on with a key. -/
theorem keyRest_iff (c : UInt8) : isKeyChar c = true ↔ KeyRest c := by
  have special : ascii "_-.*" = [underscore, minus, dot, asterisk] := by decide
  simp only [isKeyChar, Bool.or_eq_true, lower_iff, digit_iff, beq_iff_eq, KeyRest, special,
    List.mem_cons, List.not_mem_nil, or_false, or_assoc]

/-- The code and the grammar let the same octets start a token. -/
theorem tokenStart_iff (c : UInt8) : (isAlpha c || c == asterisk) = true ↔ TokenStart c := by
  simp only [Bool.or_eq_true, alpha_iff, beq_iff_eq, TokenStart]

/-- The code and the grammar let the same octets go on with a token. -/
theorem tokenRest_iff (c : UInt8) : isTokenChar c = true ↔ TokenRest c := by
  simp only [isTokenChar, isTchar, Bool.or_eq_true, alpha_iff, digit_iff, beq_iff_eq,
    List.contains_iff_mem, TokenRest, Tchar, or_assoc]

/-- The code and the grammar have one alphabet. -/
theorem base64_iff (c : UInt8) : (Base64.decodeChar c).isSome = true ↔ Base64Octet c := by
  simp only [Base64Octet, ← alpha_iff, ← digit_iff, isAlpha, Bool.or_eq_true]
  unfold Base64.decodeChar
  split
  · simp [*]
  · split
    · simp [*]
    · split
      · simp [*]
      · simp_all
        grind

/-- Only spaces are skipped. -/
theorem skipSp_sound (input : Bytes) : ∃ spaces, input = spaces ++ skipSp input ∧ Spaces spaces := by
  refine ⟨input.takeWhile fun c => c == sp, List.takeWhile_append_dropWhile.symm, ?_⟩
  intro c member
  simpa using List.mem_takeWhile_imp member

/-- Only white space is skipped. -/
theorem skipOws_sound (input : Bytes) : ∃ blank, input = blank ++ skipOws input ∧ Ows blank := by
  refine ⟨input.takeWhile fun c => c == sp || c == htab, List.takeWhile_append_dropWhile.symm, ?_⟩
  intro c member
  simpa using List.mem_takeWhile_imp member

/-- A key that is read is spelled. -/
theorem readKey_sound {input key rest : Bytes} (done : readKey input = .ok (key, rest)) :
    KeyText key ∧ input = key ++ rest := by
  cases input with
  | nil => simp [readKey, fail] at done
  | cons c tail =>
      simp only [readKey, fail, else_error_eq_ok, Except.ok.injEq, Prod.mk.injEq] at done
      obtain ⟨start, rfl, rfl⟩ := done
      refine ⟨.mk c _ ((keyStart_iff c).mp start) ?_, ?_⟩
      · intro d member
        exact (keyRest_iff d).mp (List.mem_takeWhile_imp member)
      · rw [List.cons_append, List.takeWhile_append_dropWhile]

/-- A token that is read is spelled. -/
theorem readToken_sound {input value rest : Bytes} (done : readToken input = .ok (value, rest)) :
    TokenText value ∧ input = value ++ rest := by
  cases input with
  | nil => simp [readToken, fail] at done
  | cons c tail =>
      simp only [readToken, fail, else_error_eq_ok, Except.ok.injEq, Prod.mk.injEq] at done
      obtain ⟨start, rfl, rfl⟩ := done
      refine ⟨.mk c _ ((tokenStart_iff c).mp start) ?_, ?_⟩
      · intro d member
        exact (tokenRest_iff d).mp (List.mem_takeWhile_imp member)
      · rw [List.cons_append, List.takeWhile_append_dropWhile]

/-- An octet that is no backslash stands for itself. -/
theorem unescape_plain {c : UInt8} (plain : c ≠ backslash) (rest : Bytes) :
    unescape (c :: rest) = c :: unescape rest := by
  rw [unescape.eq_def]
  simp [plain]

/-- The scan finds the characters of a string, and the copy removes their escapes. -/
theorem scanString_sound {input raw rest : Bytes} {escapes : Nat}
    (done : scanString input = .ok (raw, escapes, rest)) :
    Chars raw (unescape raw) ∧ input = raw ++ dquote :: rest ∧
      (escapes = 0 → unescape raw = raw) := by
  induction input using scanString.induct generalizing raw escapes with
  | case1 => simp [scanString] at done
  | case2 c tail quote =>
      unfold scanString at done
      simp only [quote, if_true, Except.ok.injEq, Prod.mk.injEq] at done
      obtain ⟨rfl, rfl, rfl⟩ := done
      simp only [beq_iff_eq] at quote
      subst quote
      exact ⟨.nil, rfl, fun _ => rfl⟩
  | case3 c quote slash e after special ih =>
      simp only [scanString, quote, slash, special, if_true, Bool.false_eq_true, if_false,
        bind_eq_ok, pure_eq_ok, Prod.mk.injEq, Prod.exists] at done
      obtain ⟨inner, count, left, found, rfl, rfl, rfl⟩ := done
      obtain ⟨chars, text, _⟩ := ih found
      simp only [beq_iff_eq] at slash
      subst slash
      simp only [Bool.or_eq_true, beq_iff_eq] at special
      refine ⟨?_, by simp [text], by simp⟩
      simp only [unescape, beq_self_eq_true, if_true]
      exact .escaped e inner _ special chars
  | case4 c quote slash e after special =>
      simp [scanString, quote, slash, special] at done
  | case5 c quote slash =>
      simp [scanString, quote, slash] at done
  | case6 c tail quote slash control =>
      unfold scanString at done
      simp [quote, slash, control] at done
  | case7 c tail quote slash control ih =>
      unfold scanString at done
      simp only [quote, slash, control, Bool.false_eq_true, if_false,
        bind_eq_ok, pure_eq_ok, Prod.mk.injEq, Prod.exists] at done
      obtain ⟨inner, count, left, found, rfl, rfl, rfl⟩ := done
      obtain ⟨chars, text, plain⟩ := ih found
      simp only [Bool.or_eq_true, decide_eq_true_eq, not_or, UInt8.not_lt] at control
      simp only [beq_iff_eq] at quote slash
      refine ⟨?_, by simp [text], ?_⟩
      · rw [unescape_plain slash]
        exact .plain c inner _ ⟨control.1, control.2, quote, slash⟩ chars
      · intro none
        rw [unescape_plain slash, plain none]

/-- A string that is read is spelled. -/
theorem readString_sound {input value rest : Bytes} (done : readString input = .ok (value, rest)) :
    ∃ text, input = text ++ rest ∧ BareText text (.string value) := by
  cases input with
  | nil => simp [readString, fail] at done
  | cons c tail =>
      simp only [readString, fail, else_error_eq_ok, bind_eq_ok, pure_eq_ok, Prod.exists,
        Prod.mk.injEq, beq_iff_eq] at done
      obtain ⟨rfl, raw, escapes, unread, found, rfl, rfl⟩ := done
      obtain ⟨chars, text, plain⟩ := scanString_sound found
      refine ⟨dquote :: raw ++ [dquote], by simp [text], ?_⟩
      have same : (if escapes = 0 then raw else unescape raw) = unescape raw := by
        split
        · next none => exact (plain none).symm
        · rfl
      rw [same]
      exact .string raw _ chars

/-- A count of pads past the first pad finds pads only. -/
theorem countPads_pos {pads total : Nat} {text : Bytes} (positive : 0 < pads)
    (counted : countPads pads text = some total) :
    (∀ c ∈ text, c = equals) ∧ total = pads + text.length := by
  induction text generalizing pads with
  | nil => simpa [countPads] using counted.symm
  | cons c rest ih =>
      unfold countPads at counted
      by_cases pad : c = equals
      · simp only [pad, beq_self_eq_true, if_true] at counted
        obtain ⟨tail, sum⟩ := ih (by omega) counted
        refine ⟨by simpa [pad] using tail, ?_⟩
        rw [sum, List.length_cons]
        omega
      · simp [pad, positive] at counted

/-- The accepted pads stand at the end. -/
theorem countPads_sound {total : Nat} {text : Bytes} (counted : countPads 0 text = some total) :
    ∃ body pads, text = body ++ pads ∧ (∀ c ∈ body, c ≠ equals) ∧ (∀ c ∈ pads, c = equals) ∧
      pads.length = total := by
  induction text with
  | nil => exact ⟨[], [], rfl, by simp, by simp, by simpa [countPads] using counted⟩
  | cons c rest ih =>
      unfold countPads at counted
      by_cases pad : c = equals
      · simp only [pad, beq_self_eq_true, if_true] at counted
        obtain ⟨tail, sum⟩ := countPads_pos (by omega) counted
        refine ⟨[], c :: rest, rfl, by simp, by simpa [pad] using tail, ?_⟩
        rw [sum, List.length_cons]
        omega
      · simp only [beq_iff_eq, pad, if_false, Nat.lt_irrefl] at counted
        obtain ⟨body, pads, text, plain, padded, count⟩ := ih counted
        exact ⟨c :: body, pads, by simp [text], by simpa [pad] using plain, padded, count⟩

/-- A byte sequence that is read is spelled. -/
theorem readByteSequence_sound {input value rest : Bytes}
    (done : readByteSequence input = .ok (value, rest)) :
    ∃ text, input = text ++ rest ∧ BareText text (.byteSequence value) := by
  cases input with
  | nil => simp [readByteSequence, fail] at done
  | cons c tail =>
      simp only [readByteSequence, fail, else_error_eq_ok, beq_iff_eq] at done
      obtain ⟨rfl, done⟩ := done
      have halves := tail.takeWhile_append_dropWhile (p := fun c => c != colon)
      split at done
      · simp at done
      · next stop unread found =>
          have closing : stop = colon := by
            have fails := List.head?_dropWhile_not (fun c => c != colon) tail
            simpa [found] using fails
          split at done
          · simp at done
          · next total counted =>
              rw [if_error_eq_ok] at done
              obtain ⟨few, done⟩ := done
              split at done
              · simp at done
              · next data decoded =>
                  simp only [Except.ok.injEq, Prod.mk.injEq] at done
                  obtain ⟨rfl, rfl⟩ := done
                  obtain ⟨body, pads, text, plain, padded, count⟩ := countPads_sound counted
                  rw [text, Base64.decode_append_pads padded] at decoded
                  obtain ⟨inside, whole⟩ := Base64.decode_eq_some plain decoded
                  refine ⟨colon :: body ++ pads ++ [colon], ?_, .byteSequence body pads _ ?_ padded
                    (by omega) whole decoded⟩
                  · rw [← halves, text, found, closing]
                    simp
                  · exact fun c member => (base64_iff c).mp (inside c member)

/-- A Boolean that is read is spelled. -/
theorem readBoolean_sound {input rest : Bytes} {value : BareItem}
    (done : readBoolean input = .ok (value, rest)) :
    ∃ text, input = text ++ rest ∧ BareText text value := by
  cases input with
  | nil => simp [readBoolean, fail] at done
  | cons c tail =>
      simp only [readBoolean, fail, else_error_eq_ok, beq_iff_eq] at done
      obtain ⟨rfl, done⟩ := done
      cases tail with
      | nil => simp at done
      | cons d unread =>
          simp only [else_error_eq_ok, Bool.or_eq_true, beq_iff_eq, Except.ok.injEq,
            Prod.mk.injEq] at done
          obtain ⟨bit, rfl, rfl⟩ := done
          refine ⟨[question, d], rfl, ?_⟩
          rcases bit with rfl | rfl
          · exact .boolean false
          · exact .boolean true

/-- The digit loop reads the longest run of digits within its limit. -/
theorem readDigits_sound {limit value digits total count : Nat} {reason : String}
    {input rest : Bytes} (done : readDigits limit reason value digits input = .ok ((total, count), rest))
    (within : digits ≤ limit) :
    ∃ ds, input = ds ++ rest ∧ Digits ds ∧ count = digits + ds.length ∧ count ≤ limit ∧
      total = ds.foldl (fun value c => value * 10 + digitValue c) value ∧
      ∀ c ∈ rest.head?, isDigit c = false := by
  induction input generalizing value digits with
  | nil =>
      simp only [readDigits, Except.ok.injEq, Prod.mk.injEq] at done
      obtain ⟨⟨rfl, rfl⟩, rfl⟩ := done
      exact ⟨[], rfl, by simp [Digits], rfl, within, rfl, by simp⟩
  | cons c tail ih =>
      unfold readDigits at done
      by_cases digit : isDigit c = true
      · simp only [digit, if_true, fail, if_error_eq_ok] at done
        obtain ⟨room, done⟩ := done
        obtain ⟨ds, text, all, length, few, sum, stop⟩ := ih done (by omega)
        refine ⟨c :: ds, by simp [text], ?_, ?_, few, by simpa using sum, stop⟩
        · intro d member
          rcases List.mem_cons.mp member with rfl | inside
          · exact (digit_iff d).mp digit
          · exact all d inside
        · rw [length, List.length_cons]
          omega
      · simp only [digit, Bool.false_eq_true, if_false, Except.ok.injEq, Prod.mk.injEq] at done
        obtain ⟨⟨rfl, rfl⟩, rfl⟩ := done
        exact ⟨[], rfl, by simp [Digits], rfl, within, rfl, by simpa using digit⟩

/-- A number that starts with a digit has one. -/
theorem digits_ne_nil {ds rest : Bytes} (starts : startsWithDigit (ds ++ rest) = true)
    (stop : ∀ c ∈ rest.head?, isDigit c = false) : 1 ≤ ds.length := by
  cases ds with
  | nil => cases rest <;> simp_all [startsWithDigit]
  | cons => simp

/-- A number that is read after its sign is spelled. -/
theorem readUnsigned_sound {negative : Bool} {input rest : Bytes} {value : BareItem}
    (done : readUnsigned negative input = .ok (value, rest)) :
    ∃ text, signText negative ++ input = text ++ rest ∧ BareText text value := by
  simp only [readUnsigned, fail, if_error_eq_ok, Bool.not_eq_true', Bool.not_eq_false] at done
  obtain ⟨starts, done⟩ := done
  simp only [bind_eq_ok, Prod.exists] at done
  obtain ⟨total, count, tail, first, done⟩ := done
  obtain ⟨ds, text, all, length, few, sum, stop⟩ := readDigits_sound first (by omega)
  subst text
  have some_digit := digits_ne_nil starts stop
  rw [Nat.zero_add] at length
  have integer : BareText (signText negative ++ ds) (.integer (signed negative total)) :=
    sum ▸ .integer negative ds all some_digit (by omega)
  cases tail with
  | nil =>
      simp only [pure_eq_ok, Prod.mk.injEq] at done
      obtain ⟨rfl, rfl⟩ := done
      exact ⟨signText negative ++ ds, by simp, integer⟩
  | cons c after =>
      by_cases point : c = dot
      · simp only [point, bne_self_eq_false, Bool.false_eq_true, if_false, if_error_eq_ok,
          Bool.not_eq_false] at done
        obtain ⟨short, fraction, done⟩ := done
        simp only [bind_eq_ok, Prod.exists, pure_eq_ok, Prod.mk.injEq] at done
        obtain ⟨frac, places, unread, second, rfl, rfl⟩ := done
        obtain ⟨fs, text, rest_all, rest_length, rest_few, rest_sum, rest_stop⟩ :=
          readDigits_sound second (by omega)
        subst text
        have some_fraction := digits_ne_nil fraction rest_stop
        rw [Nat.zero_add] at rest_length
        refine ⟨signText negative ++ ds ++ dot :: fs, by simp [point], ?_⟩
        rw [sum, rest_sum, rest_length]
        exact .decimal negative ds fs all some_digit (by omega) rest_all some_fraction (by omega)
      · simp only [bne_iff_ne, ne_eq, point, not_false_eq_true, if_true, pure_eq_ok,
          Prod.mk.injEq] at done
        obtain ⟨rfl, rfl⟩ := done
        exact ⟨signText negative ++ ds, by simp, integer⟩

/-- A number that is read is spelled. -/
theorem readNumber_sound {input rest : Bytes} {value : BareItem}
    (done : readNumber input = .ok (value, rest)) :
    ∃ text, input = text ++ rest ∧ BareText text value := by
  cases input with
  | nil => simp [readNumber, readUnsigned, startsWithDigit, fail] at done
  | cons c tail =>
      simp only [readNumber, beq_iff_eq] at done
      split at done
      · next sign =>
          subst sign
          exact readUnsigned_sound done
      · exact readUnsigned_sound done

/-- A bare item that is read is spelled. -/
theorem readBareItem_sound {input rest : Bytes} {value : BareItem}
    (done : readBareItem input = .ok (value, rest)) :
    ∃ text, input = text ++ rest ∧ BareText text value := by
  cases input with
  | nil => simp [readBareItem, fail] at done
  | cons c tail =>
      simp only [readBareItem, fail] at done
      split at done
      · exact readNumber_sound done
      split at done
      · simp only [bind_eq_ok, pure_eq_ok, Prod.exists, Prod.mk.injEq] at done
        obtain ⟨string, unread, found, rfl, rfl⟩ := done
        exact readString_sound found
      split at done
      · simp only [bind_eq_ok, pure_eq_ok, Prod.exists, Prod.mk.injEq] at done
        obtain ⟨data, unread, found, rfl, rfl⟩ := done
        exact readByteSequence_sound found
      split at done
      · exact readBoolean_sound done
      split at done
      · simp only [bind_eq_ok, pure_eq_ok, Prod.exists, Prod.mk.injEq] at done
        obtain ⟨token, unread, found, rfl, rfl⟩ := done
        obtain ⟨spelled, text⟩ := readToken_sound found
        exact ⟨token, text, .token token spelled⟩
      · simp at done

/-- A parameter value that is read is absent or spelled. -/
theorem readParameterValue_sound {input rest : Bytes} {value : BareItem}
    (done : readParameterValue input = .ok (value, rest)) :
    (input = rest ∧ value = .boolean true) ∨
      ∃ text, input = equals :: text ++ rest ∧ BareText text value := by
  cases input with
  | nil =>
      simp only [readParameterValue, Except.ok.injEq, Prod.mk.injEq] at done
      exact .inl ⟨done.2, done.1.symm⟩
  | cons c tail =>
      simp only [readParameterValue, beq_iff_eq] at done
      split at done
      · next sign =>
          obtain ⟨text, split, spelled⟩ := readBareItem_sound done
          exact .inr ⟨text, by simp [sign, split], spelled⟩
      · simp only [Except.ok.injEq, Prod.mk.injEq] at done
        exact .inl ⟨done.2, done.1.symm⟩

/-- The loop updates its parameters with the pairs it reads, and never holds more than its limit. -/
theorem readParametersLoop_sound {fuel : Nat} {params final : Params} {input rest : Bytes}
    (done : readParametersLoop fuel params input = .ok (final, rest))
    (within : params.length ≤ maxSfvParams) :
    ∃ text raw, input = text ++ rest ∧ ParamsText text raw ∧
      final = raw.foldl (fun entries pair => upsert entries pair.1 pair.2) params ∧
      final.length ≤ maxSfvParams := by
  induction fuel generalizing params input with
  | zero => simp [readParametersLoop, fail] at done
  | succ fuel ih =>
      cases input with
      | nil =>
          simp only [readParametersLoop, Except.ok.injEq, Prod.mk.injEq] at done
          obtain ⟨rfl, rfl⟩ := done
          exact ⟨[], [], rfl, .nil, rfl, within⟩
      | cons c tail =>
          simp only [readParametersLoop, fail] at done
          split at done
          · next semi =>
              simp only [beq_iff_eq] at semi
              subst semi
              simp only [bind_eq_ok, Prod.exists, if_error_eq_ok] at done
              obtain ⟨key, afterKey, keyed, room, value, unread, valued, done⟩ := done
              obtain ⟨spaces, skipped, blank⟩ := skipSp_sound tail
              obtain ⟨spelled, keyText⟩ := readKey_sound keyed
              have grown : (upsert params key value).length ≤ maxSfvParams := by
                have keys := congrArg List.length (upsert_keys params key value)
                simp only [Bool.and_eq_true, Bool.not_eq_true', List.contains_eq_mem,
                  decide_eq_false_iff_not, decide_eq_true_eq] at room
                split at keys <;> simp only [List.length_map, List.length_append,
                  List.length_singleton] at keys
                · omega
                · next fresh => simp only [fresh, not_false_eq_true, true_and] at room; omega
              obtain ⟨text, raw, split, params_text, folded, few⟩ := ih done grown
              rcases readParameterValue_sound valued with ⟨same, flag⟩ | ⟨bare, after, spelledValue⟩
              · refine ⟨semicolon :: spaces ++ key ++ text, (key, .boolean true) :: raw, ?_,
                  .flag spaces key text raw blank spelled params_text, ?_, few⟩
                · rw [skipped, keyText, same, split]
                  simp
                · rw [folded, flag]
                  rfl
              · refine ⟨semicolon :: spaces ++ key ++ equals :: bare ++ text, (key, value) :: raw,
                  ?_, .valued spaces key bare text value raw blank spelled spelledValue params_text,
                  folded, few⟩
                rw [skipped, keyText, after, split]
                simp
          · simp only [Except.ok.injEq, Prod.mk.injEq] at done
            obtain ⟨rfl, rfl⟩ := done
            exact ⟨[], [], rfl, .nil, rfl, within⟩

/-- Parameters that are read are spelled and within the limits. -/
theorem readParameters_sound {input rest : Bytes} {params : Params}
    (done : readParameters input = .ok (params, rest)) :
    ∃ text raw, input = text ++ rest ∧ ParamsText text raw ∧ params = lastWins raw ∧
      WithinParams raw := by
  obtain ⟨text, raw, split, spelled, folded, few⟩ :=
    readParametersLoop_sound done (by simp)
  have collected : params = collect raw := folded
  refine ⟨text, raw, split, spelled, by rw [collected, collect_eq_lastWins], ?_⟩
  have length := congrArg List.length (collect_keys raw)
  rw [List.length_map, ← collected] at length
  rw [WithinParams, ← length]
  exact few

/-- An item that is read is spelled and within the limits. -/
theorem readItem_sound {input rest : Bytes} {item : Item} (done : readItem input = .ok (item, rest)) :
    ∃ text raw, input = text ++ rest ∧ ItemText text raw ∧ item = raw.value ∧ raw.Within := by
  simp only [readItem, bind_eq_ok, pure_eq_ok, Prod.exists, Prod.mk.injEq] at done
  obtain ⟨bare, tail, first, params, unread, second, rfl, rfl⟩ := done
  obtain ⟨bareText, split, spelled⟩ := readBareItem_sound first
  obtain ⟨paramsText, raw, after, spelledParams, collected, within⟩ := readParameters_sound second
  refine ⟨bareText ++ paramsText, ⟨bare, raw⟩, by simp [split, after],
    .mk _ _ ⟨bare, raw⟩ spelled spelledParams, ?_, within⟩
  rw [collected]
  rfl

theorem itemsText_nil {text : Bytes} (spelled : ItemsText text []) : text = [] := by
  cases spelled
  rfl

/-- An item before a list of items stands apart from it by spaces. -/
theorem itemsText_prepend {text spaces tail : Bytes} {item : RawItem} {items : List RawItem}
    (first : ItemText text item) (blank : Spaces spaces) (some_space : spaces ≠ [])
    (rest : ItemsText tail items) : ItemsText (text ++ spaces ++ tail) (item :: items) := by
  cases items with
  | nil =>
      rw [itemsText_nil rest, List.append_nil]
      exact .last text spaces item first blank
  | cons next items => exact .cons text spaces tail item next items first blank some_space rest

/-- The items that are read are spelled in order and within the limits. -/
theorem readInnerItems_sound {fuel : Nat} {items final : List Item} {input rest : Bytes}
    (done : readInnerItems fuel items input = .ok (final, rest))
    (within : items.length ≤ maxSfvItems) :
    ∃ text raws, input = text ++ rparen :: rest ∧ ItemsText text raws ∧
      final = items ++ raws.map RawItem.value ∧ final.length ≤ maxSfvItems ∧
      ∀ raw ∈ raws, raw.Within := by
  induction fuel generalizing items input with
  | zero => simp [readInnerItems, fail] at done
  | succ fuel ih =>
      cases input with
      | nil => simp [readInnerItems, fail] at done
      | cons c tail =>
          simp only [readInnerItems, fail] at done
          split at done
          · next closing =>
              simp only [beq_iff_eq] at closing
              simp only [Except.ok.injEq, Prod.mk.injEq] at done
              obtain ⟨rfl, rfl⟩ := done
              exact ⟨[], [], by simp [closing], .nil, by simp, within, by simp⟩
          · rw [if_error_eq_ok] at done
            obtain ⟨room, done⟩ := done
            simp only [bind_eq_ok, Prod.exists] at done
            obtain ⟨item, unread, first, done⟩ := done
            obtain ⟨text, raw, split, spelled, rfl, bounded⟩ := readItem_sound first
            have grown : (items ++ [raw.value]).length ≤ maxSfvItems := by
              rw [List.length_append, List.length_singleton]
              omega
            cases unread with
            | nil => simp at done
            | cons d after =>
                simp only at done
                split at done
                · next closing =>
                    simp only [beq_iff_eq] at closing
                    simp only [pure_eq_ok, Prod.mk.injEq] at done
                    obtain ⟨rfl, rfl⟩ := done
                    refine ⟨text, [raw], by rw [split, closing], ?_, by simp, grown,
                      by simpa using bounded⟩
                    simpa using ItemsText.last text [] raw spelled (by simp [Spaces])
                · rw [if_error_eq_ok] at done
                  obtain ⟨space, done⟩ := done
                  simp only [bne_iff_ne, ne_eq, not_not] at space
                  obtain ⟨tailText, raws, tailSplit, tailSpelled, rfl, few, tailBounded⟩ :=
                    ih done grown
                  obtain ⟨spaces, skipped, blank⟩ := skipSp_sound (d :: after)
                  have some_space : spaces ≠ [] := by
                    intro none
                    have fixed : skipSp (d :: after) = skipSp after := by simp [skipSp, space]
                    have shorter := congrArg List.length skipped
                    have bound := (after.dropWhile_suffix fun c => c == sp).length_le
                    rw [none, fixed, List.nil_append, List.length_cons] at shorter
                    change (skipSp after).length ≤ after.length at bound
                    omega
                  refine ⟨text ++ spaces ++ tailText, raw :: raws, ?_,
                    itemsText_prepend spelled blank some_space tailSpelled, by simp, few, ?_⟩
                  · rw [split, skipped, tailSplit]
                    simp
                  · simpa using ⟨bounded, tailBounded⟩

/-- An inner list that is read is spelled and within the limits. -/
theorem readInnerList_sound {input rest : Bytes} {list : InnerList}
    (done : readInnerList input = .ok (list, rest)) :
    ∃ text raw, lparen :: input = text ++ rest ∧ InnerListText text raw ∧ list = raw.value ∧
      raw.Within := by
  simp only [readInnerList, bind_eq_ok, pure_eq_ok, Prod.exists, Prod.mk.injEq] at done
  obtain ⟨items, tail, first, params, unread, second, rfl, rfl⟩ := done
  obtain ⟨spaces, skipped, blank⟩ := skipSp_sound input
  obtain ⟨itemsText, raws, split, spelled, rfl, few, bounded⟩ := readInnerItems_sound first (by simp)
  obtain ⟨paramsText, raw, after, spelledParams, collected, within⟩ := readParameters_sound second
  refine ⟨lparen :: spaces ++ itemsText ++ rparen :: paramsText, ⟨raws, raw⟩, ?_,
    .mk _ _ _ ⟨raws, raw⟩ blank spelled spelledParams, ?_, ?_⟩
  · rw [skipped, split, after]
    simp
  · rw [collected]
    rfl
  · exact ⟨by simpa using few, bounded, within⟩

/-- A member that is read is spelled and within the limits. -/
theorem readMember_sound {depth : Nat} {input rest : Bytes} {member : Member}
    (done : readMember depth input = .ok (member, rest)) :
    ∃ text raw, input = text ++ rest ∧ MemberText text raw ∧ member = raw.value ∧ raw.Within := by
  have single {input : Bytes}
      (done : (readItem input >>= fun out => pure (Member.item out.1, out.2)) = Except.ok (member, rest)) :
      ∃ text raw, input = text ++ rest ∧ MemberText text raw ∧ member = raw.value ∧ raw.Within := by
    simp only [bind_eq_ok, pure_eq_ok, Prod.exists, Prod.mk.injEq] at done
    obtain ⟨item, unread, found, rfl, rfl⟩ := done
    obtain ⟨text, raw, split, spelled, rfl, within⟩ := readItem_sound found
    exact ⟨text, .item raw, split, .item text raw spelled, rfl, within⟩
  simp only [readMember, fail, if_error_eq_ok] at done
  obtain ⟨_, done⟩ := done
  cases input with
  | nil => exact single done
  | cons c tail =>
      simp only [beq_iff_eq] at done
      split at done
      · next opening =>
          simp only [bind_eq_ok, pure_eq_ok, Prod.exists, Prod.mk.injEq] at done
          obtain ⟨list, unread, found, rfl, rfl⟩ := done
          obtain ⟨text, raw, split, spelled, rfl, within⟩ := readInnerList_sound found
          exact ⟨text, .innerList raw, opening ▸ split, .innerList text raw spelled, rfl, within⟩
      · exact single done

/-- A key and the value read after it are an entry of a dictionary. -/
theorem readMemberValue_sound {key input rest : Bytes} {member : Member} (spelled : KeyText key)
    (done : readMemberValue input = .ok (member, rest)) :
    ∃ text raw, key ++ input = text ++ rest ∧ EntryText text (key, raw) ∧ member = raw.value ∧
      raw.Within := by
  have flag {input : Bytes}
      (done : (readParameters input >>= fun out => pure (Member.item ⟨.boolean true, out.1⟩, out.2)) =
        Except.ok (member, rest)) :
      ∃ text raw, key ++ input = text ++ rest ∧ EntryText text (key, raw) ∧ member = raw.value ∧
        raw.Within := by
    simp only [bind_eq_ok, pure_eq_ok, Prod.exists, Prod.mk.injEq] at done
    obtain ⟨params, unread, found, rfl, rfl⟩ := done
    obtain ⟨text, raw, split, spelledParams, rfl, within⟩ := readParameters_sound found
    exact ⟨key ++ text, .item ⟨.boolean true, raw⟩, by simp [split],
      .flag key text raw spelled spelledParams, rfl, within⟩
  cases input with
  | nil => exact flag done
  | cons c tail =>
      simp only [readMemberValue, beq_iff_eq] at done
      split at done
      · next sign =>
          obtain ⟨text, raw, split, spelledMember, rfl, within⟩ := readMember_sound done
          exact ⟨key ++ equals :: text, raw, by simp [sign, split],
            .valued key text raw spelled spelledMember, rfl, within⟩
      · exact flag done

/-- A series ends with white space only. -/
theorem readSeparator_none {input : Bytes} (done : readSeparator input = .ok none) : Ows input := by
  obtain ⟨blank, skipped, ows⟩ := skipOws_sound input
  simp only [readSeparator] at done
  split at done
  · next ended =>
      rw [ended, List.append_nil] at skipped
      exact skipped ▸ ows
  · rw [if_error_eq_ok] at done
    obtain ⟨_, done⟩ := done
    split at done <;> simp at done

/-- A further value follows a comma. -/
theorem readSeparator_some {input more : Bytes} (done : readSeparator input = .ok (some more)) :
    ∃ before after, input = before ++ comma :: after ++ more ∧ Ows before ∧ Ows after ∧ more ≠ [] := by
  obtain ⟨before, skipped, ows⟩ := skipOws_sound input
  simp only [readSeparator] at done
  split at done
  · simp at done
  · next c rest found =>
      simp only [if_error_eq_ok, bne_iff_ne, ne_eq, not_not] at done
      obtain ⟨rfl, done⟩ := done
      obtain ⟨after, skippedAgain, owsAgain⟩ := skipOws_sound rest
      split at done
      · simp at done
      · next d unread foundAgain =>
          simp only [Except.ok.injEq, Option.some.injEq] at done
          subst done
          refine ⟨before, after, ?_, ows, owsAgain, by simp⟩
          rw [skipped, found, skippedAgain, foundAgain]
          simp

/-- The distinct keys are the keys of the pairs. -/
theorem mem_firstKeys {α : Type} (pairs : List (Bytes × α)) (key : Bytes) :
    key ∈ firstKeys pairs ↔ key ∈ pairs.map Prod.fst := by
  simp [firstKeys]

/-- A further pair makes the distinct keys no fewer. -/
theorem firstKeys_length_mono {α : Type} (pairs : List (Bytes × α)) (pair : Bytes × α) :
    (firstKeys pairs).length ≤ (firstKeys (pairs ++ [pair])).length := by
  rw [← collect_keys, ← collect_keys, List.length_map, List.length_map, collect_append]
  exact upsert_length_le _ _ _

/-- A further entry updates the value of a dictionary and its flag. -/
theorem dictionaryValue_append (entries : List (Bytes × RawMember)) (key : Bytes)
    (member : RawMember) :
    dictionaryValue (entries ++ [(key, member)]) =
      ⟨upsert (dictionaryValue entries).entries key member.value,
        (dictionaryValue entries).duplicateKeys ||
          ((dictionaryValue entries).entries.map Prod.fst).contains key⟩ := by
  have keys : ((dictionaryValue entries).entries.map Prod.fst).contains key =
      decide (key ∈ entries.map Prod.fst) := by
    rw [dictionaryValue, ← collect_eq_lastWins, collect_keys, List.contains_eq_mem]
    simp [mem_firstKeys]
  rw [keys]
  simp only [dictionaryValue, Dictionary.mk.injEq]
  refine ⟨?_, ?_⟩
  · rw [List.map_append, ← collect_eq_lastWins, ← collect_eq_lastWins, List.map_singleton,
      collect_append]
  · rw [List.map_append, List.map_singleton, Bool.eq_iff_iff]
    simp only [Bool.not_eq_true', decide_eq_false_iff_not, Bool.or_eq_true, decide_eq_true_eq,
      List.nodup_append, List.nodup_cons, List.not_mem_nil, not_false_eq_true, List.nodup_nil]
    simp only [List.mem_singleton]
    constructor
    · intro repeated
      by_contra fresh
      simp only [not_or, not_not] at fresh
      exact repeated ⟨fresh.1, by simp, fun other inside same found eq => fresh.2 (found ▸ eq ▸ inside)⟩
    · rintro (repeated | found) ⟨distinct, -, apart⟩
      · exact repeated distinct
      · exact apart key found key rfl rfl

/-- A dictionary has one entry for each distinct key. -/
theorem dictionaryValue_length (entries : List (Bytes × RawMember)) :
    (dictionaryValue entries).entries.length = (firstKeys entries).length := by
  have keys := congrArg List.length
    (collect_keys (entries.map fun entry => (entry.1, entry.2.value)))
  rw [List.length_map] at keys
  rw [dictionaryValue, ← collect_eq_lastWins, keys, firstKeys, firstKeys]
  simp [Function.comp_def]

/-- From the value of the entries read so far the loop reaches the value of all entries. -/
theorem readDictionaryLoop_sound {fuel : Nat} {entries : List (Bytes × RawMember)}
    {input rest : Bytes} {final : Dictionary} (nonempty : input ≠ [])
    (done : readDictionaryLoop fuel (dictionaryValue entries) input = .ok (final, rest))
    (within : WithinDictionary entries) :
    ∃ text after raws, rest = [] ∧ input = text ++ after ∧ Ows after ∧
      Separated EntryText text raws ∧ final = dictionaryValue (entries ++ raws) ∧
      WithinDictionary (entries ++ raws) := by
  induction fuel generalizing entries input with
  | zero => simp [readDictionaryLoop, fail] at done
  | succ fuel ih =>
      cases input with
      | nil => exact absurd rfl nonempty
      | cons c tail =>
          simp only [readDictionaryLoop, fail, bind_eq_ok, Prod.exists, if_error_eq_ok] at done
          obtain ⟨key, afterKey, keyed, room, member, unread, valued, separator, read, done⟩ := done
          obtain ⟨spelledKey, keyText⟩ := readKey_sound keyed
          obtain ⟨text, raw, split, spelled, rfl, bounded⟩ := readMemberValue_sound spelledKey valued
          rw [← dictionaryValue_append] at done
          have grown : WithinDictionary (entries ++ [(key, raw)]) := by
            refine ⟨?_, fun entry member => ?_⟩
            rotate_left
            · rcases List.mem_append.mp member with old | new
              · exact within.2 entry old
              · rw [List.mem_singleton.mp new]
                exact bounded
            rw [← dictionaryValue_length, dictionaryValue_append]
            have keys := congrArg List.length (upsert_keys (dictionaryValue entries).entries key raw.value)
            have before := within.1
            rw [← dictionaryValue_length] at before
            simp only [Bool.and_eq_true, Bool.not_eq_true', List.contains_eq_mem,
              decide_eq_false_iff_not, decide_eq_true_eq] at room
            split at keys <;> simp only [List.length_map, List.length_append,
              List.length_singleton] at keys
            · simp only
              omega
            · next fresh =>
                simp only [fresh, not_false_eq_true, true_and] at room
                simp only
                omega
          cases separator with
          | none =>
              simp only [pure_eq_ok, Prod.mk.injEq] at done
              obtain ⟨rfl, rfl⟩ := done
              exact ⟨text, unread, [(key, raw)], rfl, by rw [keyText, split], readSeparator_none read,
                .last text _ spelled, rfl, grown⟩
          | some more =>
              obtain ⟨before, after, comma, ows, owsAgain, more_nonempty⟩ := readSeparator_some read
              obtain ⟨tailText, last, raws, ended, tailSplit, owsLast, separated, value, few⟩ :=
                ih more_nonempty done grown
              refine ⟨text ++ before ++ Ascii.comma :: after ++ tailText, last, (key, raw) :: raws,
                ended, ?_, owsLast, .cons text before after tailText _ raws spelled ows owsAgain separated,
                by simpa using value, by simpa using few⟩
              rw [keyText, split, comma, tailSplit]
              simp

/-- The members that are read are spelled in order and within the limits. -/
theorem readListLoop_sound {fuel : Nat} {members final : List Member} {input rest : Bytes}
    (nonempty : input ≠ []) (done : readListLoop fuel members input = .ok (final, rest)) :
    ∃ text after raws, rest = [] ∧ input = text ++ after ∧ Ows after ∧
      Separated MemberText text raws ∧ final = members ++ raws.map RawMember.value ∧
      final.length ≤ maxSfvItems ∧ ∀ raw ∈ raws, raw.Within := by
  induction fuel generalizing members input with
  | zero => simp [readListLoop, fail] at done
  | succ fuel ih =>
      cases input with
      | nil => exact absurd rfl nonempty
      | cons c tail =>
          simp only [readListLoop, fail, if_error_eq_ok, bind_eq_ok, Prod.exists] at done
          obtain ⟨room, member, unread, valued, separator, read, done⟩ := done
          obtain ⟨text, raw, split, spelled, rfl, bounded⟩ := readMember_sound valued
          cases separator with
          | none =>
              simp only [pure_eq_ok, Prod.mk.injEq] at done
              obtain ⟨rfl, rfl⟩ := done
              refine ⟨text, unread, [raw], rfl, split, readSeparator_none read,
                .last text _ spelled, rfl, ?_, by simpa using bounded⟩
              rw [List.length_append, List.length_singleton]
              omega
          | some more =>
              obtain ⟨before, after, comma, ows, owsAgain, more_nonempty⟩ := readSeparator_some read
              obtain ⟨tailText, last, raws, ended, tailSplit, owsLast, separated, value, few, tailBounded⟩ :=
                ih more_nonempty done
              refine ⟨text ++ before ++ Ascii.comma :: after ++ tailText, last, raw :: raws,
                ended, ?_, owsLast, .cons text before after tailText _ raws spelled ows owsAgain separated,
                by simpa using value, few, by simpa using ⟨bounded, tailBounded⟩⟩
              rw [split, comma, tailSplit]
              simp

end AuthHttpsig.Sfv
