/-
This file joins both directions: the reader accepts exactly the texts of RFC 8941 that stay
within its limits, and it returns the value of the parsing algorithm.
-/

import AuthHttpsig.Proof.SfvComplete

namespace AuthHttpsig.Sfv
open Ascii AssocList Rfc8941

/-- A text of spaces is skipped whole. -/
theorem skipSp_eq_nil {text : Bytes} : skipSp text = [] ↔ Spaces text := by
  simp [skipSp, Spaces, List.dropWhile_eq_nil_iff]

/-- Spaces are white space. -/
theorem spaces_ows {text : Bytes} (blank : Spaces text) : Ows text :=
  fun c member => .inl (blank c member)

/-- White space after white space is white space. -/
theorem ows_append {text more : Bytes} (ows : Ows text) (owsMore : Ows more) : Ows (text ++ more) := by
  intro c member
  rcases List.mem_append.mp member with first | second
  · exact ows c first
  · exact owsMore c second

/-- A parse reads one value with spaces around it. -/
theorem parseWith_eq_ok {α : Type} {reader : Bytes → Except ReadError (α × Bytes)} {input : Bytes}
    (short : input.length ≤ maxSfvLength) {value : α} :
    parseWith reader input = .ok value ↔
      ∃ rest, reader (skipSp input) = .ok (value, rest) ∧ Spaces rest := by
  rw [parseWith, if_neg (by omega)]
  cases read : reader (skipSp input) with
  | error failure => simp
  | ok pair =>
      obtain ⟨found, rest⟩ := pair
      simp only [Except.ok.injEq, Prod.mk.injEq]
      constructor
      · intro done
        split at done
        · next ended =>
            simp only [Except.ok.injEq] at done
            exact ⟨rest, ⟨done, rfl⟩, skipSp_eq_nil.mp ended⟩
        · simp at done
      · rintro ⟨_, ⟨rfl, rfl⟩, blank⟩
        rw [skipSp_eq_nil.mpr blank]

/-- The item parser accepts exactly the spelled items within the limits. -/
theorem parseItem_iff {input : Bytes} (short : input.length ≤ maxSfvLength) (item : Item) :
    parseItem input = .ok item ↔
      ∃ raw, FieldText ItemText input raw ∧ raw.Within ∧ item = raw.value := by
  rw [parseItem, parseWith_eq_ok short]
  constructor
  · rintro ⟨rest, read, blank⟩
    obtain ⟨spaces, skipped, leading⟩ := skipSp_sound input
    obtain ⟨text, raw, split, spelled, value, within⟩ := readItem_sound read
    refine ⟨raw, ?_, within, value⟩
    rw [skipped, split, ← List.append_assoc]
    exact .mk spaces text rest raw leading spelled blank
  · rintro ⟨raw, ⟨before, text, after, raw, leading, spelled, blank⟩, within, rfl⟩
    refine ⟨after, ?_, blank⟩
    obtain ⟨c, tail, shape, apart⟩ := itemText_head spelled
    rw [List.append_assoc, skipSp_complete leading]
    · exact readItem_complete _ spelled (ows_ended (spaces_ows blank)) within
    · rw [shape]
      simp only [List.cons_append, List.head?_cons, Option.mem_some_iff]
      rintro _ rfl
      simp_all

/-- A loop over separated members decides the texts of a list or dictionary field. -/
theorem parseWith_series {α β : Type} (one : Bytes → α → Prop) (within : List α → Prop)
    (value : List α → β) {reader : Bytes → Except ReadError (β × Bytes)}
    (starts : ∀ text member, one text member → ∃ c tail, text = c :: tail ∧ c ∉ [sp, htab])
    (empty : reader [] = .ok (value [], [])) (few : within [])
    (sound : ∀ input result rest, input ≠ [] → reader input = .ok (result, rest) →
      ∃ text after raws, rest = [] ∧ input = text ++ after ∧ Ows after ∧ Separated one text raws ∧
        result = value raws ∧ within raws)
    (complete : ∀ text after raws, Separated one text raws → Ows after → within raws →
      reader (text ++ after) = .ok (value raws, []))
    {input : Bytes} (short : input.length ≤ maxSfvLength) (result : β) :
    parseWith reader input = .ok result ↔
      ∃ raws, FieldText (SeriesText one) input raws ∧ within raws ∧ result = value raws := by
  rw [parseWith_eq_ok short]
  constructor
  · rintro ⟨rest, read, blank⟩
    obtain ⟨spaces, skipped, leading⟩ := skipSp_sound input
    by_cases none : skipSp input = []
    · rw [none, empty] at read
      simp only [Except.ok.injEq, Prod.mk.injEq] at read
      refine ⟨[], ?_, few, read.1.symm⟩
      rw [skipped, none]
      have field : FieldText (SeriesText one) (spaces ++ [] ++ []) [] :=
        .mk spaces [] [] [] leading .empty (by simp [Spaces])
      simpa using field
    · obtain ⟨text, after, raws, rfl, split, ows, separated, rfl, bounded⟩ :=
        sound _ _ _ none read
      refine ⟨raws, ?_, bounded, rfl⟩
      rw [skipped, split]
      have field : FieldText (SeriesText one) (spaces ++ (text ++ after) ++ []) raws :=
        .mk spaces (text ++ after) [] raws leading (.mk text after raws separated ows) (by simp [Spaces])
      simpa using field
  · rintro ⟨raws, ⟨before, body, after, raws, leading, spelled, blank⟩, bounded, rfl⟩
    refine ⟨[], ?_, by simp [Spaces]⟩
    cases spelled with
    | empty =>
        have spaces : Spaces (before ++ [] ++ after) := by
          intro c member
          simp only [List.append_nil, List.mem_append] at member
          exact member.elim (leading c) (blank c)
        rw [skipSp_eq_nil.mpr spaces, empty]
    | mk text ows_after raws separated ows =>
        obtain ⟨c, tail, shape, apart⟩ := separated_head starts separated (ows_after ++ after)
        have split : before ++ (text ++ ows_after) ++ after = before ++ (text ++ (ows_after ++ after)) := by
          simp
        rw [split, skipSp_complete leading]
        · exact complete text _ raws separated (ows_append ows (spaces_ows blank)) bounded
        · rw [shape]
          simp only [List.head?_cons, Option.mem_some_iff]
          rintro _ rfl
          simp_all

/-- The list parser accepts exactly the spelled lists within the limits. -/
theorem parseList_iff {input : Bytes} (short : input.length ≤ maxSfvLength) (list : List Member) :
    parseList input = .ok list ↔ ∃ raws, FieldText (SeriesText MemberText) input raws ∧
      WithinList raws ∧ list = raws.map RawMember.value := by
  apply parseWith_series MemberText WithinList (fun raws => raws.map RawMember.value)
    (fun _ _ => memberText_head) rfl (by simp [WithinList]) ?_ ?_ short
  · intro input result rest nonempty read
    obtain ⟨text, after, raws, ended, split, ows, separated, value, few, within⟩ :=
      readListLoop_sound nonempty read
    rw [List.nil_append] at value
    rw [value, List.length_map] at few
    exact ⟨text, after, raws, ended, split, ows, separated, value, few, within⟩
  · intro text after raws separated ows within
    have read := readListLoop_complete [] separated ows (Nat.lt_succ_self _)
      (by simpa using within.1) within.2
    simpa using read

/-- The dictionary parser accepts exactly the spelled dictionaries within the limits. -/
theorem parseDictionary_iff {input : Bytes} (short : input.length ≤ maxSfvLength)
    (dict : Dictionary) :
    parseDictionary input = .ok dict ↔ ∃ raws, FieldText (SeriesText EntryText) input raws ∧
      WithinDictionary raws ∧ dict = dictionaryValue raws := by
  have start : (⟨[], false⟩ : Dictionary) = dictionaryValue [] := rfl
  unfold parseDictionary
  rw [start]
  apply parseWith_series EntryText WithinDictionary dictionaryValue
    (fun _ _ => entryText_head) rfl (by simp [WithinDictionary, firstKeys]) ?_ ?_ short
  · intro input result rest nonempty read
    simpa using readDictionaryLoop_sound nonempty read (by simp [WithinDictionary, firstKeys])
  · intro text after raws separated ows within
    simpa using readDictionaryLoop_complete [] separated ows (Nat.lt_succ_self _)
      (by simpa using within)

/-- The three entry points accept exactly the fields of the grammar within the limits. -/
theorem parse_implements_rfc8941 (input : Bytes) (short : input.length ≤ maxSfvLength) :
    (∀ item, parseItem input = .ok item ↔
      ∃ raw, FieldText ItemText input raw ∧ raw.Within ∧ item = raw.value) ∧
    (∀ list, parseList input = .ok list ↔ ∃ raws, FieldText (SeriesText MemberText) input raws ∧
      WithinList raws ∧ list = raws.map RawMember.value) ∧
    (∀ dict, parseDictionary input = .ok dict ↔ ∃ raws, FieldText (SeriesText EntryText) input raws ∧
      WithinDictionary raws ∧ dict = dictionaryValue raws) :=
  ⟨parseItem_iff short, parseList_iff short, parseDictionary_iff short⟩

theorem parse_implements_rfc8941_repeated_key :
    ∃ raws, FieldText (SeriesText EntryText) (ascii "a=1, b, a=2") raws ∧ WithinDictionary raws ∧
      (⟨[(ascii "a", .item ⟨.integer 2, []⟩), (ascii "b", .item ⟨.boolean true, []⟩)], true⟩ :
        Dictionary) = dictionaryValue raws :=
  ((parse_implements_rfc8941 (ascii "a=1, b, a=2") (by decide)).2.2 _).mp (by decide +kernel)

end AuthHttpsig.Sfv
