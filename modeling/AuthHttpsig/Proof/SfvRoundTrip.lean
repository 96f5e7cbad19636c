/-
This file shows that the reader undoes the serializer on every value that the reader can return,
so the serialization of an inner list determines the inner list.
-/

import AuthHttpsig.Construction.SfvWrite
import AuthHttpsig.Proof.SfvStandard

namespace AuthHttpsig.Sfv
open Ascii AssocList Rfc8941

def Printable (value : Bytes) : Prop := ∀ c ∈ value, 0x20 ≤ c ∧ c ≤ 0x7e

/-- The reader yields at most 15 digits, printable strings and spelled tokens. -/
def BareItem.WellFormed : BareItem → Prop
  | .integer value => value.natAbs < 10 ^ 15
  | .decimal thousandths => thousandths.natAbs < 10 ^ 15
  | .string value => Printable value
  | .token value => TokenText value
  | .byteSequence _ => True
  | .boolean _ => True

structure Params.WellFormed (params : Params) : Prop where
  spelled : ∀ param ∈ params, KeyText param.1 ∧ param.2.WellFormed
  distinct : (params.map Prod.fst).Nodup
  few : params.length ≤ maxSfvParams

structure Item.WellFormed (item : Item) : Prop where
  bare : item.bare.WellFormed
  params : Params.WellFormed item.params

structure InnerList.WellFormed (list : InnerList) : Prop where
  items : ∀ item ∈ list.items, item.WellFormed
  few : list.items.length ≤ maxSfvItems
  params : Params.WellFormed list.params

def Member.WellFormed : Member → Prop
  | .item single => single.WellFormed
  | .innerList several => several.WellFormed

/-- A further digit is the lowest one. -/
theorem decimalValue_append (ds : Bytes) (c : UInt8) :
    decimalValue (ds ++ [c]) = decimalValue ds * 10 + digitValue c := by
  simp [decimalValue]

/-- The number of digits bounds the value. -/
theorem decimalValue_lt {ds : Bytes} (all : Digits ds) : decimalValue ds < 10 ^ ds.length := by
  induction ds using List.reverseRecOn with
  | nil => simp [decimalValue]
  | append_singleton ds c ih =>
      have small := digitValue_lt ((digit_iff c).mpr (all c (by simp)))
      have front := ih fun d member => all d (by simp [member])
      rw [decimalValue_append, List.length_append, List.length_singleton, Nat.pow_succ]
      omega

/-- A sign does not change the magnitude. -/
theorem signed_natAbs (negative : Bool) (value : Nat) : (signed negative value).natAbs = value := by
  cases negative <;> simp [signed]

/-- A spelled string is printable. -/
theorem chars_printable {text value : Bytes} (spelled : Chars text value) : Printable value := by
  induction spelled with
  | nil => simp [Printable]
  | plain c text value unescaped _ ih =>
      intro d member
      rcases List.mem_cons.mp member with rfl | inside
      · exact ⟨unescaped.1, unescaped.2.1⟩
      · exact ih d inside
  | escaped c text value special _ ih =>
      intro d member
      rcases List.mem_cons.mp member with rfl | inside
      · rcases special with rfl | rfl <;> decide
      · exact ih d inside

/-- A spelled bare item is well formed. -/
theorem bareText_wellFormed {text : Bytes} {value : BareItem} (spelled : BareText text value) :
    value.WellFormed := by
  cases spelled with
  | integer negative ds all _ few =>
      rw [BareItem.WellFormed, signed_natAbs]
      exact (decimalValue_lt all).trans_le (Nat.pow_le_pow_right (by omega) few)
  | decimal negative ds fs all _ few fraction some_fraction few_fraction =>
      rw [BareItem.WellFormed, signed_natAbs]
      have whole := (decimalValue_lt all).trans_le (Nat.pow_le_pow_right (by omega) few)
      have part : decimalValue fs * 10 ^ (3 - fs.length) < 10 ^ 3 := by
        calc decimalValue fs * 10 ^ (3 - fs.length)
            < 10 ^ fs.length * 10 ^ (3 - fs.length) :=
              Nat.mul_lt_mul_of_pos_right (decimalValue_lt fraction) (by positivity)
          _ = 10 ^ 3 := by rw [← Nat.pow_add, Nat.add_sub_cancel' few_fraction]
      omega
  | string text value chars => exact chars_printable chars
  | token text spelled => exact spelled
  | byteSequence => trivial
  | boolean => trivial

/-- Spelled parameters have well-formed keys and values. -/
theorem paramsText_spelled {text : Bytes} {raw : RawParams} (spelled : ParamsText text raw) :
    ∀ param ∈ raw, KeyText param.1 ∧ param.2.WellFormed := by
  induction spelled with
  | nil => simp
  | flag spaces key text params blank spelledKey _ ih =>
      intro param member
      rcases List.mem_cons.mp member with rfl | inside
      · exact ⟨spelledKey, trivial⟩
      · exact ih param inside
  | valued spaces key bare text value params blank spelledKey spelledValue _ ih =>
      intro param member
      rcases List.mem_cons.mp member with rfl | inside
      · exact ⟨spelledKey, bareText_wellFormed spelledValue⟩
      · exact ih param inside

theorem paramsText_wellFormed {text : Bytes} {raw : RawParams} (spelled : ParamsText text raw)
    (within : WithinParams raw) : Params.WellFormed (lastWins raw) where
  spelled param member := paramsText_spelled spelled param (mem_lastWins member)
  distinct := by
    rw [← collect_eq_lastWins]
    exact collect_nodup raw
  few := by
    have length := congrArg List.length (collect_keys raw)
    rw [List.length_map, collect_eq_lastWins] at length
    rw [length]
    exact within

/-- A spelled item within the limits is well formed. -/
theorem itemText_wellFormed {text : Bytes} {raw : RawItem} (spelled : ItemText text raw)
    (within : raw.Within) : raw.value.WellFormed := by
  obtain ⟨bare, params, item, spelledBare, spelledParams⟩ := spelled
  exact ⟨bareText_wellFormed spelledBare, paramsText_wellFormed spelledParams within⟩

theorem itemsText_wellFormed {text : Bytes} {raws : List RawItem} (spelled : ItemsText text raws)
    (within : ∀ raw ∈ raws, raw.Within) : ∀ raw ∈ raws, raw.value.WellFormed := by
  induction spelled with
  | nil => simp
  | last text spaces item spelled => simpa using itemText_wellFormed spelled (within item (by simp))
  | cons text spaces tail item next items spelled _ _ _ ih =>
      intro raw member
      rcases List.mem_cons.mp member with rfl | inside
      · exact itemText_wellFormed spelled (within raw (by simp))
      · exact ih (fun raw member => within raw (List.mem_cons_of_mem _ member)) raw inside

/-- A spelled member within the limits is well formed. -/
theorem memberText_wellFormed {text : Bytes} {raw : RawMember} (spelled : MemberText text raw)
    (within : raw.Within) : raw.value.WellFormed := by
  cases spelled with
  | item item spelled => exact itemText_wellFormed spelled within
  | innerList list spelled =>
      obtain ⟨spaces, items, params, list, _, spelledItems, spelledParams⟩ := spelled
      obtain ⟨few, bounded, withinParams⟩ := within
      refine ⟨?_, by simpa [RawInnerList.value] using few,
        paramsText_wellFormed spelledParams withinParams⟩
      intro item member
      obtain ⟨raw, inside, rfl⟩ := List.mem_map.mp member
      exact itemsText_wellFormed spelledItems bounded raw inside

/-- A spelled entry within the limits is well formed. -/
theorem entryText_wellFormed {text : Bytes} {entry : Bytes × RawMember}
    (spelled : EntryText text entry) (within : entry.2.Within) :
    KeyText entry.1 ∧ entry.2.value.WellFormed := by
  cases spelled with
  | flag key params raw spelledKey spelledParams =>
      exact ⟨spelledKey, ⟨trivial, paramsText_wellFormed spelledParams within⟩⟩
  | valued key text member spelledKey spelledMember =>
      exact ⟨spelledKey, memberText_wellFormed spelledMember within⟩

/-- Each value of a series is spelled. -/
theorem separated_forall {α : Type} {one : Bytes → α → Prop} {text : Bytes} {values : List α}
    (spelled : Separated one text values) : ∀ value ∈ values, ∃ text, one text value := by
  induction spelled with
  | last text value spelled => simpa using ⟨text, spelled⟩
  | cons text before after tail value values spelled _ _ _ ih =>
      intro other member
      rcases List.mem_cons.mp member with rfl | inside
      · exact ⟨text, spelled⟩
      · exact ih other inside

/-- Every entry that the dictionary parser returns is well formed. -/
theorem parseDictionary_wellFormed {input : Bytes} {dict : Dictionary}
    (done : parseDictionary input = .ok dict) :
    ∀ entry ∈ dict.entries, KeyText entry.1 ∧ entry.2.WellFormed := by
  have short : input.length ≤ maxSfvLength := by
    by_contra long
    rw [parseDictionary, parseWith, if_pos (by omega)] at done
    simp at done
  obtain ⟨raws, ⟨before, body, after, raws, _, series, _⟩, within, rfl⟩ :=
    (parseDictionary_iff short dict).mp done
  intro entry member
  obtain ⟨raw, inside, rfl⟩ := List.mem_map.mp (mem_lastWins member)
  cases series with
  | empty => simp at inside
  | mk text after raws separated ows =>
      obtain ⟨text, spelled⟩ := separated_forall separated raw inside
      exact entryText_wellFormed spelled (within.2 raw inside)

/-- Every member that the list parser returns is well formed. -/
theorem parseList_wellFormed {input : Bytes} {members : List Member}
    (done : parseList input = .ok members) : ∀ member ∈ members, member.WellFormed := by
  have short : input.length ≤ maxSfvLength := by
    by_contra long
    rw [parseList, parseWith, if_pos (by omega)] at done
    simp at done
  obtain ⟨raws, ⟨before, body, after, raws, _, series, _⟩, within, rfl⟩ :=
    (parseList_iff short members).mp done
  intro member listed
  obtain ⟨raw, inside, rfl⟩ := List.mem_map.mp listed
  cases series with
  | empty => simp at inside
  | mk text after raws separated ows =>
      obtain ⟨text, spelled⟩ := separated_forall separated raw inside
      exact memberText_wellFormed spelled (within.2 raw inside)

theorem digitOctet_digit (value : Nat) : Digit (digitOctet (value % 10)) :=
  (digit_iff _).mp (isDigit_digitOctet (Nat.mod_lt _ (by omega)))

@[simp] theorem digitValue_mod (value : Nat) : digitValue (digitOctet (value % 10)) = value % 10 :=
  digitValue_digitOctet (Nat.mod_lt _ (by omega))

/-- The digit array holds the decimal notation of the value. -/
theorem writeDigits_spec (room count value : Nat) (written : Bytes) (fits : value < 10 ^ (count + 1))
    (enough : count + 1 ≤ room) :
    ∃ ds, writeDigits room value written = ds ++ written ∧ Digits ds ∧ 1 ≤ ds.length ∧
      ds.length ≤ count + 1 ∧ decimalValue ds = value := by
  induction count generalizing room value written with
  | zero =>
      obtain ⟨room, rfl⟩ : ∃ less, room = less + 1 := ⟨room - 1, by omega⟩
      have none : value / 10 = 0 := by omega
      refine ⟨[digitOctet (value % 10)], by simp [writeDigits, none],
        by simpa [Digits] using digitOctet_digit value, by simp, by simp, ?_⟩
      rw [decimalValue, List.foldl_cons, List.foldl_nil, digitValue_mod]
      omega
  | succ count ih =>
      obtain ⟨room, rfl⟩ : ∃ less, room = less + 1 := ⟨room - 1, by omega⟩
      by_cases none : value / 10 = 0
      · refine ⟨[digitOctet (value % 10)], by simp [writeDigits, none],
          by simpa [Digits] using digitOctet_digit value, by simp, by simp, ?_⟩
        rw [decimalValue, List.foldl_cons, List.foldl_nil, digitValue_mod]
        omega
      · have smaller : value / 10 < 10 ^ (count + 1) := by
          rw [Nat.pow_succ] at fits
          omega
        obtain ⟨ds, shape, all, some_digit, few, sum⟩ :=
          ih room (value / 10) (digitOctet (value % 10) :: written) smaller (by omega)
        refine ⟨ds ++ [digitOctet (value % 10)], ?_, ?_, ?_, ?_, ?_⟩
        · rw [writeDigits, if_neg none, shape]
          simp
        · intro c member
          rcases List.mem_append.mp member with inside | last
          · exact all c inside
          · rw [List.mem_singleton.mp last]
            exact digitOctet_digit value
        · rw [List.length_append]
          omega
        · rw [List.length_append, List.length_singleton]
          omega
        · rw [decimalValue_append, sum, digitValue_mod]
          omega

/-- A written sign is the sign of the number. -/
theorem signed_sign (value : Int) :
    writeSign value = signText (decide (value < 0)) ∧
      signed (decide (value < 0)) value.natAbs = value := by
  by_cases negative : value < 0
  · simp only [writeSign, signText, signed, negative, decide_true, if_true, true_and]
    omega
  · simp only [writeSign, signText, signed, negative, decide_false, if_false, Bool.false_eq_true,
      true_and]
    omega

/-- A written integer spells it. -/
theorem writeInteger_text {value : Int} (wellFormed : value.natAbs < 10 ^ 15) :
    BareText (writeInteger value) (.integer value) := by
  obtain ⟨sign, whole⟩ := signed_sign value
  obtain ⟨ds, shape, all, some_digit, few, sum⟩ :=
    writeDigits_spec 20 14 value.natAbs [] wellFormed (by omega)
  have text := BareText.integer (decide (value < 0)) ds all some_digit few
  rw [sum, whole] at text
  rw [writeInteger, sign, shape, List.append_nil]
  exact text

/-- The fraction without its trailing zeros has the value of the three digits. -/
theorem writeFraction_spec (frac : Nat) (small : frac < 1000) :
    ∃ fs, writeFraction frac = fs ∧ Digits fs ∧ 1 ≤ fs.length ∧ fs.length ≤ 3 ∧
      decimalValue fs * 10 ^ (3 - fs.length) = frac := by
  have hundreds : frac / 100 = frac / 100 % 10 := by omega
  unfold writeFraction
  split
  · next none => exact ⟨[zero], rfl, by simp [Digits, Digit]; decide, by simp, by simp, by rw [none]; rfl⟩
  · split
    · refine ⟨_, rfl, ?_, by simp, by simp, ?_⟩
      · rw [hundreds]
        simp [Digits, digitOctet_digit]
      · rw [hundreds]
        simp only [decimalValue, List.foldl_cons, List.foldl_nil, digitValue_mod, List.length_cons,
          List.length_nil]
        omega
    · split
      · refine ⟨_, rfl, ?_, by simp, by simp, ?_⟩
        · rw [hundreds]
          simp [Digits, digitOctet_digit]
        · rw [hundreds]
          simp only [decimalValue, List.foldl_cons, List.foldl_nil, digitValue_mod, List.length_cons,
            List.length_nil]
          omega
      · refine ⟨_, rfl, ?_, by simp, by simp, ?_⟩
        · rw [hundreds]
          simp [Digits, digitOctet_digit]
        · rw [hundreds]
          simp only [decimalValue, List.foldl_cons, List.foldl_nil, digitValue_mod, List.length_cons,
            List.length_nil]
          omega

/-- A written decimal spells it. -/
theorem writeDecimal_text {value : Int} (wellFormed : value.natAbs < 10 ^ 15) :
    BareText (writeDecimal value) (.decimal value) := by
  obtain ⟨sign, whole⟩ := signed_sign value
  obtain ⟨ds, shape, all, some_digit, few, sum⟩ := writeDigits_spec 20 11
    (value.natAbs / 1000) [] (by omega) (by omega)
  obtain ⟨fs, fraction, rest_all, rest_some, rest_few, rest_sum⟩ :=
    writeFraction_spec (value.natAbs % 1000) (by omega)
  have text := BareText.decimal (decide (value < 0)) ds fs all some_digit few rest_all rest_some rest_few
  have total : value.natAbs / 1000 * 1000 + value.natAbs % 1000 = value.natAbs := by omega
  rw [sum, rest_sum, total, whole] at text
  have unsigned : writeSign ((value.natAbs / 1000 : Nat) : Int) = [] := by
    simp only [writeSign]
    rw [if_neg (by omega)]
  rw [writeDecimal, writeInteger, unsigned, sign, Int.natAbs_natCast, shape, fraction]
  simpa using text

/-- A printable string is spelled by its escaped text. -/
theorem escape_chars {value : Bytes} (printable : Printable value) : Chars (escape value) value := by
  induction value with
  | nil => exact .nil
  | cons c rest ih =>
      have tail := ih fun d member => printable d (by simp [member])
      obtain ⟨low, high⟩ := printable c (by simp)
      unfold escape
      split
      · next special =>
          simp only [Bool.or_eq_true, beq_iff_eq] at special
          exact .escaped c _ rest special tail
      · next plain =>
          simp only [Bool.or_eq_true, beq_iff_eq, not_or] at plain
          exact .plain c _ rest ⟨low, high, plain.1, plain.2⟩ tail

/-- A written byte sequence spells it. -/
theorem writeByteSequence_text (value : Bytes) :
    BareText (writeByteSequence value) (.byteSequence value) := by
  obtain ⟨sextets, pads, shape, small, few, padded, whole, packed⟩ := Base64.encode_shape value
  have inside : ∀ c ∈ sextets.map Base64.encodeChar, Base64Octet c := by
    intro c member
    obtain ⟨sextet, chosen, rfl⟩ := List.mem_map.mp member
    rw [← base64_iff, Base64.decodeChar_encodeChar ⟨sextet, small sextet chosen⟩]
    rfl
  have decoded : Base64.decode (sextets.map Base64.encodeChar) = some value := by
    have all : (sextets.map Base64.encodeChar).takeWhile (· != equals) =
        sextets.map Base64.encodeChar := by
      rw [List.takeWhile_eq_self_iff]
      intro c member
      simpa using base64_ne (inside c member) (by decide)
    rw [Base64.decode, all, Base64.mapM_decodeChar sextets small]
    simp [whole, packed]
  have text := BareText.byteSequence _ pads value inside padded few (by simpa using whole) decoded
  rw [writeByteSequence, shape]
  simpa using text

/-- The serialization of a well-formed bare item is a text of the grammar for it. -/
theorem writeBareItem_text {value : BareItem} (wellFormed : value.WellFormed) :
    BareText (writeBareItem value) value := by
  cases value with
  | integer value => exact writeInteger_text wellFormed
  | decimal value => exact writeDecimal_text wellFormed
  | string value => exact .string _ value (escape_chars wellFormed)
  | token value => exact .token value wellFormed
  | byteSequence value => exact writeByteSequence_text value
  | boolean value => exact .boolean value

/-- Written parameters spell them. -/
theorem writeParams_text {params : Params}
    (spelled : ∀ param ∈ params, KeyText param.1 ∧ param.2.WellFormed) :
    ParamsText (writeParams params) params := by
  induction params with
  | nil => exact .nil
  | cons param rest ih =>
      obtain ⟨key, value⟩ := param
      have tail := ih fun other member => spelled other (by simp [member])
      obtain ⟨spelledKey, wellFormed⟩ := spelled (key, value) (by simp)
      unfold writeParams writeParam
      split
      · next flag =>
          obtain rfl : value = .boolean true := flag
          simpa using ParamsText.flag [] key _ rest (by simp [Spaces]) spelledKey tail
      · simpa using ParamsText.valued [] key _ _ value rest (by simp [Spaces]) spelledKey
          (writeBareItem_text wellFormed) tail

/-- Distinct parameters are their own value. -/
theorem Params.WellFormed.lastWins_eq {params : Params} (wellFormed : Params.WellFormed params) :
    lastWins params = params := by
  rw [← collect_eq_lastWins, collect_of_nodup params wellFormed.distinct]

/-- Well-formed parameters are within the limits. -/
theorem Params.WellFormed.within {params : Params} (wellFormed : Params.WellFormed params) :
    WithinParams params := by
  have length := congrArg List.length (collect_keys params)
  rw [List.length_map, collect_of_nodup params wellFormed.distinct] at length
  rw [WithinParams, ← length]
  exact wellFormed.few

def Item.raw (item : Item) : RawItem := ⟨item.bare, item.params⟩

def InnerList.raw (list : InnerList) : RawInnerList := ⟨list.items.map Item.raw, list.params⟩

/-- The spelling of a well-formed item has its value. -/
theorem Item.raw_value {item : Item} (wellFormed : item.WellFormed) : item.raw.value = item := by
  simp [Item.raw, RawItem.value, wellFormed.params.lastWins_eq]

/-- A written item spells it. -/
theorem writeItem_text {item : Item} (wellFormed : item.WellFormed) :
    ItemText (writeItem item) item.raw :=
  .mk _ _ item.raw (writeBareItem_text wellFormed.bare) (writeParams_text wellFormed.params.spelled)

/-- Written items spell them in order. -/
theorem writeItems_text {items : List Item} (wellFormed : ∀ item ∈ items, item.WellFormed) :
    ItemsText (writeItems items) (items.map Item.raw) := by
  induction items using writeItems.induct with
  | case1 => exact .nil
  | case2 item =>
      simpa [writeItems] using
        ItemsText.last _ [] item.raw (writeItem_text (wellFormed item (by simp))) (by simp [Spaces])
  | case3 item next rest ih =>
      have tail := ih fun other member => wellFormed other (List.mem_cons_of_mem _ member)
      simpa [writeItems] using ItemsText.cons _ [sp] _ item.raw next.raw _
        (writeItem_text (wellFormed item (by simp))) (by simp [Spaces]) (by simp) tail

/-- A written inner list spells it. -/
theorem writeInnerList_text {list : InnerList} (wellFormed : list.WellFormed) :
    InnerListText (writeInnerList list) list.raw := by
  have text := InnerListText.mk [] _ _ list.raw (by simp [Spaces])
    (writeItems_text wellFormed.items) (writeParams_text wellFormed.params.spelled)
  simpa [writeInnerList, InnerList.raw] using text

/-- The spelling of a well-formed inner list has its value. -/
theorem InnerList.raw_value {list : InnerList} (wellFormed : list.WellFormed) :
    list.raw.value = list := by
  have items : list.items.map (RawItem.value ∘ Item.raw) = list.items := by
    refine (List.map_congr_left fun item member => ?_).trans (List.map_id _)
    exact Item.raw_value (wellFormed.items item member)
  simp [InnerList.raw, RawInnerList.value, wellFormed.params.lastWins_eq, items]

/-- A well-formed inner list is within the limits. -/
theorem InnerList.raw_within {list : InnerList} (wellFormed : list.WellFormed) : list.raw.Within := by
  refine ⟨by simpa [InnerList.raw] using wellFormed.few, ?_, wellFormed.params.within⟩
  intro raw member
  obtain ⟨item, inside, rfl⟩ := List.mem_map.mp member
  exact (wellFormed.items item inside).params.within

/-- The reader returns a well-formed item from its serialization. -/
theorem readItem_writeItem {item : Item} (wellFormed : item.WellFormed) :
    readItem (writeItem item) = .ok (item, []) := by
  have read := readItem_complete [] (writeItem_text wellFormed) (by simp [Ended])
    wellFormed.params.within
  rwa [List.append_nil, Item.raw_value wellFormed] at read

/-- The reader returns a well-formed inner list from its serialization. -/
theorem readInnerList_writeInnerList {list : InnerList} (wellFormed : list.WellFormed) :
    ∃ tail, writeInnerList list = lparen :: tail ∧ readInnerList tail = .ok (list, []) := by
  obtain ⟨tail, shape, read⟩ := readInnerList_complete [] (writeInnerList_text wellFormed)
    (by simp [Ended]) (InnerList.raw_within wellFormed)
  rw [List.append_nil, InnerList.raw_value wellFormed] at read
  exact ⟨tail, shape, read⟩

/-- Two well-formed items with one text are equal. -/
theorem writeItem_injective {first second : Item} (wellFormed : first.WellFormed)
    (otherWellFormed : second.WellFormed) (same : writeItem first = writeItem second) :
    first = second := by
  have read := readItem_writeItem wellFormed
  rw [same, readItem_writeItem otherWellFormed] at read
  simpa using read.symm

/-- Two well-formed inner lists with one text are equal. -/
theorem writeInnerList_injective {first second : InnerList} (wellFormed : first.WellFormed)
    (otherWellFormed : second.WellFormed) (same : writeInnerList first = writeInnerList second) :
    first = second := by
  obtain ⟨tail, shape, read⟩ := readInnerList_writeInnerList wellFormed
  obtain ⟨other, otherShape, otherRead⟩ := readInnerList_writeInnerList otherWellFormed
  rw [shape, otherShape, List.cons.injEq] at same
  rw [same.2, otherRead] at read
  simpa using read.symm

/-- The serialization of an item starts with no parenthesis. -/
theorem writeItem_ne_lparen {item : Item} (wellFormed : item.WellFormed) (rest : Bytes) :
    writeItem item ≠ lparen :: rest := by
  obtain ⟨c, tail, shape, apart⟩ := itemText_head (writeItem_text wellFormed)
  rw [shape]
  rintro same
  rw [(List.cons.inj same).1] at apart
  simp at apart

/-- Two well-formed members with one text are equal. -/
theorem writeMember_injective {first second : Member} (wellFormed : first.WellFormed)
    (otherWellFormed : second.WellFormed) (same : writeMember first = writeMember second) :
    first = second := by
  cases first with
  | item single =>
      cases second with
      | item other => rw [writeItem_injective wellFormed otherWellFormed same]
      | innerList other => exact absurd same (writeItem_ne_lparen wellFormed _)
  | innerList several =>
      cases second with
      | item other => exact absurd same.symm (writeItem_ne_lparen otherWellFormed _)
      | innerList other => rw [writeInnerList_injective wellFormed otherWellFormed same]

/-- An item that the parser returns is well formed. -/
theorem parseItem_wellFormed {input : Bytes} {item : Item} (done : parseItem input = .ok item) :
    item.WellFormed := by
  have short : input.length ≤ maxSfvLength := by
    by_contra long
    rw [parseItem, parseWith, if_pos (by omega)] at done
    simp at done
  obtain ⟨raw, ⟨before, text, after, raw, _, spelled, _⟩, within, rfl⟩ := (parseItem_iff short item).mp done
  exact itemText_wellFormed spelled within

/-- A text without spaces around it is a field. -/
theorem fieldText_self {α : Type} {body : Bytes → α → Prop} {text : Bytes} {value : α}
    (spelled : body text value) : FieldText body text value := by
  have field := FieldText.mk [] text [] value (by simp [Spaces]) spelled (by simp [Spaces])
  rwa [List.nil_append, List.append_nil] at field

/-- A written item is parsed back. -/
theorem parseItem_writeItem {item : Item} (wellFormed : item.WellFormed)
    (short : (writeItem item).length ≤ maxSfvLength) : parseItem (writeItem item) = .ok item := by
  apply (parseItem_iff short item).mpr
  exact ⟨item.raw, fieldText_self (writeItem_text wellFormed), wellFormed.params.within,
    (Item.raw_value wellFormed).symm⟩

def Member.raw : Member → RawMember
  | .item single => .item single.raw
  | .innerList several => .innerList several.raw

/-- The spelling of a well-formed member has its value. -/
theorem Member.raw_value {member : Member} (wellFormed : member.WellFormed) :
    member.raw.value = member := by
  cases member with
  | item single => rw [Member.raw, RawMember.value, Item.raw_value wellFormed]
  | innerList several => rw [Member.raw, RawMember.value, InnerList.raw_value wellFormed]

/-- A well-formed member is within the limits. -/
theorem Member.raw_within {member : Member} (wellFormed : member.WellFormed) : member.raw.Within := by
  cases member with
  | item single => exact wellFormed.params.within
  | innerList several => exact InnerList.raw_within wellFormed

/-- A written member spells it. -/
theorem writeMember_text {member : Member} (wellFormed : member.WellFormed) :
    MemberText (writeMember member) member.raw := by
  cases member with
  | item single => exact .item _ _ (writeItem_text wellFormed)
  | innerList several => exact .innerList _ _ (writeInnerList_text wellFormed)

/-- A serialized member reads back as the only entry of a dictionary. -/
theorem parseDictionary_writeMember {label : Bytes} {member : Member} (spelled : KeyText label)
    (wellFormed : member.WellFormed) (short : (label ++ equals :: writeMember member).length ≤ maxSfvLength) :
    parseDictionary (label ++ equals :: writeMember member) = .ok ⟨[(label, member)], false⟩ := by
  have entry := EntryText.valued label _ member.raw spelled (writeMember_text wellFormed)
  have series := SeriesText.mk _ [] _ (.last _ _ entry) (by simp [Ows])
  rw [List.append_nil] at series
  apply (parseDictionary_iff short _).mpr
  refine ⟨_, fieldText_self series, ⟨by simp [firstKeys, maxSfvItems], ?_⟩, ?_⟩
  · simpa using Member.raw_within wellFormed
  · rw [dictionaryValue, ← collect_eq_lastWins, List.map_singleton, collect_of_nodup _ (by simp),
      Member.raw_value wellFormed]
    simp

/-- A parsed item, or a parsed inner list under any label, survives serialization and a second parse. -/
theorem parse_serialize_inverse (input : Bytes) :
    (∀ item, parseItem input = .ok item → (writeItem item).length ≤ maxSfvLength →
      parseItem (writeItem item) = .ok item ∧
        (parseItem (writeItem item)).map writeItem = .ok (writeItem item)) ∧
    (∀ dict key list, parseDictionary input = .ok dict → (key, .innerList list) ∈ dict.entries →
      ∀ label, KeyText label → (label ++ equals :: writeInnerList list).length ≤ maxSfvLength →
        parseDictionary (label ++ equals :: writeInnerList list) = .ok ⟨[(label, .innerList list)], false⟩ ∧
          (parseDictionary (label ++ equals :: writeInnerList list)).map
              (fun again => again.entries.map fun entry => (entry.1, writeMember entry.2)) =
            .ok [(label, writeInnerList list)]) := by
  constructor
  · intro item parsed short
    have again := parseItem_writeItem (parseItem_wellFormed parsed) short
    exact ⟨again, by rw [again]; rfl⟩
  · intro dict key list parsed member label spelled short
    have wellFormed := (parseDictionary_wellFormed parsed _ member).2
    have again : parseDictionary (label ++ equals :: writeInnerList list) = _ :=
      parseDictionary_writeMember spelled wellFormed short
    exact ⟨again, by rw [again]; rfl⟩

/-- This inner list holds an escape, octets, a false parameter and a negative decimal. -/
def mixedList : InnerList :=
  ⟨[⟨.string (ascii "a\"b"), []⟩,
    ⟨.byteSequence [1, 2], [(ascii "x", .boolean true), (ascii "y", .boolean false)]⟩],
    [(ascii "d", .decimal (-500)), (ascii "t", .token (ascii "*t"))]⟩

theorem parse_serialize_inverse_mixed :
    parseDictionary (ascii "k" ++ equals :: writeInnerList mixedList) =
      .ok ⟨[(ascii "k", .innerList mixedList)], false⟩ := by
  have parsed : parseDictionary (ascii "sig=(  \"a\\\"b\"   :AQI=:;x=1; y=?0;x);d=-0.500; t=*t") =
      .ok ⟨[(ascii "sig", .innerList mixedList)], false⟩ := by decide +kernel
  have spelled : KeyText [0x6b] := .mk 0x6b [] (Or.inl ⟨by decide, by decide⟩) (by simp)
  have short : (ascii "k" ++ equals :: writeInnerList mixedList).length ≤ maxSfvLength := by
    decide +kernel
  exact ((parse_serialize_inverse _).2 _ _ _ parsed List.mem_cons_self _ spelled short).1

/-- Two printable texts make a printable one. -/
theorem printable_append {text more : Bytes} (printable : Printable text)
    (printableMore : Printable more) : Printable (text ++ more) := by
  intro c member
  rcases List.mem_append.mp member with first | second
  · exact printable c first
  · exact printableMore c second

theorem printable_cons {c : UInt8} {text : Bytes} (printable : 0x20 ≤ c ∧ c ≤ 0x7e)
    (printableMore : Printable text) : Printable (c :: text) := by
  intro d member
  rcases List.mem_cons.mp member with rfl | inside
  · exact printable
  · exact printableMore d inside

/-- A printable text has no line feed. -/
theorem printable_lineFree {text : Bytes} (printable : Printable text) : lf ∉ text := by
  intro member
  exact absurd (printable lf member).1 (by decide)

theorem spaces_printable {text : Bytes} (blank : Spaces text) : Printable text := by
  intro c member
  rw [blank c member]
  decide

theorem digits_printable {ds : Bytes} (all : Digits ds) : Printable ds := by
  intro c member
  have digit := (digit_iff c).mpr (all c member)
  grind [isDigit]

/-- A key is printable. -/
theorem keyText_printable {key : Bytes} (spelled : KeyText key) : Printable key := by
  obtain ⟨c, rest, start, inside⟩ := spelled
  apply printable_cons
  · have first := (keyStart_iff c).mpr start
    grind [isLower]
  · intro d member
    have next := (keyRest_iff d).mpr (inside d member)
    grind [isKeyChar, isLower, isDigit]

theorem isTokenChar_printable {c : UInt8} (inside : isTokenChar c = true) : 0x20 ≤ c ∧ c ≤ 0x7e := by
  have punctuation : (ascii "!#$%&'*+-.^_`|~").all (fun d => 0x20 ≤ d && d ≤ 0x7e) = true := by decide
  simp only [List.all_eq_true, Bool.and_eq_true, decide_eq_true_eq] at punctuation
  simp only [isTokenChar, isTchar, Bool.or_eq_true, List.contains_iff_mem] at inside
  grind [isAlpha, isLower, isUpper, isDigit]

theorem tokenText_printable {text : Bytes} (spelled : TokenText text) : Printable text := by
  obtain ⟨c, rest, start, inside⟩ := spelled
  apply printable_cons
  · have first := (tokenStart_iff c).mpr start
    grind [isAlpha, isLower, isUpper]
  · intro d member
    have next := (tokenRest_iff d).mpr (inside d member)
    exact isTokenChar_printable next

/-- The spelling of a string is printable. -/
theorem chars_text_printable {text value : Bytes} (spelled : Chars text value) : Printable text := by
  induction spelled with
  | nil => simp [Printable]
  | plain c text value unescaped _ ih => exact printable_cons ⟨unescaped.1, unescaped.2.1⟩ ih
  | escaped c text value special _ ih =>
      refine printable_cons (by decide) (printable_cons ?_ ih)
      rcases special with rfl | rfl <;> decide

theorem signText_printable (negative : Bool) : Printable (signText negative) := by
  cases negative
  · simp [signText, Printable]
  · exact printable_cons (by decide) (by simp [Printable])

/-- The spelling of a bare item is printable. -/
theorem bareText_printable {text : Bytes} {value : BareItem} (spelled : BareText text value) :
    Printable text := by
  cases spelled with
  | integer negative ds all =>
      exact printable_append (signText_printable negative) (digits_printable all)
  | decimal negative ds fs all _ _ fraction =>
      exact printable_append (printable_append (signText_printable negative) (digits_printable all))
        (printable_cons (by decide) (digits_printable fraction))
  | string text value chars =>
      exact printable_append (printable_cons (by decide) (chars_text_printable chars))
        (printable_cons (by decide) (by simp [Printable]))
  | token text spelled => exact tokenText_printable spelled
  | byteSequence body pads value inside padded =>
      have bodyPrintable : Printable body := by
        intro c member
        have sextet := (base64_iff c).mpr (inside c member)
        grind [Base64.decodeChar, isLower, isUpper, isDigit]
      have padsPrintable : Printable pads := by
        intro c member
        rw [padded c member]
        decide
      exact printable_append (printable_append (printable_cons (by decide) bodyPrintable) padsPrintable)
        (printable_cons (by decide) (by simp [Printable]))
  | boolean value =>
      refine printable_cons (by decide) (printable_cons ?_ (by simp [Printable]))
      cases value <;> decide

/-- The spelling of parameters is printable. -/
theorem paramsText_printable {text : Bytes} {raw : RawParams} (spelled : ParamsText text raw) :
    Printable text := by
  induction spelled with
  | nil => simp [Printable]
  | flag spaces key text params blank spelledKey _ ih =>
      exact printable_append (printable_append (printable_cons (by decide) (spaces_printable blank))
        (keyText_printable spelledKey)) ih
  | valued spaces key bare text value params blank spelledKey spelledValue _ ih =>
      exact printable_append (printable_append (printable_append (printable_cons (by decide)
        (spaces_printable blank)) (keyText_printable spelledKey)) (printable_cons (by decide)
          (bareText_printable spelledValue))) ih

/-- The spelling of an item is printable. -/
theorem itemText_printable {text : Bytes} {raw : RawItem} (spelled : ItemText text raw) :
    Printable text := by
  obtain ⟨bare, params, item, spelledBare, spelledParams⟩ := spelled
  exact printable_append (bareText_printable spelledBare) (paramsText_printable spelledParams)

/-- The spelling of items is printable. -/
theorem itemsText_printable {text : Bytes} {raws : List RawItem} (spelled : ItemsText text raws) :
    Printable text := by
  induction spelled with
  | nil => simp [Printable]
  | last text spaces item spelled blank =>
      exact printable_append (itemText_printable spelled) (spaces_printable blank)
  | cons text spaces tail item next items spelled blank _ _ ih =>
      exact printable_append (printable_append (itemText_printable spelled) (spaces_printable blank)) ih

/-- The spelling of an inner list is printable. -/
theorem innerListText_printable {text : Bytes} {raw : RawInnerList} (spelled : InnerListText text raw) :
    Printable text := by
  obtain ⟨spaces, items, params, list, blank, spelledItems, spelledParams⟩ := spelled
  exact printable_append (printable_append (printable_cons (by decide) (spaces_printable blank))
    (itemsText_printable spelledItems)) (printable_cons (by decide) (paramsText_printable spelledParams))

/-- No serialization of a well-formed value holds a line feed. -/
theorem writeMember_lineFree (member : Member) (wellFormed : member.WellFormed) :
    lf ∉ writeMember member := by
  cases member with
  | item item => exact printable_lineFree (itemText_printable (writeItem_text wellFormed))
  | innerList list => exact printable_lineFree (innerListText_printable (writeInnerList_text wellFormed))

end AuthHttpsig.Sfv
