/-
This file states the grammar of RFC 8941 as relations between texts and values. It names no
function of the reader. A raw value keeps every repetition of a key.
-/

import AuthHttpsig.Construction.SfvRead

namespace AuthHttpsig.Rfc8941
open Ascii AssocList Sfv

def Lcalpha (c : UInt8) : Prop := 0x61 ≤ c ∧ c ≤ 0x7a
def Ucalpha (c : UInt8) : Prop := 0x41 ≤ c ∧ c ≤ 0x5a
def Alpha (c : UInt8) : Prop := Lcalpha c ∨ Ucalpha c
def Digit (c : UInt8) : Prop := 0x30 ≤ c ∧ c ≤ 0x39
def Tchar (c : UInt8) : Prop := Alpha c ∨ Digit c ∨ c ∈ ascii "!#$%&'*+-.^_`|~"

def KeyStart (c : UInt8) : Prop := Lcalpha c ∨ c = asterisk
def KeyRest (c : UInt8) : Prop := Lcalpha c ∨ Digit c ∨ c ∈ ascii "_-.*"
def TokenStart (c : UInt8) : Prop := Alpha c ∨ c = asterisk
def TokenRest (c : UInt8) : Prop := Tchar c ∨ c = colon ∨ c = slash
def Base64Octet (c : UInt8) : Prop := Alpha c ∨ Digit c ∨ c = plus ∨ c = slash

/-- A printable octet other than the quote and the backslash. -/
def Unescaped (c : UInt8) : Prop := 0x20 ≤ c ∧ c ≤ 0x7e ∧ c ≠ dquote ∧ c ≠ backslash

def Spaces (text : Bytes) : Prop := ∀ c ∈ text, c = sp

def Ows (text : Bytes) : Prop := ∀ c ∈ text, c = sp ∨ c = htab

def Digits (text : Bytes) : Prop := ∀ c ∈ text, Digit c

def decimalValue (text : Bytes) : Nat := text.foldl (fun value c => value * 10 + digitValue c) 0

inductive KeyText : Bytes → Prop where
  | mk (c : UInt8) (rest : Bytes) : KeyStart c → (∀ d ∈ rest, KeyRest d) → KeyText (c :: rest)

inductive TokenText : Bytes → Prop where
  | mk (c : UInt8) (rest : Bytes) : TokenStart c → (∀ d ∈ rest, TokenRest d) → TokenText (c :: rest)

/-- The characters of a string stand with their escapes in the text. -/
inductive Chars : Bytes → Bytes → Prop where
  | nil : Chars [] []
  | plain (c : UInt8) (text value : Bytes) :
      Unescaped c → Chars text value → Chars (c :: text) (c :: value)
  | escaped (c : UInt8) (text value : Bytes) :
      c = dquote ∨ c = backslash → Chars text value → Chars (backslash :: c :: text) (c :: value)

def signText (negative : Bool) : Bytes := if negative then [minus] else []

inductive BareText : Bytes → BareItem → Prop where
  | integer (negative : Bool) (ds : Bytes) : Digits ds → 1 ≤ ds.length → ds.length ≤ 15 →
      BareText (signText negative ++ ds) (.integer (signed negative (decimalValue ds)))
  | decimal (negative : Bool) (ds fs : Bytes) : Digits ds → 1 ≤ ds.length → ds.length ≤ 12 →
      Digits fs → 1 ≤ fs.length → fs.length ≤ 3 →
      BareText (signText negative ++ ds ++ dot :: fs)
        (.decimal (signed negative
          (decimalValue ds * 1000 + decimalValue fs * 10 ^ (3 - fs.length))))
  | string (text value : Bytes) : Chars text value →
      BareText (dquote :: text ++ [dquote]) (.string value)
  | token (text : Bytes) : TokenText text → BareText text (.token text)
  | byteSequence (body pads value : Bytes) : (∀ c ∈ body, Base64Octet c) →
      (∀ c ∈ pads, c = equals) → pads.length ≤ 2 → body.length % 4 ≠ 1 →
      Base64.decode body = some value →
      BareText (colon :: body ++ pads ++ [colon]) (.byteSequence value)
  | boolean (value : Bool) : BareText [question, if value then one else zero] (.boolean value)

abbrev RawParams := List (Bytes × BareItem)

inductive ParamsText : Bytes → RawParams → Prop where
  | nil : ParamsText [] []
  | flag (spaces key text : Bytes) (params : RawParams) : Spaces spaces → KeyText key →
      ParamsText text params →
      ParamsText (semicolon :: spaces ++ key ++ text) ((key, .boolean true) :: params)
  | valued (spaces key bare text : Bytes) (value : BareItem) (params : RawParams) :
      Spaces spaces → KeyText key → BareText bare value → ParamsText text params →
      ParamsText (semicolon :: spaces ++ key ++ equals :: bare ++ text) ((key, value) :: params)

structure RawItem where
  bare : BareItem
  params : RawParams

structure RawInnerList where
  items : List RawItem
  params : RawParams

inductive RawMember where
  | item (item : RawItem)
  | innerList (list : RawInnerList)

inductive ItemText : Bytes → RawItem → Prop where
  | mk (bare params : Bytes) (item : RawItem) :
      BareText bare item.bare → ParamsText params item.params → ItemText (bare ++ params) item

/-- The items of an inner list stand apart by spaces, and spaces may follow the last one. -/
inductive ItemsText : Bytes → List RawItem → Prop where
  | nil : ItemsText [] []
  | last (text spaces : Bytes) (item : RawItem) : ItemText text item → Spaces spaces →
      ItemsText (text ++ spaces) [item]
  | cons (text spaces tail : Bytes) (item next : RawItem) (items : List RawItem) :
      ItemText text item → Spaces spaces → spaces ≠ [] → ItemsText tail (next :: items) →
      ItemsText (text ++ spaces ++ tail) (item :: next :: items)

inductive InnerListText : Bytes → RawInnerList → Prop where
  | mk (spaces items params : Bytes) (list : RawInnerList) : Spaces spaces →
      ItemsText items list.items → ParamsText params list.params →
      InnerListText (lparen :: spaces ++ items ++ rparen :: params) list

inductive MemberText : Bytes → RawMember → Prop where
  | item (text : Bytes) (item : RawItem) : ItemText text item → MemberText text (.item item)
  | innerList (text : Bytes) (list : RawInnerList) :
      InnerListText text list → MemberText text (.innerList list)

inductive EntryText : Bytes → Bytes × RawMember → Prop where
  | flag (key params : Bytes) (raw : RawParams) : KeyText key → ParamsText params raw →
      EntryText (key ++ params) (key, .item ⟨.boolean true, raw⟩)
  | valued (key text : Bytes) (member : RawMember) : KeyText key → MemberText text member →
      EntryText (key ++ equals :: text) (key, member)

/-- One or more texts stand apart by a comma with optional white space around it. -/
inductive Separated {α : Type} (one : Bytes → α → Prop) : Bytes → List α → Prop where
  | last (text : Bytes) (value : α) : one text value → Separated one text [value]
  | cons (text before after tail : Bytes) (value : α) (values : List α) : one text value →
      Ows before → Ows after → Separated one tail values →
      Separated one (text ++ before ++ comma :: after ++ tail) (value :: values)

/-- The parsing algorithm drops spaces at both ends of a field. -/
inductive FieldText {α : Type} (body : Bytes → α → Prop) : Bytes → α → Prop where
  | mk (before text after : Bytes) (value : α) : Spaces before → body text value → Spaces after →
      FieldText body (before ++ text ++ after) value

/-- A list or dictionary body may be empty, and white space may follow its last member. -/
inductive SeriesText {α : Type} (one : Bytes → α → Prop) : Bytes → List α → Prop where
  | empty : SeriesText one [] []
  | mk (text after : Bytes) (values : List α) : Separated one text values → Ows after →
      SeriesText one (text ++ after) values

def RawItem.value (item : RawItem) : Item := ⟨item.bare, lastWins item.params⟩

def RawInnerList.value (list : RawInnerList) : InnerList :=
  ⟨list.items.map RawItem.value, lastWins list.params⟩

def RawMember.value : RawMember → Member
  | .item single => .item single.value
  | .innerList several => .innerList several.value

/-- The flag says that some key occurs more than once. -/
def dictionaryValue (entries : List (Bytes × RawMember)) : Dictionary where
  entries := lastWins (entries.map fun entry => (entry.1, entry.2.value))
  duplicateKeys := !decide ((entries.map Prod.fst).Nodup)

def WithinParams (params : RawParams) : Prop := (firstKeys params).length ≤ maxSfvParams

def RawItem.Within (item : RawItem) : Prop := WithinParams item.params

def RawInnerList.Within (list : RawInnerList) : Prop :=
  list.items.length ≤ maxSfvItems ∧ (∀ item ∈ list.items, item.Within) ∧ WithinParams list.params

def RawMember.Within : RawMember → Prop
  | .item single => single.Within
  | .innerList several => several.Within

def WithinList (members : List RawMember) : Prop :=
  members.length ≤ maxSfvItems ∧ ∀ member ∈ members, member.Within

def WithinDictionary (entries : List (Bytes × RawMember)) : Prop :=
  (firstKeys entries).length ≤ maxSfvItems ∧ ∀ entry ∈ entries, entry.2.Within

end AuthHttpsig.Rfc8941
