/-
This file gives the structured-field reader of `ngx_auth_httpsig_sfv.c`. The reading position is
the unread input, so a read returns its value with the input that is left.
-/

import AuthHttpsig.Library.AssocList
import AuthHttpsig.Construction.Base64

namespace AuthHttpsig.Sfv
open Ascii AssocList

def maxSfvLength : Nat := 8192
def maxSfvItems : Nat := 64
def maxSfvDepth : Nat := 4
def maxSfvParams : Nat := 16

/-- A decimal holds its value scaled by 1000. -/
inductive BareItem where
  | integer (value : Int)
  | decimal (thousandths : Int)
  | string (value : Bytes)
  | token (value : Bytes)
  | byteSequence (value : Bytes)
  | boolean (value : Bool)
  deriving DecidableEq, Repr

abbrev Params := List (Bytes × BareItem)

structure Item where
  bare : BareItem
  params : Params
  deriving DecidableEq, Repr

structure InnerList where
  items : List Item
  params : Params
  deriving DecidableEq, Repr

inductive Member where
  | item (item : Item)
  | innerList (list : InnerList)
  deriving DecidableEq, Repr

/-- The flag records that some key occurred again and overwrote its value. -/
structure Dictionary where
  entries : List (Bytes × Member)
  duplicateKeys : Bool
  deriving DecidableEq, Repr

/-- A failed read keeps the unread input at the failure. -/
structure ReadError where
  unread : Bytes
  reason : String
  deriving DecidableEq, Repr

structure ParseError where
  offset : Nat
  reason : String
  deriving DecidableEq, Repr

def fail {α : Type} (unread : Bytes) (reason : String) : Except ReadError (α × Bytes) := .error ⟨unread, reason⟩

def skipOws (input : Bytes) : Bytes := input.dropWhile fun c => c == sp || c == htab

def skipSp (input : Bytes) : Bytes := input.dropWhile fun c => c == sp

def isKeyChar (c : UInt8) : Bool :=
  isLower c || isDigit c || c == underscore || c == minus || c == dot || c == asterisk

def isTchar (c : UInt8) : Bool := isAlpha c || isDigit c || (ascii "!#$%&'*+-.^_`|~").contains c

def isTokenChar (c : UInt8) : Bool := isTchar c || c == colon || c == slash

def readKey : Bytes → Except ReadError (Bytes × Bytes)
  | c :: rest =>
      if isLower c || c == asterisk then
        .ok (c :: rest.takeWhile isKeyChar, rest.dropWhile isKeyChar)
      else fail (c :: rest) "invalid key"
  | [] => fail [] "invalid key"

/-- The scan returns the raw content, its number of escapes and the input after the quote. -/
def scanString : Bytes → Except ReadError (Bytes × Nat × Bytes)
  | [] => .error ⟨[], "unterminated string"⟩
  | c :: rest =>
      if c == dquote then .ok ([], 0, rest)
      else if c == backslash then
        match rest with
        | e :: after =>
            if e == dquote || e == backslash then do
              let (raw, escapes, unread) ← scanString after
              return (c :: e :: raw, escapes + 1, unread)
            else .error ⟨rest, "invalid string escape"⟩
        | [] => .error ⟨[], "invalid string escape"⟩
      else if c < 0x20 || 0x7e < c then .error ⟨c :: rest, "invalid string character"⟩
      else do
        let (raw, escapes, unread) ← scanString rest
        return (c :: raw, escapes, unread)

/-- The copy drops each backslash and keeps the octet after it. -/
def unescape : Bytes → Bytes
  | [] => []
  | c :: rest =>
      if c == backslash then
        match rest with
        | e :: after => e :: unescape after
        | [] => []
      else c :: unescape rest

def readString : Bytes → Except ReadError (Bytes × Bytes)
  | c :: rest =>
      if c == dquote then do
        let (raw, escapes, unread) ← scanString rest
        return (if escapes = 0 then raw else unescape raw, unread)
      else fail (c :: rest) "invalid string"
  | [] => fail [] "invalid string"

/-- The count of `=` fails when another octet follows one. -/
def countPads (pads : Nat) : Bytes → Option Nat
  | [] => some pads
  | c :: rest => if c == equals then countPads (pads + 1) rest
      else if 0 < pads then none else countPads pads rest

def readByteSequence : Bytes → Except ReadError (Bytes × Bytes)
  | c :: rest =>
      if c == colon then
        let encoded := rest.takeWhile fun c => c != colon
        match rest.dropWhile fun c => c != colon with
        | [] => fail [] "unterminated byte sequence"
        | _ :: unread =>
            match countPads 0 encoded with
            | none => fail unread "invalid byte sequence padding"
            | some pads =>
                if 2 < pads then fail unread "invalid byte sequence padding"
                else match Base64.decode encoded with
                  | none => fail unread "invalid byte sequence encoding"
                  | some data => .ok (data, unread)
      else fail (c :: rest) "invalid byte sequence"
  | [] => fail [] "invalid byte sequence"

def readBoolean : Bytes → Except ReadError (BareItem × Bytes)
  | c :: rest =>
      if c == question then
        match rest with
        | d :: unread =>
            if d == zero || d == one then .ok (.boolean (d == one), unread)
            else fail rest "invalid boolean"
        | [] => fail [] "invalid boolean"
      else fail (c :: rest) "invalid boolean"
  | [] => fail [] "invalid boolean"

def readToken : Bytes → Except ReadError (Bytes × Bytes)
  | c :: rest =>
      if isAlpha c || c == asterisk then
        .ok (c :: rest.takeWhile isTokenChar, rest.dropWhile isTokenChar)
      else fail (c :: rest) "invalid token"
  | [] => fail [] "invalid token"

/-- The digit loop returns the value and the number of digits, and fails past its limit. -/
def readDigits (limit : Nat) (reason : String) (value digits : Nat) : Bytes → Except ReadError ((Nat × Nat) × Bytes)
  | [] => .ok ((value, digits), [])
  | c :: rest =>
      if isDigit c then
        if digits = limit then fail (c :: rest) reason
        else readDigits limit reason (value * 10 + digitValue c) (digits + 1) rest
      else .ok ((value, digits), c :: rest)

def startsWithDigit : Bytes → Bool
  | c :: _ => isDigit c
  | [] => false

def signed (negative : Bool) (value : Nat) : Int := if negative then -(value : Int) else value

/-- The sign is read apart, so this is the rest of `read_number`. -/
def readUnsigned (negative : Bool) (input : Bytes) : Except ReadError (BareItem × Bytes) :=
  if !startsWithDigit input then fail input "invalid number"
  else do
    let ((intPart, intDigits), rest) ← readDigits 15 "number too long" 0 0 input
    match rest with
    | [] => return (.integer (signed negative intPart), [])
    | c :: after =>
        if c != dot then return (.integer (signed negative intPart), c :: after)
        else if 12 < intDigits then fail (c :: after) "decimal integer part too long"
        else if !startsWithDigit after then fail after "invalid decimal"
        else do
          let ((fracPart, fracDigits), unread) ←
            readDigits 3 "decimal fraction too long" 0 0 after
          let scaled := intPart * 1000 + fracPart * 10 ^ (3 - fracDigits)
          return (.decimal (signed negative scaled), unread)

def readNumber : Bytes → Except ReadError (BareItem × Bytes)
  | c :: rest => if c == minus then readUnsigned true rest else readUnsigned false (c :: rest)
  | [] => readUnsigned false []

def readBareItem : Bytes → Except ReadError (BareItem × Bytes)
  | [] => fail [] "expected a bare item"
  | c :: rest =>
      if c == minus || isDigit c then readNumber (c :: rest)
      else if c == dquote then do
        let (value, unread) ← readString (c :: rest)
        return (.string value, unread)
      else if c == colon then do
        let (value, unread) ← readByteSequence (c :: rest)
        return (.byteSequence value, unread)
      else if c == question then readBoolean (c :: rest)
      else if isAlpha c || c == asterisk then do
        let (value, unread) ← readToken (c :: rest)
        return (.token value, unread)
      else fail (c :: rest) "unrecognized bare item"

/-- A parameter without `=` is the boolean true. -/
def readParameterValue : Bytes → Except ReadError (BareItem × Bytes)
  | c :: rest => if c == equals then readBareItem rest else .ok (.boolean true, c :: rest)
  | [] => .ok (.boolean true, [])

/-- Each turn reads one `;` and so shortens the input, which bounds the fuel. -/
def readParametersLoop : Nat → Params → Bytes → Except ReadError (Params × Bytes)
  | 0, _, input => fail input "out of fuel"
  | _ + 1, params, [] => .ok (params, [])
  | fuel + 1, params, c :: rest =>
      if c == semicolon then do
        let (key, afterKey) ← readKey (skipSp rest)
        if !(params.map Prod.fst).contains key && decide (maxSfvParams ≤ params.length) then
          fail afterKey "too many parameters"
        else do
          let (value, unread) ← readParameterValue afterKey
          readParametersLoop fuel (upsert params key value) unread
      else .ok (params, c :: rest)

def readParameters (input : Bytes) : Except ReadError (Params × Bytes) :=
  readParametersLoop (input.length + 1) [] input

def readItem (input : Bytes) : Except ReadError (Item × Bytes) := do
  let (bare, rest) ← readBareItem input
  let (params, unread) ← readParameters rest
  return (⟨bare, params⟩, unread)

/-- The loop starts after the opening parenthesis and consumes the closing one. -/
def readInnerItems : Nat → List Item → Bytes → Except ReadError (List Item × Bytes)
  | 0, _, input => fail input "out of fuel"
  | _ + 1, _, [] => fail [] "unterminated inner list"
  | fuel + 1, items, c :: rest =>
      if c == rparen then .ok (items, rest)
      else if maxSfvItems ≤ items.length then fail (c :: rest) "too many inner list items"
      else do
        let (item, unread) ← readItem (c :: rest)
        match unread with
        | [] => fail [] "expected a space in inner list"
        | d :: after =>
            if d == rparen then return (items ++ [item], after)
            else if d != sp then fail (d :: after) "expected a space in inner list"
            else readInnerItems fuel (items ++ [item]) (skipSp (d :: after))

/-- The caller has read the opening parenthesis. -/
def readInnerList (input : Bytes) : Except ReadError (InnerList × Bytes) := do
  let (items, rest) ← readInnerItems (input.length + 1) [] (skipSp input)
  let (params, unread) ← readParameters rest
  return (⟨items, params⟩, unread)

def readMember (depth : Nat) (input : Bytes) : Except ReadError (Member × Bytes) :=
  if maxSfvDepth ≤ depth then fail input "nested too deeply"
  else match input with
    | [] => do
        let (item, unread) ← readItem []
        return (.item item, unread)
    | c :: rest =>
        if c == lparen then do
          let (list, unread) ← readInnerList rest
          return (.innerList list, unread)
        else do
          let (item, unread) ← readItem (c :: rest)
          return (.item item, unread)

/-- A dictionary member without `=` is the boolean true with its parameters. -/
def readMemberValue : Bytes → Except ReadError (Member × Bytes)
  | c :: rest =>
      if c == equals then readMember 0 rest
      else do
        let (params, unread) ← readParameters (c :: rest)
        return (.item ⟨.boolean true, params⟩, unread)
  | [] => do
      let (params, unread) ← readParameters []
      return (.item ⟨.boolean true, params⟩, unread)

/-- The separator is the end of the input or a comma with another member after it. -/
def readSeparator (input : Bytes) : Except ReadError (Option Bytes) :=
  match skipOws input with
  | [] => .ok none
  | c :: rest =>
      if c != comma then .error ⟨c :: rest, "expected a comma"⟩
      else match skipOws rest with
        | [] => .error ⟨[], "trailing comma"⟩
        | d :: unread => .ok (some (d :: unread))

def readDictionaryLoop : Nat → Dictionary → Bytes → Except ReadError (Dictionary × Bytes)
  | 0, _, input => fail input "out of fuel"
  | _ + 1, dict, [] => .ok (dict, [])
  | fuel + 1, dict, c :: rest => do
      let (key, afterKey) ← readKey (c :: rest)
      let present := (dict.entries.map Prod.fst).contains key
      if !present && decide (maxSfvItems ≤ dict.entries.length) then
        fail afterKey "too many dictionary entries"
      else do
        let (value, unread) ← readMemberValue afterKey
        let next : Dictionary := ⟨upsert dict.entries key value, dict.duplicateKeys || present⟩
        match ← readSeparator unread with
        | none => return (next, [])
        | some more => readDictionaryLoop fuel next more

def readListLoop : Nat → List Member → Bytes → Except ReadError (List Member × Bytes)
  | 0, _, input => fail input "out of fuel"
  | _ + 1, members, [] => .ok (members, [])
  | fuel + 1, members, c :: rest =>
      if maxSfvItems ≤ members.length then fail (c :: rest) "too many list members"
      else do
        let (member, unread) ← readMember 0 (c :: rest)
        match ← readSeparator unread with
        | none => return (members ++ [member], [])
        | some more => readListLoop fuel (members ++ [member]) more

/-- This is `parse_begin`, one reader and `parse_end`. -/
def parseWith {α : Type} (reader : Bytes → Except ReadError (α × Bytes)) (input : Bytes) : Except ParseError α :=
  if maxSfvLength < input.length then .error ⟨0, "input too long"⟩
  else match reader (skipSp input) with
    | .error failure => .error ⟨input.length - failure.unread.length, failure.reason⟩
    | .ok (value, rest) =>
        match skipSp rest with
        | [] => .ok value
        | c :: unread => .error ⟨input.length - (c :: unread).length, "trailing data"⟩

def parseDictionary (input : Bytes) : Except ParseError Dictionary :=
  parseWith (fun rest => readDictionaryLoop (rest.length + 1) ⟨[], false⟩ rest) input

def parseList (input : Bytes) : Except ParseError (List Member) :=
  parseWith (fun rest => readListLoop (rest.length + 1) [] rest) input

def parseItem (input : Bytes) : Except ParseError Item := parseWith readItem input

def dictGet (dict : Dictionary) (key : Bytes) : Option Member := dict.entries.lookup key

def paramGet (params : Params) (key : Bytes) : Option BareItem := params.lookup key

end AuthHttpsig.Sfv
