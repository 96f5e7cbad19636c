/-
This file gives the canonical serializer of `ngx_auth_httpsig_sfv.c`. The write buffer grows
without a bound, so each writer is the text it appends.
-/

import AuthHttpsig.Construction.SfvRead

namespace AuthHttpsig.Sfv
open Ascii

/-- The digits fill an array of 20 octets from its end. -/
def writeDigits : Nat → Nat → Bytes → Bytes
  | 0, _, written => written
  | room + 1, value, written =>
      if value / 10 = 0 then digitOctet (value % 10) :: written
      else writeDigits room (value / 10) (digitOctet (value % 10) :: written)

def writeSign (value : Int) : Bytes := if value < 0 then [minus] else []

def writeInteger (value : Int) : Bytes := writeSign value ++ writeDigits 20 value.natAbs []

/-- The fraction drops its trailing zeros. -/
def writeFraction (frac : Nat) : Bytes :=
  if frac = 0 then [zero]
  else if frac % 10 ≠ 0 then
    [digitOctet (frac / 100), digitOctet (frac / 10 % 10), digitOctet (frac % 10)]
  else if frac / 10 % 10 ≠ 0 then [digitOctet (frac / 100), digitOctet (frac / 10 % 10)]
  else [digitOctet (frac / 100)]

def writeDecimal (thousandths : Int) : Bytes :=
  writeSign thousandths ++ writeInteger (thousandths.natAbs / 1000 : Nat) ++
    dot :: writeFraction (thousandths.natAbs % 1000)

def escape : Bytes → Bytes
  | [] => []
  | c :: rest => if c == dquote || c == backslash then backslash :: c :: escape rest
      else c :: escape rest

def writeString (value : Bytes) : Bytes := dquote :: escape value ++ [dquote]

def writeByteSequence (value : Bytes) : Bytes := colon :: Base64.encode value ++ [colon]

def writeBoolean (value : Bool) : Bytes := [question, if value then one else zero]

def writeBareItem : BareItem → Bytes
  | .integer value => writeInteger value
  | .decimal thousandths => writeDecimal thousandths
  | .string value => writeString value
  | .token value => value
  | .byteSequence value => writeByteSequence value
  | .boolean value => writeBoolean value

/-- A true parameter is its key alone. -/
def writeParam (param : Bytes × BareItem) : Bytes :=
  if param.2 = .boolean true then semicolon :: param.1
  else semicolon :: param.1 ++ equals :: writeBareItem param.2

def writeParams : Params → Bytes
  | [] => []
  | param :: rest => writeParam param ++ writeParams rest

def writeItem (item : Item) : Bytes := writeBareItem item.bare ++ writeParams item.params

/-- Each item after the first one follows a space. -/
def writeItems : List Item → Bytes
  | [] => []
  | [item] => writeItem item
  | item :: next :: rest => writeItem item ++ sp :: writeItems (next :: rest)

def writeInnerList (list : InnerList) : Bytes :=
  lparen :: writeItems list.items ++ rparen :: writeParams list.params

def writeMember : Member → Bytes
  | .item item => writeItem item
  | .innerList list => writeInnerList list

end AuthHttpsig.Sfv
