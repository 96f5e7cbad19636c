/-
This file gives the `application/x-www-form-urlencoded` format of the WHATWG URL Standard over octets.
-/

import AuthHttpsig.Library.Bytes

namespace AuthHttpsig.FormUrlencoded
open Ascii

/-- The value of a hexadecimal digit. -/
def hexValue (c : UInt8) : Option Nat :=
  if isDigit c then some (c.toNat - 0x30)
  else if 0x41 ≤ c ∧ c ≤ 0x46 then some (c.toNat - 0x41 + 10)
  else if 0x61 ≤ c ∧ c ≤ 0x66 then some (c.toNat - 0x61 + 10)
  else none

/-- The upper-case hexadecimal digit of a value. -/
def hexChar (value : Nat) : UInt8 := UInt8.ofNat (if value < 10 then 0x30 + value else 0x41 + (value - 10))

/-- An escape stands for its octet, and a percent sign without two digits for itself. -/
def percentDecode : Bytes → Bytes
  | c :: high :: low :: rest =>
      match hexValue high, hexValue low with
      | some upper, some lower =>
          if c = percent then UInt8.ofNat (16 * upper + lower) :: percentDecode rest
          else c :: percentDecode (high :: low :: rest)
      | _, _ => c :: percentDecode (high :: low :: rest)
  | c :: rest => c :: percentDecode rest
  | [] => []

def plusToSpace (c : UInt8) : UInt8 := if c = plus then sp else c

def formDecode (text : Bytes) : Bytes := percentDecode (text.map plusToSpace)

/-- These octets stand for themselves in the format. -/
def formKeeps (c : UInt8) : Bool :=
  isAlpha c || isDigit c || c == asterisk || c == minus || c == dot || c == underscore

def formEncodeOctet (c : UInt8) : Bytes :=
  if c = sp then [plus]
  else if formKeeps c then [c]
  else [percent, hexChar (c.toNat / 16), hexChar (c.toNat % 16)]

def formEncode (text : Bytes) : Bytes := text.flatMap formEncodeOctet

/-- The name of a sequence ends at its first equals sign, and its value follows the sign. -/
def tuple (sequence : Bytes) : Bytes × Bytes :=
  (formDecode (sequence.takeWhile (· != equals)), formDecode ((sequence.dropWhile (· != equals)).drop 1))

/-- The tuples of a query are those of its non-empty sequences. -/
def formParse (query : Bytes) : List (Bytes × Bytes) :=
  ((query.splitOn ampersand).filter (· ≠ [])).map tuple

@[simp] theorem formDecode_nil : formDecode [] = [] := rfl

@[simp] theorem formEncode_nil : formEncode [] = [] := rfl

@[simp] theorem formEncode_cons (c : UInt8) (rest : Bytes) :
    formEncode (c :: rest) = formEncodeOctet c ++ formEncode rest := rfl

theorem hexValue_hexChar {value : Nat} (small : value < 16) : hexValue (hexChar value) = some value := by
  interval_cases value <;> rfl

/-- The digits of an escape are no plus sign. -/
theorem plusToSpace_hexChar {value : Nat} (small : value < 16) : plusToSpace (hexChar value) = hexChar value := by
  interval_cases value <;> rfl

/-- Only a percent sign begins an escape. -/
theorem percentDecode_cons {c : UInt8} (plain : c ≠ percent) (rest : Bytes) :
    percentDecode (c :: rest) = c :: percentDecode rest := by
  match rest with
  | [] | [_] => simp [percentDecode]
  | high :: low :: rest =>
      rw [percentDecode]
      split <;> simp [plain]

theorem percentDecode_escape {high low : UInt8} {upper lower : Nat} (first : hexValue high = some upper)
    (second : hexValue low = some lower) (rest : Bytes) :
    percentDecode (percent :: high :: low :: rest) = UInt8.ofNat (16 * upper + lower) :: percentDecode rest := by
  simp [percentDecode, first, second]

/-- One encoded octet decodes to itself before any rest. -/
theorem formDecode_formEncodeOctet (c : UInt8) (rest : Bytes) :
    formDecode (formEncodeOctet c ++ rest) = c :: formDecode rest := by
  unfold formDecode formEncodeOctet
  split
  · rename_i space
    subst space
    exact percentDecode_cons (by decide) _
  split
  · rename_i keeps
    have plain : c ≠ percent ∧ c ≠ plus := by
      grind [formKeeps, isAlpha, isLower, isUpper, isDigit]
    rw [List.map_append, List.map_singleton, plusToSpace, if_neg plain.2]
    exact percentDecode_cons plain.1 _
  · have upper : c.toNat / 16 < 16 := by
      have bound := c.toNat_lt
      omega
    have lower : c.toNat % 16 < 16 := Nat.mod_lt _ (by decide)
    have join : 16 * (c.toNat / 16) + c.toNat % 16 = c.toNat := Nat.div_add_mod c.toNat 16
    simp only [List.map_cons, List.cons_append, List.nil_append, plusToSpace_hexChar upper,
      plusToSpace_hexChar lower]
    rw [show plusToSpace percent = percent from rfl,
      percentDecode_escape (hexValue_hexChar upper) (hexValue_hexChar lower), join, UInt8.ofNat_toNat]

/-- The encoder is undone by the decoder. -/
theorem formDecode_formEncode (text : Bytes) : formDecode (formEncode text) = text := by
  induction text with
  | nil => rfl
  | cons c rest ih => rw [formEncode_cons, formDecode_formEncodeOctet, ih]

theorem formDecode_eq_nil {text : Bytes} : formDecode text = [] ↔ text = [] := by
  constructor
  · intro empty
    match text with
    | [] => rfl
    | [_] | [_, _] => simp [formDecode, percentDecode] at empty
    | _ :: _ :: _ :: _ =>
        simp only [formDecode, List.map_cons, percentDecode] at empty
        split at empty
        · split at empty <;> cases empty
        · cases empty
  · rintro rfl
    rfl

end AuthHttpsig.FormUrlencoded
