/-
This file fixes the byte strings and the ASCII octets that every layer shares.
-/

import Mathlib.Tactic

namespace AuthHttpsig

/-- An `ngx_str_t` is the list of its octets. -/
abbrev Bytes := List UInt8

/-- A C string literal is the list of its octets. -/
def ascii (text : String) : Bytes := text.toList.map fun c => c.toUInt8

namespace Ascii

abbrev htab : UInt8 := 0x09
abbrev lf : UInt8 := 0x0a
abbrev sp : UInt8 := 0x20
abbrev dquote : UInt8 := 0x22
abbrev hash : UInt8 := 0x23
abbrev dollar : UInt8 := 0x24
abbrev percent : UInt8 := 0x25
abbrev ampersand : UInt8 := 0x26
abbrev lparen : UInt8 := 0x28
abbrev rparen : UInt8 := 0x29
abbrev asterisk : UInt8 := 0x2a
abbrev plus : UInt8 := 0x2b
abbrev comma : UInt8 := 0x2c
abbrev minus : UInt8 := 0x2d
abbrev dot : UInt8 := 0x2e
abbrev slash : UInt8 := 0x2f
abbrev zero : UInt8 := 0x30
abbrev one : UInt8 := 0x31
abbrev colon : UInt8 := 0x3a
abbrev semicolon : UInt8 := 0x3b
abbrev equals : UInt8 := 0x3d
abbrev question : UInt8 := 0x3f
abbrev at_ : UInt8 := 0x40
abbrev lbracket : UInt8 := 0x5b
abbrev backslash : UInt8 := 0x5c
abbrev rbracket : UInt8 := 0x5d
abbrev underscore : UInt8 := 0x5f

def isDigit (c : UInt8) : Bool := 0x30 ≤ c && c ≤ 0x39

def isLower (c : UInt8) : Bool := 0x61 ≤ c && c ≤ 0x7a

def isUpper (c : UInt8) : Bool := 0x41 ≤ c && c ≤ 0x5a

def isAlpha (c : UInt8) : Bool := isLower c || isUpper c

/-- This is `ngx_tolower`. -/
def toLower (c : UInt8) : UInt8 := if isUpper c then c + 0x20 else c

/-- This is `ngx_strlow`. -/
def strlow (text : Bytes) : Bytes := text.map toLower

/-- This is `ngx_strncasecmp` on two strings of one length that hold no NUL octet. -/
def sameFolded (left right : Bytes) : Bool := strlow left == strlow right

theorem isDigit_toNat {c : UInt8} (digit : isDigit c = true) :
    48 ≤ c.toNat ∧ c.toNat ≤ 57 := by
  simpa [isDigit, UInt8.le_iff_toNat_le] using digit

/-- A decimal digit is the octet of its value. -/
def digitOctet (value : Nat) : UInt8 := UInt8.ofNat (48 + value)

/-- The value of a decimal digit. -/
def digitValue (c : UInt8) : Nat := c.toNat - 48

theorem digitValue_lt {c : UInt8} (digit : isDigit c = true) : digitValue c < 10 := by
  have bounds := isDigit_toNat digit
  unfold digitValue
  omega

theorem digitOctet_toNat {value : Nat} (small : value < 10) :
    (digitOctet value).toNat = 48 + value := by
  simp only [digitOctet, UInt8.toNat_ofNat']
  omega

@[simp] theorem isDigit_digitOctet {value : Nat} (small : value < 10) :
    isDigit (digitOctet value) = true := by
  simp only [isDigit, UInt8.le_iff_toNat_le, digitOctet_toNat small, Bool.and_eq_true,
    decide_eq_true_eq]
  constructor
  · show 48 ≤ 48 + value
    omega
  · show 48 + value ≤ 57
    omega

@[simp] theorem digitValue_digitOctet {value : Nat} (small : value < 10) :
    digitValue (digitOctet value) = value := by
  rw [digitValue, digitOctet_toNat small]
  omega

end Ascii

/-- This is `ngx_memcmp` over the octets that both strings have. -/
def memcmp : Bytes → Bytes → Ordering
  | left :: lefts, right :: rights => (compare left right).then (memcmp lefts rights)
  | _, _ => .eq

/-- This is `ngx_memn2cmp`. -/
def memn2cmp (left right : Bytes) : Ordering :=
  (memcmp left right).then (compare left.length right.length)

/-- The comparison is the order of the octet lists. -/
theorem memn2cmp_eq_compare (left right : Bytes) : memn2cmp left right = compare left right := by
  induction left generalizing right with
  | nil => cases right <;> simp [memn2cmp, memcmp, Nat.compare_eq_lt]
  | cons octet lefts ih =>
      cases right with
      | nil => simp [memn2cmp, memcmp, Nat.compare_eq_gt]
      | cons other rights =>
          have lengths : compare (lefts.length + 1) (rights.length + 1) =
              compare lefts.length rights.length := by
            simp only [Nat.compare_eq_ite_lt, Nat.add_lt_add_iff_right]
          rw [List.compare_cons_cons, ← ih]
          simp only [memn2cmp, memcmp, Ordering.then_assoc, List.length_cons, lengths]

end AuthHttpsig
