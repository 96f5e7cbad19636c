/-
This file gives the `ngx_encode_base64` and `ngx_decode_base64` of nginx. A shift or a mask of an
octet is written as a quotient or a remainder.
-/

import Mathlib.Data.List.TakeWhile
import AuthHttpsig.Library.Bytes

namespace AuthHttpsig.Base64
open Ascii

/-- The `basis64` table of the encoder. -/
def alphabet : Bytes :=
  ascii "ABCDEFGHIJKLMNOPQRSTUVWXYZabcdefghijklmnopqrstuvwxyz0123456789+/"

def encodeChar (sextet : Nat) : UInt8 := alphabet.getD sextet 0

/-- The `basis64` table of the decoder, where `none` is its 77 entry. -/
def decodeChar (c : UInt8) : Option Nat :=
  if isUpper c then some (c.toNat - 65)
  else if isLower c then some (c.toNat - 97 + 26)
  else if isDigit c then some (c.toNat - 48 + 52)
  else if c == plus then some 62
  else if c == slash then some 63
  else none

def encode : Bytes → Bytes
  | first :: second :: third :: rest =>
      encodeChar (first.toNat / 4) ::
        encodeChar (first.toNat % 4 * 16 + second.toNat / 16) ::
        encodeChar (second.toNat % 16 * 4 + third.toNat / 64) ::
        encodeChar (third.toNat % 64) :: encode rest
  | [first, second] =>
      [encodeChar (first.toNat / 4), encodeChar (first.toNat % 4 * 16 + second.toNat / 16),
        encodeChar (second.toNat % 16 * 4), equals]
  | [first] =>
      [encodeChar (first.toNat / 4), encodeChar (first.toNat % 4 * 16), equals, equals]
  | [] => []

/-- Four sextets give three octets, and a rest of two or three gives one or two. -/
def pack : List Nat → Bytes
  | a :: b :: c :: d :: rest =>
      UInt8.ofNat (a * 4 + b / 16) :: UInt8.ofNat (b * 16 + c / 4) ::
        UInt8.ofNat (c * 64 + d) :: pack rest
  | [a, b, c] => [UInt8.ofNat (a * 4 + b / 16), UInt8.ofNat (b * 16 + c / 4)]
  | [a, b] => [UInt8.ofNat (a * 4 + b / 16)]
  | _ => []

/-- The decoder reads up to the first `=` and rejects a rest of one sextet. -/
def decode (text : Bytes) : Option Bytes :=
  match (text.takeWhile (· != equals)).mapM decodeChar with
  | none => none
  | some sextets => if sextets.length % 4 = 1 then none else some (pack sextets)

/-- A written character reads back as its sextet. -/
theorem decodeChar_encodeChar : ∀ sextet : Fin 64,
    decodeChar (encodeChar sextet) = some sextet.val := by
  decide +kernel

/-- The encoder writes a run of sextets and then at most two pads. -/
theorem encode_shape (data : Bytes) : ∃ (sextets : List Nat) (pads : Bytes),
    encode data = sextets.map encodeChar ++ pads ∧ (∀ sextet ∈ sextets, sextet < 64) ∧
      pads.length ≤ 2 ∧ (∀ c ∈ pads, c = equals) ∧ sextets.length % 4 ≠ 1 ∧
      pack sextets = data := by
  induction data using encode.induct with
  | case1 first second third rest ih =>
      obtain ⟨sextets, pads, text, small, few, padded, whole, packed⟩ := ih
      have bounds := And.intro first.toNat_lt (And.intro second.toNat_lt third.toNat_lt)
      refine ⟨first.toNat / 4 :: (first.toNat % 4 * 16 + second.toNat / 16) ::
        (second.toNat % 16 * 4 + third.toNat / 64) :: third.toNat % 64 :: sextets, pads,
        by simp [encode, text], ?_, few, padded, ?_, ?_⟩
      · intro sextet member
        simp only [List.mem_cons] at member
        rcases member with rfl | rfl | rfl | rfl | inside
        · omega
        · omega
        · omega
        · omega
        · exact small sextet inside
      · simp only [List.length_cons]
        omega
      · simp only [pack, packed, List.cons.injEq, and_true]
        refine ⟨?_, ?_, ?_⟩ <;> apply UInt8.toNat_inj.mp <;> rw [UInt8.toNat_ofNat'] <;> omega
  | case2 first second =>
      have bounds := And.intro first.toNat_lt second.toNat_lt
      refine ⟨[first.toNat / 4, first.toNat % 4 * 16 + second.toNat / 16, second.toNat % 16 * 4],
        [equals], by simp [encode], ?_, by simp, by simp, by simp, ?_⟩
      · intro sextet member
        simp only [List.mem_cons, List.not_mem_nil, or_false] at member
        rcases member with rfl | rfl | rfl <;> omega
      · simp only [pack, List.cons.injEq, and_true]
        refine ⟨?_, ?_⟩ <;> apply UInt8.toNat_inj.mp <;> rw [UInt8.toNat_ofNat'] <;> omega
  | case3 first =>
      have bound := first.toNat_lt
      refine ⟨[first.toNat / 4, first.toNat % 4 * 16], [equals, equals], by simp [encode], ?_,
        by simp, by simp, by simp, ?_⟩
      · intro sextet member
        simp only [List.mem_cons, List.not_mem_nil, or_false] at member
        rcases member with rfl | rfl <;> omega
      · simp only [pack, List.cons.injEq, and_true]
        apply UInt8.toNat_inj.mp
        rw [UInt8.toNat_ofNat']
        omega
  | case4 => exact ⟨[], [], by simp [encode, pack]⟩

/-- Written sextets read back. -/
theorem mapM_decodeChar (sextets : List Nat) (small : ∀ sextet ∈ sextets, sextet < 64) :
    (sextets.map encodeChar).mapM decodeChar = some sextets := by
  induction sextets with
  | nil => rfl
  | cons sextet rest ih =>
      have head := decodeChar_encodeChar ⟨sextet, small sextet (by simp)⟩
      have tail := ih fun other member => small other (by simp [member])
      simp only [List.map_cons, List.mapM_cons, tail]
      simp only at head
      rw [head]
      rfl

theorem takeWhile_append_pads {body pads : Bytes} (padded : ∀ c ∈ pads, c = equals) :
    (body ++ pads).takeWhile (· != equals) = body.takeWhile (· != equals) := by
  induction body with
  | nil =>
      cases pads with
      | nil => rfl
      | cons c rest => simp [padded c (by simp)]
  | cons c rest ih => by_cases pad : c = equals <;> simp_all

/-- The decoder ignores the pads at the end. -/
theorem decode_append_pads {body pads : Bytes} (padded : ∀ c ∈ pads, c = equals) :
    decode (body ++ pads) = decode body := by
  rw [decode, decode, takeWhile_append_pads padded]

theorem mapM_decodeChar_eq_some {text : Bytes} {sextets : List Nat}
    (decoded : text.mapM decodeChar = some sextets) :
    (∀ c ∈ text, (decodeChar c).isSome = true) ∧ sextets.length = text.length := by
  induction text generalizing sextets with
  | nil => simp_all
  | cons c rest ih =>
      simp only [List.mapM_cons, Option.bind_eq_bind, Option.bind_eq_some_iff, Option.pure_def,
        Option.some.injEq] at decoded
      obtain ⟨sextet, head, others, tail, rfl⟩ := decoded
      obtain ⟨inside, length⟩ := ih tail
      exact ⟨by simpa [head] using inside, by simp [length]⟩

/-- A decoded text is of the alphabet and of a possible length. -/
theorem decode_eq_some {body data : Bytes} (plain : ∀ c ∈ body, c ≠ equals)
    (decoded : decode body = some data) :
    (∀ c ∈ body, (decodeChar c).isSome = true) ∧ body.length % 4 ≠ 1 := by
  have all : body.takeWhile (· != equals) = body := by
    rw [List.takeWhile_eq_self_iff]
    simpa using plain
  rw [decode, all] at decoded
  split at decoded
  · cases decoded
  · next sextets found =>
      obtain ⟨inside, length⟩ := mapM_decodeChar_eq_some found
      split at decoded
      · cases decoded
      · next whole => exact ⟨inside, length ▸ whole⟩

end AuthHttpsig.Base64
