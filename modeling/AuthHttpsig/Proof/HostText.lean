/-
This file gives the hosts and ports of an authority and the texts that the host normalization accepts.
-/

import AuthHttpsig.Construction.Authority
import AuthHttpsig.Construction.Profile

namespace AuthHttpsig.Directory
open Ascii

/-- A host is a name or an address in brackets. -/
inductive Host : Bytes → Prop
  | name {text : Bytes} (filled : text ≠ []) (chars : ∀ c ∈ text, Profile.isHostChar c = true) : Host text
  | address {inside : Bytes} (filled : inside ≠ []) (chars : ∀ c ∈ inside, Profile.isIpv6Char c = true) :
      Host (lbracket :: inside ++ [rbracket])

/-- A port is absent or a colon with digits. -/
inductive Port : Bytes → Prop
  | absent : Port []
  | given {digits : Bytes} (filled : digits ≠ []) (chars : ∀ c ∈ digits, isDigit c = true) :
      Port (colon :: digits)

/-- A bare authority is a host with an optional port. -/
def Bare (text : Bytes) : Prop := ∃ host port, text = host ++ port ∧ Host host ∧ Port port

/-- The three loops of the normalization accept these texts. The colon belongs to their host octets. -/
inductive Accepted : Bytes → Prop
  | name {text : Bytes} (filled : text ≠ []) (chars : ∀ c ∈ text, isHostChar c = true) : Accepted text
  | address {inside rest : Bytes} (filled : inside ≠ []) (chars : ∀ c ∈ inside, Profile.isIpv6Char c = true)
      (after : ∀ c ∈ rest, isHostChar c = true) : Accepted (lbracket :: inside ++ rbracket :: rest)

/-- A host is not empty. -/
theorem Host.ne_nil {text : Bytes} (host : Host text) : text ≠ [] := by
  cases host with
  | name filled => exact filled
  | address => simp

/-- Lowering keeps the characters of a host name. -/
theorem toLower_isHostChar {c : UInt8} : Profile.isHostChar c = true → Profile.isHostChar (toLower c) = true := by
  grind [Profile.isHostChar, toLower, isLower, isUpper, isDigit]

/-- Lowering keeps the characters of an address. -/
theorem toLower_isIpv6Char {c : UInt8} : Profile.isIpv6Char c = true → Profile.isIpv6Char (toLower c) = true := by
  grind [Profile.isIpv6Char, Base.isHex, toLower, isUpper, isDigit]

theorem toLower_toLower (c : UInt8) : toLower (toLower c) = toLower c := by
  grind [toLower, isUpper]

theorem toLower_digit {c : UInt8} : isDigit c = true → toLower c = c := by
  grind [toLower, isUpper, isDigit]

/-- Lowering a text twice is lowering it once. -/
theorem strlow_strlow (text : Bytes) : strlow (strlow text) = strlow text := by
  simp [strlow, toLower_toLower]

/-- The lower-case form of a host is a host. -/
theorem Host.strlow {text : Bytes} (host : Host text) : Host (strlow text) := by
  cases host with
  | name filled chars =>
      refine .name (by simpa [Ascii.strlow] using filled) ?_
      intro c present
      obtain ⟨original, member, rfl⟩ := List.mem_map.mp present
      exact toLower_isHostChar (chars original member)
  | @address inside filled chars =>
      have lowered : Ascii.strlow (lbracket :: inside ++ [rbracket]) =
          lbracket :: Ascii.strlow inside ++ [rbracket] := by
        simp only [Ascii.strlow, List.map_append, List.map_cons, List.map_nil]
        rfl
      rw [lowered]
      refine .address (by simpa [Ascii.strlow] using filled) ?_
      intro c present
      obtain ⟨original, member, rfl⟩ := List.mem_map.mp present
      exact toLower_isIpv6Char (chars original member)

/-- A port has no letters. -/
theorem Port.strlow_eq {text : Bytes} (port : Port text) : strlow text = text := by
  cases port with
  | absent => rfl
  | @given digits filled chars =>
      have kept : digits.map toLower = digits :=
        (List.map_congr_left fun c present => toLower_digit (chars c present)).trans (List.map_id _)
      simp only [strlow, List.map_cons, kept]
      rfl

/-- A port has no letters to lower. -/
theorem Port.strlow_append {port : Bytes} (isPort : Port port) (host : Bytes) :
    strlow (host ++ port) = strlow host ++ port := by
  rw [strlow, List.map_append]
  exact congrArg _ isPort.strlow_eq

/-- A text without a slash has no scheme. -/
theorem hasScheme_eq_false {text : Bytes} (clean : ∀ c ∈ text, c ≠ slash) : hasScheme text = false := by
  induction text with
  | nil => rfl
  | cons c rest ih =>
      have rest_clean := ih fun d present => clean d (List.mem_cons_of_mem c present)
      have unslashed : rest.take 2 ≠ [slash, slash] := by
        intro slashes
        have present : slash ∈ rest.take 2 := by rw [slashes]; exact List.mem_cons_self
        exact clean slash (List.mem_cons_of_mem c (List.mem_of_mem_take present)) rfl
      simp [hasScheme, rest_clean, unslashed]

theorem name_isHostChar {c : UInt8} :
    Profile.isHostChar c = true → isHostChar c = true ∧ c ≠ lbracket ∧ c ≠ colon := by
  grind [Profile.isHostChar, isHostChar, isAlpha, isLower, isUpper, isDigit]

theorem digit_isHostChar {c : UInt8} : isDigit c = true → isHostChar c = true := by
  grind [isHostChar]

/-- A port is made of host characters. -/
theorem Port.isHostChar {text : Bytes} (port : Port text) : text.all isHostChar = true := by
  cases port with
  | absent => rfl
  | given _ chars =>
      rw [List.all_cons, Bool.and_eq_true, List.all_eq_true]
      exact ⟨by decide, fun c present => digit_isHostChar (chars c present)⟩

theorem isHostChar_not {c : UInt8} : isHostChar c = true → c ≠ slash ∧ c ≠ asterisk ∧ c ≠ lbracket := by
  grind [isHostChar, isAlpha, isLower, isUpper, isDigit]

theorem isIpv6Char_not {c : UInt8} :
    Profile.isIpv6Char c = true → c ≠ slash ∧ c ≠ asterisk ∧ c ≠ rbracket := by
  grind [Profile.isIpv6Char, Base.isHex, isDigit]

/-- The two alphabets of an address are one. -/
theorem isIpv6Char_eq (c : UInt8) : isIpv6Char c = Profile.isIpv6Char c := by
  grind [isIpv6Char, Profile.isIpv6Char, Base.isHex]

/-- An accepted text has neither a scheme nor a wildcard. -/
theorem Accepted.clean {text : Bytes} (accepted : Accepted text) : ∀ c ∈ text, c ≠ slash ∧ c ≠ asterisk := by
  intro c present
  cases accepted with
  | name _ chars =>
      obtain ⟨unslashed, plain, _⟩ := isHostChar_not (chars c present)
      exact ⟨unslashed, plain⟩
  | address _ chars after =>
      rcases List.mem_append.mp present with before | behind
      · rcases List.mem_cons.mp before with rfl | inside
        · decide
        · obtain ⟨unslashed, plain, _⟩ := isIpv6Char_not (chars c inside)
          exact ⟨unslashed, plain⟩
      · rcases List.mem_cons.mp behind with rfl | rest
        · decide
        · obtain ⟨unslashed, plain, _⟩ := isHostChar_not (after c rest)
          exact ⟨unslashed, plain⟩

/-- The bracket loop leaves the text itself, or what follows an address. -/
theorem skipBracket_eq_some {c : UInt8} {tail rest : Bytes} (skipped : skipBracket (c :: tail) = some rest) :
    rest = c :: tail ∨ ∃ inside, c :: tail = lbracket :: inside ++ rbracket :: rest ∧ inside ≠ [] ∧
      ∀ d ∈ inside, Profile.isIpv6Char d = true := by
  rw [skipBracket] at skipped
  split at skipped
  · rename_i bracket
    have opens : c = lbracket := by simpa using bracket
    subst opens
    right
    dsimp only at skipped
    split at skipped
    · rename_i valid
      cases closing : tail.dropWhile (· != rbracket) with
      | nil => simp [closing] at skipped
      | cons close after =>
          simp only [closing, Option.ite_none_left_eq_some, List.length_eq_zero_iff, Option.some.injEq] at skipped
          obtain ⟨filled, rfl⟩ := skipped
          have closes : close = rbracket := by
            have stopped := List.head?_dropWhile_not (· != rbracket) tail
            simpa [closing] using stopped
          subst closes
          refine ⟨tail.takeWhile (· != rbracket), ?_, filled, ?_⟩
          · have joined := List.takeWhile_append_dropWhile (p := (· != rbracket)) (l := tail)
            rw [closing] at joined
            rw [List.cons_append, joined]
          · intro d present
            rw [← isIpv6Char_eq]
            exact List.all_eq_true.mp valid d present
    · cases skipped
  · left
    exact (Option.some.inj skipped).symm

/-- An accepted text is host characters, up to its bracket. -/
theorem Accepted.skipBracket {text : Bytes} (accepted : Accepted text) :
    ∃ rest, skipBracket text = some rest ∧ rest.all isHostChar = true := by
  cases accepted with
  | name filled chars =>
      cases text with
      | nil => exact absurd rfl filled
      | cons c tail =>
          have plain := (isHostChar_not (chars c List.mem_cons_self)).2.2
          exact ⟨c :: tail, by simp [Directory.skipBracket, plain], List.all_eq_true.mpr chars⟩
  | @address inside rest filled chars after =>
      have outside : ∀ c ∈ inside, (c != rbracket) = true := by
        intro c present
        simpa using (isIpv6Char_not (chars c present)).2.2
      have valid : inside.all isIpv6Char = true :=
        List.all_eq_true.mpr fun c present => (isIpv6Char_eq c).trans (chars c present)
      refine ⟨rest, ?_, List.all_eq_true.mpr after⟩
      simp [Directory.skipBracket, List.takeWhile_append_of_pos outside, List.dropWhile_append_of_pos outside,
        valid, filled]

/-- The normalization accepts these texts and no other, and its result is the lower-case text up to the
default port. -/
theorem normalizeHost_eq_ok {text normalized : Bytes} :
    normalizeHost text = .ok normalized ↔ Accepted text ∧ normalized = dropDefaultPort (strlow text) := by
  constructor
  · intro ok
    unfold normalizeHost at ok
    split at ok
    · cases ok
    split at ok
    · cases ok
    split at ok
    · cases ok
    cases text with
    | nil => contradiction
    | cons c tail =>
        split at ok
        · cases ok
        rename_i rest skipped
        split at ok
        · rename_i valid
          refine ⟨?_, (Except.ok.inj ok).symm⟩
          rcases skipBracket_eq_some skipped with rfl | ⟨inside, joined, filled, chars⟩
          · exact .name (by simp) (List.all_eq_true.mp valid)
          · rw [joined]
            exact .address filled chars (List.all_eq_true.mp valid)
        · cases ok
  · rintro ⟨accepted, rfl⟩
    have filled : text.length ≠ 0 := by
      cases accepted with
      | name filled => simpa using filled
      | address => simp
    have unslashed : hasScheme text = false :=
      hasScheme_eq_false fun c present => (accepted.clean c present).1
    have plain : text.contains asterisk = false := by
      rw [← Bool.not_eq_true, List.contains_iff_mem]
      exact fun present => (accepted.clean asterisk present).2 rfl
    obtain ⟨rest, skipped, valid⟩ := accepted.skipBracket
    rw [normalizeHost, if_neg filled, unslashed, plain, skipped]
    simp [valid]

/-- A bare host with its port is accepted. -/
theorem Bare.accepted {text : Bytes} (bare : Bare text) : Accepted text := by
  obtain ⟨host, port, rfl, isHost, isPort⟩ := bare
  have after : ∀ c ∈ port, isHostChar c = true := List.all_eq_true.mp isPort.isHostChar
  cases isHost with
  | name filled chars =>
      refine .name (by simp [filled]) fun c present => ?_
      exact (List.mem_append.mp present).elim (fun inside => (name_isHostChar (chars c inside)).1) (after c)
  | @address inside filled chars =>
      have joined : lbracket :: inside ++ [rbracket] ++ port = lbracket :: inside ++ rbracket :: port := by simp
      rw [joined]
      exact .address filled chars after

/-- A host has no colon outside its brackets. -/
theorem Host.colon_free {before after : Bytes} (host : Host (before ++ after)) (filled : after ≠ [])
    (unclosed : rbracket ∉ after) : colon ∉ after := by
  intro present
  generalize joined : before ++ after = text at host
  cases host with
  | name _ chars =>
      have inside : colon ∈ text := by
        rw [← joined]
        exact List.mem_append_right before present
      exact (name_isHostChar (chars colon inside)).2.2 rfl
  | @address inside _ _ =>
      have last : (before ++ after).getLast? = some rbracket := by
        rw [joined]
        exact List.getLast?_concat ..
      rw [List.getLast?_append_of_ne_nil before filled] at last
      exact unclosed (List.mem_of_getLast? last)

/-- An authority that ends with the default port is the host with this port. -/
theorem defaultPort_unique {host port before : Bytes} (isHost : Host host) (isPort : Port port)
    (ends : host ++ port = before ++ ascii ":443") : port = ascii ":443" ∧ before = host := by
  rcases List.append_eq_append_iff.mp ends with ⟨more, rfl, split⟩ | ⟨more, rfl, split⟩
  · have shorter : more = [] := by
      cases isPort with
      | absent => simp [ascii] at split
      | given _ chars =>
          cases more with
          | nil => rfl
          | cons c rest =>
              obtain ⟨rfl, rfl⟩ := List.cons.inj split
              have digit := chars colon (List.mem_append_right rest (by decide))
              exact absurd digit (by decide)
    subst shorter
    simpa using split
  · have none_left : more = [] := by
      by_contra filled
      have octets (c : UInt8) (present : c ∈ more) : c ∈ ascii ":443" := by
        rw [split]
        exact List.mem_append_left port present
      have unclosed : rbracket ∉ more := fun present => absurd (octets rbracket present) (by decide)
      have present : colon ∈ more := by
        cases more with
        | nil => exact absurd rfl filled
        | cons c rest =>
            have first : colon = c := (List.cons.inj split).1
            rw [first]
            exact List.mem_cons_self
      exact isHost.colon_free filled unclosed present
    subst none_left
    simpa using split.symm

/-- Dropping the default port of an authority leaves its host. -/
theorem dropDefaultPort_authority {host port : Bytes} (isHost : Host host) (isPort : Port port) :
    dropDefaultPort (host ++ port) = if port = ascii ":443" then host else host ++ port := by
  have filled := List.length_pos_iff.mpr isHost.ne_nil
  unfold dropDefaultPort
  by_cases standard : port = ascii ":443"
  · subst standard
    have size : (ascii ":443").length = 4 := rfl
    have start : (host ++ ascii ":443").length - 4 = host.length := by
      rw [List.length_append, size, Nat.add_sub_cancel]
    have long : 4 < (host ++ ascii ":443").length := by
      rw [List.length_append, size]
      omega
    rw [start, List.drop_left, List.take_left, if_pos ⟨long, rfl⟩, if_pos rfl]
  · rw [if_neg standard, if_neg]
    rintro ⟨_, ends⟩
    have joined := List.take_append_drop ((host ++ port).length - 4) (host ++ port)
    rw [ends] at joined
    exact standard (defaultPort_unique isHost isPort joined.symm).1

/-- The normal form of a bare authority. -/
theorem dropDefaultPort_strlow {host port : Bytes} (isHost : Host host) (isPort : Port port) :
    dropDefaultPort (strlow (host ++ port)) = if port = ascii ":443" then strlow host else strlow (host ++ port) := by
  rw [isPort.strlow_append, dropDefaultPort_authority isHost.strlow isPort]

end AuthHttpsig.Directory
