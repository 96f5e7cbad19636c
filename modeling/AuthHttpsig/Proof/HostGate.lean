/-
This file says which texts the host normalization accepts, and when its result is a bare authority.
-/

import AuthHttpsig.Library.Lines
import AuthHttpsig.Proof.HostText

namespace AuthHttpsig.Directory
open Ascii

/-- The colon or the bracket of these texts is not followed by a port, or no host comes before it. -/
inductive Ambiguous : Bytes → Prop
  | name {host rest : Bytes} (chars : ∀ c ∈ host, Profile.isHostChar c = true)
      (after : ∀ c ∈ rest, isHostChar c = true)
      (unnamed : host = [] ∨ rest = [] ∨ ∃ c ∈ rest, isDigit c = false) : Ambiguous (host ++ colon :: rest)
  | address {inside rest : Bytes} (filled : inside ≠ []) (chars : ∀ c ∈ inside, Profile.isIpv6Char c = true)
      (after : ∀ c ∈ rest, isHostChar c = true) (noPort : ¬ Port rest) :
      Ambiguous (lbracket :: inside ++ rbracket :: rest)

/-- The normalization accepts a text when it is bare, drops the default port only, and has no more to do
with its own result. -/
structure Normalizes (text : Bytes) : Prop where
  accepts : (∃ normalized, normalizeHost text = .ok normalized) ↔ Bare text
  output : ∀ normalized, normalizeHost text = .ok normalized → ∀ host port, text = host ++ port → Host host →
    Port port → normalized = if port = ascii ":443" then strlow host else strlow text
  stable : ∀ normalized, normalizeHost text = .ok normalized → normalizeHost normalized = .ok normalized

theorem isHostChar_cases {c : UInt8} : isHostChar c = true → Profile.isHostChar c = true ∨ c = colon := by
  grind [isHostChar, isAlpha, Profile.isHostChar]

theorem Ambiguous.accepted {text : Bytes} (ambiguous : Ambiguous text) : Accepted text := by
  cases ambiguous with
  | @name host rest chars after =>
      refine .name (by simp) fun c present => ?_
      rcases List.mem_append.mp present with inside | behind
      · exact (name_isHostChar (chars c inside)).1
      · rcases List.mem_cons.mp behind with rfl | inside
        · decide
        · exact after c inside
  | address filled chars after => exact .address filled chars after

/-- The first colon of an ambiguous name, or its first closing bracket, tells it from a bare authority. -/
theorem Ambiguous.not_bare {text : Bytes} (ambiguous : Ambiguous text) : ¬ Bare text := by
  rintro ⟨host, port, joined, isHost, isPort⟩
  cases ambiguous with
  | @name front rest chars after unnamed =>
      have uncoloned : colon ∉ front := fun present => (name_isHostChar (chars colon present)).2.2 rfl
      cases isHost with
      | name filled hostChars =>
          have hostUncoloned : colon ∉ host := fun present => (name_isHostChar (hostChars colon present)).2.2 rfl
          cases isPort with
          | absent =>
              have present : colon ∈ host ++ [] := by
                rw [← joined]
                simp
              exact hostUncoloned (by simpa using present)
          | given some digits =>
              obtain ⟨rfl, rfl⟩ := Lines.line_injective uncoloned hostUncoloned joined
              rcases unnamed with none | empty | ⟨c, present, letter⟩
              · exact filled none
              · exact some empty
              · exact absurd (digits c present) (by simp [letter])
      | @address inside filled addressChars =>
          have first : lbracket ∈ front ++ colon :: rest := by
            rw [joined]
            simp
          rcases List.mem_append.mp first with present | present
          · exact (name_isHostChar (chars lbracket present)).2.1 rfl
          · rcases List.mem_cons.mp present with opens | opens
            · exact absurd opens (by decide)
            · exact (isHostChar_not (after lbracket opens)).2.2 rfl
  | @address inside rest filled chars after noPort =>
      cases isHost with
      | name hostFilled hostChars =>
          cases host with
          | nil => exact hostFilled rfl
          | cons c more =>
              obtain ⟨rfl, _⟩ := List.cons.inj joined
              exact (name_isHostChar (hostChars lbracket List.mem_cons_self)).2.1 rfl
      | @address other otherFilled otherChars =>
          have unclosed : rbracket ∉ inside := fun present => (isIpv6Char_not (chars rbracket present)).2.2 rfl
          have otherUnclosed : rbracket ∉ other :=
            fun present => (isIpv6Char_not (otherChars rbracket present)).2.2 rfl
          have tails : inside ++ rbracket :: rest = other ++ rbracket :: port := by simpa using joined
          obtain ⟨_, rfl⟩ := Lines.line_injective unclosed otherUnclosed tails
          exact noPort isPort

/-- The accepted texts are the bare and the ambiguous ones. -/
theorem Accepted.bare_or_ambiguous {text : Bytes} (accepted : Accepted text) : Bare text ∨ Ambiguous text := by
  cases accepted with
  | name filled chars =>
      by_cases coloned : colon ∈ text
      · obtain ⟨host, rest, rfl, first⟩ := List.eq_append_cons_of_mem coloned
        have hostChars : ∀ c ∈ host, Profile.isHostChar c = true := by
          intro c present
          rcases isHostChar_cases (chars c (List.mem_append_left _ present)) with plain | rfl
          · exact plain
          · exact absurd present first
        have after : ∀ c ∈ rest, isHostChar c = true :=
          fun c present => chars c (List.mem_append_right _ (List.mem_cons_of_mem colon present))
        by_cases unnamed : host = [] ∨ rest = [] ∨ ∃ c ∈ rest, isDigit c = false
        · exact .inr (.name hostChars after unnamed)
        · simp only [not_or, not_exists, not_and, Bool.not_eq_false] at unnamed
          obtain ⟨named, some, digits⟩ := unnamed
          exact .inl ⟨host, colon :: rest, rfl, .name named hostChars, .given some digits⟩
      · refine .inl ⟨text, [], by simp, .name filled fun c present => ?_, .absent⟩
        rcases isHostChar_cases (chars c present) with plain | rfl
        · exact plain
        · exact absurd present coloned
  | @address inside rest filled chars after =>
      by_cases isPort : Port rest
      · exact .inl ⟨lbracket :: inside ++ [rbracket], rest, by simp, .address filled chars, isPort⟩
      · exact .inr (.address filled chars after isPort)

/-- The normalization does with a bare authority what its purpose says. -/
theorem Bare.normalizes {text : Bytes} (bare : Bare text) : Normalizes text where
  accepts := ⟨fun _ => bare, fun _ => ⟨_, normalizeHost_eq_ok.mpr ⟨bare.accepted, rfl⟩⟩⟩
  output := by
    rintro normalized ok host port rfl isHost isPort
    rw [(normalizeHost_eq_ok.mp ok).2]
    exact dropDefaultPort_strlow isHost isPort
  stable := by
    intro normalized ok
    obtain ⟨host, port, rfl, isHost, isPort⟩ := bare
    have shape := (normalizeHost_eq_ok.mp ok).2
    rw [dropDefaultPort_strlow isHost isPort] at shape
    rw [normalizeHost_eq_ok]
    by_cases standard : port = ascii ":443"
    · rw [if_pos standard] at shape
      have again := dropDefaultPort_strlow isHost.strlow Port.absent
      rw [List.append_nil, strlow_strlow, if_neg (by decide)] at again
      rw [shape, strlow_strlow, again]
      exact ⟨Bare.accepted ⟨strlow host, [], by simp, isHost.strlow, .absent⟩, rfl⟩
    · rw [if_neg standard] at shape
      have again := dropDefaultPort_strlow isHost isPort
      rw [if_neg standard] at again
      rw [shape, strlow_strlow, again]
      exact ⟨Bare.accepted ⟨strlow host, port, isPort.strlow_append host, isHost.strlow, isPort⟩, rfl⟩

/-- The normalization is right except on ambiguous texts, which it accepts. -/
theorem normalizes_iff (text : Bytes) : Normalizes text ↔ ¬ Ambiguous text := by
  constructor
  · intro normalizes ambiguous
    exact ambiguous.not_bare (normalizes.accepts.mp ⟨_, normalizeHost_eq_ok.mpr ⟨ambiguous.accepted, rfl⟩⟩)
  · intro plain
    by_cases bare : Bare text
    · exact bare.normalizes
    · have rejected (normalized : Bytes) : normalizeHost text ≠ .ok normalized := fun ok =>
        (normalizeHost_eq_ok.mp ok).1.bare_or_ambiguous.elim bare plain
      exact {
        accepts := ⟨fun ⟨normalized, ok⟩ => absurd ok (rejected normalized), fun isBare => absurd isBare bare⟩
        output := fun normalized ok => absurd ok (rejected normalized)
        stable := fun normalized ok => absurd ok (rejected normalized) }

/-- A second port is accepted, and each run of the normalization drops one more port. -/
theorem normalizeHost_two_ports :
    normalizeHost (ascii "a:443:443") = .ok (ascii "a:443") ∧ normalizeHost (ascii "a:443") = .ok (ascii "a") ∧
      ¬ Normalizes (ascii "a:443:443") := by
  have first : normalizeHost (ascii "a:443:443") = .ok (ascii "a:443") := by decide +kernel
  have second : normalizeHost (ascii "a:443") = .ok (ascii "a") := by decide +kernel
  refine ⟨first, second, fun normalizes => ?_⟩
  have again := normalizes.stable _ first
  rw [second] at again
  exact absurd again (by decide)

end AuthHttpsig.Directory
