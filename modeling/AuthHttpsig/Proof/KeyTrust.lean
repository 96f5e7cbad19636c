/-
This file shows which keys can make a signature valid, over key sets that are lists of public keys.
-/

import AuthHttpsig.Construction.Evaluate
import AuthHttpsig.Proof.ProfileAccepts

namespace AuthHttpsig

/-- A public key has its thumbprint and verifies signatures over messages. The key set may name it. -/
structure PublicKey where
  thumbprint : Bytes
  kid : Option Bytes
  verifies : Bytes → Bytes → Bool

namespace Keys

/-- The key library looks for the keys of a list. -/
def ofList (keys : List PublicKey) : Keys where
  has keyid := keys.any fun key => key.thumbprint == keyid
  hasKid kid := keys.any fun key => key.kid == some kid
  verify keyid msg sig :=
    if keys.any fun key => key.thumbprint == keyid && key.verifies msg sig then .ok else .declined
  verifyKid kid msg sig :=
    if keys.any fun key => key.kid == some kid && key.verifies msg sig then .ok else .declined

/-- A chain of two lists is the list of both. -/
theorem chained_ofList (first second : List PublicKey) :
    chained (ofList first) (ofList second) = ofList (first ++ second) := by
  simp only [chained, ofList, List.any_append, mk.injEq, true_and]
  constructor
  · funext keyid msg sig
    by_cases found : (first.any fun key => key.thumbprint == keyid && key.verifies msg sig) = true
    · simp [found]
    · simp [found]
  · funext kid msg sig
    by_cases found : (first.any fun key => key.kid == some kid && key.verifies msg sig) = true
    · simp [found]
    · simp [found]

/-- Chaining two lists of keys is appending them. -/
theorem chain_ofList (first second : Option (List PublicKey)) :
    chain (first.map ofList) (second.map ofList) = (first.merge (· ++ ·) second).map ofList := by
  cases first <;> cases second <;> simp [chain, chained_ofList]

variable {keys : List PublicKey} {keyid kid msg sig : Bytes}

/-- A list has a key id exactly when it is the thumbprint of one of its keys. -/
theorem ofList_has : (ofList keys).has keyid = true ↔ ∃ key ∈ keys, key.thumbprint = keyid := by
  simp [ofList]

theorem ofList_hasKid : (ofList keys).hasKid kid = true ↔ ∃ key ∈ keys, key.kid = some kid := by
  simp [ofList]

/-- A list verifies by thumbprint exactly when a key of that thumbprint does. -/
theorem ofList_verify : (ofList keys).verify keyid msg sig = .ok ↔
    ∃ key ∈ keys, key.thumbprint = keyid ∧ key.verifies msg sig = true := by
  simp [ofList]

/-- A list verifies by name exactly when a key of that name does. -/
theorem ofList_verifyKid : (ofList keys).verifyKid kid msg sig = .ok ↔
    ∃ key ∈ keys, key.kid = some kid ∧ key.verifies msg sig = true := by
  simp [ofList]

end Keys

/-- A key may make the signature valid by its thumbprint. A key of the directory may do so by its name when the
fallback is on and no key has the thumbprint. -/
inductive Trusted (dynamic static : List PublicKey) (fallback : Bool) (keyid base signature : Bytes) : Prop
  | thumbprint {key : PublicKey} (member : key ∈ dynamic ∨ key ∈ static) (found : key.thumbprint = keyid)
      (verified : key.verifies base signature = true)
  | kid {key : PublicKey} (allowed : fallback = true)
      (unlisted : ∀ other, other ∈ dynamic ∨ other ∈ static → other.thumbprint ≠ keyid)
      (member : key ∈ dynamic) (found : key.kid = some keyid) (verified : key.verifies base signature = true)

namespace Module

/-- This is the check with the keys that the evaluation gives it. -/
def verifyWired (lcf : LocConf) (dynamicKeys staticKeys : Option (List PublicKey)) (fallback : Bool) (now : Int)
    (keyid base signature : Bytes) : Except Failure Unit :=
  let wired := { lcf with jwksKeys := staticKeys.map Keys.ofList, keyidFallbackAllow := fallback }
  let ctx := profileCtx wired (dynamicKeys.map Keys.ofList) now
  verifyEd25519 ctx.keys keyid base signature ctx.kidFallbackKeys

/-- The fallback sees the keys of the directory, and all keys are the ones of both sets. -/
theorem verifyWired_eq (lcf : LocConf) (dynamicKeys staticKeys : Option (List PublicKey)) (fallback : Bool)
    (now : Int) (keyid base signature : Bytes) :
    verifyWired lcf dynamicKeys staticKeys fallback now keyid base signature =
      verifyEd25519 ((dynamicKeys.merge (· ++ ·) staticKeys).map Keys.ofList) keyid base signature
        (if fallback then dynamicKeys.map Keys.ofList else none) := by
  simp only [verifyWired, profileCtx, Keys.chain_ofList]

/-- A source accepts by thumbprint, or by name where the thumbprint is unknown. -/
theorem keyAccepts_some {source : Keys} {fallback : Option Keys} {keyid base signature : Bytes} :
    KeyAccepts (some source) fallback keyid base signature ↔ keyid ≠ [] ∧
      (source.has keyid = true ∧ source.verify keyid base signature = .ok ∨
        source.has keyid = false ∧ source.hasKid keyid = true ∧
          ∃ limited, fallback = some limited ∧ limited.verifyKid keyid base signature = .ok) := by
  simp only [KeyAccepts, Option.some.injEq, exists_eq_left']

/-- A signature is accepted exactly when it has 64 octets and a trusted key verifies it. -/
theorem verify_trusted_iff (lcf : LocConf) (dynamicKeys staticKeys : Option (List PublicKey)) (fallback : Bool)
    (now : Int) (keyid base signature : Bytes) :
    verifyWired lcf dynamicKeys staticKeys fallback now keyid base signature = .ok () ↔
      keyid ≠ [] ∧ signature.length = 64 ∧
        Trusted (dynamicKeys.getD []) (staticKeys.getD []) fallback keyid base signature := by
  rw [verifyWired_eq]
  cases whole : dynamicKeys.merge (· ++ ·) staticKeys with
  | none =>
      obtain ⟨rfl, rfl⟩ : dynamicKeys = none ∧ staticKeys = none := by
        cases dynamicKeys <;> cases staticKeys <;> simp_all
      constructor
      · intro ok
        cases ok
      · rintro ⟨_, _, trusted⟩
        cases trusted with
        | thumbprint member => simp at member
        | kid _ _ member => simp at member
  | some all =>
      have listed (key : PublicKey) : key ∈ all ↔ key ∈ dynamicKeys.getD [] ∨ key ∈ staticKeys.getD [] := by
        cases dynamicKeys <;> cases staticKeys <;> cases whole <;> simp
      rw [Option.map_some, verifyEd25519_eq_ok, keyAccepts_some, and_left_comm]
      refine and_congr_right fun _ => and_congr_right fun _ => ⟨?_, ?_⟩
      · rintro (⟨_, verified⟩ | ⟨unlisted, _, keys, fallbackKeys, verified⟩)
        · obtain ⟨key, member, found, verifies⟩ := Keys.ofList_verify.mp verified
          exact .thumbprint ((listed key).mp member) found verifies
        · have absent : ∀ other, other ∈ dynamicKeys.getD [] ∨ other ∈ staticKeys.getD [] →
            other.thumbprint ≠ keyid := by
            intro other member found
            have has := Keys.ofList_has.mpr ⟨other, (listed other).mpr member, found⟩
            simp [has] at unlisted
          cases fallback with
          | false => cases fallbackKeys
          | true =>
              obtain ⟨dynamicList, rfl, rfl⟩ := Option.map_eq_some_iff.mp fallbackKeys
              obtain ⟨key, member, found, verifies⟩ := Keys.ofList_verifyKid.mp verified
              exact .kid rfl absent member found verifies
      · rintro (⟨member, found, verified⟩ | ⟨rfl, unlisted, member, found, verified⟩)
        · have inside := (listed _).mpr member
          exact .inl ⟨Keys.ofList_has.mpr ⟨_, inside, found⟩, Keys.ofList_verify.mpr ⟨_, inside, found, verified⟩⟩
        · right
          obtain ⟨dynamicList, rfl⟩ : ∃ dynamicList, dynamicKeys = some dynamicList := by
            cases dynamicKeys with
            | none => simp at member
            | some dynamicList => exact ⟨dynamicList, rfl⟩
          refine ⟨?_, Keys.ofList_hasKid.mpr ⟨_, (listed _).mpr (.inl member), found⟩, Keys.ofList dynamicList, rfl,
            Keys.ofList_verifyKid.mpr ⟨_, member, found, verified⟩⟩
          rw [← Bool.not_eq_true, Keys.ofList_has]
          rintro ⟨other, inside, same⟩
          exact unlisted other ((listed other).mp inside) same

end Module

end AuthHttpsig
