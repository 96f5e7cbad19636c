/-
This file shows that equal signed bytes give one agent host where one entry is in effect, its line is the only one
that has it and the covered identifier names it.
-/

import AuthHttpsig.Proof.OtherSignatures
import AuthHttpsig.Proof.ProfileAgent

namespace AuthHttpsig.Profile
open Ascii AssocList Sfv Base

/-- This is the member of a line that is a dictionary. -/
def lineMember (key line : Bytes) : Option Member :=
  match parseDictionary line with
  | .ok dict => dictGet dict key
  | .error _ => none

/-- These are the keys of a line that is a dictionary. -/
def lineKeys (line : Bytes) : List Bytes :=
  match parseDictionary line with
  | .ok dict => dict.entries.map Prod.fst
  | .error _ => []

/-- A line has a member of its own for each key it has. -/
theorem lineMember_isSome (key line : Bytes) : (lineMember key line).isSome = true ↔ key ∈ lineKeys line := by
  unfold lineMember lineKeys
  cases parseDictionary line with
  | error failure => simp
  | ok dict =>
      simp only [dictGet, List.lookup_isSome_iff, List.mem_map, beq_iff_eq]
      exact exists_congr fun entry => and_congr_right fun _ => eq_comm

/-- Every line is a dictionary with members, the lines together stay within the limits of the parser, and one line
alone has the key. -/
structure OwnLine (raws : List Bytes) (key : Bytes) : Prop where
  dictionaries : ∀ line ∈ raws, lineKeys line ≠ []
  few : (raws.flatMap lineKeys).dedup.length ≤ maxSfvItems
  short : (joinLines raws).length ≤ maxSfvLength
  single : (raws.filter fun line => decide (key ∈ lineKeys line)).length = 1

/-- A dictionary line spells pairs whose last values are its members. -/
theorem line_spells {line : Bytes} (dictionary : lineKeys line ≠ []) :
    ∃ pairs, Spelled line pairs ∧ ∀ key, lastValue pairs key = lineMember key line := by
  unfold lineKeys at dictionary
  cases parsed : parseDictionary line with
  | error failure => simp [parsed] at dictionary
  | ok dict =>
      simp only [parsed, ne_eq, List.map_eq_nil_iff] at dictionary
      obtain ⟨pairs, spelled, rfl⟩ := parseDictionary_spells parsed dictionary
      refine ⟨pairs, spelled, fun key => ?_⟩
      rw [lineMember, parsed]
      exact (dictGet_dictionaryOf pairs key).symm

/-- The last line with a key gives its member of the joined lines. -/
theorem lines_spell {raws : List Bytes} (nonempty : raws ≠ []) (dictionaries : ∀ line ∈ raws, lineKeys line ≠ []) :
    ∃ pairs, Spelled (joinLines raws) pairs ∧
      ∀ key, lastValue pairs key = raws.reverse.findSome? (lineMember key) := by
  induction raws using List.reverseRecOn with
  | nil => exact absurd rfl nonempty
  | append_singleton raws line ih =>
      obtain ⟨more, second, lastly⟩ := line_spells (dictionaries line (by simp))
      by_cases alone : raws = []
      · subst alone
        refine ⟨more, second, fun key => ?_⟩
        rw [lastly]
        simp
      · obtain ⟨pairs, first, values⟩ :=
          ih alone fun other member => dictionaries other (List.mem_append_left _ member)
        refine ⟨pairs ++ more, spelled_snoc alone first second, fun key => ?_⟩
        rw [lastValue_append, values, lastly, List.reverse_append, List.findSome?_append]
        simp

section OwnLine

variable {raws : List Bytes} {key : Bytes}

/-- A field with an own line has a line. -/
theorem OwnLine.nonempty (own : OwnLine raws key) : raws ≠ [] := by
  rintro rfl
  simpa using own.single

/-- The joined lines are one dictionary. -/
theorem OwnLine.parsed (own : OwnLine raws key) :
    ∃ dict, parseDictionary (joinLines raws) = .ok dict ∧
      ∀ name, dictGet dict name = raws.reverse.findSome? (lineMember name) := by
  obtain ⟨pairs, spelled, values⟩ := lines_spell own.nonempty own.dictionaries
  have known : firstKeys pairs ⊆ (raws.flatMap lineKeys).dedup := by
    intro name member
    have present : (dictGet (dictionaryOf pairs) name).isSome = true := by
      rw [← collect_keys, collect_eq_lastWins] at member
      obtain ⟨entry, inside, same⟩ := List.mem_map.mp member
      rw [dictGet, List.lookup_isSome_iff]
      exact ⟨entry, inside, by simpa using same.symm⟩
    rw [dictGet_dictionaryOf, values, List.findSome?_isSome_iff] at present
    obtain ⟨line, inside, found⟩ := present
    rw [List.mem_dedup, List.mem_flatMap]
    exact ⟨line, List.mem_reverse.mp inside, (lineMember_isSome name line).mp found⟩
  have distinct : (firstKeys pairs).Nodup := by
    rw [← collect_keys]
    exact collect_nodup pairs
  have few : (firstKeys pairs).length ≤ maxSfvItems := (distinct.subperm known).length_le.trans own.few
  refine ⟨_, spelled.parses few own.short, fun name => ?_⟩
  rw [← values]
  exact dictGet_dictionaryOf pairs name

/-- The only line with the key gives its member of the joined lines. -/
theorem OwnLine.member (own : OwnLine raws key) {line : Bytes} {member : Member} (present : line ∈ raws)
    (found : lineMember key line = some member) :
    raws.reverse.findSome? (lineMember key) = some member := by
  obtain ⟨only, alone⟩ := List.length_eq_one_iff.mp own.single
  have unique : ∀ other ∈ raws, (lineMember key other).isSome = true → other = only := by
    intro other inside some_
    rw [← List.mem_singleton, ← alone, List.mem_filter, decide_eq_true_eq]
    exact ⟨inside, (lineMember_isSome key other).mp some_⟩
  have exists_ : (raws.reverse.findSome? (lineMember key)).isSome = true := by
    rw [List.findSome?_isSome_iff]
    exact ⟨line, List.mem_reverse.mpr present, by rw [found]; rfl⟩
  obtain ⟨last, shape⟩ := Option.isSome_iff_exists.mp exists_
  obtain ⟨other, inside, value⟩ := List.exists_of_findSome?_eq_some shape
  rw [shape, ← value, unique other (List.mem_reverse.mp inside) (by rw [value]; rfl),
    ← unique line present (by rw [found]; rfl), found]

/-- The covered identifier of this key names the member of its only line. -/
theorem OwnLine.agentMember {req : Request} (own : OwnLine (collect req signatureAgent) key) {line : Bytes}
    {member : Member} (present : line ∈ collect req signatureAgent) (found : lineMember key line = some member) :
    agentMember req key = some member := by
  obtain ⟨dict, parsed, values⟩ := own.parsed
  have joined : fieldValue req signatureAgent = some (joinLines (collect req signatureAgent)) :=
    fieldValue_eq_some.mpr ⟨own.nonempty, rfl⟩
  rw [Profile.agentMember, joined, Option.bind_some, parsed]
  dsimp only
  rw [values, own.member present found]

end OwnLine

/-- These are the keys of the usable entries in the order of the lines. -/
def usableKeys (raws : List Bytes) : List (Option Bytes) := (offers raws).map Offer.key

/-- The label is the key of the entry in effect where a usable entry has it, or else the first usable entry is in
effect. -/
def keyInEffect (raws : List Bytes) (label : Bytes) : Option (Option Bytes) :=
  if 0 < label.length ∧ some label ∈ usableKeys raws then some (some label) else (usableKeys raws).head?

/-- The key in effect is that of the offer in effect. -/
theorem offerInEffect_key (raws : List Bytes) (label : Bytes) :
    (offerInEffect raws label).map Offer.key = keyInEffect raws label := by
  unfold offerInEffect keyInEffect usableKeys
  cases named : (offers raws).find? (Offer.keyed label) with
  | some found =>
      have keyed := List.find?_some named
      simp only [Offer.keyed, Bool.and_eq_true, decide_eq_true_eq, beq_iff_eq] at keyed
      rw [if_pos ⟨keyed.1, List.mem_map.mpr ⟨found, List.mem_of_find?_eq_some named, keyed.2⟩⟩, Option.some_or,
        Option.map_some, keyed.2]
  | none =>
      have absent : ¬(0 < label.length ∧ some label ∈ (offers raws).map Offer.key) := by
        rintro ⟨filled, member⟩
        obtain ⟨offer, inside, same⟩ := List.mem_map.mp member
        exact List.find?_eq_none.mp named offer inside (by simp [Offer.keyed, filled, same])
      rw [if_neg absent, Option.none_or, List.head?_map]

/-- The offer in effect is the first one with its key. -/
theorem find_offerInEffect {raws : List Bytes} {label : Bytes} {offer : Offer}
    (effective : offerInEffect raws label = some offer) :
    (offers raws).find? (fun other => other.key == offer.key) = some offer := by
  unfold offerInEffect at effective
  cases named : (offers raws).find? (Offer.keyed label) with
  | some found =>
      rw [named, Option.some_or, Option.some.injEq] at effective
      subst effective
      have keyed := List.find?_some named
      simp only [Offer.keyed, Bool.and_eq_true, decide_eq_true_eq, beq_iff_eq] at keyed
      have same : Offer.keyed label = fun other => other.key == found.key := by
        funext other
        simp [Offer.keyed, keyed.1, keyed.2]
      rw [← same]
      exact named
  | none =>
      rw [named, Option.none_or] at effective
      obtain ⟨rest, shape⟩ := List.head?_eq_some_iff.mp effective
      rw [shape]
      simp

/-- This is the first line with a usable entry under the key. -/
def lineInEffect (raws : List Bytes) (key : Option Bytes) : Option Bytes :=
  raws.find? fun line => (lineOffers line).any fun offer => offer.key == key

/-- The first offer with a key is the first one of the first line that has it. -/
theorem find_offers (raws : List Bytes) (key : Option Bytes) :
    (offers raws).find? (fun offer => offer.key == key) =
      (lineInEffect raws key).bind fun line => (lineOffers line).find? fun offer => offer.key == key := by
  induction raws with
  | nil => rfl
  | cons line rest ih =>
      rw [offers, List.flatMap_cons, List.find?_append, ← offers, ih]
      cases named : (lineOffers line).any fun offer => offer.key == key with
      | true =>
          have here : lineInEffect (line :: rest) key = some line := List.find?_cons_of_pos named
          obtain ⟨offer, found⟩ := Option.isSome_iff_exists.mp (List.find?_isSome.mpr (List.any_eq_true.mp named))
          rw [here, Option.bind_some, found, Option.some_or]
      | false =>
          have later : lineInEffect (line :: rest) key = lineInEffect rest key :=
            List.find?_cons_of_neg (by rw [named]; exact Bool.false_ne_true)
          have absent : (lineOffers line).find? (fun offer => offer.key == key) = none :=
            List.find?_eq_none.mpr (List.any_eq_false.mp named)
          rw [later, absent, Option.none_or]

/-- The entry in effect of dictionary lines is a member of one of them. -/
theorem offerInEffect_member {raws : List Bytes} {label key : Bytes} {offer : Offer}
    (dictionaries : ∀ line ∈ raws, lineKeys line ≠ []) (effective : offerInEffect raws label = some offer)
    (keyed : offer.key = some key) :
    ∃ line ∈ raws, ∃ member, lineMember key line = some member ∧ usableUrl member = some offer.url := by
  obtain ⟨line, present, offered⟩ := List.mem_flatMap.mp (List.mem_of_find?_eq_some (find_offerInEffect effective))
  refine ⟨line, present, ?_⟩
  have dictionary := dictionaries line present
  unfold lineKeys at dictionary
  unfold lineOffers at offered
  cases parsed : parseDictionary line with
  | error failure => simp [parsed] at dictionary
  | ok dict =>
      split at offered
      · simp at offered
      simp only [parsed, ne_eq, List.map_eq_nil_iff] at offered dictionary
      obtain ⟨⟨name, member⟩, inside, shape⟩ := List.mem_filterMap.mp offered
      obtain ⟨url, usable, rfl⟩ := Option.map_eq_some_iff.mp shape
      obtain rfl : name = key := Option.some.inj keyed
      refine ⟨member, ?_, usable⟩
      obtain ⟨pairs, _, rfl⟩ := parseDictionary_spells parsed dictionary
      rw [lineMember, parsed]
      exact lookup_of_mem (lastWins_nodup pairs) inside

/-- The list covers the whole field or the member with this key. -/
def SignsEntry (list : InnerList) (key : Bytes) : Prop :=
  ∃ item ∈ list.items, item.bare = .string signatureAgent ∧
    ∀ name ∈ fieldAgentKey signatureAgent item.params, name = key

/-- Equal values of the covered identifier have equal members under a signed key. -/
theorem agentMember_signed {req other : Request} {list : InnerList} {key : Bytes} (signs : SignsEntry list key)
    (same : ∀ item ∈ list.items, ∃ value, componentValue req item = .ok value ∧
      componentValue other item = .ok value) : agentMember req key = agentMember other key := by
  obtain ⟨item, inside, named, keyed⟩ := signs
  obtain ⟨value, first, second⟩ := same item inside
  rw [componentValue_signatureAgent named] at first second
  cases shape : fieldAgentKey signatureAgent item.params with
  | some name =>
      obtain rfl : name = key := keyed name shape
      simp only [shape, fieldAgentMember_eq_ok] at first second
      obtain ⟨member, firstFound, rfl⟩ := first
      obtain ⟨otherMember, secondFound, written⟩ := second
      rw [firstFound, secondFound, writeMember_injective (agentMember_wellFormed firstFound)
        (agentMember_wellFormed secondFound) written]
  | none =>
      simp only [shape] at first second
      rw [agentMember, agentMember, first.2, second.2]

/-- The entries in effect have one key. Its first line is the same, or the list signs the entry and one line alone
has it. -/
def SameEntry (list : InnerList) (raws others : List Bytes) (label otherLabel : Bytes) : Prop :=
  keyInEffect raws label = keyInEffect others otherLabel ∧
    ∀ key ∈ keyInEffect raws label, lineInEffect raws key = lineInEffect others key ∨
      ∃ name, key = some name ∧ SignsEntry list name ∧ OwnLine raws name ∧ OwnLine others name

/-- The covered identifier, the labels and the lines bind one entry of both requests. -/
def AgentBound (tag : Bytes) (req other : Request) : Prop :=
  ∀ entry ∈ selectedEntry tag req, ∀ otherEntry ∈ selectedEntry tag other,
    SameEntry entry.2 (collect req signatureAgent) (collect other signatureAgent) entry.1 otherEntry.1

/-- Bound entries of requests with equal values have one URL. -/
theorem SameEntry.url {req other : Request} {list : InnerList} {label otherLabel : Bytes}
    (bound : SameEntry list (collect req signatureAgent) (collect other signatureAgent) label otherLabel)
    (same : ∀ item ∈ list.items, ∃ value, componentValue req item = .ok value ∧
      componentValue other item = .ok value) :
    (offerInEffect (collect req signatureAgent) label).map Offer.url =
      (offerInEffect (collect other signatureAgent) otherLabel).map Offer.url := by
  obtain ⟨keys, bound⟩ := bound
  rw [← offerInEffect_key] at keys bound
  rw [← offerInEffect_key] at keys
  cases first : offerInEffect (collect req signatureAgent) label with
  | none =>
      rw [first, Option.map_none, eq_comm, Option.map_eq_none_iff] at keys
      rw [keys]
  | some offer =>
      rw [first, Option.map_some, eq_comm, Option.map_eq_some_iff] at keys
      obtain ⟨second, present, sameKey⟩ := keys
      rcases bound offer.key (by rw [first]; rfl) with line | ⟨name, keyed, signs, own, otherOwn⟩
      · have found := find_offerInEffect first
        have otherFound := find_offerInEffect present
        rw [find_offers, line] at found
        rw [sameKey, find_offers, found, Option.some.injEq] at otherFound
        rw [present, otherFound]
      · obtain ⟨line, inside, member, found, usable⟩ := offerInEffect_member own.dictionaries first keyed
        obtain ⟨otherLine, otherInside, otherMember, otherFound, otherUsable⟩ :=
          offerInEffect_member otherOwn.dictionaries present (sameKey.trans keyed)
        have members := agentMember_signed signs same
        rw [own.agentMember inside found, otherOwn.agentMember otherInside otherFound, Option.some.injEq] at members
        rw [members, otherUsable] at usable
        rw [present, Option.map_some, Option.map_some, usable]

/-- The list of the sample covers the entry of its key. -/
theorem keyedComponents_signs : SignsEntry keyedComponents (ascii "a") :=
  ⟨⟨.string signatureAgent, [(ascii "key", .string (ascii "a"))]⟩, by decide +kernel, rfl, by decide +kernel⟩

/-- The signed request has the entry on a line of its own. -/
theorem signedRequest_ownLine : OwnLine (collect signedRequest signatureAgent) (ascii "a") := by
  constructor <;> decide +kernel

/-- The copy has the entry on a line of its own. -/
theorem extendedRequest_ownLine : OwnLine (collect extendedRequest signatureAgent) (ascii "a") := by
  constructor <;> decide +kernel

/-- The label and the identifier name the line of the signer also where a further line comes before it. -/
theorem extendedRequest_bound : AgentBound (sampleCtx keyedBase).profile.tag signedRequest extendedRequest := by
  have selected :
      selectedEntry (sampleCtx keyedBase).profile.tag signedRequest = some (ascii "a", keyedComponents) := by
    decide +kernel
  have otherSelected : selectedEntry (sampleCtx keyedBase).profile.tag extendedRequest =
      some (ascii "a", keyedComponents) := by
    decide +kernel
  have key : keyInEffect (collect signedRequest signatureAgent) (ascii "a") = some (some (ascii "a")) := by
    decide +kernel
  have otherKey : keyInEffect (collect extendedRequest signatureAgent) (ascii "a") = some (some (ascii "a")) := by
    decide +kernel
  intro entry present otherEntry otherPresent
  rw [selected] at present
  rw [otherSelected] at otherPresent
  cases present
  cases otherPresent
  refine ⟨key.trans otherKey.symm, ?_⟩
  intro name effective
  rw [key] at effective
  cases effective
  exact .inr ⟨_, rfl, keyedComponents_signs, signedRequest_ownLine, extendedRequest_ownLine⟩

end AuthHttpsig.Profile
