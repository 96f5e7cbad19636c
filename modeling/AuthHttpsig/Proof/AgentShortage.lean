/-
This file gives the agents that a verification can report when its allocations fail.
-/

import AuthHttpsig.Proof.AgentAuthority
import AuthHttpsig.Proof.ProfileAgent
import AuthHttpsig.Proof.SfvStandard

namespace AuthHttpsig.Profile

open Ascii Sfv Base

/-- The octets of a scheme stop the reader of a dictionary after its key. -/
theorem scheme_octet {c : UInt8} : isAlpha c = true ∨ c = colon →
    c ≠ equals ∧ c ≠ semicolon ∧ c ≠ comma ∧ (c == sp || c == htab) = false := by
  grind [isAlpha, isLower, isUpper]

theorem alpha_octet {c : UInt8} : isAlpha c = true → c ≠ sp ∧ c ≠ dquote := by
  grind [isAlpha, isLower, isUpper]

/-- The key of a dictionary ends at the colon of a scheme or before it. -/
theorem dropWhile_scheme {letters : Bytes} (rest : Bytes) (alpha : ∀ c ∈ letters, isAlpha c = true) :
    ∃ d more, (letters ++ colon :: rest).dropWhile isKeyChar = d :: more ∧ (isAlpha d = true ∨ d = colon) := by
  induction letters with
  | nil => exact ⟨colon, rest, rfl, .inr rfl⟩
  | cons c letters ih =>
      rw [List.cons_append, List.dropWhile_cons]
      split
      · exact ih fun d present => alpha d (List.mem_cons_of_mem c present)
      · exact ⟨c, letters ++ colon :: rest, rfl, .inl (alpha c List.mem_cons_self)⟩

/-- A text that opens with a scheme is no dictionary. -/
theorem parseDictionary_scheme {c : UInt8} {letters rest : Bytes} (alpha : ∀ d ∈ c :: letters, isAlpha d = true)
    (dict : Dictionary) : parseDictionary (c :: letters ++ colon :: rest) ≠ .ok dict := by
  intro parsed
  have short : (c :: letters ++ colon :: rest).length ≤ maxSfvLength := by
    by_contra long
    rw [parseDictionary, parseWith, if_pos (by omega)] at parsed
    cases parsed
  have first := alpha_octet (alpha c List.mem_cons_self)
  have unspaced : skipSp (c :: letters ++ colon :: rest) = c :: letters ++ colon :: rest := by
    simp [skipSp, first.1]
  obtain ⟨d, more, dropped, stops⟩ := dropWhile_scheme rest fun e present =>
    alpha e (List.mem_cons_of_mem c present)
  obtain ⟨unequal, unparameterized, uncomma, unspace⟩ := scheme_octet stops
  have value : readMemberValue (d :: more) = .ok (.item ⟨.boolean true, []⟩, d :: more) := by
    simp [readMemberValue, readParameters, readParametersLoop, unequal, unparameterized]
  have separator : readSeparator (d :: more) = .error ⟨d :: more, "expected a comma"⟩ := by
    have kept : skipOws (d :: more) = d :: more := by
      simp only [skipOws, List.dropWhile_cons, unspace, Bool.false_eq_true, if_false]
    simp [readSeparator, kept, uncomma]
  obtain ⟨unread, read, _⟩ := (parseWith_eq_ok short).mp parsed
  rw [unspaced, List.cons_append, readDictionaryLoop, bind_eq_ok] at read
  obtain ⟨⟨key, afterKey⟩, named, read⟩ := read
  have after : afterKey = d :: more := by
    rw [readKey] at named
    split at named
    · simp only [Except.ok.injEq, Prod.mk.injEq] at named
      exact named.2.symm.trans dropped
    · cases named
  subst after
  dsimp only at read
  split at read
  · cases read
  obtain ⟨_, found, read⟩ := bind_eq_ok.mp read
  rw [value] at found
  cases found
  obtain ⟨_, found, _⟩ := bind_eq_ok.mp read
  rw [separator] at found
  cases found

/-- The first octet of a dictionary begins a key. -/
theorem parseDictionary_opens {line : Bytes} {dict : Dictionary} (parsed : parseDictionary line = .ok dict) :
    ∀ c ∈ (skipSp line).head?, c ≠ dquote := by
  have short : line.length ≤ maxSfvLength := by
    by_contra long
    rw [parseDictionary, parseWith, if_pos (by omega)] at parsed
    cases parsed
  obtain ⟨unread, read, _⟩ := (parseWith_eq_ok short).mp parsed
  rintro c first rfl
  obtain ⟨rest, shape⟩ := List.head?_eq_some_iff.mp first
  rw [shape, readDictionaryLoop, bind_eq_ok] at read
  obtain ⟨_, named, _⟩ := read
  cases named

/-- The first octet of a string item is its quote. -/
theorem parseItem_opens {line value : Bytes} {list : Params} (parsed : parseItem line = .ok ⟨.string value, list⟩) :
    (skipSp line).head? = some dquote := by
  have short : line.length ≤ maxSfvLength := by
    by_contra long
    rw [parseItem, parseWith, if_pos (by omega)] at parsed
    cases parsed
  obtain ⟨unread, read, _⟩ := (parseWith_eq_ok short).mp parsed
  rw [readItem, bind_eq_ok] at read
  obtain ⟨⟨bare, rest⟩, bareRead, read⟩ := read
  obtain ⟨_, _, read⟩ := bind_eq_ok.mp read
  have kind : bare = .string value := by
    cases read
    rfl
  subst kind
  obtain ⟨text, split, spelled⟩ := readBareItem_sound bareRead
  cases spelled
  rw [split]
  rfl

/-- Only letters fold to letters, and only a colon folds to it. -/
theorem toLower_scheme {c : UInt8} :
    (isLower (toLower c) = true → isAlpha c = true) ∧ (toLower c = colon → c = colon) := by
  grind [isAlpha, toLower, isLower, isUpper]

/-- An https URL begins with the letters of its scheme. -/
theorem agentBounds_scheme {url : Bytes} {bounds : AgentBounds} (found : agentBounds url = some bounds) :
    ∃ c letters rest, url = c :: letters ++ colon :: rest ∧ ∀ d ∈ c :: letters, isAlpha d = true := by
  obtain ⟨scheme, userinfo, port, rest, shape, _, folded, _⟩ := Directory.agentBounds_located found
  have same : scheme.map toLower = ascii "https" ++ colon :: [slash, slash] := (eq_of_beq folded).trans (by decide)
  obtain ⟨letters, others, rfl, lettersFold, othersFold⟩ := List.map_eq_append_iff.mp same
  obtain ⟨stop, slashes, rfl, stopFold, _⟩ := List.map_eq_cons_iff.mp othersFold
  obtain ⟨c, more, rfl, _, _⟩ := List.map_eq_cons_iff.mp lettersFold
  obtain rfl := toLower_scheme.2 stopFold
  refine ⟨c, more, slashes ++ userinfo ++ bounds.authority ++ rest, by simp [shape], ?_⟩
  intro d present
  apply toLower_scheme.1
  have lower : toLower d ∈ ascii "https" := lettersFold ▸ List.mem_map_of_mem present
  exact List.all_eq_true.mp (show (ascii "https").all isLower = true by decide) _ lower

/-- A dictionary is no https URL. -/
theorem agentBounds_dictionary {line : Bytes} {dict : Dictionary} (parsed : parseDictionary line = .ok dict) :
    agentBounds line = none := by
  by_contra some_
  obtain ⟨bounds, found⟩ := Option.ne_none_iff_exists'.mp some_
  obtain ⟨c, letters, rest, rfl, alpha⟩ := agentBounds_scheme found
  exact parseDictionary_scheme alpha dict parsed

/-- A string item is no https URL. -/
theorem agentBounds_item {line value : Bytes} {list : Params} (parsed : parseItem line = .ok ⟨.string value, list⟩) :
    agentBounds line = none := by
  by_contra some_
  obtain ⟨bounds, found⟩ := Option.ne_none_iff_exists'.mp some_
  obtain ⟨c, letters, rest, rfl, alpha⟩ := agentBounds_scheme found
  have opens := parseItem_opens parsed
  have first := alpha_octet (alpha c List.mem_cons_self)
  rw [List.cons_append, skipSp, List.dropWhile_cons, if_neg (by simpa using first.1)] at opens
  exact first.2 (Option.some.inj opens)

/-- These are the offers of a line that meets this room. -/
def lineOffersIn (room : AgentRoom) (index : Nat) (line : Bytes) : List Offer :=
  if line.length = 0 || maxSfvLength < line.length then []
  else match room.dictionary index, parseDictionary line with
    | true, .ok dict => dict.entries.filterMap entryOffer
    | _, _ => [⟨none, agentLine (room.item index) line⟩]

def offersIn (room : AgentRoom) : Nat → List Bytes → List Offer
  | _, [] => []
  | index, line :: rest => lineOffersIn room index line ++ offersIn room (index + 1) rest

/-- The offers of two lists of lines are those of the first and those of the second. -/
theorem offersIn_append (room : AgentRoom) (index : Nat) (before after : List Bytes) :
    offersIn room index (before ++ after) =
      offersIn room index before ++ offersIn room (index + before.length) after := by
  induction before generalizing index with
  | nil => rfl
  | cons line before ih =>
      have shifted : index + 1 + before.length = index + (line :: before).length := by
        rw [List.length_cons]
        omega
      rw [List.cons_append, offersIn, offersIn, ih, shifted, List.append_assoc]

/-- Scanning lines short of memory is scanning the offers that were read. -/
theorem agentLinesIn_scanOf (room : AgentRoom) (label : Bytes) (index : Nat) (seen : List Offer) (raws : List Bytes)
    (unmatched : (scanOf label seen).found = none) :
    (agentLinesIn room label index (scanOf label seen) raws).url =
      (scanOf label (seen ++ offersIn room index raws)).url := by
  induction raws generalizing index seen with
  | nil => simp [agentLinesIn, offersIn]
  | cons line rest ih =>
      simp only [agentLinesIn, offersIn, lineOffersIn]
      rw [← List.append_assoc]
      split
      · simpa using ih (index + 1) seen unmatched
      have fallback (url : Bytes) :
          (agentLinesIn room label (index + 1) { scanOf label seen with
            fallback := if (scanOf label seen).fallback.isNone then some url else (scanOf label seen).fallback }
            rest).url = (scanOf label (seen ++ [⟨none, url⟩] ++ offersIn room (index + 1) rest)).url := by
        rw [← scanOf_unkeyed unmatched]
        exact ih (index + 1) _ (by rw [scanOf_unkeyed unmatched]; exact unmatched)
      cases room.dictionary index with
      | false => exact fallback _
      | true =>
          cases parseDictionary line with
          | error failure => exact fallback _
          | ok dict =>
              simp only
              rw [agentEntries_scanOf]
              split
              · next found => exact (scanOf_stable_url found _).symm
              · next open_ => exact ih (index + 1) _ (by simpa using open_)

/-- The agent is the keyed offer that was read, else the first one. -/
theorem agentUrlIn_eq (room : AgentRoom) (raws : List Bytes) (label : Bytes) :
    agentUrlIn room raws label =
      (((offersIn room 0 raws).find? (Offer.keyed label)).or (offersIn room 0 raws).head?).map Offer.url := by
  have scanned := agentLinesIn_scanOf room label 0 [] raws rfl
  rw [List.nil_append] at scanned
  change (agentLinesIn room label 0 (scanOf label []) raws).url = _
  rw [scanned, AgentScan.url, scanOf]
  cases (offersIn room 0 raws).find? (Offer.keyed label) <;> simp

/-- A line makes its own offers, or it stands for itself and is no https URL. -/
theorem lineOffersIn_cases (room : AgentRoom) (index : Nat) (line : Bytes) :
    lineOffersIn room index line = lineOffers line ∨
      lineOffersIn room index line = [⟨none, line⟩] ∧ agentBounds line = none := by
  unfold lineOffersIn lineOffers
  split
  · exact .inl rfl
  cases parsed : parseDictionary line with
  | ok dict =>
      cases room.dictionary index with
      | true => exact .inl rfl
      | false =>
          have itself : agentLine (room.item index) line = line := by
            unfold agentLine
            split
            · split
              · next value list item =>
                  have quoted := parseItem_opens item
                  exact absurd rfl (parseDictionary_opens parsed _ quoted)
              · rfl
            · rfl
          exact .inr ⟨by rw [itself], agentBounds_dictionary parsed⟩
  | error failure =>
      have made : (match room.dictionary index, (.error failure : Except ParseError Dictionary) with
          | true, .ok dict => dict.entries.filterMap entryOffer
          | _, _ => [(⟨none, agentLine (room.item index) line⟩ : Offer)]) =
          [⟨none, agentLine (room.item index) line⟩] := by
        cases room.dictionary index <;> rfl
      rw [made]
      unfold agentLine
      cases room.item index with
      | true => exact .inl rfl
      | false =>
          cases item : parseItem line with
          | error failure => exact .inl (by simp [lineUrl, item])
          | ok found =>
              obtain ⟨bare, list⟩ := found
              cases bare with
              | string value => exact .inr ⟨rfl, agentBounds_item item⟩
              | _ => exact .inl (by simp [lineUrl, item])

/-- A line without room offers nothing under a label. -/
theorem lineOffersIn_short {room : AgentRoom} {index : Nat} (short : room.dictionary index = false)
    (label line : Bytes) :
    (lineOffersIn room index line).find? (Offer.keyed label) = none := by
  unfold lineOffersIn
  rw [short]
  split <;> simp [Offer.keyed]

/-- A line with room makes its own offers. -/
theorem lineOffersIn_roomy {room : AgentRoom} {index : Nat} (dictionary : room.dictionary index = true)
    (item : room.item index = true) (line : Bytes) : lineOffersIn room index line = lineOffers line := by
  unfold lineOffersIn lineOffers
  rw [dictionary, item]
  split
  · rfl
  cases parseDictionary line <;> rfl

/-- The verification can report the host of one of these URLs. They are what a line names under the label, and what
the first line with an offer gives by itself. -/
def shortUrls (raws : List Bytes) (label : Bytes) : List Bytes :=
  raws.filterMap (fun line => ((lineOffers line).find? (Offer.keyed label)).map Offer.url) ++
    ((raws.find? fun line => !(lineOffers line).isEmpty).bind fun line => agentUrl [line] label).toList

/-- A shortage can leave one of these agents, or none. -/
def shortAgents (raws : List Bytes) (label : Bytes) : List Bytes :=
  [] :: (shortUrls raws label).map fun url => urlHost (some url)

/-- An offer under the label is the one of a line. -/
theorem offersIn_keyed {room : AgentRoom} {index : Nat} {raws : List Bytes} {label : Bytes} {offer : Offer}
    (found : (offersIn room index raws).find? (Offer.keyed label) = some offer) :
    offer.url ∈ raws.filterMap fun line => ((lineOffers line).find? (Offer.keyed label)).map Offer.url := by
  induction raws generalizing index with
  | nil => cases found
  | cons line rest ih =>
      rw [offersIn, List.find?_append] at found
      rw [List.mem_filterMap]
      cases own : (lineOffersIn room index line).find? (Offer.keyed label) with
      | none =>
          rw [own, Option.none_or] at found
          obtain ⟨other, present, named⟩ := List.mem_filterMap.mp (ih found)
          exact ⟨other, List.mem_cons_of_mem line present, named⟩
      | some first =>
          rw [own, Option.some_or, Option.some.injEq] at found
          subst found
          rcases lineOffersIn_cases room index line with same | ⟨barren, _⟩
          · exact ⟨line, List.mem_cons_self, by rw [← same, own, Option.map_some]⟩
          · rw [barren] at own
            simp [Offer.keyed] at own

/-- The agent of one line is its keyed offer, else its first. -/
theorem agentUrl_single (line label : Bytes) :
    agentUrl [line] label =
      (((lineOffers line).find? (Offer.keyed label)).or (lineOffers line).head?).map Offer.url := by
  have single : offers [line] = lineOffers line := List.flatMap_singleton ..
  rw [agentUrl_eq, offerInEffect, single]

/-- Without an offer under the label the first offer is no https URL, or it is the one of the first line. -/
theorem offersIn_head {room : AgentRoom} {index : Nat} {raws : List Bytes} {label : Bytes} {offer : Offer}
    (unmatched : (offersIn room index raws).find? (Offer.keyed label) = none)
    (first : (offersIn room index raws).head? = some offer) :
    agentBounds offer.url = none ∨
      ((raws.find? fun line => !(lineOffers line).isEmpty).bind fun line => agentUrl [line] label) =
        some offer.url := by
  induction raws generalizing index with
  | nil => cases first
  | cons line rest ih =>
      rw [offersIn] at unmatched first
      rw [List.find?_append, Option.or_eq_none_iff] at unmatched
      rcases lineOffersIn_cases room index line with same | ⟨barren, unlocated⟩
      · rw [same] at unmatched first
        cases own : lineOffers line with
        | nil =>
            rw [own, List.nil_append] at first
            simpa [own] using ih unmatched.2 first
        | cons head tail =>
            right
            rw [own, List.cons_append, List.head?_cons, Option.some.injEq] at first
            subst first
            rw [List.find?_cons_of_pos (by simp [own]), Option.bind_some, agentUrl_single, unmatched.1, own]
            rfl
      · rw [barren, List.singleton_append, List.head?_cons, Option.some.injEq] at first
        subst first
        exact .inl unlocated

/-- The host is that of the agent, or empty where it cannot be copied. -/
theorem agentHostIn_eq (room : AgentRoom) (raws : List Bytes) (label : Bytes) :
    agentHostIn room raws label = if room.copy then urlHost (agentUrlIn room raws label) else [] := by
  unfold agentHostIn urlHost agentCopyIn
  cases (agentUrlIn room raws label).bind agentBounds with
  | none => simp
  | some bounds => rfl

/-- Whatever fails, the agent is one of the known ones. -/
theorem agentHostIn_mem (room : AgentRoom) (raws : List Bytes) (label : Bytes) :
    agentHostIn room raws label ∈ shortAgents raws label := by
  rw [agentHostIn_eq]
  split
  · rw [agentUrlIn_eq]
    cases named : (offersIn room 0 raws).find? (Offer.keyed label) with
    | some offer =>
        exact List.mem_cons_of_mem _ (List.mem_map_of_mem (List.mem_append_left _ (offersIn_keyed named)))
    | none =>
        cases first : (offersIn room 0 raws).head? with
        | none => exact List.mem_cons_self
        | some offer =>
            rcases offersIn_head named first with unlocated | given
            · have empty : urlHost (some offer.url) = [] := by simp [urlHost, unlocated]
              exact List.mem_cons.mpr (.inl empty)
            · apply List.mem_cons_of_mem
              apply List.mem_map_of_mem (f := fun url => urlHost (some url))
              exact List.mem_append_right _ (by simp [given])
  · exact List.mem_cons_self

/-- Only the lines of this range have room for a dictionary. -/
def lineRoom (first last : Nat) : AgentRoom where
  dictionary index := decide (first ≤ index ∧ index ≤ last)
  item _ := true
  copy := true

/-- Lines outside the readable ones offer nothing under the label. -/
theorem offersIn_unkeyed {first last index : Nat} {raws : List Bytes}
    (outside : index + raws.length ≤ first ∨ last < index) (label : Bytes) :
    (offersIn (lineRoom first last) index raws).find? (Offer.keyed label) = none := by
  induction raws generalizing index with
  | nil => rfl
  | cons line rest ih =>
      rw [List.length_cons] at outside
      have short : (lineRoom first last).dictionary index = false := by
        simp only [lineRoom, decide_eq_false_iff_not]
        omega
      rw [offersIn, List.find?_append, lineOffersIn_short short, Option.none_or]
      exact ih (by omega)

/-- Readable lines without an offer are read as none. -/
theorem offersIn_silent {first last index : Nat} {raws : List Bytes} (below : first ≤ index)
    (above : index + raws.length ≤ last + 1) (silent : ∀ line ∈ raws, lineOffers line = []) :
    offersIn (lineRoom first last) index raws = [] := by
  induction raws generalizing index with
  | nil => rfl
  | cons line rest ih =>
      rw [List.length_cons] at above
      have roomy : (lineRoom first last).dictionary index = true := by
        simp only [lineRoom, decide_eq_true_eq]
        omega
      rw [offersIn, lineOffersIn_roomy roomy rfl, silent line List.mem_cons_self, List.nil_append]
      exact ih (by omega) (by omega) fun other present => silent other (List.mem_cons_of_mem line present)

/-- The offers of a line are in effect alone when no other offer goes before them. -/
theorem agentUrlIn_line {first : Nat} {before after : List Bytes} {line label : Bytes}
    (within : first ≤ before.length)
    (unkeyed : (offersIn (lineRoom first before.length) 0 before).find? (Offer.keyed label) = none)
    (decided : offersIn (lineRoom first before.length) 0 before = [] ∧ lineOffers line ≠ [] ∨
      ((lineOffers line).find? (Offer.keyed label)).isSome = true) :
    agentUrlIn (lineRoom first before.length) (before ++ line :: after) label = agentUrl [line] label := by
  have own : lineOffersIn (lineRoom first before.length) before.length line = lineOffers line :=
    lineOffersIn_roomy (by simp [lineRoom, within]) rfl line
  have later : (offersIn (lineRoom first before.length) (before.length + 1) after).find? (Offer.keyed label) = none :=
    offersIn_unkeyed (.inr (Nat.lt_succ_self _)) label
  rw [agentUrlIn_eq, agentUrl_single, offersIn_append, Nat.zero_add, offersIn, own, List.find?_append,
    List.find?_append, unkeyed, later, Option.none_or, Option.or_none]
  rcases decided with ⟨nothing, filled⟩ | keyed
  · obtain ⟨head, tail, shape⟩ := List.exists_cons_of_ne_nil filled
    rw [nothing, shape]
    rfl
  · obtain ⟨offer, found⟩ := Option.isSome_iff_exists.mp keyed
    rw [found, Option.some_or, Option.some_or]

/-- Every one of the known agents is left by some shortage. -/
theorem shortAgents_reached {raws : List Bytes} {label agent : Bytes} (known : agent ∈ shortAgents raws label) :
    ∃ room, agentHostIn room raws label = agent := by
  have roomy (first last : Nat) (url : Bytes) (reached : agentUrlIn (lineRoom first last) raws label = some url) :
      ∃ room, agentHostIn room raws label = urlHost (some url) :=
    ⟨lineRoom first last, by rw [agentHostIn_eq, reached, lineRoom, if_pos rfl]⟩
  rcases List.mem_cons.mp known with rfl | present
  · exact ⟨{ AgentRoom.full with copy := false }, by rw [agentHostIn_eq, if_neg Bool.false_ne_true]⟩
  obtain ⟨url, listed, rfl⟩ := List.mem_map.mp present
  rcases List.mem_append.mp listed with named | first
  · obtain ⟨line, within, found⟩ := List.mem_filterMap.mp named
    obtain ⟨offer, keyed, rfl⟩ := Option.map_eq_some_iff.mp found
    obtain ⟨before, after, rfl⟩ := List.append_of_mem within
    apply roomy before.length before.length
    rw [agentUrlIn_line le_rfl (offersIn_unkeyed (.inl (by omega)) label)
      (.inr (by rw [keyed]; rfl)), agentUrl_single,
      keyed, Option.some_or, Option.map_some]
  · obtain ⟨line, chosen, given⟩ := Option.bind_eq_some_iff.mp (Option.mem_toList.mp first)
    obtain ⟨filled, before, after, rfl, silent⟩ := List.find?_eq_some_iff_append.mp chosen
    have nothing : offersIn (lineRoom 0 before.length) 0 before = [] :=
      offersIn_silent le_rfl (by omega) fun other present => by simpa using silent other present
    apply roomy 0 before.length
    rw [agentUrlIn_line (Nat.zero_le _) (by rw [nothing]; rfl) (.inl ⟨nothing, by simpa using filled⟩), given]

end AuthHttpsig.Profile
