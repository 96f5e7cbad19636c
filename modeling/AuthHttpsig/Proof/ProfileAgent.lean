/-
This file relates the reported agent host to the signed bytes. The host is the one that the
signature names when the Signature-Agent entry in effect is the signed one.
-/

import AuthHttpsig.Proof.BaseInjective
import AuthHttpsig.Proof.ProfileAccepts

namespace AuthHttpsig.Profile
open Ascii Sfv Base

/-- A usable URL with the dictionary key that carries it. -/
structure Offer where
  key : Option Bytes
  url : Bytes
  deriving DecidableEq, Repr

def entryOffer (entry : Bytes × Member) : Option Offer :=
  (usableUrl entry.2).map fun url => ⟨some entry.1, url⟩

/-- A line that is no dictionary is a string item or stands for itself. -/
def lineUrl (line : Bytes) : Bytes :=
  match parseItem line with
  | .ok ⟨.string value, _⟩ => value
  | _ => line

/-- A line offers the usable entries of its dictionary, or else one URL. -/
def lineOffers (line : Bytes) : List Offer :=
  if line.length = 0 || maxSfvLength < line.length then []
  else match parseDictionary line with
    | .ok dict => dict.entries.filterMap entryOffer
    | .error _ => [⟨none, lineUrl line⟩]

def offers (raws : List Bytes) : List Offer := raws.flatMap lineOffers

def Offer.keyed (label : Bytes) (offer : Offer) : Bool := decide (0 < label.length) && offer.key == some label

/-- The first offer under the label is in effect, or else the first offer of all. -/
def offerInEffect (raws : List Bytes) (label : Bytes) : Option Offer :=
  ((offers raws).find? (Offer.keyed label)).or (offers raws).head?

/-- The scan holds the first offer under the label and the first offer of all. -/
def scanOf (label : Bytes) (seen : List Offer) : AgentScan where
  found := (seen.find? (Offer.keyed label)).map Offer.url
  fallback := seen.head?.map Offer.url

/-- One more offer is found by its key where none was, and is first where none was seen. -/
theorem scanOf_append (label : Bytes) (seen : List Offer) (offer : Offer) :
    scanOf label (seen ++ [offer]) =
      { found := (scanOf label seen).found.or (if offer.keyed label then some offer.url else none)
        fallback := (scanOf label seen).fallback.or (some offer.url) } := by
  have single : [offer].find? (Offer.keyed label) = if offer.keyed label then some offer else none := by
    cases named : offer.keyed label <;> simp [named]
  simp only [scanOf, List.find?_append, single, List.head?_append, List.head?_cons, Option.map_or,
    Option.map_some, AgentScan.mk.injEq, and_true]
  split <;> rfl

theorem ite_isNone_eq_or {α : Type} (earlier : Option α) (value : α) (condition : Bool) :
    (if earlier.isNone && condition then some value else earlier) =
      earlier.or (if condition then some value else none) := by
  cases earlier <;> simp

/-- An entry of a dictionary adds its offer to the scan. -/
theorem agentEntry_scanOf (label : Bytes) (seen : List Offer) (entry : Bytes × Member) :
    agentEntry label (scanOf label seen) entry = scanOf label (seen ++ (entryOffer entry).toList) := by
  unfold agentEntry entryOffer
  cases usable : usableUrl entry.2 with
  | none => simp
  | some url =>
      simp only [Option.map_some, Option.toList_some, scanOf_append, Offer.keyed]
      rw [Bool.and_assoc, ite_isNone_eq_or]
      have fallback := ite_isNone_eq_or (scanOf label seen).fallback url true
      rw [Bool.and_true, if_pos rfl] at fallback
      rw [fallback]
      simp

/-- Scanning the entries of a dictionary is scanning their offers. -/
theorem agentEntries_scanOf (label : Bytes) (seen : List Offer) (entries : List (Bytes × Member)) :
    entries.foldl (agentEntry label) (scanOf label seen) =
      scanOf label (seen ++ entries.filterMap entryOffer) := by
  induction entries generalizing seen with
  | nil => simp
  | cons entry rest ih =>
      rw [List.foldl_cons, agentEntry_scanOf, ih]
      cases offer : entryOffer entry <;> simp [offer]

/-- More offers leave a found label in place. -/
theorem scanOf_stable {label : Bytes} {seen : List Offer} (found : (scanOf label seen).found.isSome = true)
    (more : List Offer) : (scanOf label (seen ++ more)).found = (scanOf label seen).found := by
  simp only [scanOf, List.find?_append, Option.isSome_map] at found ⊢
  obtain ⟨offer, shape⟩ := Option.isSome_iff_exists.mp found
  simp [shape]

/-- The URL that a scan selects. -/
def AgentScan.url (scan : AgentScan) : Option Bytes :=
  match scan.found with
  | some url => some url
  | none => scan.fallback

/-- Once an offer was found by its key, later offers change nothing. -/
theorem scanOf_stable_url {label : Bytes} {seen : List Offer} (found : (scanOf label seen).found.isSome = true)
    (more : List Offer) : (scanOf label (seen ++ more)).url = (scanOf label seen).url := by
  have stable := scanOf_stable found more
  obtain ⟨url, shape⟩ := Option.isSome_iff_exists.mp found
  rw [AgentScan.url, AgentScan.url, stable, shape]

/-- A line that is no dictionary sets the fallback only. -/
theorem scanOf_unkeyed {label : Bytes} {seen : List Offer} (unmatched : (scanOf label seen).found = none)
    (url : Bytes) :
    scanOf label (seen ++ [⟨none, url⟩]) =
      { scanOf label seen with
        fallback := if (scanOf label seen).fallback.isNone then some url else (scanOf label seen).fallback } := by
  have added := scanOf_append label seen ⟨none, url⟩
  have unkeyed : Offer.keyed label ⟨none, url⟩ = false := by simp [Offer.keyed]
  rw [unkeyed, unmatched] at added
  have fallback := ite_isNone_eq_or (scanOf label seen).fallback url true
  rw [Bool.and_true, if_pos rfl] at fallback
  rw [added, ← fallback]
  dsimp only
  rw [unmatched]
  rfl

/-- Scanning lines is scanning their offers, until one is found. -/
theorem agentLines_scanOf (label : Bytes) (seen : List Offer) (raws : List Bytes)
    (unmatched : (scanOf label seen).found = none) :
    (agentLines label (scanOf label seen) raws).url = (scanOf label (seen ++ offers raws)).url := by
  induction raws generalizing seen with
  | nil => simp [agentLines, offers]
  | cons line rest ih =>
      have split_offers : offers (line :: rest) = lineOffers line ++ offers rest := rfl
      rw [split_offers, ← List.append_assoc]
      simp only [agentLines, lineOffers]
      split
      · simpa using ih seen unmatched
      · cases parsed : parseDictionary line with
        | ok dict =>
            simp only
            rw [agentEntries_scanOf]
            split
            · next found => exact (scanOf_stable_url found _).symm
            · next open_ => exact ih _ (by simpa using open_)
        | error failure =>
          have next := ih (seen ++ [⟨none, lineUrl line⟩]) (by rw [scanOf_unkeyed unmatched]; exact unmatched)
          rw [← next, scanOf_unkeyed unmatched]
          rfl

/-- The URL of the lines is the one of the offer in effect. -/
theorem agentUrl_eq (raws : List Bytes) (label : Bytes) :
    agentUrl raws label = (offerInEffect raws label).map Offer.url := by
  have scanned := agentLines_scanOf label [] raws rfl
  rw [List.nil_append] at scanned
  change (agentLines label (scanOf label []) raws).url = _
  rw [scanned, offerInEffect, AgentScan.url, scanOf]
  cases named : (offers raws).find? (Offer.keyed label) <;> simp

/-- The member that a keyed identifier names. -/
def agentMember (req : Request) (key : Bytes) : Option Member :=
  (fieldValue req signatureAgent).bind fun raw =>
    match parseDictionary raw with
    | .ok dict => dictGet dict key
    | .error _ => none

/-- The URL that the signature names: the string of the covered member, or the first offer of the
covered field value. -/
def signedUrl (req : Request) (list : InnerList) : Option Bytes :=
  match list.items.find? fun item => item.bare == .string signatureAgent with
  | none => none
  | some item =>
      match fieldAgentKey signatureAgent item.params with
      | some key => (agentMember req key).bind usableUrl
      | none => (fieldValue req signatureAgent).bind fun joined =>
          ((offers [joined]).head?).map Offer.url

/-- The host of a URL, which is empty when the URL is absent or no https URL. -/
def urlHost (url : Option Bytes) : Bytes :=
  match url.bind agentBounds with
  | none => []
  | some bounds => strlow bounds.host

/-- The label and the list that the profile selects from the Signature-Input field. -/
def selectedEntry (tag : Bytes) (req : Request) : Option (Bytes × InnerList) :=
  (fieldValue req (ascii "signature-input")).bind fun raw =>
    match parseDictionary raw with
    | .error _ => none
    | .ok dict =>
        match selectEntry dict tag with
        | some (label, .innerList list) => some (label, list)
        | _ => none

/-- The offer in effect has the host that the signature names. -/
def AgentSigned (tag : Bytes) (req : Request) : Prop :=
  ∀ entry ∈ selectedEntry tag req,
    urlHost ((offerInEffect (collect req signatureAgent) entry.1).map Offer.url) =
      urlHost (signedUrl req entry.2)

instance (tag : Bytes) (req : Request) : Decidable (AgentSigned tag req) :=
  inferInstanceAs (Decidable (∀ entry ∈ selectedEntry tag req, _))

/-- The keyed component is the agent member, written canonically. -/
theorem fieldAgentMember_eq_ok {req : Request} {key value : Bytes} :
    fieldAgentMember req key = .ok value ↔
      ∃ member, agentMember req key = some member ∧ value = writeMember member := by
  unfold fieldAgentMember agentMember
  cases fieldValue req signatureAgent with
  | none => simp
  | some raw =>
      cases parsed : parseDictionary raw with
      | error failure => simp [parsed]
      | ok dict =>
          cases found : dictGet dict key <;> simp [parsed, found, eq_comm]

/-- An agent member is well formed. -/
theorem agentMember_wellFormed {req : Request} {key : Bytes} {member : Member}
    (named : agentMember req key = some member) : member.WellFormed := by
  obtain ⟨raw, _, found⟩ := Option.bind_eq_some_iff.mp named
  cases parsed : parseDictionary raw with
  | error failure => simp [parsed] at found
  | ok dict =>
      simp only [parsed] at found
      exact (parseDictionary_wellFormed parsed _ (AssocList.mem_of_lookup found)).2

/-- The value of a Signature-Agent identifier is the covered member or the covered field value. -/
theorem componentValue_signatureAgent {req : Request} {item : Item} {value : Bytes}
    (named : item.bare = .string signatureAgent) :
    componentValue req item = .ok value ↔
      match fieldAgentKey signatureAgent item.params with
      | some key => fieldAgentMember req key = .ok value
      | none => item.params = [] ∧ fieldValue req signatureAgent = some value := by
  have plain : (signatureAgent.head? == some at_) = false := by decide
  have lower : signatureAgent.any isUpper = false := by decide
  simp only [componentValue, named, plain, Bool.false_eq_true, if_false, field, lower]
  cases keyed : fieldAgentKey signatureAgent item.params with
  | some key => simp
  | none =>
      by_cases empty : item.params = []
      · cases found : fieldValue req signatureAgent <;>
          simp [rejectParams, empty, bind, Except.bind, pure, Except.pure]
      · simp [rejectParams, empty, bind, Except.bind]

/-- Equal values of the covered identifier name equal URLs. -/
theorem signedUrl_eq {req other : Request} {list : InnerList}
    (same : ∀ item ∈ list.items, ∃ value, componentValue req item = .ok value ∧
      componentValue other item = .ok value) : signedUrl req list = signedUrl other list := by
  unfold signedUrl
  split
  · rfl
  · next item found =>
      have named : item.bare = .string signatureAgent := by simpa using List.find?_some found
      obtain ⟨value, first, second⟩ := same item (List.mem_of_find?_eq_some found)
      rw [componentValue_signatureAgent named] at first second
      cases keyed : fieldAgentKey signatureAgent item.params with
      | some key =>
          simp only [keyed, fieldAgentMember_eq_ok] at first second ⊢
          obtain ⟨member, firstFound, rfl⟩ := first
          obtain ⟨otherMember, secondFound, written⟩ := second
          rw [firstFound, secondFound, writeMember_injective (agentMember_wellFormed firstFound)
            (agentMember_wellFormed secondFound) written]
      | none =>
          simp only [keyed] at first second ⊢
          rw [first.2, second.2]

/-- The agent host is the host of the offer in effect. -/
theorem agentHost_eq (raws : List Bytes) (label : Bytes) :
    agentHost raws label = urlHost ((offerInEffect raws label).map Offer.url) := by
  rw [agentHost, agentUrl_eq]
  rfl

/-- A verified signature has the selected label and list, and its host is the one of the offer in
effect. -/
theorem verify_agent {ctx : Ctx} {clock : Int} {req : Request} {sig : Signature}
    (done : verify ctx clock req = .ok sig) :
    sig.components.WellFormed ∧
    selectedEntry ctx.profile.tag req = some (sig.label, sig.components) ∧
    sig.agentHost = urlHost ((offerInEffect (collect req signatureAgent) sig.label).map Offer.url) := by
  obtain ⟨sigDict, picked, signature, base, chosen, _, _, _, _, _, _, rfl⟩ := verify_eq_ok.mp done
  obtain ⟨inputRaw, sigRaw, inputDict, label, list, carried, first, _, parsed, _, _, _, entry, _, rfl, _⟩ :=
    selectSignature_eq_ok.mp chosen
  have member : (label, Member.innerList list) ∈ inputDict.entries := List.mem_of_find?_eq_some entry
  have wellFormed : Member.WellFormed (.innerList list) := (parseDictionary_wellFormed parsed _ member).2
  rw [selected_eq]
  refine ⟨wellFormed, by simp [selectedEntry, first, parsed, entry], ?_⟩
  by_cases absent : collect req signatureAgent = []
  · simp [absent, offerInEffect, offers, urlHost]
  · simp only [absent, if_false, agentHost_eq]

/-- A verified request is as signed when its host is the one that its covered components name. -/
theorem agentSigned_iff {ctx : Ctx} {clock : Int} {req : Request} {sig : Signature}
    (done : verify ctx clock req = .ok sig) :
    AgentSigned ctx.profile.tag req ↔ sig.agentHost = urlHost (signedUrl req sig.components) := by
  obtain ⟨_, selected, host⟩ := verify_agent done
  rw [AgentSigned, selected, host]
  simp

/-- Equal bases of two verified requests have one list of components and name one host. -/
theorem signedHost_eq {ctx otherCtx : Ctx} {clock otherClock : Int} {req other : Request}
    {sig otherSig : Signature} {base : Bytes} (lineFree : req.LineFree) (otherLineFree : other.LineFree)
    (done : verify ctx clock req = .ok sig) (otherDone : verify otherCtx otherClock other = .ok otherSig)
    (built : build req sig.components = .ok base) (otherBuilt : build other otherSig.components = .ok base) :
    sig.components = otherSig.components ∧
      urlHost (signedUrl req sig.components) = urlHost (signedUrl other otherSig.components) := by
  obtain ⟨components, values⟩ := build_injective lineFree otherLineFree (verify_agent done).1
    (verify_agent otherDone).1 built otherBuilt
  rw [← components, signedUrl_eq values]
  exact ⟨rfl, rfl⟩

def sampleSignature : Bytes :=
  ascii "AAAAAAAAAAAAAAAAAAAAAAAAAAAAAAAAAAAAAAAAAAAAAAAAAAAAAAAAAAAAAAAAAAAAAAAAAAAAAAAAAAAAAA=="

/-- The keys hold one key, which has signed one base. -/
def sampleKeys (base : Bytes) : Keys where
  has keyid := keyid == ascii "k"
  hasKid _ := false
  verify _ msg _ := if msg == base then .ok else .declined
  verifyKid _ _ _ := .declined

def sampleCtx (base : Bytes) : Ctx := ⟨webBotAuth, some (sampleKeys base), none, 86400, 60, 0⟩

/-- A signed request with the given Signature-Agent lines, label and covered identifier. -/
def sampleRequest (agents : List Bytes) (label identifier : Bytes) : Request where
  method := ascii "GET"
  scheme := ascii "https"
  authority := ascii "a.test"
  path := ascii "/"
  query := []
  hasQuery := false
  requestTarget := ascii "/"
  targetDefined := true
  headers := agents.map (fun value => ⟨signatureAgent, value⟩) ++
    [⟨ascii "signature-input", label ++ ascii "=(\"@authority\" " ++ identifier ++
        ascii ");created=1000;expires=1600;keyid=\"k\";nonce=\"n\";tag=\"web-bot-auth\""⟩,
      ⟨ascii "signature", label ++ ascii "=:" ++ sampleSignature ++ ascii ":"⟩]

def keyedIdentifier : Bytes := ascii "\"signature-agent\";key=\"a\""

def keyedBase : Bytes :=
  ascii "\"@authority\": a.test\n\"signature-agent\";key=\"a\": \"https://good.test\"\n" ++
    ascii "\"@signature-params\": (\"@authority\" \"signature-agent\";key=\"a\")" ++
    ascii ";created=1000;expires=1600;keyid=\"k\";nonce=\"n\";tag=\"web-bot-auth\""

/-- The signer's request names one agent. -/
def signedRequest : Request := sampleRequest [ascii "a=\"https://good.test\""] (ascii "a") keyedIdentifier

/-- A further line under another label names another agent and leaves the base as it is. -/
def rewrittenRequest : Request :=
  sampleRequest [ascii "a=\"https://good.test\"", ascii "b=\"https://evil.test\""] (ascii "b") keyedIdentifier

def keyedComponents : InnerList where
  items := [⟨.string (ascii "@authority"), []⟩,
    ⟨.string signatureAgent, [(ascii "key", .string (ascii "a"))]⟩]
  params := [(ascii "created", .integer 1000), (ascii "expires", .integer 1600),
    (ascii "keyid", .string (ascii "k")), (ascii "nonce", .string (ascii "n")),
    (ascii "tag", .string (ascii "web-bot-auth"))]

def sampleVerified (label host : Bytes) : Signature where
  label := label
  keyid := ascii "k"
  alg := []
  nonce := ascii "n"
  tag := ascii "web-bot-auth"
  created := 1000
  expires := 1600
  present := [.created, .expires, .keyid, .nonce, .tag]
  covered := [.authority, .signatureAgent]
  components := keyedComponents
  signature := List.replicate 64 0
  agentHost := host

theorem signedRequest_verified :
    verify (sampleCtx keyedBase) 1100 signedRequest = .ok (sampleVerified (ascii "a") (ascii "good.test")) ∧
      build signedRequest keyedComponents = .ok keyedBase := by
  decide +kernel

theorem rewrittenRequest_verified :
    verify (sampleCtx keyedBase) 1100 rewrittenRequest =
        .ok (sampleVerified (ascii "b") (ascii "evil.test")) ∧
      build rewrittenRequest keyedComponents = .ok keyedBase := by
  decide +kernel

theorem signedRequest_lineFree : signedRequest.LineFree := by
  constructor <;> decide +kernel

theorem rewrittenRequest_lineFree : rewrittenRequest.LineFree := by
  constructor <;> decide +kernel

/-- A further line before the signed one does not matter while the label stays. -/
def extendedRequest : Request :=
  sampleRequest [ascii "c=\"https://other.test\"", ascii "a=\"https://good.test\""] (ascii "a") keyedIdentifier

theorem extendedRequest_lineFree : extendedRequest.LineFree := by
  constructor <;> decide +kernel

theorem extendedRequest_verified :
    verify (sampleCtx keyedBase) 1100 extendedRequest =
        .ok (sampleVerified (ascii "a") (ascii "good.test")) ∧
      build extendedRequest keyedComponents = .ok keyedBase := by
  decide +kernel

theorem signedRequest_agentSigned : AgentSigned (sampleCtx keyedBase).profile.tag signedRequest := by
  decide +kernel

end AuthHttpsig.Profile
