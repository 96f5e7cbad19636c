/-
This file shows which signers the nonce keys separate.
-/

import AuthHttpsig.Library.Lines
import AuthHttpsig.Proof.AgentAuthority
import AuthHttpsig.Proof.ClaimBalance
import AuthHttpsig.Proof.Evaluation
import AuthHttpsig.Proof.LabelAgreement
import AuthHttpsig.Proof.SfvRoundTrip

namespace AuthHttpsig

namespace Profile

/-- The strings of a selected signature are printable. -/
theorem selectSignature_printable {ctx : Ctx} {req : Base.Request} {dict : Sfv.Dictionary} {sig : Signature}
    (picked : selectSignature ctx req = .ok (dict, sig)) : Sfv.Printable sig.keyid ∧ Sfv.Printable sig.nonce := by
  obtain ⟨_, _, inputDict, label, list, carried, _, _, parsed, _, _, _, entry, read, rfl, _⟩ :=
    selectSignature_eq_ok.mp picked
  have member : (label, Sfv.Member.innerList list) ∈ inputDict.entries := List.mem_of_find?_eq_some entry
  have wellFormed := (Sfv.parseDictionary_wellFormed parsed _ member).2
  have printable {name : Bytes} {value : Option Bytes} (read : readString list.params name = some value) :
      Sfv.Printable (value.getD []) := by
    cases value with
    | none => simp [Sfv.Printable]
    | some value =>
        have present := AssocList.mem_of_lookup (readString_eq_some.mp read)
        exact (wellFormed.params.spelled _ present).2
  rw [selected_eq]
  exact ⟨printable read.keyid, printable read.nonce⟩

/-- The key id of a verified signature holds no NUL. -/
theorem verify_keyid_free {ctx : Ctx} {clock : Int} {req : Base.Request} {sig : Signature}
    (done : verify ctx clock req = .ok sig) : 0 ∉ sig.keyid := by
  obtain ⟨_, picked, _, _, chosen, _, _, _, _, _, _, rfl⟩ := verify_eq_ok.mp done
  intro present
  exact absurd ((selectSignature_printable chosen).1 0 present).1 (by decide)

end Profile

namespace Module

open Ascii Directory
open NonceStore (storeKey keyPrefix)
open Profile (agentHost)

/-- The request was verified with the keys of the directory of this authority. -/
def DirectorySigned (authority : Bytes) (sig : Profile.Signature) : Prop :=
  ∃ (lcf : Location) (scheme : Bytes) (raw : RawRequest) (req : Base.Request) (keys : Keys) (now : Int),
    buildRequest (some scheme) raw = some req ∧ Gated lcf raw.headers authority ∧
      Profile.verify (profileCtx lcf.toLocConf (some keys) now) now req = .ok sig

theorem agentHost_nil (label : Bytes) : agentHost [] label = [] := rfl

/-- The verified host is the host name of the authority that was fetched. -/
theorem DirectorySigned.hostname_eq {authority : Bytes} {sig : Profile.Signature}
    (signed : DirectorySigned authority sig) : hostname authority = sig.agentHost := by
  obtain ⟨lcf, scheme, raw, req, keys, now, built, gated, done⟩ := signed
  obtain ⟨label, keyid, port, chosen, filled, agent⟩ := gated.selected
  have lines : collectHeader raw.headers (ascii "signature-agent") ≠ [] := by
    intro empty
    rw [empty, agentHost_nil] at filled
    exact filled rfl
  have collected := Profile.collect_eq_collectHeader built (show strlow (ascii "signature-agent") = _ by decide)
  obtain ⟨_, picked, _, _, found, covered, _, _, _, _, _, rfl⟩ := Profile.verify_eq_ok.mp done
  have selects : Profile.selectLabel lcf.profile (collectHeader raw.headers (ascii "signature-input")) =
      some (picked.label, picked.keyid) := by
    rw [← Profile.collect_eq_collectHeader built (by decide)]
    apply Profile.selectLabel_of_selectSignature found
    rw [← collected] at lines
    simpa [lines, Base.signatureAgent] using covered
  have labels : some (label, keyid) = some (picked.label, picked.keyid) := chosen.symm.trans selects
  simp only [Option.some.injEq, Prod.mk.injEq] at labels
  rw [agent.serverName, labels.1, Base.signatureAgent, collected]
  simp [lines]

/-- No agent host has a zero octet. -/
theorem agentHost_free (raws : List Bytes) (label : Bytes) : 0 ∉ agentHost raws label := by
  rcases agent_of_label raws label with ⟨empty, _⟩ | ⟨_, port, normalized, agent⟩
  · rw [empty]
    exact List.not_mem_nil
  · obtain ⟨url, bounds, _, located, host, _⟩ := agent.located
    obtain ⟨_, _, _, _, _, _, _, _, _, isHost, _⟩ := located
    rw [host]
    exact fun present => absurd (isHost.strlow.chars 0 present) (by decide)

/-- The agent of a verified signature holds no NUL. -/
theorem verify_agentHost_free {ctx : Profile.Ctx} {clock : Int} {req : Base.Request} {sig : Profile.Signature}
    (done : Profile.verify ctx clock req = .ok sig) : 0 ∉ sig.agentHost := by
  obtain ⟨_, picked, _, _, chosen, _, _, _, _, _, _, rfl⟩ := Profile.verify_eq_ok.mp done
  obtain ⟨_, _, _, label, list, carried, _, _, _, _, _, _, _, _, rfl, _⟩ := Profile.selectSignature_eq_ok.mp chosen
  dsimp only
  split
  · rw [Profile.selected_eq]
    exact List.not_mem_nil
  · exact agentHost_free _ _

/-- The parts of a key cannot be split in another way. -/
theorem storeKey_injective {host other keyid otherKeyid nonce otherNonce : Bytes} (free : 0 ∉ host)
    (otherFree : 0 ∉ other) (keyFree : 0 ∉ keyid) (otherKeyFree : 0 ∉ otherKeyid)
    (same : storeKey host keyid nonce = storeKey other otherKeyid otherNonce) :
    host = other ∧ keyid = otherKeyid ∧ nonce = otherNonce := by
  simp only [storeKey, List.append_assoc, List.append_cancel_left_eq, List.singleton_append] at same
  obtain ⟨hosts, rest⟩ := Lines.line_injective free otherFree same
  obtain ⟨keyids, nonces⟩ := Lines.line_injective keyFree otherKeyFree rest
  exact ⟨hosts, keyids, nonces⟩

/-- The nonce keys of two verified signatures of one host differ for all other key ids and nonces. Those of two
directories differ exactly when their host names, the key ids or the nonces differ. -/
theorem nonceKey_separates_iff {ctx otherCtx : Profile.Ctx} {clock otherClock : Int} {req otherReq : Base.Request}
    {sig other : Profile.Signature} (done : Profile.verify ctx clock req = .ok sig)
    (otherDone : Profile.verify otherCtx otherClock otherReq = .ok other) :
    (sig.agentHost = other.agentHost → (sig.keyid, sig.nonce) ≠ (other.keyid, other.nonce) →
        nonceKey sig ≠ nonceKey other) ∧
      ∀ authority otherAuthority, DirectorySigned authority sig → DirectorySigned otherAuthority other →
        authority ≠ otherAuthority → (nonceKey sig ≠ nonceKey other ↔
          hostname authority ≠ hostname otherAuthority ∨ sig.keyid ≠ other.keyid ∨ sig.nonce ≠ other.nonce) := by
  have parts (same : nonceKey sig = nonceKey other) :
      sig.agentHost = other.agentHost ∧ sig.keyid = other.keyid ∧ sig.nonce = other.nonce :=
    storeKey_injective (verify_agentHost_free done) (verify_agentHost_free otherDone)
      (Profile.verify_keyid_free done) (Profile.verify_keyid_free otherDone) same
  constructor
  · intro _ different same
    obtain ⟨_, keyids, nonces⟩ := parts same
    exact different (by rw [keyids, nonces])
  · intro authority otherAuthority signed otherSigned _
    rw [signed.hostname_eq, otherSigned.hostname_eq]
    constructor
    · intro different
      by_contra same
      simp only [not_or, not_not] at same
      obtain ⟨hosts, keyids, nonces⟩ := same
      exact different (by rw [nonceKey, nonceKey, hosts, keyids, nonces])
    · intro different same
      obtain ⟨hosts, keyids, nonces⟩ := parts same
      simp [hosts, keyids, nonces] at different

/-- This location allows two authorities on one host and one on another host. -/
def sharedHostLocation : Location :=
  { Life.agentLocation with
    keyidFallbackAllow := true
    directory := { Life.agentLocation.directory with
      allow := some [ascii "b.test", ascii "b.test:8443", ascii "c.test:8443"] } }

/-- This is a request of the agent with a nonce. -/
def agentNonceRequest (agent : Bytes) : RawRequest :=
  { Profile.agentRequest with
    headers :=
      [⟨ascii "Signature-Agent", agent⟩,
        ⟨ascii "Signature-Input", ascii "s=(\"@authority\" \"signature-agent\");created=1000;expires=1600" ++
          ascii ";keyid=\"k\";nonce=\"n\";tag=\"web-bot-auth\""⟩] ++ Profile.agentRequest.headers.drop 2 }

/-- The directory names its key by the key id, which is no thumbprint. -/
def labelledKeys : Keys := ⟨fun _ => false, fun kid => kid == ascii "k", fun _ _ _ => .declined, fun _ _ _ => .ok⟩

def agentNonceSignature (agent : Bytes) : Profile.Signature :=
  match buildRequest (some (ascii "https")) (agentNonceRequest agent) with
  | none => Profile.Signature.zero
  | some req =>
      (Profile.verifyOut (profileCtx sharedHostLocation.toLocConf (some labelledKeys) 1100) 1100 req).1

/-- The evaluation of such a request verifies its signature with the key of its directory. -/
theorem agentNonceSignature_signed {agent authority : Bytes}
    (accepted : (Profile.selectLabel Profile.webBotAuth
        (collectHeader (agentNonceRequest agent).headers (ascii "signature-input")) = some (ascii "s", ascii "k") ∧
      normalizeHost (Profile.agentAuthority
        (collectHeader (agentNonceRequest agent).headers (ascii "signature-agent")) (ascii "s")) = .ok authority ∧
      Directory.allowed sharedHostLocation.directory.allow authority = true ∧
      (buildRequest (some (ascii "https")) (agentNonceRequest agent)).map (fun req =>
        (Profile.verifyOut (profileCtx sharedHostLocation.toLocConf (some labelledKeys) 1100) 1100 req).2) =
          some (.ok ()))) : DirectorySigned authority (agentNonceSignature agent) := by
  obtain ⟨selected, normalized, passes, verified⟩ := accepted
  obtain ⟨req, built, done⟩ := Option.map_eq_some_iff.mp verified
  refine ⟨sharedHostLocation, ascii "https", agentNonceRequest agent, req, labelledKeys, 1100, built,
    Gated.of_normalized selected normalized passes, ?_⟩
  rw [Profile.verifyOut_eq, done, agentNonceSignature, built]
  rfl

/-- The signature of the agent without a port. -/
theorem plainAgent_signed : DirectorySigned (ascii "b.test") (agentNonceSignature (ascii "s=\"https://b.test\"")) :=
  agentNonceSignature_signed (by decide +kernel)

/-- The signature of the agent with a port. -/
theorem portAgent_signed :
    DirectorySigned (ascii "b.test:8443") (agentNonceSignature (ascii "s=\"https://b.test:8443\"")) :=
  agentNonceSignature_signed (by decide +kernel)

/-- The signature of the other agent. -/
theorem otherAgent_signed :
    DirectorySigned (ascii "c.test:8443") (agentNonceSignature (ascii "s=\"https://c.test:8443\"")) :=
  agentNonceSignature_signed (by decide +kernel)

/-- Two agents of different hosts have different nonce keys. -/
theorem nonceKey_separates_iff_hosts :
    nonceKey (agentNonceSignature (ascii "s=\"https://b.test\"")) ≠
      nonceKey (agentNonceSignature (ascii "s=\"https://c.test:8443\"")) := by
  obtain ⟨_, _, _, _, _, _, _, _, done⟩ := id plainAgent_signed
  obtain ⟨_, _, _, _, _, _, _, _, otherDone⟩ := id otherAgent_signed
  exact ((nonceKey_separates_iff done otherDone).2 _ _ plainAgent_signed otherAgent_signed (by decide)).mpr
    (.inl (by decide))

/-- Two directories on two ports of one host give one key to the same key id and nonce. -/
theorem nonceKey_shared :
    ¬ ∀ (authority otherAuthority : Bytes) (sig other : Profile.Signature),
      DirectorySigned authority sig → DirectorySigned otherAuthority other → authority ≠ otherAuthority →
        nonceKey sig ≠ nonceKey other := by
  intro separates
  exact separates _ _ _ _ plainAgent_signed portAgent_signed (by decide) (by decide +kernel)

end Module
end AuthHttpsig
