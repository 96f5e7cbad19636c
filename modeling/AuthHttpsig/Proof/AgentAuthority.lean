/-
This file shows that the host of an agent, the authority of its key directory and the server name
of the fetch agree.
-/

import AuthHttpsig.Construction.Life
import AuthHttpsig.Construction.Variables
import AuthHttpsig.Proof.EnoughRoom
import AuthHttpsig.Proof.HostText

namespace AuthHttpsig

namespace Directory

open Ascii
open Profile (AgentBounds splitHost portOk agentBounds)

/-- These octets stand in an authority. -/
def isAuthorityChar (c : UInt8) : Bool :=
  Profile.isHostChar c || Profile.isIpv6Char c || c == lbracket || c == rbracket

/-- The authority stands in the URL after the scheme and the user information, and before the path, the
query or the fragment. -/
def Located (url : Bytes) (bounds : AgentBounds) : Prop :=
  ∃ scheme userinfo port rest, url = scheme ++ userinfo ++ bounds.authority ++ rest ∧
    bounds.authority = bounds.host ++ port ∧ sameFolded scheme (ascii "https://") = true ∧
    (userinfo = [] ∨ userinfo.getLast? = some at_) ∧
    (∀ c ∈ rest.head?, c = slash ∨ c = question ∨ c = Ascii.hash) ∧ Host bounds.host ∧ Port port

/-- The port check of the source accepts exactly the ports. -/
theorem portOk_iff {text : Bytes} : portOk text = true ↔ Port text := by
  constructor
  · intro ok
    cases text with
    | nil => exact .absent
    | cons c digits =>
        simp only [portOk, Bool.and_eq_true, beq_iff_eq, Bool.not_eq_true', List.isEmpty_eq_false_iff,
          List.all_eq_true] at ok
        obtain ⟨⟨rfl, filled⟩, chars⟩ := ok
        exact .given filled chars
  · intro port
    cases port with
    | absent => rfl
    | given filled chars => simpa [portOk, filled] using chars

/-- The two parts of a split are a host and what follows it. -/
theorem splitHost_eq_some {start host port : Bytes} (split : splitHost start = some (host, port))
    (filled : host ≠ []) : start = host ++ port ∧ Host host := by
  cases start with
  | nil => cases split
  | cons c rest =>
      rw [splitHost] at split
      split at split
      · rename_i bracket
        have opens : c = lbracket := by simpa using bracket
        subst opens
        cases closing : rest.dropWhile (· != rbracket) with
        | nil => simp [closing] at split
        | cons close after =>
            simp only [closing, Option.ite_none_right_eq_some, Bool.and_eq_true, Bool.not_eq_true',
              List.isEmpty_eq_false_iff, List.all_eq_true, Option.some.injEq, Prod.mk.injEq] at split
            obtain ⟨⟨chars, inside⟩, rfl, rfl⟩ := split
            have closes : close = rbracket := by
              have stopped := List.head?_dropWhile_not (· != rbracket) rest
              simpa [closing] using stopped
            subst closes
            refine ⟨?_, .address inside chars⟩
            have joined := List.takeWhile_append_dropWhile (p := (· != rbracket)) (l := rest)
            rw [closing] at joined
            simpa using joined.symm
      · simp only [Option.ite_none_right_eq_some, List.all_eq_true, Option.some.injEq, Prod.mk.injEq] at split
        obtain ⟨chars, rfl, rfl⟩ := split
        exact ⟨(List.takeWhile_append_dropWhile ..).symm, .name filled chars⟩

/-- The bounds of a URL are where its authority stands. -/
theorem agentBounds_located {url : Bytes} {bounds : AgentBounds} (found : agentBounds url = some bounds) :
    Located url bounds := by
  unfold agentBounds at found
  split at found
  · cases found
  rename_i https
  simp only [Bool.or_eq_true, decide_eq_true_eq, Bool.not_eq_true', not_or, Nat.not_lt,
    Bool.not_eq_false] at https
  dsimp only at found
  generalize authorityIs : (url.drop 8).takeWhile (fun c => c != slash && c != question && c != Ascii.hash) =
    authority at found
  generalize startIs : (authority.reverse.takeWhile (· != at_)).reverse = start at found
  split at found
  · cases found
  rename_i host port split
  split at found
  · rename_i ok
    simp only [Bool.and_eq_true, Bool.not_eq_true', List.isEmpty_eq_false_iff] at ok
    cases found
    obtain ⟨rfl, isHost⟩ := splitHost_eq_some split ok.2
    have after : authority = (authority.reverse.dropWhile (· != at_)).reverse ++ (host ++ port) := by
      rw [← startIs, ← List.reverse_append, List.takeWhile_append_dropWhile, List.reverse_reverse]
    refine ⟨url.take 8, (authority.reverse.dropWhile (· != at_)).reverse, port,
      (url.drop 8).dropWhile (fun c => c != slash && c != question && c != Ascii.hash), ?_, rfl, https.2, ?_, ?_,
      isHost, portOk_iff.mp ok.1⟩
    · have joined := List.takeWhile_append_dropWhile
        (p := fun c => c != slash && c != question && c != Ascii.hash) (l := url.drop 8)
      rw [authorityIs, after] at joined
      generalize (url.drop 8).dropWhile (fun c => c != slash && c != question && c != Ascii.hash) = rest at joined
      calc url = url.take 8 ++ url.drop 8 := (List.take_append_drop 8 url).symm
        _ = url.take 8 ++ _ := by rw [← joined]
        _ = _ := by simp only [List.append_assoc]
    · cases dropped : authority.reverse.dropWhile (· != at_) with
      | nil => exact .inl rfl
      | cons c more =>
          right
          have stopped := List.head?_dropWhile_not (· != at_) authority.reverse
          simpa [dropped] using stopped
    · intro c first
      have stopped := List.head?_dropWhile_not (fun c => c != slash && c != question && c != Ascii.hash) (url.drop 8)
      rw [first] at stopped
      simpa [or_iff_not_imp_left] using stopped
  · cases found

theorem Host.chars {text : Bytes} (host : Host text) : ∀ c ∈ text, isAuthorityChar c = true := by
  intro c present
  cases host with
  | name _ chars => simp [isAuthorityChar, chars c present]
  | address _ chars =>
      simp only [List.cons_append, List.mem_cons, List.mem_append, List.not_mem_nil, or_false] at present
      rcases present with rfl | inside | rfl
      · decide
      · simp [isAuthorityChar, chars c inside]
      · decide

theorem digit_isAuthorityChar {c : UInt8} : isDigit c = true → isAuthorityChar c = true := by
  grind [isAuthorityChar, Profile.isHostChar]

theorem Port.chars {text : Bytes} (port : Port text) : ∀ c ∈ text, isAuthorityChar c = true := by
  intro c present
  cases port with
  | absent => cases present
  | given _ chars =>
      rcases List.mem_cons.mp present with rfl | digit
      · decide
      · exact digit_isAuthorityChar (chars c digit)

/-- These octets end or begin other parts of a URL, or they are refused in a host. -/
theorem isAuthorityChar_not {c : UInt8} (inside : isAuthorityChar c = true) :
    c ≠ at_ ∧ c ≠ slash ∧ c ≠ question ∧ c ≠ Ascii.hash ∧ c ≠ asterisk := by
  grind [isAuthorityChar, Profile.isHostChar, Profile.isIpv6Char, Base.isHex, isLower, isUpper, isDigit]

theorem Port.isPortSuffix {port : Bytes} (isPort : Port port) (filled : port ≠ []) :
    isPortSuffix port = true := by
  cases isPort with
  | absent => exact absurd rfl filled
  | given some chars => simpa [Directory.isPortSuffix, some] using chars

/-- The host name of an authority is its host. -/
theorem hostname_authority {host port : Bytes} (isHost : Host host) (isPort : Port port) :
    hostname (host ++ port) = host := by
  cases isHost with
  | name filled chars =>
      have uncoloned : ∀ c ∈ host, (c != colon) = true := by
        intro c present
        simpa using (name_isHostChar (chars c present)).2.2
      cases host with
      | nil => exact absurd rfl filled
      | cons c rest =>
          have plain : (c == lbracket) = false := by
            simpa using (name_isHostChar (chars c List.mem_cons_self)).2.1
          rw [List.cons_append, hostname, plain, ← List.cons_append, List.takeWhile_append_of_pos uncoloned,
            List.dropWhile_append_of_pos uncoloned]
          cases isPort with
          | absent => simp [Directory.isPortSuffix]
          | given some digits =>
              have suffix := (Port.given some digits).isPortSuffix (by simp)
              simp [suffix]
  | @address inside filled chars =>
      have outside : ∀ c ∈ inside, (c != rbracket) = true := by
        intro c present
        simpa using (isIpv6Char_not (chars c present)).2.2
      have suffix : (port.isEmpty || isPortSuffix port) = true := by
        cases isPort with
        | absent => rfl
        | given some digits => simp [(Port.given some digits).isPortSuffix (by simp)]
      simp [hostname, List.takeWhile_append_of_pos outside, List.dropWhile_append_of_pos outside, suffix]

end Directory

open Ascii Directory
open Profile (agentUrl agentHost agentAuthority agentBounds)

/-- The three readings of the agent of a label agree up to the port. -/
structure Agent (raws : List Bytes) (label port normalized : Bytes) : Prop where
  authority : agentAuthority raws label = agentHost raws label ++ port
  isPort : Port port
  lower : strlow (agentAuthority raws label) = agentAuthority raws label
  clean : ∀ c ∈ agentAuthority raws label, c ≠ at_ ∧ c ≠ slash ∧ c ≠ question ∧ c ≠ Ascii.hash
  located : ∃ url bounds, agentUrl raws label = some url ∧ Located url bounds ∧
    agentHost raws label = strlow bounds.host ∧ agentAuthority raws label = strlow bounds.authority
  accepted : normalizeHost (agentAuthority raws label) = .ok normalized
  fetched : normalized = if port = ascii ":443" then agentHost raws label else agentAuthority raws label
  serverName : hostname normalized = agentHost raws label

/-- A label without bounds has neither a host nor an authority, and the parts of another one agree. -/
theorem agent_of_label (raws : List Bytes) (label : Bytes) :
    (agentHost raws label = [] ∧ agentAuthority raws label = []) ∨
      (agentHost raws label ≠ [] ∧ ∃ port normalized, Agent raws label port normalized) := by
  cases found : (agentUrl raws label).bind agentBounds with
  | none => exact .inl ⟨by rw [agentHost, found], by rw [agentAuthority, found]⟩
  | some bounds =>
      right
      have hostIs : agentHost raws label = strlow bounds.host := by rw [agentHost, found]
      have authorityIs : agentAuthority raws label = strlow bounds.authority := by rw [agentAuthority, found]
      obtain ⟨url, urlIs, bounded⟩ := Option.bind_eq_some_iff.mp found
      have located := agentBounds_located bounded
      obtain ⟨_, _, port, _, _, joined, _, _, _, isHost, isPort⟩ := id located
      have lowered := isHost.strlow
      have split : strlow bounds.authority = strlow bounds.host ++ port := by
        rw [joined, isPort.strlow_append]
      refine ⟨hostIs ▸ lowered.ne_nil, port,
        if port = ascii ":443" then agentHost raws label else agentAuthority raws label, ?_⟩
      exact {
        authority := by rw [hostIs, authorityIs, split]
        isPort := isPort
        lower := by rw [authorityIs, strlow_strlow]
        clean := by
          intro c present
          rw [authorityIs, split] at present
          have inside := (List.mem_append.mp present).elim (lowered.chars c) (isPort.chars c)
          obtain ⟨notAt, notSlash, notQuestion, notHash, _⟩ := isAuthorityChar_not inside
          exact ⟨notAt, notSlash, notQuestion, notHash⟩
        located := ⟨url, bounds, urlIs, located, hostIs, authorityIs⟩
        accepted := by
          have bare : Bare (strlow bounds.host ++ port) := ⟨strlow bounds.host, port, rfl, lowered, isPort⟩
          rw [hostIs, authorityIs, split, normalizeHost_eq_ok]
          refine ⟨bare.accepted, ?_⟩
          rw [← split, strlow_strlow, split, dropDefaultPort_authority lowered isPort]
        fetched := rfl
        serverName := by
          rw [hostIs, authorityIs, split]
          split
          · simpa using hostname_authority lowered .absent
          · exact hostname_authority lowered isPort }

namespace Module

/-- A call about a key directory names this host. -/
def Op.OnHost (host : Bytes) : Op → Prop
  | .lookup named _ | .claimRotationRefetch named .. | .store named .. | .release named _
  | .resolveKeys named .. => named = host
  | .addCleanup cleanup => cleanup.host = host
  | .room _ | .agentRoom | .time | .loadJwks _ | .subrequest _ => True

/-- The call is about no key directory. -/
def Op.Aside : Op → Prop
  | .room _ | .agentRoom | .time | .loadJwks _ => True
  | .lookup .. | .claimRotationRefetch .. | .store .. | .release .. | .resolveKeys .. | .addCleanup _
  | .subrequest _ => False

/-- A call that names no host names no other host. -/
theorem Op.Aside.onHost {op : Op} (aside : op.Aside) (host : Bytes) : op.OnHost host := by
  cases op <;> trivial

/-- All the calls are about the key directory of the context. -/
def Serves (host : Bytes) (events : List Call) (out : PhaseRc × Context) : Prop :=
  out.2.directoryHost = host ∧ ∀ event ∈ events, event.1.OnHost host

/-- One more call on the host leaves all calls on it. -/
theorem onHost_snoc {host : Bytes} {past : List Call} (named : ∀ event ∈ past, event.1.OnHost host) (op : Op)
    (answer : Answer op) (alsoNamed : op.OnHost host) :
    ∀ event ∈ past ++ [(⟨op, answer⟩ : Call)], event.1.OnHost host := by
  intro event present
  rcases List.mem_append.mp present with earlier | last
  · exact named event earlier
  · rw [List.mem_singleton.mp last]
    exact alsoNamed

section Serves

variable {past : List Call}

/-- Failing open with a release serves the host of the context. -/
theorem directoryFailOpenRelease_serves (ctx : Context) (retryTtl : Int) (reason : FetchReason)
    (named : ∀ event ∈ past, event.1.OnHost ctx.directoryHost) :
    (directoryFailOpenRelease ctx retryTtl reason).Always (Serves ctx.directoryHost) past := by
  intro now released
  exact ⟨rfl, onHost_snoc (onHost_snoc named .time now trivial) (.release _ _) released rfl⟩

/-- The fetch serves the host of the context. -/
theorem directoryFetch_serves (conf : DirectoryConf) (ctx : Context)
    (named : ∀ event ∈ past, event.1.OnHost ctx.directoryHost) :
    (directoryFetch conf ctx).Always (Serves ctx.directoryHost) past := by
  intro registered
  have afterCleanup := onHost_snoc named (.addCleanup ⟨ctx.directoryHost, conf.cacheMinTtl⟩) registered rfl
  cases registered with
  | false => exact directoryFailOpenRelease_serves { ctx with claimed := true } _ _ afterCleanup
  | true =>
      intro roomy
      have afterRoom := onHost_snoc afterCleanup (.room .postSubrequest) roomy trivial
      cases roomy with
      | false => exact directoryFailOpenRelease_serves { ctx with claimed := true } _ _ afterRoom
      | true =>
          intro started
          have afterStart := onHost_snoc afterRoom (.subrequest conf.requestUri) started trivial
          cases started with
          | false => exact directoryFailOpenRelease_serves { ctx with claimed := true } _ _ afterStart
          | true => exact ⟨rfl, afterStart⟩

/-- Resolving the keys names the host of the context only. -/
theorem resolveKeysOf_serves (ctx : Context) (named : ∀ event ∈ past, event.1.OnHost ctx.directoryHost) :
    (resolveKeysOf ctx).Always (fun events _ => ∀ event ∈ events, event.1.OnHost ctx.directoryHost) past := by
  unfold resolveKeysOf
  split
  · exact named
  · exact fun keys => onHost_snoc named (.resolveKeys _ _ _) keys rfl

/-- The hit branch serves the host of the context. -/
theorem directoryHit_serves (lcf : Location) (keyid : Bytes) (ctx : Context)
    (named : ∀ event ∈ past, event.1.OnHost ctx.directoryHost) :
    (directoryHit lcf keyid ctx).Always (Serves ctx.directoryHost) past := by
  unfold directoryHit
  split
  · exact ⟨rfl, named⟩
  rw [Prog.always_bind]
  apply (resolveKeysOf_serves ctx named).imp
  intro events keys resolved
  split
  · exact ⟨rfl, resolved⟩
  intro now claimed
  have asked := onHost_snoc (onHost_snoc resolved .time now trivial)
    (.claimRotationRefetch ctx.directoryHost now lcf.directory.keyRotationRetryTtl) claimed rfl
  cases claimed with
  | false => exact ⟨rfl, asked⟩
  | true => exact directoryFetch_serves lcf.directory ctx asked

/-- Whatever the cache answers, the host of the context is served. -/
theorem directoryAnswered_serves (lcf : Location) (keyid : Bytes) (answer : Cache.Answer) (ctx : Context)
    (named : ∀ event ∈ past, event.1.OnHost ctx.directoryHost) :
    (directoryAnswered lcf keyid answer ctx).Always (Serves ctx.directoryHost) past := by
  rcases answer with ⟨status, jwks, generation⟩
  rcases status with _ | status
  · exact ⟨rfl, named⟩
  cases status with
  | hit => exact directoryHit_serves lcf keyid { ctx with jwks := jwks } named
  | busy =>
      simp only [directoryAnswered]
      split <;> exact ⟨rfl, named⟩
  | negative => exact ⟨rfl, named⟩
  | unavailable => exact ⟨rfl, named⟩
  | claimed => exact directoryFetch_serves lcf.directory ctx named

/-- The lookup serves the host of the context. -/
theorem directoryLookup_serves (lcf : Location) (keyid : Bytes) (ctx : Context)
    (named : ∀ event ∈ past, event.1.OnHost ctx.directoryHost) :
    (directoryLookup lcf keyid ctx).Always (Serves ctx.directoryHost) past := by
  intro now answer
  have asked := onHost_snoc (onHost_snoc named .time now trivial) (.lookup ctx.directoryHost now) answer rfl
  exact directoryAnswered_serves lcf keyid answer { ctx with directoryGeneration := answer.generation } asked

end Serves

/-- The request names this host as its agent, and the allow list has it. -/
structure Gated (lcf : Location) (headers : List RawHeader) (host : Bytes) : Prop where
  selected : ∃ label keyid port,
    Profile.selectLabel lcf.profile (collectHeader headers (ascii "signature-input")) = some (label, keyid) ∧
      agentHost (collectHeader headers (ascii "signature-agent")) label ≠ [] ∧
      Agent (collectHeader headers (ascii "signature-agent")) label port host
  allowed : ∃ allow, lcf.directory.allow = some allow ∧ host ∈ allow

/-- Every call about a key directory is about one allowed host, which the variables show. -/
def HostsGuarded (lcf : Location) (headers : List RawHeader) (events : List Call) (ctx : Option Context) : Prop :=
  (∀ room, (⟨.agentRoom, room⟩ : Call) ∈ events → room = Profile.AgentRoom.full) →
    ∀ event ∈ events, ¬ event.1.Aside → ∃ host, Gated lcf headers host ∧ event.1.OnHost host ∧
      variableDirectoryHost ctx = some host ∧ variableDirectoryHostname ctx = some (hostname host)

/-- A gated host is not empty. -/
theorem Gated.ne_nil {lcf : Location} {headers : List RawHeader} {host : Bytes} (gated : Gated lcf headers host) :
    host ≠ [] := by
  obtain ⟨label, keyid, port, _, filled, agent⟩ := gated.selected
  rintro rfl
  exact filled agent.serverName.symm

/-- A normalized authority of the selected label that the list allows passes. -/
theorem Gated.of_normalized {lcf : Location} {headers : List RawHeader} {label keyid host : Bytes}
    (selected : Profile.selectLabel lcf.profile (collectHeader headers (ascii "signature-input")) =
      some (label, keyid))
    (normalized : normalizeHost (agentAuthority (collectHeader headers (ascii "signature-agent")) label) = .ok host)
    (passes : Directory.allowed lcf.directory.allow host = true) : Gated lcf headers host := by
  rcases agent_of_label (collectHeader headers (ascii "signature-agent")) label with
    ⟨_, empty⟩ | ⟨filled, port, other, agent⟩
  · rw [empty] at normalized
    cases normalized
  rw [agent.accepted, Except.ok.injEq] at normalized
  subst normalized
  refine ⟨⟨label, keyid, port, selected, filled, agent⟩, ?_⟩
  cases declared : lcf.directory.allow with
  | none => simp [Directory.allowed, declared] at passes
  | some allow => exact ⟨allow, rfl, by simpa [Directory.allowed, declared] using passes⟩

section HostsGuarded

variable {lcf : Location} {headers : List RawHeader} {past : List Call}

/-- Calls that are about no key directory need no host. -/
theorem guarded_aside (aside : ∀ event ∈ past, event.1.Aside) (ctx : Option Context) :
    HostsGuarded lcf headers past ctx :=
  fun _ event present about => absurd (aside event present) about

theorem aside_snoc (aside : ∀ event ∈ past, event.1.Aside) (op : Op) (answer : Answer op) (alsoAside : op.Aside) :
    ∀ event ∈ past ++ [(⟨op, answer⟩ : Call)], event.1.Aside := by
  intro event present
  rcases List.mem_append.mp present with earlier | last
  · exact aside event earlier
  · rw [List.mem_singleton.mp last]
    exact alsoAside

/-- Serving a gated host is guarded. -/
theorem Serves.hostsGuarded {host : Bytes} {events : List Call} {out : PhaseRc × Context}
    (serves : Serves host events out) (gated : Gated lcf headers host) :
      HostsGuarded lcf headers events (some out.2) := by
  intro _ event present _
  refine ⟨host, gated, serves.2 event present, ?_⟩
  simp [variableDirectoryHost, variableDirectoryHostname, serves.1, gated.ne_nil]

/-- The handler looks up a host only after the allow list has it. -/
theorem directoryAgent_guarded {label keyid : Bytes} (ctx : Context) (aside : ∀ event ∈ past, event.1.Aside)
    (selected : Profile.selectLabel lcf.profile (collectHeader headers (ascii "signature-input")) =
      some (label, keyid)) :
    (directoryAgent lcf (collectHeader headers (ascii "signature-agent")) label keyid ctx).Always
      (fun events out => HostsGuarded lcf headers events (some out.2)) past := by
  simp only [directoryAgent, Prog.ask_bind, Prog.always_call]
  intro room hostRoom
  have stillAside := aside_snoc (aside_snoc aside .agentRoom room trivial) (.room .host) hostRoom trivial
  split
  · exact guarded_aside stillAside _
  rename_i host normalized
  split
  · exact guarded_aside stillAside _
  rename_i passes
  simp only [Bool.or_eq_true, Bool.not_eq_true', not_or, Bool.not_eq_false] at passes
  have named := fun event present => (stillAside event present).onHost host
  have asked : (⟨.agentRoom, room⟩ : Call) ∈ past ++ [⟨.agentRoom, room⟩] ++ [⟨.room .host, hostRoom⟩] := by simp
  have extends_ := Prog.always_extends (directoryLookup lcf keyid { ctx with directoryHost := host })
    (past ++ [⟨.agentRoom, room⟩] ++ [⟨.room .host, hostRoom⟩])
  apply ((directoryLookup_serves lcf keyid { ctx with directoryHost := host } named).and extends_).imp
  rintro events out ⟨serves, grown⟩ roomy
  obtain rfl := roomy room (grown.subset asked)
  rw [Profile.agentAuthorityIn_full] at normalized
  exact serves.hostsGuarded (Gated.of_normalized selected normalized passes.2) roomy

/-- A first run of the handler reaches the cache and the network for a gated host only. -/
theorem directoryStart_guarded (ctx : Context) (aside : ∀ event ∈ past, event.1.Aside) :
    (directoryStart lcf headers ctx).Always
      (fun events out => HostsGuarded lcf headers events (some out.2)) past := by
  rw [directoryStart, Prog.ask_bind, Prog.always_call]
  intro inputRoom
  have afterInput := aside_snoc aside (.room .signatureInput) inputRoom trivial
  cases inputRoom with
  | false => exact guarded_aside afterInput _
  | true =>
      rw [if_neg (by simp), Prog.ask_bind, Prog.always_call]
      intro agentRoom
      have afterAgent := aside_snoc afterInput (.room .signatureAgent) agentRoom trivial
      cases agentRoom with
      | false => exact guarded_aside afterAgent _
      | true =>
          rw [if_neg (by simp)]
          dsimp only
          split
          · exact guarded_aside afterAgent _
          rw [Prog.ask_bind, Prog.always_call]
          intro labelRoom
          have afterLabel := aside_snoc afterAgent (.room .label) labelRoom trivial
          cases labelRoom with
          | false => exact guarded_aside afterLabel _
          | true =>
              rw [if_neg (by simp)]
              split
              · exact guarded_aside afterLabel _
              · rename_i label keyid selected
                exact directoryAgent_guarded ctx afterLabel selected

/-- Every run of the handler reaches the cache and the network for a gated host only. -/
theorem directoryHandler_guarded (ctx : Option Context) :
    (directoryHandler lcf headers ctx).Always (fun events out => HostsGuarded lcf headers events out.2) [] := by
  have none_yet : ∀ event ∈ ([] : List Call), event.1.Aside := by simp
  unfold directoryHandler
  split
  · exact guarded_aside none_yet _
  cases ctx with
  | none =>
      rw [Prog.ask_bind, Prog.always_call]
      intro roomy
      have afterRoom := aside_snoc none_yet (.room .context) roomy trivial
      cases roomy with
      | false => exact guarded_aside afterRoom _
      | true =>
          rw [if_neg (by simp)]
          exact Prog.always_bind.mpr (directoryStart_guarded Context.zero afterRoom)
  | some ctx =>
      dsimp only
      split
      · exact guarded_aside none_yet _
      split
      · exact guarded_aside none_yet _
      split
      · exact guarded_aside none_yet _
      · exact Prog.always_bind.mpr (directoryStart_guarded ctx none_yet)

end HostsGuarded

/-- The host that is verified, the authority that is fetched and the server name of the fetch agree up to the
port, and the handler calls for an allowed host only. -/
theorem agent_scanners_agree :
    (∀ (raws : List Bytes) (label : Bytes),
      (agentAuthority raws label ≠ [] ↔ agentHost raws label ≠ []) ∧
        (agentHost raws label ≠ [] → ∃ port normalized, Agent raws label port normalized)) ∧
      ∀ (lcf : Location) (headers : List RawHeader) (ctx : Option Context),
        (directoryHandler lcf headers ctx).Always (fun events out => HostsGuarded lcf headers events out.2) [] := by
  refine ⟨fun raws label => ?_, fun _ _ => directoryHandler_guarded⟩
  rcases agent_of_label raws label with ⟨noHost, noAuthority⟩ | ⟨filled, port, normalized, agent⟩
  · exact ⟨iff_of_false (not_not.mpr noAuthority) (not_not.mpr noHost), fun filled => absurd noHost filled⟩
  · refine ⟨iff_of_true ?_ filled, fun _ => ⟨port, normalized, agent⟩⟩
    rw [agent.authority]
    exact List.append_ne_nil_of_left_ne_nil filled port

/-- The agent has user information, upper-case letters and the default port. -/
def sampleAgent : List Bytes := [ascii "sig1=\"https://user@Agent.test:443/keys\""]

/-- The two scanners on one agent field. -/
theorem agent_scanners_agree_sample :
    agentHost sampleAgent (ascii "sig1") = ascii "agent.test" ∧
      ∃ port normalized, Agent sampleAgent (ascii "sig1") port normalized := by
  have host : agentHost sampleAgent (ascii "sig1") = ascii "agent.test" := by decide +kernel
  refine ⟨host, (agent_scanners_agree.1 sampleAgent (ascii "sig1")).2 ?_⟩
  rw [host]
  decide

end Module
end AuthHttpsig
