/-
This file shows which accepted configurations are safe to run.
-/

import AuthHttpsig.Construction.Config
import AuthHttpsig.Library.Result

namespace AuthHttpsig.Config
open AuthHttpsig.Module (Mode NonceBackend NonceFailure)

namespace Directive

def isAllow : Directive → Bool
  | .agentAllow _ => true
  | _ => false

/-- The directive lists hosts and not `off`. -/
def isHosted : Directive → Bool
  | .agentAllow hosts => !isOff hosts
  | _ => false

def isRequest : Directive → Bool
  | .keyDirectoryRequest _ => true
  | _ => false

def isZone : Directive → Bool
  | .keyCacheZone _ => true
  | _ => false

def selectedMode : Directive → Option Mode
  | .mode value => some value
  | _ => none

end Directive

/-- These are the directives of the block itself. -/
def Body.directives : Body → List Directive
  | .done => []
  | .directive first rest => first :: rest.directives
  | .block _ rest => rest.directives

def Body.declares (body : Body) (test : Directive → Bool) : Bool := body.directives.any test

def Body.selectedMode (body : Body) : Option Mode := body.directives.findSome? Directive.selectedMode

/-- Some inner block with a mode and a request lists no hosts itself, and neither does any block around it
below the http block. -/
def Body.Inherits (mode : Mode) (requested : Bool) : Body → Prop
  | .done => False
  | .directive _ rest => rest.Inherits mode requested
  | .block inner rest =>
      let innerMode := inner.selectedMode.getD mode
      let innerRequested := requested || inner.declares Directive.isRequest
      inner.declares Directive.isAllow = false ∧
          (innerMode ≠ .off ∧ innerRequested = true ∨ inner.Inherits innerMode innerRequested) ∨
        rest.Inherits mode requested

instance decidableInherits (mode : Mode) (requested : Bool) (body : Body) :
    Decidable (body.Inherits mode requested) :=
  match body with
  | .done => inferInstanceAs (Decidable False)
  | .directive _ rest => decidableInherits mode requested rest
  | .block inner rest =>
      have := decidableInherits (inner.selectedMode.getD mode)
        (requested || inner.declares Directive.isRequest) inner
      have := decidableInherits mode requested rest
      inferInstanceAs (Decidable (_ ∧ (_ ∨ _) ∨ _))

/-- The hosts of the http block reach a block with a mode and a request, and there is no zone. -/
def Body.Unguarded (http : Body) : Prop :=
  http.declares Directive.isZone = false ∧ http.declares Directive.isHosted = true ∧
    http.Inherits (http.selectedMode.getD .off) (http.declares Directive.isRequest)

instance (http : Body) : Decidable http.Unguarded := inferInstanceAs (Decidable (_ ∧ _ ∧ _))

/-- Every block of the forest meets the condition. -/
def Forest.All (condition : LocConf → Prop) : Forest → Prop
  | .empty => True
  | .block conf inner rest => condition conf ∧ inner.All condition ∧ rest.All condition

/-- Every block finds the zones and the handlers that it uses. -/
structure Safe (main : MainConf) (forest : Forest) : Prop where
  directory : forest.All fun conf => conf.mode ≠ some .off → conf.enabled = true →
    main.shmZone.isSome = true ∧ (init main).directory = true
  keySource : forest.All fun conf => conf.mode ≠ some .off → conf.keys.isSome = true ∨ conf.enabled = true
  nonceStore : forest.All fun conf =>
    (conf.nonceStore = some .shm → main.nonceShmZone.isSome = true) ∧
      (conf.nonceStore = some .redis → main.nonceRedis = true)
  oneBackend : forest.All fun conf => forest.All fun other =>
    conf.nonceStore ≠ some .off → other.nonceStore ≠ some .off → conf.nonceStore = other.nonceStore
  access : forest.All fun conf => conf.mode = some .enforce ∨ conf.require = some true →
    (init main).access = true

/-- A weaker condition holds of all locations too. -/
theorem Forest.All.imp {condition other : LocConf → Prop} {forest : Forest} (all : forest.All condition)
    (weaker : ∀ conf, condition conf → other conf) : forest.All other := by
  induction forest with
  | empty => trivial
  | block conf inner rest ihInner ihRest =>
      exact ⟨weaker conf all.1, ihInner all.2.1, ihRest all.2.2⟩

/-- This is `Body.Inherits` over the fields that the setters wrote. -/
def Forest.Inherits (mode : Mode) (requested : Bool) : Forest → Prop
  | .empty => False
  | .block conf inner rest =>
      let innerMode := conf.mode.getD mode
      let innerRequested := requested || decide (conf.requestUri.length > 0)
      conf.allow.isSome = false ∧
          (innerMode ≠ .off ∧ innerRequested = true ∨ inner.Inherits innerMode innerRequested) ∨
        rest.Inherits mode requested

def LocConf.hosted (conf : LocConf) : Bool := (conf.allow.getD []).length > 0

def LocConf.requested (conf : LocConf) : Bool := conf.requestUri.length > 0

section Read

variable {env : Environment} {http : Bool} {main after : MainConf} {conf changed : LocConf}

/-- This is what a setter changes of the fields that decide the directory. -/
structure Applied (directive : Directive) (http : Bool) (main : MainConf) (conf : LocConf)
    (after : MainConf) (changed : LocConf) : Prop where
  mode : changed.mode = conf.mode.or directive.selectedMode
  declared : changed.allow.isSome = (conf.allow.isSome || directive.isAllow)
  hosted : changed.hosted = (conf.hosted || directive.isHosted)
  requested : changed.requested = (conf.requested || directive.isRequest)
  zone : after.shmZone.isSome = (main.shmZone.isSome || directive.isZone)
  outer : directive.isZone = true → http = true
  dynamic : after.dynamic = (main.dynamic || directive.isHosted)

/-- A slot is set only once. -/
theorem setSlot_eq_ok {α : Type} {field slot : Option α} {value : α} (done : setSlot field value = .ok slot) :
    field = none ∧ slot = some value := by
  unfold setSlot at done
  cases field with
  | some _ => simp at done
  | none =>
      simp only [Option.isSome_none, Bool.false_eq_true, if_false, Except.ok.injEq] at done
      exact ⟨rfl, done.symm⟩

/-- A setter of another field leaves these fields. -/
theorem Applied.other {directive : Directive} (mode : changed.mode = conf.mode.or directive.selectedMode)
    (allow : changed.allow = conf.allow)
    (request : changed.requested = (conf.requested || directive.isRequest))
    (plain : directive.isAllow = false ∧ directive.isHosted = false ∧ directive.isZone = false) :
    Applied directive http main conf main changed where
  mode := mode
  declared := by rw [allow, plain.1, Bool.or_false]
  hosted := by rw [LocConf.hosted, allow, plain.2.1, Bool.or_false]; rfl
  requested := request
  zone := by rw [plain.2.2, Bool.or_false]
  outer zone := by rw [plain.2.2] at zone; cases zone
  dynamic := by rw [plain.2.1, Bool.or_false]

/-- Where every value is read, there are as many results. -/
theorem mapM_ok_length {ε α β : Type} {f : α → Except ε β} {values : List α} {results : List β}
    (done : values.mapM f = .ok results) : results.length = values.length := by
  induction values generalizing results with
  | nil =>
      rw [List.mapM_nil, pure_eq_ok] at done
      subst done
      rfl
  | cons value rest ih =>
      simp only [List.mapM_cons, bind_eq_ok, pure_eq_ok] at done
      obtain ⟨first, _, others, made, rfl⟩ := done
      simp only [List.length_cons, ih made]

/-- What the host list does to the two configurations. -/
theorem setAgentAllow_applied {hosts : List Bytes} (given : hosts.length ≠ 0)
    (done : setAgentAllow main conf hosts = .ok (after, changed)) :
    Applied (.agentAllow hosts) http main conf after changed := by
  simp only [setAgentAllow, if_error_eq_ok] at done
  obtain ⟨_, fresh, done⟩ := done
  split at done
  · rename_i off
    cases done
    have empty : conf.hosted = false := by
      cases held : conf.allow with
      | none => simp [LocConf.hosted, held]
      | some allow => simp [held, off] at fresh
    have lone : (Directive.agentAllow hosts).isHosted = false := by simp [Directive.isHosted, off]
    refine ⟨(Option.or_none).symm, by simp [Directive.isAllow], ?_, (Bool.or_false _).symm,
      (Bool.or_false _).symm, nofun, by rw [lone, Bool.or_false]⟩
    rw [lone, empty]
    rfl
  · rename_i listed
    split at done
    · cases done
    · rename_i normalized made
      cases done
      have many : normalized.length = hosts.length := mapM_ok_length made
      have some_host : (Directive.agentAllow hosts).isHosted = true := by simp [Directive.isHosted, listed]
      refine ⟨(Option.or_none).symm, by simp [Directive.isAllow], ?_, (Bool.or_false _).symm,
        (Bool.or_false _).symm, nofun, by rw [some_host, Bool.or_true]⟩
      rw [some_host, Bool.or_true, LocConf.hosted, decide_eq_true_eq, Option.getD_some, List.length_append]
      omega

/-- What each directive does to the two configurations. -/
theorem apply_applied {directive : Directive}
    (done : apply env http main conf directive = .ok (after, changed)) :
    Applied directive http main conf after changed := by
  cases directive with
  | agentAllow hosts =>
      simp only [apply, if_error_eq_ok] at done
      exact setAgentAllow_applied done.1 done.2
  | keyCacheZone zone =>
      simp only [apply, else_error_eq_ok, bind_eq_ok, pure_eq_ok, Prod.mk.injEq] at done
      obtain ⟨outer, set, made, rfl, rfl⟩ := done
      simp only [setKeyCacheZone, if_error_eq_ok, bind_eq_ok, pure_eq_ok] at made
      obtain ⟨_, name, _, rfl⟩ := made
      exact ⟨(Option.or_none).symm, (Bool.or_false _).symm, (Bool.or_false _).symm, (Bool.or_false _).symm,
        (Bool.or_true _).symm, fun _ => outer, (Bool.or_false _).symm⟩
  | nonceStoreRedis parameters =>
      simp only [apply, else_error_eq_ok, bind_eq_ok, pure_eq_ok, Prod.mk.injEq] at done
      obtain ⟨_, set, made, rfl, rfl⟩ := done
      simp only [setNonceStoreRedis, if_error_eq_ok, else_error_eq_ok, Except.ok.injEq] at made
      obtain ⟨_, _, rfl⟩ := made
      exact ⟨(Option.or_none).symm, (Bool.or_false _).symm, (Bool.or_false _).symm, (Bool.or_false _).symm,
        (Bool.or_false _).symm, nofun, (Bool.or_false _).symm⟩
  | nonceStoreZone zone =>
      simp only [apply, else_error_eq_ok, bind_eq_ok, pure_eq_ok, Prod.mk.injEq] at done
      obtain ⟨_, set, made, rfl, rfl⟩ := done
      simp only [setNonceStoreZone, if_error_eq_ok, bind_eq_ok, pure_eq_ok] at made
      obtain ⟨_, name, _, rfl⟩ := made
      exact ⟨(Option.or_none).symm, (Bool.or_false _).symm, (Bool.or_false _).symm, (Bool.or_false _).symm,
        (Bool.or_false _).symm, nofun, (Bool.or_false _).symm⟩
  | keyDirectoryRequest uri =>
      simp only [apply, setLoc, setKeyDirectoryRequest, bind_eq_ok, pure_eq_ok, Prod.mk.injEq, if_error_eq_ok,
        Except.ok.injEq] at done
      obtain ⟨_, ⟨_, rooted, _, rfl⟩, rfl, rfl⟩ := done
      refine .other (Option.or_none).symm rfl ?_ ⟨rfl, rfl, rfl⟩
      cases uri with
      | nil => simp at rooted
      | cons c rest => simp [LocConf.requested, Directive.isRequest]
  | mode value =>
      simp only [apply, setLoc, bind_eq_ok, pure_eq_ok, Prod.mk.injEq] at done
      obtain ⟨_, ⟨slot, set, rfl⟩, rfl, rfl⟩ := done
      obtain ⟨unset, rfl⟩ := setSlot_eq_ok set
      refine .other ?_ rfl (Bool.or_false _).symm ⟨rfl, rfl, rfl⟩
      rw [unset]
      rfl
  | schemeVar name =>
      simp only [apply, setLoc, setSchemeVar, bind_eq_ok, pure_eq_ok, Prod.mk.injEq, if_error_eq_ok] at done
      obtain ⟨_, ⟨_, _, done⟩, rfl, rfl⟩ := done
      split at done
      · cases done
      · cases done
        exact .other (Option.or_none).symm rfl (Bool.or_false _).symm ⟨rfl, rfl, rfl⟩
  | jwksFile path =>
      simp only [apply, setLoc, setJwksFile, bind_eq_ok, pure_eq_ok, Prod.mk.injEq, if_error_eq_ok] at done
      obtain ⟨_, ⟨_, done⟩, rfl, rfl⟩ := done
      split at done
      · cases done
      · cases done
        exact .other (Option.or_none).symm rfl (Bool.or_false _).symm ⟨rfl, rfl, rfl⟩
  | profile name =>
      simp only [apply, setLoc, setProfile, bind_eq_ok, pure_eq_ok, Prod.mk.injEq, if_error_eq_ok] at done
      obtain ⟨_, ⟨_, done⟩, rfl, rfl⟩ := done
      split at done
      · cases done
      · cases done
        exact .other (Option.or_none).symm rfl (Bool.or_false _).symm ⟨rfl, rfl, rfl⟩
  | _ =>
      simp only [apply, setLoc, setStatus, bind_eq_ok, pure_eq_ok, Prod.mk.injEq] at done
      obtain ⟨_, ⟨slot, _, rfl⟩, rfl, rfl⟩ := done
      exact .other (Option.or_none).symm rfl (Bool.or_false _).symm ⟨rfl, rfl, rfl⟩

/-- This is what the setters of a block and of its inner blocks change. -/
structure Read (body : Body) (http : Bool) (main : MainConf) (conf : LocConf) (after : MainConf)
    (changed : LocConf) (forest : Forest) : Prop where
  mode : changed.mode = conf.mode.or body.selectedMode
  declared : changed.allow.isSome = (conf.allow.isSome || body.declares Directive.isAllow)
  hosted : changed.hosted = (conf.hosted || body.declares Directive.isHosted)
  requested : changed.requested = (conf.requested || body.declares Directive.isRequest)
  zone : after.shmZone.isSome = (main.shmZone.isSome || body.declares Directive.isZone)
  outer : body.declares Directive.isZone = true → http = true
  kept : main.dynamic = true → after.dynamic = true
  dynamic : body.declares Directive.isHosted = true → after.dynamic = true
  announced : forest.All fun inner => inner.hosted = true → after.dynamic = true
  inherits : ∀ mode requested, forest.Inherits mode requested ↔ body.Inherits mode requested

theorem declares_directive (first : Directive) (rest : Body) (test : Directive → Bool) :
    (Body.directive first rest).declares test = (test first || rest.declares test) := rfl

theorem selectedMode_directive (first : Directive) (rest : Body) :
    (Body.directive first rest).selectedMode = first.selectedMode.or rest.selectedMode := by
  simp only [Body.selectedMode, Body.directives, List.findSome?_cons]
  cases first.selectedMode <;> rfl

/-- What the directives of a block do, in their order. -/
theorem read_read {body : Body} {forest : Forest}
    (done : read env http main conf body = .ok (after, changed, forest)) :
    Read body http main conf after changed forest := by
  induction body generalizing http main conf after changed forest with
  | done =>
      cases done
      exact ⟨(Option.or_none).symm, (Bool.or_false _).symm, (Bool.or_false _).symm, (Bool.or_false _).symm,
        (Bool.or_false _).symm, nofun, id, nofun, trivial, fun _ _ => Iff.rfl⟩
  | directive first rest ih =>
      simp only [read, bind_eq_ok, Prod.exists] at done
      obtain ⟨middle, set, made, done⟩ := done
      have applied := apply_applied made
      have further := ih done
      refine ⟨?_, ?_, ?_, ?_, ?_, ?_, ?_, ?_, further.announced, further.inherits⟩
      · rw [further.mode, applied.mode, selectedMode_directive, Option.or_assoc]
      · rw [further.declared, applied.declared, declares_directive, Bool.or_assoc]
      · rw [further.hosted, applied.hosted, declares_directive, Bool.or_assoc]
      · rw [further.requested, applied.requested, declares_directive, Bool.or_assoc]
      · rw [further.zone, applied.zone, declares_directive, Bool.or_assoc]
      · rw [declares_directive, Bool.or_eq_true]
        rintro (here | later)
        · exact applied.outer here
        · exact further.outer later
      · intro started
        exact further.kept (by rw [applied.dynamic, started, Bool.true_or])
      · rw [declares_directive, Bool.or_eq_true]
        rintro (here | later)
        · exact further.kept (by rw [applied.dynamic, here, Bool.or_true])
        · exact further.dynamic later
  | block inner rest ihInner ihRest =>
      simp only [read, bind_eq_ok, pure_eq_ok, Prod.exists, Prod.mk.injEq] at done
      obtain ⟨middle, innerConf, innerBlocks, innerDone, final, outerConf, restBlocks, restDone, rfl, rfl, rfl⟩ :=
        done
      have inside := ihInner innerDone
      have further := ihRest restDone
      have noZone : inner.declares Directive.isZone = false := by
        cases zone : inner.declares Directive.isZone with
        | false => rfl
        | true => exact absurd (inside.outer zone) (by decide)
      have sameZone : middle.shmZone.isSome = main.shmZone.isSome := by
        rw [inside.zone, noZone, Bool.or_false]
      have innerMode : innerConf.mode = inner.selectedMode := inside.mode
      have innerDeclared : innerConf.allow.isSome = inner.declares Directive.isAllow := inside.declared
      have innerRequested : innerConf.requested = inner.declares Directive.isRequest := inside.requested
      have innerHosted : innerConf.hosted = inner.declares Directive.isHosted := inside.hosted
      refine ⟨further.mode, further.declared, further.hosted, further.requested, ?_, further.outer,
        fun started => further.kept (inside.kept started), further.dynamic, ⟨?_, ?_, further.announced⟩, ?_⟩
      · rw [further.zone, sameZone]
        rfl
      · intro hosted
        exact further.kept (inside.dynamic (innerHosted ▸ hosted))
      · exact inside.announced.imp fun conf announced hosted => further.kept (announced hosted)
      · intro mode requested
        have requestedHere : decide (innerConf.requestUri.length > 0) = inner.declares Directive.isRequest :=
          innerRequested
        simp only [Forest.Inherits, Body.Inherits, innerMode, innerDeclared, requestedHere, inside.inherits,
          further.inherits]

end Read

section Merge

variable {env : Environment} {main after final : MainConf} {parent conf merged : LocConf}

/-- The merging of further blocks keeps what the main configuration says. -/
structure Extends (main after : MainConf) : Prop where
  shmZone : after.shmZone = main.shmZone
  dynamic : after.dynamic = main.dynamic
  nonceRedis : after.nonceRedis = main.nonceRedis
  nonceShmZone : after.nonceShmZone = main.nonceShmZone
  accessUsed : main.accessUsed = true → after.accessUsed = true
  backend : main.nonceStoreBackend ≠ .off → after.nonceStoreBackend = main.nonceStoreBackend

theorem Extends.refl (main : MainConf) : Extends main main := ⟨rfl, rfl, rfl, rfl, id, fun _ => rfl⟩

/-- Extending twice is extending. -/
theorem Extends.trans (first : Extends main after) (second : Extends after final) : Extends main final where
  shmZone := second.shmZone.trans first.shmZone
  dynamic := second.dynamic.trans first.dynamic
  nonceRedis := second.nonceRedis.trans first.nonceRedis
  nonceShmZone := second.nonceShmZone.trans first.nonceShmZone
  accessUsed used := second.accessUsed (first.accessUsed used)
  backend selected := by
    have kept := first.backend selected
    rw [second.backend (kept ▸ selected), kept]

/-- These checks cover every block. -/
structure Sound (main : MainConf) (conf : LocConf) : Prop where
  keySource : conf.mode ≠ some .off → conf.keys.isSome = true ∨ conf.enabled = true
  backend : conf.nonceStore ≠ some .off →
    main.nonceStoreBackend ≠ .off ∧ conf.nonceStore = some main.nonceStoreBackend
  shm : conf.nonceStore = some .shm → main.nonceShmZone.isSome = true
  redis : conf.nonceStore = some .redis → main.nonceRedis = true
  access : conf.mode = some .enforce ∨ conf.require = some true → main.accessUsed = true

/-- A location stays sound when the main configuration is extended. -/
theorem Sound.extends (sound : Sound main conf) (further : Extends main after) : Sound after conf where
  keySource := sound.keySource
  backend selected := by
    obtain ⟨known, same⟩ := sound.backend selected
    rw [further.backend known]
    exact ⟨known, same⟩
  shm selected := by rw [further.nonceShmZone]; exact sound.shm selected
  redis selected := by rw [further.nonceRedis]; exact sound.redis selected
  access used := further.accessUsed (sound.access used)

/-- A backend is selected only with what it needs. -/
theorem selectBackend_spec {backend : NonceBackend} (done : selectBackend env main backend = .ok after) :
    Extends main after ∧ after.accessUsed = main.accessUsed ∧
      (backend ≠ .off → after.nonceStoreBackend = backend) ∧
      (backend = .shm → after.nonceShmZone.isSome = true) ∧ (backend = .redis → after.nonceRedis = true) := by
  unfold selectBackend at done
  split at done
  · rename_i off
    cases done
    exact ⟨.refl main, rfl, fun selected => absurd off selected, fun shm => by simp [off] at shm,
      fun redis => by simp [off] at redis⟩
  · simp only [if_error_eq_ok, Except.ok.injEq] at done
    obtain ⟨agreed, _, redis, shm, rfl⟩ := done
    refine ⟨⟨rfl, rfl, rfl, rfl, id, ?_⟩, rfl, fun _ => rfl, ?_, ?_⟩
    · intro selected
      by_contra different
      exact agreed ⟨selected, fun same => different same.symm⟩
    · rintro rfl
      exact Option.isSome_iff_ne_none.mpr (by simpa using shm)
    · rintro rfl
      simpa using redis

/-- This is what the merging of one block gives. -/
structure Merged (main : MainConf) (parent conf : LocConf) (after : MainConf) (merged : LocConf) : Prop where
  further : Extends main after
  mode : merged.mode = some (conf.mode.getD (parent.mode.getD .off))
  allow : merged.allow = conf.allow.or parent.allow
  requested : merged.requested = (parent.requested || conf.requested)
  enabled : merged.enabled = (merged.hosted && merged.requested)
  zone : conf.hosted = true → main.shmZone.isSome = true
  sound : Sound after merged

/-- Noting that the access phase is used extends the main configuration. -/
theorem noteAccess_extends (main : MainConf) (merged : LocConf) : Extends main (noteAccess main merged) := by
  unfold noteAccess
  split
  · exact ⟨rfl, rfl, rfl, rfl, fun _ => rfl, fun _ => rfl⟩
  · exact .refl main

/-- A location with hosts passes its check only with a cache zone. -/
theorem checkDirectory_zone (done : checkDirectory main conf merged = .ok ())
    (hosted : conf.hosted = true) : main.shmZone.isSome = true := by
  have listed : (conf.allow.getD []).length > 0 := of_decide_eq_true hosted
  simp only [checkDirectory, if_pos listed, if_error_eq_ok] at done
  exact Option.isSome_iff_ne_none.mpr (by simpa using done.2.1)

/-- A location passes the mode check only with the mode off or a source of keys. -/
theorem checkMode_keySource (done : checkMode merged = .ok ()) (on : merged.mode ≠ some .off) :
    merged.keys.isSome = true ∨ merged.enabled = true := by
  simp only [checkMode, if_error_eq_ok] at done
  have present := done.1
  by_contra absent
  rw [not_or, Bool.not_eq_true, Bool.not_eq_true] at absent
  exact present ⟨on, by simpa using absent.1, absent.2⟩

/-- What the merge of a location takes from its parent and what it checks. -/
theorem mergeLocConf_merged (done : mergeLocConf env main parent conf = .ok (after, merged)) :
    Merged main parent conf after merged := by
  simp only [mergeLocConf, bind_eq_ok, pure_eq_ok, Prod.mk.injEq] at done
  obtain ⟨index, _, _, _, _, directory, _, mode, _, _, middle, selected, rfl, rfl⟩ := done
  obtain ⟨further, used, backend, shm, redis⟩ := selectBackend_spec selected
  have noted := noteAccess_extends middle (mergeValues parent conf index)
  refine ⟨further.trans noted, ?_, rfl, ?_, rfl, checkDirectory_zone directory,
    checkMode_keySource mode, ?_, ?_, ?_, ?_⟩
  · simp only [mergeValues]
    cases conf.mode <;> cases parent.mode <;> rfl
  · simp only [LocConf.requested, mergeValues]
    by_cases empty : conf.requestUri.length = 0
    · simp [empty]
    · simp [empty, Nat.pos_of_ne_zero empty]
  · intro chosen
    have name : (mergeValues parent conf index).nonceStore =
        some ((mergeValues parent conf index).nonceStore.getD .off) := rfl
    have on : (mergeValues parent conf index).nonceStore.getD .off ≠ .off := by
      intro off
      rw [off] at name
      exact chosen name
    have same := backend on
    rw [noted.backend (same ▸ on), same]
    exact ⟨on, name⟩
  · intro chosen
    rw [noted.nonceShmZone]
    exact shm (by rw [chosen]; rfl)
  · intro chosen
    rw [noted.nonceRedis]
    exact redis (by rw [chosen]; rfl)
  · intro access
    rw [noteAccess, if_pos access]

/-- Merging a tree extends the main configuration. -/
theorem merge_extends {forest mergedForest : Forest}
    (done : merge env main parent forest = .ok (after, mergedForest)) : Extends main after := by
  induction forest generalizing main parent after mergedForest with
  | empty =>
      cases done
      exact .refl main
  | block conf inner rest ihInner ihRest =>
      simp only [merge, bind_eq_ok, pure_eq_ok, Prod.exists, Prod.mk.injEq] at done
      obtain ⟨first, merged, here, second, innerMerged, inside, third, restMerged, beside, rfl, rfl⟩ := done
      exact ((mergeLocConf_merged here).further.trans (ihInner inside)).trans (ihRest beside)

/-- Every location of a merged tree is sound. -/
theorem merge_sound {forest mergedForest : Forest}
    (done : merge env main parent forest = .ok (after, mergedForest)) : mergedForest.All (Sound after) := by
  induction forest generalizing main parent after mergedForest with
  | empty =>
      cases done
      trivial
  | block conf inner rest ihInner ihRest =>
      simp only [merge, bind_eq_ok, pure_eq_ok, Prod.exists, Prod.mk.injEq] at done
      obtain ⟨first, merged, here, second, innerMerged, inside, third, restMerged, beside, rfl, rfl⟩ := done
      have further := merge_extends beside
      exact ⟨(mergeLocConf_merged here).sound.extends ((merge_extends inside).trans further),
        (ihInner inside).imp fun _ sound => sound.extends further, ihRest beside⟩

/-- The hosts of a block are its own hosts or the hosts of its parent. -/
theorem Merged.hosted_of (block : Merged main parent conf after merged) (hosted : merged.hosted = true) :
    conf.hosted = true ∨ conf.allow = none ∧ parent.hosted = true := by
  rw [LocConf.hosted, block.allow] at hosted
  cases declared : conf.allow with
  | none =>
      rw [declared] at hosted
      exact .inr ⟨rfl, hosted⟩
  | some allow =>
      rw [declared] at hosted
      exact .inl (by rw [LocConf.hosted, declared]; exact hosted)

/-- An enabled directory comes with its handler. -/
theorem merge_dynamic {forest mergedForest : Forest}
    (done : merge env main parent forest = .ok (after, mergedForest))
    (parentAnnounced : parent.hosted = true → main.dynamic = true)
    (announced : forest.All fun inner => inner.hosted = true → main.dynamic = true) :
    mergedForest.All fun inner => inner.enabled = true → main.dynamic = true := by
  induction forest generalizing main parent after mergedForest with
  | empty =>
      cases done
      trivial
  | block conf inner rest ihInner ihRest =>
      simp only [merge, bind_eq_ok, pure_eq_ok, Prod.exists, Prod.mk.injEq] at done
      obtain ⟨first, merged, here, second, innerMerged, inside, third, restMerged, beside, rfl, rfl⟩ := done
      have block := mergeLocConf_merged here
      have hosted : merged.hosted = true → main.dynamic = true := by
        intro listed
        rcases block.hosted_of listed with own | ⟨_, inherited⟩
        · exact announced.1 own
        · exact parentAnnounced inherited
      have innerDynamic := ihInner inside
      have restDynamic := ihRest beside
      rw [block.further.dynamic] at innerDynamic
      rw [(merge_extends inside).dynamic, block.further.dynamic] at restDynamic
      refine ⟨?_, innerDynamic hosted announced.2.1, restDynamic parentAnnounced announced.2.2⟩
      intro enabled
      rw [block.enabled, Bool.and_eq_true] at enabled
      exact hosted enabled.1

/-- Without a zone, a directory is enabled exactly where the hosts of the parent are inherited. -/
theorem merge_inherits {forest mergedForest : Forest}
    (done : merge env main parent forest = .ok (after, mergedForest)) (zone : main.shmZone = none) :
    (mergedForest.All fun inner => inner.mode ≠ some .off → inner.enabled = false) ↔
      ¬ (parent.hosted = true ∧ forest.Inherits (parent.mode.getD .off) parent.requested) := by
  induction forest generalizing main parent after mergedForest with
  | empty =>
      cases done
      simp [Forest.All, Forest.Inherits]
  | block conf inner rest ihInner ihRest =>
      simp only [merge, bind_eq_ok, pure_eq_ok, Prod.exists, Prod.mk.injEq] at done
      obtain ⟨first, merged, here, second, innerMerged, inside, third, restMerged, beside, rfl, rfl⟩ := done
      have block := mergeLocConf_merged here
      have firstZone : first.shmZone = none := block.further.shmZone.trans zone
      have innerIff := ihInner inside firstZone
      have restIff := ihRest beside ((merge_extends inside).shmZone.trans firstZone)
      have bare : conf.hosted = false := by
        cases listed : conf.hosted with
        | false => rfl
        | true =>
            have present := block.zone listed
            rw [zone] at present
            cases present
      rw [block.mode, block.requested, Option.getD_some] at innerIff
      simp only [Forest.All, Forest.Inherits, innerIff, restIff, block.mode, block.enabled, block.requested]
      cases declared : conf.allow with
      | some allow =>
          have unlisted : merged.hosted = false := by
            rw [LocConf.hosted, block.allow, declared, ← bare, LocConf.hosted, declared]
            rfl
          simp [unlisted]
      | none =>
          have inherited : merged.hosted = parent.hosted := by
            rw [LocConf.hosted, block.allow, declared]
            rfl
          have same : decide (conf.requestUri.length > 0) = conf.requested := rfl
          simp only [inherited, same, Option.isSome_none, ne_eq, Option.some.injEq, true_and]
          cases parent.hosted <;> cases parent.requested || conf.requested <;> simp
          tauto

end Merge

section Load

variable {env : Environment} {http : Body} {main : MainConf} {forest : Forest}

/-- Every location of a loaded configuration is sound. -/
theorem load_sound (done : load env http = .ok (main, forest)) : forest.All (Sound main) := by
  simp only [load, bind_eq_ok, Prod.exists] at done
  obtain ⟨middle, conf, servers, _, merged⟩ := done
  exact merge_sound merged

/-- Every enabled directory finds its zone and its handler, or the configuration is unguarded. -/
theorem load_directory (done : load env http = .ok (main, forest)) :
    (forest.All fun conf => conf.mode ≠ some .off → conf.enabled = true →
      main.shmZone.isSome = true ∧ (init main).directory = true) ↔ ¬ http.Unguarded := by
  simp only [load, bind_eq_ok, Prod.exists] at done
  obtain ⟨middle, conf, servers, setters, merged⟩ := done
  have body := read_read setters
  have further := merge_extends merged
  have mode : conf.mode = http.selectedMode := body.mode
  have hosted : conf.hosted = http.declares Directive.isHosted := body.hosted
  have requested : conf.requested = http.declares Directive.isRequest := body.requested
  have zone : middle.shmZone.isSome = http.declares Directive.isZone := body.zone
  cases present : http.declares Directive.isZone with
  | true =>
      have dynamic := merge_dynamic merged (fun listed => body.dynamic (hosted ▸ listed)) body.announced
      have guarded : ¬ http.Unguarded := fun unguarded => by simp [Body.Unguarded, present] at unguarded
      refine iff_of_true (dynamic.imp ?_) guarded
      intro inner noted _ enabled
      refine ⟨?_, ?_⟩
      · rw [further.shmZone, zone, present]
      · rw [init, further.dynamic]
        exact noted enabled
  | false =>
      have absent : middle.shmZone = none := by simpa [present] using zone
      have inherits := merge_inherits merged absent
      rw [body.inherits, hosted, requested, mode] at inherits
      rw [Body.Unguarded, present, further.shmZone, absent, ← not_iff_not, not_not]
      simp only [true_and]
      rw [← not_iff_not, not_not, ← inherits]
      constructor
      · intro all
        exact all.imp fun inner safe on => by
          cases enabled : inner.enabled with
          | false => rfl
          | true => exact absurd (safe on enabled).1 (by decide)
      · intro all
        exact all.imp fun inner off on enabled => by
          rw [off on] at enabled
          cases enabled

/-- An accepted configuration is safe to run exactly when the hosts of its http block do not reach a block
with a mode and a request while there is no zone. -/
theorem load_safe (done : load env http = .ok (main, forest)) : Safe main forest ↔ ¬ http.Unguarded := by
  have sound := load_sound done
  rw [← load_directory done]
  refine ⟨fun safe => safe.directory, fun directory => ⟨directory, ?_, ?_, ?_, ?_⟩⟩
  · exact sound.imp fun _ block => block.keySource
  · exact sound.imp fun _ block => ⟨block.shm, block.redis⟩
  · refine sound.imp fun _ block => sound.imp fun _ other selected alsoSelected => ?_
    rw [(block.backend selected).2, (other.backend alsoSelected).2]
  · exact sound.imp fun _ block => block.access

/-- The sample environment knows the default variable and one size. -/
def sampleEnvironment : Environment where
  loadJwksFile _ := none
  variableIndex name := if name = defaultScheme then some 0 else none
  parseSize text := if text = ascii "1m" then some 1048576 else none
  pageSize := 4096
  sharedMemoryAdd _ _ := true
  redisParameters _ := true
  haveNonceRedis := true

/-- The hosts and the request stand in the http block, and a server observes. -/
def sampleHttp (rest : Body) : Body :=
  .directive (.agentAllow [ascii "agent.test"]) (.directive (.keyDirectoryRequest (ascii "/fetch"))
    (.block (.directive (.mode .observe) .done) rest))

def guardedHttp : Body := sampleHttp (.directive (.keyCacheZone (ascii "keys:1m")) .done)

def unguardedHttp : Body := sampleHttp .done

/-- A loaded configuration in which the list stands where it is checked. -/
theorem load_safe_guarded :
    ∃ main forest, load sampleEnvironment guardedHttp = .ok (main, forest) ∧
      (Safe main forest ↔ ¬ guardedHttp.Unguarded) ∧ ¬ guardedHttp.Unguarded := by
  obtain ⟨⟨main, forest⟩, done⟩ := exists_eq_ok.mpr
    (show (load sampleEnvironment guardedHttp).toBool = true by decide +kernel)
  exact ⟨main, forest, done, load_safe done, by decide +kernel⟩

/-- The hosts of the http block reach the server, and its directory handler finds no zone. -/
theorem load_unsafe :
    ¬ ∀ (env : Environment) (http : Body) (main : MainConf) (forest : Forest),
      load env http = .ok (main, forest) → Safe main forest := by
  intro safe
  obtain ⟨⟨main, forest⟩, done⟩ := exists_eq_ok.mpr
    (show (load sampleEnvironment unguardedHttp).toBool = true by decide +kernel)
  have guarded := (load_directory done).mp (safe _ _ _ _ done).directory
  exact guarded (by decide +kernel)

end Load
end AuthHttpsig.Config
