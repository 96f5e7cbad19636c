/-
This file shows what the memoized nonce verdict of a request says in its later locations.
-/

import AuthHttpsig.Library.Machine
import AuthHttpsig.Proof.Evaluation
import AuthHttpsig.Proof.LocationDecision
import AuthHttpsig.Proof.ReplayKeys

namespace AuthHttpsig.Module

open SearchTree

variable {rb : Balanced Nat}

/-- The store was asked under this location and gave this answer. -/
structure Consultation where
  lcf : LocConf
  answer : NonceStore.Rc

/-- These are the backend calls of a program under this location. -/
def callsOf {α : Type} (program : Checking α) (crc : Bytes → UInt32) (lcf : LocConf) (env : Env)
    (store : NonceStore.Store rb) : List Consultation :=
  (program.served (backend crc lcf env) store).map fun event => ⟨lcf, event.2⟩

/-- These are the backend calls of one nonce check. -/
def asked (room : Room) (crc : Bytes → UInt32) (lcf : LocConf) (env : Env) (memo : Option Verdict)
    (sig : Profile.Signature) (store : NonceStore.Store rb) : List Consultation :=
  callsOf (checkNonceOf room lcf memo sig env.now) crc lcf env store

/-- These are the backend calls of one move. -/
def consultations (crc : Bytes → UInt32) (raw : RawRequest) (life : Life) : Move rb → List Consultation
  | .read lcf visit =>
      callsOf (evaluateOf visit.room lcf.toLocConf visit.env (visit.request raw) life.state) crc lcf.toLocConf
        visit.env visit.store
  | .handle .. | .finish .. | .redirect | .destroy _ => []

/-- The backend calls of a request are noted beside its life. -/
structure Journal where
  life : Life
  consulted : List Consultation

/-- A memoized verdict is the one of the only consultation, or it was known without any. -/
inductive Recalled (Known : Verdict → Prop) : Option Verdict → List Consultation → Prop
  | fresh : Recalled Known none []
  | refused {verdict : Verdict} (known : Known verdict) : Recalled Known (some verdict) []
  | consulted (only : Consultation) : Recalled Known (some (verdictOf only.lcf only.answer)) [only]

section Recalled

variable {Known : Verdict → Prop} {room : Room} {crc : Bytes → UInt32} {lcf : LocConf} {env : Env}
  {memo : Option Verdict} {sig : Profile.Signature} {store : NonceStore.Store rb} {past : List Consultation}

/-- A recalled memo stands for at most one consultation. -/
theorem Recalled.length_le (recalled : Recalled Known memo past) : past.length ≤ 1 := by
  cases recalled <;> simp

/-- An evaluation that consults asks the store once. -/
theorem asked_consults (consults : Consults room lcf memo sig) :
    asked room crc lcf env memo sig store = [⟨lcf, (consult crc lcf env sig store).1⟩] := by
  unfold asked
  rw [checkNonceOf_consults consults]
  rfl

/-- An evaluation that does not consult asks the store nothing. -/
theorem asked_idle (idle : ¬ Consults room lcf memo sig) : asked room crc lcf env memo sig store = [] := by
  obtain ⟨out, quiet⟩ := checkNonceOf_idle idle env.now
  unfold asked
  rw [quiet]
  rfl

/-- An evaluation that asks nothing leaves the recalled memo. -/
theorem Recalled.unasked (recalled : Recalled Known memo past) (idle : ¬ Consults room lcf memo sig) :
    Recalled Known memo (past ++ asked room crc lcf env memo sig store) := by
  rw [asked_idle idle, List.append_nil]
  exact recalled

/-- A verdict without a consultation is only formed while nothing is memoized. -/
theorem Recalled.refuses (recalled : Recalled Known none past) {verdict : Verdict} (known : Known verdict)
    (idle : ¬ Consults room lcf none sig) :
    Recalled Known (some verdict) (past ++ asked room crc lcf env none sig store) := by
  cases recalled
  rw [asked_idle idle, List.append_nil]
  exact .refused known

/-- A nonce check memoizes the verdict of its consultation. -/
theorem Recalled.checked {out : Verdict × Option Verdict × NonceStore.Store rb} (recalled : Recalled Known memo past)
    (failed : Known failedVerdict)
    (long : NonceStore.nonceMaxLen < sig.nonce.length → Known ⟨.nonceTooLong, false, false⟩)
    (checked : NonceChecked room crc lcf env memo sig store out) :
    Recalled Known out.2.1 (past ++ asked room crc lcf env memo sig store) := by
  cases checked with
  | off disabled => exact recalled.unasked fun asks => asks.enabled disabled
  | absent _ empty => exact recalled.unasked fun asks => asks.filled empty
  | known _ _ found =>
      refine recalled.unasked fun asks => ?_
      rw [asks.first] at found
      cases found
  | unmarked _ _ first noRoom =>
      subst first
      refine recalled.unasked fun asks => ?_
      rw [asks.marked] at noRoom
      cases noRoom
  | tooLong _ _ first _ tooLong =>
      subst first
      exact recalled.refuses (long tooLong) fun asks => absurd tooLong (Nat.not_lt.mpr asks.short)
  | keyless _ _ first _ _ noRoom =>
      subst first
      refine recalled.refuses failed fun asks => ?_
      rw [asks.keyed] at noRoom
      cases noRoom
  | consulted asks =>
      rw [asked_consults asks]
      have first := asks.first
      subst first
      cases recalled
      exact .consulted ⟨lcf, _⟩

end Recalled

namespace Journal

/-- The moves of a request come in any order. -/
def machine (rb : Balanced Nat) (crc : Bytes → UInt32) (raw : RawRequest) : Machine Journal (Move rb) where
  start journal := journal = ⟨Life.init, []⟩
  enabled journal next := journal.life.Permitted next
  step journal next := ⟨journal.life.move crc raw next,
    journal.consulted ++ consultations crc raw journal.life next⟩

/-- Every read that verifies a signature verifies this one. -/
def Presents (raw : RawRequest) (sig : Profile.Signature) (journal : Journal) : Move rb → Prop
  | .read lcf visit => ∀ other, Judges visit.room lcf.toLocConf (visit.request raw) journal.life.state →
      judgedIn visit.room lcf.toLocConf visit.env (visit.request raw) journal.life.state = .ok other → other = sig
  | .handle .. | .finish .. | .redirect | .destroy _ => True

variable {Known : Verdict → Prop} {crc : Bytes → UInt32} {raw : RawRequest} {journal : Journal}
  {sig : Profile.Signature}

/-- An evaluation that judges no signature to be good asks nothing. -/
theorem consultations_unjudged {life : Life} {lcf : Location} {visit : Visit rb}
    (unjudged : Unjudged visit.room lcf.toLocConf visit.env (visit.request raw) life.state) :
    consultations crc raw life (.read lcf visit) = [] := by
  obtain ⟨out, quiet⟩ := evaluateOf_unjudged unjudged
  dsimp only [consultations]
  rw [quiet]
  rfl

/-- An evaluation that judges a signature asks what its nonce check asks. -/
theorem consultations_judged {life : Life} {lcf : Location} {visit : Visit rb}
    (judges : Judges visit.room lcf.toLocConf (visit.request raw) life.state)
    (judged : judgedIn visit.room lcf.toLocConf visit.env (visit.request raw) life.state = .ok sig) :
    consultations crc raw life (.read lcf visit) =
      asked visit.room crc lcf.toLocConf visit.env life.verdict sig visit.store := by
  dsimp only [consultations, callsOf]
  rw [evaluateOf_judged judges judged, Prog.served_bind, Prog.pure_eq, Prog.served_done, List.append_nil]
  rfl

/-- The journal notes each consultation of a read, and the memo recalls it. -/
theorem recalled_read {lcf : Location} {visit : Visit rb}
    (recalled : Recalled Known journal.life.verdict journal.consulted) (failed : Known failedVerdict)
    (long : ∀ other, Judges visit.room lcf.toLocConf (visit.request raw) journal.life.state →
      judgedIn visit.room lcf.toLocConf visit.env (visit.request raw) journal.life.state = .ok other →
        NonceStore.nonceMaxLen < other.nonce.length → Known ⟨.nonceTooLong, false, false⟩) :
    Recalled Known (journal.life.evaluate crc raw lcf.toLocConf visit).2.2.verdict
      (journal.consulted ++ consultations crc raw journal.life (.read lcf visit)) := by
  have ended := evaluateIn_ended visit.room crc lcf.toLocConf visit.env (visit.request raw) journal.life.state
    visit.store
  unfold Life.evaluate
  generalize evaluateIn visit.room crc lcf.toLocConf visit.env (visit.request raw) journal.life.state
    visit.store = out at ended
  rcases ended.unjudged_or with ⟨unjudged, same, _⟩ | ⟨sig, verdict, memo, kept, judges, judged, checked, rfl⟩
  · rw [consultations_unjudged unjudged, List.append_nil]
    dsimp only
    rw [same]
    exact recalled
  · rw [consultations_judged judges judged]
    have outcome := checkNonceIn_checked visit.room crc lcf.toLocConf visit.env journal.life.state.verdict sig
      visit.store
    rw [checked] at outcome
    exact recalled.checked failed (long sig judges judged) outcome

/-- Only a read changes the memo. -/
theorem recalled_step {next : Move rb} (recalled : Recalled Known journal.life.verdict journal.consulted)
    (failed : Known failedVerdict)
    (long : ∀ lcf visit, next = .read lcf visit → ∀ other,
      Judges visit.room lcf.toLocConf (visit.request raw) journal.life.state →
        judgedIn visit.room lcf.toLocConf visit.env (visit.request raw) journal.life.state = .ok other →
          NonceStore.nonceMaxLen < other.nonce.length → Known ⟨.nonceTooLong, false, false⟩) :
    Recalled Known ((machine rb crc raw).step journal next).life.verdict
      ((machine rb crc raw).step journal next).consulted := by
  cases next with
  | read lcf visit => exact recalled_read recalled failed (long lcf visit rfl)
  | handle lcf surroundings =>
      have same : (journal.life.handle raw lcf surroundings).2.verdict = journal.life.verdict := Life.put_verdict ..
      simp only [machine, consultations, Life.move, List.append_nil, same]
      exact recalled
  | finish index => cases index <;> simpa [machine, consultations, Life.move, Life.finish] using recalled
  | redirect => simpa [machine, consultations, Life.move] using recalled
  | destroy surroundings => simpa [machine, consultations, Life.move] using recalled

/-- The memo of the request recalls its only consultation. -/
def Recalls (Known : Verdict → Prop) (journal : Journal) : Prop :=
  Recalled Known journal.life.verdict journal.consulted

/-- Every reachable memo is that of the only consultation. -/
theorem recalls_of_reaches (reaches : (machine rb crc raw).Reaches journal) :
    journal.Recalls fun _ => True := by
  refine reaches.invariant ?_ ?_
  · rintro _ rfl
    exact .fresh
  · intro before next recalled _
    exact recalled_step recalled trivial fun _ _ _ _ _ _ _ => trivial

/-- A verdict without a consultation fails, or the presented nonce is too long. -/
def Refusal (sig : Profile.Signature) (verdict : Verdict) : Prop :=
  verdict = failedVerdict ∨ NonceStore.nonceMaxLen < sig.nonce.length

/-- While one signature is presented, the memo is a verdict on it. -/
theorem recalls_of_presents
    (reaches : ((machine rb crc raw).restrict (Presents raw sig)).Reaches journal) :
    journal.Recalls (Refusal sig) := by
  refine reaches.invariant ?_ ?_
  · rintro _ rfl
    exact .fresh
  · intro before next recalled enabled
    refine recalled_step recalled (.inl rfl) ?_
    rintro lcf visit rfl other judges judged long
    rw [enabled.2 other judges judged] at long
    exact .inr long

/-- The context shows the result and the flag of the verdict. -/
def Shows (ctx : RequestCtx) (verdict : Verdict) : Prop :=
  ctx.result = verdict.result ∧ ctx.nonceStoreUnavailable = verdict.unavailable

/-- The failure policy matters only where the store was unavailable. -/
theorem verdictOf_eq_iff (lcf other : LocConf) (answer : NonceStore.Rc) :
    ((verdictOf lcf answer).result = (verdictOf other answer).result ∧
        (verdictOf lcf answer).unavailable = (verdictOf other answer).unavailable) ↔
      answer ≠ .abort ∨ other.nonceStoreFailure = lcf.nonceStoreFailure := by
  cases answer with
  | abort => cases first : lcf.nonceStoreFailure <;> cases second : other.nonceStoreFailure <;>
      simp [verdictOf, first, second]
  | ok | declined | error => simp [verdictOf]

/-- A check of a nonce memoizes its verdict, unless there is no room for it. -/
theorem checked_memoized {room : Room} {lcf : LocConf} {env : Env} {memo noted : Option Verdict} {verdict : Verdict}
    {store kept : NonceStore.Store rb} (stores : lcf.nonceStore ≠ .off) (filled : sig.nonce ≠ [])
    (checked : NonceChecked room crc lcf env memo sig store (verdict, noted, kept)) :
    noted = some verdict ∨ (noted = none ∧ verdict = failedVerdict) := by
  cases checked with
  | off disabled => exact absurd disabled stores
  | absent _ empty => exact absurd empty filled
  | known _ _ found => exact .inl found
  | unmarked => exact .inr ⟨rfl, rfl⟩
  | tooLong | keyless | consulted => exact .inl rfl

/-- The nonce check of a presented signature gives the verdict of the only consultation. -/
theorem recalled_verdict {noted : Option Verdict} {verdict : Verdict} {consulted : List Consultation}
    (recalled : Recalled (Refusal sig) noted consulted)
    (memoized : noted = some verdict ∨ (noted = none ∧ verdict = failedVerdict)) :
    (∃ only, consulted = [only] ∧ verdict = verdictOf only.lcf only.answer) ∨
      (consulted = [] ∧ Refusal sig verdict) := by
  rcases memoized with rfl | ⟨rfl, rfl⟩
  · cases recalled with
    | refused known => exact .inr ⟨rfl, known⟩
    | consulted only => exact .inl ⟨only, rfl, rfl⟩
  · cases recalled
    exact .inr ⟨rfl, .inl rfl⟩

/-- The read verifies this signature again, and the location checks its nonce. -/
structure Rechecks (raw : RawRequest) (sig : Profile.Signature) (journal : Journal) (lcf : Location)
    (visit : Visit rb) : Prop where
  judges : Judges visit.room lcf.toLocConf (visit.request raw) journal.life.state
  judged : judgedIn visit.room lcf.toLocConf visit.env (visit.request raw) journal.life.state = .ok sig
  stores : lcf.nonceStore ≠ .off
  filled : sig.nonce ≠ []

/-- The store is consulted at most once for a request. A later location shows the outcome under its own failure
policy exactly when the store was available or the policy is that of the location that consulted the store. -/
theorem nonce_verdict_survives_iff (rb : Balanced Nat) (crc : Bytes → UInt32) (raw : RawRequest) :
    (∀ journal, (machine rb crc raw).Reaches journal → journal.consulted.length ≤ 1) ∧
      ∀ (sig : Profile.Signature) (journal : Journal) (lcf : Location) (visit : Visit rb),
        ((machine rb crc raw).restrict (Presents raw sig)).Reaches journal → Rechecks raw sig journal lcf visit →
          ∃ ctx, (journal.life.evaluate crc raw lcf.toLocConf visit).2.1 = some ctx ∧
            ((∃ only, ((machine rb crc raw).step journal (.read lcf visit)).consulted = [only] ∧
                (Shows ctx (verdictOf lcf.toLocConf only.answer) ↔
                  only.answer ≠ .abort ∨ lcf.nonceStoreFailure = only.lcf.nonceStoreFailure)) ∨
              (((machine rb crc raw).step journal (.read lcf visit)).consulted = [] ∧
                (ctx.internalError = true ∨ NonceStore.nonceMaxLen < sig.nonce.length))) := by
  constructor
  · intro journal reaches
    exact (recalls_of_reaches reaches).length_le
  · intro sig journal lcf visit reaches rechecks
    have recalls : Recalled _ journal.life.verdict journal.consulted := recalls_of_presents reaches
    have ended := evaluateIn_ended visit.room crc lcf.toLocConf visit.env (visit.request raw) journal.life.state
      visit.store
    unfold Life.evaluate
    generalize evaluateIn visit.room crc lcf.toLocConf visit.env (visit.request raw) journal.life.state
      visit.store = out at ended
    rcases ended.unjudged_or with ⟨unjudged, _⟩ | ⟨other, verdict, memo, kept, _, found, checked, rfl⟩
    · exact absurd rechecks.judged (unjudged sig rechecks.judges)
    rw [rechecks.judged, Except.ok.injEq] at found
    subst found
    have outcome := checkNonceIn_checked visit.room crc lcf.toLocConf visit.env journal.life.state.verdict sig
      visit.store
    rw [checked] at outcome
    have noted : ((machine rb crc raw).step journal (.read lcf visit)).consulted =
        journal.consulted ++ asked visit.room crc lcf.toLocConf visit.env journal.life.verdict sig visit.store :=
      congrArg _ (consultations_judged rechecks.judges rechecks.judged)
    obtain ⟨result, unavailable, failed⟩ :=
      noteVerdict_fields sig verdict (keyedIn visit.room visit.env journal.life.state)
    rw [noted]
    refine ⟨_, rfl, ?_⟩
    rcases recalled_verdict (recalls.checked (.inl rfl) .inr outcome)
      (checked_memoized rechecks.stores rechecks.filled outcome) with ⟨only, alone, rfl⟩ | ⟨nothing, refusal⟩
    · refine .inl ⟨only, alone, ?_⟩
      rw [Shows, result, unavailable]
      exact verdictOf_eq_iff only.lcf lcf.toLocConf only.answer
    · refine .inr ⟨nothing, refusal.imp_left ?_⟩
      rintro rfl
      rw [failed]
      exact Bool.or_true _

/-- These two locations differ in their failure policy. -/
def openLocation : Location := { Life.knowingLocation with nonceStore := .shm }

def closedLocation : Location := { openLocation with nonceStoreFailure := .failClosed }

def sampleRequest : RawRequest := agentNonceRequest (ascii "s=\"https://b.test\"")

/-- This is what any of the evaluations judges. -/
def sampleJudgement : Except Failure Profile.Signature :=
  judgedIn Room.full openLocation.toLocConf Life.plainVisit.env (Life.plainVisit.request sampleRequest) ⟨none, none⟩

def sampleSignature : Profile.Signature := sampleJudgement.toOption.getD Profile.Signature.zero

theorem sampleJudgement_eq : sampleJudgement = .ok sampleSignature := by
  have accepted : sampleJudgement.toOption.isSome = true := by decide +kernel
  unfold sampleSignature
  cases judged : sampleJudgement with
  | error failure => simp [judged, Except.toOption] at accepted
  | ok sig => rfl

/-- The full zone was consulted under the open policy, and the request was redirected. -/
def redirected : Journal :=
  (machine (plain Nat) NonceStore.crc32Long sampleRequest).step
    ((machine (plain Nat) NonceStore.crc32Long sampleRequest).step ⟨Life.init, []⟩
      (.read openLocation Life.plainVisit)) .redirect

/-- The failure policy and the memo are not part of the judgement. -/
theorem judgedIn_policy (room : Room) (lcf : LocConf) (env : Env) (req : Base.Request) {state other : RequestState}
    (policy : NonceFailure) (same : state.ctx = other.ctx) :
    judgedIn room { lcf with nonceStoreFailure := policy } env req state = judgedIn room lcf env req other := by
  unfold judgedIn RequestState.begun profileCtxIn
  rw [same]

theorem redirected_ctx : redirected.life.state.ctx = none := rfl

/-- The request of the counterexample is judged as verified under either policy. -/
theorem openLocation_judged (policy : NonceFailure) {state : RequestState} (fresh : state.ctx = none) :
    judgedIn Life.plainVisit.room { openLocation.toLocConf with nonceStoreFailure := policy } Life.plainVisit.env
      (Life.plainVisit.request sampleRequest) state = .ok sampleSignature :=
  (judgedIn_policy _ _ _ _ policy fresh).trans sampleJudgement_eq

/-- One read and one redirect reach the journal of the counterexample. -/
theorem redirected_reaches :
    ((machine (plain Nat) NonceStore.crc32Long sampleRequest).restrict
      (Presents sampleRequest sampleSignature)).Reaches redirected := by
  have started : ((machine (plain Nat) NonceStore.crc32Long sampleRequest).restrict
      (Presents sampleRequest sampleSignature)).Reaches ⟨Life.init, []⟩ := .start rfl
  have presents : Presents sampleRequest sampleSignature ⟨Life.init, []⟩
      (.read openLocation Life.plainVisit : Move (plain Nat)) := by
    intro other _ judged
    have same := openLocation_judged .failOpen (show (Life.init.state).ctx = none from rfl)
    exact Except.ok.inj (judged.symm.trans same)
  have reading : (machine (plain Nat) NonceStore.crc32Long sampleRequest).enabled ⟨Life.init, []⟩
      (.read openLocation Life.plainVisit) := show Life.destroyed _ = false from rfl
  have redirecting : (machine (plain Nat) NonceStore.crc32Long sampleRequest).enabled
      ((machine (plain Nat) NonceStore.crc32Long sampleRequest).step ⟨Life.init, []⟩
        (.read openLocation Life.plainVisit)) .redirect := show Life.destroyed _ = false by decide +kernel
  exact (started.step _ ⟨reading, presents⟩).step _ ⟨redirecting, trivial⟩

/-- The next read of that journal checks the same signature again. -/
theorem redirected_rechecks (policy : NonceFailure) :
    Rechecks sampleRequest sampleSignature redirected { openLocation with nonceStoreFailure := policy }
      Life.plainVisit where
  judges := {
    enabled := show openLocation.mode ≠ .off by decide
    fresh := by rw [redirected_ctx]; rfl
    roomy := .inr rfl
    carried := by decide +kernel
    snapshot := rfl }
  judged := openLocation_judged policy redirected_ctx
  stores := show openLocation.nonceStore ≠ .off by decide
  filled := by decide +kernel

/-- The zone was full when the open location consulted it. -/
theorem redirected_consulted :
    ∃ only, redirected.consulted = [only] ∧ only.answer = .abort ∧ only.lcf.nonceStoreFailure = .failOpen := by
  have noted : redirected.consulted.map (fun first => (first.answer, first.lcf.nonceStoreFailure)) =
      [(.abort, .failOpen)] := by
    decide +kernel
  obtain ⟨only, same, shown⟩ := List.map_eq_singleton_iff.mp noted
  obtain ⟨answer, policy⟩ := Prod.mk.inj shown
  exact ⟨only, same, answer, policy⟩

/-- A later read leaves the journal with that consultation only. -/
theorem redirected_later {more after : List Consultation} (later : redirected.consulted ++ more = after) :
    (∀ other, after = [other] → other.answer = .abort ∧ other.lcf.nonceStoreFailure = .failOpen) ∧ after ≠ [] := by
  obtain ⟨only, consulted, unavailable, policy⟩ := redirected_consulted
  rw [consulted] at later
  subst later
  refine ⟨?_, by simp⟩
  intro other alone
  obtain ⟨rfl, _⟩ := List.cons.inj alone
  exact ⟨unavailable, policy⟩

/-- The remembered verdict on a second read under the same policy. -/
theorem nonce_verdict_survives_iff_open :
    ∃ ctx, (redirected.life.evaluate NonceStore.crc32Long sampleRequest openLocation.toLocConf Life.plainVisit).2.1 =
        some ctx ∧ Shows ctx (verdictOf openLocation.toLocConf .abort) := by
  obtain ⟨ctx, written, ⟨only, alone, shows⟩ | ⟨nothing, _⟩⟩ :=
    (nonce_verdict_survives_iff (plain Nat) NonceStore.crc32Long sampleRequest).2 sampleSignature redirected
      openLocation Life.plainVisit redirected_reaches (redirected_rechecks .failOpen)
  · obtain ⟨unavailable, policy⟩ := (redirected_later rfl).1 only alone
    rw [unavailable, policy] at shows
    exact ⟨ctx, written, shows.mpr (.inr rfl)⟩
  · exact absurd nothing (redirected_later rfl).2

/-- A closed location lets a request pass whose nonce an open location could not check. -/
theorem nonce_verdict_frozen :
    ¬ ∀ (crc : Bytes → UInt32) (raw : RawRequest) (sig : Profile.Signature) (journal : Journal) (lcf : Location)
      (visit : Visit (plain Nat)),
      ((machine (plain Nat) crc raw).restrict (Presents raw sig)).Reaches journal →
        Rechecks raw sig journal lcf visit →
        ∀ ctx, (journal.life.evaluate crc raw lcf.toLocConf visit).2.1 = some ctx →
          ∀ only ∈ ((machine (plain Nat) crc raw).step journal (.read lcf visit)).consulted,
            Shows ctx (verdictOf lcf.toLocConf only.answer) := by
  intro survives
  have passes : (redirected.life.evaluate NonceStore.crc32Long sampleRequest closedLocation.toLocConf
      Life.plainVisit).2.1.map RequestCtx.result = some .ok := by
    decide +kernel
  obtain ⟨ctx, written, result⟩ := Option.map_eq_some_iff.mp passes
  obtain ⟨only, consulted, unavailable, _⟩ := redirected_consulted
  have present : only ∈ redirected.consulted := by rw [consulted]; exact List.mem_cons_self
  have shown := (survives NonceStore.crc32Long sampleRequest sampleSignature redirected closedLocation Life.plainVisit
    redirected_reaches (redirected_rechecks .failClosed) ctx written only (List.mem_append_left _ present)).1
  rw [result, unavailable] at shown
  exact absurd shown (by decide)

end Journal
end AuthHttpsig.Module
