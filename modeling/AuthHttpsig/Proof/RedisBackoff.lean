/-
This file shows which back-off windows a sequence of Redis nonce checks opens.
-/

import AuthHttpsig.Library.Machine
import AuthHttpsig.Proof.RedisCheck

namespace AuthHttpsig.RedisStore

open Prog (Event)

/-- These calls reach for the network. -/
def Op.reaches : Op → Bool
  | .connectWithTimeout | .setTimeout | .select _ | .setNxEx .. => true
  | .time | .timeUpdate => false

/-- The check has connected or has sent a command. -/
def attempted (events : List (Event Op Answer)) : Bool := events.any fun event => event.1.reaches

/-- This is the reply to the last write. -/
def lastReply (events : List (Event Op Answer)) : Option Reply :=
  (writes events).getLast?.map fun write => write.2.2

/-- A check is skipped, fails, succeeds, or gets a reply of another shape. -/
inductive Verdict where
  | skipped
  | failed
  | succeeded
  | unclear
  deriving DecidableEq, Repr

/-- An absent reply and an error reply are failures. Stored and already present are successes. -/
def Reply.verdict : Reply → Verdict
  | .null _ | .error => .failed
  | .nil => .succeeded
  | .status text => if text = ascii "OK" then .succeeded else .unclear
  | .other => .unclear

/-- A check without a reply has failed to connect. -/
def verdict (events : List (Event Op Answer)) : Verdict :=
  if attempted events then (lastReply events).elim .failed Reply.verdict else .skipped

/-- The second write of a check finds its key present. -/
def RetriedNil (events : List (Event Op Answer)) : Prop :=
  (writes events).length = 2 ∧ lastReply events = some .nil

instance (events : List (Event Op Answer)) : Decidable (RetriedNil events) :=
  inferInstanceAs (Decidable (_ ∧ _))

/-- The connection is not part of the back-off. -/
def SameBackoff (before after : Local) : Prop :=
  after.retryAfter = before.retryAfter ∧ after.backoff = before.backoff

theorem SameBackoff.refl (statics : Local) : SameBackoff statics statics := ⟨rfl, rfl⟩

theorem SameBackoff.trans {before middle after : Local} (first : SameBackoff before middle)
    (second : SameBackoff middle after) : SameBackoff before after :=
  ⟨second.1.trans first.1, second.2.trans first.2⟩

/-- The next window starts when the failure is noted. -/
def Armed (conf : Conf) (before : Local) (events : List (Event Op Answer)) (after : Local) : Prop :=
  after.backoff = nextBackoff before.backoff conf.backoffMax ∧
    ∃ now, ⟨.timeUpdate, now⟩ ∈ events ∧ after.retryAfter = now + after.backoff

/-- This is what a check does to the back-off. -/
def Effect (conf : Conf) (before : Local) (events : List (Event Op Answer)) (after : Local) : Prop :=
  match verdict events with
  | .skipped | .unclear => SameBackoff before after
  | .failed => Armed conf before events after
  | .succeeded =>
      if RetriedNil events then SameBackoff before after else after.retryAfter = 0 ∧ after.backoff = 0

/-- A command is attempted in a run when it is in one of its parts. -/
@[simp] theorem attempted_append (first second : List (Event Op Answer)) :
    attempted (first ++ second) = (attempted first || attempted second) :=
  List.any_append

/-- The last reply is that of the last write. -/
theorem lastReply_written (before : List (Event Op Answer)) (key : Bytes) (seconds : Int) (reply : Reply) :
    lastReply (before ++ [⟨.setNxEx key seconds, reply⟩]) = some reply := by
  rw [lastReply, writes_append, writes_written, List.getLast?_concat]
  rfl

/-- Calls other than writes do not change the last reply. -/
theorem lastReply_quiet {events more : List (Event Op Answer)} (quiet : ∀ event ∈ more, Quiet event.1) :
    lastReply (events ++ more) = lastReply events := by
  rw [lastReply, writes_append, writes_quiet quiet, List.append_nil, lastReply]

/-- A connect writes nothing and keeps the back-off, and it reaches for the network when it fails. -/
theorem connect_effect (conf : Conf) (statics : Local) (past : List (Event Op Answer)) :
    (connect conf statics).Always (fun events value => ∃ new, events = past ++ new ∧
      (∀ event ∈ new, Quiet event.1) ∧ SameBackoff statics value.2 ∧
      (value.1 = false → attempted events = true)) past := by
  unfold connect
  split
  · exact ⟨[], by simp, by simp, .refl statics, nofun⟩
  · rw [Prog.ask_bind, Prog.always_call]
    intro conn
    have reached : ∀ more : List (Event Op Answer),
        attempted (past ++ [⟨.connectWithTimeout, conn⟩] ++ more) = true := by
      intro more
      simp [attempted, Op.reaches]
    by_cases healthy : conn = some none
    · rw [if_neg (not_not.mpr healthy), Prog.ask_bind, Prog.always_call]
      intro accepted
      split
      · exact ⟨[⟨.connectWithTimeout, conn⟩, ⟨.setTimeout, accepted⟩], by simp, by simp, ⟨rfl, rfl⟩,
          fun _ => reached _⟩
      · split
        · rw [Prog.ask_bind, Prog.always_call]
          intro reply
          have quiet : ∀ event ∈ ([⟨.connectWithTimeout, conn⟩, ⟨.setTimeout, accepted⟩,
              ⟨.select conf.db, reply⟩] : List (Event Op Answer)), Quiet event.1 := by
            simp
          split <;> exact ⟨_, by simp, quiet, ⟨rfl, rfl⟩, fun _ => by simp [attempted, Op.reaches]⟩
        · exact ⟨[⟨.connectWithTimeout, conn⟩, ⟨.setTimeout, accepted⟩], by simp, by simp, ⟨rfl, rfl⟩, nofun⟩
    · rw [if_pos healthy]
      exact ⟨[⟨.connectWithTimeout, conn⟩], by simp, by simp, ⟨rfl, rfl⟩, fun _ => by simpa using reached []⟩

/-- The check has attempted something, and this is its effect. -/
def Attempt (conf : Conf) (before : Local) (events : List (Event Op Answer)) (value : NonceStore.Rc × Local) :
    Prop :=
  attempted events = true ∧ Effect conf before events value.2

/-- A failure that is noted opens the next window. -/
theorem armBackoff_effect {conf : Conf} {before statics : Local} {past : List (Event Op Answer)}
    (same : SameBackoff before statics) (reached : attempted past = true)
    (failed : verdict past = .failed) :
    (do let armed ← armBackoff conf statics; return (NonceStore.Rc.abort, armed) : Run (NonceStore.Rc × Local)).Always
      (Attempt conf before) past := by
  intro now
  have reachedAfter : attempted (past ++ [⟨.timeUpdate, now⟩]) = true := by simp [reached]
  have unchanged : verdict (past ++ [⟨.timeUpdate, now⟩]) = .failed := by
    rw [← failed, verdict, verdict, if_pos reached, if_pos reachedAfter, lastReply_quiet (by simp)]
  refine ⟨reachedAfter, ?_⟩
  show Effect conf before (past ++ [⟨.timeUpdate, now⟩])
    { statics with
      backoff := nextBackoff statics.backoff conf.backoffMax
      retryAfter := now + nextBackoff statics.backoff conf.backoffMax }
  rw [Effect, unchanged, same.2]
  exact ⟨rfl, now, by simp, rfl⟩

/-- Closing the connection leaves the back-off. -/
theorem close_same (statics : Local) : SameBackoff statics (close statics) := ⟨rfl, rfl⟩

/-- The last reply decides what happens to the back-off. -/
theorem conclude_effect {conf : Conf} {before statics : Local} {reply : Reply} {retried : Bool}
    {past : List (Event Op Answer)} (same : SameBackoff before statics) (reached : attempted past = true)
    (last : lastReply past = some reply) (count : (writes past).length = if retried then 2 else 1) :
    (conclude conf reply retried statics).Always (Attempt conf before) past := by
  have verdictPast : verdict past = reply.verdict := by
    rw [verdict, if_pos reached, last]
    rfl
  cases reply with
  | null err => exact armBackoff_effect (same.trans (close_same statics)) reached verdictPast
  | error => exact armBackoff_effect (same.trans (close_same statics)) reached verdictPast
  | nil =>
      have won : verdict past = .succeeded := verdictPast
      cases retried with
      | true =>
          refine ⟨reached, ?_⟩
          rw [Effect, won]
          exact (if_pos ⟨count, last⟩).mpr same
      | false =>
          refine ⟨reached, ?_⟩
          rw [Effect, won]
          exact (if_neg fun twice => absurd (count.symm.trans twice.1) (by decide)).mpr ⟨rfl, rfl⟩
  | status text =>
      simp only [conclude]
      split
      · rename_i stored
        have won : verdict past = .succeeded := by rw [verdictPast, Reply.verdict, if_pos stored]
        refine ⟨reached, ?_⟩
        rw [Effect, won]
        exact (if_neg fun twice => by simp [twice.2] at last).mpr ⟨rfl, rfl⟩
      · rename_i odd
        have lost : verdict past = .unclear := by rw [verdictPast, Reply.verdict, if_neg odd]
        refine ⟨reached, ?_⟩
        rw [Effect, lost]
        exact same.trans (close_same statics)
  | other =>
      refine ⟨reached, ?_⟩
      rw [Effect, verdictPast]
      exact same.trans (close_same statics)

/-- An attempt has the effect on the back-off that its verdict calls for. -/
theorem attempt_effect (conf : Conf) (key : Bytes) (ttl : Int) (statics : Local)
    {past : List (Event Op Answer)} (fresh : writes past = []) :
    (attempt conf key ttl statics).Always (Attempt conf statics) past := by
  unfold attempt
  apply Prog.always_bind.mpr
  apply (connect_effect conf statics past).imp
  rintro _ ⟨connected, opened⟩ ⟨new, rfl, quiet, same, failing⟩
  dsimp only
  have unwritten : writes (past ++ new) = [] := by rw [writes_append, fresh, writes_quiet quiet, List.append_nil]
  split
  · rw [Prog.ask_bind]
    intro first
    have reached : attempted (past ++ new ++ [⟨.setNxEx key (ttl + 1), first⟩]) = true := by
      simp [attempted, Op.reaches]
    have last := lastReply_written (past ++ new) key (ttl + 1) first
    have once : writes (past ++ new ++ [⟨.setNxEx key (ttl + 1), first⟩]) = [(key, ttl + 1, first)] := by
      rw [writes_append, unwritten, writes_written, List.nil_append]
    apply Prog.always_bind.mpr
    unfold retry
    split
    · apply Prog.always_bind.mpr
      apply (connect_effect conf (close opened) _).imp
      rintro _ ⟨reconnected, reopened⟩ ⟨more, rfl, quietMore, sameMore, _⟩
      have kept := (same.trans (close_same opened)).trans sameMore
      dsimp only
      split
      · rw [Prog.ask_bind]
        intro again
        refine conclude_effect kept (by simp [attempted, Op.reaches]) (lastReply_written _ _ _ _) ?_
        rw [writes_append, writes_append, once, writes_quiet quietMore]
        rfl
      · refine conclude_effect kept (by rw [attempted_append, reached, Bool.true_or])
          ((lastReply_quiet quietMore).trans last) ?_
        rw [writes_append, once, writes_quiet quietMore]
        rfl
    · exact conclude_effect same reached last (by rw [once]; rfl)
  · rename_i failed
    have reached := failing (by simpa using failed)
    refine armBackoff_effect same reached ?_
    rw [verdict, if_pos reached, lastReply, unwritten]
    rfl

/-- A check is skipped inside a window, and attempted outside. -/
inductive Checked (conf : Conf) (before : Local) (events : List (Event Op Answer))
    (value : NonceStore.Rc × Local) : Prop
  | skipped (now : Int) (holds : before.retryAfter ≠ 0) (inside : now < before.retryAfter)
      (asked : events = [⟨.time, now⟩]) (refused : value = (.abort, before))
  | attempted (outside : before.retryAfter = 0 ∨ ∃ now, ⟨.time, now⟩ ∈ events ∧ before.retryAfter ≤ now)
      (attempt : Attempt conf before events value)

/-- What a call does to the back-off, by the verdict of its calls on the connection. -/
theorem redisCheck_checked (conf : Conf) (key : Bytes) {ttl : Int} (statics : Local) (positive : 1 ≤ ttl) :
    (redisCheck conf key ttl statics).Always (Checked conf statics) [] := by
  unfold redisCheck
  rw [if_neg (by omega)]
  split
  · rename_i holds
    rw [Prog.ask_bind, Prog.always_call]
    intro now
    split
    · rename_i inside
      exact .skipped now holds inside rfl rfl
    · rename_i outside
      apply ((attempt_effect conf key ttl statics rfl).and (Prog.always_extends _ _)).imp
      rintro events value ⟨attempt, grown⟩
      exact .attempted (.inr ⟨now, grown.subset (by simp), Int.not_lt.mp outside⟩) attempt
  · rename_i clear
    apply (attempt_effect conf key ttl statics rfl).imp
    intro events value attempt
    exact .attempted (.inl (by simpa using clear)) attempt

/-- A call has its events and its result, and the clock reads these times at its start and at its end. -/
structure Call where
  key : Bytes
  ttl : Int
  started : Int
  finished : Int
  events : List (Event Op Answer)
  rc : NonceStore.Rc
  after : Local

/-- The calls of one worker are listed with the newest first. -/
structure Watch where
  statics : Local
  now : Int
  calls : List Call

/-- These are the failures since the last success. -/
def failures : List Call → Nat
  | [] => 0
  | call :: earlier =>
      match verdict call.events with
      | .failed => failures earlier + 1
      | .succeeded => 0
      | .skipped | .unclear => failures earlier

/-- The windows are documented to double up to the longest one. -/
def windowLength (conf : Conf) (failures : Nat) : Int := min (2 ^ (failures - 1)) (max 1 conf.backoffMax)

/-- The last failure since the last success opens a window when its call ends. -/
def windowEnd (conf : Conf) : List Call → Option Int
  | [] => none
  | call :: earlier =>
      match verdict call.events with
      | .failed => some (call.finished + windowLength conf (failures earlier + 1))
      | .succeeded => none
      | .skipped | .unclear => windowEnd conf earlier

def InWindow (conf : Conf) (calls : List Call) (now : Int) : Prop :=
  ∃ deadline, windowEnd conf calls = some deadline ∧ now < deadline

/-- The clock never goes back, and an update of the time reads the clock at the end of the call. -/
structure Timed (watch : Watch) (call : Call) : Prop where
  started : watch.now ≤ call.started
  finished : call.started ≤ call.finished
  time : ∀ now, ⟨.time, now⟩ ∈ call.events → now = call.started
  timeUpdate : ∀ now, ⟨.timeUpdate, now⟩ ∈ call.events → now = call.finished

/-- One worker checks one key after another, and the network behaves in any way. -/
def machine (conf : Conf) : Machine Watch Call where
  start watch := ∃ now, 0 ≤ now ∧ watch = ⟨Local.zero, now, []⟩
  enabled watch call := Timed watch call ∧
    (redisCheck conf call.key call.ttl watch.statics).Steps call.events (.done (call.rc, call.after))
  step watch call := ⟨call.after, call.finished, call :: watch.calls⟩

/-- A success after failures is not the nil reply to a second write. -/
def Clear (watch : Watch) (call : Call) : Prop := failures watch.calls ≠ 0 → ¬ RetriedNil call.events

/-- A call in a window gives up at once, and a call outside reaches for the network. -/
structure Documented (conf : Conf) (watch : Watch) (call : Call) : Prop where
  skips : InWindow conf watch.calls call.started → call.rc = .abort ∧ attempted call.events = false
  attempts : ¬ InWindow conf watch.calls call.started → attempted call.events = true

/-- The static variables hold what the outcomes of the calls say. -/
structure Tracks (conf : Conf) (watch : Watch) : Prop where
  clock : 0 ≤ watch.now
  backoff : watch.statics.backoff =
    if failures watch.calls = 0 then 0 else windowLength conf (failures watch.calls)
  retryAfter : watch.statics.retryAfter = (windowEnd conf watch.calls).getD 0
  positive : ∀ deadline, windowEnd conf watch.calls = some deadline → 0 < deadline

/-- A window lasts at least a second. -/
theorem windowLength_pos (conf : Conf) (failures : Nat) : 1 ≤ windowLength conf failures := by
  have power : (1 : Int) ≤ 2 ^ (failures - 1) := one_le_pow₀ (by norm_num)
  unfold windowLength
  omega

/-- The next window is twice as long, up to the longest one. -/
theorem nextBackoff_eq (conf : Conf) (failures : Nat) :
    nextBackoff (if failures = 0 then 0 else windowLength conf failures) conf.backoffMax =
      windowLength conf (failures + 1) := by
  cases failures with
  | zero =>
      simp only [nextBackoff, windowLength]
      norm_num
  | succ failures =>
      have power : (1 : Int) ≤ 2 ^ failures := one_le_pow₀ (by norm_num)
      have double : (2 : Int) ^ (failures + 1) = 2 * 2 ^ failures := by ring
      simp only [nextBackoff, windowLength, Nat.add_one_ne_zero, if_false, Nat.add_sub_cancel, double]
      split_ifs <;> omega

variable {conf : Conf} {watch : Watch} {call : Call}

/-- A new worker has no window. -/
theorem start_tracks {now : Int} (epoch : 0 ≤ now) : Tracks conf ⟨Local.zero, now, []⟩ where
  clock := epoch
  backoff := rfl
  retryAfter := rfl
  positive := nofun

/-- What a call does depends on the static variables as the worker left them. -/
theorem checked_of_enabled (enabled : (machine conf).enabled watch call) (positive : 1 ≤ call.ttl) :
    Checked conf watch.statics call.events (call.rc, call.after) :=
  (redisCheck_checked conf call.key watch.statics positive).steps enabled.2

/-- A caller bug changes nothing. -/
theorem events_of_nonpositive (enabled : (machine conf).enabled watch call) (nonpositive : call.ttl < 1) :
    call.events = [] ∧ call.after = watch.statics := by
  have always : (redisCheck conf call.key call.ttl watch.statics).Always
      (fun events value => events = [] ∧ value.2 = watch.statics) [] := by
    rw [redisCheck, if_pos nonpositive]
    exact ⟨rfl, rfl⟩
  exact always.steps enabled.2

/-- Without an attempted command the verdict is that the call was skipped. -/
theorem verdict_skipped {events : List (Event Op Answer)} (idle : attempted events = false) :
    verdict events = .skipped := by
  rw [verdict, if_neg (by rw [idle]; decide)]

/-- A call that is skipped or unclear keeps the back-off. -/
theorem Tracks.same (tracks : Tracks conf watch) (timed : Timed watch call)
    (unchanged : verdict call.events = .skipped ∨ verdict call.events = .unclear)
    (same : SameBackoff watch.statics call.after) : Tracks conf ((machine conf).step watch call) := by
  have count : failures (call :: watch.calls) = failures watch.calls := by
    rcases unchanged with skipped | unclear
    · rw [failures, skipped]
    · rw [failures, unclear]
  have deadline : windowEnd conf (call :: watch.calls) = windowEnd conf watch.calls := by
    rcases unchanged with skipped | unclear
    · rw [windowEnd, skipped]
    · rw [windowEnd, unclear]
  have clock := tracks.clock
  have started := timed.started
  have finished := timed.finished
  refine ⟨show 0 ≤ call.finished by omega, ?_, ?_, ?_⟩
  · show call.after.backoff = if failures (call :: watch.calls) = 0 then 0 else
      windowLength conf (failures (call :: watch.calls))
    rw [count, same.2, tracks.backoff]
  · show call.after.retryAfter = (windowEnd conf (call :: watch.calls)).getD 0
    rw [deadline, same.1, tracks.retryAfter]
  · show ∀ time, windowEnd conf (call :: watch.calls) = some time → 0 < time
    rw [deadline]
    exact tracks.positive

/-- A failed call opens the next window. -/
theorem Tracks.failed (tracks : Tracks conf watch) (timed : Timed watch call)
    (failed : verdict call.events = .failed) (armed : Armed conf watch.statics call.events call.after) :
    Tracks conf ((machine conf).step watch call) := by
  obtain ⟨backoff, now, noted, retryAfter⟩ := armed
  rw [tracks.backoff, nextBackoff_eq] at backoff
  rw [timed.timeUpdate now noted, backoff] at retryAfter
  have count : failures (call :: watch.calls) = failures watch.calls + 1 := by rw [failures, failed]
  have deadline : windowEnd conf (call :: watch.calls) =
      some (call.finished + windowLength conf (failures watch.calls + 1)) := by
    rw [windowEnd, failed]
  have clock := tracks.clock
  have started := timed.started
  have finished := timed.finished
  have long := windowLength_pos conf (failures watch.calls + 1)
  refine ⟨show 0 ≤ call.finished by omega, ?_, ?_, ?_⟩
  · show call.after.backoff = if failures (call :: watch.calls) = 0 then _ else
      windowLength conf (failures (call :: watch.calls))
    rw [count, backoff, if_neg (Nat.succ_ne_zero _)]
  · show call.after.retryAfter = (windowEnd conf (call :: watch.calls)).getD 0
    rw [deadline, retryAfter]
    rfl
  · show ∀ time, windowEnd conf (call :: watch.calls) = some time → 0 < time
    rw [deadline]
    rintro _ ⟨⟩
    omega

/-- A successful call closes the window. -/
theorem Tracks.succeeded (tracks : Tracks conf watch) (timed : Timed watch call)
    (succeeded : verdict call.events = .succeeded)
    (cleared : call.after.retryAfter = 0 ∧ call.after.backoff = 0) :
    Tracks conf ((machine conf).step watch call) := by
  have count : failures (call :: watch.calls) = 0 := by rw [failures, succeeded]
  have deadline : windowEnd conf (call :: watch.calls) = none := by rw [windowEnd, succeeded]
  have clock := tracks.clock
  have started := timed.started
  have finished := timed.finished
  refine ⟨show 0 ≤ call.finished by omega, ?_, ?_, ?_⟩
  · show call.after.backoff = if failures (call :: watch.calls) = 0 then 0 else _
    rw [count, cleared.2, if_pos rfl]
  · show call.after.retryAfter = (windowEnd conf (call :: watch.calls)).getD 0
    rw [deadline, cleared.1]
    rfl
  · show ∀ time, windowEnd conf (call :: watch.calls) = some time → 0 < time
    rw [deadline]
    nofun

/-- Without a failure there is no window. -/
theorem windowEnd_of_no_failure (conf : Conf) {calls : List Call} (none : failures calls = 0) :
    windowEnd conf calls = .none := by
  induction calls with
  | nil => rfl
  | cons call earlier ih =>
      rw [failures] at none
      rw [windowEnd]
      split <;> simp_all

/-- A call keeps the static variables at what the outcomes say. -/
theorem Tracks.step (tracks : Tracks conf watch) (enabled : (machine conf).enabled watch call)
    (clear : Clear watch call) : Tracks conf ((machine conf).step watch call) := by
  rcases lt_or_ge call.ttl 1 with nonpositive | positive
  · obtain ⟨nothing, after⟩ := events_of_nonpositive enabled nonpositive
    refine tracks.same enabled.1 (.inl (verdict_skipped ?_)) (by rw [after]; exact .refl _)
    rw [nothing]
    rfl
  cases checked_of_enabled enabled positive with
  | skipped now _ _ asked refused =>
      have idle : attempted call.events = false := by
        rw [asked]
        rfl
      have kept : call.after = watch.statics := congrArg Prod.snd refused
      exact tracks.same enabled.1 (.inl (verdict_skipped idle)) (by rw [kept]; exact .refl _)
  | attempted _ attempt =>
      obtain ⟨reached, effect⟩ := attempt
      rw [Effect] at effect
      cases outcome : verdict call.events with
      | skipped =>
          rw [outcome] at effect
          exact tracks.same enabled.1 (.inl outcome) effect
      | unclear =>
          rw [outcome] at effect
          exact tracks.same enabled.1 (.inr outcome) effect
      | failed =>
          rw [outcome] at effect
          exact tracks.failed enabled.1 outcome effect
      | succeeded =>
          rw [outcome] at effect
          dsimp only at effect
          split at effect
          · rename_i again
            -- Without earlier failures there is no window that this success could have closed.
            have none : failures watch.calls = 0 := by
              by_contra some
              exact clear some again
            refine tracks.succeeded enabled.1 outcome ⟨?_, ?_⟩
            · rw [effect.1, tracks.retryAfter, windowEnd_of_no_failure conf none]
              rfl
            · rw [effect.2, tracks.backoff, if_pos none]
          · exact tracks.succeeded enabled.1 outcome effect

/-- In every clear run the worker tracks the windows of its failures. -/
theorem tracks_of_reaches (reaches : ((machine conf).restrict Clear).Reaches watch) : Tracks conf watch := by
  refine reaches.invariant ?_ ?_
  · rintro _ ⟨now, epoch, rfl⟩
    exact start_tracks epoch
  · intro before call tracks enabled
    exact tracks.step enabled.1 enabled.2

/-- When no success after failures is the nil reply to a second write, a worker keeps to the windows that
the outcomes of its calls open. -/
theorem backoff_documented (reaches : ((machine conf).restrict Clear).Reaches watch)
    (enabled : (machine conf).enabled watch call) (positive : 1 ≤ call.ttl) : Documented conf watch call := by
  have tracks := tracks_of_reaches reaches
  have retryAfter := tracks.retryAfter
  cases checked_of_enabled enabled positive with
  | skipped now holds inside asked refused =>
      have idle : attempted call.events = false := by
        rw [asked]
        rfl
      have clock := enabled.1.time now (by rw [asked]; exact List.mem_cons_self)
      refine ⟨fun _ => ⟨congrArg Prod.fst refused, idle⟩, fun outside => absurd ?_ outside⟩
      cases deadline : windowEnd conf watch.calls with
      | none =>
          rw [deadline] at retryAfter
          exact absurd retryAfter holds
      | some time =>
          rw [deadline, Option.getD_some] at retryAfter
          exact ⟨time, deadline, by omega⟩
  | attempted outside attempt =>
      refine ⟨fun inside => ?_, fun _ => attempt.1⟩
      obtain ⟨time, deadline, before⟩ := inside
      have later := tracks.positive time deadline
      rw [deadline, Option.getD_some] at retryAfter
      rcases outside with clear | ⟨now, asked, reached⟩
      · omega
      · have clock := enabled.1.time now asked
        omega

def sampleConf : Conf := ⟨0, 30⟩

/-- The first connect of a worker fails at 10. -/
def unreachable : Call where
  key := ascii "a"
  ttl := 5
  started := 10
  finished := 10
  events := [⟨.connectWithTimeout, none⟩, ⟨.timeUpdate, 10⟩]
  rc := .abort
  after := ⟨none, 11, 1⟩

/-- The next call comes in the same second. -/
def held : Call where
  key := ascii "b"
  ttl := 5
  started := 10
  finished := 10
  events := [⟨.time, 10⟩]
  rc := .abort
  after := ⟨none, 11, 1⟩

def newWorker : Watch := ⟨Local.zero, 0, []⟩

/-- The call that finds no server is a step of a new worker. -/
theorem unreachable_enabled : (machine sampleConf).enabled newWorker unreachable where
  left := ⟨by decide, by decide, by simp [unreachable], by simp [unreachable]⟩
  right := .call (.call (.refl : (redisCheck sampleConf (ascii "a") 5 Local.zero).Steps [] _) none) 10

/-- The call inside the window is the next step. -/
theorem held_enabled : (machine sampleConf).enabled ((machine sampleConf).step newWorker unreachable) held where
  left := ⟨by decide, by decide, by simp [held], by simp [held]⟩
  right := .call (.refl : (redisCheck sampleConf (ascii "b") 5 ⟨none, 11, 1⟩).Steps [] _) 10

/-- The held call behaves as documented. -/
theorem backoff_documented_held :
    Documented sampleConf ((machine sampleConf).step newWorker unreachable) held := by
  have started : ((machine sampleConf).restrict Clear).Reaches newWorker := .start ⟨0, by decide, rfl⟩
  have clear : Clear newWorker unreachable := fun some => absurd rfl some
  exact backoff_documented (started.step unreachable ⟨unreachable_enabled, clear⟩) held_enabled (by decide)

/-- The connection breaks, and the second write of the call finds the first one stored. -/
def rewritten : Call where
  key := ascii "c"
  ttl := 5
  started := 11
  finished := 11
  events := [⟨.time, 11⟩, ⟨.connectWithTimeout, some none⟩, ⟨.setTimeout, true⟩,
    ⟨.setNxEx (ascii "c") 6, .null .io⟩, ⟨.connectWithTimeout, some none⟩, ⟨.setTimeout, true⟩,
    ⟨.setNxEx (ascii "c") 6, .nil⟩]
  rc := .abort
  after := ⟨some none, 11, 1⟩

/-- The server then answers with an error. -/
def rejected : Call where
  key := ascii "d"
  ttl := 5
  started := 12
  finished := 12
  events := [⟨.time, 12⟩, ⟨.setNxEx (ascii "d") 6, .error⟩, ⟨.timeUpdate, 12⟩]
  rc := .abort
  after := ⟨none, 14, 2⟩

/-- The window of one second has ended. -/
def delayed : Call where
  key := ascii "e"
  ttl := 5
  started := 13
  finished := 13
  events := [⟨.time, 13⟩]
  rc := .abort
  after := ⟨none, 14, 2⟩

/-- The call whose second write finds the first one stored is a step. -/
theorem rewritten_enabled :
    (machine sampleConf).enabled ((machine sampleConf).step newWorker unreachable) rewritten where
  left := ⟨by decide, by decide, by simp [rewritten], by simp [rewritten]⟩
  right := .call (.call (.call (.call (.call (.call (.call
    (.refl : (redisCheck sampleConf (ascii "c") 5 ⟨none, 11, 1⟩).Steps [] _)
    11) (some none)) true) (.null .io)) (some none)) true) .nil

/-- The call that the server answers with an error is a step. -/
theorem rejected_enabled :
    (machine sampleConf).enabled ⟨⟨some none, 11, 1⟩, 11, [rewritten, unreachable]⟩ rejected where
  left := ⟨by decide, by decide, by simp [rejected], by simp [rejected]⟩
  right := .call (.call (.call (.refl : (redisCheck sampleConf (ascii "d") 5 ⟨some none, 11, 1⟩).Steps [] _)
    12) .error) 12

/-- The call after the window is a step. -/
theorem delayed_enabled :
    (machine sampleConf).enabled ⟨⟨none, 14, 2⟩, 12, [rejected, rewritten, unreachable]⟩ delayed where
  left := ⟨by decide, by decide, by simp [delayed], by simp [delayed]⟩
  right := .call (.refl : (redisCheck sampleConf (ascii "e") 5 ⟨none, 14, 2⟩).Steps [] _) 13

/-- The nil reply to a second write does not end the sequence of failures. -/
theorem backoff_undocumented :
    ¬ ∀ (conf : Conf) (watch : Watch) (call : Call), (machine conf).Reaches watch →
      (machine conf).enabled watch call → 1 ≤ call.ttl → Documented conf watch call := by
  intro documented
  have started : (machine sampleConf).Reaches newWorker := .start ⟨0, by decide, rfl⟩
  have reached := ((started.step unreachable unreachable_enabled).step rewritten rewritten_enabled).step
    rejected rejected_enabled
  have attempts := (documented sampleConf _ delayed reached delayed_enabled (by decide)).attempts
  have outside : ¬ InWindow sampleConf [rejected, rewritten, unreachable] 13 := by
    have deadline : windowEnd sampleConf [rejected, rewritten, unreachable] = some 13 := by decide +kernel
    rintro ⟨time, found, before⟩
    rw [deadline] at found
    cases found
    omega
  exact absurd (attempts outside) (by decide)

end AuthHttpsig.RedisStore
