/-
This file shows what the Redis nonce check writes and how its result follows from the replies.
-/

import AuthHttpsig.Construction.RedisStore

namespace AuthHttpsig.RedisStore

open Prog (Event)

/-- A write is its key, its expiry and its reply. -/
def written : Event Op Answer → Option (Bytes × Int × Reply)
  | ⟨.setNxEx key seconds, reply⟩ => some (key, seconds, reply)
  | ⟨.time, _⟩ | ⟨.timeUpdate, _⟩ | ⟨.connectWithTimeout, _⟩ | ⟨.setTimeout, _⟩ | ⟨.select _, _⟩ => none

def writes (events : List (Event Op Answer)) : List (Bytes × Int × Reply) := events.filterMap written

/-- The call writes nothing. -/
def Quiet (op : Op) : Prop := ∀ key seconds, op ≠ .setNxEx key seconds

/-- The only writes of a check are of its key and with one second more than its window. -/
def Writes (key : Bytes) (ttl : Int) (op : Op) : Prop :=
  ∀ other seconds, op = .setNxEx other seconds → other = key ∧ seconds = ttl + 1

@[simp] theorem quiet_time : Quiet .time := nofun

@[simp] theorem quiet_timeUpdate : Quiet .timeUpdate := nofun

@[simp] theorem quiet_connectWithTimeout : Quiet .connectWithTimeout := nofun

@[simp] theorem quiet_setTimeout : Quiet .setTimeout := nofun

@[simp] theorem quiet_select (db : Nat) : Quiet (.select db) := nofun

/-- The command of a check is allowed to it. -/
@[simp] theorem writes_setNxEx (key : Bytes) (ttl : Int) : Writes key ttl (.setNxEx key (ttl + 1)) := by
  intro other seconds same
  cases same
  exact ⟨rfl, rfl⟩

/-- A call that is no write is allowed to every check. -/
theorem Quiet.allowed {op : Op} (quiet : Quiet op) (key : Bytes) (ttl : Int) : Writes key ttl op :=
  fun other seconds same => absurd same (quiet other seconds)

/-- A call that is no write has nothing written. -/
theorem Quiet.written {event : Event Op Answer} (quiet : Quiet event.1) : written event = none := by
  obtain ⟨op, answer⟩ := event
  cases op with
  | setNxEx key seconds => exact absurd rfl (quiet key seconds)
  | _ => rfl

/-- The writes of two runs come one after the other. -/
theorem writes_append (first second : List (Event Op Answer)) :
    writes (first ++ second) = writes first ++ writes second :=
  List.filterMap_append

@[simp] theorem writes_written (key : Bytes) (seconds : Int) (reply : Reply) :
    writes [⟨.setNxEx key seconds, reply⟩] = [(key, seconds, reply)] := rfl

/-- Events that are no writes write nothing. -/
theorem writes_quiet {events : List (Event Op Answer)} (quiet : ∀ event ∈ events, Quiet event.1) :
    writes events = [] := by
  apply List.filterMap_eq_nil_iff.mpr
  intro event member
  exact (quiet event member).written

/-- A program of quiet calls leaves the writes as they are. -/
theorem Quiet.always {α : Type} {program : Run α} {past : List (Event Op Answer)}
    (quiet : program.Only Quiet) : program.Always (fun events _ => writes events = writes past) past := by
  apply quiet.always.imp
  rintro events value ⟨new, rfl, newQuiet⟩
  rw [writes_append, writes_quiet newQuiet, List.append_nil]

/-- A connection attempt writes nothing. -/
theorem connect_quiet (conf : Conf) (statics : Local) : (connect conf statics).Only Quiet := by
  unfold connect
  split
  · trivial
  · rw [Prog.ask_bind, Prog.only_call]
    refine ⟨quiet_connectWithTimeout, fun conn => ?_⟩
    by_cases healthy : conn = some none
    · rw [if_neg (not_not.mpr healthy), Prog.ask_bind, Prog.only_call]
      refine ⟨quiet_setTimeout, fun accepted => ?_⟩
      split
      · trivial
      · split
        · rw [Prog.ask_bind, Prog.only_call]
          refine ⟨quiet_select conf.db, fun reply => ?_⟩
          split <;> trivial
        · trivial
    · rw [if_pos healthy]
      trivial

/-- A definite answer to a check is the reply to its last write, and a replay is its only write. -/
def Judged (key : Bytes) (ttl : Int) (events : List (Event Op Answer)) (value : NonceStore.Rc × Local) : Prop :=
  match value.1 with
  | .ok => ∃ before, events = before ++ [⟨.setNxEx key (ttl + 1), .status (ascii "OK")⟩]
  | .declined => ∃ before, events = before ++ [⟨.setNxEx key (ttl + 1), .nil⟩] ∧ writes before = []
  | .abort => True
  | .error => False

/-- The last event is the write with this reply. -/
def Last (key : Bytes) (ttl : Int) (events : List (Event Op Answer)) (reply : Reply) : Prop :=
  ∃ before, events = before ++ [⟨.setNxEx key (ttl + 1), reply⟩]

/-- Arming the back-off gives no definite answer. -/
theorem armBackoff_judged (conf : Conf) (key : Bytes) (ttl : Int) (statics : Local)
    (past : List (Event Op Answer)) :
    (do let armed ← armBackoff conf statics; return (NonceStore.Rc.abort, armed) : Run (NonceStore.Rc × Local)).Always
      (Judged key ttl) past :=
  fun _ => trivial

/-- A reply that is not absent is the reply to the last write. -/
theorem conclude_judged {conf : Conf} {key : Bytes} {ttl : Int} {reply : Reply} {retried : Bool}
    {statics : Local} {past : List (Event Op Answer)}
    (last : (∀ err, reply ≠ .null err) → Last key ttl past reply)
    (first : retried = false → (∀ err, reply ≠ .null err) →
      ∃ before, past = before ++ [⟨.setNxEx key (ttl + 1), reply⟩] ∧ writes before = []) :
    (conclude conf reply retried statics).Always (Judged key ttl) past := by
  cases reply with
  | null err => exact armBackoff_judged conf key ttl _ past
  | error => exact armBackoff_judged conf key ttl _ past
  | nil =>
      simp only [conclude]
      cases retried with
      | true => trivial
      | false => exact first rfl nofun
  | status text =>
      simp only [conclude]
      split
      · next same =>
          subst same
          exact last nofun
      · trivial
  | other => trivial

/-- An attempt with no earlier write is judged by its replies. -/
theorem attempt_judged (conf : Conf) (key : Bytes) (ttl : Int) (statics : Local)
    (past : List (Event Op Answer)) (fresh : writes past = []) :
    (attempt conf key ttl statics).Always (Judged key ttl) past := by
  unfold attempt
  apply Prog.always_bind.mpr
  apply (Quiet.always (connect_quiet conf statics)).imp
  rintro events ⟨connected, opened⟩ same
  dsimp only
  split
  · rw [Prog.ask_bind]
    intro first
    apply Prog.always_bind.mpr
    unfold retry
    split
    · next broken =>
        apply Prog.always_bind.mpr
        apply (Quiet.always (connect_quiet conf _)).imp
        rintro reopening ⟨reconnected, reopened⟩ sameAgain
        dsimp only
        split
        · rw [Prog.ask_bind]
          intro again
          exact conclude_judged (fun _ => ⟨reopening, rfl⟩) (by simp)
        · rcases broken with rfl | rfl
          · exact conclude_judged (fun clear => absurd rfl (clear _)) (fun _ clear => absurd rfl (clear _))
          · exact conclude_judged (fun clear => absurd rfl (clear _)) (fun _ clear => absurd rfl (clear _))
    · exact conclude_judged (fun _ => ⟨events, rfl⟩) (fun _ _ => ⟨events, rfl, same.trans fresh⟩)
  · exact armBackoff_judged conf key ttl opened events

/-- Each outcome of a check follows from the replies to its writes. -/
theorem redisCheck_judged (conf : Conf) (key : Bytes) {ttl : Int} (statics : Local) (positive : 1 ≤ ttl) :
    (redisCheck conf key ttl statics).Always (Judged key ttl) [] := by
  unfold redisCheck
  rw [if_neg (by omega)]
  split
  · rw [Prog.ask_bind, Prog.always_call]
    intro now
    split
    · trivial
    · exact attempt_judged conf key ttl statics _ rfl
  · exact attempt_judged conf key ttl statics [] rfl

/-- A retry writes the key of its check only. -/
theorem retry_writes (conf : Conf) (key : Bytes) (ttl : Int) (statics : Local) (reply : Reply) :
    (retry conf key ttl statics reply).Only (Writes key ttl) := by
  unfold retry
  split
  · apply ((connect_quiet conf _).imp fun op quiet => quiet.allowed key ttl).bind
    rintro ⟨reconnected, reopened⟩
    dsimp only
    split
    · exact ⟨writes_setNxEx key ttl, fun _ => trivial⟩
    · trivial
  · trivial

/-- The reading of a reply writes nothing. -/
theorem conclude_quiet (conf : Conf) (reply : Reply) (retried : Bool) (statics : Local) :
    (conclude conf reply retried statics).Only Quiet := by
  unfold conclude
  split
  · exact ⟨quiet_timeUpdate, fun _ => trivial⟩
  · exact ⟨quiet_timeUpdate, fun _ => trivial⟩
  · split <;> trivial
  · split <;> trivial
  · trivial

/-- An attempt writes the key of its check only. -/
theorem attempt_writes (conf : Conf) (key : Bytes) (ttl : Int) (statics : Local) :
    (attempt conf key ttl statics).Only (Writes key ttl) := by
  unfold attempt
  apply ((connect_quiet conf statics).imp fun op quiet => quiet.allowed key ttl).bind
  rintro ⟨connected, opened⟩
  dsimp only
  split
  · refine ⟨writes_setNxEx key ttl, fun first => ?_⟩
    apply (retry_writes conf key ttl opened first).bind
    rintro ⟨reply, retried, reopened⟩
    exact (conclude_quiet conf reply retried reopened).imp fun op quiet => quiet.allowed key ttl
  · exact ⟨quiet_timeUpdate.allowed key ttl, fun _ => trivial⟩

/-- A check writes its key with one second more than its window. -/
theorem redisCheck_writes (conf : Conf) (key : Bytes) (ttl : Int) (statics : Local) :
    (redisCheck conf key ttl statics).Only (Writes key ttl) := by
  unfold redisCheck
  split
  · trivial
  · split
    · rw [Prog.ask_bind, Prog.only_call]
      refine ⟨quiet_time.allowed key ttl, fun now => ?_⟩
      split
      · trivial
      · exact attempt_writes conf key ttl statics
    · exact attempt_writes conf key ttl statics

end AuthHttpsig.RedisStore
