/-
This file shows that the Redis nonce check is safe for every interleaving of workers over connections that
lose commands and replies and that bring replies late.
-/

import AuthHttpsig.Proof.RedisCheck

namespace AuthHttpsig.RedisStore

open Prog (Event)

/-- This is what the workers and the server do, as an onlooker sees it. -/
inductive Noted where
  | started (call : Nat) (key : Bytes) (ttl : Int)
  | stored (call : Nat) (key : Bytes) (seconds : Int)
  | refused (call : Nat) (key : Bytes) (owner : Nat)
  | expired (key : Bytes)
  | returned (call : Nat) (key : Bytes) (rc : NonceStore.Rc)
  deriving DecidableEq

/-- A write on its way has a ticket for its reply. The server may apply it at any time, or never. -/
structure Command where
  ticket : Nat
  call : Nat
  key : Bytes
  seconds : Int

/-- A worker is inside one call at most. It waits for the answer to an event, and after it has sent a write it reads
the reply with this ticket. -/
structure Running where
  call : Nat
  key : Bytes
  ttl : Int
  past : List (Event Op Answer)
  rest : Run (NonceStore.Rc × Local)
  waiting : Option Nat

structure Worker where
  statics : Local
  running : Option Running

/-- The server knows the call whose write stored a key, and the end of the key. -/
structure Entry where
  owner : Nat
  expiresAt : Int

/-- A reply stays with its ticket until the worker reads it. The history has the newest first. -/
structure World where
  clock : Int
  redis : Bytes → Option Entry
  pending : List Command
  replies : Nat → Option Reply
  workers : Nat → Worker
  nextCall : Nat
  nextTicket : Nat
  history : List Noted

/-- The server applies one command and writes its reply. -/
def applyCommand (world : World) (command : Command) : World :=
  match world.redis command.key with
  | none =>
      { world with
        redis := Function.update world.redis command.key (some ⟨command.call, world.clock + command.seconds⟩)
        replies := Function.update world.replies command.ticket (some (.status (ascii "OK")))
        history := .stored command.call command.key command.seconds :: world.history }
  | some entry =>
      { world with
        replies := Function.update world.replies command.ticket (some .nil)
        history := .refused command.call command.key entry.owner :: world.history }

/-- A reply that tells nothing is absent, an error or of another shape. -/
def Vague (reply : Reply) : Prop := reply ≠ .nil ∧ reply ≠ .status (ascii "OK")

instance : DecidablePred Vague := fun _ => inferInstanceAs (Decidable (_ ∧ _))

/-- The worker waits for its next answer, or its call returns. -/
def settle (world : World) (worker : Nat) (running : Running) : World :=
  match running.rest with
  | .done (rc, statics) =>
      { world with
        workers := Function.update world.workers worker ⟨statics, none⟩
        history := .returned running.call running.key rc :: world.history }
  | .call .. =>
      { world with
        workers := Function.update world.workers worker
          { world.workers worker with running := some running } }

/-- The call goes on with this answer. -/
def Running.answered (running : Running) (op : Op) (next : Answer op → Run (NonceStore.Rc × Local))
    (answer : Answer op) : Running :=
  { running with past := running.past ++ [⟨op, answer⟩], rest := next answer, waiting := none }

/-- The write is on its way, and the worker reads its reply. -/
def World.send (world : World) (worker : Nat) (running : Running) (key : Bytes) (seconds : Int) : World :=
  { world with
    pending := ⟨world.nextTicket, running.call, key, seconds⟩ :: world.pending
    nextTicket := world.nextTicket + 1
    workers := Function.update world.workers worker
      { world.workers worker with running := some { running with waiting := some world.nextTicket } } }

/-- Any worker, the server, the clock or the loss of a worker may take the next step. The connection is closed
after each vague answer, so that no worker reads the reply to an earlier write. -/
inductive Step (conf : Conf) (world : World) : World → Prop
  | start (worker : Nat) (key : Bytes) (ttl : Int) (idle : (world.workers worker).running = none)
      (positive : 1 ≤ ttl) :
      Step conf world
        (settle { world with
            nextCall := world.nextCall + 1
            history := .started world.nextCall key ttl :: world.history } worker
          ⟨world.nextCall, key, ttl, [], redisCheck conf key ttl (world.workers worker).statics, none⟩)
  | answer (worker : Nat) {running op next} (answer : Answer op)
      (runs : (world.workers worker).running = some running) (asks : running.rest = .call op next)
      (quiet : Quiet op) :
      Step conf world (settle world worker (running.answered op next answer))
  | send (worker : Nat) {running key seconds next} (runs : (world.workers worker).running = some running)
      (asks : running.rest = .call (.setNxEx key seconds) next) (unsent : running.waiting = none) :
      Step conf world (world.send worker running key seconds)
  | apply {before command after} (pending : world.pending = before ++ command :: after) :
      Step conf world (applyCommand { world with pending := before ++ after } command)
  | receive (worker : Nat) {running key seconds next ticket reply}
      (runs : (world.workers worker).running = some running)
      (asks : running.rest = .call (.setNxEx key seconds) next) (waits : running.waiting = some ticket)
      (arrived : world.replies ticket = some reply) :
      Step conf world (settle world worker (running.answered (.setNxEx key seconds) next reply))
  | lose (worker : Nat) {running key seconds next ticket reply}
      (runs : (world.workers worker).running = some running)
      (asks : running.rest = .call (.setNxEx key seconds) next) (waits : running.waiting = some ticket)
      (vague : Vague reply) :
      Step conf world (settle world worker (running.answered (.setNxEx key seconds) next reply))
  | tick (seconds : Nat) : Step conf world { world with clock := world.clock + seconds }
  | expire (key : Bytes) {entry} (present : world.redis key = some entry) (ended : entry.expiresAt ≤ world.clock) :
      Step conf world { world with
        redis := Function.update world.redis key none, history := .expired key :: world.history }
  | exit (worker : Nat) :
      Step conf world { world with
        workers := Function.update world.workers worker ⟨Local.zero, none⟩ }

def World.init : World := ⟨0, fun _ => none, [], fun _ => none, fun _ => ⟨Local.zero, none⟩, 0, 0, []⟩

inductive Reachable (conf : Conf) : World → Prop
  | init : Reachable conf World.init
  | step {before after} (reachable : Reachable conf before) (step : Step conf before after) :
      Reachable conf after

/-- These are the events after the latest expiry of the key. -/
def since (key : Bytes) (history : List Noted) : List Noted :=
  history.takeWhile fun noted => noted ≠ .expired key

/-- What was noted last belongs to the time since the last expiry, unless it is one. -/
@[simp] theorem since_cons {key : Bytes} {noted : Noted} (history : List Noted)
    (kept : noted ≠ .expired key) : since key (noted :: history) = noted :: since key history := by
  simp [since, kept]

@[simp] theorem since_expired (key : Bytes) (history : List Noted) :
    since key (.expired key :: history) = [] := by
  simp [since]

/-- Without an expiry in between, all that was noted later counts. -/
theorem since_append {key : Bytes} {later earlier : List Noted} (kept : .expired key ∉ later) :
    since key (later ++ earlier) = later ++ since key earlier := by
  apply List.takeWhile_append_of_pos
  intro noted member
  simpa using fun same : noted = .expired key => kept (same ▸ member)

/-- A note that is neither a store nor an expiry of the key does not change what was stored since then. -/
theorem stored_since_cons {key : Bytes} {call : Nat} {seconds : Int} {noted : Noted} (history : List Noted)
    (kept : noted ≠ .expired key) (other : noted ≠ .stored call key seconds) :
    .stored call key seconds ∈ since key (noted :: history) ↔ .stored call key seconds ∈ since key history := by
  rw [since_cons history kept, List.mem_cons]
  exact or_iff_right other.symm

/-- This is what makes an event right after the earlier ones. -/
def Noted.Fits (earlier : List Noted) : Noted → Prop
  | .started .. | .expired _ => True
  | .stored call key seconds =>
      (∃ ttl, .started call key ttl ∈ earlier ∧ ttl + 1 ≤ seconds) ∧
        ∀ other older, .stored other key older ∉ since key earlier
  | .refused _ key owner => ∃ seconds, .stored owner key seconds ∈ since key earlier
  | .returned call key rc =>
      (∀ other earlierRc, .returned call other earlierRc ∉ earlier) ∧
        match rc with
        | .ok => ∃ seconds, .stored call key seconds ∈ earlier
        | .declined => ∃ owner, .refused call key owner ∈ earlier ∧ owner ≠ call
        | .abort => True
        | .error => False

/-- Every event of the history fits the events before it. -/
def Sound : List Noted → Prop
  | [] => True
  | noted :: earlier => noted.Fits earlier ∧ Sound earlier

/-- Every note of a sound history fits what was noted before it. -/
theorem Sound.fits {later earlier : List Noted} {noted : Noted}
    (sound : Sound (later ++ noted :: earlier)) : noted.Fits earlier ∧ Sound earlier := by
  induction later with
  | nil => exact sound
  | cons _ later ih => exact ih sound.2

/-- No write of the call has stored a key that lasts, and none is on its way. -/
def Unsent (world : World) (call : Nat) : Prop :=
  (∀ key entry, world.redis key = some entry → entry.owner ≠ call) ∧
    ∀ command ∈ world.pending, command.call ≠ call

/-- A command belongs to a started call and keeps its key long enough. -/
structure Sent (world : World) (command : Command) : Prop where
  old : command.call < world.nextCall
  issued : command.ticket < world.nextTicket
  started : ∃ ttl, .started command.call command.key ttl ∈ world.history ∧ ttl + 1 ≤ command.seconds

/-- The server holds what the history says. -/
structure Stored (world : World) : Prop where
  owned : ∀ {key entry}, world.redis key = some entry →
    ∃ seconds, .stored entry.owner key seconds ∈ since key world.history
  absent : ∀ {key}, world.redis key = none → ∀ call seconds, .stored call key seconds ∉ since key world.history
  old : ∀ {key entry}, world.redis key = some entry → entry.owner < world.nextCall
  sent : ∀ command ∈ world.pending, Sent world command
  distinct : (world.pending.map Command.ticket).Nodup
  unanswered : ∀ command ∈ world.pending, world.replies command.ticket = none
  unissued : ∀ ticket, world.nextTicket ≤ ticket → world.replies ticket = none
  ended : ∀ call key rc, .returned call key rc ∈ world.history → call < world.nextCall
  sound : Sound world.history

/-- The reply with this ticket tells what became of the write of the call. -/
structure Awaits (world : World) (running : Running) (ticket : Nat) : Prop where
  asks : ∃ key seconds next, running.rest = .call (.setNxEx key seconds) next
  issued : ticket < world.nextTicket
  own : ∀ command ∈ world.pending, command.ticket = ticket →
    command.call = running.call ∧ command.key = running.key
  heard : ∀ reply, world.replies ticket = some reply →
    (reply = .status (ascii "OK") ∧ ∃ seconds, .stored running.call running.key seconds ∈ world.history) ∨
      (reply = .nil ∧ ∃ owner, .refused running.call running.key owner ∈ world.history ∧
        (writes running.past = [] → owner ≠ running.call))
  alone : writes running.past = [] →
    (∀ command ∈ world.pending, command.call = running.call → command.ticket = ticket) ∧
      (world.replies ticket = none → ∀ key entry, world.redis key = some entry → entry.owner ≠ running.call)

/-- The call goes on from its start, and it is known to the server only when it has written. -/
structure Going (conf : Conf) (world : World) (running : Running) : Prop where
  path : ∃ statics, (redisCheck conf running.key running.ttl statics).Steps running.past running.rest
  positive : 1 ≤ running.ttl
  started : .started running.call running.key running.ttl ∈ world.history
  old : running.call < world.nextCall
  unreturned : ∀ key rc, .returned running.call key rc ∉ world.history
  unsent : writes running.past = [] → running.waiting = none → Unsent world running.call
  awaits : ∀ ticket, running.waiting = some ticket → Awaits world running ticket

structure Inv (conf : Conf) (world : World) : Prop where
  stored : Stored world
  going : ∀ worker running, (world.workers worker).running = some running → Going conf world running
  single : ∀ first second running other, (world.workers first).running = some running →
    (world.workers second).running = some other → running.call = other.call → first = second

/-- The world after is the world before with more history. -/
structure Grown (before after : World) : Prop where
  history : ∀ noted ∈ before.history, noted ∈ after.history
  nextCall : before.nextCall ≤ after.nextCall
  nextTicket : before.nextTicket ≤ after.nextTicket

/-- The step is none of this call, and it adds no owner and no reply. -/
structure Frame (call : Nat) (before after : World) : Prop extends Grown before after where
  silent : ∀ key rc, .returned call key rc ∈ after.history → .returned call key rc ∈ before.history
  pending : ∀ command ∈ after.pending,
    command ∈ before.pending ∨ command.call ≠ call ∧ command.ticket = before.nextTicket
  redis : ∀ key entry, after.redis key = some entry → before.redis key = some entry
  replies : after.replies = before.replies

/-- A command that was sent stays sent. -/
theorem Sent.grown {before after : World} {command : Command} (sent : Sent before command)
    (grown : Grown before after) : Sent after command := by
  obtain ⟨ttl, started, enough⟩ := sent.started
  exact ⟨lt_of_lt_of_le sent.old grown.nextCall, lt_of_lt_of_le sent.issued grown.nextTicket, ttl,
    grown.history _ started, enough⟩

/-- A call that has sent nothing has still sent nothing after a step of another call. -/
theorem Unsent.frame {call : Nat} {before after : World} (unsent : Unsent before call)
    (frame : Frame call before after) : Unsent after call := by
  refine ⟨fun key entry owned => unsent.1 key entry (frame.redis key entry owned), ?_⟩
  intro command member
  rcases frame.pending command member with old | ⟨other, _⟩
  · exact unsent.2 command old
  · exact other

/-- A call still awaits its reply after a step of another call. -/
theorem Awaits.frame {running : Running} {ticket : Nat} {before after : World} (awaits : Awaits before running ticket)
    (frame : Frame running.call before after) : Awaits after running ticket where
  asks := awaits.asks
  issued := lt_of_lt_of_le awaits.issued frame.nextTicket
  own command member same := by
    rcases frame.pending command member with old | ⟨_, fresh⟩
    · exact awaits.own command old same
    · exact absurd awaits.issued (by omega)
  heard reply arrived := by
    rw [frame.replies] at arrived
    rcases awaits.heard reply arrived with ⟨rfl, seconds, stored⟩ | ⟨rfl, owner, refused, apart⟩
    · exact .inl ⟨rfl, seconds, frame.history _ stored⟩
    · exact .inr ⟨rfl, owner, frame.history _ refused, apart⟩
  alone quiet := by
    obtain ⟨only, free⟩ := awaits.alone quiet
    refine ⟨?_, ?_⟩
    · intro command member same
      rcases frame.pending command member with old | ⟨other, _⟩
      · exact only command old same
      · exact absurd same other
    · intro waits key entry owned
      rw [frame.replies] at waits
      exact free waits key entry (frame.redis key entry owned)

/-- A step of others leaves a call going. -/
theorem Going.frame {conf : Conf} {before after : World} {running : Running} (going : Going conf before running)
    (frame : Frame running.call before after) : Going conf after running where
  path := going.path
  positive := going.positive
  started := frame.history _ going.started
  old := lt_of_lt_of_le going.old frame.nextCall
  unreturned key rc returned := going.unreturned key rc (frame.silent key rc returned)
  unsent quiet idle := (going.unsent quiet idle).frame frame
  awaits ticket waits := (going.awaits ticket waits).frame frame

section Apply

variable {world : World} {command : Command}

/-- After a write an entry is the written one, or an older one under another key. -/
theorem owner_of_update {redis : Bytes → Option Entry} {key other : Bytes} {value entry : Entry}
    (owned : Function.update redis key (some value) other = some entry) :
    other = key ∧ entry = value ∨ other ≠ key ∧ redis other = some entry := by
  by_cases same : other = key
  · subst same
    rw [Function.update_self] at owned
    cases owned
    exact .inl ⟨rfl, rfl⟩
  · rw [Function.update_of_ne same] at owned
    exact .inr ⟨same, owned⟩

/-- Where the key is absent, the server writes it and puts an OK in the replies. -/
theorem applyCommand_none (absent : world.redis command.key = none) :
    applyCommand world command =
      { world with
        redis := Function.update world.redis command.key (some ⟨command.call, world.clock + command.seconds⟩)
        replies := Function.update world.replies command.ticket (some (.status (ascii "OK")))
        history := .stored command.call command.key command.seconds :: world.history } := by
  simp only [applyCommand, absent]

/-- Where the key is present, the server leaves it and puts a NIL in the replies. -/
theorem applyCommand_some {entry : Entry} (present : world.redis command.key = some entry) :
    applyCommand world command =
      { world with
        replies := Function.update world.replies command.ticket (some .nil)
        history := .refused command.call command.key entry.owner :: world.history } := by
  simp only [applyCommand, present]

/-- Applying a command only adds to the world. -/
theorem applyCommand_grown (world : World) (command : Command) : Grown world (applyCommand world command) := by
  unfold applyCommand
  split
  · exact ⟨fun _ member => List.mem_cons_of_mem _ member, le_refl _, le_refl _⟩
  · exact ⟨fun _ member => List.mem_cons_of_mem _ member, le_refl _, le_refl _⟩

@[simp] theorem applyCommand_pending (world : World) (command : Command) :
    (applyCommand world command).pending = world.pending := by
  unfold applyCommand
  split <;> rfl

@[simp] theorem applyCommand_workers (world : World) (command : Command) :
    (applyCommand world command).workers = world.workers := by
  unfold applyCommand
  split <;> rfl

@[simp] theorem applyCommand_nextTicket (world : World) (command : Command) :
    (applyCommand world command).nextTicket = world.nextTicket := by
  unfold applyCommand
  split <;> rfl

/-- Only the ticket of the command gets a reply. -/
theorem applyCommand_replies {ticket : Nat} (other : command.ticket ≠ ticket) :
    (applyCommand world command).replies ticket = world.replies ticket := by
  unfold applyCommand
  split <;> exact Function.update_of_ne other.symm ..

/-- Only the call of the command becomes an owner. -/
theorem applyCommand_owner {key : Bytes} {entry : Entry}
    (owned : (applyCommand world command).redis key = some entry) :
    entry.owner = command.call ∨ world.redis key = some entry := by
  unfold applyCommand at owned
  split at owned
  · rcases owner_of_update owned with ⟨_, rfl⟩ | ⟨_, before⟩
    · exact .inl rfl
    · exact .inr before
  · exact .inr owned

/-- Applying a command returns no call. -/
theorem applyCommand_returned {call : Nat} {key : Bytes} {rc : NonceStore.Rc}
    (returned : .returned call key rc ∈ (applyCommand world command).history) :
    .returned call key rc ∈ world.history := by
  unfold applyCommand at returned
  split at returned
  · exact (List.mem_cons.mp returned).resolve_left nofun
  · exact (List.mem_cons.mp returned).resolve_left nofun

/-- A command is applied to an absent key only. -/
theorem applyCommand_stored (stored : Stored world) (sent : Sent world command)
    (fresh : ∀ other ∈ world.pending, other.ticket ≠ command.ticket) : Stored (applyCommand world command) := by
  have grown := applyCommand_grown world command
  have unanswered : ∀ other ∈ world.pending, (applyCommand world command).replies other.ticket = none := by
    intro other member
    rw [applyCommand_replies (fresh other member).symm]
    exact stored.unanswered other member
  have unissued : ∀ ticket, world.nextTicket ≤ ticket → (applyCommand world command).replies ticket = none := by
    intro ticket late
    rw [applyCommand_replies (by have := sent.issued; omega)]
    exact stored.unissued ticket late
  have ended : ∀ call key rc, .returned call key rc ∈ (applyCommand world command).history → call < world.nextCall :=
    fun call key rc returned => stored.ended call key rc (applyCommand_returned returned)
  cases present : world.redis command.key with
  | none =>
      rw [applyCommand_none present] at grown unanswered unissued ended ⊢
      refine ⟨?_, ?_, ?_, fun other member => (stored.sent other member).grown grown, stored.distinct, unanswered,
        unissued, ended, ⟨sent.started, fun other older => stored.absent present other older⟩, stored.sound⟩
      · intro key entry owner
        rw [since_cons _ (by simp)]
        rcases owner_of_update owner with ⟨rfl, rfl⟩ | ⟨_, before⟩
        · exact ⟨command.seconds, List.mem_cons_self⟩
        · obtain ⟨seconds, member⟩ := stored.owned before
          exact ⟨seconds, List.mem_cons_of_mem _ member⟩
      · intro key gone call seconds member
        by_cases same : key = command.key
        · subst same
          simp at gone
        · rw [since_cons _ (by simp)] at member
          rcases List.mem_cons.mp member with taken | member
          · cases taken
            exact same rfl
          · exact stored.absent (by simpa [same] using gone) call seconds member
      · intro key entry owner
        rcases owner_of_update owner with ⟨_, rfl⟩ | ⟨_, before⟩
        · exact sent.old
        · exact stored.old before
  | some entry =>
      rw [applyCommand_some present] at grown unanswered unissued ended ⊢
      refine ⟨?_, ?_, stored.old, fun other member => (stored.sent other member).grown grown, stored.distinct,
        unanswered, unissued, ended, stored.owned present, stored.sound⟩
      · intro key owner owned
        obtain ⟨seconds, member⟩ := stored.owned owned
        exact ⟨seconds, (stored_since_cons _ (by simp) (by simp)).mpr member⟩
      · intro key gone call seconds member
        exact stored.absent gone call seconds ((stored_since_cons _ (by simp) (by simp)).mp member)

/-- The application of a command tells the worker that waits for it what became of its write. -/
theorem Awaits.applied {running : Running} {ticket : Nat} (awaits : Awaits world running ticket)
    (member : command ∈ world.pending) {left : List Command} (sublist : left.Sublist world.pending)
    (unanswered : world.replies command.ticket = none) :
    Awaits (applyCommand { world with pending := left } command) running ticket := by
  have grown := applyCommand_grown { world with pending := left } command
  refine ⟨awaits.asks, lt_of_lt_of_le awaits.issued grown.nextTicket, ?_, ?_, ?_⟩
  · intro other present same
    rw [applyCommand_pending] at present
    exact awaits.own other (sublist.subset present) same
  · intro reply arrived
    by_cases same : command.ticket = ticket
    · obtain ⟨mine, keyed⟩ := awaits.own command member same
      cases present : world.redis command.key with
      | none =>
          have applied := @applyCommand_none { world with pending := left } command present
          rw [applied, same] at arrived
          rw [applied]
          obtain rfl : Reply.status (ascii "OK") = reply := by simpa using arrived
          exact .inl ⟨rfl, command.seconds, by rw [← mine, ← keyed]; exact List.mem_cons_self⟩
      | some entry =>
          have applied := @applyCommand_some { world with pending := left } command entry present
          rw [applied, same] at arrived
          rw [applied]
          obtain rfl : Reply.nil = reply := by simpa using arrived
          refine .inr ⟨rfl, entry.owner, by rw [← mine, ← keyed]; exact List.mem_cons_self, fun quiet => ?_⟩
          exact (awaits.alone quiet).2 (same ▸ unanswered) command.key entry present
    · rw [applyCommand_replies same] at arrived
      rcases awaits.heard reply arrived with ⟨rfl, seconds, stored⟩ | ⟨rfl, owner, refused, apart⟩
      · exact .inl ⟨rfl, seconds, grown.history _ stored⟩
      · exact .inr ⟨rfl, owner, grown.history _ refused, apart⟩
  · intro quiet
    obtain ⟨only, free⟩ := awaits.alone quiet
    refine ⟨?_, ?_⟩
    · intro other present same
      rw [applyCommand_pending] at present
      exact only other (sublist.subset present) same
    · intro waits key entry owned
      by_cases same : command.ticket = ticket
      · -- The reply to this ticket has just been written.
        unfold applyCommand at waits
        split at waits <;> simp [same] at waits
      · rw [applyCommand_replies same] at waits
        rcases applyCommand_owner owned with taken | before
        · exact fun mine => same (only command member (taken.symm.trans mine))
        · exact free waits key entry before

end Apply

/-- Recording the result of a call only adds to the world. -/
theorem settle_grown (world : World) (worker : Nat) (running : Running) :
    Grown world (settle world worker running) := by
  unfold settle
  split
  · exact ⟨fun _ member => List.mem_cons_of_mem _ member, le_refl _, le_refl _⟩
  · exact ⟨fun _ member => member, le_refl _, le_refl _⟩

/-- A worker that settles is silent about the other calls. -/
theorem settle_frame (world : World) (worker : Nat) {running : Running} {call : Nat} (other : running.call ≠ call) :
    Frame call world (settle world worker running) := by
  refine ⟨settle_grown world worker running, ?_, ?_, ?_, ?_⟩
  · intro key rc returned
    unfold settle at returned
    split at returned
    · refine (List.mem_cons.mp returned).resolve_left fun same => ?_
      cases same
      exact other rfl
    · exact returned
  · unfold settle
    split <;> exact fun _ member => .inl member
  · unfold settle
    split <;> exact fun _ _ owned => owned
  · unfold settle
    split <;> rfl

/-- The call that goes on is the only one that changes. -/
theorem settle_running {world : World} {worker other : Nat} {running found : Running}
    (runs : ((settle world worker running).workers other).running = some found) :
    other = worker ∧ found = running ∧ (∃ op next, running.rest = .call op next) ∨
      other ≠ worker ∧ (world.workers other).running = some found := by
  unfold settle at runs
  by_cases same : other = worker
  · subst same
    split at runs
    · simp at runs
    · next op next shape => exact Or.inl ⟨rfl, by simpa using runs.symm, op, next, shape⟩
  · split at runs
    · exact Or.inr ⟨same, by simpa [same] using runs⟩
    · exact Or.inr ⟨same, by simpa [same] using runs⟩

/-- A return that fits is noted. -/
theorem settle_stored {world : World} {worker : Nat} {running : Running} (stored : Stored world)
    (old : running.call < world.nextCall)
    (fits : ∀ rc statics, running.rest = .done (rc, statics) →
      Noted.Fits world.history (.returned running.call running.key rc)) : Stored (settle world worker running) := by
  have grown := settle_grown world worker running
  unfold settle at grown ⊢
  split
  · next rc statics finished =>
      simp only [finished] at grown
      refine ⟨?_, ?_, stored.old, fun other member => (stored.sent other member).grown grown, stored.distinct,
        stored.unanswered, stored.unissued, ?_, ⟨fits rc statics finished, stored.sound⟩⟩
      · intro key entry owned
        obtain ⟨seconds, member⟩ := stored.owned owned
        exact ⟨seconds, (stored_since_cons _ (by simp) (by simp)).mpr member⟩
      · intro key gone call seconds member
        exact stored.absent gone call seconds ((stored_since_cons _ (by simp) (by simp)).mp member)
      · intro call key other returned
        rcases List.mem_cons.mp returned with same | before
        · cases same
          exact old
        · exact stored.ended call key other before
  · exact ⟨stored.owned, stored.absent, stored.old,
      fun other member => ⟨(stored.sent other member).old, (stored.sent other member).issued,
        (stored.sent other member).started⟩, stored.distinct, stored.unanswered, stored.unissued, stored.ended,
      stored.sound⟩

/-- A call that goes on keeps what is known of it while its worker settles. -/
theorem settle_going {conf : Conf} {world : World} {worker : Nat} {running : Running}
    (going : Going conf world running) (further : ∃ op next, running.rest = .call op next) :
    Going conf (settle world worker running) running := by
  obtain ⟨op, next, shape⟩ := further
  unfold settle
  rw [shape]
  exact ⟨going.path, going.positive, going.started, going.old, going.unreturned, going.unsent,
    fun ticket waits =>
      have awaits := going.awaits ticket waits
      ⟨awaits.asks, awaits.issued, awaits.own, awaits.heard, awaits.alone⟩⟩

/-- The calls of the other workers go on when the acting worker settles. -/
theorem settle_inv {conf : Conf} {world : World} {worker : Nat} {running : Running}
    (stored : Stored (settle world worker running)) (going : Going conf world running)
    (others : ∀ other found, other ≠ worker → (world.workers other).running = some found →
      Going conf world found ∧ found.call ≠ running.call)
    (single : ∀ first second found other, first ≠ worker → second ≠ worker →
      (world.workers first).running = some found → (world.workers second).running = some other →
      found.call = other.call → first = second) : Inv conf (settle world worker running) := by
  refine ⟨stored, ?_, ?_⟩
  · intro other found runs
    rcases settle_running runs with ⟨rfl, rfl, further⟩ | ⟨differ, runs⟩
    · exact settle_going going further
    · obtain ⟨before, apart⟩ := others other found differ runs
      exact before.frame (settle_frame world worker apart.symm)
  · intro first second found other runs runsOther same
    rcases settle_running runs with ⟨rfl, rfl, _⟩ | ⟨differ, before⟩
    · rcases settle_running runsOther with ⟨rfl, rfl, _⟩ | ⟨differ, beforeOther⟩
      · rfl
      · exact absurd same.symm (others second other differ beforeOther).2
    · rcases settle_running runsOther with ⟨rfl, rfl, _⟩ | ⟨differOther, beforeOther⟩
      · exact absurd same (others first found differ before).2
      · exact single first second found other differ differOther before beforeOther same

/-- A worker starts a call that no one knows. -/
theorem Inv.start {conf : Conf} {world : World} (inv : Inv conf world) (worker : Nat) (key : Bytes)
    {ttl : Int} (positive : 1 ≤ ttl) :
    Inv conf
      (settle { world with
          nextCall := world.nextCall + 1
          history := .started world.nextCall key ttl :: world.history } worker
        ⟨world.nextCall, key, ttl, [], redisCheck conf key ttl (world.workers worker).statics, none⟩) := by
  set begun : World := { world with
    nextCall := world.nextCall + 1, history := .started world.nextCall key ttl :: world.history } with fresh
  have grown : Grown world begun := ⟨fun _ member => List.mem_cons_of_mem _ member, Nat.le_succ _, le_refl _⟩
  have silent : ∀ call other rc, .returned call other rc ∈ begun.history → .returned call other rc ∈ world.history :=
    fun call other rc returned => (List.mem_cons.mp returned).resolve_left nofun
  have stored : Stored begun := by
    refine ⟨?_, ?_, fun owned => Nat.lt_succ_of_lt (inv.stored.old owned),
      fun other member => (inv.stored.sent other member).grown grown, inv.stored.distinct, inv.stored.unanswered,
      inv.stored.unissued,
      fun call other rc returned =>
        Nat.lt_succ_of_lt (inv.stored.ended call other rc (silent call other rc returned)),
      trivial, inv.stored.sound⟩
    · intro other entry owned
      obtain ⟨seconds, member⟩ := inv.stored.owned owned
      exact ⟨seconds, (stored_since_cons _ (by simp) (by simp)).mpr member⟩
    · intro other gone call seconds member
      exact inv.stored.absent gone call seconds ((stored_since_cons _ (by simp) (by simp)).mp member)
  have unsent : Unsent begun world.nextCall :=
    ⟨fun other entry owned same => absurd (inv.stored.old owned) (by omega),
      fun command member same => absurd (inv.stored.sent command member).old (by omega)⟩
  have unreturned : ∀ other rc, .returned world.nextCall other rc ∉ begun.history :=
    fun other rc returned => absurd (inv.stored.ended _ other rc (silent _ other rc returned)) (Nat.lt_irrefl _)
  have going : Going conf begun
      ⟨world.nextCall, key, ttl, [], redisCheck conf key ttl (world.workers worker).statics, none⟩ :=
    ⟨⟨_, .refl⟩, positive, List.mem_cons_self, Nat.lt_succ_self _, unreturned, fun _ _ => unsent, nofun⟩
  apply settle_inv _ going
  · intro other found differ runs
    have before := inv.going other found runs
    exact ⟨before.frame ⟨grown, silent _, fun _ member => .inl member, fun _ _ owned => owned, rfl⟩,
      Nat.ne_of_lt before.old⟩
  · intro first second found other _ _ runs runsOther same
    exact inv.single first second found other runs runsOther same
  · apply settle_stored stored (Nat.lt_succ_self _)
    intro rc statics finished
    have judged := redisCheck_judged conf key (world.workers worker).statics positive
    dsimp only at finished
    rw [finished, Prog.always_done] at judged
    refine ⟨fun other earlier returned => unreturned other earlier returned, ?_⟩
    cases rc with
    | abort => trivial
    | ok =>
        obtain ⟨before, impossible⟩ := judged
        exact absurd impossible (by simp)
    | declined =>
        obtain ⟨before, impossible, _⟩ := judged
        exact absurd impossible (by simp)
    | error => exact absurd judged id

/-- The answer that ends a call makes its result fit when a definite reply to a write was heard. -/
theorem answered_fits {conf : Conf} {world : World} {running : Running} {op : Op} {answer : Answer op}
    {next : Answer op → Run (NonceStore.Rc × Local)} {rc : NonceStore.Rc} {statics : Local}
    (going : Going conf world running) (asks : running.rest = .call op next)
    (accepted : (⟨op, answer⟩ : Event Op Answer) = ⟨.setNxEx running.key (running.ttl + 1), .status (ascii "OK")⟩ →
      ∃ seconds, .stored running.call running.key seconds ∈ world.history)
    (replayed : (⟨op, answer⟩ : Event Op Answer) = ⟨.setNxEx running.key (running.ttl + 1), .nil⟩ →
      writes running.past = [] → ∃ owner, .refused running.call running.key owner ∈ world.history ∧
        owner ≠ running.call)
    (finished : next answer = .done (rc, statics)) :
    Noted.Fits world.history (.returned running.call running.key rc) := by
  obtain ⟨start, path⟩ := going.path
  rw [asks] at path
  have judged := (redisCheck_judged conf running.key start going.positive).steps (path.call answer)
  rw [finished, Prog.always_done, List.nil_append] at judged
  refine ⟨fun other earlier returned => going.unreturned other earlier returned, ?_⟩
  cases rc with
  | ok =>
      obtain ⟨before, same⟩ := judged
      obtain ⟨rfl, last⟩ := List.append_inj' same rfl
      exact accepted (List.cons.inj last).1
  | declined =>
      obtain ⟨before, same, quiet⟩ := judged
      obtain ⟨rfl, last⟩ := List.append_inj' same rfl
      exact replayed (List.cons.inj last).1 quiet
  | abort => trivial
  | error => exact absurd judged id

/-- A call on the connection that is no write is quiet. -/
theorem written_none {event : Event Op Answer} (unwritten : written event = none) : Quiet event.1 := by
  obtain ⟨op, answer⟩ := event
  cases op with
  | setNxEx key seconds => cases unwritten
  | _ => nofun

/-- A running call that gets an answer goes on. -/
theorem Going.answered {conf : Conf} {world : World} {running : Running} {op : Op} {answer : Answer op}
    {next : Answer op → Run (NonceStore.Rc × Local)} (going : Going conf world running)
    (asks : running.rest = .call op next) (idle : Quiet op → running.waiting = none) :
    Going conf world (running.answered op next answer) := by
  obtain ⟨start, path⟩ := going.path
  rw [asks] at path
  refine ⟨⟨start, path.call answer⟩, going.positive, going.started, going.old, going.unreturned, ?_, nofun⟩
  intro unwritten _
  dsimp only [Running.answered] at unwritten
  rw [writes_append] at unwritten
  obtain ⟨before, last⟩ := List.append_eq_nil_iff.mp unwritten
  exact going.unsent before (idle (written_none (List.filterMap_eq_nil_iff.mp last _ List.mem_cons_self)))

/-- An answer that fits keeps the invariant. -/
theorem Inv.answered {conf : Conf} {world : World} {worker : Nat} {running : Running} {op : Op} {answer : Answer op}
    {next : Answer op → Run (NonceStore.Rc × Local)} (inv : Inv conf world)
    (runs : (world.workers worker).running = some running) (asks : running.rest = .call op next)
    (idle : Quiet op → running.waiting = none)
    (accepted : (⟨op, answer⟩ : Event Op Answer) = ⟨.setNxEx running.key (running.ttl + 1), .status (ascii "OK")⟩ →
      ∃ seconds, .stored running.call running.key seconds ∈ world.history)
    (replayed : (⟨op, answer⟩ : Event Op Answer) = ⟨.setNxEx running.key (running.ttl + 1), .nil⟩ →
      writes running.past = [] → ∃ owner, .refused running.call running.key owner ∈ world.history ∧
        owner ≠ running.call) :
    Inv conf (settle world worker (running.answered op next answer)) := by
  have going := inv.going worker running runs
  apply settle_inv _ (going.answered asks idle)
  · intro other found differ runsOther
    exact ⟨inv.going other found runsOther,
      fun same => differ (inv.single other worker found running runsOther runs same)⟩
  · intro first second found other _ _ runsFirst runsSecond same
    exact inv.single first second found other runsFirst runsSecond same
  · apply settle_stored inv.stored (show (running.answered op next answer).call < world.nextCall from going.old)
    intro rc statics finished
    show Noted.Fits world.history (.returned running.call running.key rc)
    exact answered_fits going asks accepted replayed finished

/-- A worker that waits for an answer of another kind reads no reply. -/
theorem Going.idle {conf : Conf} {world : World} {running : Running} {op : Op}
    {next : Answer op → Run (NonceStore.Rc × Local)} (going : Going conf world running)
    (asks : running.rest = .call op next) (quiet : Quiet op) : running.waiting = none := by
  cases waits : running.waiting with
  | none => rfl
  | some ticket =>
      obtain ⟨key, seconds, _, writing⟩ := (going.awaits ticket waits).asks
      rw [asks] at writing
      cases writing
      exact absurd rfl (quiet key seconds)

/-- A quiet answer keeps the invariant. -/
theorem Inv.answer {conf : Conf} {world : World} {worker : Nat} {running : Running} {op : Op}
    {next : Answer op → Run (NonceStore.Rc × Local)} (inv : Inv conf world) (answer : Answer op)
    (runs : (world.workers worker).running = some running) (asks : running.rest = .call op next)
    (quiet : Quiet op) : Inv conf (settle world worker (running.answered op next answer)) := by
  have other {reply : Reply} (same : (⟨op, answer⟩ : Event Op Answer) =
      ⟨.setNxEx running.key (running.ttl + 1), reply⟩) : False :=
    quiet _ _ (congrArg Sigma.fst same)
  exact inv.answered runs asks (fun _ => (inv.going worker running runs).idle asks quiet)
    (fun same => (other same).elim) (fun same => (other same).elim)

/-- The command that a running call sends is its own. -/
theorem Going.sent {conf : Conf} {world : World} {running : Running} {key : Bytes} {seconds : Int}
    {next : Answer (.setNxEx key seconds) → Run (NonceStore.Rc × Local)} (going : Going conf world running)
    (asks : running.rest = .call (.setNxEx key seconds) next) :
    key = running.key ∧ seconds = running.ttl + 1 := by
  obtain ⟨start, path⟩ := going.path
  have allowed := (redisCheck_writes conf running.key running.ttl start).steps path
  rw [asks, Prog.only_call] at allowed
  exact allowed.1 key seconds rfl

/-- Sending a command is a step of the sending call alone. -/
theorem send_frame {world : World} {worker : Nat} {running : Running} {key : Bytes} {seconds : Int} {call : Nat}
    (other : running.call ≠ call) : Frame call world (world.send worker running key seconds) where
  history _ member := member
  nextCall := le_refl _
  nextTicket := Nat.le_succ _
  silent _ _ returned := returned
  pending command member := by
    rcases List.mem_cons.mp member with rfl | old
    · exact .inr ⟨other, rfl⟩
    · exact .inl old
  redis _ _ owned := owned
  replies := rfl

/-- The worker that sends is the only one that changes. -/
theorem send_running {world : World} {worker other : Nat} {running found : Running} {key : Bytes} {seconds : Int}
    (runs : ((world.send worker running key seconds).workers other).running = some found) :
    other = worker ∧ found = { running with waiting := some world.nextTicket } ∨
      other ≠ worker ∧ (world.workers other).running = some found := by
  by_cases same : other = worker
  · subst same
    exact .inl ⟨rfl, by simpa [World.send] using runs.symm⟩
  · exact .inr ⟨same, by simpa [World.send, same] using runs⟩

/-- The first write of a call is the only one that the server can get. -/
theorem Inv.send {conf : Conf} {world : World} {worker : Nat} {running : Running} {key : Bytes} {seconds : Int}
    {next : Answer (.setNxEx key seconds) → Run (NonceStore.Rc × Local)} (inv : Inv conf world)
    (runs : (world.workers worker).running = some running)
    (asks : running.rest = .call (.setNxEx key seconds) next) (unsent : running.waiting = none) :
    Inv conf (world.send worker running key seconds) := by
  have going := inv.going worker running runs
  obtain ⟨rfl, rfl⟩ := going.sent asks
  have issued : ∀ command ∈ world.pending, command.ticket < world.nextTicket :=
    fun command member => (inv.stored.sent command member).issued
  refine ⟨⟨inv.stored.owned, inv.stored.absent, inv.stored.old, ?_, ?_, ?_, ?_, inv.stored.ended, inv.stored.sound⟩,
    ?_, ?_⟩
  · intro command member
    rcases List.mem_cons.mp member with rfl | old
    · exact ⟨going.old, Nat.lt_succ_self _, running.ttl, going.started, le_refl _⟩
    · have before := inv.stored.sent command old
      exact ⟨before.old, Nat.lt_succ_of_lt before.issued, before.started⟩
  · refine List.nodup_cons.mpr ⟨fun member => ?_, inv.stored.distinct⟩
    obtain ⟨command, old, same⟩ := List.mem_map.mp member
    exact absurd same (Nat.ne_of_lt (issued command old))
  · intro command member
    rcases List.mem_cons.mp member with rfl | old
    · exact inv.stored.unissued _ (le_refl _)
    · exact inv.stored.unanswered command old
  · exact fun ticket late => inv.stored.unissued ticket (Nat.le_of_succ_le late)
  · intro other found runsOther
    rcases send_running runsOther with ⟨rfl, rfl⟩ | ⟨differ, before⟩
    · refine ⟨going.path, going.positive, going.started, going.old, going.unreturned, nofun, ?_⟩
      rintro ticket ⟨⟩
      refine ⟨⟨_, _, _, asks⟩, Nat.lt_succ_self _, ?_, ?_, ?_⟩
      · intro command member same
        rcases List.mem_cons.mp member with rfl | old
        · exact ⟨rfl, rfl⟩
        · exact absurd same (Nat.ne_of_lt (issued command old))
      · intro reply arrived
        have fresh := inv.stored.unissued world.nextTicket (le_refl _)
        exact absurd (fresh.symm.trans arrived) nofun
      · intro quiet
        obtain ⟨free, nothing⟩ := going.unsent quiet unsent
        refine ⟨?_, fun _ => free⟩
        intro command member same
        rcases List.mem_cons.mp member with rfl | old
        · rfl
        · exact absurd same (nothing command old)
    · refine (inv.going other found before).frame (send_frame fun same => differ ?_)
      exact (inv.single other worker found running before runs same.symm)
  · intro first second found other runsFirst runsSecond same
    rcases send_running runsFirst with ⟨rfl, rfl⟩ | ⟨_, before⟩
    · rcases send_running runsSecond with ⟨rfl, rfl⟩ | ⟨_, beforeOther⟩
      · rfl
      · exact inv.single _ _ _ _ runs beforeOther same
    · rcases send_running runsSecond with ⟨rfl, rfl⟩ | ⟨_, beforeOther⟩
      · exact inv.single _ _ _ _ before runs same
      · exact inv.single _ _ _ _ before beforeOther same

/-- The server applies a command of some call, and every call goes on. -/
theorem Inv.apply {conf : Conf} {world : World} {before after : List Command} {command : Command}
    (inv : Inv conf world) (pending : world.pending = before ++ command :: after) :
    Inv conf (applyCommand { world with pending := before ++ after } command) := by
  have sublist : (before ++ after).Sublist world.pending := by
    rw [pending]
    exact List.Sublist.append (List.Sublist.refl before) (List.sublist_cons_self command after)
  have known : command ∈ world.pending := by simp [pending]
  have distinct := inv.stored.distinct
  rw [pending, List.map_append, List.map_cons] at distinct
  have fresh : ∀ other ∈ before ++ after, other.ticket ≠ command.ticket := by
    intro other member same
    have apart := (List.nodup_middle.mp distinct)
    refine (List.nodup_cons.mp apart).1 ?_
    rw [← List.map_append, ← same]
    exact List.mem_map_of_mem member
  have grown := applyCommand_grown { world with pending := before ++ after } command
  refine ⟨applyCommand_stored ⟨inv.stored.owned, inv.stored.absent, inv.stored.old, ?_,
    inv.stored.distinct.sublist (sublist.map _),
    fun other member => inv.stored.unanswered other (sublist.subset member),
    inv.stored.unissued, inv.stored.ended, inv.stored.sound⟩ ?_ fresh, ?_, ?_⟩
  · intro other member
    have sent := inv.stored.sent other (sublist.subset member)
    exact ⟨sent.old, sent.issued, sent.started⟩
  · have sent := inv.stored.sent command known
    exact ⟨sent.old, sent.issued, sent.started⟩
  · intro worker running runs
    rw [applyCommand_workers] at runs
    have going := inv.going worker running runs
    refine ⟨going.path, going.positive, grown.history _ going.started, lt_of_lt_of_le going.old grown.nextCall,
      ?_, ?_, ?_⟩
    · intro key rc returned
      have unchanged := @applyCommand_returned { world with pending := before ++ after } command _ _ _ returned
      exact going.unreturned key rc unchanged
    · intro quiet idle
      obtain ⟨free, nothing⟩ := going.unsent quiet idle
      refine ⟨?_, ?_⟩
      · intro key entry owned
        rcases applyCommand_owner owned with taken | old
        · exact fun mine => nothing command known (taken.symm.trans mine)
        · exact free key entry old
      · intro other member
        rw [applyCommand_pending] at member
        exact nothing other (sublist.subset member)
    · intro ticket waits
      exact (going.awaits ticket waits).applied known sublist (inv.stored.unanswered command known)
  · intro first second found other runs runsOther same
    rw [applyCommand_workers] at runs runsOther
    exact inv.single first second found other runs runsOther same

/-- The worker reads the reply to the write that it has just sent. -/
theorem Inv.receive {conf : Conf} {world : World} {worker : Nat} {running : Running} {key : Bytes} {seconds : Int}
    {next : Answer (.setNxEx key seconds) → Run (NonceStore.Rc × Local)} {ticket : Nat} {reply : Reply}
    (inv : Inv conf world) (runs : (world.workers worker).running = some running)
    (asks : running.rest = .call (.setNxEx key seconds) next) (waits : running.waiting = some ticket)
    (arrived : world.replies ticket = some reply) :
    Inv conf (settle world worker (running.answered (.setNxEx key seconds) next reply)) := by
  have heard := ((inv.going worker running runs).awaits ticket waits).heard reply arrived
  refine inv.answered runs asks (fun quiet => absurd rfl (quiet key seconds)) ?_ ?_
  · intro same
    cases same
    rcases heard with ⟨_, stored⟩ | ⟨wrong, _⟩
    · exact stored
    · cases wrong
  · intro same quiet
    cases same
    rcases heard with ⟨wrong, _⟩ | ⟨_, owner, refused, apart⟩
    · cases wrong
    · exact ⟨owner, refused, apart quiet⟩

/-- A worker that hears nothing definite decides nothing. -/
theorem Inv.lose {conf : Conf} {world : World} {worker : Nat} {running : Running} {key : Bytes} {seconds : Int}
    {next : Answer (.setNxEx key seconds) → Run (NonceStore.Rc × Local)} {reply : Reply}
    (inv : Inv conf world) (runs : (world.workers worker).running = some running)
    (asks : running.rest = .call (.setNxEx key seconds) next) (vague : Vague reply) :
    Inv conf (settle world worker (running.answered (.setNxEx key seconds) next reply)) := by
  refine inv.answered runs asks (fun quiet => absurd rfl (quiet key seconds)) ?_ ?_
  · intro same
    cases same
    exact absurd rfl vague.2
  · intro same
    cases same
    exact absurd rfl vague.1

/-- The end of a key leaves no owner behind. -/
theorem Inv.expire {conf : Conf} {world : World} (inv : Inv conf world) (key : Bytes) :
    Inv conf { world with
      redis := Function.update world.redis key none, history := .expired key :: world.history } := by
  set ended : World := { world with
    redis := Function.update world.redis key none, history := .expired key :: world.history } with shape
  have grown : Grown world ended := ⟨fun _ member => List.mem_cons_of_mem _ member, le_refl _, le_refl _⟩
  have owner : ∀ other entry, ended.redis other = some entry → other ≠ key ∧ world.redis other = some entry := by
    intro other entry owned
    by_cases same : other = key
    · subst same
      simp [shape] at owned
    · exact ⟨same, by simpa [shape, same] using owned⟩
  have silent : ∀ call other rc, .returned call other rc ∈ ended.history → .returned call other rc ∈ world.history :=
    fun call other rc returned => (List.mem_cons.mp returned).resolve_left nofun
  refine ⟨⟨?_, ?_, fun owned => inv.stored.old (owner _ _ owned).2,
    fun other member => (inv.stored.sent other member).grown grown, inv.stored.distinct, inv.stored.unanswered,
    inv.stored.unissued, fun call other rc returned => inv.stored.ended call other rc (silent call other rc returned),
    trivial, inv.stored.sound⟩, ?_, inv.single⟩
  · intro other entry owned
    obtain ⟨differ, before⟩ := owner other entry owned
    obtain ⟨seconds, member⟩ := inv.stored.owned before
    exact ⟨seconds, (stored_since_cons _ (by simpa using differ.symm) (by simp)).mpr member⟩
  · intro other gone call seconds member
    by_cases same : other = key
    · subst same
      simp [shape] at member
    · exact inv.stored.absent (by simpa [shape, same] using gone) call seconds
        ((stored_since_cons _ (by simpa using Ne.symm same) (by simp)).mp member)
  · intro worker running runs
    exact (inv.going worker running runs).frame
      ⟨grown, silent _, fun _ member => .inl member, fun other entry owned => (owner other entry owned).2, rfl⟩

/-- A step that leaves the server and the history alone and ends calls at most keeps the invariant. -/
theorem Inv.quiet {conf : Conf} {before after : World} (inv : Inv conf before) (redis : after.redis = before.redis)
    (pending : after.pending = before.pending) (replies : after.replies = before.replies)
    (history : after.history = before.history) (nextCall : after.nextCall = before.nextCall)
    (nextTicket : after.nextTicket = before.nextTicket)
    (workers : ∀ worker running, (after.workers worker).running = some running →
      (before.workers worker).running = some running) : Inv conf after := by
  have grown : Grown before after := ⟨by simp [history], nextCall.ge, nextTicket.ge⟩
  obtain ⟨owned, absent, old, sent, distinct, unanswered, unissued, ended, sound⟩ := inv.stored
  refine ⟨⟨?_, ?_, ?_, ?_, ?_, ?_, ?_, ?_, ?_⟩, ?_, ?_⟩
  · rw [redis, history]
    exact owned
  · rw [redis, history]
    exact absent
  · rw [redis, nextCall]
    exact old
  · rw [pending]
    exact fun command member => (sent command member).grown grown
  · rwa [pending]
  · rwa [pending, replies]
  · rwa [nextTicket, replies]
  · rwa [history, nextCall]
  · rwa [history]
  · intro worker running runs
    refine (inv.going worker running (workers worker running runs)).frame ⟨grown, ?_, ?_, ?_, replies⟩
    · rw [history]
      exact fun _ _ returned => returned
    · rw [pending]
      exact fun _ member => .inl member
    · rw [redis]
      exact fun _ _ owned => owned
  · intro first second found other runs runsOther same
    exact inv.single first second found other (workers _ _ runs) (workers _ _ runsOther) same

/-- A lost worker loses its call. -/
theorem Inv.exit {conf : Conf} {world : World} (inv : Inv conf world) (worker : Nat) :
    Inv conf { world with workers := Function.update world.workers worker ⟨Local.zero, none⟩ } := by
  refine inv.quiet rfl rfl rfl rfl rfl rfl ?_
  intro other found runs
  by_cases same : other = worker
  · subst same
    simp at runs
  · simpa [same] using runs

/-- Every step keeps the invariant. -/
theorem Inv.step {conf : Conf} {before after : World} (inv : Inv conf before)
    (step : Step conf before after) : Inv conf after := by
  cases step with
  | start worker key ttl idle positive => exact inv.start worker key positive
  | answer worker answer runs asks quiet => exact inv.answer answer runs asks quiet
  | send worker runs asks unsent => exact inv.send runs asks unsent
  | apply pending => exact inv.apply pending
  | receive worker runs asks waits arrived => exact inv.receive runs asks waits arrived
  | lose worker runs asks waits vague => exact inv.lose runs asks vague
  | tick seconds => exact inv.quiet rfl rfl rfl rfl rfl rfl fun _ _ runs => runs
  | expire key present ended => exact inv.expire key
  | exit worker => exact inv.exit worker

/-- The invariant holds in every reachable world. -/
theorem Reachable.inv {conf : Conf} {world : World} (reachable : Reachable conf world) :
    Inv conf world := by
  induction reachable with
  | init =>
      refine ⟨⟨nofun, ?_, nofun, nofun, List.nodup_nil, nofun, fun _ _ => rfl, nofun, trivial⟩, nofun, nofun⟩
      exact fun _ _ _ member => absurd member (by simp [World.init, since])
  | step reachable step ih => exact ih.step step

/-- Each note of a sound history has what came after it and what came before it. -/
theorem Sound.member {history : List Noted} {noted : Noted} (sound : Sound history)
    (member : noted ∈ history) :
    ∃ later earlier, history = later ++ noted :: earlier ∧ noted.Fits earlier := by
  obtain ⟨later, earlier, rfl⟩ := List.append_of_mem member
  exact ⟨later, earlier, rfl, sound.fits.1⟩

/-- Two stores of one key have an expiry of the key between them. -/
theorem Sound.stored_apart {key : Bytes} {first second : Nat} {seconds others : Int}
    {later between earlier : List Noted}
    (sound : Sound (later ++ (.stored second key others :: between ++ .stored first key seconds :: earlier))) :
    .expired key ∈ between := by
  have alone := (Sound.fits sound).1.2 first seconds
  by_contra lasting
  refine alone ?_
  rw [List.append_eq, since_append lasting, since_cons _ (by simp)]
  exact List.mem_append_right _ List.mem_cons_self

/-- A call returns once. -/
theorem Sound.returned_once {call : Nat} {key other : Bytes} {rc otherRc : NonceStore.Rc}
    {later between earlier : List Noted}
    (sound : Sound (later ++ (.returned call key rc :: between ++ .returned call other otherRc :: earlier))) :
    False :=
  (Sound.fits sound).1.1 other otherRc (List.mem_append_right _ List.mem_cons_self)

/-- Two different events of one list have one before the other. -/
theorem apart_of_mem {first second : Noted} {history : List Noted} (member : first ∈ history)
    (other : second ∈ history) (differ : first ≠ second) :
    (∃ later between earlier, history = later ++ (first :: between ++ second :: earlier)) ∨
      ∃ later between earlier, history = later ++ (second :: between ++ first :: earlier) := by
  obtain ⟨later, earlier, rfl⟩ := List.append_of_mem member
  rcases List.mem_append.mp other with after | before
  · obtain ⟨latest, between, rfl⟩ := List.append_of_mem after
    exact .inr ⟨latest, between, earlier, by simp⟩
  · obtain ⟨between, earliest, rfl⟩ := List.append_of_mem (List.mem_of_ne_of_mem differ.symm before)
    exact .inl ⟨later, between, earliest, rfl⟩

/-- Two calls that were both accepted have own stores of their key with an expiry of the key between these. -/
theorem Sound.accepted_apart {key : Bytes} {first second : Nat} {history : List Noted} (sound : Sound history)
    (member : .returned first key .ok ∈ history) (other : .returned second key .ok ∈ history)
    (differ : first ≠ second) :
    ∃ older newer seconds others later between earlier,
      (older = first ∧ newer = second ∨ older = second ∧ newer = first) ∧
        history = later ++ (.stored newer key others :: between ++ .stored older key seconds :: earlier) ∧
          .expired key ∈ between := by
  obtain ⟨_, _, found, _, seconds, stored⟩ := sound.member member
  obtain ⟨_, _, foundOther, _, others, storedOther⟩ := sound.member other
  have kept : .stored first key seconds ∈ history := by
    rw [found]
    exact List.mem_append_right _ (List.mem_cons_of_mem _ stored)
  have keptOther : .stored second key others ∈ history := by
    rw [foundOther]
    exact List.mem_append_right _ (List.mem_cons_of_mem _ storedOther)
  rcases apart_of_mem kept keptOther (fun same => differ (Noted.stored.inj same).1) with
    ⟨later, between, earlier, rfl⟩ | ⟨later, between, earlier, rfl⟩
  · exact ⟨second, first, others, seconds, later, between, earlier, .inr ⟨rfl, rfl⟩, rfl, sound.stored_apart⟩
  · exact ⟨first, second, seconds, others, later, between, earlier, .inl ⟨rfl, rfl⟩, rfl, sound.stored_apart⟩

/-- A replay was stored by another call before, each accepted call owns a store of its key, and between two expiries
of a key only one call does. -/
theorem redisCheck_safe {conf : Conf} {world : World} (reachable : Reachable conf world) :
    (∀ call key, .returned call key .declined ∈ world.history →
      ∃ latest later owner seconds earlier,
        world.history =
          latest ++ (.returned call key .declined :: later ++ .refused call key owner :: earlier) ∧
          .stored owner key seconds ∈ earlier ∧ owner ≠ call) ∧
    (∀ call key, .returned call key .ok ∈ world.history →
      ∃ later seconds earlier,
        world.history = later ++ .returned call key .ok :: earlier ∧ .stored call key seconds ∈ earlier) ∧
    (∀ key first second seconds others later between earlier,
      world.history = later ++ (.stored second key others :: between ++ .stored first key seconds :: earlier) →
      .expired key ∈ between) ∧
    (∀ key first second, .returned first key .ok ∈ world.history → .returned second key .ok ∈ world.history →
      first ≠ second → ∃ older newer seconds others later between earlier,
        (older = first ∧ newer = second ∨ older = second ∧ newer = first) ∧
          world.history = later ++ (.stored newer key others :: between ++ .stored older key seconds :: earlier) ∧
            .expired key ∈ between) ∧
    (∀ call key other rc otherRc later between earlier,
      world.history ≠
        later ++ (.returned call key rc :: between ++ .returned call other otherRc :: earlier)) ∧
    (∀ call key rc, .returned call key rc ∈ world.history → rc = .ok ∨ rc = .declined ∨ rc = .abort) ∧
    (∀ call key seconds, .stored call key seconds ∈ world.history →
      ∃ ttl, .started call key ttl ∈ world.history ∧ ttl + 1 ≤ seconds) := by
  have sound := reachable.inv.stored.sound
  refine ⟨?_, ?_, ?_, ?_, ?_, ?_, ?_⟩
  · intro call key member
    obtain ⟨latest, _, found, _, owner, refused, distinct⟩ := sound.member member
    obtain ⟨later, earlier, rfl⟩ := List.append_of_mem refused
    rw [found] at sound
    obtain ⟨seconds, stored⟩ := (Sound.fits sound.fits.2).1
    exact ⟨latest, later, owner, seconds, earlier, found, (List.takeWhile_sublist _).subset stored, distinct⟩
  · intro call key member
    obtain ⟨later, earlier, found, _, seconds, stored⟩ := sound.member member
    exact ⟨later, seconds, earlier, found, stored⟩
  · intro key first second seconds others later between earlier found
    rw [found] at sound
    exact sound.stored_apart
  · intro key first second member other differ
    exact sound.accepted_apart member other differ
  · intro call key other rc otherRc later between earlier found
    rw [found] at sound
    exact sound.returned_once
  · intro call key rc member
    obtain ⟨later, earlier, found, _, fits⟩ := sound.member member
    cases rc with
    | ok => exact Or.inl rfl
    | declined => exact Or.inr (Or.inl rfl)
    | abort => exact Or.inr (Or.inr rfl)
    | error => exact absurd fits id
  · intro call key seconds member
    obtain ⟨later, earlier, found, ⟨ttl, started, enough⟩, _⟩ := sound.member member
    refine ⟨ttl, ?_, enough⟩
    rw [found]
    exact List.mem_append_right _ (List.mem_cons_of_mem _ started)

/-- The first call stores the key, and its reply comes after the key has ended and another call has stored it. -/
theorem reachable_late :
    ∃ world, Reachable ⟨0, 60⟩ world ∧ world.clock = 2 ∧ world.history =
      [.returned 0 [107] .ok, .returned 1 [107] .ok, .stored 1 [107] 2, .started 1 [107] 1, .expired [107],
        .stored 0 [107] 2, .started 0 [107] 1] := by
  have idle : Reachable ⟨0, 60⟩ World.init := .init
  have begun := idle.step (.start 0 [107] 1 rfl (by decide))
  have opened := begun.step (.answer 0 (some none) rfl rfl quiet_connectWithTimeout)
  have ready := opened.step (.answer 0 true rfl rfl quiet_setTimeout)
  have sent := ready.step (.send 0 rfl rfl rfl)
  have stored := sent.step (.apply (List.nil_append _).symm)
  have later := stored.step (.tick 2)
  have ended := later.step (.expire [107] rfl (by decide))
  have begunAgain := ended.step (.start 1 [107] 1 rfl (by decide))
  have openedAgain := begunAgain.step (.answer 1 (some none) rfl rfl quiet_connectWithTimeout)
  have readyAgain := openedAgain.step (.answer 1 true rfl rfl quiet_setTimeout)
  have sentAgain := readyAgain.step (.send 1 rfl rfl rfl)
  have storedAgain := sentAgain.step (.apply (List.nil_append _).symm)
  have accepted := storedAgain.step (.receive 1 rfl rfl rfl rfl)
  have acceptedLate := accepted.step (.receive 0 rfl rfl rfl rfl)
  exact ⟨_, acceptedLate, rfl, rfl⟩

/-- A late reply lets two calls be accepted without an expiry between their returns. -/
theorem accepted_late :
    ¬ ∀ conf world, Reachable conf world → ∀ key first second later between earlier, first ≠ second →
      world.history = later ++ (.returned second key .ok :: between ++ .returned first key .ok :: earlier) →
      .expired key ∈ between := by
  intro apart
  obtain ⟨world, reachable, _, seen⟩ := reachable_late
  have impossible := apart _ world reachable [107] 1 0 [] [] _ (by decide) seen
  exact absurd impossible List.not_mem_nil

/-- One worker stores the key, and the check of another worker finds it. -/
theorem reachable_replay :
    ∃ world, Reachable ⟨0, 60⟩ world ∧ world.history =
      [.returned 1 [107] .declined, .refused 1 [107] 0, .started 1 [107] 5,
        .returned 0 [107] .ok, .stored 0 [107] 6, .started 0 [107] 5] := by
  have idle : Reachable ⟨0, 60⟩ World.init := .init
  have begun := idle.step (.start 0 [107] 5 rfl (by decide))
  have opened := begun.step (.answer 0 (some none) rfl rfl quiet_connectWithTimeout)
  have ready := opened.step (.answer 0 true rfl rfl quiet_setTimeout)
  have sent := ready.step (.send 0 rfl rfl rfl)
  have stored := sent.step (.apply (List.nil_append _).symm)
  have accepted := stored.step (.receive 0 rfl rfl rfl rfl)
  have begunAgain := accepted.step (.start 1 [107] 5 rfl (by decide))
  have openedAgain := begunAgain.step (.answer 1 (some none) rfl rfl quiet_connectWithTimeout)
  have readyAgain := openedAgain.step (.answer 1 true rfl rfl quiet_setTimeout)
  have sentAgain := readyAgain.step (.send 1 rfl rfl rfl)
  have refused := sentAgain.step (.apply (List.nil_append _).symm)
  have declined := refused.step (.receive 1 rfl rfl rfl rfl)
  exact ⟨_, declined, rfl⟩

/-- A replay while the record lives: the second call is declined after the first was accepted. -/
theorem redisCheck_safe_replay :
    ∃ world, Reachable ⟨0, 60⟩ world ∧ .returned 0 [107] .ok ∈ world.history ∧
      ∃ latest later owner seconds earlier,
        world.history =
          latest ++ (.returned 1 [107] .declined :: later ++ .refused 1 [107] owner :: earlier) ∧
          .stored owner [107] seconds ∈ earlier ∧ owner ≠ 1 := by
  obtain ⟨world, reachable, seen⟩ := reachable_replay
  exact ⟨world, reachable, by simp [seen], (redisCheck_safe reachable).1 1 [107] (by simp [seen])⟩

end AuthHttpsig.RedisStore
