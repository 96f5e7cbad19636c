/-
This file shows when locations with different skews accept a signature once through their shared
nonce store.
-/

import AuthHttpsig.Proof.NonceReplay

namespace AuthHttpsig.NonceStore

open SearchTree Profile

variable {rb : Balanced Nat}

/-- These are the calls for the key that the store accepted. -/
def acceptances (key : Bytes) (history : List (Call × Rc)) : List (Call × Rc) :=
  history.filter fun entry => entry.1.key = key ∧ entry.2 = .ok

/-- Every later call for the key comes before the record of its first call has expired. -/
def WithinRecord (key : Bytes) (calls : List Call) : Prop :=
  match calls.filter fun call => call.key = key with
  | [] => True
  | first :: rest => ∀ later ∈ rest, later.now ≤ first.now + first.ttl

namespace World

variable {crc : Bytes → UInt32} {world : World rb} {now : Int} {key : Bytes}

theorem history_cons (crc : Bytes → UInt32) (world : World rb) (call : Call) (rest : List Call) :
    world.history crc (call :: rest) = (call, world.answer crc call) :: (world.check crc call).history crc rest :=
  rfl

/-- The record of a key changes only when a call for it is accepted. -/
theorem check_records {call : Call} (kept : call.key = key → world.answer crc call ≠ .ok) :
    (world.check crc call).records key = world.records key := by
  show world.records.checked call (world.answer crc call) key = _
  rw [Records.checked]
  split
  · rename_i accepted
    refine Function.update_of_ne ?_ ..
    rintro rfl
    exact kept rfl accepted
  · rfl

/-- A call for a key without a live record is accepted unless the store has no room. -/
theorem answer_of_expired {call : Call} (refines : world.Refines crc call.now) (positive : 1 ≤ call.ttl)
    (dead : ∀ expiresAt, world.records call.key = some expiresAt → expiresAt < call.now)
    (room : world.answer crc call ≠ .abort) : world.answer crc call = .ok := by
  have outcome := check_outcome refines.coherent positive
  have accepted : world.answer crc call ≠ .declined := by
    rw [ne_eq, outcome.declined_iff refines.coherent, refines.live_iff]
    rintro ⟨expiresAt, alive, recorded⟩
    have := dead expiresAt recorded
    omega
  exact (outcome.answered accepted).resolve_right room

/-- A recorded key with time left is declined. -/
theorem answer_of_live {call : Call} (refines : world.Refines crc call.now) (positive : 1 ≤ call.ttl)
    {expiresAt : Int} (recorded : world.records call.key = some expiresAt) (alive : call.now ≤ expiresAt) :
    world.answer crc call = .declined := by
  have outcome := check_outcome refines.coherent positive
  rw [outcome.declined_iff refines.coherent, refines.live_iff]
  exact ⟨expiresAt, alive, recorded⟩

/-- A recorded key is not accepted again exactly when every call for it finds the record alive. -/
theorem acceptances_of_recorded {calls : List Call} {expiresAt : Int} (refines : world.Refines crc now)
    (recorded : world.records key = some expiresAt)
    (ordered : calls.Pairwise fun earlier later => earlier.now ≤ later.now)
    (started : ∀ call ∈ calls, now ≤ call.now) (positive : ∀ call ∈ calls, call.key = key → 1 ≤ call.ttl)
    (room : ∀ entry ∈ world.history crc calls, entry.1.key = key → entry.2 ≠ .abort) :
    acceptances key (world.history crc calls) = [] ↔
      ∀ call ∈ calls.filter fun call => call.key = key, call.now ≤ expiresAt := by
  induction calls generalizing world now with
  | nil => simp [history, acceptances]
  | cons call rest ih =>
      obtain ⟨before, orderedRest⟩ := List.pairwise_cons.mp ordered
      have atCall := refines.later (started call (by simp))
      have step (kept : call.key = key → world.answer crc call ≠ .ok) :=
        ih atCall.check ((check_records kept).trans recorded) orderedRest before
          (fun other inside => positive other (List.mem_cons_of_mem call inside))
          (fun entry inside => room entry (List.mem_cons_of_mem _ inside))
      by_cases same : call.key = key
      · have lifetime := positive call (by simp) same
        subst same
        by_cases alive : call.now ≤ expiresAt
        · have declined := answer_of_live atCall lifetime recorded alive
          have rest := step fun _ => by rw [declined]; decide
          simpa [history_cons, acceptances, declined, alive] using rest
        · have accepted := answer_of_expired atCall lifetime (fun other found => by
            rw [recorded] at found
            cases found
            omega) (room _ List.mem_cons_self rfl)
          simp [history_cons, acceptances, accepted, alive]
      · have rest := step fun named => absurd named same
        simpa [history_cons, acceptances, same] using rest

/-- A new key is accepted once exactly when every later call finds the record of the first alive. -/
theorem acceptances_of_new {calls : List Call} (refines : world.Refines crc now)
    (absent : world.records key = none)
    (ordered : calls.Pairwise fun earlier later => earlier.now ≤ later.now)
    (started : ∀ call ∈ calls, now ≤ call.now) (positive : ∀ call ∈ calls, call.key = key → 1 ≤ call.ttl)
    (room : ∀ entry ∈ world.history crc calls, entry.1.key = key → entry.2 ≠ .abort) :
    (acceptances key (world.history crc calls)).length ≤ 1 ↔ WithinRecord key calls := by
  induction calls generalizing world now with
  | nil => simp [history, acceptances, WithinRecord]
  | cons call rest ih =>
      obtain ⟨before, orderedRest⟩ := List.pairwise_cons.mp ordered
      have atCall := refines.later (started call (by simp))
      have positiveRest := fun other inside => positive other (List.mem_cons_of_mem call inside)
      have roomRest := fun entry inside => room entry (List.mem_cons_of_mem _ inside)
      by_cases same : call.key = key
      · have lifetime := positive call (by simp) same
        subst same
        have accepted := answer_of_expired atCall lifetime
          (fun other found => by
            rw [absent] at found
            cases found)
          (room _ List.mem_cons_self rfl)
        have recorded : (world.check crc call).records call.key = some (call.now + call.ttl) := by
          show world.records.checked call (world.answer crc call) call.key = _
          rw [Records.checked, if_pos accepted, Function.update_self]
        have further := acceptances_of_recorded atCall.check recorded orderedRest before positiveRest roomRest
        rw [← List.length_eq_zero_iff] at further
        simpa [history_cons, acceptances, accepted, WithinRecord] using further
      · have kept : (world.check crc call).records key = world.records key :=
          check_records fun named => absurd named same
        have further := ih atCall.check (kept.trans absent) orderedRest before positiveRest roomRest
        simpa [history_cons, acceptances, same, WithinRecord] using further

/-- This holds of every run from a new zone. -/
theorem init_acceptances (rb : Balanced Nat) (crc : Bytes → UInt32) {calls : List Call} {key : Bytes}
    (ordered : calls.Pairwise fun earlier later => earlier.now ≤ later.now)
    (positive : ∀ call ∈ calls, call.key = key → 1 ≤ call.ttl)
    (room : ∀ entry ∈ (init rb).history crc calls, entry.1.key = key → entry.2 ≠ .abort) :
    (acceptances key ((init rb).history crc calls)).length ≤ 1 ↔ WithinRecord key calls := by
  cases calls with
  | nil => simp [history, acceptances, WithinRecord]
  | cons first rest =>
      refine acceptances_of_new (init_refines rb crc first.now) rfl ordered ?_ positive room
      intro call inside
      rcases List.mem_cons.mp inside with rfl | inside
      · exact le_refl _
      · exact (List.pairwise_cons.mp ordered).1 call inside

end World

/-- A visit presents a signature to one location, whose profile has its own skew. -/
structure Visit where
  ctx : Ctx
  call : Call

/-- The skew of the location that is visited first covers every later visit. -/
def Covered (sig : Signature) (key : Bytes) (visits : List Visit) : Prop :=
  match visits.filter fun visit => visit.call.key = key with
  | [] => True
  | first :: rest => ∀ later ∈ rest,
      later.call.now ≤ max (sig.expires + first.ctx.maxSkew) (first.call.now + 1)

/-- The record of a presentation lives through the window of its own location. -/
theorem Presents.deadline {ctx : Ctx} {sig : Signature} {call : Call} (presents : Presents ctx sig call) :
    call.now + call.ttl = max (sig.expires + ctx.maxSkew) (call.now + 1) := by
  rw [presents.2, storeTtl]
  split <;> omega

/-- Being within the record is being covered by the window of the signature. -/
theorem withinRecord_iff_covered {sig : Signature} {key : Bytes} {visits : List Visit}
    (presents : ∀ visit ∈ visits, visit.call.key = key → Presents visit.ctx sig visit.call) :
    WithinRecord key (visits.map Visit.call) ↔ Covered sig key visits := by
  unfold WithinRecord Covered
  rw [List.filter_map]
  simp only [Function.comp_def]
  cases found : visits.filter fun visit => visit.call.key = key with
  | nil => rfl
  | cons first rest =>
      have inside : first ∈ visits.filter fun visit => visit.call.key = key := by simp [found]
      obtain ⟨visited, named⟩ := List.mem_filter.mp inside
      simp only [List.map_cons, List.forall_mem_map,
        (presents first visited (by simpa using named)).deadline]

/-- Locations that share the store accept a signature at most once exactly when the skew of the first of
them covers every later visit. -/
theorem shared_store_no_replay_iff (rb : Balanced Nat) (crc : Bytes → UInt32) (sig : Signature) (key : Bytes)
    (visits : List Visit)
    (ordered : visits.Pairwise fun earlier later => earlier.call.now ≤ later.call.now)
    (presents : ∀ visit ∈ visits, visit.call.key = key → Presents visit.ctx sig visit.call)
    (room : ∀ entry ∈ (World.init rb).history crc (visits.map Visit.call), entry.1.key = key →
      entry.2 ≠ .abort) :
    (((World.init rb).history crc (visits.map Visit.call)).filter fun entry =>
        entry.1.key = key ∧ entry.2 = .ok).length ≤ 1 ↔ Covered sig key visits := by
  rw [← withinRecord_iff_covered presents]
  refine World.init_acceptances rb crc (List.pairwise_map.mpr ordered) ?_ room
  intro call inside named
  obtain ⟨visit, visited, rfl⟩ := List.mem_map.mp inside
  rw [(presents visit visited named).2]
  exact storeTtl_pos _ _ _

/-- The other sample location has a skew of 300 seconds. -/
def patientWindow : Ctx := { sampleWindow with maxSkew := 300 }

/-- The patient location is visited first, and the other one within its own window. -/
def coveredVisits : List Visit :=
  [⟨patientWindow, ⟨ascii "a", 700, 1200, twoSlots⟩⟩, ⟨sampleWindow, ⟨ascii "a", 1, 1660, twoSlots⟩⟩]

theorem shared_store_no_replay_iff_covered :
    (((World.init (plain Nat)).history crc32Long (coveredVisits.map Visit.call)).filter fun entry =>
        entry.1.key = ascii "a" ∧ entry.2 = .ok).length ≤ 1 ↔
      Covered expiringSignature (ascii "a") coveredVisits :=
  shared_store_no_replay_iff (plain Nat) crc32Long expiringSignature (ascii "a") coveredVisits (by decide)
    (by decide +kernel) (by decide +kernel)

/-- The record of the strict location expires before the patient location is visited. -/
def uncoveredVisits : List Visit :=
  [⟨sampleWindow, ⟨ascii "a", 460, 1200, twoSlots⟩⟩, ⟨patientWindow, ⟨ascii "a", 200, 1700, twoSlots⟩⟩]

/-- Two locations of different skew accept one signature twice. -/
theorem shared_store_replay :
    ¬ ∀ (crc : Bytes → UInt32) (sig : Signature) (key : Bytes) (visits : List Visit),
      (visits.Pairwise fun earlier later => earlier.call.now ≤ later.call.now) →
      (∀ visit ∈ visits, visit.call.key = key → Presents visit.ctx sig visit.call) →
      (∀ entry ∈ (World.init (plain Nat)).history crc (visits.map Visit.call), entry.2 ≠ .abort) →
      (((World.init (plain Nat)).history crc (visits.map Visit.call)).filter fun entry =>
        entry.1.key = key ∧ entry.2 = .ok).length ≤ 1 := by
  intro once
  have atMost := once crc32Long expiringSignature (ascii "a") uncoveredVisits (by decide) (by decide +kernel)
    (by decide +kernel)
  exact absurd atMost (by decide +kernel)

end AuthHttpsig.NonceStore
