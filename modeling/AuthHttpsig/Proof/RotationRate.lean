/-
This file shows how far apart the forced refetches of one host are in every run of the cache.
-/

import AuthHttpsig.Construction.NonceStore
import AuthHttpsig.Proof.CacheSteps

namespace AuthHttpsig.Cache

open SearchTree KeyTree

/-- This is a granted rotation claim. -/
structure Rotation where
  host : Bytes
  since : Int
  retryTtl : Int
  deriving DecidableEq

/-- Each operation is one call under the mutex of the zone, or the passing of time. -/
inductive Operation where
  | wait (later : Int)
  | lookup (host : Bytes) (memory : Memory)
  | rotate (host : Bytes) (retryTtl : Int)
  | store (host : Bytes) (memory : Memory) (jwks : Bytes) (expiresAt retryTtl : Int)
  | release (host : Bytes) (retryAt : Int)

/-- The granted rotation claims are listed with the newest first. -/
structure Limiter (rb : Balanced Nat) where
  zone : Zone rb
  now : Int
  rotations : List Rotation

variable {rb : Balanced Nat}

namespace Limiter

def init (rb : Balanced Nat) (now : Int) : Limiter rb := ⟨Zone.initZone rb, now, []⟩

def step (crc : Bytes → UInt32) (limiter : Limiter rb) : Operation → Limiter rb
  | .wait later => { limiter with now := later }
  | .lookup host memory => { limiter with zone := (limiter.zone.lookup crc memory host limiter.now).2 }
  | .rotate host retryTtl =>
      let out := limiter.zone.claimRotationRefetch crc host limiter.now retryTtl
      { limiter with
        zone := out.2
        rotations :=
          if out.1 then ⟨host, limiter.now, retryTtl⟩ :: limiter.rotations else limiter.rotations }
  | .store host memory jwks expiresAt retryTtl =>
      { limiter with zone := (limiter.zone.store crc memory host jwks expiresAt retryTtl limiter.now).2 }
  | .release host retryAt => { limiter with zone := limiter.zone.release crc host retryAt }

def run (crc : Bytes → UInt32) (limiter : Limiter rb) (operations : List Operation) : Limiter rb :=
  operations.foldl (step crc) limiter

/-- The clock never goes back. -/
def Ordered (limiter : Limiter rb) : Operation → Prop
  | .wait later => limiter.now ≤ later
  | _ => True

instance (limiter : Limiter rb) : DecidablePred limiter.Ordered
  | .wait _ => inferInstanceAs (Decidable (_ ≤ _))
  | .lookup .. | .rotate .. | .store .. | .release .. => inferInstanceAs (Decidable True)

/-- A host without a node may take the room of another node. -/
def evicts (crc : Bytes → UInt32) (limiter : Limiter rb) : Operation → Option Nat
  | .lookup host memory | .store host memory .. =>
      if (limiter.zone.find (crc host) host).isNone then limiter.zone.evictee memory.slab host limiter.now
      else none
  | .wait _ | .rotate .. | .release .. => none

/-- No host loses its node until every retry time since its forced refetches has passed. -/
def Spares (crc : Bytes → UInt32) (limiter : Limiter rb) (operation : Operation) : Prop :=
  ∀ address ∈ limiter.evicts crc operation, ∀ rotation ∈ limiter.rotations,
    rotation.host = (limiter.zone.heap.node address).host → rotation.since + rotation.retryTtl ≤ limiter.now

instance (crc : Bytes → UInt32) (limiter : Limiter rb) : DecidablePred (limiter.Spares crc) :=
  fun _ => inferInstanceAs (Decidable (∀ address ∈ _, _))

/-- The operations for any hosts that meet the condition come in any order. -/
inductive Reaches (crc : Bytes → UInt32) (condition : Limiter rb → Operation → Prop) : Limiter rb → Prop
  | init (now : Int) (positive : 0 < now) : Reaches crc condition (init rb now)
  | step {limiter : Limiter rb} (next : Operation) (before : Reaches crc condition limiter)
      (ordered : limiter.Ordered next) (met : condition limiter next) :
      Reaches crc condition (limiter.step crc next)

/-- Two forced refetches of one host with one retry time are that time apart. -/
def RateLimited (limiter : Limiter rb) : Prop :=
  limiter.rotations.Pairwise fun newer older => newer.host = older.host → newer.retryTtl = older.retryTtl →
    older.since + older.retryTtl ≤ newer.since

end Limiter

/-- The node of the host remembers the forced refetch. -/
def Rotation.Marked (rotation : Rotation) (heap : Heap Node) : Prop :=
  ∃ address node, heap address = some node ∧ node.host = rotation.host ∧
    rotation.since ≤ node.forcedRefetchAt

namespace Rotation.Marked

variable {rotation : Rotation} {heap : Heap Node}

/-- A change that lowers no time of the host keeps the mark of a rotation. -/
theorem update (marked : rotation.Marked heap) {address : Nat} {node changed : Node}
    (found : heap address = some node) (named : changed.host = node.host)
    (later : rotation.since ≤ node.forcedRefetchAt → rotation.since ≤ changed.forcedRefetchAt) :
    rotation.Marked (Function.update heap address (some changed)) := by
  obtain ⟨place, entry, present, same, since⟩ := marked
  rcases eq_or_ne place address with rfl | different
  · rw [present] at found
    cases found
    exact ⟨place, changed, Function.update_self .., named.trans same, later since⟩
  · exact ⟨place, entry, by rw [Function.update_of_ne different, present], same, since⟩

/-- The node of the host is not the one that another host takes the room of. -/
def Kept (rotation : Rotation) (zone : Zone rb) (host : Bytes) (lost : Option Nat) : Prop :=
  ∀ address node, lost = some address → zone.heap address = some node →
    (∀ place stored, zone.heap place = some stored → stored.host ≠ host) → node.host ≠ rotation.host

variable {crc : Bytes → UInt32} {zone after : Zone rb} {host : Bytes} {lost : Option Nat}

/-- An eviction that spares the node of a rotation keeps its mark. -/
theorem evicted (marked : rotation.Marked zone.heap)
    (absent : ∀ place stored, zone.heap place = some stored → stored.host ≠ host)
    (evicted : Zone.Evicted lost zone.heap heap) (kept : Kept rotation zone host lost) :
    rotation.Marked heap := by
  obtain ⟨address, node, found, named, since⟩ := marked
  rcases evicted.survives found with same | freed
  · exact ⟨address, node, same, named, since⟩
  · exact absurd named (kept address node freed found absent)

/-- An entry whose room spares the node of a rotation keeps its mark. -/
theorem entry {address : Nat} {node : Node} (marked : rotation.Marked zone.heap)
    (entry : Zone.Entry crc zone host lost address node after) (kept : Kept rotation zone host lost) :
    rotation.Marked after.heap := by
  obtain ⟨place, older, found, named, since⟩ := marked
  rcases entry.survives place older found with same | ⟨freed, absent⟩
  · exact ⟨place, older, same, named, since⟩
  · exact absurd named (kept place older freed found absent)

end Rotation.Marked

namespace Limiter

variable {crc : Bytes → UInt32} {limiter : Limiter rb}

/-- A forced refetch is over, or its node remembers it. -/
structure Limited (crc : Bytes → UInt32) (limiter : Limiter rb) : Prop where
  coherent : limiter.zone.Coherent crc
  positive : 0 < limiter.now
  started : ∀ rotation ∈ limiter.rotations, 0 < rotation.since ∧ rotation.since ≤ limiter.now
  marked : ∀ rotation ∈ limiter.rotations, limiter.now < rotation.since + rotation.retryTtl →
    rotation.Marked limiter.zone.heap
  apart : limiter.RateLimited

namespace Limited

/-- Before any rotation the invariant holds. -/
theorem init (rb : Balanced Nat) (crc : Bytes → UInt32) {now : Int} (positive : 0 < now) :
    Limited crc (Limiter.init rb now) where
  coherent := Zone.initZone_coherent rb crc
  positive := positive
  started := nofun
  marked := nofun
  apart := .nil

/-- Waiting keeps the invariant. -/
theorem wait (limited : limiter.Limited crc) {later : Int} (ordered : limiter.now ≤ later) :
    Limited crc { limiter with now := later } where
  coherent := limited.coherent
  positive := limited.positive.trans_le ordered
  started rotation present :=
    ⟨(limited.started rotation present).1, (limited.started rotation present).2.trans ordered⟩
  marked rotation present remaining := limited.marked rotation present (ordered.trans_lt remaining)
  apart := limited.apart

/-- A change of the zone keeps what the nodes remember. -/
theorem setZone (limited : limiter.Limited crc) {after : Zone rb} (coherent : after.Coherent crc)
    (kept : ∀ rotation ∈ limiter.rotations, limiter.now < rotation.since + rotation.retryTtl →
      rotation.Marked limiter.zone.heap → rotation.Marked after.heap) :
    Limited crc { limiter with zone := after } where
  coherent := coherent
  positive := limited.positive
  started := limited.started
  marked rotation present remaining :=
    kept rotation present remaining (limited.marked rotation present remaining)
  apart := limited.apart

/-- An operation that spares the recent rotations keeps their nodes. -/
theorem kept (limited : limiter.Limited crc) {operation : Operation} {host : Bytes} {lost : Option Nat}
    (spares : limiter.Spares crc operation)
    (evicts : limiter.evicts crc operation =
      if (limiter.zone.find (crc host) host).isNone then lost else none)
    {rotation : Rotation} (present : rotation ∈ limiter.rotations)
    (remaining : limiter.now < rotation.since + rotation.retryTtl) :
    Rotation.Marked.Kept rotation limiter.zone host lost := by
  intro address node freed found absent same
  have search := (Zone.find_eq_none limited.coherent host).mpr absent
  have chosen : address ∈ limiter.evicts crc operation := by
    rw [evicts, search]
    exact freed
  have passed := spares address chosen rotation present (by rw [Heap.node_eq found, same])
  omega

/-- A lookup that spares them keeps the invariant. -/
theorem lookup (limited : limiter.Limited crc) {host : Bytes} {memory : Memory}
    (spares : limiter.Spares crc (.lookup host memory)) :
    Limited crc (limiter.step crc (.lookup host memory)) := by
  obtain ⟨answer, after, run⟩ : ∃ answer after,
      limiter.zone.lookup crc memory host limiter.now = (answer, after) := ⟨_, _, rfl⟩
  simp only [step, run]
  cases Zone.lookup_lookedUp limited.coherent run with
  | refused | copied => exact limited
  | unavailable absent full =>
      cases full with
      | full coherent evicted _ =>
          refine limited.setZone coherent ?_
          intro rotation present remaining marked
          exact marked.evicted absent evicted (limited.kept spares rfl present remaining)
  | claimed entry _ =>
      refine limited.setZone (Zone.set_coherent entry.coherent entry.found rfl) ?_
      intro rotation present remaining marked
      exact (marked.entry entry (limited.kept spares rfl present remaining)).update entry.found rfl id

/-- A store that spares them keeps the invariant. -/
theorem store (limited : limiter.Limited crc) {host : Bytes} {memory : Memory} {jwks : Bytes}
    {expiresAt retryTtl : Int} (spares : limiter.Spares crc (.store host memory jwks expiresAt retryTtl)) :
    Limited crc (limiter.step crc (.store host memory jwks expiresAt retryTtl)) := by
  obtain ⟨generation, after, run⟩ : ∃ generation after, limiter.zone.store crc memory host jwks expiresAt
      retryTtl limiter.now = (generation, after) := ⟨_, _, rfl⟩
  simp only [step, run]
  cases Zone.store_stored limited.coherent run with
  | full absent full =>
      cases full with
      | full coherent evicted _ =>
          refine limited.setZone coherent ?_
          intro rotation present remaining marked
          exact marked.evicted absent evicted (limited.kept spares rfl present remaining)
  | noRoom entry | replaced entry =>
      refine limited.setZone (Zone.set_coherent entry.coherent entry.found rfl) ?_
      intro rotation present remaining marked
      exact (marked.entry entry (limited.kept spares rfl present remaining)).update entry.found rfl id

/-- A release keeps the invariant. -/
theorem release (limited : limiter.Limited crc) (host : Bytes) (retryAt : Int) :
    Limited crc (limiter.step crc (.release host retryAt)) := by
  have released : Zone.Released crc limiter.zone host retryAt _ :=
    Zone.release_released limited.coherent retryAt
  simp only [step]
  generalize limiter.zone.release crc host retryAt = after at released
  cases released with
  | absent => exact limited
  | released found named =>
      refine limited.setZone (Zone.set_coherent limited.coherent found rfl) ?_
      intro rotation _ _ marked
      exact marked.update found rfl id

/-- A forced refetch is granted only when the retry time since the last one has passed. -/
theorem rotate (limited : limiter.Limited crc) (host : Bytes) (retryTtl : Int) :
    Limited crc (limiter.step crc (.rotate host retryTtl)) := by
  obtain ⟨taken, after, run⟩ : ∃ taken after,
      limiter.zone.claimRotationRefetch crc host limiter.now retryTtl = (taken, after) := ⟨_, _, rfl⟩
  simp only [step, run]
  cases Zone.claimRotationRefetch_rotated limited.coherent run with
  | declined => exact limited
  | @claimed address node found named idle passed =>
      have apart : ∀ older ∈ limiter.rotations, host = older.host → retryTtl = older.retryTtl →
          older.since + older.retryTtl ≤ limiter.now := by
        rintro older present rfl rfl
        by_contra remaining
        obtain ⟨place, entry, alsoFound, same, since⟩ := limited.marked older present (by omega)
        have here := Zone.address_unique limited.coherent alsoFound found (same.trans named.symm)
        subst here
        rw [found] at alsoFound
        cases alsoFound
        have started := (limited.started older present).1
        exact passed ⟨by omega, by omega⟩
      refine ⟨Zone.set_coherent limited.coherent found rfl, limited.positive, ?_, ?_, .cons apart limited.apart⟩
      · intro rotation present
        rcases List.mem_cons.mp present with rfl | older
        · exact ⟨limited.positive, le_refl _⟩
        · exact limited.started rotation older
      · intro rotation present remaining
        rcases List.mem_cons.mp present with rfl | older
        · exact ⟨address, _, Function.update_self .., named, le_refl _⟩
        · exact (limited.marked rotation older remaining).update found rfl fun _ =>
            (limited.started rotation older).2

/-- Every operation that spares them keeps the invariant. -/
theorem step (limited : limiter.Limited crc) {next : Operation} (ordered : limiter.Ordered next)
    (spares : limiter.Spares crc next) : Limited crc (limiter.step crc next) := by
  cases next with
  | wait later => exact limited.wait ordered
  | lookup host memory => exact limited.lookup spares
  | rotate host retryTtl => exact limited.rotate host retryTtl
  | store => exact limited.store spares
  | release host retryAt => exact limited.release host retryAt

end Limited

/-- In a run that evicts no host within the retry time of its forced refetches, these are rate limited. -/
theorem rotations_rate_limited (reaches : Reaches crc (Spares crc) limiter) : limiter.RateLimited := by
  have limited : limiter.Limited crc := by
    induction reaches with
    | init now positive => exact Limited.init rb crc positive
    | step next _ ordered met ih => exact ih.step ordered met
  exact limited.apart

/-- Every operation of the run is ordered and meets the condition. -/
def Follows (crc : Bytes → UInt32) (condition : Limiter rb → Operation → Prop) :
    Limiter rb → List Operation → Prop
  | _, [] => True
  | limiter, next :: rest =>
      limiter.Ordered next ∧ condition limiter next ∧ Follows crc condition (limiter.step crc next) rest

instance decidableFollows (crc : Bytes → UInt32) (condition : Limiter rb → Operation → Prop)
    [∀ limiter, DecidablePred (condition limiter)] (limiter : Limiter rb) (operations : List Operation) :
    Decidable (Follows crc condition limiter operations) :=
  match operations with
  | [] => inferInstanceAs (Decidable True)
  | next :: rest =>
      have := decidableFollows crc condition (limiter.step crc next) rest
      inferInstanceAs (Decidable (_ ∧ _ ∧ _))

/-- A run of sparing operations leads to a reached limiter. -/
theorem Reaches.run {condition : Limiter rb → Operation → Prop} {operations : List Operation}
    (before : Reaches crc condition limiter) (follows : Follows crc condition limiter operations) :
    Reaches crc condition (limiter.run crc operations) := by
  induction operations generalizing limiter with
  | nil => exact before
  | cons next rest ih =>
      obtain ⟨ordered, met, further⟩ := follows
      exact ih (before.step next ordered met) further

/-- The sample zone has room for one node and for any document. -/
def oneNode : Memory where
  slab := {
    alloc heap _ := if heap 0 = none then some 0 else none
    alloc_free _ _ _ found := KeyTree.oneSlot_free found }
  dataRoom := true
  poolRoom := true

/-- A host is fetched, and one forced refetch of it is completed. -/
def fetched (expiresAt : Int) : List Operation :=
  [.lookup (ascii "agent.test") oneNode,
    .store (ascii "agent.test") oneNode (ascii "\x7b\x7d") expiresAt 60,
    .rotate (ascii "agent.test") 300,
    .store (ascii "agent.test") oneNode (ascii "\x7b\x7d") expiresAt 60]

/-- The forced refetches of the host come again when the retry time has passed. -/
def patientRun : List Operation := fetched 1060 ++ .wait 1300 :: fetched 1360

/-- Another host takes the room of the expired host in between. -/
def evictingRun : List Operation :=
  fetched 1060 ++
    [.wait 1060, .lookup (ascii "other.test") oneNode, .release (ascii "other.test") 1060] ++ fetched 1120

/-- Two rotations of one host as far apart as the retry time. -/
theorem rotations_rate_limited_patient :
    ((init (plain Nat) 1000).run NonceStore.crc32Long patientRun).RateLimited ∧
      ((init (plain Nat) 1000).run NonceStore.crc32Long patientRun).rotations =
        [⟨ascii "agent.test", 1300, 300⟩, ⟨ascii "agent.test", 1000, 300⟩] :=
  ⟨rotations_rate_limited ((Reaches.init 1000 (by decide)).run
    (show Follows NonceStore.crc32Long (Spares NonceStore.crc32Long) _ patientRun by decide +kernel)),
    by decide +kernel⟩

/-- The eviction of a host forgets its forced refetch. -/
theorem rotations_unlimited :
    ¬ ∀ (crc : Bytes → UInt32) (limiter : Limiter (plain Nat)), Reaches crc (fun _ _ => True) limiter →
      limiter.RateLimited := by
  intro rateLimited
  have follows : Follows NonceStore.crc32Long (fun _ _ => True) (init (plain Nat) 1000) evictingRun := by
    decide +kernel
  have early : ((init (plain Nat) 1000).run NonceStore.crc32Long evictingRun).rotations =
      [⟨ascii "agent.test", 1060, 300⟩, ⟨ascii "agent.test", 1000, 300⟩] := by
    decide +kernel
  have apart := rateLimited _ _ ((Reaches.init 1000 (by decide)).run follows)
  rw [RateLimited, early] at apart
  exact absurd (List.rel_of_pairwise_cons apart List.mem_cons_self rfl rfl) (by decide)

end Limiter
end AuthHttpsig.Cache
