/-
This file shows who holds the fetch right of a key-directory host in every interleaving of the workers.
-/

import AuthHttpsig.Construction.NonceStore
import AuthHttpsig.Proof.CacheSteps

namespace AuthHttpsig.Cache

open SearchTree KeyTree

/-- A worker holds a claim from its grant until its store or its release. -/
structure Claim where
  worker : Nat
  host : Bytes
  since : Int
  deriving DecidableEq

/-- The worker obtained the claim less than the claim timeout ago. -/
def Claim.Live (now : Int) (claim : Claim) : Prop := now - claim.since < fetchTimeout

instance (now : Int) (claim : Claim) : Decidable (claim.Live now) := inferInstanceAs (Decidable (_ < _))

/-- The workers share one zone and one clock. -/
structure System (rb : Balanced Nat) where
  zone : Zone rb
  claims : List Claim
  now : Int

/-- Each move is one call under the mutex of the zone, or the passing of time. -/
inductive Move where
  | wait (later : Int)
  | lookup (worker : Nat) (host : Bytes) (memory : Memory)
  | rotate (worker : Nat) (host : Bytes) (retryTtl : Int)
  | store (claim : Claim) (memory : Memory) (jwks : Bytes) (expiresAt retryTtl : Int)
  | release (claim : Claim) (retryAt : Int)

variable {rb : Balanced Nat}

namespace System

def init (rb : Balanced Nat) (now : Int) : System rb := ⟨Zone.initZone rb, [], now⟩

/-- A granted call adds a claim of its worker. -/
def grant (system : System rb) (worker : Nat) (host : Bytes) (granted : Bool) (after : Zone rb) : System rb where
  zone := after
  claims := if granted then ⟨worker, host, system.now⟩ :: system.claims else system.claims
  now := system.now

/-- The claim is stored or released. -/
def complete (system : System rb) (claim : Claim) (after : Zone rb) : System rb :=
  { system with zone := after, claims := system.claims.erase claim }

def move (crc : Bytes → UInt32) (system : System rb) : Move → System rb
  | .wait later => { system with now := later }
  | .lookup worker host memory =>
      let out := system.zone.lookup crc memory host system.now
      system.grant worker host (out.1.status = some .claimed) out.2
  | .rotate worker host retryTtl =>
      let out := system.zone.claimRotationRefetch crc host system.now retryTtl
      system.grant worker host out.1 out.2
  | .store claim memory jwks expiresAt retryTtl =>
      system.complete claim (system.zone.store crc memory claim.host jwks expiresAt retryTtl system.now).2
  | .release claim retryAt => system.complete claim (system.zone.release crc claim.host retryAt)

def run (crc : Bytes → UInt32) (system : System rb) (moves : List Move) : System rb :=
  moves.foldl (move crc) system

/-- The clock never goes back, and a worker completes only a claim that it holds. -/
def Permitted (system : System rb) : Move → Prop
  | .wait later => system.now ≤ later
  | .lookup .. | .rotate .. => True
  | .store claim .. | .release claim _ => claim ∈ system.claims

instance (system : System rb) : DecidablePred system.Permitted
  | .wait _ => inferInstanceAs (Decidable (_ ≤ _))
  | .lookup .. | .rotate .. => inferInstanceAs (Decidable True)
  | .store .. | .release .. => inferInstanceAs (Decidable (_ ∈ _))

/-- A claim is completed only while no other claim on its host is live. -/
def Undisturbed (system : System rb) : Move → Prop
  | .store claim .. | .release claim _ =>
      ∀ other ∈ system.claims.erase claim, other.host = claim.host → ¬ other.Live system.now
  | .wait _ | .lookup .. | .rotate .. => True

instance (system : System rb) : DecidablePred system.Undisturbed
  | .store .. | .release .. => inferInstanceAs (Decidable (∀ other ∈ _, _))
  | .wait _ | .lookup .. | .rotate .. => inferInstanceAs (Decidable True)

/-- The permitted moves of any workers that meet the condition come in any order. -/
inductive Reaches (crc : Bytes → UInt32) (condition : System rb → Move → Prop) : System rb → Prop
  | init (now : Int) : Reaches crc condition (init rb now)
  | move {system : System rb} (next : Move) (before : Reaches crc condition system)
      (permitted : system.Permitted next) (met : condition system next) :
      Reaches crc condition (system.move crc next)

/-- At most one worker holds a live claim on each host. -/
def Exclusive (system : System rb) : Prop :=
  ∀ first ∈ system.claims, ∀ second ∈ system.claims, first.host = second.host →
    first.Live system.now → second.Live system.now → first.worker = second.worker

instance (system : System rb) : Decidable system.Exclusive :=
  inferInstanceAs (Decidable (∀ first ∈ _, ∀ second ∈ _, _))

/-- Every move of the run is permitted and meets the condition. -/
def Follows (crc : Bytes → UInt32) (condition : System rb → Move → Prop) : System rb → List Move → Prop
  | _, [] => True
  | system, next :: rest =>
      system.Permitted next ∧ condition system next ∧ Follows crc condition (system.move crc next) rest

instance decidableFollows (crc : Bytes → UInt32) (condition : System rb → Move → Prop)
    [∀ system, DecidablePred (condition system)] (system : System rb) (moves : List Move) :
    Decidable (Follows crc condition system moves) :=
  match moves with
  | [] => inferInstanceAs (Decidable True)
  | next :: rest =>
      have := decidableFollows crc condition (system.move crc next) rest
      inferInstanceAs (Decidable (_ ∧ _ ∧ _))

/-- A run of permitted moves leads to a reached system. -/
theorem Reaches.run {crc : Bytes → UInt32} {condition : System rb → Move → Prop} {system : System rb}
    {moves : List Move} (before : Reaches crc condition system) (follows : Follows crc condition system moves) :
    Reaches crc condition (system.run crc moves) := by
  induction moves generalizing system with
  | nil => exact before
  | cons next rest ih =>
      obtain ⟨permitted, met, further⟩ := follows
      exact ih (before.move next permitted met) further

end System

/-- The node of the host says that the claim fetches it. -/
def Claim.Held (claim : Claim) (heap : Heap Node) : Prop :=
  ∃ address node, heap address = some node ∧ node.host = claim.host ∧ node.fetching = true ∧
    node.fetchingSince = claim.since

/-- The claims are on two hosts, or one of them has timed out. -/
def Claim.Apart (now : Int) (first second : Claim) : Prop :=
  first.host = second.host → ¬ (first.Live now ∧ second.Live now)

instance (now : Int) : Std.Symm (Claim.Apart now) where
  symm _ _ apart same both := apart same.symm both.symm

/-- A claim live at some time was live before it. -/
theorem Claim.Live.earlier {claim : Claim} {now later : Int} (live : claim.Live later) (ordered : now ≤ later) :
    claim.Live now := by
  unfold Claim.Live at *
  omega

namespace Claim.Held

variable {claim : Claim} {heap : Heap Node}

/-- An eviction spares the node of a held claim. -/
theorem evicted {lost : Option Nat} {after : Heap Node} (held : claim.Held heap)
    (evicted : Zone.Evicted lost heap after) :
    claim.Held after := by
  obtain ⟨address, node, found, named, fetching, since⟩ := held
  exact ⟨address, node, evicted.keeps found fetching, named, fetching, since⟩

/-- The node of another host may change. -/
theorem update (held : claim.Held heap) {address : Nat} {node : Node} (found : heap address = some node)
    (other : claim.host ≠ node.host) (changed : Node) :
    claim.Held (Function.update heap address (some changed)) := by
  obtain ⟨place, entry, present, named, fetching, since⟩ := held
  have different : place ≠ address := by
    rintro rfl
    rw [present] at found
    cases found
    exact other named.symm
  exact ⟨place, entry, by rw [Function.update_of_ne different, present], named, fetching, since⟩

variable {rb : Balanced Nat} {crc : Bytes → UInt32} {zone created : Zone rb} {host : Bytes}
  {lost : Option Nat} {address : Nat} {node : Node}

/-- An entry, found or new, spares the node of a held claim. -/
theorem entry (held : claim.Held zone.heap) (entry : Zone.Entry crc zone host lost address node created) :
    claim.Held created.heap := by
  obtain ⟨place, kept, present, named, fetching, since⟩ := held
  exact ⟨place, kept, entry.keeps place kept present fetching, named, fetching, since⟩

/-- The entry of a claimed host is its node, which says so. -/
theorem entry_fetching (held : claim.Held zone.heap) (coherent : zone.Coherent crc)
    (entry : Zone.Entry crc zone claim.host lost address node created) :
    node.fetching = true ∧ node.fetchingSince = claim.since := by
  obtain ⟨place, kept, present, named, fetching, since⟩ := held
  rcases entry.fresh with found | ⟨_, absent⟩
  · have same := Zone.address_unique coherent present found (named.trans entry.named.symm)
    subst same
    rw [present] at found
    cases found
    exact ⟨fetching, since⟩
  · exact absurd named (absent place kept present)

end Claim.Held

namespace System

variable {crc : Bytes → UInt32} {system : System rb}

/-- Each live claim has its node to itself. -/
structure Holding (crc : Bytes → UInt32) (system : System rb) : Prop where
  coherent : system.zone.Coherent crc
  held : ∀ claim ∈ system.claims, claim.Live system.now → claim.Held system.zone.heap
  apart : system.claims.Pairwise (Claim.Apart system.now)

namespace Holding

/-- Before any claim the invariant holds. -/
theorem init (rb : Balanced Nat) (crc : Bytes → UInt32) (now : Int) : (System.init rb now).Holding crc where
  coherent := Zone.initZone_coherent rb crc
  held := nofun
  apart := .nil

/-- Held claims of one host are one claim. -/
theorem exclusive (holding : system.Holding crc) : system.Exclusive := by
  intro first present second alsoPresent same live alsoLive
  by_contra different
  have distinct : first ≠ second := fun equal => different (congrArg Claim.worker equal)
  exact holding.apart.forall present alsoPresent distinct same ⟨live, alsoLive⟩

/-- A move that grants nothing keeps the nodes of the live claims. -/
theorem keep (holding : system.Holding crc) {after : System rb} (coherent : after.zone.Coherent crc)
    (fewer : after.claims.Sublist system.claims) (later : system.now ≤ after.now)
    (kept : ∀ claim ∈ after.claims, claim.Live after.now → claim.Held system.zone.heap →
      claim.Held after.zone.heap) : after.Holding crc where
  coherent := coherent
  held claim present live :=
    kept claim present live (holding.held claim (fewer.subset present) (live.earlier later))
  apart := (holding.apart.sublist fewer).imp fun apart same both =>
    apart same ⟨both.1.earlier later, both.2.earlier later⟩

/-- A granted claim takes a host that no live claim has. -/
theorem take (holding : system.Holding crc) {after : Zone rb} {worker : Nat} {host : Bytes}
    (coherent : after.Coherent crc)
    (vacant : ∀ claim ∈ system.claims, claim.Live system.now → claim.host ≠ host)
    (taken : Claim.Held ⟨worker, host, system.now⟩ after.heap)
    (kept : ∀ claim : Claim, claim.host ≠ host → claim.Held system.zone.heap → claim.Held after.heap) :
    (system.grant worker host true after).Holding crc where
  coherent := coherent
  held claim present live := by
    rcases List.mem_cons.mp present with rfl | older
    · exact taken
    · exact kept claim (vacant claim older live) (holding.held claim older live)
  apart := by
    refine .cons ?_ holding.apart
    intro claim older same both
    exact vacant claim older both.2 same.symm

/-- A lookup keeps the claims held. -/
theorem lookup (holding : system.Holding crc) (worker : Nat) (host : Bytes) (memory : Memory) :
    (system.move crc (.lookup worker host memory)).Holding crc := by
  obtain ⟨answer, after, run⟩ : ∃ answer after,
      system.zone.lookup crc memory host system.now = (answer, after) := ⟨_, _, rfl⟩
  simp only [move, run]
  cases Zone.lookup_lookedUp holding.coherent run with
  | refused status =>
      simp only [status, decide_false]
      exact holding.keep holding.coherent (.refl _) (le_refl _) fun _ _ _ held => held
  | copied served =>
      have status : answer.status ≠ some .claimed := by
        rcases served with served | served <;> simp [served]
      simp only [status, decide_false]
      exact holding.keep holding.coherent (.refl _) (le_refl _) fun _ _ _ held => held
  | unavailable _ full =>
      cases full with
      | full coherent evicted _ =>
          exact holding.keep coherent (.refl _) (le_refl _) fun _ _ _ held => held.evicted evicted
  | @claimed address node created entry expired =>
      simp only [decide_true]
      refine holding.take (Zone.set_coherent entry.coherent entry.found rfl) ?_ ?_ ?_
      · rintro claim present live rfl
        obtain ⟨fetching, since⟩ := (holding.held claim present live).entry_fetching holding.coherent entry
        exact expired ⟨fetching, since ▸ live⟩
      · exact ⟨address, _, Function.update_self .., entry.named, rfl, rfl⟩
      · intro claim other held
        exact (held.entry entry).update entry.found (entry.named.symm ▸ other) _

/-- A rotation keeps the claims held. -/
theorem rotate (holding : system.Holding crc) (worker : Nat) (host : Bytes) (retryTtl : Int) :
    (system.move crc (.rotate worker host retryTtl)).Holding crc := by
  obtain ⟨taken, after, run⟩ : ∃ taken after,
      system.zone.claimRotationRefetch crc host system.now retryTtl = (taken, after) := ⟨_, _, rfl⟩
  simp only [move, run]
  cases Zone.claimRotationRefetch_rotated holding.coherent run with
  | declined => exact holding.keep holding.coherent (.refl _) (le_refl _) fun _ _ _ held => held
  | @claimed address node found named idle _ =>
      refine holding.take (Zone.set_coherent holding.coherent found rfl) ?_ ?_ ?_
      · rintro claim present live rfl
        have fetching := ((holding.held claim present live).entry_fetching holding.coherent
          (Zone.Entry.ofFound holding.coherent found named none)).1
        rw [idle] at fetching
        cases fetching
      · exact ⟨address, _, Function.update_self .., named, rfl, rfl⟩
      · intro claim other held
        exact held.update found (named.symm ▸ other) _

/-- A completion of a claim keeps the claims on other hosts. -/
theorem complete (holding : system.Holding crc) {claim : Claim} {after : Zone rb}
    (coherent : after.Coherent crc)
    (lone : ∀ other ∈ system.claims.erase claim, other.host = claim.host → ¬ other.Live system.now)
    (kept : ∀ other : Claim, other.host ≠ claim.host → other.Held system.zone.heap → other.Held after.heap) :
    (system.complete claim after).Holding crc :=
  holding.keep coherent List.erase_sublist (le_refl _) fun other present live held =>
    kept other (fun same => lone other present same live) held

/-- An undisturbed store keeps the remaining claims held. -/
theorem store (holding : system.Holding crc) {claim : Claim} {memory : Memory} {jwks : Bytes}
    {expiresAt retryTtl : Int} (lone : system.Undisturbed (.store claim memory jwks expiresAt retryTtl)) :
    (system.move crc (.store claim memory jwks expiresAt retryTtl)).Holding crc := by
  obtain ⟨generation, after, run⟩ : ∃ generation after, system.zone.store crc memory claim.host jwks
      expiresAt retryTtl system.now = (generation, after) := ⟨_, _, rfl⟩
  simp only [move, run]
  cases Zone.store_stored holding.coherent run with
  | full _ full =>
      cases full with
      | full coherent evicted _ =>
          exact holding.complete coherent lone fun _ _ held => held.evicted evicted
  | noRoom entry | replaced entry =>
      refine holding.complete (Zone.set_coherent entry.coherent entry.found rfl) lone ?_
      intro other different held
      exact (held.entry entry).update entry.found (entry.named.symm ▸ different) _

/-- An undisturbed release keeps the remaining claims held. -/
theorem release (holding : system.Holding crc) {claim : Claim} {retryAt : Int}
    (lone : system.Undisturbed (.release claim retryAt)) :
    (system.move crc (.release claim retryAt)).Holding crc := by
  have released : Zone.Released crc system.zone claim.host retryAt _ :=
    Zone.release_released holding.coherent retryAt
  simp only [move]
  generalize system.zone.release crc claim.host retryAt = after at released
  cases released with
  | absent => exact holding.complete holding.coherent lone fun _ _ held => held
  | released found named =>
      refine holding.complete (Zone.set_coherent holding.coherent found rfl) lone ?_
      intro other different held
      exact held.update found (named.symm ▸ different) _

/-- Every permitted and undisturbed move keeps the claims held. -/
theorem move (holding : system.Holding crc) {next : Move} (permitted : system.Permitted next)
    (lone : system.Undisturbed next) : (system.move crc next).Holding crc := by
  cases next with
  | wait later => exact holding.keep holding.coherent (.refl _) permitted fun _ _ _ held => held
  | lookup worker host memory => exact holding.lookup worker host memory
  | rotate worker host retryTtl => exact holding.rotate worker host retryTtl
  | store => exact holding.store lone
  | release => exact holding.release lone

end Holding

/-- In a run that completes each claim only while no other claim on its host is live, at most one worker
holds the fetch right of each host. -/
theorem fetch_right_exclusive (reaches : Reaches crc Undisturbed system) : system.Exclusive := by
  have holding : system.Holding crc := by
    induction reaches with
    | init now => exact Holding.init rb crc now
    | move next _ permitted met ih => exact ih.move permitted met
  exact holding.exclusive

/-- The sample zone has room for one node and for any document. -/
def sampleMemory : Memory where
  slab := {
    alloc heap _ := if heap 0 = none then some 0 else none
    alloc_free _ _ _ found := KeyTree.oneSlot_free found }
  dataRoom := true
  poolRoom := true

/-- The claim of the worker 0 times out, and the worker 1 claims the host again. One of them stores its
document, and the worker 2 asks for a forced refetch. -/
def sampleRun (stored : Claim) : List Move :=
  [.lookup 0 (ascii "agent.test") sampleMemory,
    .wait 1030,
    .lookup 1 (ascii "agent.test") sampleMemory,
    .wait 1031,
    .store stored sampleMemory (ascii "\x7b\x7d") 1331 60,
    .rotate 2 (ascii "agent.test") 300]

def timedOutClaim : Claim := ⟨0, ascii "agent.test", 1000⟩

def secondClaim : Claim := ⟨1, ascii "agent.test", 1030⟩

def thirdClaim : Claim := ⟨2, ascii "agent.test", 1031⟩

/-- The store of the second claim meets no live claim, and the late store of the first claim ends the live one. -/
theorem sampleRun_stored :
    (Follows NonceStore.crc32Long Undisturbed (init (plain Nat) 1000) (sampleRun secondClaim) ∧
      ((init (plain Nat) 1000).run NonceStore.crc32Long (sampleRun secondClaim)).claims =
        [thirdClaim, timedOutClaim]) ∧
      Follows NonceStore.crc32Long (fun _ _ => True) (init (plain Nat) 1000) (sampleRun timedOutClaim) ∧
        ¬ ((init (plain Nat) 1000).run NonceStore.crc32Long (sampleRun timedOutClaim)).Exclusive := by
  decide +kernel

/-- A claim that timed out is taken over, and the second claim completes undisturbed. -/
theorem fetch_right_exclusive_timed_out :
    ((init (plain Nat) 1000).run NonceStore.crc32Long (sampleRun secondClaim)).Exclusive ∧
      ((init (plain Nat) 1000).run NonceStore.crc32Long (sampleRun secondClaim)).claims =
        [thirdClaim, timedOutClaim] :=
  have ⟨undisturbed, claims⟩ := sampleRun_stored.1
  ⟨fetch_right_exclusive ((Reaches.init 1000).run undisturbed), claims⟩

/-- The late store of the timed-out claim ends the claim of another worker. -/
theorem fetch_right_shared :
    ¬ ∀ (crc : Bytes → UInt32) (system : System (plain Nat)), Reaches crc (fun _ _ => True) system →
      system.Exclusive := by
  intro exclusive
  obtain ⟨follows, shared⟩ := sampleRun_stored.2
  exact shared (exclusive _ _ ((Reaches.init 1000).run follows))

end System
end AuthHttpsig.Cache
