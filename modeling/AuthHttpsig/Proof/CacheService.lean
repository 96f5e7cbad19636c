/-
This file shows how long the key-directory cache serves what a store or a release left for a host,
and which operations a stranded claim still blocks.
-/

import AuthHttpsig.Library.Machine
import AuthHttpsig.Proof.RotationRate

namespace AuthHttpsig.Cache

open SearchTree KeyTree
open Limiter (oneNode)

variable {rb : Balanced Nat} {crc : Bytes → UInt32} {host : Bytes} {now : Int}

/-- An eviction may take a node that has expired and that nobody fetches. -/
def Node.SafeToEvict (node : Node) (now : Int) : Prop := node.fetching = false ∧ node.expiresAt ≤ now

instance (node : Node) (now : Int) : Decidable (node.SafeToEvict now) := inferInstanceAs (Decidable (_ ∧ _))

/-- Other hosts keep their entries or lose those that are safe to evict. -/
def Others (host : Bytes) (now : Int) (before after : Bytes → Option Node) : Prop :=
  ∀ other, other ≠ host → after other = before other ∨
    after other = none ∧ ∃ node, before other = some node ∧ node.SafeToEvict now

/-- An entry that an eviction spares is still there. -/
theorem Others.kept {before after : Bytes → Option Node} (others : Others host now before after)
    {other : Bytes} {node : Node} (different : other ≠ host) (found : before other = some node)
    (spared : ¬ node.SafeToEvict now) : after other = some node := by
  rcases others other different with same | ⟨_, victim, present, safe⟩
  · rw [same, found]
  · rw [found] at present
    cases present
    exact absurd safe spared

namespace Zone

variable {zone : Zone rb}

/-- The zone maps each host to its entry. -/
def view (crc : Bytes → UInt32) (zone : Zone rb) (host : Bytes) : Option Node :=
  (zone.find (crc host) host).map zone.heap.node

/-- The view shows the node of the host. -/
theorem view_eq_some (coherent : zone.Coherent crc) {node : Node} :
    zone.view crc host = some node ↔ ∃ address, zone.heap address = some node ∧ node.host = host := by
  rw [view, Option.map_eq_some_iff]
  constructor
  · rintro ⟨address, search, rfl⟩
    obtain ⟨node, found, named⟩ := (find_eq_some coherent host address).mp search
    rw [Heap.node_eq found]
    exact ⟨address, found, named⟩
  · rintro ⟨address, found, named⟩
    exact ⟨address, (find_eq_some coherent host address).mpr ⟨node, found, named⟩, Heap.node_eq found⟩

/-- The view shows nothing exactly when no node has the host. -/
theorem view_eq_none (coherent : zone.Coherent crc) :
    zone.view crc host = none ↔ ∀ address node, zone.heap address = some node → node.host ≠ host := by
  rw [view, Option.map_eq_none_iff, find_eq_none coherent]

/-- The new zone shows nothing. -/
theorem view_initZone (rb : Balanced Nat) (crc : Bytes → UInt32) (host : Bytes) :
    (initZone rb).view crc host = none :=
  (view_eq_none (initZone_coherent rb crc)).mpr fun _ _ found => by cases found

/-- The walk takes the first node that is safe to evict. -/
theorem findVictim_eq (zone : Zone rb) (now : Int) : zone.findVictim now =
    zone.table.addresses.find? fun address => decide ((zone.heap.node address).SafeToEvict now) := by
  unfold findVictim
  congr 1
  ext address
  rw [Bool.eq_iff_iff, decide_eq_true_iff]
  simp [Node.SafeToEvict]

/-- A node that is alone in its zone. -/
def lone (rb : Balanced Nat) (node : Node) : Zone rb where
  table := (Table.empty rb Node).insert Node.identity 0 node
  generation := 0

theorem lone_heap (rb : Balanced Nat) (node : Node) : (lone rb node).heap 0 = some node := by
  simp [lone, heap, Table.insert]

theorem lone_addresses (rb : Balanced Nat) (node : Node) (address : Nat) :
    address ∈ (lone rb node).table.addresses ↔ address = 0 := by
  have inserted := @Table.addresses_insert rb Node _ Node.identity (Table.empty rb Node) 0 node
  rw [Table.addresses_empty] at inserted
  exact inserted.mem_iff.trans List.mem_singleton

/-- Only a node that is safe to evict may get lost. -/
def Spares (zone : Zone rb) (now : Int) (lost : Option Nat) : Prop :=
  ∀ victim, lost = some victim → ∃ node, zone.heap victim = some node ∧ node.SafeToEvict now

theorem spares_none (zone : Zone rb) (now : Int) : zone.Spares now none := fun _ chosen => by cases chosen

/-- A node that makes room is safe to evict. -/
theorem evictee_spares (coherent : zone.Coherent crc) (slab : Slab Node) (host : Bytes) (now : Int) :
    zone.Spares now (zone.evictee slab host now) := by
  intro victim chosen
  unfold evictee at chosen
  split at chosen
  · cases chosen
  · rw [findVictim_eq] at chosen
    obtain ⟨node, present⟩ := Table.Coherent.exists_node coherent (List.mem_of_find?_eq_some chosen)
    have safe := List.find?_some chosen
    rw [Heap.node_eq present, decide_eq_true_eq] at safe
    exact ⟨node, present, safe⟩

/-- A host keeps its node unless it is the one that is evicted. -/
theorem view_others (coherent : zone.Coherent crc) {after : Zone rb} (coherentAfter : after.Coherent crc)
    {lost : Option Nat} (spares : zone.Spares now lost)
    (origin : ∀ address node, after.heap address = some node → node.host ≠ host →
      zone.heap address = some node)
    (survives : ∀ address node, zone.heap address = some node → node.host ≠ host →
      after.heap address = some node ∨ lost = some address) :
    Others host now (zone.view crc) (after.view crc) := by
  intro other different
  cases stays : after.view crc other with
  | some node =>
      obtain ⟨address, found, rfl⟩ := (view_eq_some coherentAfter).mp stays
      exact .inl ((view_eq_some coherent).mpr ⟨address, origin address node found different, rfl⟩).symm
  | none =>
      cases was : zone.view crc other with
      | none => exact .inl rfl
      | some node =>
          obtain ⟨address, found, rfl⟩ := (view_eq_some coherent).mp was
          rcases survives address node found different with same | chosen
          · exact absurd rfl ((view_eq_none coherentAfter).mp stays address node same)
          · obtain ⟨victim, present, safe⟩ := spares address chosen
            rw [found] at present
            cases present
            exact .inr ⟨rfl, node, rfl, safe⟩

/-- An allocation that fails changes only entries that are safe to evict. -/
theorem Allocated.view (coherent : zone.Coherent crc) {lost : Option Nat} {after : Zone rb}
    (spares : zone.Spares now lost)
    (absent : ∀ address node, zone.heap address = some node → node.host ≠ host)
    (full : Allocated crc zone host lost none after) :
    after.Coherent crc ∧ Others host now (zone.view crc) (after.view crc) ∧
      after.view crc host = none := by
  cases full with
  | full coherentAfter evicted _ =>
      refine ⟨coherentAfter, view_others coherent coherentAfter spares ?_ ?_, ?_⟩
      · intro address node found _
        exact evicted.older found
      · intro address node found _
        exact evicted.survives found
      · exact (view_eq_none coherentAfter).mpr fun address node found => absent address node (evicted.older found)

/-- The entry of the host is changed, and the others stay. -/
structure Written (crc : Bytes → UInt32) (now : Int) (host : Bytes) (changed : Node) (zone after : Zone rb) :
    Prop where
  coherent : after.Coherent crc
  here : after.view crc host = some changed
  others : Others host now (zone.view crc) (after.view crc)

/-- A write to an entry changes only this host and entries that are safe to evict. -/
theorem Entry.written (coherent : zone.Coherent crc) {lost : Option Nat} {address : Nat} {node : Node}
    {created : Zone rb} (entry : Entry crc zone host lost address node created)
    (spares : zone.Spares now lost) (changed : Node) (same : changed.identity = node.identity) (generation : Nat) :
    Written crc now host changed zone ({ created with generation := generation }.set address changed) := by
  have named : changed.host = host := Eq.trans (congrArg Prod.snd same) entry.named
  have coherentAfter : ({ created with generation := generation }.set address changed).Coherent crc :=
    set_coherent (show ({ created with generation := generation } : Zone rb).Coherent crc from entry.coherent)
      entry.found same
  have heap : ({ created with generation := generation }.set address changed).heap =
      Function.update created.heap address (some changed) := rfl
  refine ⟨coherentAfter, ?_, view_others coherent coherentAfter spares ?_ ?_⟩
  · exact (view_eq_some coherentAfter).mpr ⟨address, by rw [heap, Function.update_self], named⟩
  · intro place stored found different
    rw [heap] at found
    rcases eq_or_ne place address with rfl | elsewhere
    · rw [Function.update_self] at found
      cases found
      exact absurd named different
    · rw [Function.update_of_ne elsewhere] at found
      rcases entry.origin place stored found with older | ⟨here, _⟩
      · exact older
      · exact absurd here elsewhere
  · intro place stored found different
    have elsewhere : place ≠ address ∨ created.heap place ≠ some stored := by
      by_contra both
      simp only [not_or, not_not] at both
      obtain ⟨rfl, kept⟩ := both
      rw [entry.found] at kept
      cases kept
      exact different entry.named
    rcases entry.survives place stored found with kept | ⟨chosen, _⟩
    · left
      rw [heap, Function.update_of_ne (elsewhere.resolve_right fun gone => gone kept), kept]
    · exact .inr chosen

/-- The entry that an operation takes was there before, or the host had none and it is blank. -/
theorem Entry.before (coherent : zone.Coherent crc) {lost : Option Nat} {address : Nat} {node : Node}
    {created : Zone rb} (entry : Entry crc zone host lost address node created) :
    zone.view crc host = some node ∨ zone.view crc host = none ∧ node = newNode (crc host) host := by
  rcases entry.fresh with found | ⟨rfl, absent⟩
  · exact .inl ((view_eq_some coherent).mpr ⟨address, found, entry.named⟩)
  · exact .inr ⟨(view_eq_none coherent).mpr absent, rfl⟩

/-- A fresh entry answers every lookup, and nothing changes. -/
theorem lookup_fresh (memory : Memory) {node : Node} (found : zone.view crc host = some node)
    (fresh : now < node.expiresAt) :
    zone.lookup crc memory host now =
      (if node.jwks = [] then ⟨some .negative, [], 0⟩ else copyJwks memory .hit node, zone) := by
  obtain ⟨address, search, rfl⟩ := Option.map_eq_some_iff.mp found
  simp only [lookup, search, gt_iff_lt, fresh, if_true, List.length_pos_iff]
  by_cases empty : (zone.heap.node address).jwks = []
  · simp only [empty, ne_eq, not_true_eq_false, if_false, if_true]
  · simp only [empty, ne_eq, not_false_eq_true, if_false, if_true]

/-- A claim keeps what a lookup serves. -/
theorem lookup_view (coherent : zone.Coherent crc) {memory : Memory} {answer : Answer} {after : Zone rb}
    (run : zone.lookup crc memory host now = (answer, after)) :
    after = zone ∨ after.Coherent crc ∧ Others host now (zone.view crc) (after.view crc) ∧
      after.view crc host = none ∧ zone.view crc host = none ∨
      ∃ node, (zone.view crc host = some node ∨ zone.view crc host = none ∧ node = newNode (crc host) host) ∧
        Written crc now host { node with fetching := true, fetchingSince := now } zone after := by
  have spares := evictee_spares coherent memory.slab host now
  cases lookup_lookedUp coherent run with
  | refused | copied => exact .inl rfl
  | unavailable absent full =>
      obtain ⟨coherentAfter, others, none⟩ := full.view coherent spares absent
      exact .inr (.inl ⟨coherentAfter, others, none, (view_eq_none coherent).mpr absent⟩)
  | @claimed _ node created entry _ =>
      exact .inr (.inr ⟨node, entry.before coherent, entry.written coherent spares _ (by rfl) created.generation⟩)

/-- A rotation claim changes nothing or marks the entry of its host. -/
theorem claimRotationRefetch_view (coherent : zone.Coherent crc) {retryTtl : Int} {taken : Bool}
    {after : Zone rb} (run : zone.claimRotationRefetch crc host now retryTtl = (taken, after)) :
    after = zone ∨ ∃ node, zone.view crc host = some node ∧
      Written crc now host { node with fetching := true, fetchingSince := now, forcedRefetchAt := now }
        zone after := by
  cases claimRotationRefetch_rotated coherent run with
  | declined => exact .inl rfl
  | @claimed _ node found named _ _ =>
      have entry := Entry.ofFound coherent found named none
      exact .inr ⟨node, (view_eq_some coherent).mpr ⟨_, found, named⟩,
        entry.written coherent (spares_none zone now) _ (by rfl) zone.generation⟩

/-- A release changes nothing or backs the entry of its host off. -/
theorem release_view (coherent : zone.Coherent crc) (host : Bytes) (now retryAt : Int) :
    zone.release crc host retryAt = zone ∧ zone.view crc host = none ∨
      ∃ node, zone.view crc host = some node ∧
        Written crc now host { node with fetching := false, expiresAt := retryAt } zone
          (zone.release crc host retryAt) := by
  cases search : zone.find (crc host) host with
  | none =>
      left
      simp only [release, view, search, Option.map_none, and_self]
  | some address =>
      right
      obtain ⟨node, found, named⟩ := (find_eq_some coherent host address).mp search
      have entry := Entry.ofFound coherent found named none
      refine ⟨node, (view_eq_some coherent).mpr ⟨_, found, named⟩, ?_⟩
      simp only [release, search, Heap.node_eq found]
      exact entry.written coherent (spares_none zone now) _ (by rfl) zone.generation

/-- This is the entry that a store leaves for the host. -/
def storedNode (memory : Memory) (node : Node) (jwks : Bytes) (expiresAt retryAt : Int) (generation : Nat) :
    Node :=
  if memory.dataRoom then
    { node with jwks := jwks, expiresAt := expiresAt, fetching := false, generation := generation }
  else { node with fetching := false, expiresAt := retryAt }

/-- A store writes the new document or only backs off. -/
theorem storeAt_written (coherent : zone.Coherent crc) {lost : Option Nat} {address : Nat} {node : Node}
    {created : Zone rb} (entry : Entry crc zone host lost address node created)
    (spares : zone.Spares now lost) (memory : Memory) (jwks : Bytes) (expiresAt retryAt : Int) :
    Written crc now host
      (storedNode memory node jwks expiresAt retryAt ((zone.generation + 1) % 2 ^ 64)) zone
      (created.storeAt memory address jwks expiresAt retryAt).2 := by
  unfold storeAt storedNode
  simp only [Heap.node_eq entry.found, entry.counter]
  split
  · exact entry.written coherent spares _ (by rfl) _
  · exact entry.written coherent spares _ (by rfl) created.generation

/-- A store without room shows no entry, and any other store writes the entry of its host. -/
theorem store_view (coherent : zone.Coherent crc) (memory : Memory) (host jwks : Bytes)
    (expiresAt retryTtl clock : Int) {after : Zone rb}
    (run : (zone.store crc memory host jwks expiresAt retryTtl clock).2 = after) :
    after.Coherent crc ∧ Others host clock (zone.view crc) (after.view crc) ∧
      after.view crc host = none ∧ zone.view crc host = none ∨
      ∃ node, (zone.view crc host = some node ∨ zone.view crc host = none ∧ node = newNode (crc host) host) ∧
        Written crc clock host
          (storedNode memory node jwks expiresAt (clock + retryTtl) ((zone.generation + 1) % 2 ^ 64))
          zone after := by
  subst run
  have spares := evictee_spares coherent memory.slab host clock
  unfold store
  cases search : zone.find (crc host) host with
  | some address =>
      obtain ⟨node, found, named⟩ := (find_eq_some coherent host address).mp search
      have entry := Entry.ofFound coherent found named none
      exact .inr ⟨node, entry.before coherent, storeAt_written coherent entry (spares_none zone clock) ..⟩
  | none =>
      have absent := (find_eq_none coherent host).mp search
      simp only
      split
      · rename_i full failed
        obtain ⟨coherentAfter, others, none⟩ :=
          (allocNode_allocated coherent absent failed).view coherent spares absent
        exact .inl ⟨coherentAfter, others, none, (view_eq_none coherent).mpr absent⟩
      · rename_i address created made
        have entry := Entry.ofAllocated absent (allocNode_allocated coherent absent made)
        exact .inr ⟨_, entry.before coherent, storeAt_written coherent entry spares ..⟩

end Zone

/-- An entry has a document when a store has filled it. -/
def Node.document (node : Node) : Option Bytes := if node.jwks = [] then none else some node.jwks

/-- The zone stands beside the last expiry that a store or a release set for each host, and beside the
last document that was stored in the present entry of each host. -/
structure Ledger (rb : Balanced Nat) where
  zone : Zone rb
  now : Int
  expiry : Bytes → Option Int
  document : Bytes → Option Bytes

namespace Ledger

def init (rb : Balanced Nat) (now : Int) : Ledger rb := ⟨Zone.initZone rb, now, fun _ => none, fun _ => none⟩

/-- The documents of evicted entries are gone. -/
def moved (crc : Bytes → UInt32) (ledger : Ledger rb) (after : Zone rb) : Ledger rb :=
  { ledger with
    zone := after
    document := fun host => if (after.view crc host).isSome then ledger.document host else none }

/-- A document is forgotten with its entry. -/
theorem moved_document (crc : Bytes → UInt32) (ledger : Ledger rb) (after : Zone rb) (host : Bytes) :
    (ledger.moved crc after).document host =
      if (after.view crc host).isSome then ledger.document host else none := rfl

/-- The host has an entry, and its expiry is set. -/
def expires (crc : Bytes → UInt32) (ledger : Ledger rb) (host : Bytes) (expiresAt : Int) : Ledger rb :=
  if (ledger.zone.view crc host).isSome then
    { ledger with expiry := Function.update ledger.expiry host (some expiresAt) }
  else ledger

/-- The host has an entry, and a document is stored there. -/
def stores (crc : Bytes → UInt32) (ledger : Ledger rb) (host jwks : Bytes) : Ledger rb :=
  if (ledger.zone.view crc host).isSome then
    { ledger with document := Function.update ledger.document host (some jwks) }
  else ledger

/-- The expiry of a present entry is noted. -/
theorem expires_of_found {ledger : Ledger rb} {after : Zone rb} {node : Node} {expiresAt : Int}
    (found : after.view crc host = some node) : (ledger.moved crc after).expires crc host expiresAt =
      ⟨after, ledger.now, Function.update ledger.expiry host (some expiresAt),
        (ledger.moved crc after).document⟩ := by
  show (if (after.view crc host).isSome then _ else _) = _
  rw [found, Option.isSome_some, if_pos rfl]
  rfl

theorem expires_of_absent {ledger : Ledger rb} {after : Zone rb} {expiresAt : Int}
    (absent : after.view crc host = none) :
    (ledger.moved crc after).expires crc host expiresAt = ledger.moved crc after := by
  show (if (after.view crc host).isSome then _ else _) = _
  rw [absent]
  rfl

/-- The document of a present entry is noted. -/
theorem stores_of_found {ledger : Ledger rb} {node : Node} {jwks : Bytes}
    (found : ledger.zone.view crc host = some node) : ledger.stores crc host jwks =
      { ledger with document := Function.update ledger.document host (some jwks) } := by
  rw [stores, found, Option.isSome_some, if_pos rfl]

theorem stores_of_absent {ledger : Ledger rb} {jwks : Bytes} (absent : ledger.zone.view crc host = none) :
    ledger.stores crc host jwks = ledger := by
  rw [stores, absent]
  rfl

def step (crc : Bytes → UInt32) (ledger : Ledger rb) : Operation → Ledger rb
  | .wait later => { ledger with now := later }
  | .lookup host memory => ledger.moved crc (ledger.zone.lookup crc memory host ledger.now).2
  | .rotate host retryTtl => ledger.moved crc (ledger.zone.claimRotationRefetch crc host ledger.now retryTtl).2
  | .store host memory jwks expiresAt retryTtl =>
      let after := ledger.moved crc (ledger.zone.store crc memory host jwks expiresAt retryTtl ledger.now).2
      if memory.dataRoom then (after.expires crc host expiresAt).stores crc host jwks
      else after.expires crc host (ledger.now + retryTtl)
  | .release host retryAt => (ledger.moved crc (ledger.zone.release crc host retryAt)).expires crc host retryAt

theorem expires_zone (crc : Bytes → UInt32) (ledger : Ledger rb) (host : Bytes) (expiresAt : Int) :
    (ledger.expires crc host expiresAt).zone = ledger.zone := by
  unfold expires
  split <;> rfl

theorem stores_zone (crc : Bytes → UInt32) (ledger : Ledger rb) (host jwks : Bytes) :
    (ledger.stores crc host jwks).zone = ledger.zone := by
  unfold stores
  split <;> rfl

/-- A store of the ledger is a store of its zone. -/
theorem step_store_zone (crc : Bytes → UInt32) (ledger : Ledger rb) (host : Bytes) (memory : Memory)
    (jwks : Bytes) (expiresAt retryTtl : Int) :
    (ledger.step crc (.store host memory jwks expiresAt retryTtl)).zone =
      (ledger.zone.store crc memory host jwks expiresAt retryTtl ledger.now).2 := by
  simp only [step]
  split
  · rw [stores_zone, expires_zone]
    rfl
  · rw [expires_zone]
    rfl

/-- A release of the ledger is a release of its zone. -/
theorem step_release_zone (crc : Bytes → UInt32) (ledger : Ledger rb) (host : Bytes) (retryAt : Int) :
    (ledger.step crc (.release host retryAt)).zone = ledger.zone.release crc host retryAt :=
  expires_zone crc _ host retryAt

/-- The clock never goes back. -/
def Ordered (ledger : Ledger rb) : Operation → Prop
  | .wait later => ledger.now ≤ later
  | _ => True

instance (ledger : Ledger rb) : DecidablePred ledger.Ordered
  | .wait _ => inferInstanceAs (Decidable (_ ≤ _))
  | .lookup .. | .rotate .. | .store .. | .release .. => inferInstanceAs (Decidable True)

/-- Any workers call the operations for any hosts in any order. -/
def machine (rb : Balanced Nat) (crc : Bytes → UInt32) : Machine (Ledger rb) Operation where
  start ledger := ∃ now, ledger = init rb now
  enabled := Ordered
  step := step crc

instance (rb : Balanced Nat) (crc : Bytes → UInt32) (ledger : Ledger rb) :
    DecidablePred ((machine rb crc).enabled ledger) :=
  inferInstanceAs (DecidablePred ledger.Ordered)

/-- No stored document is empty. -/
def Filled : Operation → Prop
  | .store _ _ jwks _ _ => jwks ≠ []
  | _ => True

instance : DecidablePred Filled
  | .store .. => inferInstanceAs (Decidable (_ ≠ _))
  | .wait _ | .lookup .. | .rotate .. | .release .. => inferInstanceAs (Decidable True)

/-- The entries are what the stores and the releases left. -/
structure Honest (crc : Bytes → UInt32) (ledger : Ledger rb) : Prop where
  coherent : ledger.zone.Coherent crc
  deadline : ∀ host expiresAt, ledger.expiry host = some expiresAt → ledger.now < expiresAt →
    ∃ node, ledger.zone.view crc host = some node ∧ node.expiresAt = expiresAt
  documents : ∀ host, ledger.document host = (ledger.zone.view crc host).bind Node.document

namespace Honest

variable {ledger : Ledger rb}

/-- The ledger of a new zone is honest. -/
theorem init (rb : Balanced Nat) (crc : Bytes → UInt32) (now : Int) : Honest crc (Ledger.init rb now) where
  coherent := Zone.initZone_coherent rb crc
  deadline := nofun
  documents host := by
    show none = ((Zone.initZone rb).view crc host).bind Node.document
    rw [Zone.view_initZone, Option.bind_none]

/-- The clock may go on. -/
theorem wait (honest : ledger.Honest crc) {later : Int} (ordered : ledger.now ≤ later) :
    Honest crc { ledger with now := later } where
  coherent := honest.coherent
  deadline host expiresAt expiry alive := honest.deadline host expiresAt expiry (ordered.trans_lt alive)
  documents := honest.documents

/-- What happens at other hosts needs no further proof than that their entries stay or were safe to evict. -/
theorem change (honest : ledger.Honest crc) {after : Ledger rb} (coherent : after.zone.Coherent crc)
    (others : Others host ledger.now (ledger.zone.view crc) (after.zone.view crc))
    (clock : after.now = ledger.now)
    (expiry : ∀ other, other ≠ host → after.expiry other = ledger.expiry other)
    (document : ∀ other, other ≠ host → after.document other = (ledger.moved crc after.zone).document other)
    (deadline : ∀ expiresAt, after.expiry host = some expiresAt → ledger.now < expiresAt →
      ∃ node, after.zone.view crc host = some node ∧ node.expiresAt = expiresAt)
    (documents : after.document host = (after.zone.view crc host).bind Node.document) :
    Honest crc after where
  coherent := coherent
  deadline other expiresAt set alive := by
    rw [clock] at alive
    by_cases same : other = host
    · subst same
      exact deadline expiresAt set alive
    · rw [expiry other same] at set
      obtain ⟨node, found, rfl⟩ := honest.deadline other expiresAt set alive
      refine ⟨node, others.kept same found fun safe => ?_, rfl⟩
      have := safe.2
      omega
  documents other := by
    by_cases same : other = host
    · subst same
      exact documents
    · rw [document other same, moved_document]
      rcases others other same with kept | ⟨gone, _⟩
      · rw [kept]
        cases found : ledger.zone.view crc other with
        | none => rfl
        | some node => rw [Option.isSome_some, if_pos rfl, honest.documents, found]
      · rw [gone]
        rfl

/-- An entry that keeps its document keeps the document of its host. -/
theorem document_here (honest : ledger.Honest crc) {after : Zone rb} {node changed : Node}
    (before : ledger.zone.view crc host = some node ∨
      ledger.zone.view crc host = none ∧ node = Zone.newNode (crc host) host)
    (written : Zone.Written crc ledger.now host changed ledger.zone after) (jwks : changed.jwks = node.jwks) :
    (ledger.moved crc after).document host = (after.view crc host).bind Node.document := by
  have document : changed.document = node.document := by rw [Node.document, jwks, Node.document]
  rw [moved_document, written.here, Option.isSome_some, if_pos rfl, Option.bind_some, document,
    honest.documents]
  rcases before with present | ⟨absent, rfl⟩
  · rw [present, Option.bind_some]
  · rw [absent, Option.bind_none]
    rfl

/-- A claim keeps the expiry and the document of its entry. -/
theorem claim (honest : ledger.Honest crc) {after : Zone rb} {node changed : Node}
    (before : ledger.zone.view crc host = some node ∨
      ledger.zone.view crc host = none ∧ node = Zone.newNode (crc host) host)
    (written : Zone.Written crc ledger.now host changed ledger.zone after)
    (expiry : changed.expiresAt = node.expiresAt) (jwks : changed.jwks = node.jwks) :
    Honest crc (ledger.moved crc after) := by
  refine honest.change written.coherent written.others rfl (fun _ _ => rfl) (fun _ _ => rfl) ?_
    (honest.document_here before written jwks)
  intro expiresAt set alive
  obtain ⟨fresh, found, rfl⟩ := honest.deadline host expiresAt set alive
  rcases before with present | ⟨absent, _⟩
  · rw [present] at found
    cases found
    exact ⟨changed, written.here, expiry⟩
  · rw [absent] at found
    cases found

/-- An operation that finds no room for the host leaves it without an entry. -/
theorem full (honest : ledger.Honest crc) {after : Zone rb} (coherent : after.Coherent crc)
    (others : Others host ledger.now (ledger.zone.view crc) (after.view crc))
    (absentAfter : after.view crc host = none) (absent : ledger.zone.view crc host = none) :
    Honest crc (ledger.moved crc after) := by
  refine honest.change coherent others rfl (fun _ _ => rfl) (fun _ _ => rfl) ?_ ?_
  · intro expiresAt set alive
    obtain ⟨node, found, _⟩ := honest.deadline host expiresAt set alive
    rw [absent] at found
    cases found
  · show (if (after.view crc host).isSome then ledger.document host else none) =
      (after.view crc host).bind Node.document
    rw [absentAfter]
    rfl

theorem same (honest : ledger.Honest crc) : Honest crc (ledger.moved crc ledger.zone) where
  coherent := honest.coherent
  deadline := honest.deadline
  documents host := by
    rw [moved_document, honest.documents]
    show _ = (ledger.zone.view crc host).bind Node.document
    cases ledger.zone.view crc host <;> rfl

/-- A lookup keeps the ledger honest. -/
theorem lookup (honest : ledger.Honest crc) (host : Bytes) (memory : Memory) :
    Honest crc (ledger.step crc (.lookup host memory)) := by
  obtain ⟨answer, after, run⟩ : ∃ answer after,
      ledger.zone.lookup crc memory host ledger.now = (answer, after) := ⟨_, _, rfl⟩
  simp only [step, run]
  rcases Zone.lookup_view honest.coherent run with rfl | ⟨coherent, others, absentAfter, absent⟩ |
    ⟨node, before, written⟩
  · exact honest.same
  · exact honest.full coherent others absentAfter absent
  · exact honest.claim before written rfl rfl

/-- A rotation claim keeps the ledger honest. -/
theorem rotate (honest : ledger.Honest crc) (host : Bytes) (retryTtl : Int) :
    Honest crc (ledger.step crc (.rotate host retryTtl)) := by
  obtain ⟨taken, after, run⟩ : ∃ taken after,
      ledger.zone.claimRotationRefetch crc host ledger.now retryTtl = (taken, after) := ⟨_, _, rfl⟩
  simp only [step, run]
  rcases Zone.claimRotationRefetch_view honest.coherent run with rfl | ⟨node, found, written⟩
  · exact honest.same
  · exact honest.claim (.inl found) written rfl rfl

/-- A release or a failed store sets the expiry of its entry. -/
theorem sets (honest : ledger.Honest crc) {after : Zone rb} {node changed : Node}
    (before : ledger.zone.view crc host = some node ∨
      ledger.zone.view crc host = none ∧ node = Zone.newNode (crc host) host)
    (written : Zone.Written crc ledger.now host changed ledger.zone after) (jwks : changed.jwks = node.jwks) :
    Honest crc ((ledger.moved crc after).expires crc host changed.expiresAt) := by
  rw [expires_of_found written.here]
  refine honest.change written.coherent written.others rfl ?_ (fun _ _ => rfl) ?_
    (honest.document_here before written jwks)
  · intro other different
    exact Function.update_of_ne different ..
  · intro expiresAt set _
    have same := (Function.update_self host (some changed.expiresAt) ledger.expiry).symm.trans set
    exact ⟨changed, written.here, Option.some.inj same⟩

/-- A store fills its entry. -/
theorem fills (honest : ledger.Honest crc) {after : Zone rb} {changed : Node}
    (written : Zone.Written crc ledger.now host changed ledger.zone after) (filled : changed.jwks ≠ []) :
    Honest crc (((ledger.moved crc after).expires crc host changed.expiresAt).stores crc host changed.jwks) := by
  rw [expires_of_found written.here, stores_of_found written.here]
  refine honest.change written.coherent written.others rfl ?_ ?_ ?_ ?_
  · intro other different
    exact Function.update_of_ne different ..
  · intro other different
    exact Function.update_of_ne different ..
  · intro expiresAt set _
    have same := (Function.update_self host (some changed.expiresAt) ledger.expiry).symm.trans set
    exact ⟨changed, written.here, Option.some.inj same⟩
  · show Function.update (ledger.moved crc after).document host (some changed.jwks) host =
      (after.view crc host).bind Node.document
    rw [Function.update_self, written.here, Option.bind_some, Node.document, if_neg filled]

/-- A store of a document keeps the ledger honest. -/
theorem store (honest : ledger.Honest crc) (host : Bytes) (memory : Memory) {jwks : Bytes}
    (expiresAt retryTtl : Int) (filled : jwks ≠ []) :
    Honest crc (ledger.step crc (.store host memory jwks expiresAt retryTtl)) := by
  obtain ⟨after, run⟩ : ∃ after,
      (ledger.zone.store crc memory host jwks expiresAt retryTtl ledger.now).2 = after := ⟨_, rfl⟩
  simp only [step, run]
  rcases Zone.store_view honest.coherent memory host jwks expiresAt retryTtl ledger.now run with
    ⟨coherent, others, absentAfter, absent⟩ | ⟨node, before, written⟩
  · rw [expires_of_absent absentAfter, expires_of_absent absentAfter, stores_of_absent absentAfter, ite_self]
    exact honest.full coherent others absentAfter absent
  · unfold Zone.storedNode at written
    split at written
    · rename_i room
      have done := honest.fills written filled
      rw [if_pos room]
      exact done
    · rename_i room
      have done := honest.sets before written rfl
      rw [if_neg room]
      exact done

/-- A release keeps the ledger honest. -/
theorem release (honest : ledger.Honest crc) (host : Bytes) (retryAt : Int) :
    Honest crc (ledger.step crc (.release host retryAt)) := by
  simp only [step]
  rcases Zone.release_view honest.coherent host ledger.now retryAt with ⟨same, absent⟩ | ⟨node, found, written⟩
  · rw [same, expires_of_absent absent]
    exact honest.same
  · exact honest.sets (.inl found) written rfl

/-- Every operation keeps the ledger honest. -/
theorem step (honest : ledger.Honest crc) {next : Operation} (ordered : ledger.Ordered next)
    (filled : Filled next) : Honest crc (ledger.step crc next) := by
  cases next with
  | wait later => exact honest.wait ordered
  | lookup host memory => exact honest.lookup host memory
  | rotate host retryTtl => exact honest.rotate host retryTtl
  | store host memory jwks expiresAt retryTtl => exact honest.store host memory expiresAt retryTtl filled
  | release host retryAt => exact honest.release host retryAt

end Honest

/-- Every reachable ledger is honest. -/
theorem honest_of_reaches {ledger : Ledger rb}
    (reaches : ((machine rb crc).restrict fun _ next => Filled next).Reaches ledger) : ledger.Honest crc := by
  refine reaches.invariant ?_ ?_
  · rintro _ ⟨now, rfl⟩
    exact Honest.init rb crc now
  · intro before next honest enabled
    exact honest.step enabled.1 enabled.2

end Ledger

namespace Zone

variable {zone : Zone rb}

/-- A node that is not safe to evict keeps its address and its host. -/
def Stays (now : Int) (before after : Zone rb) : Prop :=
  ∀ address node, before.heap address = some node → ¬ node.SafeToEvict now →
    ∃ stored, after.heap address = some stored ∧ stored.host = node.host

theorem Stays.refl (now : Int) (zone : Zone rb) : Stays now zone zone :=
  fun _ node found _ => ⟨node, found, rfl⟩

/-- An entry that is still needed is not the one that is lost. -/
theorem Spares.keeps {lost : Option Nat} (spares : zone.Spares now lost) {address : Nat} {node : Node}
    (found : zone.heap address = some node) (needed : ¬ node.SafeToEvict now) : lost ≠ some address := by
  intro chosen
  obtain ⟨victim, present, safe⟩ := spares address chosen
  rw [found] at present
  cases present
  exact needed safe

/-- An allocation that fails keeps the needed entries. -/
theorem Allocated.stays {lost : Option Nat} {after : Zone rb} (spares : zone.Spares now lost)
    (full : Allocated crc zone host lost none after) : Stays now zone after := by
  cases full with
  | full _ evicted _ =>
      intro address node found needed
      have kept := (evicted.survives found).resolve_right (spares.keeps found needed)
      exact ⟨node, kept, rfl⟩

/-- A write to an entry keeps the other needed entries. -/
theorem Entry.stays {lost : Option Nat} {place : Nat} {node changed : Node} {created : Zone rb}
    (entry : Entry crc zone host lost place node created) (spares : zone.Spares now lost)
    (same : changed.host = node.host) (generation : Nat) :
    Stays now zone ({ created with generation := generation }.set place changed) := by
  intro address stored found needed
  have kept : created.heap address = some stored :=
    (entry.survives address stored found).resolve_right fun chosen => spares.keeps found needed chosen.1
  have heap : ({ created with generation := generation }.set place changed).heap =
      Function.update created.heap place (some changed) := rfl
  rw [heap]
  rcases eq_or_ne address place with rfl | elsewhere
  · rw [entry.found] at kept
    cases kept
    exact ⟨changed, Function.update_self .., same⟩
  · exact ⟨stored, by rw [Function.update_of_ne elsewhere, kept], rfl⟩

/-- A lookup keeps the needed entries. -/
theorem lookup_stays (coherent : zone.Coherent crc) {memory : Memory} {answer : Answer} {after : Zone rb}
    (run : zone.lookup crc memory host now = (answer, after)) : Stays now zone after := by
  have spares := evictee_spares coherent memory.slab host now
  cases lookup_lookedUp coherent run with
  | refused | copied => exact .refl now zone
  | unavailable _ full => exact full.stays spares
  | @claimed _ _ created entry _ => exact entry.stays spares (by rfl) created.generation

/-- A rotation claim keeps the needed entries. -/
theorem rotate_stays (coherent : zone.Coherent crc) {retryTtl : Int} {taken : Bool} {after : Zone rb}
    (run : zone.claimRotationRefetch crc host now retryTtl = (taken, after)) : Stays now zone after := by
  cases claimRotationRefetch_rotated coherent run with
  | declined => exact .refl now zone
  | claimed found named _ _ =>
      exact (Entry.ofFound coherent found named none).stays (spares_none zone now) (by rfl) zone.generation

/-- A store keeps the needed entries. -/
theorem store_stays (coherent : zone.Coherent crc) {memory : Memory} {jwks : Bytes}
    {expiresAt retryTtl : Int} {generation : Nat} {after : Zone rb}
    (run : zone.store crc memory host jwks expiresAt retryTtl now = (generation, after)) :
    Stays now zone after := by
  have spares := evictee_spares coherent memory.slab host now
  cases store_stored coherent run with
  | full _ full => exact full.stays spares
  | @noRoom _ _ created entry => exact entry.stays spares (by rfl) created.generation
  | replaced entry => exact entry.stays spares (by rfl) _

/-- A release keeps the needed entries. -/
theorem release_stays (coherent : zone.Coherent crc) (host : Bytes) (now retryAt : Int) :
    Stays now zone (zone.release crc host retryAt) := by
  have released : Released crc zone host retryAt _ := release_released coherent retryAt
  generalize zone.release crc host retryAt = after at released
  cases released with
  | absent => exact .refl now zone
  | released found named =>
      exact (Entry.ofFound coherent found named none).stays (spares_none zone now) (by rfl) zone.generation

/-- The pair of a host is the one that the view shows. -/
theorem pair_view (crc : Bytes → UInt32) (zone : Zone rb) (host : Bytes) : zone.pair crc host =
    ((zone.view crc host).map fun node => (node.jwks, node.generation)).getD ([], 0) := by
  unfold pair view
  cases zone.find (crc host) host <;> rfl

/-- A release keeps the pair. -/
theorem release_pair (coherent : zone.Coherent crc) (host : Bytes) (retryAt : Int) :
    (zone.release crc host retryAt).pair crc host = zone.pair crc host := by
  rcases release_view coherent host 0 retryAt with ⟨same, _⟩ | ⟨node, found, written⟩
  · rw [same]
  · rw [pair_view, pair_view, written.here, found]
    rfl

/-- A store that has no room for its document, or no entry for its host, changes no document. -/
theorem failed_store_pair (coherent : zone.Coherent crc) {memory : Memory} {jwks : Bytes}
    {expiresAt retryTtl clock : Int}
    (failed : memory.dataRoom = false ∨
      (zone.store crc memory host jwks expiresAt retryTtl clock).2.view crc host = none) :
    (zone.store crc memory host jwks expiresAt retryTtl clock).2.pair crc host = zone.pair crc host := by
  rcases store_view coherent memory host jwks expiresAt retryTtl clock rfl with
    ⟨_, _, absentAfter, absent⟩ | ⟨node, before, written⟩
  · rw [pair_view, pair_view, absentAfter, absent]
  · rcases failed with room | gone
    · rw [storedNode, room, if_neg (by decide)] at written
      rw [pair_view, pair_view, written.here]
      rcases before with found | ⟨absent, rfl⟩
      · rw [found]
        rfl
      · rw [absent]
        rfl
    · rw [written.here] at gone
      cases gone

end Zone

namespace Ledger

variable {ledger : Ledger rb}

/-- This is what a lookup may answer before the expiry that was set last. -/
structure Serves (ledger : Ledger rb) (host : Bytes) (memory : Memory) (answer : Answer) : Prop where
  settled : answer.status ≠ some .claimed ∧ answer.status ≠ some .busy ∧ answer.status ≠ some .unavailable
  copied : memory.poolRoom = true → answer.status ≠ none
  hit : ∀ jwks, ledger.document host = some jwks → answer.status ≠ none →
    answer.status = some .hit ∧ answer.jwks = jwks
  negative : ledger.document host = none → answer.status = some .negative

/-- An honest ledger serves the stored document until it expires. -/
theorem Honest.serves (honest : ledger.Honest crc) {expiresAt : Int}
    (set : ledger.expiry host = some expiresAt) (alive : ledger.now < expiresAt) (memory : Memory) :
    ledger.Serves host memory (ledger.zone.lookup crc memory host ledger.now).1 := by
  obtain ⟨node, found, rfl⟩ := honest.deadline host expiresAt set alive
  have document := honest.documents host
  rw [found, Option.bind_some, Node.document] at document
  rw [Zone.lookup_fresh memory found alive]
  by_cases empty : node.jwks = []
  · rw [if_pos empty] at document ⊢
    exact ⟨by simp, fun _ => by simp, fun jwks stored => by simp [document] at stored, fun _ => rfl⟩
  · rw [if_neg empty] at document ⊢
    cases room : memory.poolRoom with
    | true =>
        simp only [Zone.copyJwks, room, if_true]
        refine ⟨by simp, fun _ => by simp, ?_, fun absent => by simp [document] at absent⟩
        intro jwks stored _
        rw [document] at stored
        exact ⟨rfl, Option.some.inj stored⟩
    | false =>
        simp only [Zone.copyJwks, room]
        refine ⟨by simp, fun plenty => by simp [room] at plenty, ?_, fun absent => by simp [document] at absent⟩
        intro jwks _ answered
        exact absurd rfl answered

/-- Every operation keeps the needed entries. -/
theorem Honest.stays (honest : ledger.Honest crc) (next : Operation) :
    Zone.Stays ledger.now ledger.zone (ledger.step crc next).zone := by
  cases next with
  | wait => exact .refl ledger.now ledger.zone
  | lookup host memory => exact Zone.lookup_stays honest.coherent (Prod.eta _).symm
  | rotate host retryTtl => exact Zone.rotate_stays honest.coherent (Prod.eta _).symm
  | store host memory jwks expiresAt retryTtl =>
      have stays := Zone.store_stays honest.coherent
        (Prod.eta (ledger.zone.store crc memory host jwks expiresAt retryTtl ledger.now)).symm
      rwa [step_store_zone]
  | release host retryAt =>
      rw [step_release_zone]
      exact Zone.release_stays honest.coherent host ledger.now retryAt

/-- Until its expiry an entry is served, no operation evicts an entry that is fresh or being fetched, and
neither a release nor a failed store changes a document. -/
theorem expiry_respected (reaches : ((machine rb crc).restrict fun _ next => Filled next).Reaches ledger) :
    (∀ host expiresAt memory, ledger.expiry host = some expiresAt → ledger.now < expiresAt →
      ledger.Serves host memory (ledger.zone.lookup crc memory host ledger.now).1) ∧
    (∀ next address node, ledger.zone.heap address = some node →
      (ledger.now < node.expiresAt ∨ node.fetching = true) →
      ∃ stored, (ledger.step crc next).zone.heap address = some stored ∧ stored.host = node.host) ∧
    (∀ host retryAt, (ledger.zone.release crc host retryAt).pair crc host = ledger.zone.pair crc host) ∧
    ∀ host memory jwks expiresAt retryTtl,
      (memory.dataRoom = false ∨
        (ledger.zone.store crc memory host jwks expiresAt retryTtl ledger.now).2.view crc host = none) →
      (ledger.zone.store crc memory host jwks expiresAt retryTtl ledger.now).2.pair crc host =
        ledger.zone.pair crc host := by
  have honest := honest_of_reaches reaches
  refine ⟨?_, ?_, ?_, ?_⟩
  · intro host expiresAt memory set alive
    exact honest.serves set alive memory
  · intro next address node found needed
    refine honest.stays next address node found fun safe => ?_
    rcases needed with fresh | fetching
    · have := safe.2
      omega
    · rw [safe.1] at fetching
      cases fetching
  · intro host retryAt
    exact Zone.release_pair honest.coherent host retryAt
  · intro host memory jwks expiresAt retryTtl failed
    exact Zone.failed_store_pair honest.coherent failed

/-- The sample zone has no room for a second node and no room for a document. -/
def noRoom : Memory where
  slab := Slab.exhausted Node
  dataRoom := false
  poolRoom := true

/-- A refetch of the host fails to store its document, and the host is claimed for a rotation. -/
def backedOff : List Operation :=
  Limiter.fetched 1060 ++ [.wait 1060, .lookup (ascii "agent.test") noRoom,
    .store (ascii "agent.test") noRoom (ascii "new") 1400 60, .rotate (ascii "agent.test") 60, .wait 1100]

def backedOffLedger : Ledger (plain Nat) :=
  (machine (plain Nat) NonceStore.crc32Long).run (init (plain Nat) 1000) backedOff

theorem expiry_respected_backed_off :
    backedOffLedger.Serves (ascii "agent.test") noRoom
        (backedOffLedger.zone.lookup NonceStore.crc32Long noRoom (ascii "agent.test") backedOffLedger.now).1 ∧
      (backedOffLedger.zone.lookup NonceStore.crc32Long noRoom (ascii "agent.test") backedOffLedger.now).1 =
        ⟨some .hit, ascii "\x7b\x7d", 2⟩ := by
  have follows : ((machine (plain Nat) NonceStore.crc32Long).restrict fun _ next => Filled next).Follows
      (init (plain Nat) 1000) backedOff := by
    decide +kernel
  have reached := (Machine.Reaches.start ⟨1000, rfl⟩ :
    ((machine (plain Nat) NonceStore.crc32Long).restrict fun _ next => Filled next).Reaches _).run follows
  exact ⟨(expiry_respected reached).1 (ascii "agent.test") 1120 noRoom (by decide +kernel) (by decide +kernel),
    by decide +kernel⟩

end Ledger

/-- The walk takes the node in every zone whose other nodes are all being fetched. -/
def Node.Evictable (rb : Balanced Nat) (node : Node) (now : Int) : Prop :=
  ∀ (zone : Zone rb) (address : Nat), zone.heap address = some node → address ∈ zone.table.addresses →
    (∀ other ∈ zone.table.addresses, other ≠ address → (zone.heap.node other).fetching = true) →
      zone.findVictim now = some address

/-- The nodes that the walk takes are those that are safe to evict. -/
theorem Node.evictable_iff {node : Node} : node.Evictable rb now ↔ node.SafeToEvict now := by
  constructor
  · intro evictable
    have held := Zone.lone_heap rb node
    have chosen := evictable (Zone.lone rb node) 0 held ((Zone.lone_addresses rb node 0).mpr rfl)
      fun other present different => absurd ((Zone.lone_addresses rb node other).mp present) different
    rw [Zone.findVictim_eq] at chosen
    have safe := List.find?_some chosen
    rw [Heap.node_eq held, decide_eq_true_eq] at safe
    exact safe
  · intro safe zone address held present busy
    rw [Zone.findVictim_eq]
    cases chosen : zone.table.addresses.find? fun other => decide ((zone.heap.node other).SafeToEvict now) with
    | none =>
        have passed := List.find?_eq_none.mp chosen address present
        rw [Heap.node_eq held, decide_eq_true_eq] at passed
        exact absurd safe passed
    | some victim =>
        by_contra different
        have idle := List.find?_some chosen
        rw [decide_eq_true_eq] at idle
        have fetched := busy victim (List.mem_of_find?_eq_some chosen) fun same => different (congrArg some same)
        rw [idle.1] at fetched
        cases fetched

/-- The rate limit of forced refetches alone grants a rotation claim. -/
def Node.RateAllows (node : Node) (now retryTtl : Int) : Prop :=
  ¬ (node.forcedRefetchAt ≠ 0 ∧ now - node.forcedRefetchAt < retryTtl)

instance (node : Node) (now retryTtl : Int) : Decidable (node.RateAllows now retryTtl) :=
  inferInstanceAs (Decidable (¬ _))

namespace Ledger

variable {ledger : Ledger rb}

/-- Nobody has completed the claim of the entry within the claim timeout. -/
structure Stranded (crc : Bytes → UInt32) (ledger : Ledger rb) (host : Bytes) (node : Node) : Prop where
  entry : ledger.zone.view crc host = some node
  fetching : node.fetching = true
  old : fetchTimeout ≤ ledger.now - node.fetchingSince

/-- The claim of the entry is in the way of no operation. -/
structure Unblocked (crc : Bytes → UInt32) (ledger : Ledger rb) (host : Bytes) (node : Node) (retryTtl : Int) :
    Prop where
  lookup : node.expiresAt ≤ ledger.now → ∀ memory,
    (ledger.zone.lookup crc memory host ledger.now).1.status = some .claimed
  rotation : ledger.now < node.expiresAt →
    ((ledger.zone.claimRotationRefetch crc host ledger.now retryTtl).1 = true ↔
      node.RateAllows ledger.now retryTtl)
  eviction : node.expiresAt ≤ ledger.now → node.Evictable rb ledger.now

/-- A lookup takes over a stranded claim. -/
theorem Stranded.lookup {node : Node} (stranded : ledger.Stranded crc host node)
    (expired : node.expiresAt ≤ ledger.now) (memory : Memory) :
    (ledger.zone.lookup crc memory host ledger.now).1.status = some .claimed := by
  obtain ⟨address, search, rfl⟩ := Option.map_eq_some_iff.mp stranded.entry
  have old := stranded.old
  have notFresh : ¬ (ledger.zone.heap.node address).expiresAt > ledger.now := by omega
  have timedOut : ¬ ((ledger.zone.heap.node address).fetching = true ∧
      ledger.now - (ledger.zone.heap.node address).fetchingSince < fetchTimeout) := by omega
  simp only [Zone.lookup, search, notFresh, timedOut, if_false]

/-- A rotation claim is declined however old the claim is. -/
theorem Stranded.rotation {node : Node} (stranded : ledger.Stranded crc host node) (retryTtl : Int) :
    (ledger.zone.claimRotationRefetch crc host ledger.now retryTtl).1 = false := by
  obtain ⟨address, search, rfl⟩ := Option.map_eq_some_iff.mp stranded.entry
  simp only [Zone.claimRotationRefetch, search, stranded.fetching, if_true]

/-- A rotation claim of a fresh entry is never completed. -/
def crashed : List Operation :=
  [.lookup (ascii "agent.test") oneNode, .store (ascii "agent.test") oneNode (ascii "\x7b\x7d") 5000 60,
    .rotate (ascii "agent.test") 60, .wait 1040]

def crashedLedger : Ledger (plain Nat) :=
  (machine (plain Nat) NonceStore.crc32Long).run (init (plain Nat) 1000) crashed

def crashedNode : Node where
  hash := NonceStore.crc32Long (ascii "agent.test")
  host := ascii "agent.test"
  jwks := ascii "\x7b\x7d"
  expiresAt := 5000
  fetchingSince := 1000
  forcedRefetchAt := 1000
  generation := 1
  fetching := true

theorem crashed_stranded : crashedLedger.Stranded NonceStore.crc32Long (ascii "agent.test") crashedNode where
  entry := by decide +kernel
  fetching := rfl
  old := by decide +kernel

end Ledger
end AuthHttpsig.Cache
