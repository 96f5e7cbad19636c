/-
This file shows that the generations tie the parsed keys of each worker to the documents of the shared
cache, in every interleaving of the workers.
-/

import AuthHttpsig.Construction.Directory
import AuthHttpsig.Construction.Evaluate
import AuthHttpsig.Construction.NonceStore
import AuthHttpsig.Proof.CacheSteps

namespace AuthHttpsig.KeysCache

variable {κ : Type}

/-- This is everything that a search for parsed keys can do. -/
inductive Got (cache : Cache κ) (host : Bytes) (generation : Nat) : Option κ → Cache κ → Prop
  | missed : Got cache host generation none cache
  | hit {index slot} (found : cache.slots index = some slot) (named : slot.host = host)
      (current : slot.generation = generation) (assigned : generation ≠ 0) :
      Got cache host generation (some slot.keys) (touch cache index slot)

/-- A worker's lookup answers with the keys of that host and generation or with none. -/
theorem get_got (cache : Cache κ) (host : Bytes) (generation : Nat) :
    Got cache host generation (get cache host generation).1 (get cache host generation).2 := by
  unfold get
  split
  · exact .missed
  rename_i assigned
  split
  · exact .missed
  rename_i index search
  split
  · exact .missed
  rename_i slot found
  have named := List.find?_some search
  simp only [found, Option.any_some, beq_iff_eq] at named
  split
  · exact .missed
  · rename_i current
    exact .hit found named (not_not.mp current) assigned

/-- This is everything that adding a parsed document can do. -/
inductive Filled (load : Bytes → Option κ) (cache : Cache κ) (host jwks : Bytes) (generation : Nat) :
    Option κ → Cache κ → Prop
  | failed : Filled load cache host jwks generation none cache
  | filled {keys} (index : Fin maxEntries) (parsed : load jwks = some keys) :
      Filled load cache host jwks generation (some keys) (touch cache index ⟨host, generation, keys, 0⟩)

/-- A put fails and changes nothing, or files the parsed keys under its host and generation. -/
theorem put_filled (load : Bytes → Option κ) (poolRoom : Bool) (cache : Cache κ) (host jwks : Bytes)
    (generation : Nat) : Filled load cache host jwks generation
      (put load poolRoom cache host jwks generation).1 (put load poolRoom cache host jwks generation).2 := by
  unfold put
  split
  · exact .failed
  split
  · exact .failed
  · rename_i keys parsed
    exact .filled _ parsed

/-- Every used slot meets the condition. -/
def Cache.Each (holds : Bytes → Nat → κ → Prop) (cache : Cache κ) : Prop :=
  ∀ index slot, cache.slots index = some slot → holds slot.host slot.generation slot.keys

/-- A property of every entry is kept when one entry that has it is written. -/
theorem Cache.Each.touch {holds : Bytes → Nat → κ → Prop} {cache : Cache κ} (each : cache.Each holds)
    (index : Fin maxEntries) {slot : Slot κ} (met : holds slot.host slot.generation slot.keys) :
    (KeysCache.touch cache index slot).Each holds := by
  intro other entry found
  simp only [KeysCache.touch, Function.update_apply] at found
  split at found
  · cases found
    exact met
  · exact each other entry found

end AuthHttpsig.KeysCache

namespace AuthHttpsig.Directory

open SearchTree KeyTree Cache

/-- A successful store gave this document of the host this generation. -/
structure Record where
  host : Bytes
  generation : Nat
  jwks : Bytes
  deriving DecidableEq

def Record.ofCtx (ctx : Ctx) : Record := ⟨ctx.directoryHost, ctx.directoryGeneration, ctx.jwks⟩

def Record.ofNode (node : Node) : Record := ⟨node.host, node.generation, node.jwks⟩

/-- The workers share one zone, and each of them has its own parsed keys. The records are the successful
stores, the newest first, and the calls count every store. -/
structure World (rb : Balanced Nat) (κ : Type) where
  zone : Zone rb
  localKeys : Nat → Option (KeysCache.Cache κ)
  requests : Nat → Ctx
  records : List Record
  calls : Nat

/-- Each move is one call of one worker for one request. -/
inductive Move where
  | spawn (worker : Nat) (poolRoom : Bool)
  | enter (request : Nat)
  | lookup (request : Nat) (host : Bytes) (memory : Memory) (now : Int)
  | rotate (host : Bytes) (now retryTtl : Int)
  | store (request : Nat) (jwks : Bytes) (memory : Memory) (expiresAt retryTtl clock : Int)
  | release (host : Bytes) (retryAt : Int)
  | resolve (worker request : Nat) (room : Room)

variable {rb : Balanced Nat} {κ : Type}

namespace World

def init (rb : Balanced Nat) (κ : Type) : World rb κ where
  zone := Zone.initZone rb
  localKeys _ := none
  requests _ := Ctx.zero
  records := []
  calls := 0

def lookup (crc : Bytes → UInt32) (world : World rb κ) (request : Nat) (host : Bytes) (memory : Memory)
    (now : Int) : World rb κ :=
  let out := world.zone.lookup crc memory host now
  { world with
    zone := out.2
    requests := Function.update world.requests request ((world.requests request).noteLookup host out.1) }

def store (crc : Bytes → UInt32) (world : World rb κ) (request : Nat) (jwks : Bytes) (memory : Memory)
    (expiresAt retryTtl clock : Int) : World rb κ :=
  let ctx := world.requests request
  let out := world.zone.store crc memory ctx.directoryHost jwks expiresAt retryTtl clock
  { world with
    zone := out.2
    requests := Function.update world.requests request (ctx.noteStore jwks out.1)
    records := if out.1 = 0 then world.records else ⟨ctx.directoryHost, out.1, jwks⟩ :: world.records
    calls := world.calls + 1 }

def resolve (load : Bytes → Option κ) (world : World rb κ) (worker request : Nat) (room : Room) :
    World rb κ :=
  let out := resolveKeys load room (world.localKeys worker) (world.requests request)
  { world with localKeys := Function.update world.localKeys worker out.2 }

def move (crc : Bytes → UInt32) (load : Bytes → Option κ) (world : World rb κ) : Move → World rb κ
  | .spawn worker poolRoom =>
      let created := if poolRoom then some KeysCache.create else none
      { world with localKeys := Function.update world.localKeys worker created }
  | .enter request => { world with requests := Function.update world.requests request Ctx.zero }
  | .lookup request host memory now => world.lookup crc request host memory now
  | .rotate host now retryTtl =>
      { world with zone := (world.zone.claimRotationRefetch crc host now retryTtl).2 }
  | .store request jwks memory expiresAt retryTtl clock =>
      world.store crc request jwks memory expiresAt retryTtl clock
  | .release host retryAt => { world with zone := world.zone.release crc host retryAt }
  | .resolve worker request room => world.resolve load worker request room

/-- The moves of any workers come in any order. -/
def run (crc : Bytes → UInt32) (load : Bytes → Option κ) (world : World rb κ) (moves : List Move) :
    World rb κ :=
  moves.foldl (move crc load) world

end World

/-- A node was never stored, or it holds the document of a record. -/
def Recorded (records : List Record) (heap : Heap Node) : Prop :=
  ∀ address node, heap address = some node → node.generation ≠ 0 → Record.ofNode node ∈ records

namespace Recorded

variable {records : List Record} {heap : Heap Node} {address : Nat} {node : Node}

/-- An eviction keeps the heap recorded. -/
theorem evicted {lost : Option Nat} {after : Heap Node} (recorded : Recorded records heap)
    (evicted : Zone.Evicted lost heap after) :
    Recorded records after :=
  fun address node found assigned => recorded address node (evicted.older found) assigned

/-- A changed node whose document is on record keeps the heap recorded. -/
theorem update (recorded : Recorded records heap) {changed : Node}
    (documented : changed.generation ≠ 0 → Record.ofNode changed ∈ records) :
    Recorded records (Function.update heap address (some changed)) := by
  intro other node found assigned
  rw [Function.update_apply] at found
  split at found
  · cases found
    exact documented assigned
  · exact recorded other node found assigned

/-- A node may change in everything but its record. -/
theorem refresh (recorded : Recorded records heap) (found : heap address = some node) {changed : Node}
    (same : Record.ofNode changed = Record.ofNode node) :
    Recorded records (Function.update heap address (some changed)) := by
  refine recorded.update fun assigned => ?_
  have current : changed.generation = node.generation := congrArg Record.generation same
  rw [same]
  exact recorded address node found (current ▸ assigned)

/-- A longer record still covers the heap. -/
theorem mono (recorded : Recorded records heap) (record : Record) : Recorded (record :: records) heap :=
  fun address node found assigned => List.mem_cons_of_mem _ (recorded address node found assigned)

/-- A fresh node carries no document, so the heap stays recorded. -/
theorem entry {crc : Bytes → UInt32} {zone created : Zone rb} {host : Bytes} {lost : Option Nat}
    (recorded : Recorded records zone.heap) (entry : Zone.Entry crc zone host lost address node created) :
    Recorded records created.heap := by
  intro other stored found assigned
  rcases entry.origin other stored found with older | ⟨_, rfl⟩
  · exact recorded other stored older assigned
  · exact absurd rfl assigned

end Recorded

/-- The records explain the nodes of the zone, and its counter is ahead of them. -/
structure Documented (crc : Bytes → UInt32) (records : List Record) (calls : Nat) (zone : Zone rb) : Prop where
  coherent : zone.Coherent crc
  nodes : Recorded records zone.heap
  assigned : ∀ record ∈ records, record.generation ≤ zone.generation
  counted : zone.generation ≤ calls

namespace Documented

variable {crc : Bytes → UInt32} {records : List Record} {calls : Nat} {zone : Zone rb} {host : Bytes}

/-- A fresh zone is documented by the empty record. -/
theorem init (rb : Balanced Nat) (crc : Bytes → UInt32) : Documented crc [] 0 (Zone.initZone rb) where
  coherent := Zone.initZone_coherent rb crc
  nodes := nofun
  assigned := nofun
  counted := le_refl 0

/-- A change that keeps the counter keeps the documentation. -/
theorem keep (documented : Documented crc records calls zone) {after : Zone rb} (coherent : after.Coherent crc)
    (counter : after.generation = zone.generation) (nodes : Recorded records after.heap) :
    Documented crc records calls after where
  coherent := coherent
  nodes := nodes
  assigned record present := counter ▸ documented.assigned record present
  counted := counter ▸ documented.counted

/-- A failed allocation keeps the documentation. -/
theorem full (documented : Documented crc records calls zone) {lost : Option Nat} {after : Zone rb}
    (full : Zone.Allocated crc zone host lost none after) : Documented crc records calls after := by
  cases full with
  | full coherent evicted counter => exact documented.keep coherent counter (documented.nodes.evicted evicted)

/-- A lookup keeps the documentation. -/
theorem lookup (documented : Documented crc records calls zone) (memory : Memory) (now : Int) :
    Documented crc records calls (zone.lookup crc memory host now).2 := by
  obtain ⟨answer, after, run⟩ : ∃ answer after, zone.lookup crc memory host now = (answer, after) :=
    ⟨_, _, rfl⟩
  rw [run]
  cases Zone.lookup_lookedUp documented.coherent run with
  | refused | copied => exact documented
  | unavailable _ full => exact documented.full full
  | claimed entry _ =>
      exact documented.keep (Zone.set_coherent entry.coherent entry.found rfl) entry.counter
        ((documented.nodes.entry entry).refresh entry.found rfl)

/-- A rotation claim keeps the documentation. -/
theorem rotate (documented : Documented crc records calls zone) (now retryTtl : Int) :
    Documented crc records calls (zone.claimRotationRefetch crc host now retryTtl).2 := by
  obtain ⟨taken, after, run⟩ : ∃ taken after,
      zone.claimRotationRefetch crc host now retryTtl = (taken, after) := ⟨_, _, rfl⟩
  rw [run]
  cases Zone.claimRotationRefetch_rotated documented.coherent run with
  | declined => exact documented
  | claimed found =>
      exact documented.keep (Zone.set_coherent documented.coherent found rfl) rfl
        (documented.nodes.refresh found rfl)

/-- A release keeps the documentation. -/
theorem release (documented : Documented crc records calls zone) (retryAt : Int) :
    Documented crc records calls (zone.release crc host retryAt) := by
  have released : Zone.Released crc zone host retryAt _ := Zone.release_released documented.coherent retryAt
  generalize zone.release crc host retryAt = after at released
  cases released with
  | absent => exact documented
  | released found _ =>
      exact documented.keep (Zone.set_coherent documented.coherent found rfl) rfl
        (documented.nodes.refresh found rfl)

/-- One more call only widens the bound on the counter. -/
theorem called (documented : Documented crc records calls zone) : Documented crc records (calls + 1) zone :=
  { documented with counted := documented.counted.trans (Nat.le_succ calls) }

/-- A store fails, or it records its document under the next generation. -/
theorem store (documented : Documented crc records calls zone) {memory : Memory} {jwks : Bytes}
    {expiresAt retryTtl clock : Int} {generation : Nat} {after : Zone rb} (few : calls + 1 < 2 ^ 64)
    (run : zone.store crc memory host jwks expiresAt retryTtl clock = (generation, after)) :
    generation = 0 ∧ Documented crc records (calls + 1) after ∨
      generation = zone.generation + 1 ∧
        Documented crc (⟨host, generation, jwks⟩ :: records) (calls + 1) after := by
  cases Zone.store_stored documented.coherent run with
  | full _ full => exact .inl ⟨rfl, (documented.full full).called⟩
  | noRoom entry =>
      refine .inl ⟨rfl, called (documented.keep (Zone.set_coherent entry.coherent entry.found ?_) entry.counter
        ((documented.nodes.entry entry).refresh entry.found ?_))⟩
      · rfl
      · rfl
  | replaced entry =>
      have counted := documented.counted
      have next : (zone.generation + 1) % 2 ^ 64 = zone.generation + 1 := Nat.mod_eq_of_lt (by omega)
      rw [next]
      refine .inr ⟨rfl, Zone.set_coherent entry.coherent entry.found rfl, ?_, ?_, Nat.succ_le_succ counted⟩
      · refine ((documented.nodes.entry entry).mono _).update fun _ => ?_
        rw [← entry.named]
        exact List.mem_cons_self
      · intro record present
        rcases List.mem_cons.mp present with rfl | older
        · exact le_refl _
        · exact (documented.assigned record older).trans (Nat.le_succ _)

/-- The copied document of a lookup is recorded. -/
theorem lookup_recorded (documented : Documented crc records calls zone) {memory : Memory} {now : Int}
    {answer : Answer} {after : Zone rb} (run : zone.lookup crc memory host now = (answer, after))
    (assigned : answer.generation ≠ 0) :
    (⟨host, answer.generation, answer.jwks⟩ : Record) ∈ records ∧
      ∀ ctx : Ctx, (ctx.noteLookup host answer).jwks = answer.jwks := by
  cases Zone.lookup_lookedUp documented.coherent run with
  | refused _ _ unknown => exact absurd unknown assigned
  | unavailable | claimed => exact absurd rfl assigned
  | copied served found named filled jwks generation =>
      rw [generation] at assigned
      refine ⟨?_, ?_⟩
      · rw [← named, jwks, generation]
        exact documented.nodes _ _ found assigned
      · intro ctx
        have present : answer.jwks.length > 0 := by
          rw [jwks]
          exact List.length_pos_iff.mpr filled
        rcases served with hit | busy
        · simp only [Ctx.noteLookup, hit]
        · simp only [Ctx.noteLookup, busy, if_pos present]

end Documented

/-- The parsed keys of a slot come from a recorded document. -/
def Parsed (load : Bytes → Option κ) (records : List Record) (host : Bytes) (generation : Nat) (keys : κ) :
    Prop :=
  ∃ jwks, (⟨host, generation, jwks⟩ : Record) ∈ records ∧ load jwks = some keys

/-- No two records share a generation. -/
def Distinct (records : List Record) : Prop :=
  records.Pairwise fun newer older => older.generation < newer.generation

/-- Two records of one generation are the same record. -/
theorem Distinct.unique {records : List Record} (distinct : Distinct records) {record other : Record}
    (present : record ∈ records) (alsoPresent : other ∈ records)
    (same : record.generation = other.generation) : record = other := by
  have apart : records.Pairwise fun first second => first.generation ≠ second.generation :=
    distinct.imp fun older => Nat.ne_of_gt older
  have : Std.Symm fun first second : Record => first.generation ≠ second.generation := ⟨fun _ _ => Ne.symm⟩
  by_contra different
  exact apart.forall present alsoPresent different same

section Resolve

variable {load : Bytes → Option κ} {room : Room} {records : List Record} {ctx : Ctx}

/-- Keys that were loaded are those the document loads to. -/
theorem loadJwks_eq_some {jwks : Bytes} {keys : κ} (loaded : loadJwks load room jwks = some keys) :
    load jwks = some keys := by
  unfold loadJwks at loaded
  split at loaded
  · exact loaded
  · cases loaded

/-- The resolved keys are the keys of the document of the request, and the slots stay parsed. -/
theorem resolveKeys_parsed {localKeys : Option (KeysCache.Cache κ)} (distinct : Distinct records)
    (recorded : ctx.directoryGeneration ≠ 0 → Record.ofCtx ctx ∈ records)
    (parsed : ∀ cache, localKeys = some cache → cache.Each (Parsed load records)) :
    (∀ keys, (resolveKeys load room localKeys ctx).1 = some keys → load ctx.jwks = some keys) ∧
      ∀ cache, (resolveKeys load room localKeys ctx).2 = some cache → cache.Each (Parsed load records) := by
  unfold resolveKeys
  split
  · exact ⟨nofun, parsed⟩
  split
  · exact ⟨fun keys => loadJwks_eq_some, nofun⟩
  rename_i cache
  have each := parsed cache rfl
  split
  · exact ⟨fun keys => loadJwks_eq_some, parsed⟩
  rename_i assigned
  have got := KeysCache.get_got cache ctx.directoryHost ctx.directoryGeneration
  generalize KeysCache.get cache ctx.directoryHost ctx.directoryGeneration = out at got
  obtain ⟨answer, after⟩ := out
  cases got with
  | hit found named current _ =>
      have met := each _ _ found
      refine ⟨?_, ?_⟩
      · rintro _ ⟨⟩
        obtain ⟨jwks, present, loaded⟩ := met
        rw [named, current] at present
        have same : jwks = ctx.jwks :=
          congrArg Record.jwks (distinct.unique present (recorded assigned) rfl)
        rw [← same, loaded]
      · rintro _ ⟨⟩
        exact each.touch _ met
  | missed =>
      dsimp only
      have filled := KeysCache.put_filled load room.entryPool after ctx.directoryHost ctx.jwks
        ctx.directoryGeneration
      generalize KeysCache.put load room.entryPool after ctx.directoryHost ctx.jwks
        ctx.directoryGeneration = out at filled
      obtain ⟨answer, unfilled⟩ := out
      cases filled with
      | failed => exact ⟨fun keys => loadJwks_eq_some, parsed⟩
      | filled index loaded =>
          refine ⟨?_, ?_⟩
          · rintro _ ⟨⟩
            exact loaded
          · rintro _ ⟨⟩
            exact each.touch index ⟨ctx.jwks, recorded assigned, loaded⟩

end Resolve

/-- Parsed keys stay parsed when the record grows. -/
theorem Parsed.mono {load : Bytes → Option κ} {records : List Record} {host : Bytes} {generation : Nat}
    {keys : κ} (parsed : Parsed load records host generation keys) (record : Record) :
    Parsed load (record :: records) host generation keys := by
  obtain ⟨jwks, present, loaded⟩ := parsed
  exact ⟨jwks, List.mem_cons_of_mem _ present, loaded⟩

namespace World

variable {crc : Bytes → UInt32} {load : Bytes → Option κ} {world : World rb κ}

/-- A run never lowers the number of calls. -/
theorem calls_le_run (crc : Bytes → UInt32) (load : Bytes → Option κ) (world : World rb κ) (moves : List Move) :
    world.calls ≤ (world.run crc load moves).calls := by
  induction moves generalizing world with
  | nil => exact le_refl _
  | cons next rest ih =>
      refine le_trans ?_ (ih (world.move crc load next))
      cases next with
      | store => exact Nat.le_succ _
      | _ => exact le_refl _

/-- The records explain the zone, the slots of each worker and each request. -/
structure Traced (crc : Bytes → UInt32) (load : Bytes → Option κ) (world : World rb κ) : Prop where
  zone : Documented crc world.records world.calls world.zone
  distinct : Distinct world.records
  slots : ∀ worker cache, world.localKeys worker = some cache → cache.Each (Parsed load world.records)
  requests : ∀ request, (world.requests request).directoryGeneration ≠ 0 →
    Record.ofCtx (world.requests request) ∈ world.records

namespace Traced

/-- The traces hold before any move. -/
theorem init (rb : Balanced Nat) (crc : Bytes → UInt32) (load : Bytes → Option κ) :
    Traced crc load (World.init rb κ) where
  zone := Documented.init rb crc
  distinct := .nil
  slots := nofun
  requests _ assigned := absurd rfl assigned

/-- Changing one worker's cache keeps the traces, if its entries were parsed. -/
theorem setKeys (traced : Traced crc load world) (worker : Nat) {keys : Option (KeysCache.Cache κ)}
    (parsed : ∀ cache, keys = some cache → cache.Each (Parsed load world.records)) :
    Traced crc load { world with localKeys := Function.update world.localKeys worker keys } where
  zone := traced.zone
  distinct := traced.distinct
  slots other cache held := by
    simp only [Function.update_apply] at held
    split at held
    · exact parsed cache held
    · exact traced.slots other cache held
  requests := traced.requests

/-- A request changes to a recorded one, and the zone changes to a documented one. -/
theorem setRequest (traced : Traced crc load world) (request : Nat) {ctx : Ctx} {after : Zone rb}
    (zone : Documented crc world.records world.calls after)
    (recorded : ctx.directoryGeneration ≠ 0 → Record.ofCtx ctx ∈ world.records) :
    Traced crc load { world with zone := after, requests := Function.update world.requests request ctx } where
  zone := zone
  distinct := traced.distinct
  slots := traced.slots
  requests other assigned := by
    simp only [Function.update_apply] at assigned ⊢
    split at assigned
    · rw [if_pos ‹_›]
      exact recorded assigned
    · rw [if_neg ‹_›]
      exact traced.requests other assigned

/-- Changing the zone alone keeps the traces. -/
theorem setZone (traced : Traced crc load world) {after : Zone rb}
    (zone : Documented crc world.records world.calls after) : Traced crc load { world with zone := after } :=
  { traced with zone := zone }

/-- A store under the next generation extends the record. -/
theorem record (traced : Traced crc load world) {record : Record} {after : Zone rb}
    (next : record.generation = world.zone.generation + 1)
    (zone : Documented crc (record :: world.records) (world.calls + 1) after) :
    Traced crc load
      { world with zone := after, records := record :: world.records, calls := world.calls + 1 } where
  zone := zone
  distinct := by
    refine .cons ?_ traced.distinct
    intro older present
    rw [next]
    exact Nat.lt_succ_of_le (traced.zone.assigned older present)
  slots worker cache held index slot found := (traced.slots worker cache held index slot found).mono record
  requests request assigned := List.mem_cons_of_mem _ (traced.requests request assigned)

/-- A lookup by a request keeps the traces. -/
theorem lookup (traced : Traced crc load world) (request : Nat) (host : Bytes) (memory : Memory) (now : Int) :
    Traced crc load (world.lookup crc request host memory now) := by
  refine traced.setRequest request (traced.zone.lookup memory now) ?_
  intro assigned
  have known := traced.zone.lookup_recorded (Prod.eta (world.zone.lookup crc memory host now)).symm assigned
  rw [Record.ofCtx, known.2]
  exact known.1

/-- A store by a request keeps the traces. -/
theorem store (traced : Traced crc load world) (request : Nat) (jwks : Bytes) (memory : Memory)
    (expiresAt retryTtl clock : Int) (few : world.calls + 1 < 2 ^ 64) :
    Traced crc load (world.store crc request jwks memory expiresAt retryTtl clock) := by
  obtain ⟨generation, after, run⟩ : ∃ generation after, world.zone.store crc memory
      (world.requests request).directoryHost jwks expiresAt retryTtl clock = (generation, after) := ⟨_, _, rfl⟩
  simp only [World.store, run]
  rcases traced.zone.store few run with ⟨rfl, zone⟩ | ⟨next, zone⟩
  · rw [if_pos rfl]
    have called : Traced crc load { world with calls := world.calls + 1 } :=
      { traced with zone := traced.zone.called }
    exact called.setRequest request zone fun assigned => absurd rfl assigned
  · have assigned : generation ≠ 0 := by omega
    rw [if_neg assigned]
    refine (traced.record next zone).setRequest request zone ?_
    intro _
    exact List.mem_cons_self

/-- Resolving the keys of a request keeps the traces. -/
theorem resolve (traced : Traced crc load world) (worker request : Nat) (room : Room) :
    Traced crc load (world.resolve load worker request room) :=
  traced.setKeys worker
    (resolveKeys_parsed traced.distinct (traced.requests request) (traced.slots worker)).2

/-- A resolved key set is the key set of the document of the request. -/
theorem resolved (traced : Traced crc load world) (worker request : Nat) (room : Room) (keys : κ)
    (found : (resolveKeys load room (world.localKeys worker) (world.requests request)).1 = some keys) :
    load (world.requests request).jwks = some keys :=
  (resolveKeys_parsed traced.distinct (traced.requests request) (traced.slots worker)).1 keys found

/-- Every move keeps the traces. -/
theorem move (traced : Traced crc load world) (next : Move) (few : (world.move crc load next).calls < 2 ^ 64) :
    Traced crc load (world.move crc load next) := by
  cases next with
  | spawn worker poolRoom =>
      refine traced.setKeys worker ?_
      intro cache created
      split at created
      · cases created
        exact fun _ _ used => nomatch used
      · cases created
  | enter request =>
      exact traced.setRequest request traced.zone fun assigned => absurd rfl assigned
  | lookup request host memory now => exact traced.lookup request host memory now
  | rotate host now retryTtl => exact traced.setZone (traced.zone.rotate now retryTtl)
  | store request jwks memory expiresAt retryTtl clock =>
      exact traced.store request jwks memory expiresAt retryTtl clock few
  | release host retryAt => exact traced.setZone (traced.zone.release retryAt)
  | resolve worker request room => exact traced.resolve worker request room

/-- Every run keeps the traces. -/
theorem run (traced : Traced crc load world) (moves : List Move)
    (few : (world.run crc load moves).calls < 2 ^ 64) : Traced crc load (world.run crc load moves) := by
  induction moves generalizing world with
  | nil => exact traced
  | cons next rest ih =>
      have early : (world.move crc load next).calls < 2 ^ 64 := (calls_le_run crc load _ rest).trans_lt few
      exact ih (traced.move next early) few

end Traced

/-- The generations of the shared cache tie every document and every parsed key to its store. -/
structure GenerationCoherent (crc : Bytes → UInt32) (load : Bytes → Option κ) (world : World rb κ) : Prop where
  lookedUp : ∀ (memory : Memory) (host : Bytes) (now : Int) (answer : Answer) (after : Zone rb),
    world.zone.lookup crc memory host now = (answer, after) → answer.generation ≠ 0 →
      ∃ record ∈ world.records, record = ⟨host, answer.generation, answer.jwks⟩ ∧
        ∀ other ∈ world.records, other.generation = answer.generation → other = record
  assigned : (world.records.map Record.generation).Nodup
  stored : ∀ (memory : Memory) (host jwks : Bytes) (expiresAt retryTtl clock : Int) (generation : Nat)
    (after : Zone rb), world.calls + 1 < 2 ^ 64 →
      world.zone.store crc memory host jwks expiresAt retryTtl clock = (generation, after) →
        after.pair crc host = if generation = 0 then world.zone.pair crc host else (jwks, generation)
  resolved : ∀ (worker request : Nat) (room : Room) (keys : κ),
    (resolveKeys load room (world.localKeys worker) (world.requests request)).1 = some keys →
      load (world.requests request).jwks = some keys

/-- In every interleaving with fewer than 2^64 stores, the generations are coherent. -/
theorem generation_coherent (rb : Balanced Nat) (crc : Bytes → UInt32) (load : Bytes → Option κ)
    (moves : List Move) (few : ((init rb κ).run crc load moves).calls < 2 ^ 64) :
    ((init rb κ).run crc load moves).GenerationCoherent crc load := by
  have traced := (Traced.init rb crc load).run moves few
  refine ⟨?_, ?_, ?_, ?_⟩
  · intro memory host now answer after run assigned
    have present := (traced.zone.lookup_recorded run assigned).1
    exact ⟨_, present, rfl, fun other alsoPresent same => traced.distinct.unique alsoPresent present same⟩
  · exact List.pairwise_map.mpr (traced.distinct.imp fun older => Nat.ne_of_gt older)
  · intro memory host jwks expiresAt retryTtl clock generation after early run
    have counted : ((init rb κ).run crc load moves).zone.generation + 1 < 2 ^ 64 :=
      (Nat.succ_le_succ traced.zone.counted).trans_lt early
    exact Zone.store_pair traced.zone.coherent counted run
  · exact traced.resolved

/-- The sample zone has room for two nodes and for any document. -/
def sampleMemory : Memory where
  slab := {
    alloc heap _ := if heap 0 = none then some 0 else if heap 1 = none then some 1 else none
    alloc_free heap _ address found := by
      split at found
      · cases found
        assumption
      split at found
      · cases found
        assumption
      · cases found }
  dataRoom := true
  poolRoom := true

/-- The sample keys are the text of their document. -/
def sampleLoad (jwks : Bytes) : Option Bytes := if jwks = [] then none else some jwks

/-- Two documents of one host are stored, and the first one is resolved again after the second store. -/
def sampleMoves : List Move :=
  [.spawn 0 true,
    .lookup 0 (ascii "agent.test") sampleMemory 1000,
    .store 0 (ascii "\x7b1\x7d") sampleMemory 1300 60 1001,
    .lookup 1 (ascii "agent.test") sampleMemory 1300,
    .store 1 (ascii "\x7b2\x7d") sampleMemory 1600 60 1301,
    .resolve 0 1 ⟨true, true⟩,
    .resolve 0 0 ⟨true, true⟩]

/-- A run in which a document is replaced, with both generations on record. -/
theorem generation_coherent_replaced :
    ((init (plain Nat) Bytes).run NonceStore.crc32Long sampleLoad sampleMoves).GenerationCoherent
        NonceStore.crc32Long sampleLoad ∧
      ((init (plain Nat) Bytes).run NonceStore.crc32Long sampleLoad sampleMoves).records =
        [⟨ascii "agent.test", 2, ascii "\x7b2\x7d"⟩, ⟨ascii "agent.test", 1, ascii "\x7b1\x7d"⟩] :=
  ⟨generation_coherent (plain Nat) NonceStore.crc32Long sampleLoad sampleMoves (by decide +kernel),
    by decide +kernel⟩

/-- A request verifies with the keys of its own document, or it finds no keys. -/
theorem resolveKeys_refines (rb : Balanced Nat) (crc : Bytes → UInt32) (env : Module.Env) (moves : List Move)
    (few : ((init rb Keys).run crc env.loadKeys moves).calls < 2 ^ 64) (worker request : Nat) (room : Room) :
    let world := (init rb Keys).run crc env.loadKeys moves
    let keys := (resolveKeys env.loadKeys room (world.localKeys worker) (world.requests request)).1
    keys = none ∨ keys = Module.resolveKeys env (world.requests request).jwks := by
  intro world keys
  rw [Module.resolveKeys]
  split
  · rename_i empty
    exact .inl (by simp only [keys, resolveKeys, if_pos empty])
  · cases found : keys with
    | none => exact .inl rfl
    | some value =>
        have traced := (Traced.init rb crc env.loadKeys).run moves few
        exact .inr (traced.resolved worker request room value found).symm

end World
end AuthHttpsig.Directory
