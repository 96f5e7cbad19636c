/-
This file shows that the parsed-key cache of a worker keeps the hosts that were touched last, until its
clock starts again from zero.
-/

import AuthHttpsig.Construction.KeysCache
import AuthHttpsig.Library.Recency

namespace AuthHttpsig.KeysCache

open Recency

variable {κ : Type}

inductive Call where
  | get (host : Bytes) (generation : Nat)
  | put (poolRoom : Bool) (host jwks : Bytes) (generation : Nat)

def Cache.call (load : Bytes → Option κ) (cache : Cache κ) : Call → Option κ × Cache κ
  | .get host generation => get cache host generation
  | .put poolRoom host jwks generation => put load poolRoom cache host jwks generation

def Cache.run (load : Bytes → Option κ) (cache : Cache κ) (calls : List Call) : Cache κ :=
  calls.foldl (fun before next => (before.call load next).2) cache

theorem Cache.run_append (load : Bytes → Option κ) (cache : Cache κ) (earlier later : List Call) :
    cache.run load (earlier ++ later) = (cache.run load earlier).run load later :=
  List.foldl_append

def Cache.Holds (cache : Cache κ) (host : Bytes) : Prop :=
  ∃ index slot, cache.slots index = some slot ∧ slot.host = host

/-- A host never has two slots. -/
def Cache.Once (cache : Cache κ) : Prop :=
  ∀ index other slot twin, cache.slots index = some slot → cache.slots other = some twin →
    slot.host = twin.host → index = other

structure Entry (κ : Type) where
  host : Bytes
  generation : Nat
  keys : κ

/-- The ledger lists the hosts of all matching gets and successful puts, and the entries of these puts. The
newest ones stand first. -/
structure Ledger (κ : Type) where
  touches : List Bytes
  puts : List (Entry κ)

namespace Ledger

def empty : Ledger κ := ⟨[], []⟩

def cached (ledger : Ledger κ) : List Bytes := newest maxEntries ledger.touches

def lastPut (ledger : Ledger κ) (host : Bytes) : Option (Entry κ) :=
  ledger.puts.find? fun entry => entry.host == host

/-- A get matches the last put of a cached host. -/
def answer (ledger : Ledger κ) (host : Bytes) (generation : Nat) : Option κ :=
  if host ∈ ledger.cached then
    (ledger.lastPut host).bind fun entry => if entry.generation = generation then some entry.keys else none
  else none

def get (ledger : Ledger κ) (host : Bytes) (generation : Nat) : Option κ × Ledger κ :=
  match ledger.answer host generation with
  | none => (none, ledger)
  | some keys => (some keys, { ledger with touches := host :: ledger.touches })

/-- A put needs a generation, room and a document that parses. -/
def put (load : Bytes → Option κ) (poolRoom : Bool) (ledger : Ledger κ) (host jwks : Bytes)
    (generation : Nat) : Option κ × Ledger κ :=
  match if generation = 0 ∨ poolRoom = false then none else load jwks with
  | none => (none, ledger)
  | some keys => (some keys, ⟨host :: ledger.touches, ⟨host, generation, keys⟩ :: ledger.puts⟩)

def call (load : Bytes → Option κ) (ledger : Ledger κ) : Call → Option κ × Ledger κ
  | .get host generation => ledger.get host generation
  | .put poolRoom host jwks generation => ledger.put load poolRoom host jwks generation

def run (load : Bytes → Option κ) (calls : List Call) : Ledger κ :=
  calls.foldl (fun before next => (before.call load next).2) empty

/-- The last put of a host is an entry of that host. -/
theorem lastPut_host {ledger : Ledger κ} {host : Bytes} {entry : Entry κ}
    (found : ledger.lastPut host = some entry) : entry.host = host := by
  have named := List.find?_some found
  exact beq_iff_eq.mp named

/-- The ledger answers with keys for a cached host whose last put has that generation. -/
theorem answer_eq_some {ledger : Ledger κ} {host : Bytes} {generation : Nat} {keys : κ} :
    ledger.answer host generation = some keys ↔
      host ∈ ledger.cached ∧ ledger.lastPut host = some ⟨host, generation, keys⟩ := by
  unfold answer
  split
  · rename_i kept
    rw [Option.bind_eq_some_iff]
    constructor
    · rintro ⟨entry, found, matched⟩
      split at matched
      · cases matched
        subst generation
        have named := lastPut_host found
        subst host
        exact ⟨kept, found⟩
      · cases matched
    · rintro ⟨_, found⟩
      exact ⟨_, found, if_pos rfl⟩
  · rename_i dropped
    exact ⟨nofun, fun found => absurd found.1 dropped⟩

end Ledger

section Search

variable {cache : Cache κ} {host : Bytes}

/-- A host is not found exactly when no slot holds it. -/
theorem find_eq_none : find cache host = none ↔ ¬ cache.Holds host := by
  rw [find, List.find?_eq_none]
  constructor
  · rintro missed ⟨index, slot, found, named⟩
    refine missed index (List.mem_finRange index) ?_
    rw [found, Option.any_some, beq_iff_eq, named]
  · intro absent index _ found
    rw [Option.any_eq_true] at found
    obtain ⟨slot, used, named⟩ := found
    exact absent ⟨index, slot, used, beq_iff_eq.mp named⟩

/-- Where every host has one slot, the search finds that slot. -/
theorem find_eq_some (once : cache.Once) {index : Fin maxEntries} {slot : Slot κ}
    (found : cache.slots index = some slot) : find cache slot.host = some index := by
  cases search : find cache slot.host with
  | none => exact absurd ⟨index, slot, found, rfl⟩ (find_eq_none.mp search)
  | some other =>
      have named := List.find?_some search
      rw [Option.any_eq_true] at named
      obtain ⟨twin, used, same⟩ := named
      rw [once other index twin slot used found (beq_iff_eq.mp same)]

/-- A get finds the slot of its host and compares the generation. -/
theorem get_found (once : cache.Once) {index : Fin maxEntries} {slot : Slot κ}
    (found : cache.slots index = some slot) (generation : Nat) :
    get cache slot.host generation =
      if generation ≠ 0 ∧ slot.generation = generation then (some slot.keys, touch cache index slot)
      else (none, cache) := by
  unfold get
  rw [find_eq_some once found]
  simp only [found]
  split
  · rename_i unassigned
    rw [if_neg (fun matched => matched.1 unassigned)]
  · rename_i assigned
    by_cases same : slot.generation = generation
    · rw [if_neg (not_not.mpr same), if_pos ⟨assigned, same⟩]
    · rw [if_pos same, if_neg (fun matched => same matched.2)]

/-- A host without a slot is missed, and nothing is touched. -/
theorem get_missed (absent : ¬ cache.Holds host) (generation : Nat) :
    get cache host generation = (none, cache) := by
  unfold get
  rw [find_eq_none.mpr absent, ite_self]

/-- A get that returns no keys changes nothing. -/
theorem get_none {generation : Nat} (failed : (get cache host generation).1 = none) :
    get cache host generation = (none, cache) := by
  unfold get at failed ⊢
  split
  · rfl
  rename_i assigned
  rw [if_neg assigned] at failed
  split
  · rfl
  rename_i index search
  rw [search] at failed
  split
  · rfl
  rename_i slot found
  simp only [found] at failed
  split
  · rfl
  rename_i current
  rw [if_neg current] at failed
  cases failed

/-- A failed put leaves the cache as it was. -/
theorem put_none {load : Bytes → Option κ} {poolRoom : Bool} {jwks : Bytes} {generation : Nat}
    (failed : (put load poolRoom cache host jwks generation).1 = none) :
    (put load poolRoom cache host jwks generation).2 = cache := by
  unfold put at failed ⊢
  split
  · rfl
  rename_i possible
  rw [if_neg possible] at failed
  split
  · rfl
  rename_i keys parsed
  rw [parsed] at failed
  cases failed

/-- The search for a slot ends at a free slot or at the least clock value. -/
theorem victim_least (cache : Cache κ) (indices : List (Fin maxEntries)) (oldest : Fin maxEntries) :
    cache.slots (victim cache indices oldest) = none ∨
      ∃ slot, cache.slots (victim cache indices oldest) = some slot ∧
        ∀ index ∈ oldest :: indices, ∃ other, cache.slots index = some other ∧ slot.touched ≤ other.touched := by
  induction indices generalizing oldest with
  | nil =>
      rw [victim]
      cases used : cache.slots oldest with
      | none => exact .inl rfl
      | some slot =>
          refine .inr ⟨slot, rfl, ?_⟩
          intro index same
          rw [List.mem_singleton.mp same]
          exact ⟨slot, used, le_refl _⟩
  | cons index rest ih =>
      rw [victim]
      cases used : cache.slots index with
      | none => exact .inl used
      | some entry =>
          dsimp only
          split
          · rename_i earlier
            rw [Option.any_eq_true] at earlier
            obtain ⟨first, held, before⟩ := earlier
            refine (ih index).imp_right ?_
            rintro ⟨slot, chosen, least⟩
            refine ⟨slot, chosen, List.forall_mem_cons.mpr ⟨?_, least⟩⟩
            obtain ⟨_, same, bound⟩ := least index List.mem_cons_self
            cases used.symm.trans same
            exact ⟨first, held, bound.trans (Nat.le_of_lt (of_decide_eq_true before))⟩
          · rename_i later
            refine (ih oldest).imp_right ?_
            rintro ⟨slot, chosen, least⟩
            obtain ⟨atOldest, beyond⟩ := List.forall_mem_cons.mp least
            refine ⟨slot, chosen, List.forall_mem_cons.mpr ⟨atOldest, List.forall_mem_cons.mpr ⟨?_, beyond⟩⟩⟩
            obtain ⟨first, held, bound⟩ := atOldest
            rw [held, Option.any_some, decide_eq_true_eq, not_lt] at later
            exact ⟨entry, used, bound.trans later⟩

/-- A new entry takes the slot of its host, a free slot or the slot with the least clock value. -/
inductive Chosen (cache : Cache κ) (host : Bytes) (index : Fin maxEntries) : Prop
  | own {slot} (found : cache.slots index = some slot) (named : slot.host = host)
  | free (absent : ¬ cache.Holds host) (unused : cache.slots index = none)
  | least {slot} (absent : ¬ cache.Holds host) (found : cache.slots index = some slot)
      (least : ∀ other, ∃ entry, cache.slots other = some entry ∧ slot.touched ≤ entry.touched)

/-- The slot of a put is the one of its host, else an empty one, else the least recently touched. -/
theorem slotFor_chosen (cache : Cache κ) (host : Bytes) : Chosen cache host (slotFor cache host) := by
  unfold slotFor
  split
  · rename_i index search
    have named := List.find?_some search
    rw [Option.any_eq_true] at named
    obtain ⟨slot, found, same⟩ := named
    exact .own found (beq_iff_eq.mp same)
  · rename_i search
    have absent := find_eq_none.mp search
    rcases victim_least cache (List.finRange maxEntries) ⟨0, by decide⟩ with unused | ⟨slot, found, least⟩
    · exact .free absent unused
    · refine .least absent found ?_
      intro other
      exact least other (List.mem_cons_of_mem _ (List.mem_finRange other))

end Search

/-- The slots hold the last puts of the cached hosts, each with the time of its last touch. -/
structure Follows (cache : Cache κ) (ledger : Ledger κ) : Prop where
  clock : cache.clock = ledger.touches.length % 2 ^ 64
  once : cache.Once
  cached : ∀ host, cache.Holds host ↔ host ∈ ledger.cached
  generation : ∀ index slot, cache.slots index = some slot → slot.generation ≠ 0
  touched : ∀ index slot, cache.slots index = some slot →
    slot.touched = stamp ledger.touches slot.host % 2 ^ 64
  lastPut : ∀ index slot, cache.slots index = some slot →
    ledger.lastPut slot.host = some ⟨slot.host, slot.generation, slot.keys⟩

namespace Follows

variable {cache : Cache κ} {ledger : Ledger κ}

/-- The created cache follows the empty ledger. -/
theorem create : Follows (create : Cache κ) Ledger.empty where
  clock := rfl
  once _ _ _ _ used := nomatch used
  cached host := by
    constructor
    · rintro ⟨_, _, used, _⟩
      cases used
    · intro kept
      cases kept
  generation _ _ used := nomatch used
  touched _ _ used := nomatch used
  lastPut _ _ used := nomatch used

/-- A free slot leaves room for one more host. -/
theorem room (follows : Follows cache ledger) {index : Fin maxEntries} (unused : cache.slots index = none) :
    ledger.cached.length < maxEntries := by
  have held : ∀ host ∈ ledger.cached,
      some host ∈ (Finset.univ.erase index).image fun other => (cache.slots other).map Slot.host := by
    intro host kept
    obtain ⟨other, slot, found, named⟩ := (follows.cached host).mpr kept
    refine Finset.mem_image.mpr ⟨other, Finset.mem_erase.mpr ⟨?_, Finset.mem_univ other⟩, ?_⟩
    · rintro rfl
      rw [unused] at found
      cases found
    · rw [found, Option.map_some, named]
  have distinct : (ledger.cached.map some).Nodup :=
    (newest_nodup maxEntries ledger.touches).map (Option.some_injective Bytes)
  calc ledger.cached.length
      = (ledger.cached.map some).toFinset.card := by rw [List.toFinset_card_of_nodup distinct, List.length_map]
    _ ≤ ((Finset.univ.erase index).image fun other => (cache.slots other).map Slot.host).card := by
        refine Finset.card_le_card ?_
        intro entry present
        obtain ⟨host, kept, rfl⟩ := List.mem_map.mp (List.mem_toFinset.mp present)
        exact held host kept
    _ ≤ (Finset.univ.erase index).card := Finset.card_image_le
    _ < maxEntries := by
        rw [Finset.card_erase_of_mem (Finset.mem_univ index), Finset.card_univ, Fintype.card_fin]
        decide

/-- When each slot is used, the cached hosts fill the bound. -/
theorem full (follows : Follows cache ledger) (used : ∀ index, ∃ slot, cache.slots index = some slot) :
    ledger.cached.length = maxEntries := by
  refine Nat.le_antisymm (newest_length_le maxEntries ledger.touches) ?_
  have distinct : (ledger.cached.map some).Nodup :=
    (newest_nodup maxEntries ledger.touches).map (Option.some_injective Bytes)
  calc maxEntries
      = (Finset.univ : Finset (Fin maxEntries)).card := by rw [Finset.card_univ, Fintype.card_fin]
    _ ≤ (ledger.cached.map some).toFinset.card := by
        refine Finset.card_le_card_of_injOn (fun index => (cache.slots index).map Slot.host) ?_ ?_
        · intro index _
          obtain ⟨slot, found⟩ := used index
          simp only [found, Option.map_some, Finset.mem_coe, List.mem_toFinset]
          exact List.mem_map_of_mem ((follows.cached slot.host).mp ⟨index, slot, found, rfl⟩)
        · intro index _ other _ same
          obtain ⟨slot, found⟩ := used index
          obtain ⟨twin, alsoFound⟩ := used other
          simp only [found, alsoFound, Option.map_some, Option.some.injEq] at same
          exact follows.once index other slot twin found alsoFound same
    _ = ledger.cached.length := by rw [List.toFinset_card_of_nodup distinct, List.length_map]

/-- While the clock has not started again, the least clock value is the oldest touch. -/
theorem touched_eq (follows : Follows cache ledger) (few : ledger.touches.length < 2 ^ 64)
    {index : Fin maxEntries} {slot : Slot κ} (found : cache.slots index = some slot) :
    slot.touched = stamp ledger.touches slot.host := by
  rw [follows.touched index slot found]
  exact Nat.mod_eq_of_lt ((stamp_le ledger.touches slot.host).trans_lt few)

/-- The touched host joins the cached hosts, and a replaced host leaves them. -/
theorem mem_cached_touch (follows : Follows cache ledger) (few : ledger.touches.length < 2 ^ 64) {host : Bytes}
    {index : Fin maxEntries} (chosen : Chosen cache host index) (other : Bytes) :
    other ∈ newest maxEntries (host :: ledger.touches) ↔
      other = host ∨ other ∈ ledger.cached ∧ ∀ slot, cache.slots index = some slot → slot.host ≠ other := by
  cases chosen with
  | @own slot found named =>
      subst named
      have kept := (follows.cached slot.host).mp ⟨index, slot, found, rfl⟩
      rw [mem_newest_cons_of_mem kept]
      constructor
      · intro present
        by_cases same : other = slot.host
        · exact .inl same
        · refine .inr ⟨present, ?_⟩
          rintro _ again rfl
          cases found.symm.trans again
          exact same rfl
      · rintro (rfl | ⟨present, _⟩)
        · exact kept
        · exact present
  | free absent unused =>
      have fresh := mt (follows.cached host).mpr absent
      rw [mem_newest_cons_of_room fresh (follows.room unused), unused]
      refine or_congr_right ⟨fun present => ⟨present, nofun⟩, And.left⟩
  | @least slot absent found least =>
      have fresh := mt (follows.cached host).mpr absent
      have present := (follows.cached slot.host).mp ⟨index, slot, found, rfl⟩
      have full := follows.full fun position => (least position).imp fun _ => And.left
      rw [mem_newest_cons_of_full fresh full present]
      · refine or_congr_right (and_congr_right fun _ => ?_)
        constructor
        · rintro different _ again rfl
          cases found.symm.trans again
          exact different rfl
        · intro different same
          exact different slot found same.symm
      · intro kept inside
        obtain ⟨position, entry, used, rfl⟩ := (follows.cached kept).mpr inside
        obtain ⟨_, again, bound⟩ := least position
        cases used.symm.trans again
        rw [follows.touched_eq few found, follows.touched_eq few used] at bound
        exact bound

/-- No other slot has the touched host. -/
theorem alone (follows : Follows cache ledger) {host : Bytes} {index : Fin maxEntries}
    (chosen : Chosen cache host index) {other : Fin maxEntries} {entry : Slot κ}
    (found : cache.slots other = some entry) (elsewhere : other ≠ index) : entry.host ≠ host := by
  rintro rfl
  cases chosen with
  | own alsoFound named => exact elsewhere (follows.once other index entry _ found alsoFound named.symm)
  | free absent _ => exact absent ⟨other, entry, found, rfl⟩
  | least absent _ _ => exact absent ⟨other, entry, found, rfl⟩

/-- After a touch, a used slot is the touched one, or it is an older one of another host. -/
theorem touch_slot (follows : Follows cache ledger) {index other : Fin maxEntries} {slot entry : Slot κ}
    (chosen : Chosen cache slot.host index)
    (found : (KeysCache.touch cache index slot).slots other = some entry) :
    other = index ∧ entry = { slot with touched := (cache.clock + 1) % 2 ^ 64 } ∨
      other ≠ index ∧ cache.slots other = some entry ∧ slot.host ≠ entry.host := by
  simp only [KeysCache.touch, Function.update_apply] at found
  split at found
  · rename_i here
    cases found
    exact .inl ⟨here, rfl⟩
  · rename_i elsewhere
    exact .inr ⟨elsewhere, found, (follows.alone chosen found elsewhere).symm⟩

/-- A touch of a chosen slot follows the ledger. -/
theorem touch (follows : Follows cache ledger) (few : ledger.touches.length < 2 ^ 64) {index : Fin maxEntries}
    {slot : Slot κ} (chosen : Chosen cache slot.host index) (assigned : slot.generation ≠ 0)
    {puts : List (Entry κ)}
    (last : Ledger.lastPut ⟨slot.host :: ledger.touches, puts⟩ slot.host =
      some ⟨slot.host, slot.generation, slot.keys⟩)
    (others : ∀ host, slot.host ≠ host →
      Ledger.lastPut ⟨slot.host :: ledger.touches, puts⟩ host = ledger.lastPut host) :
    Follows (KeysCache.touch cache index slot) ⟨slot.host :: ledger.touches, puts⟩ := by
  have ticked : (cache.clock + 1) % 2 ^ 64 = (slot.host :: ledger.touches).length % 2 ^ 64 := by
    rw [follows.clock, List.length_cons, Nat.mod_add_mod]
  refine ⟨ticked, ?_, ?_, ?_, ?_, ?_⟩
  · intro first second entry twin found alsoFound same
    rcases follows.touch_slot chosen found with ⟨rfl, rfl⟩ | ⟨_, before, different⟩ <;>
      rcases follows.touch_slot chosen alsoFound with ⟨rfl, rfl⟩ | ⟨_, alsoBefore, alsoDifferent⟩
    · rfl
    · exact absurd same alsoDifferent
    · exact absurd same.symm different
    · exact follows.once first second entry twin before alsoBefore same
  · intro host
    rw [Ledger.cached, follows.mem_cached_touch few chosen]
    constructor
    · rintro ⟨other, entry, found, rfl⟩
      rcases follows.touch_slot chosen found with ⟨_, rfl⟩ | ⟨elsewhere, before, _⟩
      · exact .inl rfl
      · refine .inr ⟨(follows.cached entry.host).mp ⟨other, entry, before, rfl⟩, ?_⟩
        intro old used equal
        exact elsewhere (follows.once other index entry old before used equal.symm)
    · rintro (rfl | ⟨kept, spared⟩)
      · exact ⟨index, _, Function.update_self .., rfl⟩
      · obtain ⟨other, entry, found, rfl⟩ := (follows.cached host).mpr kept
        have elsewhere : other ≠ index := by
          rintro rfl
          exact spared entry found rfl
        exact ⟨other, entry, (Function.update_of_ne elsewhere ..).trans found, rfl⟩
  · intro other entry found
    rcases follows.touch_slot chosen found with ⟨_, rfl⟩ | ⟨_, before, _⟩
    · exact assigned
    · exact follows.generation other entry before
  · intro other entry found
    rcases follows.touch_slot chosen found with ⟨_, rfl⟩ | ⟨_, before, different⟩
    · rw [ticked, List.length_cons, stamp_cons_self]
    · rw [stamp_cons_of_ne different]
      exact follows.touched other entry before
  · intro other entry found
    rcases follows.touch_slot chosen found with ⟨_, rfl⟩ | ⟨_, before, different⟩
    · exact last
    · rw [others entry.host different]
      exact follows.lastPut other entry before

/-- A get returns the keys of the last put of a cached host with its generation. -/
theorem get_eq_some (follows : Follows cache ledger) {host : Bytes} {generation : Nat} {keys : κ} :
    (KeysCache.get cache host generation).1 = some keys ↔
      cache.Holds host ∧ ledger.lastPut host = some ⟨host, generation, keys⟩ := by
  by_cases held : cache.Holds host
  · obtain ⟨index, slot, found, rfl⟩ := held
    rw [get_found follows.once found, follows.lastPut index slot found]
    have assigned := follows.generation index slot found
    constructor
    · intro answered
      split at answered
      · rename_i matched
        cases answered
        exact ⟨⟨index, slot, found, rfl⟩, by rw [matched.2]⟩
      · cases answered
    · rintro ⟨_, same⟩
      cases same
      rw [if_pos ⟨assigned, rfl⟩]
  · rw [get_missed held]
    exact ⟨nofun, fun matched => absurd matched.1 held⟩

/-- A lookup answers as the ledger does. -/
theorem get_answer (follows : Follows cache ledger) (host : Bytes) (generation : Nat) :
    (KeysCache.get cache host generation).1 = ledger.answer host generation := by
  ext keys
  rw [follows.get_eq_some, Ledger.answer_eq_some, follows.cached]

/-- A put answers as the ledger does. -/
theorem put_answer (cache : Cache κ) (ledger : Ledger κ) (load : Bytes → Option κ) (poolRoom : Bool)
    (host jwks : Bytes) (generation : Nat) :
    (KeysCache.put load poolRoom cache host jwks generation).1 =
      (ledger.put load poolRoom host jwks generation).1 := by
  unfold KeysCache.put Ledger.put
  by_cases refused : generation = 0 ∨ poolRoom = false
  · rw [if_pos refused, if_pos refused]
  · rw [if_neg refused, if_neg refused]
    cases load jwks <;> rfl

/-- The ledger foretells the answer of each call. -/
theorem call_answer (follows : Follows cache ledger) (load : Bytes → Option κ) (next : Call) :
    (cache.call load next).1 = (ledger.call load next).1 := by
  cases next with
  | get host generation =>
      rw [Cache.call, Ledger.call, follows.get_answer, Ledger.get]
      cases ledger.answer host generation <;> rfl
  | put poolRoom host jwks generation => exact put_answer cache ledger load poolRoom host jwks generation

/-- A lookup keeps the cache in step with the ledger. -/
theorem get (follows : Follows cache ledger) (host : Bytes) (generation : Nat)
    (few : (ledger.get host generation).2.touches.length ≤ 2 ^ 64) :
    Follows (KeysCache.get cache host generation).2 (ledger.get host generation).2 := by
  have agreed := follows.get_answer host generation
  unfold Ledger.get at few ⊢
  cases answered : ledger.answer host generation with
  | none =>
      rw [answered] at agreed
      rw [get_none agreed]
      exact follows
  | some keys =>
      rw [answered] at few agreed
      have room : ledger.touches.length < 2 ^ 64 := few
      obtain ⟨⟨index, slot, found, rfl⟩, last⟩ := follows.get_eq_some.mp agreed
      have same := follows.lastPut index slot found
      cases same.symm.trans last
      have assigned := follows.generation index slot found
      rw [get_found follows.once found, if_pos ⟨assigned, rfl⟩]
      exact follows.touch room (.own found rfl) assigned same fun _ _ => rfl

/-- A put keeps the cache in step with the ledger. -/
theorem put (follows : Follows cache ledger) (load : Bytes → Option κ) (poolRoom : Bool) (host jwks : Bytes)
    (generation : Nat) (few : (ledger.put load poolRoom host jwks generation).2.touches.length ≤ 2 ^ 64) :
    Follows (KeysCache.put load poolRoom cache host jwks generation).2
      (ledger.put load poolRoom host jwks generation).2 := by
  unfold Ledger.put at few ⊢
  unfold KeysCache.put
  by_cases refused : generation = 0 ∨ poolRoom = false
  · rw [if_pos refused, if_pos refused]
    exact follows
  rw [if_neg refused] at few
  rw [if_neg refused, if_neg refused]
  cases parsed : load jwks with
  | none => exact follows
  | some keys =>
      rw [parsed] at few
      have room : ledger.touches.length < 2 ^ 64 := few
      refine follows.touch room (slotFor_chosen cache host) (fun zero => refused (.inl zero)) ?_ ?_
      · exact List.find?_cons_of_pos (beq_self_eq_true host)
      · intro other different
        exact List.find?_cons_of_neg (by simpa using different)

/-- Every call keeps the cache in step with the ledger. -/
theorem call (follows : Follows cache ledger) (load : Bytes → Option κ) (next : Call)
    (few : (ledger.call load next).2.touches.length ≤ 2 ^ 64) :
    Follows (cache.call load next).2 (ledger.call load next).2 := by
  cases next with
  | get host generation => exact follows.get host generation few
  | put poolRoom host jwks generation => exact follows.put load poolRoom host jwks generation few

end Follows

/-- A call keeps every touch of the ledger. -/
theorem Ledger.touches_le_call (load : Bytes → Option κ) (ledger : Ledger κ) (next : Call) :
    ledger.touches.length ≤ (ledger.call load next).2.touches.length := by
  cases next with
  | get host generation =>
      rw [Ledger.call, Ledger.get]
      cases ledger.answer host generation with
      | none => exact le_refl _
      | some keys => exact Nat.le_succ _
  | put poolRoom host jwks generation =>
      rw [Ledger.call, Ledger.put]
      split
      · exact le_refl _
      · exact Nat.le_succ _

/-- Up to the wrap of the touch clock, a run of the cache follows the ledger. -/
theorem Follows.run (load : Bytes → Option κ) (calls : List Call)
    (few : (Ledger.run load calls).touches.length ≤ 2 ^ 64) :
    Follows ((KeysCache.create : Cache κ).run load calls) (Ledger.run load calls) := by
  induction calls using List.reverseRecOn with
  | nil => exact Follows.create
  | append_singleton earlier next ih =>
      rw [Ledger.run, List.foldl_concat, ← Ledger.run] at few ⊢
      rw [Cache.run_append]
      exact (ih ((Ledger.touches_le_call load _ next).trans few)).call load next few

/-- The cache is an exact cache of the hosts that were touched last. -/
structure ExactLru (load : Bytes → Option κ) (cache : Cache κ) (ledger : Ledger κ) : Prop where
  once : cache.Once
  cached : ∀ host, cache.Holds host ↔ host ∈ newest maxEntries ledger.touches
  got : ∀ host generation keys, (get cache host generation).1 = some keys ↔
    cache.Holds host ∧ ledger.lastPut host = some ⟨host, generation, keys⟩
  answered : ∀ next, (cache.call load next).1 = (ledger.call load next).1
  unchanged : ∀ next, (cache.call load next).1 = none → (cache.call load next).2 = cache

/-- In every run with at most 2^64 touches, the cache holds the hosts that were touched last. -/
theorem exact_lru (load : Bytes → Option κ) (calls : List Call)
    (few : (Ledger.run load calls).touches.length ≤ 2 ^ 64) :
    ExactLru load ((create : Cache κ).run load calls) (Ledger.run load calls) := by
  have follows := Follows.run load calls few
  refine ⟨follows.once, follows.cached, ?_, follows.call_answer load, ?_⟩
  · intro _ _ _
    exact follows.get_eq_some
  · intro next failed
    cases next with
    | get host generation => exact congrArg Prod.snd (get_none failed)
    | put poolRoom host jwks generation => exact put_none failed

def sampleHost (number : Nat) : Bytes := [UInt8.ofNat number]

/-- Sixteen hosts fill the cache. -/
def fillCalls : List Call := (List.range maxEntries).map fun number => .put true (sampleHost number) [0] 1

/-- The first host is touched again, and the second host is replaced. -/
def replaceCalls : List Call := fillCalls ++ [.get (sampleHost 0) 1, .put true (sampleHost 16) [0] 1]

/-- A run that replaces the least recently used host. -/
theorem exact_lru_replaced :
    ExactLru some ((create : Cache Bytes).run some replaceCalls) (Ledger.run some replaceCalls) ∧
      (Ledger.run some replaceCalls).cached =
        [16, 0, 15, 14, 13, 12, 11, 10, 9, 8, 7, 6, 5, 4, 3, 2].map sampleHost :=
  ⟨exact_lru some replaceCalls (by decide +kernel), by decide +kernel⟩

/-- Writing another time into a slot changes no search. -/
theorem find_touch {cache : Cache κ} {index : Fin maxEntries} {slot : Slot κ} {touched : Nat}
    (found : cache.slots index = some { slot with touched := touched }) (host : Bytes) :
    find (touch cache index slot) host = find cache host := by
  refine List.find?_congr ?_
  intro other _
  simp only [touch, Function.update_apply]
  split
  · rename_i here
    rw [here, found, Option.any_some, Option.any_some]
  · rfl

/-- A lookup of a host only moves the time of its slot. -/
theorem get_touch {cache : Cache κ} {index : Fin maxEntries} {slot : Slot κ} {touched : Nat}
    (found : cache.slots index = some { slot with touched := touched }) (search : find cache slot.host = some index)
    (assigned : slot.generation ≠ 0) :
    get cache slot.host slot.generation = (some slot.keys, touch cache index slot) := by
  unfold get
  rw [if_neg assigned, search]
  simp only [found, ne_eq, not_true_eq_false, if_false]
  rfl

/-- Repeated gets touch one slot again and again. -/
theorem Cache.run_gets (load : Bytes → Option κ) {cache : Cache κ} {index : Fin maxEntries} (slot : Slot κ)
    {touched : Nat} (found : cache.slots index = some { slot with touched := touched })
    (search : find cache slot.host = some index) (assigned : slot.generation ≠ 0) (count : Nat) :
    cache.run load (List.replicate count (.get slot.host slot.generation)) =
      (fun before => touch before index slot)^[count] cache := by
  induction count generalizing cache touched with
  | zero => rfl
  | succ count ih =>
      have after : (cache.call load (.get slot.host slot.generation)).2 = touch cache index slot :=
        congrArg Prod.snd (get_touch found search assigned)
      rw [List.replicate_succ, Cache.run, List.foldl_cons, after, ← Cache.run, Function.iterate_succ_apply]
      exact ih (Function.update_self ..) ((find_touch found slot.host).trans search)

/-- Touching one slot over and over leaves its last time. -/
theorem touch_iterate (cache : Cache κ) (index : Fin maxEntries) (slot : Slot κ) (count : Nat) :
    (fun before => touch before index slot)^[count + 1] cache =
      ⟨Function.update cache.slots index (some { slot with touched := (cache.clock + (count + 1)) % 2 ^ 64 }),
        (cache.clock + (count + 1)) % 2 ^ 64⟩ := by
  induction count with
  | zero => rfl
  | succ count ih =>
      rw [Function.iterate_succ_apply', ih, touch, Function.update_idem, Nat.mod_add_mod, Nat.add_assoc]

/-- Lookups of one cached host only lengthen its list of touches. -/
theorem Ledger.run_gets (load : Bytes → Option κ) {ledger : Ledger κ} {host : Bytes} {generation : Nat} {keys : κ}
    (matched : ledger.answer host generation = some keys) (count : Nat) :
    (List.replicate count (.get host generation)).foldl (fun before next => (before.call load next).2) ledger =
      { ledger with touches := List.replicate count host ++ ledger.touches } := by
  induction count generalizing ledger with
  | zero => rfl
  | succ count ih =>
      have after : (ledger.call load (.get host generation)).2 =
          { ledger with touches := host :: ledger.touches } := by
        rw [Ledger.call, Ledger.get, matched]
      have again : Ledger.answer { ledger with touches := host :: ledger.touches } host generation = some keys := by
        rw [answer_eq_some] at matched ⊢
        exact ⟨mem_newest_cons_self _ host ledger.touches, matched.2⟩
      rw [List.replicate_succ, List.foldl_cons, after, ih again, List.replicate_succ', List.append_assoc,
        List.singleton_append]

/-- The first host is touched as often as counted, and then one more host comes. -/
def wrapCalls (count : Nat) : List Call :=
  fillCalls ++ List.replicate count (.get (sampleHost 0) 1) ++ [.put true (sampleHost 16) [0] 1]

/-- The first host is one of the two hosts that were touched last. -/
theorem wrapCalls_recent {count : Nat} (some_get : 0 < count) :
    sampleHost 0 ∈ newest maxEntries (Ledger.run some (wrapCalls count)).touches := by
  have matched : (Ledger.run some fillCalls).answer (sampleHost 0) 1 = some [0] := by decide +kernel
  have fresh : sampleHost 0 ≠ sampleHost 16 := by decide
  obtain ⟨further, rfl⟩ := Nat.exists_eq_succ_of_ne_zero (Nat.ne_of_gt some_get)
  rw [Ledger.run, wrapCalls, List.foldl_append, List.foldl_append, ← Ledger.run, Ledger.run_gets some matched]
  show sampleHost 0 ∈ newest maxEntries (sampleHost 16 :: sampleHost 0 :: _)
  simp [newest, recent, fresh, maxEntries]

def sampleSlot : Slot Bytes := ⟨sampleHost 0, 1, [0], 0⟩

def sampleIndex : Fin maxEntries := (0 : Fin 16)

/-- This is the full cache after the last touch of the first host. -/
def touchedCache (clock : Nat) : Cache Bytes where
  slots := Function.update ((create : Cache Bytes).run some fillCalls).slots sampleIndex
    (some { sampleSlot with touched := clock })
  clock := clock

/-- The cache after the wrapped run. -/
theorem wrapCalls_run (count : Nat) :
    (create : Cache Bytes).run some (wrapCalls (count + 1)) =
      (put some true (touchedCache ((16 + (count + 1)) % 2 ^ 64)) (sampleHost 16) [0] 1).2 := by
  have found : ((create : Cache Bytes).run some fillCalls).slots sampleIndex =
      some { sampleSlot with touched := 1 } := rfl
  have search : find ((create : Cache Bytes).run some fillCalls) sampleSlot.host = some sampleIndex := by
    decide +kernel
  have clock : ((create : Cache Bytes).run some fillCalls).clock = 16 := by decide +kernel
  have gets : ((create : Cache Bytes).run some fillCalls).run some
      (List.replicate (count + 1) (.get (sampleHost 0) 1)) = touchedCache ((16 + (count + 1)) % 2 ^ 64) := by
    have touches := Cache.run_gets some sampleSlot found search (by decide) (count + 1)
    rw [touch_iterate, clock] at touches
    exact touches
  rw [wrapCalls, Cache.run_append, Cache.run_append, gets]
  rfl

/-- When the clock starts again from zero, the host that was touched last is taken for the oldest one. -/
theorem wrapCalls_dropped :
    ¬ ((create : Cache Bytes).run some (wrapCalls (2 ^ 64 - 16))).Holds (sampleHost 0) := by
  have replaced : ∀ index : Fin maxEntries, ((put some true (touchedCache 0) (sampleHost 16) [0] 1).2.slots
      index).map Slot.host ≠ some (sampleHost 0) := by decide +kernel
  have steps : 2 ^ 64 - 16 = 2 ^ 64 - 17 + 1 := by norm_num
  have wrapped : (16 + (2 ^ 64 - 17 + 1)) % 2 ^ 64 = 0 := by norm_num
  rw [steps, wrapCalls_run, wrapped]
  rintro ⟨index, slot, used, named⟩
  exact replaced index ((congrArg (Option.map Slot.host) used).trans (congrArg some named))

/-- Once the touch clock wraps, the wrong host is replaced. -/
theorem exact_lru_wrapped :
    ¬ ExactLru some ((create : Cache Bytes).run some (wrapCalls (2 ^ 64 - 16)))
      (Ledger.run some (wrapCalls (2 ^ 64 - 16))) := by
  intro exact
  exact wrapCalls_dropped ((exact.cached (sampleHost 0)).mpr (wrapCalls_recent (by norm_num)))

end AuthHttpsig.KeysCache
