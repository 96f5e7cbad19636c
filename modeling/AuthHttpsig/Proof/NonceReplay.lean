/-
This file proves that the time window and the lifetime of a nonce record leave no time at which
a signature is accepted again.
-/

import AuthHttpsig.Proof.NonceRefinement
import AuthHttpsig.Proof.ProfileAccepts
import AuthHttpsig.Proof.SfvRoundTrip

namespace AuthHttpsig.NonceStore

open SearchTree

variable {rb : Balanced Nat}

namespace World

/-- The history pairs every call with its answer. -/
def history (crc : Bytes → UInt32) (world : World rb) : List Call → List (Call × Rc)
  | [] => []
  | call :: rest => (call, world.answer crc call) :: (world.check crc call).history crc rest

variable {crc : Bytes → UInt32} {world : World rb} {now : Int}

/-- The history has an entry for every call. -/
theorem history_calls (calls : List Call) : (world.history crc calls).map Prod.fst = calls := by
  induction calls generalizing world with
  | nil => rfl
  | cons call rest ih => rw [history, List.map_cons, ih]

/-- Every entry of the history is of one of the calls. -/
theorem mem_calls_of_history {calls : List Call} {entry : Call × Rc}
    (present : entry ∈ world.history crc calls) : entry.1 ∈ calls := by
  have named : entry.1 ∈ (world.history crc calls).map Prod.fst := List.mem_map_of_mem present
  rwa [history_calls] at named

/-- A recorded key is not accepted through the second of its expiry. -/
theorem refused_while_recorded {calls : List Call} {key : Bytes} {expiresAt : Int}
    (refines : world.Refines crc now) (recorded : world.records key = some expiresAt)
    (ordered : calls.Pairwise fun earlier later => earlier.now ≤ later.now)
    (started : ∀ call ∈ calls, now ≤ call.now) :
    ∀ entry ∈ world.history crc calls, entry.1.key = key → entry.1.now ≤ expiresAt → entry.2 ≠ .ok := by
  induction calls generalizing world now with
  | nil => exact fun entry present => absurd present (by simp [history])
  | cons call rest ih =>
      obtain ⟨before, orderedRest⟩ := List.pairwise_cons.mp ordered
      have atCall := refines.later (started call (by simp))
      have refuses : call.key = key → call.now ≤ expiresAt → world.answer crc call ≠ .ok := by
        rintro rfl alive accepted
        rcases lt_or_ge call.ttl 1 with nonpositive | positive
        · rw [(check_of_nonpositive nonpositive).1] at accepted
          cases accepted
        · have live := (atCall.live_iff call.key).mpr ⟨expiresAt, alive, recorded⟩
          rw [((check_outcome atCall.coherent positive).declined_iff atCall.coherent).mpr live] at accepted
          cases accepted
      intro entry present same alive
      rcases List.mem_cons.mp present with rfl | later
      · exact refuses same alive
      · -- The record outlives the head call, because its clock is not after the clock of the entry.
        have notAfter := before entry.1 (mem_calls_of_history later)
        have kept : (world.check crc call).records key = some expiresAt := by
          show world.records.checked call (world.answer crc call) key = some expiresAt
          rw [Records.checked]
          split
          · rename_i accepted
            have different : key ≠ call.key := by
              rintro rfl
              exact refuses rfl (by omega) accepted
            rw [Function.update_of_ne different, recorded]
          · exact recorded
        exact ih atCall.check kept orderedRest before entry later same alive

/-- After a key was accepted, no call for it is accepted before its record has expired. -/
theorem accepted_apart {calls : List Call} (refines : world.Refines crc now)
    (ordered : calls.Pairwise fun earlier later => earlier.now ≤ later.now)
    (started : ∀ call ∈ calls, now ≤ call.now) :
    (world.history crc calls).Pairwise fun earlier later =>
      earlier.2 = .ok → later.1.key = earlier.1.key → later.1.now ≤ earlier.1.now + earlier.1.ttl →
        later.2 ≠ .ok := by
  induction calls generalizing world now with
  | nil => exact List.Pairwise.nil
  | cons call rest ih =>
      obtain ⟨before, orderedRest⟩ := List.pairwise_cons.mp ordered
      have after := (refines.later (started call (by simp))).check
      refine List.pairwise_cons.mpr ⟨?_, ih after orderedRest before⟩
      intro entry present accepted same alive
      have recorded : (world.check crc call).records call.key = some (call.now + call.ttl) := by
        show world.records.checked call (world.answer crc call) call.key = _
        rw [Records.checked, if_pos accepted, Function.update_self]
      exact refused_while_recorded after recorded orderedRest before entry present same alive

/-- This holds of every run from a new zone. -/
theorem init_accepted_apart (rb : Balanced Nat) (crc : Bytes → UInt32) {calls : List Call}
    (ordered : calls.Pairwise fun earlier later => earlier.now ≤ later.now) :
    ((init rb).history crc calls).Pairwise fun earlier later =>
      earlier.2 = .ok → later.1.key = earlier.1.key → later.1.now ≤ earlier.1.now + earlier.1.ttl →
        later.2 ≠ .ok := by
  cases calls with
  | nil => exact List.Pairwise.nil
  | cons first rest =>
      refine accepted_apart (init_refines rb crc first.now) ordered ?_
      intro call inside
      rcases List.mem_cons.mp inside with rfl | inside
      · exact le_refl _
      · exact (List.pairwise_cons.mp ordered).1 call inside

end World
open Profile

/-- A call presents a signature when it passes the time window of step 11 and takes its lifetime
from the signature. -/
def Presents (ctx : Ctx) (sig : Signature) (call : Call) : Prop :=
  timeWindow ctx call.now sig = true ∧ call.ttl = storeTtl sig.expires ctx.maxSkew call.now

instance (ctx : Ctx) (sig : Signature) (call : Call) : Decidable (Presents ctx sig call) :=
  inferInstanceAs (Decidable (_ ∧ _))

/-- A record is kept for at least a second. -/
theorem storeTtl_pos (expires maxSkew now : Int) : 1 ≤ storeTtl expires maxSkew now := by
  dsimp only [storeTtl]
  split <;> omega

/-- A record lives through the last second of the time window. -/
theorem storeTtl_covers (expires maxSkew now : Int) :
    expires + maxSkew ≤ now + storeTtl expires maxSkew now := by
  dsimp only [storeTtl]
  split <;> omega

/-- A signature inside its window has not expired beyond the skew. -/
theorem timeWindow_expires {ctx : Ctx} {now : Int} {sig : Signature} (carried : .expires ∈ sig.present)
    (inside : timeWindow ctx now sig = true) : now ≤ sig.expires + ctx.maxSkew := by
  have present : sig.present.contains .expires = true := List.contains_iff_mem.mpr carried
  simp only [timeWindow, present, Bool.and_eq_true, Bool.not_eq_true', Bool.true_and, Bool.or_eq_false_iff,
    decide_eq_false_iff_not] at inside
  have := inside.2.1
  omega

/-- This is step 11 in the signed arithmetic of C. -/
def timeWindow64 (ctx : Ctx) (now : Int) (sig : Signature) : Option Bool := do
  if sig.present.contains .created then
    let latest ← Checked.add now ctx.maxSkew
    if latest < sig.created then return false
  if sig.present.contains .expires then
    let earliest ← Checked.sub now ctx.maxSkew
    if sig.expires < earliest then return false
    if sig.present.contains .created then
      if sig.expires < sig.created then return false
      let lifetime ← Checked.sub sig.expires sig.created
      if ctx.expiresMax < lifetime then return false
  return true

/-- This is `ngx_auth_httpsig_nonce_store_ttl` in the signed arithmetic of C. -/
def storeTtl64 (expires maxSkew now : Int) : Option Int := do
  let deadline ← Checked.add expires maxSkew
  let ttl ← Checked.sub deadline now
  return if ttl < 1 then 1 else ttl

/-- An integer of a structured field has at most 15 digits. -/
def FieldInteger (value : Int) : Prop := value.natAbs < 10 ^ 15

/-- The clock and the skew are at most 32 bits wide and not negative. -/
def Unsigned32 (value : Int) : Prop := 0 ≤ value ∧ value < 2 ^ 32

/-- With the bounds of the fields the 64-bit window is the exact one. -/
theorem timeWindow64_eq {ctx : Ctx} {now : Int} {sig : Signature} (skew : Unsigned32 ctx.maxSkew)
    (clock : Unsigned32 now) (created : FieldInteger sig.created) (expires : FieldInteger sig.expires) :
    timeWindow64 ctx now sig = some (timeWindow ctx now sig) := by
  unfold Unsigned32 at skew clock
  unfold FieldInteger at created expires
  have latest : Checked.add now ctx.maxSkew = some (now + ctx.maxSkew) :=
    Checked.narrow_eq (show (2 : Int) ^ 33 < _ by norm_num) (by omega) (by omega)
  have earliest : Checked.sub now ctx.maxSkew = some (now - ctx.maxSkew) :=
    Checked.narrow_eq (show (2 : Int) ^ 33 < _ by norm_num) (by omega) (by omega)
  have lifetime : Checked.sub sig.expires sig.created = some (sig.expires - sig.created) :=
    Checked.narrow_eq (show (2 * 10 ^ 15 : Int) < _ by norm_num) (by omega) (by omega)
  unfold timeWindow64 timeWindow
  rw [latest, earliest, lifetime]
  cases sig.present.contains .created <;> cases sig.present.contains .expires <;>
    simp only [Option.bind_eq_bind, Option.bind_some, Option.pure_def] <;> split_ifs <;> simp_all

/-- With the bounds of the fields the 64-bit lifetime is the exact one. -/
theorem storeTtl64_eq {expires maxSkew now : Int} (skew : Unsigned32 maxSkew) (clock : Unsigned32 now)
    (fits : FieldInteger expires) :
    storeTtl64 expires maxSkew now = some (storeTtl expires maxSkew now) := by
  unfold Unsigned32 at skew clock
  unfold FieldInteger at fits
  have deadline : Checked.add expires maxSkew = some (expires + maxSkew) :=
    Checked.narrow_eq (show (2 * 10 ^ 15 : Int) < _ by norm_num) (by omega) (by omega)
  have ttl : Checked.sub (expires + maxSkew) now = some (expires + maxSkew - now) :=
    Checked.narrow_eq (show (2 * 10 ^ 15 : Int) < _ by norm_num) (by omega) (by omega)
  rw [storeTtl64, deadline, Option.bind_eq_bind, Option.bind_some, ttl]
  rfl

/-- The times of a selected signature are integers of a structured field. -/
theorem selectSignature_fieldIntegers {ctx : Ctx} {req : Base.Request} {dict : Sfv.Dictionary}
    {sig : Signature} (picked : selectSignature ctx req = .ok (dict, sig)) :
    FieldInteger sig.created ∧ FieldInteger sig.expires := by
  obtain ⟨_, _, inputDict, label, list, carried, _, _, parsed, _, _, _, entry, read, rfl, _⟩ :=
    selectSignature_eq_ok.mp picked
  have member : (label, Sfv.Member.innerList list) ∈ inputDict.entries := List.mem_of_find?_eq_some entry
  have wellFormed := (Sfv.parseDictionary_wellFormed parsed _ member).2
  have bounded {name : Bytes} {value : Option Int} (read : readInteger list.params name = some value) :
      FieldInteger (value.getD 0) := by
    cases value with
    | none => simp [FieldInteger]
    | some value =>
        have present := AssocList.mem_of_lookup (readInteger_eq_some.mp read)
        exact (wellFormed.params.spelled _ present).2
  rw [selected_eq]
  exact ⟨bounded read.created, bounded read.expires⟩

theorem length_le_one {α : Type} {entries : List α} (alone : entries.Pairwise fun _ _ => False) :
    entries.length ≤ 1 := by
  match entries, alone with
  | [], _ => exact Nat.zero_le 1
  | [_], _ => exact le_refl 1
  | _ :: second :: _, alone => exact ((List.pairwise_cons.mp alone).1 second (by simp)).elim

/-- A signature is accepted at most once, and its times never overflow. -/
theorem time_window_no_replay (rb : Balanced Nat) (crc : Bytes → UInt32) :
    (∀ (ctx : Ctx) (sig : Signature) (key : Bytes) (calls : List Call),
      .expires ∈ sig.present →
      (calls.Pairwise fun earlier later => earlier.now ≤ later.now) →
      (∀ call ∈ calls, call.key = key → Presents ctx sig call) →
      (((World.init rb).history crc calls).filter fun entry =>
        entry.1.key = key ∧ entry.2 = .ok).length ≤ 1) ∧
    (∀ (ctx : Ctx) (sig : Signature) (now : Int), Unsigned32 ctx.maxSkew → Unsigned32 now →
      FieldInteger sig.created → FieldInteger sig.expires →
      timeWindow64 ctx now sig = some (timeWindow ctx now sig) ∧
      storeTtl64 sig.expires ctx.maxSkew now = some (storeTtl sig.expires ctx.maxSkew now) ∧
      1 ≤ storeTtl sig.expires ctx.maxSkew now ∧
      Checked.add now (storeTtl sig.expires ctx.maxSkew now) =
        some (now + storeTtl sig.expires ctx.maxSkew now)) := by
  constructor
  · intro ctx sig key calls carried ordered presents
    -- An earlier accepted presentation is recorded through the end of the time window.
    have apart := List.Pairwise.and_mem.mp (World.init_accepted_apart rb crc ordered)
    refine length_le_one (List.pairwise_filter.mpr (apart.imp ?_))
    intro earlier later
    simp only [decide_eq_true_eq]
    rintro ⟨earlierIn, laterIn, refused⟩ ⟨earlierKey, accepted⟩ ⟨laterKey, again⟩
    have first := presents earlier.1 (World.mem_calls_of_history earlierIn) earlierKey
    have second := presents later.1 (World.mem_calls_of_history laterIn) laterKey
    have inside := timeWindow_expires carried second.1
    have covered := storeTtl_covers sig.expires ctx.maxSkew earlier.1.now
    rw [← first.2] at covered
    exact refused accepted (laterKey.trans earlierKey.symm) (by omega) again
  · intro ctx sig now skew clock created expires
    refine ⟨timeWindow64_eq skew clock created expires, storeTtl64_eq skew clock expires,
      storeTtl_pos _ _ _, ?_⟩
    have positive := storeTtl_pos sig.expires ctx.maxSkew now
    have small : storeTtl sig.expires ctx.maxSkew now ≤ 2 * 10 ^ 15 := by
      unfold Unsigned32 at skew clock
      unfold FieldInteger at expires
      dsimp only [storeTtl]
      split <;> omega
    unfold Unsigned32 at clock
    exact Checked.narrow_eq (show (3 * 10 ^ 15 : Int) < _ by norm_num) (by omega) (by omega)

/-- The sample signature expires at 1600, and the profile adds a skew of 60 seconds. -/
def expiringSignature : Signature :=
  { Signature.zero with created := 1000, expires := 1600, present := [.created, .expires] }

def sampleWindow : Ctx := ⟨webBotAuth, none, none, 86400, 60, 0⟩

/-- The second presentation comes in the last second of the window. -/
def presentations : List Call :=
  [⟨ascii "a", 460, 1200, twoSlots⟩, ⟨ascii "b", 1, 1300, twoSlots⟩, ⟨ascii "a", 1, 1660, twoSlots⟩]

/-- A replay in the last second of the record is declined. -/
theorem time_window_no_replay_last_second :
    (((World.init (plain Nat)).history crc32Long presentations).filter fun entry =>
        entry.1.key = ascii "a" ∧ entry.2 = .ok).length ≤ 1 ∧
      ((World.init (plain Nat)).history crc32Long presentations).map Prod.snd = [.ok, .ok, .declined] ∧
      storeTtl64 1600 60 1660 = some 1 :=
  ⟨(time_window_no_replay (plain Nat) crc32Long).1 sampleWindow expiringSignature (ascii "a") presentations
      (by decide) (by decide +kernel) (by decide +kernel),
    by decide +kernel,
    ((time_window_no_replay (plain Nat) crc32Long).2 sampleWindow expiringSignature 1660
      ⟨by decide, by decide⟩ ⟨by decide, by decide⟩ (by simp [FieldInteger, expiringSignature])
      (by simp [FieldInteger, expiringSignature])).2.1⟩

end AuthHttpsig.NonceStore
