/-
This file says when the covered components of a base are distinct up to the order of their parameters.
-/

import AuthHttpsig.Proof.BaseComplete

namespace AuthHttpsig.Base
open Ascii Sfv Rfc9421

/-- Two identifiers are the same component when they have the same name and the same set of parameters. -/
def SameComponent (left right : Item) : Prop :=
  left.bare = right.bare ∧ ∀ param, param ∈ left.params ↔ param ∈ right.params

def keyFirst (key : Bytes) : Params := [(ascii "key", .string key), (ascii "sf", .boolean true)]

def flagFirst (key : Bytes) : Params := [(ascii "sf", .boolean true), (ascii "key", .string key)]

/-- The list covers one member of the agent field with its two parameters in both orders. -/
def Swapped (covered : InnerList) : Prop :=
  ∃ key, ⟨.string signatureAgent, keyFirst key⟩ ∈ covered.items ∧
    ⟨.string signatureAgent, flagFirst key⟩ ∈ covered.items

theorem queryParam_params {req : Request} {item : Item} {value : Bytes}
    (done : queryParam req item = .ok value) : item.params.length = 1 := by
  unfold queryParam at done
  split at done
  · rw [if_error_eq_ok] at done
    exact not_not.mp done.1
  · cases done

/-- A member of the agent field has one of two parameter lists beside the key alone. -/
theorem keyOnly_params {params : Params} {key : Bytes} (keyed : KeyOnly params key) :
    params.length = 1 ∨ params = keyFirst key ∨ params = flagFirst key := by
  obtain ⟨found, one | ⟨two, flag⟩⟩ := keyed
  · exact .inl one
  · right
    obtain ⟨first, second, rfl⟩ := List.length_eq_two.mp two
    have keyed := List.mem_pair.mp (AssocList.mem_of_lookup found)
    have flagged := List.mem_pair.mp (AssocList.mem_of_lookup flag)
    rcases keyed with rfl | rfl
    · rcases flagged with same | rfl
      · simp at same
      · exact .inl rfl
    · rcases flagged with rfl | same
      · exact .inr rfl
      · simp at same

/-- An item with a value has at most one parameter, or it is a member of the agent field. -/
theorem componentValue_params {req : Request} {item : Item} {value : Bytes}
    (done : componentValue req item = .ok value) :
    item.params.length ≤ 1 ∨
      ∃ key, item.bare = .string signatureAgent ∧ (item.params = keyFirst key ∨ item.params = flagFirst key) := by
  by_cases other : item.bare = .string (ascii "@query-param")
  · left
    have derived : deriveComponent req item (ascii "@query-param") = .ok value := by
      rw [componentValue, other] at done
      exact done
    rw [deriveComponent, if_error_eq_ok, deriveTable_find ⟨ascii "@query-param", .queryParam, false⟩
      (by simp [deriveTable])] at derived
    simp only [if_true, if_error_eq_ok] at derived
    exact (queryParam_params derived.2.2).le
  · cases (componentValue_eq_ok other).mp done with
    | derived | field => exact .inl (Nat.zero_le 1)
    | member keyed =>
        rcases keyOnly_params keyed with one | pair
        · exact .inl one.le
        · exact .inr ⟨_, rfl, pair⟩

/-- The loop keeps the labels distinct. -/
theorem buildLoop_labels {req : Request} {items : List Item} {labels : List Bytes} {buf result : Bytes}
    (done : buildLoop req items labels buf = .ok result) :
    (items.map writeItem).Nodup ∧ ∀ item ∈ items, writeItem item ∉ labels := by
  induction items generalizing labels buf with
  | nil => simp
  | cons item rest ih =>
      rw [buildLoop] at done
      split at done
      · simp only [if_error_eq_ok, bind_eq_ok, List.contains_eq_mem, decide_eq_true_eq] at done
        obtain ⟨fresh, _, _, _, _, _, _, _, _, _, _, done⟩ := done
        obtain ⟨distinct, apart⟩ := ih done
        refine ⟨List.nodup_cons.mpr ⟨?_, distinct⟩, ?_⟩
        · intro member
          obtain ⟨next, inside, same⟩ := List.mem_map.mp member
          exact apart next inside (by simp [same])
        · intro next member
          rcases List.mem_cons.mp member with rfl | inside
          · exact fresh
          · exact fun listed => apart next inside (List.mem_append_left _ listed)
      · cases done

/-- Each item of the loop has a value. -/
theorem buildLoop_valued {req : Request} {items : List Item} {labels : List Bytes} {buf result : Bytes}
    (done : buildLoop req items labels buf = .ok result) :
    ∀ item ∈ items, ∃ value, componentValue req item = .ok value := by
  obtain ⟨lines, matched, joined⟩ := buildLoop_eq_ok done
  clear joined done
  induction matched with
  | nil => simp
  | cons line _ ih =>
      obtain ⟨value, valued, _⟩ := line
      exact List.forall_mem_cons.mpr ⟨⟨value, valued⟩, ih⟩

/-- A list of at most one parameter is the only list of its set. -/
theorem few_params {few other : Params} (short : few.length ≤ 1)
    (shape : other.length ≤ 1 ∨ ∃ key, other = keyFirst key ∨ other = flagFirst key)
    (same : ∀ param, param ∈ few ↔ param ∈ other) : few = other := by
  match few with
  | [] =>
      have empty : other = [] := List.eq_nil_iff_forall_not_mem.mpr fun param present =>
        List.not_mem_nil ((same param).mpr present)
      rw [empty]
  | [param] =>
      have present := (same param).mp List.mem_cons_self
      have only (next : Bytes × BareItem) (inside : next ∈ other) : next = param :=
        List.mem_singleton.mp ((same next).mpr inside)
      rcases shape with one | ⟨key, two⟩
      · match other with
        | [] => cases present
        | [next] => rw [List.mem_singleton.mp present]
      · have key_present : (ascii "key", BareItem.string key) ∈ other := by
          rcases two with rfl | rfl <;> simp [keyFirst, flagFirst]
        have flag_present : (ascii "sf", BareItem.boolean true) ∈ other := by
          rcases two with rfl | rfl <;> simp [keyFirst, flagFirst]
        have clash := (only _ key_present).trans (only _ flag_present).symm
        simp at clash

/-- The set of two parameters names the key. -/
theorem two_params {params other : Params} {key otherKey : Bytes}
    (shape : params = keyFirst key ∨ params = flagFirst key)
    (otherShape : other = keyFirst otherKey ∨ other = flagFirst otherKey)
    (same : ∀ param, param ∈ params ↔ param ∈ other) : key = otherKey := by
  have present : (ascii "key", BareItem.string key) ∈ params := by
    rcases shape with rfl | rfl <;> simp [keyFirst, flagFirst]
  have found := (same _).mp present
  rcases otherShape with rfl | rfl <;> simpa [keyFirst, flagFirst] using found

/-- Two accepted items of one component are one item, or they are a member with its parameters swapped. -/
theorem sameComponent_cases {req : Request} {left right : Item} {first second : Bytes}
    (leftDone : componentValue req left = .ok first) (rightDone : componentValue req right = .ok second)
    (same : SameComponent left right) :
    left = right ∨ ∃ key, left = ⟨.string signatureAgent, keyFirst key⟩ ∧
        right = ⟨.string signatureAgent, flagFirst key⟩ ∨
      left = ⟨.string signatureAgent, flagFirst key⟩ ∧ right = ⟨.string signatureAgent, keyFirst key⟩ := by
  obtain ⟨leftBare, leftParams⟩ := left
  obtain ⟨rightBare, rightParams⟩ := right
  obtain ⟨bare, params⟩ := same
  dsimp only at bare params
  subst bare
  rcases componentValue_params leftDone with leftFew | ⟨key, agent, leftPair⟩
  · have whole : leftParams = rightParams := by
      rcases componentValue_params rightDone with rightFew | ⟨key, _, rightPair⟩
      · exact few_params leftFew (.inl rightFew) params
      · exact few_params leftFew (.inr ⟨key, rightPair⟩) params
    rw [whole]
    exact .inl rfl
  · rcases componentValue_params rightDone with rightFew | ⟨other, _, rightPair⟩
    · have whole : rightParams = leftParams :=
        few_params rightFew (.inr ⟨key, leftPair⟩) fun param => (params param).symm
      rw [whole]
      exact .inl rfl
    · obtain rfl := two_params leftPair rightPair params
      dsimp only at agent leftPair rightPair
      rw [agent]
      rcases leftPair with rfl | rfl <;> rcases rightPair with rfl | rfl
      · exact .inl rfl
      · exact .inr ⟨key, .inl ⟨rfl, rfl⟩⟩
      · exact .inr ⟨key, .inr ⟨rfl, rfl⟩⟩
      · exact .inl rfl

theorem sameComponent_swapped (key : Bytes) :
    SameComponent ⟨.string signatureAgent, keyFirst key⟩ ⟨.string signatureAgent, flagFirst key⟩ :=
  ⟨rfl, fun param => by simp [keyFirst, flagFirst, or_comm]⟩

theorem SameComponent.symm {left right : Item} (same : SameComponent left right) : SameComponent right left :=
  ⟨same.1.symm, fun param => (same.2 param).symm⟩

/-- The covered components of a base are distinct up to the order of parameters exactly when no member of
the agent field stands there with its two parameters in both orders. -/
theorem distinct_iff_not_swapped {req : Request} {covered : InnerList} {base : Bytes}
    (built : build req covered = .ok base) :
    (covered.items.Pairwise fun left right => ¬ SameComponent left right) ↔ ¬ Swapped covered := by
  simp only [build, if_error_eq_ok, bind_eq_ok] at built
  obtain ⟨_, buf, looped, _⟩ := built
  obtain ⟨distinct, _⟩ := buildLoop_labels looped
  have valued := buildLoop_valued looped
  constructor
  · rintro apart ⟨key, keyed, flagged⟩
    have symmetric : Std.Symm fun left right : Item => ¬ SameComponent left right :=
      ⟨fun left right other same => other same.symm⟩
    have differ : (⟨.string signatureAgent, keyFirst key⟩ : Item) ≠ ⟨.string signatureAgent, flagFirst key⟩ := by
      simp [keyFirst, flagFirst]
    exact apart.forall keyed flagged differ (sameComponent_swapped key)
  · intro plain
    have labels := List.pairwise_map.mp distinct
    refine labels.imp_of_mem ?_
    intro left right leftMember rightMember differ same
    obtain ⟨_, leftDone⟩ := valued left leftMember
    obtain ⟨_, rightDone⟩ := valued right rightMember
    rcases sameComponent_cases leftDone rightDone same with rfl | ⟨key, ⟨rfl, rfl⟩ | ⟨rfl, rfl⟩⟩
    · exact differ rfl
    · exact plain ⟨key, leftMember, rightMember⟩
    · exact plain ⟨key, rightMember, leftMember⟩

/-- The components of the sample list are distinct. -/
theorem distinct_iff_not_swapped_keyed :
    (keyedList.items.Pairwise fun left right => ¬ SameComponent left right) ↔ ¬ Swapped keyedList :=
  distinct_iff_not_swapped (show build keyedRequest keyedList = .ok (
    ascii "\"@path\": /\n" ++ ascii "\"x\": 1, 2\n" ++
      ascii "\"signature-agent\";key=\"s\": \"https://b.test\";v=1.5\n" ++
      ascii "\"@signature-params\": (\"@path\" \"x\" \"signature-agent\";key=\"s\");created=1") by decide +kernel)

/-- The agent field with one member, covered twice with its parameters swapped. -/
def swappedList : InnerList :=
  ⟨[⟨.string signatureAgent, keyFirst (ascii "s")⟩, ⟨.string signatureAgent, flagFirst (ascii "s")⟩],
    [(ascii "created", .integer 1)]⟩

/-- The two orders of the parameters of one member have different labels and the same value. -/
theorem build_swapped :
    build keyedRequest swappedList = .ok (
        ascii "\"signature-agent\";key=\"s\";sf: \"https://b.test\";v=1.5\n" ++
        ascii "\"signature-agent\";sf;key=\"s\": \"https://b.test\";v=1.5\n" ++
        ascii "\"@signature-params\": (\"signature-agent\";key=\"s\";sf \"signature-agent\";sf;key=\"s\");created=1") ∧
      ¬ swappedList.items.Pairwise fun left right => ¬ SameComponent left right := by
  refine ⟨by decide +kernel, fun apart => ?_⟩
  have first := List.rel_of_pairwise_cons apart List.mem_cons_self
  exact first (sameComponent_swapped (ascii "s"))

end AuthHttpsig.Base
