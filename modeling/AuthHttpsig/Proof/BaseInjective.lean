/-
This file shows that the signature base is collision-free: it determines the covered components
with their parameters and the value of each of them.
-/

import AuthHttpsig.Library.Lines
import AuthHttpsig.Construction.Base
import AuthHttpsig.Proof.SfvRoundTrip

namespace AuthHttpsig.Base
open Ascii Sfv Lines

/-- The server takes no request with a line feed in one of these parts. -/
structure Request.LineFree (req : Request) : Prop where
  method : lf ∉ req.method
  scheme : lf ∉ req.scheme
  authority : lf ∉ req.authority
  path : lf ∉ req.path
  query : lf ∉ req.query
  requestTarget : lf ∉ req.requestTarget
  headers : ∀ header ∈ req.headers, lf ∉ header.value

/-- The covered components are an inner list of a parsed dictionary or list. -/
def Parsed (covered : InnerList) : Prop :=
  (∃ input dict label, parseDictionary input = .ok dict ∧
    dictGet dict label = some (.innerList covered)) ∨
  ∃ input members, parseList input = .ok members ∧ Member.innerList covered ∈ members

/-- A parsed list is well formed. -/
theorem Parsed.wellFormed {covered : InnerList} (parsed : Parsed covered) : covered.WellFormed := by
  rcases parsed with ⟨input, dict, label, done, found⟩ | ⟨input, members, done, member⟩
  · exact (parseDictionary_wellFormed done _ (AssocList.mem_of_lookup found)).2
  · exact parseList_wellFormed done _ member

theorem lineFree_append {text more : Bytes} (free : lf ∉ text) (moreFree : lf ∉ more) :
    lf ∉ text ++ more := by
  simp [free, moreFree]

theorem lineFree_cons {c : UInt8} {text : Bytes} (different : lf ≠ c) (free : lf ∉ text) :
    lf ∉ c :: text := by
  simp [different, free]

/-- The path of a line-free request has no line feed. -/
theorem effectivePath_lineFree {req : Request} (lineFree : req.LineFree) : lf ∉ effectivePath req := by
  unfold effectivePath
  split
  · decide
  · exact lineFree.path

/-- The query of a line-free request has no line feed. -/
theorem queryValue_lineFree {req : Request} (lineFree : req.LineFree) : lf ∉ queryValue req :=
  lineFree_cons (by decide) lineFree.query

/-- The target URI of a line-free request has no line feed. -/
theorem targetUri_lineFree {req : Request} (lineFree : req.LineFree) : lf ∉ targetUri req := by
  unfold targetUri
  apply lineFree_append
  · exact lineFree_append (lineFree_append (lineFree_append lineFree.scheme (by decide))
      lineFree.authority) (effectivePath_lineFree lineFree)
  · split
    · exact queryValue_lineFree lineFree
    · simp

theorem hexDigit_ne_lf : ∀ value : Fin 16, hexDigit value ≠ lf := by
  decide +kernel

/-- The serializer passes unreserved octets only, so it writes no line feed. -/
theorem qsEncode_lineFree (decoded : Bytes) : lf ∉ qsEncode decoded := by
  induction decoded with
  | nil => simp [qsEncode]
  | cons c rest ih =>
      have bound := c.toNat_lt
      have high := hexDigit_ne_lf ⟨c.toNat / 16, by omega⟩
      have low := hexDigit_ne_lf ⟨c.toNat % 16, by omega⟩
      unfold qsEncode
      split
      · exact lineFree_cons (by decide) ih
      · split
        · next plain =>
            refine lineFree_cons ?_ ih
            rintro rfl
            exact absurd plain (by decide)
        · exact lineFree_cons (by decide) (lineFree_cons high.symm (lineFree_cons low.symm ih))

/-- A query parameter is encoded, so it has no line feed. -/
theorem queryParam_lineFree {req : Request} {component : Item} {value : Bytes}
    (done : queryParam req component = .ok value) : lf ∉ value := by
  unfold queryParam at done
  split at done
  · rw [if_error_eq_ok] at done
    obtain ⟨_, done⟩ := done
    rw [bind_eq_ok] at done
    obtain ⟨found, _, done⟩ := done
    split at done
    · simp at done
    · rw [pure_eq_ok] at done
      exact done ▸ qsEncode_lineFree _
  · simp at done

/-- Joining values without a line feed gives none. -/
theorem foldl_lineFree {values : List Bytes} {first : Bytes} (free : lf ∉ first)
    (all : ∀ value ∈ values, lf ∉ value) :
    lf ∉ values.foldl (fun joined value => joined ++ ascii ", " ++ value) first := by
  induction values generalizing first with
  | nil => exact free
  | cons value values ih =>
      exact ih (lineFree_append (lineFree_append free (by decide)) (all value (by simp)))
        fun other member => all other (by simp [member])

/-- A field of a line-free request has no line feed. -/
theorem fieldValue_lineFree {req : Request} (lineFree : req.LineFree) {name value : Bytes}
    (found : fieldValue req name = some value) : lf ∉ value := by
  have all : ∀ value ∈ (req.headers.filter fun header => header.name == name).map Header.value,
      lf ∉ value := by
    intro value member
    obtain ⟨header, inside, rfl⟩ := List.mem_map.mp member
    exact lineFree.headers header (List.mem_of_mem_filter inside)
  unfold fieldValue at found
  split at found
  · cases found
  · next first more shape =>
      rw [shape] at all
      simp only [Option.some.injEq] at found
      exact found ▸ foldl_lineFree (all first (by simp)) fun other member => all other (by simp [member])

/-- A written member has no line feed. -/
theorem fieldAgentMember_lineFree {req : Request} {key value : Bytes}
    (done : fieldAgentMember req key = .ok value) : lf ∉ value := by
  unfold fieldAgentMember at done
  split at done
  · simp at done
  · split at done
    · simp at done
    · next dict parsed =>
        split at done
        · simp at done
        · next member found =>
            simp only [Except.ok.injEq] at done
            exact done ▸ writeMember_lineFree member
              (parseDictionary_wellFormed parsed _ (AssocList.mem_of_lookup found)).2

/-- A field component of a line-free request has no line feed. -/
theorem field_lineFree {req : Request} (lineFree : req.LineFree) {name value : Bytes} {params : Params}
    (done : field req name params = .ok value) : lf ∉ value := by
  unfold field at done
  rw [if_error_eq_ok] at done
  obtain ⟨_, done⟩ := done
  split at done
  · exact fieldAgentMember_lineFree done
  · rw [bind_eq_ok] at done
    obtain ⟨_, _, done⟩ := done
    split at done
    · simp at done
    · next found =>
        rw [pure_eq_ok] at done
        exact done ▸ fieldValue_lineFree lineFree found

/-- A derived component of a line-free request has no line feed. -/
theorem deriveComponent_lineFree {req : Request} (lineFree : req.LineFree) {component : Item}
    {name value : Bytes} (done : deriveComponent req component name = .ok value) : lf ∉ value := by
  unfold deriveComponent at done
  rw [if_error_eq_ok] at done
  obtain ⟨_, done⟩ := done
  split at done
  · simp at done
  · next derive _ =>
      split at done
      · rw [if_error_eq_ok] at done
        exact queryParam_lineFree done.2
      · rw [bind_eq_ok] at done
        obtain ⟨_, _, done⟩ := done
        rw [if_error_eq_ok] at done
        obtain ⟨_, done⟩ := done
        split at done <;> simp only [pure_eq_ok, reduceCtorEq] at done <;> subst done
        · exact lineFree.method
        · exact lineFree.scheme
        · exact lineFree.authority
        · exact effectivePath_lineFree lineFree
        · exact queryValue_lineFree lineFree
        · exact lineFree.requestTarget
        · exact targetUri_lineFree lineFree

/-- No component of a line-free request has a line feed. -/
theorem componentValue_lineFree {req : Request} (lineFree : req.LineFree) {component : Item}
    {value : Bytes} (done : componentValue req component = .ok value) : lf ∉ value := by
  unfold componentValue at done
  split at done
  · split at done
    · exact deriveComponent_lineFree lineFree done
    · exact field_lineFree lineFree done
  · simp at done

/-- A put appends. -/
theorem bufPut_eq_ok {buf data result : Bytes} (done : bufPut buf data = .ok result) :
    result = buf ++ data := by
  rw [bufPut, if_error_eq_ok, Except.ok.injEq] at done
  exact done.2.symm

/-- The line of a component is its serialization, a colon, a space and its value. -/
def ComponentLine (req : Request) (component : Item) (line : Bytes) : Prop :=
  ∃ value, componentValue req component = .ok value ∧ line = writeItem component ++ ascii ": " ++ value

def paramsLine (covered : InnerList) : Bytes := ascii "\"@signature-params\": " ++ writeInnerList covered

/-- The loop appends one line for each component. -/
theorem buildLoop_eq_ok {req : Request} {items : List Item} {labels : List Bytes} {buf result : Bytes}
    (done : buildLoop req items labels buf = .ok result) :
    ∃ lines, List.Forall₂ (ComponentLine req) items lines ∧
      ∀ last, result ++ last = buf ++ joinLines lf lines last := by
  induction items generalizing labels buf with
  | nil =>
      simp only [buildLoop, Except.ok.injEq] at done
      exact ⟨[], .nil, by simp [done]⟩
  | cons component rest ih =>
      unfold buildLoop at done
      split at done
      · simp only [if_error_eq_ok, bind_eq_ok] at done
        obtain ⟨_, value, derived, one, first, two, second, three, third, four, fourth, done⟩ := done
        obtain ⟨lines, matched, joined⟩ := ih done
        refine ⟨(writeItem component ++ ascii ": " ++ value) :: lines, .cons ⟨value, derived, rfl⟩ matched, ?_⟩
        intro last
        rw [joined, bufPut_eq_ok fourth, bufPut_eq_ok third, bufPut_eq_ok second, bufPut_eq_ok first]
        simp
      · simp at done

/-- A base is the lines of the covered components and the line of the signature parameters. -/
theorem build_eq_ok {req : Request} {covered : InnerList} {text : Bytes}
    (done : build req covered = .ok text) :
    ∃ lines, List.Forall₂ (ComponentLine req) covered.items lines ∧
      text = joinLines lf lines (paramsLine covered) := by
  simp only [build, if_error_eq_ok, bind_eq_ok] at done
  obtain ⟨_, buf, looped, next, first, second⟩ := done
  obtain ⟨lines, matched, joined⟩ := buildLoop_eq_ok looped
  refine ⟨lines, matched, ?_⟩
  rw [bufPut_eq_ok second, bufPut_eq_ok first, List.append_assoc, joined]
  rfl

/-- A line of the base has no line feed of its own. -/
theorem componentLine_lineFree {req : Request} (lineFree : req.LineFree) {component : Item}
    (wellFormed : component.WellFormed) {line : Bytes} (matched : ComponentLine req component line) :
    lf ∉ line := by
  obtain ⟨value, derived, rfl⟩ := matched
  exact lineFree_append (lineFree_append (writeMember_lineFree (.item component) wellFormed)
    (by decide)) (componentValue_lineFree lineFree derived)

/-- No line of the base has a line feed of its own. -/
theorem lines_lineFree {req : Request} (lineFree : req.LineFree) {items : List Item}
    (wellFormed : ∀ item ∈ items, item.WellFormed) {lines : List Bytes}
    (matched : List.Forall₂ (ComponentLine req) items lines) : ∀ line ∈ lines, lf ∉ line := by
  induction matched with
  | nil => simp
  | cons head _ ih =>
      intro line member
      rcases List.mem_cons.mp member with rfl | inside
      · exact componentLine_lineFree lineFree (wellFormed _ (by simp)) head
      · exact ih (fun item member => wellFormed item (by simp [member])) line inside

/-- The parameter line has no line feed of its own. -/
theorem paramsLine_lineFree {covered : InnerList} (wellFormed : covered.WellFormed) :
    lf ∉ paramsLine covered :=
  lineFree_append (by decide) (writeMember_lineFree (.innerList covered) wellFormed)

/-- Equal lines of the same components hold equal values. -/
theorem same_values {req other : Request} {items : List Item} {lines : List Bytes}
    (matched : List.Forall₂ (ComponentLine req) items lines)
    (otherMatched : List.Forall₂ (ComponentLine other) items lines) :
    ∀ component ∈ items, ∃ value, componentValue req component = .ok value ∧
      componentValue other component = .ok value := by
  induction matched with
  | nil => simp
  | cons head _ ih =>
      cases otherMatched with
      | cons otherHead otherTail =>
          intro component member
          rcases List.mem_cons.mp member with rfl | inside
          · obtain ⟨value, derived, shape⟩ := head
            obtain ⟨otherValue, otherDerived, otherShape⟩ := otherHead
            rw [shape] at otherShape
            rw [List.append_cancel_left otherShape] at derived
            exact ⟨otherValue, derived, otherDerived⟩
          · exact ih otherTail component inside

/-- Equal bases of line-free requests cover the same components with the same values. -/
theorem build_injective {req other : Request} {covered otherCovered : InnerList} {text : Bytes}
    (lineFree : req.LineFree) (otherLineFree : other.LineFree)
    (wellFormed : covered.WellFormed) (otherWellFormed : otherCovered.WellFormed)
    (built : build req covered = .ok text) (otherBuilt : build other otherCovered = .ok text) :
    covered = otherCovered ∧ ∀ component ∈ covered.items, ∃ value,
      componentValue req component = .ok value ∧ componentValue other component = .ok value := by
  obtain ⟨lines, matched, joined⟩ := build_eq_ok built
  obtain ⟨otherLines, otherMatched, otherJoined⟩ := build_eq_ok otherBuilt
  obtain ⟨rfl, last⟩ := joinLines_injective
    (lines_lineFree lineFree wellFormed.items matched) (paramsLine_lineFree wellFormed)
    (lines_lineFree otherLineFree otherWellFormed.items otherMatched)
    (paramsLine_lineFree otherWellFormed) (joined.symm.trans otherJoined)
  obtain rfl := writeInnerList_injective wellFormed otherWellFormed (List.append_cancel_left last)
  exact ⟨rfl, same_values matched otherMatched⟩

/-- Equal signature bases cover equal components with equal values. -/
theorem build_collision_free {req other : Request} {covered otherCovered : InnerList} {text : Bytes}
    (lineFree : req.LineFree) (otherLineFree : other.LineFree)
    (parsed : Parsed covered) (otherParsed : Parsed otherCovered)
    (built : build req covered = .ok text) (otherBuilt : build other otherCovered = .ok text) :
    covered = otherCovered ∧ ∀ component ∈ covered.items, ∃ value,
      componentValue req component = .ok value ∧ componentValue other component = .ok value :=
  build_injective lineFree otherLineFree parsed.wellFormed otherParsed.wellFormed built otherBuilt

/-- The method may differ because the base does not cover it. -/
theorem build_collision_free_authority :
    ∃ value,
      componentValue ⟨ascii "GET", ascii "https", ascii "a.test", ascii "/", [], false, ascii "/", true, []⟩
        ⟨.string (ascii "@authority"), []⟩ = .ok value ∧
      componentValue ⟨ascii "PUT", ascii "https", ascii "a.test", ascii "/", [], false, ascii "/", true, []⟩
        ⟨.string (ascii "@authority"), []⟩ = .ok value :=
  (@build_collision_free
    ⟨ascii "GET", ascii "https", ascii "a.test", ascii "/", [], false, ascii "/", true, []⟩
    ⟨ascii "PUT", ascii "https", ascii "a.test", ascii "/", [], false, ascii "/", true, []⟩
    ⟨[⟨.string (ascii "@authority"), []⟩], []⟩
    ⟨[⟨.string (ascii "@authority"), []⟩], []⟩
    (ascii "\"@authority\": a.test\n\"@signature-params\": (\"@authority\")")
    ⟨by decide, by decide, by decide, by decide, by decide, by decide, by decide⟩
    ⟨by decide, by decide, by decide, by decide, by decide, by decide, by decide⟩
    (.inl ⟨ascii "sig=(\"@authority\")",
      ⟨[(ascii "sig", .innerList ⟨[⟨.string (ascii "@authority"), []⟩], []⟩)], false⟩, ascii "sig",
      by decide +kernel, by decide +kernel⟩)
    (.inl ⟨ascii "sig=(\"@authority\")",
      ⟨[(ascii "sig", .innerList ⟨[⟨.string (ascii "@authority"), []⟩], []⟩)], false⟩, ascii "sig",
      by decide +kernel, by decide +kernel⟩)
    (by decide +kernel) (by decide +kernel)).2 ⟨.string (ascii "@authority"), []⟩ (by decide)

end AuthHttpsig.Base
