/-
This file shows that the form encoding of the base is the standard one, and when a query parameter has
the value that the standard gives it.
-/

import AuthHttpsig.Construction.Base
import AuthHttpsig.Library.FormUrlencoded

namespace AuthHttpsig.Base
open Ascii Sfv FormUrlencoded

/-- The two tests of a hexadecimal digit agree, and so do its values. -/
theorem hexValue_eq (c : UInt8) : hexValue c = if isHex c then some (hexVal c) else none := by
  grind [hexValue, isHex, hexVal, isDigit]

/-- A plus sign is a digit neither before nor after it becomes a space. -/
theorem hexValue_plusToSpace (c : UInt8) : hexValue (plusToSpace c) = if isHex c then some (hexVal c) else none := by
  unfold plusToSpace
  split
  · rename_i isPlus
    rw [isPlus]
    rfl
  · exact hexValue_eq c

/-- An escape stands for sixteen times its first digit plus its second. -/
theorem hexOctet_eq (high low : UInt8) : hexOctet high low = UInt8.ofNat (16 * hexVal high + hexVal low) := by
  rw [hexOctet, Nat.mul_comm]

theorem formDecode_plus (rest : Bytes) : formDecode (plus :: rest) = sp :: formDecode rest :=
  percentDecode_cons (by decide) _

theorem formDecode_plain {c : UInt8} (notPlus : c ≠ plus) (notPercent : c ≠ percent) (rest : Bytes) :
    formDecode (c :: rest) = c :: formDecode rest := by
  rw [formDecode, List.map_cons, plusToSpace, if_neg notPlus]
  exact percentDecode_cons notPercent _

/-- An escape decodes to its octet, and anything else after the percent sign stays. -/
theorem formDecode_escape {high low : UInt8} (rest : Bytes) :
    formDecode (percent :: high :: low :: rest) =
      if isHex high && isHex low then hexOctet high low :: formDecode rest
      else percent :: formDecode (high :: low :: rest) := by
  have kept : plusToSpace percent = percent := rfl
  simp only [formDecode, List.map_cons, percentDecode, hexValue_plusToSpace, hexOctet_eq, kept]
  cases isHex high <;> cases isHex low <;> simp

/-- The decoder is the one of the standard. -/
theorem qsDecode_eq (raw : Bytes) : qsDecode raw = formDecode raw := by
  fun_induction qsDecode raw with
  | case1 => rfl
  | case2 c rest isPlus ih => rw [beq_iff_eq.mp isPlus, formDecode_plus, ih]
  | case3 c notPlus isPercent high low rest digits ih =>
      rw [beq_iff_eq.mp isPercent, formDecode_escape, if_pos digits, ih]
  | case4 c notPlus isPercent high low rest digits ih =>
      rw [beq_iff_eq.mp isPercent, formDecode_escape, if_neg digits, ih]
  | case5 c notPlus isPercent d ih =>
      rw [beq_iff_eq.mp isPercent, ih]
      rfl
  | case6 c notPlus isPercent =>
      rw [beq_iff_eq.mp isPercent]
      rfl
  | case7 c rest notPlus notPercent ih =>
      rw [formDecode_plain (by simpa using notPlus) (by simpa using notPercent), ih]

/-- One decoded octet is compared with one octet of the target. -/
theorem compared {c t : UInt8} {rest target : Bytes} {same : Bool} (ih : same = true ↔ rest = target) :
    (t == c && same) = true ↔ c :: rest = t :: target := by
  rw [Bool.and_eq_true, beq_iff_eq, ih, List.cons.injEq, eq_comm (a := t)]

/-- The comparison on the fly is the comparison of the decoded key. -/
theorem qsKeyEq_iff (raw target : Bytes) : qsKeyEq raw target = true ↔ qsDecode raw = target := by
  rw [qsDecode_eq]
  fun_induction qsKeyEq raw target with
  | case1 target => cases target <;> simp
  | case2 c rest => simp [formDecode_eq_nil]
  | case3 c rest t target isPlus ih =>
      rw [beq_iff_eq.mp isPlus, formDecode_plus]
      exact compared ih
  | case4 c t target notPlus isPercent high low after digits ih =>
      rw [beq_iff_eq.mp isPercent, formDecode_escape, if_pos digits]
      exact compared ih
  | case5 c t target notPlus isPercent high low after digits ih =>
      rw [beq_iff_eq.mp isPercent, formDecode_escape, if_neg digits]
      exact compared ih
  | case6 c t target notPlus isPercent d ih =>
      rw [beq_iff_eq.mp isPercent]
      exact compared ih
  | case7 c t target notPlus isPercent ih =>
      rw [beq_iff_eq.mp isPercent]
      exact compared ih
  | case8 c rest t target notPlus notPercent ih =>
      rw [formDecode_plain (by simpa using notPlus) (by simpa using notPercent)]
      exact compared ih

/-- The digit the source writes is that of the encoding. -/
theorem hexDigit_eq {value : Nat} (small : value < 16) : hexDigit value = hexChar value := by
  interval_cases value <;> rfl

/-- The source leaves unescaped what the encoding keeps. -/
theorem qsUnreserved_eq (c : UInt8) : qsUnreserved c = formKeeps c := by
  grind [qsUnreserved, formKeeps, isAlpha]

/-- The encoder is the one of the standard. -/
theorem qsEncode_eq (decoded : Bytes) : qsEncode decoded = formEncode decoded := by
  induction decoded with
  | nil => rfl
  | cons c rest ih =>
      have upper : c.toNat / 16 < 16 := by
        have bound := c.toNat_lt
        omega
      have lower : c.toNat % 16 < 16 := Nat.mod_lt _ (by decide)
      rw [qsEncode, formEncode_cons, formEncodeOctet, ih, hexDigit_eq upper, hexDigit_eq lower, qsUnreserved_eq]
      by_cases space : c = sp
      · simp [space]
      · cases formKeeps c <;> simp [space]

/-- The first pass of the encoder counts what the second one writes. -/
theorem foldl_cap (decoded : Bytes) (cap : Nat) :
    decoded.foldl (fun cap c => cap + if c == sp || qsUnreserved c then 1 else 3) cap =
      cap + (qsEncode decoded).length := by
  induction decoded generalizing cap with
  | nil => rfl
  | cons c rest ih =>
      rw [List.foldl_cons, ih, qsEncode]
      cases c == sp <;> cases qsUnreserved c <;> simp <;> omega

/-- The encoder fills what it allocates. -/
theorem qsEncode_length (decoded : Bytes) : (qsEncode decoded).length = qsEncodeCap decoded := by
  rw [qsEncodeCap, foldl_cap, Nat.zero_add]

/-- The decoder, the comparison and the encoder agree on every text. -/
theorem form_routines_agree :
    (∀ text, qsDecode (qsEncode text) = text ∧ (qsEncode text).length = qsEncodeCap text) ∧
      (∀ raw target, qsKeyEq raw target = true ↔ qsDecode raw = target) ∧
      (∀ left right, qsEncode (qsDecode left) = qsEncode (qsDecode right) ↔ qsDecode left = qsDecode right) ∧
      ∀ raw, qsEncode (qsDecode (qsEncode (qsDecode raw))) = qsEncode (qsDecode raw) := by
  have undone (text : Bytes) : qsDecode (qsEncode text) = text := by
    rw [qsDecode_eq, qsEncode_eq, formDecode_formEncode]
  refine ⟨fun text => ⟨undone text, qsEncode_length text⟩, qsKeyEq_iff, fun left right => ?_, fun raw => ?_⟩
  · exact (Function.LeftInverse.injective undone).eq_iff
  · rw [undone]

/-- The loop visits every sequence of the query except an empty last one. -/
def visited (query : Bytes) : List Bytes :=
  let sequences := query.splitOn ampersand
  if sequences.getLast? = some [] then sequences.dropLast else sequences

def rawName (sequence : Bytes) : Bytes := sequence.takeWhile (· != equals)

def rawValue (sequence : Bytes) : Bytes := (sequence.dropWhile (· != equals)).drop 1

/-- The sequence has the name. -/
def named (name sequence : Bytes) : Bool := qsDecode (rawName sequence) = name

/-- The loop keeps one value and rejects several. -/
def single : List Bytes → Except Reason (Option Bytes)
  | [] => .ok none
  | [value] => .ok (some value)
  | _ => .error .missingField

@[simp] theorem visited_nil : visited [] = [] := rfl

/-- Each pass of the loop takes one sequence off the query. -/
theorem visited_cons (c : UInt8) (rest : Bytes) :
    visited (c :: rest) = (c :: rest).takeWhile (· != ampersand) ::
      visited (((c :: rest).dropWhile (· != ampersand)).drop 1) := by
  have joined := List.takeWhile_append_dropWhile (p := (· != ampersand)) (l := c :: rest)
  have free : ampersand ∉ (c :: rest).takeWhile (· != ampersand) := by
    intro present
    have kept := List.mem_takeWhile_imp present
    simp at kept
  cases ends : (c :: rest).dropWhile (· != ampersand) with
  | nil =>
      rw [ends, List.append_nil] at joined
      have whole : (c :: rest).splitOn ampersand = [c :: rest] := List.splitOn_eq_singleton (joined ▸ free)
      simp [visited, whole, joined]
  | cons d after =>
      have stop : d = ampersand := by
        have stopped := List.head?_dropWhile_not (· != ampersand) (c :: rest)
        simpa [ends] using stopped
      rw [ends, stop] at joined
      have split := List.splitOn_append_cons_self_of_not_mem free after
      rw [joined] at split
      generalize (c :: rest).takeWhile (· != ampersand) = front at split
      obtain ⟨first, more, shape⟩ := List.exists_cons_of_ne_nil (List.splitOn_ne_nil ampersand after)
      rw [visited, split, List.drop_one, List.tail_cons, visited, shape]
      simp only [List.getLast?_cons_cons, List.dropLast_cons_cons]
      split <;> rfl

/-- The loop runs over the visited sequences. -/
theorem queryParamLoop_eq (name : Bytes) (fuel : Nat) (found : Option Bytes) (text : Bytes)
    (enough : text.length < fuel) :
    queryParamLoop name fuel found text =
      single (found.toList ++ ((visited text).filter (named name)).map rawValue) := by
  induction fuel generalizing found text with
  | zero => omega
  | succ fuel ih =>
      cases text with
      | nil => cases found <;> rfl
      | cons c rest =>
          have shorter : (((c :: rest).dropWhile (· != ampersand)).drop 1).length < fuel := by
            have dropped := (List.dropWhile_suffix (p := (· != ampersand)) (l := c :: rest)).length_le
            simp only [List.length_cons, List.length_drop] at *
            omega
          rw [queryParamLoop, visited_cons]
          by_cases same : named name ((c :: rest).takeWhile (· != ampersand)) = true
          · have matched := (qsKeyEq_iff _ name).mpr (of_decide_eq_true same)
            rw [rawName] at matched
            rw [List.filter_cons_of_pos same, if_pos matched]
            cases found with
            | none => exact ih _ _ shorter
            | some value => rfl
          · have unmatched : ¬ qsKeyEq
              (((c :: rest).takeWhile (· != ampersand)).takeWhile (· != equals)) name = true :=
              fun matched => same (decide_eq_true ((qsKeyEq_iff _ name).mp matched))
            rw [List.filter_cons_of_neg same, if_neg unmatched]
            exact ih _ _ shorter

/-- The tuples of the query that have the decoded name. -/
def matching (query name : Bytes) : List (Bytes × Bytes) :=
  (formParse query).filter fun tuple => tuple.1 = formDecode name

/-- The component has a value when the standard's parse has one tuple of the name, and the value is the
serialization of the tuple's value. -/
structure Follows (query name : Bytes) (result : Except Reason Bytes) : Prop where
  found : ∀ value, result = .ok value ↔
    ∃ decoded, matching query name = [(formDecode name, decoded)] ∧ value = formEncode decoded
  missing : (matching query name).length ≠ 1 → result = .error .missingField

/-- These ampersands come first in the query or right after another one. -/
def blanks (query : Bytes) : Nat := (query.splitOn ampersand).dropLast.count []

/-- These sequences begin with an equals sign. -/
def unnamed (query : Bytes) : Nat := (query.splitOn ampersand).countP fun sequence => sequence.head? = some equals

/-- The sequences of the name that the standard keeps. -/
def kept (query name : Bytes) : List Bytes :=
  ((query.splitOn ampersand).filter (· ≠ [])).filter (named (qsDecode name))

/-- The matching pairs are the kept sequences, decoded. -/
theorem matching_eq (query name : Bytes) :
    matching query name = (kept query name).map fun sequence =>
      (formDecode name, formDecode (rawValue sequence)) := by
  have test : (fun tuple : Bytes × Bytes => decide (tuple.1 = formDecode name)) ∘ tuple = named (qsDecode name) := by
    funext sequence
    simp [tuple, named, rawName, qsDecode_eq]
  rw [matching, formParse, List.filter_map, test, kept]
  refine List.map_congr_left fun sequence member => ?_
  have same := of_decide_eq_true (List.mem_filter.mp member).2
  simp only [qsDecode_eq] at same
  rw [← same]
  rfl

/-- The value of the only sequence is decoded and encoded again. -/
def outcome : List Bytes → Except Reason Bytes
  | [sequence] => .ok (qsEncode (qsDecode (rawValue sequence)))
  | _ => .error .missingField

/-- The component is the outcome of the visited sequences that carry the name. -/
theorem queryParam_eq (req : Request) (bare : BareItem) (name : Bytes) :
    queryParam req ⟨bare, [(ascii "name", .string name)]⟩ =
      outcome ((visited req.query).filter (named (qsDecode name))) := by
  have param : paramGet [(ascii "name", .string name)] (ascii "name") = some (.string name) := by
    simp [paramGet]
  rw [queryParam, param]
  dsimp only
  rw [queryParamLoop_eq _ _ _ _ (Nat.lt_succ_self _)]
  cases (visited req.query).filter (named (qsDecode name)) with
  | nil => rfl
  | cons first more => cases more <;> rfl

/-- The visited sequences that are not empty are the ones that the standard keeps. -/
theorem visited_filter (query : Bytes) :
    (visited query).filter (· ≠ []) = (query.splitOn ampersand).filter (· ≠ []) := by
  dsimp only [visited]
  split
  · rename_i last
    have split := List.dropLast_append_getLast? [] last
    generalize query.splitOn ampersand = sequences at split
    rw [← split, List.dropLast_concat, List.filter_append]
    simp
  · rfl

/-- The source visits an empty sequence for every blank of the query. -/
theorem visited_blank (query : Bytes) : (visited query).count [] = blanks query := by
  dsimp only [visited, blanks]
  split
  · rfl
  · rename_i last
    have split := List.dropLast_append_getLast (List.splitOn_ne_nil ampersand query)
    have filled : (query.splitOn ampersand).getLast (List.splitOn_ne_nil ampersand query) ≠ [] := by
      intro empty
      exact last (by rw [List.getLast?_eq_some_getLast (List.splitOn_ne_nil ampersand query), empty])
    rw [← split, List.count_append, List.dropLast_concat]
    simp [filled]

/-- An empty sequence has the empty name only. -/
theorem named_nil (name : Bytes) : named (qsDecode name) [] = true ↔ name = [] := by
  rw [named, decide_eq_true_eq, qsDecode_eq, qsDecode_eq]
  exact eq_comm.trans formDecode_eq_nil

/-- A sequence that is not empty has the empty name when it begins with an equals sign. -/
theorem named_unnamed (sequence : Bytes) :
    (named [] sequence && decide (sequence ≠ [])) = decide (sequence.head? = some equals) := by
  cases sequence with
  | nil => rfl
  | cons c rest => by_cases first : c = equals <;> simp [named, rawName, qsDecode_eq, formDecode_eq_nil, first]

/-- A selection has its sequences that are not empty, and the empty ones when it selects them. -/
theorem filter_blank (sequences : List Bytes) (selects : Bytes → Bool) :
    (sequences.filter selects).length = ((sequences.filter selects).filter (· ≠ [])).length +
      if selects [] then sequences.count [] else 0 := by
  induction sequences with
  | nil => simp
  | cons sequence rest ih =>
      rw [List.filter_cons]
      by_cases empty : sequence = []
      · rw [empty, List.count_cons_self]
        cases selected : selects [] with
        | true =>
            rw [selected, if_pos rfl] at ih
            simp only [if_true, List.length_cons, ih, ne_eq, not_true_eq_false, decide_false,
              Bool.false_eq_true, not_false_eq_true, List.filter_cons_of_neg]
            omega
        | false => simpa [selected] using ih
      · rw [List.count_cons_of_ne empty]
        cases selects sequence with
        | true =>
            rw [if_pos rfl, List.filter_cons_of_pos (by simpa using empty), List.length_cons, List.length_cons, ih]
            omega
        | false => exact ih

/-- The loop takes the sequences that the standard keeps, and the empty ones for the empty name. -/
theorem visited_named (query name : Bytes) :
    ((visited query).filter (named (qsDecode name))).filter (· ≠ []) = kept query name ∧
      ((visited query).filter (named (qsDecode name))).length =
        (kept query name).length + if name = [] then blanks query else 0 := by
  have parts : ((visited query).filter (named (qsDecode name))).filter (· ≠ []) = kept query name := by
    rw [kept, ← visited_filter, List.filter_filter, List.filter_filter]
    congr 1
    funext sequence
    rw [Bool.and_comm]
  refine ⟨parts, ?_⟩
  rw [filter_blank, parts, visited_blank]
  simp only [named_nil]

/-- The kept sequences of the empty name are the unnamed ones. -/
theorem kept_unnamed (query : Bytes) : (kept query []).length = unnamed query := by
  rw [kept, List.filter_filter, unnamed, List.countP_eq_length_filter]
  congr 2
  funext sequence
  exact named_unnamed sequence

/-- The field is missing unless there is exactly one sequence. -/
theorem outcome_missing {sequences : List Bytes} :
    outcome sequences = .error .missingField ↔ sequences.length ≠ 1 := by
  match sequences with
  | [] | _ :: _ :: _ => simp [outcome]
  | [_] => simp [outcome]

/-- Following the construction means having the outcome of the kept sequences. -/
theorem follows_iff (query name : Bytes) (result : Except Reason Bytes) :
    Follows query name result ↔ result = outcome (kept query name) := by
  have tuples := matching_eq query name
  have size : (matching query name).length = (kept query name).length := by rw [tuples, List.length_map]
  by_cases one : (kept query name).length = 1
  · obtain ⟨sequence, only⟩ := List.length_eq_one_iff.mp one
    rw [only, List.map_singleton] at tuples
    rw [only]
    have value : outcome [sequence] = .ok (formEncode (formDecode (rawValue sequence))) := by
      rw [outcome, qsEncode_eq, qsDecode_eq]
    rw [value]
    constructor
    · intro follows
      exact (follows.found _).mpr ⟨_, tuples, rfl⟩
    · rintro rfl
      refine ⟨fun value => ?_, fun several => absurd (size.trans one) several⟩
      rw [tuples]
      constructor
      · rintro ⟨⟩
        exact ⟨_, rfl, rfl⟩
      · rintro ⟨decoded, same, rfl⟩
        simp only [List.cons.injEq, Prod.mk.injEq, true_and, and_true] at same
        rw [same]
  · rw [outcome_missing.mpr one]
    constructor
    · intro follows
      exact follows.missing (size ▸ one)
    · rintro rfl
      refine ⟨fun value => ⟨fun ok => (nomatch ok), ?_⟩, fun _ => rfl⟩
      rintro ⟨decoded, only, _⟩
      rw [only] at size
      exact absurd size.symm one

/-- A query parameter follows the standard except for the empty name, and then too unless the query has one
tuple of this name and empty sequences, or no such tuple and one empty sequence. -/
theorem queryParam_follows_iff (req : Request) (bare : BareItem) (name : Bytes) :
    Follows req.query name (queryParam req ⟨bare, [(ascii "name", .string name)]⟩) ↔
      (name = [] → blanks req.query = 0 ∨ 2 ≤ unnamed req.query ∨ unnamed req.query = 0 ∧ 2 ≤ blanks req.query) := by
  obtain ⟨parts, size⟩ := visited_named req.query name
  rw [follows_iff, queryParam_eq]
  generalize (visited req.query).filter (named (qsDecode name)) = taken at parts size
  by_cases plain : name = [] ∧ blanks req.query ≠ 0
  · obtain ⟨rfl, some⟩ := plain
    have few := kept_unnamed req.query
    rw [if_pos rfl, few] at size
    simp only [true_implies, some, false_or]
    by_cases one : unnamed req.query = 1
    · -- The standard finds one tuple, and the loop also counts an empty sequence.
      have several : outcome taken = .error .missingField := outcome_missing.mpr (by omega)
      rw [several, eq_comm, outcome_missing, few]
      omega
    · have missing : outcome (kept req.query []) = .error .missingField := outcome_missing.mpr (by omega)
      rw [missing, outcome_missing, size]
      omega
  · have whole : taken = kept req.query name := by
      have whole : (taken.filter (· ≠ [])).length = taken.length := by
        rw [parts, size]
        split <;> simp_all
      rw [← parts]
      exact (List.filter_sublist.eq_of_length whole).symm
    rw [whole]
    simp only [true_iff]
    exact fun unnamed => .inl (by_contra fun some => plain ⟨unnamed, some⟩)

/-- The query is `&a=1`. -/
def blankRequest : Request where
  method := ascii "GET"
  scheme := ascii "https"
  authority := ascii "a.test"
  path := ascii "/"
  query := ascii "&a=1"
  hasQuery := true
  requestTarget := ascii "/?&a=1"
  targetDefined := true
  headers := []

/-- The loop takes the empty sequence before the ampersand for the parameter with the empty name. -/
theorem queryParam_blank :
    queryParam blankRequest ⟨.string (ascii "@query-param"), [(ascii "name", .string [])]⟩ = .ok [] ∧
      formParse blankRequest.query = [(ascii "a", ascii "1")] ∧
      ¬ Follows blankRequest.query []
        (queryParam blankRequest ⟨.string (ascii "@query-param"), [(ascii "name", .string [])]⟩) := by
  have taken : queryParam blankRequest ⟨.string (ascii "@query-param"), [(ascii "name", .string [])]⟩ = .ok [] := by
    decide +kernel
  have parsed : formParse blankRequest.query = [(ascii "a", ascii "1")] := by decide +kernel
  refine ⟨taken, parsed, fun follows => ?_⟩
  obtain ⟨decoded, only, _⟩ := (follows.found []).mp taken
  rw [matching, parsed] at only
  exact absurd only (by simp [ascii])

end AuthHttpsig.Base
