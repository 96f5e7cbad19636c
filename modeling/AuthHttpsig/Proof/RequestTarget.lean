/-
This file shows that the path and the query of a snapshot recombine to the request target.
-/

import AuthHttpsig.Construction.Request
import AuthHttpsig.Proof.BaseComplete

namespace AuthHttpsig.Module
open Ascii Sfv Base

/-- A target in origin form is its own path and query. A target in absolute form has them after its scheme and
its authority. -/
inductive Target : Bytes → Bytes → Prop
  | origin (tail : Bytes) : Target (slash :: tail) (slash :: tail)
  | absolute {scheme authority rest : Bytes} (filled : scheme ≠ []) (chars : ∀ c ∈ scheme, isSchemeChar c = true)
      (inside : ∀ c ∈ authority, c ≠ slash ∧ c ≠ question)
      (start : ∀ c ∈ rest.head?, c = slash ∨ c = question) :
      Target (scheme ++ ascii "://" ++ authority ++ rest) rest

theorem dropWhile_authority {authority rest : Bytes} (inside : ∀ c ∈ authority, c ≠ slash ∧ c ≠ question)
    (start : ∀ c ∈ rest.head?, c = slash ∨ c = question) :
    (authority ++ rest).dropWhile (fun c => c != slash && c != question) = rest := by
  rw [List.dropWhile_append_of_pos (by simpa using inside)]
  cases rest with
  | nil => rfl
  | cons c rest =>
      have stop := start c rfl
      rw [List.dropWhile_cons_of_neg]
      rcases stop with rfl | rfl <;> simp

/-- The scanner finds the path and the query. -/
theorem pathQuery_eq {uri rest : Bytes} (target : Target uri rest) : pathQuery uri = rest := by
  cases target with
  | origin tail =>
      have stop : ¬ isSchemeChar slash = true := by decide
      rw [pathQuery, List.takeWhile_cons_of_neg stop]
      rfl
  | @absolute scheme authority _ filled chars inside start =>
      have stop : ¬ isSchemeChar colon = true := by decide
      have shape : scheme ++ ascii "://" ++ authority ++ rest =
          scheme ++ (colon :: slash :: slash :: (authority ++ rest)) := by
        simp only [List.append_assoc]
        rfl
      have front : (scheme ++ (colon :: slash :: slash :: (authority ++ rest))).takeWhile isSchemeChar = scheme := by
        rw [List.takeWhile_append_of_pos chars, List.takeWhile_cons_of_neg stop, List.append_nil]
      have back : (scheme ++ (colon :: slash :: slash :: (authority ++ rest))).dropWhile isSchemeChar =
          colon :: slash :: slash :: (authority ++ rest) := by
        rw [List.dropWhile_append_of_pos chars, List.dropWhile_cons_of_neg stop]
      rw [shape, pathQuery, front, back, if_pos]
      · exact dropWhile_authority inside start
      · simp only [Bool.and_eq_true, Bool.not_eq_true', List.isEmpty_eq_false_iff]
        exact ⟨filled, rfl⟩

/-- No target in one of the two forms is the asterisk. -/
theorem Target.ne_asterisk {uri rest : Bytes} (target : Target uri rest) : uri ≠ [asterisk] := by
  cases target with
  | origin tail =>
      rintro same
      exact absurd (List.cons.inj same).1 (by decide)
  | absolute filled =>
      intro same
      have long := congrArg List.length same
      simp [ascii] at long
      omega

/-- The question mark splits the path from the query. -/
theorem question_split (text : Bytes) :
    question ∉ text.takeWhile (· != question) ∧
      ∀ c query, text.dropWhile (· != question) = c :: query →
        text.takeWhile (· != question) ++ question :: query = text := by
  constructor
  · intro present
    have kept := List.mem_takeWhile_imp present
    simp at kept
  · intro c query ends
    have stop : c = question := by
      have stopped := List.head?_dropWhile_not (· != question) text
      simpa [ends] using stopped
    have joined := List.takeWhile_append_dropWhile (p := (· != question)) (l := text)
    rwa [ends, stop] at joined

/-- The three derived components agree with the path and the query of a defined target. -/
theorem derived_target {req : Request} (defined : req.targetDefined = true) :
    ∃ path query, componentValue req ⟨.string (ascii "@path"), []⟩ = .ok path ∧
      componentValue req ⟨.string (ascii "@query"), []⟩ = .ok query ∧
      componentValue req ⟨.string (ascii "@target-uri"), []⟩ =
        .ok (req.scheme ++ ascii "://" ++ req.authority ++ path ++ if req.hasQuery then query else []) ∧
      path ≠ [] ∧ query.head? = some question := by
  refine ⟨Rfc9421.noPath req.path, ascii "?" ++ req.query,
    (componentValue_eq_ok (by decide)).mpr (.derived (.path defined)),
    (componentValue_eq_ok (by decide)).mpr (.derived (.query defined)),
    (componentValue_eq_ok (by decide)).mpr (.derived (.targetUri defined)), ?_, rfl⟩
  unfold Rfc9421.noPath
  split
  · decide
  · assumption

/-- The path and the query of a request target recombine, and the derived components agree with them. -/
theorem target_recombines (scheme : Bytes) {raw : RawRequest} {rest : Bytes} (plain : raw.isConnect = false)
    (target : Target raw.unparsedUri rest) :
    ∃ req, buildRequest (some scheme) raw = some req ∧ question ∉ req.path ∧
      (req.path ++ if req.hasQuery then question :: req.query else []) = rest ∧
      req.requestTarget = raw.unparsedUri ∧
      ∃ path query, componentValue req ⟨.string (ascii "@path"), []⟩ = .ok path ∧
        componentValue req ⟨.string (ascii "@query"), []⟩ = .ok query ∧
        componentValue req ⟨.string (ascii "@target-uri"), []⟩ =
          .ok (req.scheme ++ ascii "://" ++ req.authority ++ path ++ if req.hasQuery then query else []) ∧
        path ≠ [] ∧ query.head? = some question := by
  have other : (raw.isConnect || raw.unparsedUri == [asterisk]) = false := by
    simpa [plain] using target.ne_asterisk
  have scanned := pathQuery_eq target
  obtain ⟨free, joined⟩ := question_split rest
  cases ends : rest.dropWhile (· != question) with
  | nil =>
      have whole : rest.takeWhile (· != question) = rest := by
        have parts := List.takeWhile_append_dropWhile (p := (· != question)) (l := rest)
        rwa [ends, List.append_nil] at parts
      refine ⟨_, by simp only [buildRequest, other, scanned, ends, Option.bind_eq_bind, Option.bind_some]; rfl,
        whole ▸ free, ?_, rfl, derived_target rfl⟩
      simp
  | cons c query =>
      refine ⟨_, by simp only [buildRequest, other, scanned, ends, Option.bind_eq_bind, Option.bind_some]; rfl,
        free, ?_, rfl, derived_target rfl⟩
      exact joined c query ends

/-- A second address in the query stays there. -/
theorem target_recombines_nested :
    ∃ req, buildRequest (some (ascii "https"))
        ⟨ascii "GET", false, ascii "http://a.test?u=http://b.test/?x", none, ascii "a.test", []⟩ = some req ∧
      question ∉ req.path ∧
      (req.path ++ if req.hasQuery then question :: req.query else []) = ascii "?u=http://b.test/?x" := by
  have chars : (ascii "http").all isSchemeChar = true := by decide
  have inside : (ascii "a.test").all (fun c => c ≠ slash ∧ c ≠ question) = true := by decide
  have start : ∀ c ∈ (ascii "?u=http://b.test/?x").head?, c = slash ∨ c = question := by
    rintro _ ⟨⟩
    exact .inr rfl
  have target : Target (ascii "http" ++ ascii "://" ++ ascii "a.test" ++ ascii "?u=http://b.test/?x")
      (ascii "?u=http://b.test/?x") :=
    .absolute (by decide) (List.all_eq_true.mp chars) (by simpa using inside) start
  obtain ⟨req, built, free, joined, _⟩ := target_recombines (ascii "https")
    (show (⟨ascii "GET", false, ascii "http://a.test?u=http://b.test/?x", none, ascii "a.test", []⟩ :
      RawRequest).isConnect = false from rfl) target
  exact ⟨req, built, free, joined⟩

end AuthHttpsig.Module
