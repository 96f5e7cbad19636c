/-
This file gives programs that call their surroundings, and the rules about every answer they can get.
-/

import Mathlib.Tactic

namespace AuthHttpsig

/-- A program stops, or it calls its surroundings and goes on with the answer. -/
inductive Prog (Op : Type) (Answer : Op → Type) (α : Type) where
  | done (value : α)
  | call (op : Op) (next : Answer op → Prog Op Answer α)

namespace Prog

variable {Op : Type} {Answer : Op → Type} {α β : Type}

def bind : Prog Op Answer α → (α → Prog Op Answer β) → Prog Op Answer β
  | done value, rest => rest value
  | call op next, rest => call op fun answer => (next answer).bind rest

instance : Monad (Prog Op Answer) where
  pure := done
  bind := bind

/-- The program is a single call. -/
def ask (op : Op) : Prog Op Answer (Answer op) := call op done

@[simp] theorem pure_eq (value : α) : (pure value : Prog Op Answer α) = done value := rfl

@[simp] theorem done_bind (value : α) (rest : α → Prog Op Answer β) :
    (done value : Prog Op Answer α) >>= rest = rest value := rfl

@[simp] theorem call_bind (op : Op) (next : Answer op → Prog Op Answer α) (rest : α → Prog Op Answer β) :
    call op next >>= rest = call op fun answer => next answer >>= rest := rfl

@[simp] theorem ask_bind (op : Op) (rest : Answer op → Prog Op Answer β) :
    ask op >>= rest = call op rest := rfl

/-- A call and its answer are one event. -/
abbrev Event (Op : Type) (Answer : Op → Type) : Type := (op : Op) × Answer op

/-- Whatever the answers are, the program stops with the condition on its events and its value. -/
def Always (post : List (Event Op Answer) → α → Prop) :
    List (Event Op Answer) → Prog Op Answer α → Prop
  | past, done value => post past value
  | past, call op next => ∀ answer, (next answer).Always post (past ++ [⟨op, answer⟩])

@[simp] theorem always_done (post : List (Event Op Answer) → α → Prop) (past : List (Event Op Answer))
    (value : α) : (done value).Always post past ↔ post past value := Iff.rfl

@[simp] theorem always_call (post : List (Event Op Answer) → α → Prop) (past : List (Event Op Answer))
    (op : Op) (next : Answer op → Prog Op Answer α) :
    (call op next).Always post past ↔ ∀ answer, (next answer).Always post (past ++ [⟨op, answer⟩]) := Iff.rfl

/-- What always holds at the end may be weakened. -/
theorem Always.imp {post other : List (Event Op Answer) → α → Prop} {program : Prog Op Answer α}
    {past : List (Event Op Answer)} (always : program.Always post past)
    (weaker : ∀ events value, post events value → other events value) : program.Always other past := by
  induction program generalizing past with
  | done value => exact weaker past value always
  | call op next ih => exact fun answer => ih answer (always answer)

/-- Two facts that always hold at the end always hold together. -/
theorem Always.and {post other : List (Event Op Answer) → α → Prop} {program : Prog Op Answer α}
    {past : List (Event Op Answer)} (first : program.Always post past) (second : program.Always other past) :
    program.Always (fun events value => post events value ∧ other events value) past := by
  induction program generalizing past with
  | done value => exact ⟨first, second⟩
  | call op next ih => exact fun answer => ih answer (first answer) (second answer)

/-- The events only grow. -/
theorem always_extends (program : Prog Op Answer α) (past : List (Event Op Answer)) :
    program.Always (fun events _ => past <+: events) past := by
  induction program generalizing past with
  | done value => exact List.prefix_refl past
  | call op next ih =>
      intro answer
      apply (ih answer (past ++ [(⟨op, answer⟩ : Event Op Answer)])).imp
      intro events value extends_
      exact (List.prefix_append past _).trans extends_

/-- A program that goes on is judged by the condition of its rest. -/
theorem always_bind {post : List (Event Op Answer) → β → Prop} {program : Prog Op Answer α}
    {rest : α → Prog Op Answer β} {past : List (Event Op Answer)} :
    (program >>= rest).Always post past ↔
      program.Always (fun events value => (rest value).Always post events) past := by
  induction program generalizing past with
  | done value => exact Iff.rfl
  | call op next ih => exact forall_congr' fun answer => ih answer

/-- The program has made these calls and goes on with the other program. -/
inductive Steps (program : Prog Op Answer α) : List (Event Op Answer) → Prog Op Answer α → Prop
  | refl : Steps program [] program
  | call {events op next} (before : Steps program events (call op next)) (answer : Answer op) :
      Steps program (events ++ [⟨op, answer⟩]) (next answer)

/-- What always holds at the end holds for the rest after some steps. -/
theorem Always.steps {post : List (Event Op Answer) → α → Prop} {program rest : Prog Op Answer α}
    {past events : List (Event Op Answer)} (always : program.Always post past)
    (steps : program.Steps events rest) : rest.Always post (past ++ events) := by
  induction steps with
  | refl => simpa using always
  | call _ answer ih =>
      rw [← List.append_assoc]
      exact ih answer

/-- Every call that the program can make is allowed. -/
def Only (allowed : Op → Prop) : Prog Op Answer α → Prop
  | done _ => True
  | call op next => allowed op ∧ ∀ answer, (next answer).Only allowed

@[simp] theorem only_done (allowed : Op → Prop) (value : α) :
    (done value : Prog Op Answer α).Only allowed := trivial

@[simp] theorem only_call (allowed : Op → Prop) (op : Op) (next : Answer op → Prog Op Answer α) :
    (call op next).Only allowed ↔ allowed op ∧ ∀ answer, (next answer).Only allowed := Iff.rfl

/-- Two programs in a row ask only what both may ask. -/
theorem Only.bind {allowed : Op → Prop} {program : Prog Op Answer α} {rest : α → Prog Op Answer β}
    (only : program.Only allowed) (onlyRest : ∀ value, (rest value).Only allowed) :
    (program >>= rest).Only allowed := by
  induction program with
  | done value => exact onlyRest value
  | call op next ih => exact ⟨only.1, fun answer => ih answer (only.2 answer)⟩

/-- What a program may ask may be widened. -/
theorem Only.imp {allowed other : Op → Prop} {program : Prog Op Answer α} (only : program.Only allowed)
    (weaker : ∀ op, allowed op → other op) : program.Only other := by
  induction program with
  | done value => trivial
  | call op next ih => exact ⟨weaker op only.1, fun answer => ih answer (only.2 answer)⟩

/-- The rest after some steps asks no more than the program. -/
theorem Only.steps {allowed : Op → Prop} {program rest : Prog Op Answer α}
    {events : List (Event Op Answer)} (only : program.Only allowed) (steps : program.Steps events rest) :
    rest.Only allowed := by
  induction steps with
  | refl => exact only
  | call _ answer ih => exact ih.2 answer

/-- The new events of such a program are allowed calls. -/
theorem Only.always {allowed : Op → Prop} {program : Prog Op Answer α} {past : List (Event Op Answer)}
    (only : program.Only allowed) :
    program.Always (fun events _ => ∃ new, events = past ++ new ∧ ∀ event ∈ new, allowed event.1) past := by
  induction program generalizing past with
  | done value => exact ⟨[], by simp, by simp⟩
  | call op next ih =>
      intro answer
      have always := @ih answer (past ++ [⟨op, answer⟩]) (only.2 answer)
      apply always.imp
      rintro events value ⟨new, rfl, newAllowed⟩
      exact ⟨⟨op, answer⟩ :: new, by simp, by simpa using ⟨only.1, newAllowed⟩⟩

/-- This is the value of the program when its surroundings answer in this way. -/
def run (answer : (op : Op) → Answer op) : Prog Op Answer α → α
  | done value => value
  | call op next => (next (answer op)).run answer

/-- These are the calls of the program when its surroundings answer in this way. -/
def trace (answer : (op : Op) → Answer op) : Prog Op Answer α → List (Event Op Answer)
  | done _ => []
  | call op next => ⟨op, answer op⟩ :: (next (answer op)).trace answer

section Run

variable (answer : (op : Op) → Answer op)

@[simp] theorem run_done (value : α) : (done value : Prog Op Answer α).run answer = value := rfl

@[simp] theorem run_call (op : Op) (next : Answer op → Prog Op Answer α) :
    (call op next).run answer = (next (answer op)).run answer := rfl

@[simp] theorem trace_done (value : α) : (done value : Prog Op Answer α).trace answer = [] := rfl

@[simp] theorem trace_call (op : Op) (next : Answer op → Prog Op Answer α) :
    (call op next).trace answer = ⟨op, answer op⟩ :: (next (answer op)).trace answer := rfl

/-- A sequence runs its rest on the value of its first program. -/
@[simp] theorem run_bind (program : Prog Op Answer α) (rest : α → Prog Op Answer β) :
    (program >>= rest).run answer = (rest (program.run answer)).run answer := by
  induction program with
  | done value => rfl
  | call op next ih => exact ih (answer op)

/-- The calls of two programs in a row are those of the first and those of the second. -/
@[simp] theorem trace_bind (program : Prog Op Answer α) (rest : α → Prog Op Answer β) :
    (program >>= rest).trace answer = program.trace answer ++ (rest (program.run answer)).trace answer := by
  induction program with
  | done value => rfl
  | call op next ih => exact congrArg (List.cons _) (ih (answer op))

/-- The program stops with the condition on its calls and its value. -/
def Yields (post : List (Event Op Answer) → α → Prop) (program : Prog Op Answer α) : Prop :=
  post (program.trace answer) (program.run answer)

@[simp] theorem yields_done (post : List (Event Op Answer) → α → Prop) (value : α) :
    (done value).Yields answer post ↔ post [] value := Iff.rfl

@[simp] theorem yields_call (post : List (Event Op Answer) → α → Prop) (op : Op)
    (next : Answer op → Prog Op Answer α) :
    (call op next).Yields answer post ↔
      (next (answer op)).Yields answer fun events => post (⟨op, answer op⟩ :: events) := Iff.rfl

/-- Two programs in a row yield what the second yields after the first. -/
theorem yields_bind {post : List (Event Op Answer) → β → Prop} {program : Prog Op Answer α}
    {rest : α → Prog Op Answer β} :
    (program >>= rest).Yields answer post ↔
      program.Yields answer fun events value => (rest value).Yields answer fun more => post (events ++ more) := by
  simp only [Yields, run_bind, trace_bind]

/-- What a run yields may be weakened. -/
theorem Yields.imp {post other : List (Event Op Answer) → α → Prop} {program : Prog Op Answer α}
    (yields : program.Yields answer post) (weaker : ∀ events value, post events value → other events value) :
    program.Yields answer other :=
  weaker _ _ yields

end Run

section Serve

variable {σ : Type} (handle : (op : Op) → σ → Answer op × σ)

/-- This is the value of the program, with the last state of the handler that answers its calls. -/
def serve : Prog Op Answer α → σ → α × σ
  | done value, state => (value, state)
  | call op next, state => (next (handle op state).1).serve (handle op state).2

/-- These are the calls of the program to a handler with a state. -/
def served : Prog Op Answer α → σ → List (Event Op Answer)
  | done _, _ => []
  | call op next, state => ⟨op, (handle op state).1⟩ :: (next (handle op state).1).served (handle op state).2

@[simp] theorem serve_done (value : α) (state : σ) :
    (done value : Prog Op Answer α).serve handle state = (value, state) := rfl

@[simp] theorem serve_call (op : Op) (next : Answer op → Prog Op Answer α) (state : σ) :
    (call op next).serve handle state = (next (handle op state).1).serve handle (handle op state).2 := rfl

@[simp] theorem served_done (value : α) (state : σ) : (done value : Prog Op Answer α).served handle state = [] := rfl

@[simp] theorem served_call (op : Op) (next : Answer op → Prog Op Answer α) (state : σ) :
    (call op next).served handle state =
      ⟨op, (handle op state).1⟩ :: (next (handle op state).1).served handle (handle op state).2 := rfl

/-- The rest of a sequence is served from the state that its first program leaves. -/
@[simp] theorem serve_bind (program : Prog Op Answer α) (rest : α → Prog Op Answer β) (state : σ) :
    (program >>= rest).serve handle state =
      (rest (program.serve handle state).1).serve handle (program.serve handle state).2 := by
  induction program generalizing state with
  | done value => rfl
  | call op next ih => exact ih _ _

/-- The second program is served in the state the first left. -/
@[simp] theorem served_bind (program : Prog Op Answer α) (rest : α → Prog Op Answer β) (state : σ) :
    (program >>= rest).served handle state = program.served handle state ++
      (rest (program.serve handle state).1).served handle (program.serve handle state).2 := by
  induction program generalizing state with
  | done value => rfl
  | call op next ih => exact congrArg (List.cons _) (ih _ _)

end Serve

end Prog
end AuthHttpsig
