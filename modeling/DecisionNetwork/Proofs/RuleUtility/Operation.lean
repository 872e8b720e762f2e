import DecisionNetwork.RuleUtility.Library
import Mathlib.Data.List.Forall2

/-!
Contract: runs of operations on rule utilities that were copied from one another.

Owns:
- `Operation`, a request to the rule utility of a handle, and `RuleLibrary.run`;
- `Operation.note`, which keeps something beside each utility while operations run;
- `Operation.record`, which keeps the assignments asked for since a utility last forgot its
  utilities;
- `run_noted` and `run_related`: a relation between a utility and what is kept beside it holds
  after every run if every operation keeps it;
- `get?_run_of_apart`: operations leave alone the utilities of all handles but their own.
-/

namespace DecisionNetwork

variable {α : Type}

/-- A request to the rule utility of a handle. -/
inductive Operation where
  | evaluate (handle : Nat) (full : Assignment)
  | clear (handle : Nat)
  | rename (handle : Nat) (old new : String)
  | clone (handle : Nat)

/-- The assignments asked of each utility since it last forgot its utilities. A copy starts with
none. -/
def Operation.record (requests : List (List Assignment)) : Operation → List (List Assignment)
  | .evaluate handle full => requests.modify handle fun earlier => earlier ++ [full]
  | .clear handle => requests.modify handle fun _ => []
  | .rename handle _ _ => requests.modify handle fun _ => []
  | .clone handle => if handle < requests.length then requests ++ [[]] else requests

namespace RuleLibrary

/-- The library after the utility of a handle was copied, the copy being added at the end. -/
def copy (library : RuleLibrary α) (handle : Nat) : RuleLibrary α :=
  match library.get? handle with
  | some utility => (library.add utility.clone).2
  | none => library

variable [Scalar α]

def perform (library : RuleLibrary α) : Operation → RuleLibrary α
  | .evaluate handle full => (library.evaluate handle full).2
  | .clear handle => library.modify handle RuleUtility.clear
  | .rename handle old new => library.modify handle fun utility => utility.renameVariable old new
  | .clone handle => library.copy handle

def run (library : RuleLibrary α) (operations : List Operation) : RuleLibrary α :=
  operations.foldl perform library

end RuleLibrary

/-- Lists stay related when related entries of one place are changed into related ones. -/
theorem forall₂_modify {ι κ : Type} {relation : ι → κ → Prop} {left : List ι} {right : List κ}
    {changeLeft : ι → ι} {changeRight : κ → κ} (place : Nat)
    (related : List.Forall₂ relation left right)
    (kept : ∀ first second, left[place]? = some first → right[place]? = some second →
      relation first second → relation (changeLeft first) (changeRight second)) :
    List.Forall₂ relation (left.modify place changeLeft) (right.modify place changeRight) := by
  induction related generalizing place with
  | nil => simp
  | @cons first second lefts rights head tail inductionHypothesis =>
      cases place with
      | zero =>
          rw [List.modify_zero_cons, List.modify_zero_cons]
          exact List.Forall₂.cons (kept first second rfl rfl head) tail
      | succ place =>
          rw [List.modify_succ_cons, List.modify_succ_cons]
          exact List.Forall₂.cons head (inductionHypothesis place kept)

theorem forall₂_getElem? {ι κ : Type} {relation : ι → κ → Prop} {left : List ι} {right : List κ}
    (related : List.Forall₂ relation left right) {place : Nat} {first : ι} {second : κ}
    (inLeft : left[place]? = some first) (inRight : right[place]? = some second) :
    relation first second := by
  obtain ⟨withinLeft, rfl⟩ := List.getElem?_eq_some_iff.1 inLeft
  obtain ⟨withinRight, rfl⟩ := List.getElem?_eq_some_iff.1 inRight
  exact related.get withinLeft withinRight

section Noted

variable {γ : Type} (start : γ) (ask : RuleUtility α → Assignment → γ → γ)

/-- The notes beside the utilities after an operation. A request changes the note of its utility;
a utility that forgets, or a copy, starts over. -/
def Operation.note (library : RuleLibrary α) (notes : List γ) : Operation → List γ
  | .evaluate handle full =>
    match library.get? handle with
    | some utility => notes.modify handle (ask utility full)
    | none => notes
  | .clear handle => notes.modify handle fun _ => start
  | .rename handle _ _ => notes.modify handle fun _ => start
  | .clone handle => if handle < notes.length then notes ++ [start] else notes

variable [Scalar α]

/-- The notes beside the utilities after a run. -/
def RuleLibrary.notes (library : RuleLibrary α) (notes : List γ) : List Operation → List γ
  | [] => notes
  | operation :: rest =>
    (library.perform operation).notes (operation.note start ask library notes) rest

variable {start ask} {relation : RuleUtility α → γ → Prop}
  (evaluated : ∀ utility note full, relation utility note →
    relation (utility.evaluate full).2 (ask utility full note))
  (cleared : ∀ utility note, relation utility note → relation utility.clear start)
  (cloned : ∀ utility note, relation utility note → relation utility.clone start)

include evaluated cleared cloned

theorem perform_noted (operation : Operation) {library : RuleLibrary α} {notes : List γ}
    (related : List.Forall₂ relation library.utilities notes) :
    List.Forall₂ relation (library.perform operation).utilities
      (operation.note start ask library notes) := by
  cases operation with
  | evaluate handle full =>
      show List.Forall₂ relation (library.evaluate handle full).2.utilities
        (match library.get? handle with
        | some utility => notes.modify handle (ask utility full)
        | none => notes)
      unfold RuleLibrary.evaluate
      cases found : library.get? handle with
      | none => exact related
      | some utility =>
          refine forall₂_modify handle related fun first second inLeft _ kept => ?_
          have same : utility = first := Option.some.inj (found.symm.trans inLeft)
          subst same
          exact evaluated utility second full kept
  | clear handle =>
      exact forall₂_modify handle related fun first second _ _ kept => cleared first second kept
  | rename handle old new =>
      exact forall₂_modify handle related fun first second _ _ kept => cleared first second kept
  | clone handle =>
      show List.Forall₂ relation (library.copy handle).utilities
        (if handle < notes.length then notes ++ [start] else notes)
      unfold RuleLibrary.copy
      cases found : library.get? handle with
      | none =>
          -- Without a utility there is no note either.
          have outside : notes.length ≤ handle :=
            related.length_eq ▸ List.getElem?_eq_none_iff.1 found
          rwa [if_neg (Nat.not_lt.2 outside)]
      | some utility =>
          obtain ⟨within, _⟩ := List.getElem?_eq_some_iff.1 found
          have withinNotes : handle < notes.length := related.length_eq ▸ within
          have kept := forall₂_getElem? related found (List.getElem?_eq_getElem withinNotes)
          rw [if_pos withinNotes]
          apply List.rel_append related
          exact List.Forall₂.cons (cloned utility _ kept) List.Forall₂.nil

theorem run_noted (operations : List Operation) {library : RuleLibrary α} {notes : List γ}
    (related : List.Forall₂ relation library.utilities notes) :
    List.Forall₂ relation (library.run operations).utilities
      (library.notes start ask notes operations) := by
  induction operations generalizing library notes with
  | nil => exact related
  | cons operation rest inductionHypothesis =>
      exact inductionHypothesis (perform_noted evaluated cleared cloned operation related)

end Noted

section Related

/-- The record of requests is a note, as long as there is one for each utility. -/
theorem record_eq_note (operation : Operation) {library : RuleLibrary α}
    {requests : List (List Assignment)}
    (sameLength : library.utilities.length = requests.length) :
    operation.record requests =
      operation.note [] (fun _ full earlier => earlier ++ [full]) library requests := by
  cases operation with
  | evaluate handle full =>
      show requests.modify handle (fun earlier => earlier ++ [full]) =
        match library.get? handle with
        | some _ => requests.modify handle fun earlier => earlier ++ [full]
        | none => requests
      cases found : library.get? handle with
      | none =>
          have outside : requests.length ≤ handle :=
            sameLength ▸ List.getElem?_eq_none_iff.1 found
          exact List.modify_eq_self outside
      | some utility => rfl
  | clear handle => rfl
  | rename handle old new => rfl
  | clone handle => rfl

variable [Scalar α] {relation : RuleUtility α → List Assignment → Prop}
  (evaluated : ∀ utility requests full, relation utility requests →
    relation (utility.evaluate full).2 (requests ++ [full]))
  (cleared : ∀ utility requests, relation utility requests → relation utility.clear [])
  (cloned : ∀ utility requests, relation utility requests → relation utility.clone [])

include evaluated cleared cloned

theorem perform_related (operation : Operation) {library : RuleLibrary α}
    {requests : List (List Assignment)}
    (related : List.Forall₂ relation library.utilities requests) :
    List.Forall₂ relation (library.perform operation).utilities (operation.record requests) := by
  rw [record_eq_note operation related.length_eq]
  exact perform_noted evaluated cleared cloned operation related

theorem run_related (operations : List Operation) {library : RuleLibrary α}
    {requests : List (List Assignment)}
    (related : List.Forall₂ relation library.utilities requests) :
    List.Forall₂ relation (library.run operations).utilities
      (operations.foldl Operation.record requests) := by
  induction operations generalizing library requests with
  | nil => exact related
  | cons operation rest inductionHypothesis =>
      exact inductionHypothesis (perform_related evaluated cleared cloned operation related)

end Related

section Apart

/-- The handle that an operation is about. -/
def Operation.handle : Operation → Nat
  | .evaluate handle _ => handle
  | .clear handle => handle
  | .rename handle _ _ => handle
  | .clone handle => handle

theorem get?_modify_self (library : RuleLibrary α) (handle : Nat)
    (change : RuleUtility α → RuleUtility α) :
    (library.modify handle change).get? handle = (library.get? handle).map change := by
  show (library.utilities.modify handle change)[handle]? = _
  exact List.getElem?_modify_eq change handle library.utilities

theorem get?_modify_of_ne (library : RuleLibrary α) {changed handle : Nat}
    (apart : changed ≠ handle) (change : RuleUtility α → RuleUtility α) :
    (library.modify changed change).get? handle = library.get? handle := by
  show (library.utilities.modify changed change)[handle]? = _
  exact List.getElem?_modify_ne change library.utilities apart

variable {library : RuleLibrary α} {handle : Nat} {utility : RuleUtility α}
  (found : library.get? handle = some utility)
include found

/-- A copy is added at the end. -/
theorem utilities_copy :
    (library.copy handle).utilities = library.utilities ++ [utility.clone] := by
  unfold RuleLibrary.copy
  rw [found]
  rfl

theorem get?_copy (copied : Nat) : (library.copy copied).get? handle = some utility := by
  cases copiedFound : library.get? copied with
  | none =>
      unfold RuleLibrary.copy
      rw [copiedFound]
      exact found
  | some other =>
      obtain ⟨within, _⟩ := List.getElem?_eq_some_iff.1 found
      show (library.copy copied).utilities[handle]? = some utility
      rw [utilities_copy copiedFound, List.getElem?_append_left within]
      exact found

variable [Scalar α]

theorem get?_perform_of_apart {operation : Operation}
    (apart : operation.handle ≠ handle ∨ operation = .clone handle) :
    (library.perform operation).get? handle = some utility := by
  cases operation with
  | evaluate asked full =>
      have differ : asked ≠ handle := apart.resolve_right (by simp)
      show (library.evaluate asked full).2.get? handle = some utility
      unfold RuleLibrary.evaluate
      cases library.get? asked with
      | none => exact found
      | some other => exact (get?_modify_of_ne library differ _).trans found
  | clear cleared =>
      exact (get?_modify_of_ne library (apart.resolve_right (by simp)) _).trans found
  | rename renamed old new =>
      exact (get?_modify_of_ne library (apart.resolve_right (by simp)) _).trans found
  | clone copied => exact get?_copy found copied

/-- Operations on other utilities leave one alone, and so does copying it. -/
theorem get?_run_of_apart (operations : List Operation)
    (apart : ∀ operation ∈ operations,
      operation.handle ≠ handle ∨ operation = .clone handle) :
    (library.run operations).get? handle = some utility := by
  induction operations generalizing library with
  | nil => exact found
  | cons operation rest inductionHypothesis =>
      apply inductionHypothesis
      · exact get?_perform_of_apart found (apart operation List.mem_cons_self)
      · exact fun other member => apart other (List.mem_cons_of_mem operation member)

end Apart

end DecisionNetwork
