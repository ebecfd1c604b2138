import Chartist.Json.Basic
import Chartist.Proofs.Lookup

/-!
# Members of objects

What is found under a name in an object, after a member was set (`Json.lookup_insert`), in an object
that is given by its members (`Json.lookup_sorted`), and in one that is laid over another
(`Json.lookup_overlay`). Only the members found under names tell objects apart for a reader, so
nothing is said of their order.
-/

namespace Chartist.Json

variable {α : Type}

/-- Setting a member changes what is found under its name. -/
theorem lookup_insert (name : String) (value : Json α) (members : List (String × Json α))
    (n : String) :
    (insert name value members).lookup n = if n = name then some value else members.lookup n := by
  induction members with
  | nil => rw [insert, lookup_cons_if]
  | cons member rest ih =>
      obtain ⟨key, old⟩ := member
      rw [insert]
      split
      next => rw [lookup_cons_if]
      next =>
        split
        next same =>
          subst same
          simp only [lookup_cons_if]
          split <;> rfl
        next other =>
          rw [lookup_cons_if, lookup_cons_if, ih]
          by_cases here : n = key
          · have absent : ¬ key = name := fun same => other same.symm
            simp [here, absent]
          · simp [here]

/-- The members of an object in the order of their names. -/
def sorted (members : List (String × Json α)) : List (String × Json α) :=
  members.foldl (fun done (name, value) => insert name value done) []

theorem object_eq (members : List (String × Json α)) : object members = .obj (sorted members) := rfl

/-- Members with distinct names are found under their names. -/
theorem lookup_sorted {members : List (String × Json α)}
    (distinct : (members.map Prod.fst).Nodup) (n : String) :
    (sorted members).lookup n = members.lookup n := by
  have onto (done : List (String × Json α)) :
      (members.foldl (fun done (name, value) => insert name value done) done).lookup n =
        (members.lookup n).or (done.lookup n) := by
    induction members generalizing done with
    | nil => rfl
    | cons member rest ih =>
        obtain ⟨name, value⟩ := member
        rw [List.map_cons, List.nodup_cons] at distinct
        rw [List.foldl_cons, ih distinct.2, lookup_insert, lookup_cons_if]
        by_cases here : n = name
        · subst here
          have absent : rest.lookup n = none := by
            rw [← Option.not_isSome_iff_eq_none, lookup_isSome_iff_mem]
            exact distinct.1
          simp [absent]
        · simp [here]
  rw [sorted, onto, List.lookup_nil, Option.or_none]

/-- An object has the names of its members. -/
theorem mem_sorted {members : List (String × Json α)} (distinct : (members.map Prod.fst).Nodup)
    {name : String} :
    name ∈ (sorted members).map Prod.fst ↔ name ∈ members.map Prod.fst := by
  rw [← lookup_isSome_iff_mem, lookup_sorted distinct, lookup_isSome_iff_mem]

/-- Members laid over others; where both have a name, theirs is the value. -/
def overlay (base members : List (String × Json α)) : List (String × Json α) :=
  members.foldr (fun (name, value) done => insert name value done) base

theorem lookup_overlay (base members : List (String × Json α)) (n : String) :
    (overlay base members).lookup n = (members.lookup n).or (base.lookup n) := by
  induction members with
  | nil => rfl
  | cons member rest ih =>
      obtain ⟨name, value⟩ := member
      rw [overlay, List.foldr_cons, ← overlay, lookup_insert, lookup_cons_if, ih]
      split <;> rfl

theorem mem_overlay {base members : List (String × Json α)} {name : String} :
    name ∈ (overlay base members).map Prod.fst ↔
      name ∈ members.map Prod.fst ∨ name ∈ base.map Prod.fst := by
  simp only [← lookup_isSome_iff_mem, lookup_overlay, Option.isSome_or, Bool.or_eq_true]

end Chartist.Json
