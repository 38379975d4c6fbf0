import Mathlib.Algebra.Ring.Int.Defs
import Mathlib.Algebra.Ring.Nat
import Mathlib.Logic.Relation
import Mathlib.Data.List.Infix
import Mathlib.Data.List.Nodup

/-!
# Orders in which successors come first

A list in which every value is new and comes after all its successors under a relation. Such a list
has no duplicates, is closed under reachability, and none of its values is on a cycle.
-/

set_option autoImplicit false

namespace RustyPenguin.Postorder

open Relation (ReflTransGen TransGen)

variable {V : Type}

/-- Every value comes once, after all its successors. -/
inductive SuccessorsFirst (next : V → V → Prop) : List V → Prop
  | nil : SuccessorsFirst next []
  | concat {order : List V} {v : V} (first : SuccessorsFirst next order) (new : v ∉ order)
      (successors : ∀ w, next v w → w ∈ order) : SuccessorsFirst next (order ++ [v])

namespace SuccessorsFirst

variable {next : V → V → Prop} {order : List V} {v w : V}

theorem nodup (sorted : SuccessorsFirst next order) : order.Nodup := by
  induction sorted with
  | nil => exact List.nodup_nil
  | concat _ new _ ih =>
    rw [← List.concat_eq_append]
    exact ih.concat new

/-- A successor is in the part before the value. -/
theorem before (sorted : SuccessorsFirst next order) :
    ∀ {front back : List V} {v w : V}, order = front ++ v :: back → next v w → w ∈ front := by
  induction sorted with
  | nil =>
    intro front back v w split
    simp at split
  | @concat order last _ new successors ih =>
    intro front back v w split step
    rcases List.eq_nil_or_concat back with rfl | ⟨back, final, rfl⟩
    · obtain ⟨rfl, same⟩ := List.append_inj' split rfl
      cases same
      exact successors w step
    · rw [List.concat_eq_append, ← List.cons_append, ← List.append_assoc] at split
      exact ih (List.append_inj' split rfl).1 step

theorem closed (sorted : SuccessorsFirst next order) (inside : v ∈ order) (step : next v w) :
    w ∈ order := by
  obtain ⟨front, back, rfl⟩ := List.append_of_mem inside
  exact List.mem_append_left _ (sorted.before rfl step)

/-- What is reachable from a value of the order is in the order. -/
theorem reachable (sorted : SuccessorsFirst next order) (inside : v ∈ order)
    (path : ReflTransGen next v w) : w ∈ order := by
  induction path with
  | refl => exact inside
  | tail _ step ih => exact sorted.closed ih step

/-- What is reachable in some steps from a value is before it. -/
theorem before_of_path (sorted : SuccessorsFirst next order) {front back : List V}
    (split : order = front ++ v :: back) (path : TransGen next v w) : w ∈ front := by
  induction path with
  | single step => exact sorted.before split step
  | tail _ step ih =>
    obtain ⟨left, right, rfl⟩ := List.append_of_mem ih
    rw [List.append_assoc, List.cons_append] at split
    exact List.mem_append_left _ (sorted.before split step)

/-- **No value of the order is on a cycle.** -/
theorem acyclic (sorted : SuccessorsFirst next order) (inside : v ∈ order) : ¬TransGen next v v := by
  intro cycle
  obtain ⟨front, back, split⟩ := List.append_of_mem inside
  have twice := sorted.nodup
  rw [split, List.nodup_append] at twice
  exact twice.2.2 v (sorted.before_of_path split cycle) v List.mem_cons_self rfl

end SuccessorsFirst

end RustyPenguin.Postorder
