import Mathlib.Data.List.Basic
import Mathlib.Algebra.Ring.Int.Defs
import Mathlib.Algebra.Ring.Nat

/-!
# Deciding a statement about all members

A statement about all elements of a list is decided by a walk through the list, and one about what
an option holds by a look at it.
-/

set_option autoImplicit false

namespace RustyPenguin

section Members

variable {α : Type} (p : α → Prop) [DecidablePred p]

instance (priority := high) decidableForallMem (l : List α) : Decidable (∀ x, x ∈ l → p x) :=
  List.decidableBAll p l

instance (priority := high) decidableForallMemOption (o : Option α) :
    Decidable (∀ x, x ∈ o → p x) :=
  Option.decidableForallMem o

end Members

end RustyPenguin
