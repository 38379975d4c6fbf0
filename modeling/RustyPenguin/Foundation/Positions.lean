import Mathlib.Algebra.Ring.Int.Defs
import Mathlib.Algebra.Ring.Nat

/-!
# Positions in short vectors

The bounds of the positions that are written out, and of positions that are numbers of a finite
type. A position that is read with its bound is read by the same term wherever it stands.
-/

set_option autoImplicit false

namespace RustyPenguin.Positions

/-! ## Positions that are written out -/

theorem zero4 : 0 < 4 := by decide
theorem one4 : 1 < 4 := by decide
theorem two4 : 2 < 4 := by decide
theorem three4 : 3 < 4 := by decide

theorem zero5 : 0 < 5 := by decide
theorem one5 : 1 < 5 := by decide
theorem two5 : 2 < 5 := by decide
theorem three5 : 3 < 5 := by decide
theorem four5 : 4 < 5 := by decide

theorem zero16 : 0 < 16 := by decide
theorem one16 : 1 < 16 := by decide
theorem fourteen16 : 14 < 16 := by decide
theorem fifteen16 : 15 < 16 := by decide

theorem fourteen15 : 14 < 15 := by decide

/-! ## Positions of a finite type -/

theorem fin4 (i : Fin 4) : i.val < 4 := i.isLt
theorem fin8 (i : Fin 8) : i.val < 8 := i.isLt
theorem fin9 (i : Fin 9) : i.val < 9 := i.isLt
theorem fin16 (i : Fin 16) : i.val < 16 := i.isLt
/-- A position among the first fourteen of sixteen, and the one after it. -/
theorem fin14 (i : Fin 14) : i.val < 16 := by omega
theorem next14 (i : Fin 14) : i.val + 1 < 16 := by omega

/-- Positions among the columns of a product of sixteen limbs. -/
theorem fin31 (i : Fin 16) : i.val < 31 := by omega
theorem sum31 (i j : Fin 16) : i.val + j.val < 31 := by omega
theorem upper31 (i : Fin 16) (inside : i.val < 15) : i.val + 16 < 31 := by omega

theorem fin64 (i : Fin 64) : i.val < 64 := i.isLt
theorem fin80 (i : Fin 80) : i.val < 80 := i.isLt

end RustyPenguin.Positions
