import Mathlib.Algebra.Ring.Int.Defs
import Mathlib.Algebra.Ring.Nat
import Mathlib.Logic.Function.Basic
import Mathlib.Tactic.Common

/-!
# Layers

Partial maps laid over one another: at every key the upper one counts where it is defined. A family
of layers numbered from below has a top, whose value at a key is that of the last layer defined
there. What a loop writes, one partial map a round, is the top of its layers.
-/

set_option autoImplicit false

namespace RustyPenguin.Layers

variable {K V : Type*}

/-- One map laid over another. -/
def overlay (upper lower : K → Option V) : K → Option V := fun k => (upper k).or (lower k)

theorem overlay_of_none {upper lower : K → Option V} {k : K} (none : upper k = none) :
    overlay upper lower k = lower k := by
  rw [overlay, none, Option.none_or]

theorem overlay_of_some {upper lower : K → Option V} {k : K} {v : V} (found : upper k = some v) :
    overlay upper lower k = some v := by
  rw [overlay, found, Option.some_or]

theorem overlay_assoc (first second third : K → Option V) :
    overlay (overlay first second) third = overlay first (overlay second third) := by
  funext k
  exact Option.or_assoc

/-- A map that is defined nowhere. -/
def empty : K → Option V := fun _ => none

@[simp] theorem overlay_empty (upper : K → Option V) : overlay upper empty = upper := by
  funext k
  exact Option.or_none

@[simp] theorem empty_overlay (lower : K → Option V) : overlay empty lower = lower := by
  funext k
  exact Option.none_or

section Single

variable [DecidableEq K]

/-- A map that is defined at one key. -/
def single (key : K) (v : V) : K → Option V := fun k => if k = key then some v else none

theorem single_eq_some {key k : K} {v w : V} : single key v k = some w ↔ k = key ∧ v = w := by
  rw [single]
  split
  · rename_i same
    simp [same]
  · rename_i other
    simp [other]

theorem single_eq_none {key k : K} {v : V} : single key v k = none ↔ k ≠ key := by
  rw [single]
  split
  · rename_i same
    simp [same]
  · rename_i other
    simp [other]

/-- Writing at a key is laying a map over. -/
theorem update_eq_overlay (lower : K → Option V) (key : K) (v : V) :
    Function.update lower key (some v) = overlay (single key v) lower := by
  funext k
  rw [overlay, single]
  by_cases same : k = key
  · subst same
    rw [Function.update_self, if_pos rfl, Option.some_or]
  · rw [Function.update_of_ne same, if_neg same, Option.none_or]

end Single

/-- The top of the first `n` layers. -/
def top (layer : Nat → K → Option V) : Nat → K → Option V
  | 0 => empty
  | n + 1 => overlay (layer n) (top layer n)

section Top

variable {layer : Nat → K → Option V} {n : Nat} {k : K} {v : V}

theorem top_eq_none : top layer n k = none ↔ ∀ s, s < n → layer s k = none := by
  induction n with
  | zero => exact ⟨fun _ _ inside => absurd inside (Nat.not_lt_zero _), fun _ => rfl⟩
  | succ n ih =>
    rw [top, overlay, Option.or_eq_none_iff, ih]
    constructor
    · rintro ⟨last, before⟩ s inside
      rcases Nat.lt_or_eq_of_le (Nat.le_of_lt_succ inside) with earlier | rfl
      · exact before s earlier
      · exact last
    · intro all
      exact ⟨all n (Nat.lt_succ_self n), fun s inside => all s (Nat.lt_succ_of_lt inside)⟩

/-- **The last layer defined at a key counts.** -/
theorem top_eq_some : top layer n k = some v ↔
    ∃ t, t < n ∧ layer t k = some v ∧ ∀ s, t < s → s < n → layer s k = none := by
  induction n with
  | zero => exact ⟨nofun, fun ⟨_, inside, _⟩ => absurd inside (Nat.not_lt_zero _)⟩
  | succ n ih =>
    rw [top]
    cases last : layer n k with
    | some w =>
      rw [overlay_of_some last]
      constructor
      · rintro ⟨⟩
        exact ⟨n, Nat.lt_succ_self n, last, fun s above inside =>
          absurd above (Nat.not_lt.mpr (Nat.le_of_lt_succ inside))⟩
      · rintro ⟨t, inside, found, none⟩
        rcases Nat.lt_or_eq_of_le (Nat.le_of_lt_succ inside) with earlier | rfl
        · rw [none n earlier (Nat.lt_succ_self n)] at last
          cases last
        · exact last.symm.trans found
    | none =>
      rw [overlay_of_none last, ih]
      constructor
      · rintro ⟨t, inside, found, none⟩
        refine ⟨t, Nat.lt_succ_of_lt inside, found, fun s above within => ?_⟩
        rcases Nat.lt_or_eq_of_le (Nat.le_of_lt_succ within) with earlier | rfl
        · exact none s above earlier
        · exact last
      · rintro ⟨t, inside, found, none⟩
        rcases Nat.lt_or_eq_of_le (Nat.le_of_lt_succ inside) with earlier | rfl
        · exact ⟨t, earlier, found, fun s above within => none s above (Nat.lt_succ_of_lt within)⟩
        · rw [last] at found
          cases found

end Top

end RustyPenguin.Layers
