import Mathlib.Algebra.Ring.Int.Defs
import Mathlib.Algebra.Ring.Nat
import Mathlib.Data.List.Infix
import Mathlib.Logic.Function.Basic

/-!
# Rings with a lap bit

A writer and a reader share a ring of `n` entries and nothing else. Each entry carries a bit, and
the writer writes the bit of the lap it is on: the bits of consecutive laps differ. An entry is new
to the reader exactly when its bit is that of the reader's own lap (`Laps.isNew`), as long as the
writer is at most a lap ahead. So the reader reads every entry once and in order.
-/

set_option autoImplicit false

namespace RustyPenguin.Foundation

variable {α β : Type} {n : Nat} {entry : Nat → α} {bit : α → β} {lap : Nat → β}
  {written read : List α}

/-- The entries of a ring whose writer has written `written` and whose reader has read `read`. -/
structure Laps (n : Nat) (bit : α → β) (lap : Nat → β) (entry : Nat → α)
    (written read : List α) : Prop where
  isPrefix : read <+: written
  ahead : written.length ≤ read.length + n
  new : ∀ k a, read.length ≤ k → written[k]? = some a →
    entry (k % n) = a ∧ bit a = lap (k / n)
  old : ∀ k, written.length ≤ k → k < read.length + n → bit (entry (k % n)) ≠ lap (k / n)

namespace Laps

theorem behind (laps : Laps n bit lap entry written read) : read.length ≤ written.length :=
  laps.isPrefix.length_le

/-- An entry is new exactly when there is more to read. -/
theorem isNew (laps : Laps n bit lap entry written read) (some : 0 < n) :
    bit (entry (read.length % n)) = lap (read.length / n) ↔ read.length < written.length := by
  constructor
  · intro same
    by_contra none
    exact laps.old read.length (by omega) (by omega) same
  · intro more
    obtain ⟨here, fresh⟩ := laps.new _ _ (Nat.le_refl _) (List.getElem?_eq_getElem more)
    rw [here, fresh]

theorem next (laps : Laps n bit lap entry written read) (more : read.length < written.length) :
    written[read.length]? = some (entry (read.length % n)) := by
  have here := (laps.new _ _ (Nat.le_refl _) (List.getElem?_eq_getElem more)).1
  rw [here, List.getElem?_eq_getElem more]

/-- The reader reads the next entry. -/
theorem readNext (laps : Laps n bit lap entry written read) (some : 0 < n)
    (differ : ∀ k, lap k ≠ lap (k + 1)) (more : read.length < written.length) :
    Laps n bit lap entry written (read ++ [entry (read.length % n)]) := by
  have next := laps.next more
  have ahead := laps.ahead
  obtain ⟨rest, split⟩ := laps.isPrefix
  have length : (read ++ [entry (read.length % n)]).length = read.length + 1 := by
    rw [List.length_append, List.length_singleton]
  refine ⟨?_, by omega, fun k a after there => ?_, fun k beyond within => ?_⟩
  · rw [← split, List.getElem?_append_right (Nat.le_refl _), Nat.sub_self] at next
    obtain ⟨tail, isTail⟩ := List.head?_eq_some_iff.mp (List.head?_eq_getElem? ▸ next)
    exact ⟨tail, by rw [List.append_assoc, ← split, isTail]; rfl⟩
  · exact laps.new k a (by omega) there
  · rw [length] at within
    by_cases last : k = read.length + n
    · rw [last, Nat.add_mod_right, Nat.add_div_right _ some]
      rw [(laps.isNew some).mpr more]
      exact differ _
    · exact laps.old k beyond (by omega)

/-- The writer writes the next entry. -/
theorem writeNext (laps : Laps n bit lap entry written read) {a : α}
    (room : written.length < read.length + n) (fits : bit a = lap (written.length / n)) :
    Laps n bit lap (Function.update entry (written.length % n) a) (written ++ [a]) read := by
  have behind := laps.behind
  have length : (written ++ [a]).length = written.length + 1 := by
    rw [List.length_append, List.length_singleton]
  have apart : ∀ k, k < read.length + n → read.length ≤ k → k ≠ written.length →
      k % n ≠ written.length % n := by
    intro k within after other same
    have first := Nat.div_add_mod k n
    have second := Nat.div_add_mod written.length n
    rcases Nat.lt_trichotomy (k / n) (written.length / n) with less | equal | more
    · have := Nat.mul_le_mul_left n less
      rw [Nat.mul_succ] at this
      omega
    · rw [equal] at first
      omega
    · have := Nat.mul_le_mul_left n more
      rw [Nat.mul_succ] at this
      omega
  refine ⟨laps.isPrefix.trans (List.prefix_append _ _), by omega, fun k b after there => ?_,
    fun k beyond within => ?_⟩
  · have inside : k < (written ++ [a]).length := (List.getElem?_eq_some_iff.mp there).1
    by_cases last : k = written.length
    · rw [last, List.getElem?_concat_length] at there
      cases there
      rw [last, Function.update_self]
      exact ⟨rfl, fits⟩
    · rw [List.getElem?_append_left (by omega)] at there
      rw [Function.update_of_ne (apart k (by omega) after last)]
      exact laps.new k b after there
  · rw [length] at beyond
    rw [Function.update_of_ne (apart k within (by omega) (by omega))]
    exact laps.old k (by omega) within

/-- The entries of the ring are all that matters. -/
theorem congr (laps : Laps n bit lap entry written read) (some : 0 < n) {entry' : Nat → α}
    (same : ∀ k, k < n → entry' k = entry k) : Laps n bit lap entry' written read := by
  refine ⟨laps.isPrefix, laps.ahead, fun k a after there => ?_, fun k beyond within => ?_⟩
  · rw [same _ (Nat.mod_lt k some)]
    exact laps.new k a after there
  · rw [same _ (Nat.mod_lt k some)]
    exact laps.old k beyond within

/-- Nothing written yet, and no entry looks new. -/
theorem start (none : ∀ k, k < n → bit (entry k) ≠ lap 0) : Laps n bit lap entry [] [] := by
  refine ⟨List.prefix_rfl, Nat.zero_le _, fun k a _ there => ?_, fun k _ within => ?_⟩
  · rw [List.getElem?_nil] at there
    cases there
  · rw [List.length_nil, Nat.zero_add] at within
    rw [Nat.mod_eq_of_lt within, Nat.div_eq_of_lt within]
    exact none k within

end Laps

end RustyPenguin.Foundation
