import Mathlib.Algebra.Ring.Int.Defs
import Mathlib.Algebra.Ring.Nat
import Mathlib.Data.List.Range
import Mathlib.Logic.Function.Basic

/-!
# Ring buffers

A queue in an array with two wrapping indices. One place stays free: the ring is full when the place
after the head is the tail. `contents` is the queue; a push adds at its end, a pop takes its front.
-/

set_option autoImplicit false

namespace RustyPenguin.Foundation

/-- A ring of `n` places, with the next place to write and the next place to read. -/
structure Ring (n : Nat) (α : Type) where
  buffer : Nat → α
  head : Nat
  tail : Nat
  headFits : head < n
  tailFits : tail < n

namespace Ring

variable {n : Nat} {α : Type}

def next (n i : Nat) : Nat := (i + 1) % n

theorem next_lt {i : Nat} (inside : i < n) : next n i < n := Nat.mod_lt _ (Nat.zero_lt_of_lt inside)

theorem next_eq {i : Nat} (inside : i < n) : next n i = if i + 1 = n then 0 else i + 1 := by
  rw [next]
  split_ifs with last
  · rw [last, Nat.mod_self]
  · exact Nat.mod_eq_of_lt (by omega)

/-- The ring has no free place to write. -/
def Full (r : Ring n α) : Prop := next n r.head = r.tail

instance (r : Ring n α) : Decidable r.Full := inferInstanceAs (Decidable (_ = _))

/-- Writes at the head; a full ring is left as it is. -/
def push (r : Ring n α) (a : α) : Ring n α :=
  if r.Full then r
  else ⟨Function.update r.buffer r.head a, next n r.head, r.tail, next_lt r.headFits, r.tailFits⟩

/-- The ring after a read at the tail. -/
def advance (r : Ring n α) : Ring n α :=
  ⟨r.buffer, r.head, next n r.tail, r.headFits, next_lt r.tailFits⟩

def pop (r : Ring n α) : Option (α × Ring n α) :=
  if r.head = r.tail then none else some (r.buffer r.tail, r.advance)

/-! ## The queue -/

/-- The number of values from the tail to the head. -/
def count (r : Ring n α) : Nat :=
  if r.tail ≤ r.head then r.head - r.tail else r.head + n - r.tail

/-- The place of the `i`-th value. -/
def place (r : Ring n α) (i : Nat) : Nat := if r.tail + i < n then r.tail + i else r.tail + i - n

def contents (r : Ring n α) : List α := (List.range r.count).map fun i => r.buffer (r.place i)

variable {r : Ring n α} {a : α}

theorem count_push (room : ¬r.Full) : (r.push a).count = r.count + 1 := by
  have head := r.headFits
  have tail := r.tailFits
  have step := next_eq head
  rw [push, if_neg room, count, count]
  rw [Full] at room
  dsimp only
  split_ifs at step ⊢ <;> omega

theorem place_push (room : ¬r.Full) (i : Nat) : (r.push a).place i = r.place i := by
  rw [push, if_neg room]
  rfl

theorem place_count (r : Ring n α) : r.place r.count = r.head := by
  have head := r.headFits
  have tail := r.tailFits
  rw [place, count]
  split_ifs <;> omega

theorem place_ne_head {i : Nat} (inside : i < r.count) : r.place i ≠ r.head := by
  have head := r.headFits
  have tail := r.tailFits
  rw [count] at inside
  rw [place]
  split_ifs at inside ⊢ <;> omega

/-- **A push adds at the end**, in a ring that is not full. -/
theorem contents_push (room : ¬r.Full) : (r.push a).contents = r.contents ++ [a] := by
  have written : (r.push a).buffer = Function.update r.buffer r.head a := by
    rw [push, if_neg room]
  rw [contents, contents, count_push room, List.range_succ, List.map_append, List.map_cons,
    List.map_nil, written, place_push room, place_count, Function.update_self]
  refine congrArg (· ++ [a]) (List.map_congr_left ?_)
  intro i inside
  rw [place_push room, Function.update_of_ne (place_ne_head (List.mem_range.mp inside))]

theorem contents_empty (empty : r.head = r.tail) : r.contents = [] := by
  rw [contents, count, if_pos (Nat.le_of_eq empty.symm), empty, Nat.sub_self]
  rfl

theorem count_advance (some : r.head ≠ r.tail) : r.count = r.advance.count + 1 := by
  have head := r.headFits
  have tail := r.tailFits
  have step := next_eq tail
  rw [count, count, advance]
  dsimp only
  split_ifs at step ⊢ <;> omega

theorem place_advance (some : r.head ≠ r.tail) {i : Nat} (inside : i < r.advance.count) :
    r.place (i + 1) = r.advance.place i := by
  have head := r.headFits
  have tail := r.tailFits
  have step := next_eq tail
  rw [count, advance] at inside
  rw [place, place, advance]
  dsimp only at inside ⊢
  split_ifs at inside step ⊢ <;> omega

/-- **A read takes the front.** -/
theorem contents_advance (some : r.head ≠ r.tail) :
    r.contents = r.buffer r.tail :: r.advance.contents := by
  have first : r.place 0 = r.tail := by
    rw [place, Nat.add_zero, if_pos r.tailFits]
  rw [contents, contents, count_advance some, List.range_succ_eq_map, List.map_cons, first, List.map_map]
  refine congrArg (r.buffer r.tail :: ·) (List.map_congr_left ?_)
  intro i inside
  exact congrArg r.buffer (place_advance some (List.mem_range.mp inside))

theorem pop_eq_none : r.pop = none ↔ r.contents = [] := by
  rw [pop]
  split_ifs with empty
  · exact ⟨fun _ => contents_empty empty, fun _ => rfl⟩
  · rw [contents_advance empty]
    exact ⟨nofun, nofun⟩

theorem pop_eq_some {rest : Ring n α} (popped : r.pop = some (a, rest)) :
    r.contents = a :: rest.contents := by
  rw [pop] at popped
  split_ifs at popped with empty
  cases popped
  exact contents_advance empty

end Ring

end RustyPenguin.Foundation
