import Mathlib.Algebra.Ring.Int.Defs
import Mathlib.Algebra.Ring.Nat
import Mathlib.Data.List.TakeDrop

/-!
# Streams cut into blocks

A hash or an authenticator takes its message in pieces, and works on blocks of `k` elements: it
folds a step over the blocks that are full, and keeps what is left over for the next piece. What it
holds after some pieces is what it would hold after one piece with all their elements
(`foldl_feed`), so the pieces do not matter.
-/

set_option autoImplicit false

namespace RustyPenguin.Streams

variable {α H : Type} (k : Nat) (step : H → List α → H)

/-- The first `n` blocks of the data, taken one after the other. -/
def fold : Nat → H → List α → H
  | 0, h, _ => h
  | n + 1, h, data => fold n (step h (data.take k)) (data.drop k)

/-- What is held after the data: the whole blocks are folded, the rest is kept. -/
def absorb (h : H) (data : List α) : H × List α :=
  (fold k step (data.length / k) h data, data.drop (k * (data.length / k)))

/-- What is held after another piece: a block that was begun is filled first. -/
def feed (held : H × List α) (data : List α) : H × List α :=
  if held.2 = [] then absorb k step held.1 data
  else
    let want := min (k - held.2.length) data.length
    let block := held.2 ++ data.take want
    if block.length < k then (held.1, block)
    else absorb k step (step held.1 block) (data.drop want)

theorem fold_zero (h : H) (data : List α) : fold k step 0 h data = h := rfl

theorem fold_succ (n : Nat) (h : H) (data : List α) :
    fold k step (n + 1) h data = fold k step n (step h (data.take k)) (data.drop k) := rfl

theorem fold_add (m n : Nat) (h : H) (data : List α) :
    fold k step (m + n) h data = fold k step n (fold k step m h data) (data.drop (k * m)) := by
  induction m generalizing h data with
  | zero => rw [Nat.zero_add, Nat.mul_zero, List.drop_zero, fold_zero]
  | succ m ih =>
    rw [Nat.add_right_comm, fold_succ, ih, fold_succ, List.drop_drop, Nat.mul_succ, Nat.add_comm k]

/-- What comes after the blocks does not matter. -/
theorem fold_append {n : Nat} (h : H) {data : List α} (more : List α)
    (whole : k * n ≤ data.length) :
    fold k step n h (data ++ more) = fold k step n h data := by
  induction n generalizing h data with
  | zero => rw [fold_zero, fold_zero]
  | succ n ih =>
    rw [Nat.mul_succ] at whole
    have rest : k * n ≤ (data.drop k).length := by
      rw [List.length_drop]
      omega
    rw [fold_succ, fold_succ, List.take_append_of_le_length (by omega),
      List.drop_append_of_le_length (by omega), ih _ rest]

theorem absorb_nil (h : H) : absorb k step h [] = (h, []) := by
  rw [absorb, List.length_nil, Nat.zero_div, fold_zero, List.drop_nil]

/-- Data that begin with whole blocks. -/
theorem absorb_append (positive : 0 < k) {q : Nat} (h : H) {front : List α} (back : List α)
    (whole : front.length = k * q) :
    absorb k step h (front ++ back) = absorb k step (fold k step q h front) back := by
  have count : (front ++ back).length / k = q + back.length / k := by
    rw [List.length_append, whole, Nat.mul_add_div positive]
  have after : (front ++ back).drop (k * q) = back := by
    rw [← whole, List.drop_left]
  rw [absorb, absorb, count, fold_add, fold_append _ _ _ _ (Nat.le_of_eq whole.symm), after,
    Nat.mul_add, ← List.drop_drop, after]

/-- What was kept stands before the data that follow. -/
theorem absorb_absorb (positive : 0 < k) (h : H) (seen data : List α) :
    absorb k step (absorb k step h seen).1 ((absorb k step h seen).2 ++ data) =
      absorb k step h (seen ++ data) := by
  have whole := Nat.mul_div_le seen.length k
  have front : (seen.take (k * (seen.length / k))).length = k * (seen.length / k) := by
    rw [List.length_take]
    omega
  have folded : fold k step (seen.length / k) h (seen.take (k * (seen.length / k))) =
      fold k step (seen.length / k) h seen := by
    have begins := fold_append k step h (seen.drop (k * (seen.length / k)))
      (Nat.le_of_eq front.symm)
    rw [List.take_append_drop] at begins
    exact begins.symm
  have parts := absorb_append k step positive h
    (seen.drop (k * (seen.length / k)) ++ data) front
  rw [← List.append_assoc, List.take_append_drop, folded] at parts
  exact parts.symm

/-- **Another piece is taken as if it had come with the first.** -/
theorem feed_absorb (positive : 0 < k) (h : H) (seen data : List α) :
    feed k step (absorb k step h seen) data = absorb k step h (seen ++ data) := by
  have size := Nat.div_add_mod seen.length k
  have small := Nat.mod_lt seen.length positive
  have left : (absorb k step h seen).2.length = seen.length % k := by
    rw [absorb, List.length_drop]
    omega
  rw [← absorb_absorb k step positive h seen data, feed]
  generalize (absorb k step h seen).1 = held at *
  generalize (absorb k step h seen).2 = rest at *
  by_cases none : rest = []
  · rw [if_pos none, none, List.nil_append]
  rw [if_neg none]
  dsimp only
  have begun := List.length_pos_iff.mpr none
  split
  · rename_i short
    rw [List.length_append, List.length_take] at short
    have all : min (k - rest.length) data.length = data.length := by omega
    rw [all, List.take_length, absorb, List.length_append, Nat.div_eq_of_lt (by omega), fold_zero,
      Nat.mul_zero, List.drop_zero]
  · rename_i full
    rw [List.length_append, List.length_take] at full
    have want : min (k - rest.length) data.length = k - rest.length := by omega
    have block : (rest ++ data.take (k - rest.length)).length = k * 1 := by
      rw [List.length_append, List.length_take]
      omega
    have split : rest ++ data =
        (rest ++ data.take (k - rest.length)) ++ data.drop (k - rest.length) := by
      rw [List.append_assoc, List.take_append_drop]
    have taken : (rest ++ data.take (k - rest.length)).take k =
        rest ++ data.take (k - rest.length) :=
      List.take_of_length_le (by omega)
    have one : fold k step 1 held (rest ++ data.take (k - rest.length)) =
        step held (rest ++ data.take (k - rest.length)) := by
      rw [fold_succ, fold_zero, taken]
    rw [want, ← one, ← absorb_append k step positive held _ block, ← split]

/-- **The pieces do not matter**: only all the data, one after the other. -/
theorem foldl_feed (positive : 0 < k) (h : H) (pieces : List (List α)) :
    pieces.foldl (feed k step) (h, []) = absorb k step h pieces.flatten := by
  have started : ∀ seen, pieces.foldl (feed k step) (absorb k step h seen) =
      absorb k step h (seen ++ pieces.flatten) := by
    induction pieces with
    | nil => intro seen; rw [List.foldl_nil, List.flatten_nil, List.append_nil]
    | cons piece pieces ih =>
      intro seen
      rw [List.foldl_cons, feed_absorb k step positive, ih, List.flatten_cons, List.append_assoc]
  have all := started []
  rwa [absorb_nil, List.nil_append] at all

/-- The blocks as a list. -/
theorem foldl_blocks (n : Nat) (h : H) (data : List α) :
    ((List.range n).map fun i => (data.drop (k * i)).take k).foldl step h = fold k step n h data := by
  induction n generalizing h data with
  | zero => rfl
  | succ n ih =>
    have later : ∀ i, (data.drop (k * (i + 1))).take k = ((data.drop k).drop (k * i)).take k := by
      intro i
      rw [List.drop_drop, Nat.mul_succ, Nat.add_comm]
    rw [List.range_succ_eq_map, List.map_cons, List.map_map, List.foldl_cons, fold_succ, ← ih,
      Nat.mul_zero, List.drop_zero]
    simp only [Function.comp_def, Nat.succ_eq_add_one, later]

/-- Two steps that correspond on whole blocks correspond over all blocks. -/
theorem fold_map {H' : Type} {step' : H' → List α → H'} {view : H' → H}
    (corresponds : ∀ h' block, block.length = k → step (view h') block = view (step' h' block))
    {n : Nat} (h' : H') {data : List α} (whole : k * n ≤ data.length) :
    fold k step n (view h') data = view (fold k step' n h' data) := by
  induction n generalizing h' data with
  | zero => rfl
  | succ n ih =>
    rw [Nat.mul_succ] at whole
    have block : (data.take k).length = k := by
      rw [List.length_take]
      omega
    have rest : k * n ≤ (data.drop k).length := by
      rw [List.length_drop]
      omega
    rw [fold_succ, fold_succ, corresponds h' _ block, ih _ rest]

end RustyPenguin.Streams
