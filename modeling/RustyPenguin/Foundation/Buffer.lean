import Mathlib

/-!
# Fixed-length buffers

A buffer is a list that is read and written in place: a window of it is read
(`slice`), a shorter list is copied over a window of it (`blit`), and neither
changes its length. The laws are stated position by position: what a slice holds
at a position (`getElem?_slice`), what a blit leaves there (`getElem?_blit`), and
which windows a blit does not reach (`slice_blit_of_disjoint`).

`slice?` and `blit?` are the bounds-checked forms: they fail exactly when the
window leaves the buffer.
-/

set_option autoImplicit false

namespace RustyPenguin.Buffer

variable {α : Type*}

/-- The window of `n` elements of `buf` from `off` on. -/
def slice (buf : List α) (off n : Nat) : List α := (buf.drop off).take n

/-- Copy `src` over the window of `buf` that starts at `off`. -/
def blit (buf : List α) (off : Nat) (src : List α) : List α :=
  buf.take off ++ src ++ buf.drop (off + src.length)

/-- The window, or a failure when it leaves the buffer. -/
def slice? (buf : List α) (off n : Nat) : Option (List α) :=
  if off + n ≤ buf.length then some (slice buf off n) else none

/-- The copy, or a failure when the window leaves the buffer. -/
def blit? (buf : List α) (off : Nat) (src : List α) : Option (List α) :=
  if off + src.length ≤ buf.length then some (blit buf off src) else none

/-! ## Slices -/

theorem getElem?_slice (buf : List α) (off n k : Nat) :
    (slice buf off n)[k]? = if k < n then buf[off + k]? else none := by
  simp [slice, List.getElem?_take, List.getElem?_drop]

theorem length_slice {buf : List α} {off n : Nat} (fits : off + n ≤ buf.length) :
    (slice buf off n).length = n := by
  simp only [slice, List.length_take, List.length_drop]
  omega

@[simp] theorem slice_zero_length (buf : List α) : slice buf 0 buf.length = buf := by
  simp [slice]

/-- A slice of a slice is a slice. -/
theorem slice_slice {buf : List α} {off n inner m : Nat} (fits : inner + m ≤ n) :
    slice (slice buf off n) inner m = slice buf (off + inner) m := by
  apply List.ext_getElem?
  intro k
  simp only [getElem?_slice]
  by_cases inside : k < m
  · rw [if_pos inside, if_pos inside, if_pos (by omega), Nat.add_assoc]
  · rw [if_neg inside, if_neg inside]

/-- A window is its first part followed by the rest. -/
theorem slice_append_slice (buf : List α) (off n m : Nat) :
    slice buf off n ++ slice buf (off + n) m = slice buf off (n + m) := by
  simp only [slice, List.take_add, List.drop_drop]

theorem take_slice {buf : List α} {off n m : Nat} (fits : m ≤ n) :
    (slice buf off n).take m = slice buf off m := by
  simp [slice, List.take_take, Nat.min_eq_left fits]

theorem slice_replicate {a : α} {len off n : Nat} (fits : off + n ≤ len) :
    slice (List.replicate len a) off n = List.replicate n a := by
  simp only [slice, List.drop_replicate, List.take_replicate]
  congr 1
  omega

/-- Two windows that agree position by position are equal. -/
theorem slice_congr {buf buf' : List α} {off n : Nat}
    (same : ∀ k, off ≤ k → k < off + n → buf'[k]? = buf[k]?) :
    slice buf' off n = slice buf off n := by
  apply List.ext_getElem?
  intro k
  rw [getElem?_slice, getElem?_slice]
  by_cases inside : k < n
  · rw [if_pos inside, if_pos inside, same (off + k) (by omega) (by omega)]
  · rw [if_neg inside, if_neg inside]

/-! ## Blits -/

theorem length_blit {buf src : List α} {off : Nat} (fits : off + src.length ≤ buf.length) :
    (blit buf off src).length = buf.length := by
  simp only [blit, List.length_append, List.length_take, List.length_drop]
  omega

theorem getElem?_blit {buf src : List α} {off : Nat} (fits : off + src.length ≤ buf.length)
    (k : Nat) :
    (blit buf off src)[k]? =
      if off ≤ k ∧ k < off + src.length then src[k - off]? else buf[k]? := by
  have takeLength : (buf.take off).length = off := by
    rw [List.length_take]
    omega
  rw [blit, List.append_assoc]
  by_cases before : k < off
  · rw [List.getElem?_append_left (by omega), List.getElem?_take_of_lt before,
      if_neg (by omega)]
  · rw [List.getElem?_append_right (by omega), takeLength]
    by_cases inside : k < off + src.length
    · rw [List.getElem?_append_left (by omega), if_pos ⟨by omega, inside⟩]
    · rw [List.getElem?_append_right (by omega), List.getElem?_drop, if_neg (by omega)]
      congr 1
      omega

/-- The window just written holds what was written. -/
theorem slice_blit_self {buf src : List α} {off : Nat} (fits : off + src.length ≤ buf.length) :
    slice (blit buf off src) off src.length = src := by
  apply List.ext_getElem?
  intro k
  rw [getElem?_slice, getElem?_blit fits]
  by_cases inside : k < src.length
  · rw [if_pos inside, if_pos ⟨by omega, by omega⟩, Nat.add_sub_cancel_left]
  · rw [if_neg inside, List.getElem?_eq_none (by omega)]

/-- A window inside what was copied. -/
theorem slice_blit_inside {buf src : List α} {off inner n : Nat}
    (fits : off + src.length ≤ buf.length) (within : inner + n ≤ src.length) :
    slice (blit buf off src) (off + inner) n = slice src inner n := by
  rw [← slice_slice within, slice_blit_self fits]

/-- A window that does not meet the one written is unchanged. -/
theorem slice_blit_of_disjoint {buf src : List α} {off lo n : Nat}
    (fits : off + src.length ≤ buf.length) (apart : lo + n ≤ off ∨ off + src.length ≤ lo) :
    slice (blit buf off src) lo n = slice buf lo n := by
  refine slice_congr fun k low high => ?_
  rw [getElem?_blit fits, if_neg (by omega)]

/-- Writing inside a window just written is writing the window written inside. -/
theorem blit_blit {buf outer inner : List α} {off p : Nat} (fits : off + outer.length ≤ buf.length)
    (inside : p + inner.length ≤ outer.length) :
    blit (blit buf off outer) (off + p) inner = blit buf off (blit outer p inner) := by
  have innerFits : off + p + inner.length ≤ (blit buf off outer).length := by
    rw [length_blit fits]
    omega
  have sameLength := length_blit inside
  apply List.ext_getElem?
  intro k
  rw [getElem?_blit innerFits, getElem?_blit fits, getElem?_blit (by omega), sameLength]
  by_cases written : off + p ≤ k ∧ k < off + p + inner.length
  · rw [if_pos written, if_pos ⟨by omega, by omega⟩, getElem?_blit inside,
      if_pos ⟨by omega, by omega⟩, Nat.sub_add_eq]
  · rw [if_neg written]
    by_cases covered : off ≤ k ∧ k < off + outer.length
    · rw [if_pos covered, if_pos covered, getElem?_blit inside, if_neg (by omega)]
    · rw [if_neg covered, if_neg covered]

/-- Two pieces laid down one behind the other. -/
theorem blit_append {buf first second : List α} {off : Nat}
    (fits : off + (first.length + second.length) ≤ buf.length) :
    blit (blit buf off first) (off + first.length) second = blit buf off (first ++ second) := by
  have sameLength : (blit buf off first).length = buf.length := length_blit (by omega)
  have size : (first ++ second).length = first.length + second.length := List.length_append
  apply List.ext_getElem?
  intro k
  rw [getElem?_blit (by omega), getElem?_blit (by omega), getElem?_blit (by omega), size]
  by_cases late : off + first.length ≤ k ∧ k < off + first.length + second.length
  · rw [if_pos late, if_pos ⟨by omega, by omega⟩, List.getElem?_append_right (by omega)]
    congr 1
    omega
  · rw [if_neg late]
    by_cases early : off ≤ k ∧ k < off + first.length
    · rw [if_pos early, if_pos ⟨by omega, by omega⟩, List.getElem?_append_left (by omega)]
    · rw [if_neg early, if_neg (by omega)]

/-- A window of the front part is a window of the whole. -/
theorem slice_append_left {front : List α} (back : List α) {off n : Nat}
    (fits : off + n ≤ front.length) : slice (front ++ back) off n = slice front off n :=
  slice_congr fun _ _ high => List.getElem?_append_left (by omega)

/-- A buffer wholly overwritten. -/
theorem blit_whole {buf src : List α} (size : src.length = buf.length) : blit buf 0 src = src := by
  rw [blit, List.take_zero, List.nil_append, Nat.zero_add, size, List.drop_length, List.append_nil]

/-- Writing behind a prefix leaves the prefix. -/
theorem blit_append_right (front back src : List α) (p : Nat) :
    blit (front ++ back) (front.length + p) src = front ++ blit back p src := by
  rw [blit, blit, Nat.add_assoc, List.take_length_add_append, List.drop_length_add_append,
    List.append_assoc, List.append_assoc, List.append_assoc]

/-- Writing at the front of a buffer. -/
theorem blit_zero (buf src : List α) : blit buf 0 src = src ++ buf.drop src.length := by
  simp [blit]

/-- Two pieces laid down one behind the other at the front of a buffer. -/
theorem slice_blit_blit_zero (buf first second : List α) :
    slice (blit (blit buf 0 first) first.length second) 0 (first.length + second.length) =
      first ++ second := by
  have behind := blit_append_right first (buf.drop first.length) second 0
  rw [Nat.add_zero] at behind
  rw [blit_zero, behind, blit_zero, ← List.append_assoc, slice, List.drop_zero,
    ← List.length_append, List.take_left]

/-- Setting one element is a blit of one element. -/
theorem set_eq_blit {buf : List α} {k : Nat} (inside : k < buf.length) (a : α) :
    buf.set k a = blit buf k [a] := by
  rw [blit, List.set_eq_take_append_cons_drop, if_pos inside, List.append_assoc]
  rfl

/-! ## The checked forms -/

theorem slice?_eq_some {buf out : List α} {off n : Nat} :
    slice? buf off n = some out ↔ off + n ≤ buf.length ∧ out = slice buf off n := by
  rw [slice?]
  split
  · rename_i fits
    simp [fits, eq_comm]
  · rename_i tooLong
    simp [tooLong]

theorem blit?_eq_some {buf src out : List α} {off : Nat} :
    blit? buf off src = some out ↔ off + src.length ≤ buf.length ∧ out = blit buf off src := by
  rw [blit?]
  split
  · rename_i fits
    simp [fits, eq_comm]
  · rename_i tooLong
    simp [tooLong]

/-- A sequence of two steps does not fail if neither does. -/
theorem exists_bind {β γ : Type*} {x : Option β} {f : β → Option γ} (first : ∃ a, x = some a)
    (rest : ∀ a, x = some a → ∃ c, f a = some c) : ∃ c, x.bind f = some c := by
  obtain ⟨a, found⟩ := first
  rw [found]
  exact rest a found

theorem slice?_of_fits {buf : List α} {off n : Nat} (fits : off + n ≤ buf.length) :
    slice? buf off n = some (slice buf off n) := if_pos fits

theorem blit?_of_fits {buf src : List α} {off : Nat} (fits : off + src.length ≤ buf.length) :
    blit? buf off src = some (blit buf off src) := if_pos fits

end RustyPenguin.Buffer
