import RustyPenguin.Foundation.Buffer

/-!
# A buffer and its copy in blocks

A store of blocks holds a copy of a buffer from some block on. While the buffer is being
changed some blocks of the copy are stale: `Mirrors` says that all the others are what
the buffer has there. Changing the buffer makes blocks stale (`Mirrors.touch`), writing
a block out makes it current (`Mirrors.flush`), and changes of the store elsewhere do
not matter (`Mirrors.frame`).
-/

set_option autoImplicit false

namespace RustyPenguin.Buffer

variable {α : Type*} {size base n : Nat} {content content' : Nat → List α} {buf buf' : List α}
  {stale stale' : Nat → Prop}

/-- The `n` blocks of the store from `base` on hold the blocks of the buffer, but for the stale
ones. -/
def Mirrors (size : Nat) (content : Nat → List α) (base n : Nat) (buf : List α)
    (stale : Nat → Prop) : Prop :=
  ∀ s < n, ¬stale s → content (base + s) = slice buf (s * size) size

namespace Mirrors

theorem mono (mirrors : Mirrors size content base n buf stale)
    (more : ∀ s < n, stale s → stale' s) : Mirrors size content base n buf stale' :=
  fun s inside current => mirrors s inside fun old => current (more s inside old)

/-- The blocks in which a buffer is changed become stale. -/
theorem touch (mirrors : Mirrors size content base n buf stale) (stale' : Nat → Prop)
    (same : ∀ s < n, ¬stale' s → slice buf' (s * size) size = slice buf (s * size) size) :
    Mirrors size content base n buf' fun s => stale s ∨ stale' s := by
  intro s inside current
  rw [same s inside fun changed => current (Or.inr changed)]
  exact mirrors s inside fun old => current (Or.inl old)

/-- A block that is written out is no longer stale. -/
theorem flush {k : Nat} (mirrors : Mirrors size content base n buf stale)
    (stored : content' (base + k) = slice buf (k * size) size)
    (others : ∀ x, x ≠ base + k → content' x = content x) :
    Mirrors size content' base n buf fun s => stale s ∧ s ≠ k := by
  intro s inside current
  by_cases here : s = k
  · rw [here]
    exact stored
  · rw [others (base + s) (by omega)]
    exact mirrors s inside fun old => current ⟨old, here⟩

/-- Changes of the store elsewhere. -/
theorem frame (mirrors : Mirrors size content base n buf stale)
    (same : ∀ x, base ≤ x → x < base + n → content' x = content x) :
    Mirrors size content' base n buf stale := by
  intro s inside current
  rw [same (base + s) (by omega) (by omega)]
  exact mirrors s inside current

end Mirrors

end RustyPenguin.Buffer
