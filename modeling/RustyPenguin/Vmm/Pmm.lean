import RustyPenguin.Vmm.Descend

/-!
# The physical frame allocator

One bit for each frame below 4 GiB, set when the frame is free. Allocation takes the lowest
free frame. An address is in use unless it is the base of a frame whose bit is set, so the
allocator only hands out frames that were not in use.
-/

set_option autoImplicit false

namespace RustyPenguin.Vmm

def pageSize : Nat := 4096
/-- Frames below the 4 GiB ceiling. -/
def maxPages : Nat := 4 * 1024 * 1024 * 1024 / pageSize
def bitmapLen : Nat := maxPages / 64

structure Pmm where
  bitmap : Nat → BitVec 64
  freeFrames : BitVec 64
  ready : Bool

namespace Pmm

def isFree (pmm : Pmm) (page : Nat) : Bool :=
  decide (page < maxPages) && (pmm.bitmap (page / 64)).getLsbD (page % 64)

/-- The bit of a page in its word. -/
def pageBit (page : Nat) : BitVec 64 := 1#64 <<< (page % 64)

/-- Clear the bit of a page. -/
def markUsed (pmm : Pmm) (page : Nat) : Pmm :=
  if page < maxPages then
    { pmm with bitmap := fun i =>
        if i = page / 64 then pmm.bitmap i &&& ~~~pageBit page else pmm.bitmap i }
  else pmm

/-- The lowest set bit among those from `bit` on. -/
def trailingZeros (word : BitVec 64) : (left : Nat) → (bit : Nat) → Nat
  | 0, bit => bit
  | left + 1, bit => if word.getLsbD bit then bit else trailingZeros word left (bit + 1)

/-- The first word with a set bit among those from `i` on. -/
def firstWord (bitmap : Nat → BitVec 64) : (left : Nat) → (i : Nat) → Option Nat
  | 0, _ => none
  | left + 1, i => if bitmap i ≠ 0 then some i else firstWord bitmap left (i + 1)

/-- Allocate one 4 KiB physical frame. -/
def allocFrame (pmm : Pmm) : Option (BitVec 64 × Pmm) :=
  if pmm.ready then
    (firstWord pmm.bitmap bitmapLen 0).map fun i =>
      let page := i * 64 + trailingZeros (pmm.bitmap i) 64 0
      (BitVec.ofNat 64 (page * pageSize),
        { pmm.markUsed page with freeFrames := pmm.freeFrames - 1 })
  else none

theorem trailingZeros_spec {word : BitVec 64} : ∀ {left bit : Nat}, left + bit = 64 →
    (∃ k, bit ≤ k ∧ word.getLsbD k = true) →
    trailingZeros word left bit < 64 ∧ word.getLsbD (trailingZeros word left bit) = true
  | 0, bit, whole, ⟨k, above, set⟩ => by
      rw [BitVec.getLsbD_of_ge _ _ (by omega)] at set
      cases set
  | left + 1, bit, whole, ⟨k, above, set⟩ => by
      rw [trailingZeros]
      split
      · rename_i here
        exact ⟨by omega, here⟩
      · rename_i clear
        refine trailingZeros_spec (show left + (bit + 1) = 64 by omega) ⟨k, ?_, set⟩
        rcases Nat.lt_or_eq_of_le above with later | rfl
        · exact later
        · exact absurd set clear

theorem firstWord_spec {bitmap : Nat → BitVec 64} : ∀ {left i j : Nat},
    firstWord bitmap left i = some j → j < left + i ∧ bitmap j ≠ 0
  | 0, _, _, found => nomatch found
  | left + 1, i, j, found => by
      rw [firstWord] at found
      split at found
      · rename_i here
        cases found
        exact ⟨by omega, here⟩
      · have := firstWord_spec found
        exact ⟨by omega, this.2⟩

theorem exists_bit {word : BitVec 64} (nonzero : word ≠ 0) : ∃ k, word.getLsbD k = true := by
  by_contra none
  refine nonzero (BitVec.eq_of_getLsbD_eq fun k _ => ?_)
  exact (Bool.eq_false_iff.mpr fun set => none ⟨k, set⟩).trans BitVec.getLsbD_zero.symm

/-- **A frame handed out was the base of a free page**, and the page is marked used. -/
theorem allocFrame_spec {pmm pmm' : Pmm} {frame : BitVec 64}
    (alloc : pmm.allocFrame = some (frame, pmm')) : ∃ page, page < maxPages ∧
      frame.toNat = page * 4096 ∧ pmm.isFree page = true ∧
      pmm'.bitmap = (pmm.markUsed page).bitmap := by
  rw [allocFrame] at alloc
  split at alloc
  · obtain ⟨i, first, result⟩ := Option.map_eq_some_iff.mp alloc
    obtain ⟨inside, nonzero⟩ := firstWord_spec first
    obtain ⟨k, set⟩ := exists_bit nonzero
    obtain ⟨small, lowest⟩ := trailingZeros_spec (show 64 + 0 = 64 from rfl) ⟨k, Nat.zero_le k, set⟩
    cases result
    have words : bitmapLen = 16384 := rfl
    have pages : maxPages = 1048576 := rfl
    have bytes : pageSize = 4096 := rfl
    refine ⟨_, by omega, ?_, ?_, rfl⟩
    · rw [BitVec.toNat_ofNat, bytes]
      exact Nat.mod_eq_of_lt (show _ * 4096 < _ by omega)
    · rw [isFree, Bool.and_eq_true, decide_eq_true_eq, Nat.mul_comm i 64,
        Nat.mul_add_div (by decide), Nat.mul_add_mod, Nat.div_eq_of_lt small, Nat.mod_eq_of_lt small]
      exact ⟨by omega, lowest⟩
  · cases alloc

/-- Marking a page used changes its bit and no other. -/
theorem isFree_markUsed {pmm : Pmm} {page : Nat} (inside : page < maxPages) (other : Nat) :
    (pmm.markUsed page).isFree other = (pmm.isFree other && decide (other ≠ page)) := by
  simp only [isFree, markUsed, if_pos inside]
  by_cases word : other / 64 = page / 64
  · have bits : (pageBit page).getLsbD (other % 64) = decide (other = page) := by
      have small : other % 64 < 64 := Nat.mod_lt _ (by decide)
      rw [pageBit, BitVec.getLsbD_shiftLeft, BitVec.getLsbD_one, decide_eq_true small,
        decide_eq_true (show 0 < 64 by decide), Bool.true_and, Bool.true_and, ← decide_not,
        ← Bool.decide_and]
      exact decide_eq_decide.mpr (by omega)
    have small : other % 64 < 64 := Nat.mod_lt _ (by decide)
    simp only [word, if_true, BitVec.getLsbD_and, BitVec.getLsbD_not, bits, small, decide_true,
      Bool.true_and, ← Bool.and_assoc, decide_not, ne_eq]
  · have different : other ≠ page := fun same => word (same ▸ rfl)
    simp only [word, if_false, different, ne_eq, not_false_eq_true, decide_true, Bool.and_true]

/-- A frame is in use unless it is marked free. -/
def InUse (pmm : Pmm) (frame : BitVec 64) : Prop :=
  ¬(frame.toNat % pageSize = 0 ∧ pmm.isFree (frame.toNat / pageSize) = true)

instance (pmm : Pmm) (frame : BitVec 64) : Decidable (pmm.InUse frame) :=
  inferInstanceAs (Decidable (¬_))

/-- **The allocator is lawful**: it hands out frames not in use. -/
instance : LawfulFrameAlloc Pmm where
  allocFrame := allocFrame
  InUse := InUse
  isFrame alloc := by
    obtain ⟨page, inside, value, -⟩ := allocFrame_spec alloc
    have pages : maxPages = 1048576 := rfl
    exact isFrame_iff.mpr ⟨by omega, by omega⟩
  unused alloc := by
    obtain ⟨page, -, value, free, -⟩ := allocFrame_spec alloc
    refine not_not.mpr ⟨value ▸ Nat.mul_mod_left _ _, ?_⟩
    rw [value, pageSize, Nat.mul_div_cancel _ (by decide)]
    exact free
  inUse_iff {pmm pmm' frame} alloc g := by
    obtain ⟨page, inside, value, free, marked⟩ := allocFrame_spec alloc
    have bits : ∀ k, pmm'.isFree k = (pmm.isFree k && decide (k ≠ page)) := fun k => by
      rw [← isFree_markUsed inside, isFree, isFree, marked]
    simp only [InUse, bits, Bool.and_eq_true, decide_eq_true_eq]
    have same : g = frame ↔ g.toNat % pageSize = 0 ∧ g.toNat / pageSize = page := by
      rw [pageSize]
      constructor
      · rintro rfl
        exact ⟨by omega, by omega⟩
      · rintro ⟨aligned, number⟩
        exact BitVec.eq_of_toNat_eq (by omega)
    rw [same]
    tauto

end Pmm

end RustyPenguin.Vmm
