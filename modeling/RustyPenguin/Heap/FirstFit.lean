import RustyPenguin.Heap.Reclaim

/-!
# What a request is answered

The desktop has one arena, a static of 32 MiB in a user program, and the addresses of user programs
are below `2^47`. There every sum of a search stays inside the address space, so every state of a
run is in order, and a request is refused only when no free block has an address of the alignment
with the bytes asked for behind it.
-/

set_option autoImplicit false

namespace RustyPenguin

namespace Heap

/-- An arena in a user program, with room for one block. -/
structure IsUser (arena : Arena) : Prop where
  room : 16 ≤ arena.size.toNat
  low : arena.limit ≤ 2 ^ 47

/-- A free block has an address of the alignment, and the bytes asked for from there on. -/
def CanHold (layout : Layout) (b : Extent) : Prop :=
  ∃ q, layout.align.toNat ∣ q ∧ b.start ≤ q ∧ q < b.stop ∧ q + layout.size.toNat ≤ b.stop

/-- What a request is owed: it is refused exactly when no free block can hold it, and then nothing
has changed; otherwise it gets a piece of a free block, aligned and apart from what is held. -/
structure Answered (layout : Layout) (w : World) (free : List Extent) (p : UInt64) (h : Heap) :
    Prop where
  refused_iff : p = 0 ↔ ∀ b ∈ free, ¬CanHold layout b
  unchanged : p = 0 → h = w.heap
  aligned : p ≠ 0 → layout.align.toNat ∣ p.toNat
  inside : p ≠ 0 → ∃ b ∈ free, b.start ≤ p.toNat ∧ p.toNat + layout.size.toNat ≤ b.stop
  apart : p ≠ 0 → ∀ block ∈ w.out,
    Extent.Apart (region block) ⟨p.toNat, layout.size.toNat⟩

/-! ## Which blocks can hold a request -/

theorem roundUp_le {a x q : Nat} (positive : 0 < a) (multiple : a ∣ q) (above : x ≤ q) :
    roundUp a x ≤ q := by
  obtain ⟨m, rfl⟩ := multiple
  have most := roundUp_lt positive x
  have below : (x + a - 1) / a * a < (m + 1) * a := by
    rw [Nat.add_one_mul, Nat.mul_comm m a]
    rw [roundUp] at most
    omega
  have few := Nat.lt_of_mul_lt_mul_right below
  rw [roundUp, Nat.mul_comm a m]
  exact Nat.mul_le_mul_right a (Nat.le_of_lt_succ few)

theorem Layout.dvd_grain (layout : Layout) : layout.align.toNat ∣ grain layout.align.toNat := by
  obtain ⟨k, power⟩ := layout.power
  rw [grain]
  rcases Nat.le_total 16 layout.align.toNat with large | small
  · rw [Nat.max_eq_left large]
  · rw [Nat.max_eq_right small, power]
    rw [power] at small
    have few : k ≤ 4 := (Nat.pow_le_pow_iff_right (by decide : 1 < 2)).mp (small : 2 ^ k ≤ 2 ^ 4)
    exact Nat.pow_dvd_pow 2 few

theorem Layout.grain_dvd (layout : Layout) : 16 ∣ grain layout.align.toNat := by
  obtain ⟨align, k, _, value, _, whole⟩ := layout.grain_spec
  exact value ▸ whole

theorem grain_pos (align : Nat) : 0 < grain align :=
  Nat.lt_of_lt_of_le (by decide : 0 < 16) (Nat.le_max_right align 16)

theorem le_blockSize (size : Nat) : size ≤ blockSize size :=
  (Nat.le_max_left size 16).trans (le_roundUp (by decide) _)

/-- A block can hold a request exactly when the search finds room in it. -/
theorem canHold_iff {layout : Layout} {b : Extent} (grained : Extent.Grained 16 b) :
    CanHold layout b ↔
      roundUp (grain layout.align.toNat) b.start + blockSize layout.size.toNat ≤ b.stop := by
  have place := Nat.dvd_trans layout.grain_dvd (dvd_roundUp (grain layout.align.toNat) b.start)
  have ends : 16 ∣ b.stop := Nat.dvd_add grained.1 grained.2.1
  constructor
  · rintro ⟨q, multiple, low, high, room⟩
    have first : roundUp (grain layout.align.toNat) b.start ≤ q := by
      rcases Nat.le_total 16 layout.align.toNat with large | small
      · have same : grain layout.align.toNat = layout.align.toNat := Nat.max_eq_left large
        rw [same]
        exact roundUp_le (by omega) multiple low
      · have same : grain layout.align.toNat = 16 := Nat.max_eq_right small
        rw [same]
        exact (roundUp_le (by decide) grained.1 (Nat.le_refl _)).trans low
    generalize roundUp (grain layout.align.toNat) b.start = r at place first
    have unit : 16 ∣ b.stop - r := Nat.dvd_sub ends place
    have need : blockSize layout.size.toNat ≤ b.stop - r := by
      refine roundUp_le (by decide) unit (Nat.max_le.mpr ⟨by omega, ?_⟩)
      exact Nat.le_of_dvd (by omega) unit
    omega
  · intro fits
    have enough := le_blockSize layout.size.toNat
    have positive := blockSize_pos layout.size.toNat
    exact ⟨_, Nat.dvd_trans layout.dvd_grain (dvd_roundUp _ _), le_roundUp (grain_pos _) _,
      by omega, by omega⟩

/-! ## One request -/

variable {arena : Arena} {w : World} {free : List Extent}

/-- **A request on a heap in order is answered as it should be.** -/
theorem InOrder.answers (order : InOrder arena w free) (layout : Layout)
    (fits : w.Fits (.alloc layout)) : ∃ p h, w.heap.alloc layout.size layout.align = some (p, h) ∧
      Answered layout w free p h := by
  have found := alloc_spec order.list order.spaced (fun e => order.sound) layout
    (fits free order.list)
  cases carved : Extent.carve (roundUp (grain layout.align.toNat)) (blockSize layout.size.toNat)
      free with
  | none =>
    rw [carved] at found
    have full : ∀ b ∈ free, ¬CanHold layout b := by
      intro b isFree holds
      exact Extent.carve_eq_none.1 carved b isFree ((canHold_iff (order.grained b isFree)).mp holds)
    exact ⟨0, w.heap, found, ⟨fun _ => full, fun _ => rfl⟩, fun _ => rfl,
      fun other => absurd rfl other, fun other => absurd rfl other, fun other => absurd rfl other⟩
  | some taken =>
    obtain ⟨p, free'⟩ := taken
    rw [carved] at found
    obtain ⟨payload, h, answers, value, -, -⟩ := found
    obtain ⟨front, b, back, split, start, room, -, -⟩ := Extent.carve_some carved
    have isFree : b ∈ free := split ▸ List.mem_append_right _ List.mem_cons_self
    have low := le_roundUp (grain_pos layout.align.toNat) b.start
    have enough := le_blockSize layout.size.toNat
    have nonzero : payload ≠ 0 := by
      rintro rfl
      have within := order.within isFree
      have positive := arena_positive arena
      have zero : p = 0 := value.symm
      omega
    have holds : CanHold layout b :=
      (canHold_iff (order.grained b isFree)).mpr (start ▸ room)
    rw [← value] at start room
    refine ⟨payload, h, answers, ⟨fun zero => absurd zero nonzero, fun none => ?_⟩,
      fun zero => absurd zero nonzero, fun _ => ?_, fun _ => ⟨b, isFree, by omega, by omega⟩, ?_⟩
    · exact absurd holds (none b isFree)
    · rw [start]
      exact Nat.dvd_trans layout.dvd_grain (dvd_roundUp _ _)
    · intro _ block isHeld
      have away := order.apart isHeld isFree
      simp only [Extent.Apart, Extent.stop] at away room ⊢
      omega

/-! ## A user program -/

/-- Among the addresses of a user program every sum of a search fits. -/
theorem IsUser.fits (user : IsUser arena) (order : InOrder arena w free)
    (layout : Layout) : w.Fits (.alloc layout) := by
  refine order.fits ?_
  have low := user.low
  have whole := layout.fits
  have size : blockSize layout.size.toNat < max layout.size.toNat 16 + 16 :=
    roundUp_lt (by decide) _
  have most : grain layout.align.toNat ≤ layout.align.toNat + 16 := by
    rw [grain]
    omega
  omega

/-- **Every state of a user program's heap is in order.** -/
theorem user_inOrder (user : IsUser arena) {mem : UInt64 → UInt64}
    {history : List (Op × UInt64)}
    (run : Run World.step World.Valid (World.start arena mem) history w) :
    ∃ free, InOrder arena w free := by
  refine run.invariant (P := fun w => ∃ free, InOrder arena w free)
    ⟨_, start_inOrder arena user.room mem⟩ ?_
  rintro s op a s' ⟨free, order⟩ valid done
  have fits : s.Fits op := by
    cases op with
    | alloc layout => exact user.fits order layout
    | dealloc ptr size => trivial
    | store addr value => trivial
  obtain ⟨_, _, free', answers, next⟩ := order.step valid fits
  rw [answers] at done
  cases done
  exact ⟨free', next⟩

/-- **Allocation is sound and complete**: in every state of the heap a request returns,
with an aligned piece of a free block that overlaps nothing held, or with zero exactly when no free
block can hold it, and then the heap is as it was. -/
theorem first_fit (arena : Arena) (user : IsUser arena) (mem : UInt64 → UInt64)
    (history : List (Op × UInt64)) (w : World)
    (run : Run World.step World.Valid (World.start arena mem) history w) (layout : Layout) :
    ∃ free p h, w.heap.FreeList free ∧ w.heap.alloc layout.size layout.align = some (p, h) ∧
      Answered layout w free p h := by
  obtain ⟨free, order⟩ := user_inOrder user run
  obtain ⟨p, h, answers, answered⟩ := order.answers layout (user.fits order layout)
  exact ⟨free, p, h, order.list, answers, answered⟩

/-- An arena of the desktop's size behind the start of its program. -/
def desktopArena : Arena where
  base := 0x500000
  size := 0x2000000
  nonnull := by decide
  aligned := by decide
  ends := by decide

theorem first_fit_sample : ∃ free p h, (World.start desktopArena fun _ => 0).heap.FreeList free ∧
    (World.start desktopArena fun _ => 0).heap.alloc 16 16 = some (p, h) ∧
      Answered smallLayout (World.start desktopArena fun _ => 0) free p h :=
  first_fit desktopArena ⟨by decide, by decide⟩ (fun _ => 0) [] _ .start smallLayout

end Heap

end RustyPenguin
