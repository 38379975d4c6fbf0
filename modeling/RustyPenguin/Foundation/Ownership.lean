import RustyPenguin.Foundation.Buffer

/-!
# Exact ownership

A pool of units, some in use, and owners each holding a set of them. Ownership is exact
when every unit in use has exactly one owner and a unit not in use has none: nothing
leaks and nothing is shared. An owner that gives its units back (`Exact.release`) and an
owner that takes units not in use (`Exact.acquire`) keep it exact.
-/

set_option autoImplicit false

namespace RustyPenguin.Ownership

variable {ι U : Type*}

/-- Every unit in use has exactly one owner, and the others have none. -/
structure Exact (used : U → Prop) (owns : ι → U → Prop) : Prop where
  used_iff : ∀ u, used u ↔ ∃ i, owns i u
  unique : ∀ i j u, owns i u → owns j u → i = j

variable {used used' : U → Prop} {owns owns' : ι → U → Prop}

/-- Nothing in use and nothing owned. -/
theorem Exact.empty (unused : ∀ u, ¬used u) (unowned : ∀ i u, ¬owns i u) : Exact used owns where
  used_iff u := ⟨fun inUse => absurd inUse (unused u), fun ⟨i, holds⟩ => absurd holds (unowned i u)⟩
  unique i _ u holds := absurd holds (unowned i u)

theorem Exact.congr (exact : Exact used owns) (sameUsed : ∀ u, used' u ↔ used u)
    (same : ∀ i u, owns' i u ↔ owns i u) : Exact used' owns' where
  used_iff u := by simp only [sameUsed, same, exact.used_iff]
  unique i j u first second := exact.unique i j u ((same i u).mp first) ((same j u).mp second)

/-- **Release**: owner `i` gives everything back, and what it owned is no longer in use. -/
theorem Exact.release (exact : Exact used owns) (i : ι) (gone : ∀ u, ¬owns' i u)
    (kept : ∀ j u, j ≠ i → (owns' j u ↔ owns j u)) (cleared : ∀ u, used' u ↔ used u ∧ ¬owns i u) :
    Exact used' owns' where
  used_iff u := by
    rw [cleared, exact.used_iff]
    constructor
    · rintro ⟨⟨j, holds⟩, other⟩
      have different : j ≠ i := fun same => other (same ▸ holds)
      exact ⟨j, (kept j u different).mpr holds⟩
    · rintro ⟨j, holds⟩
      have different : j ≠ i := fun same => gone u (same ▸ holds)
      have held := (kept j u different).mp holds
      exact ⟨⟨j, held⟩, fun mine => different (exact.unique j i u held mine)⟩
  unique j k u first second := by
    have differentJ : j ≠ i := fun same => gone u (same ▸ first)
    have differentK : k ≠ i := fun same => gone u (same ▸ second)
    exact exact.unique j k u ((kept j u differentJ).mp first) ((kept k u differentK).mp second)

/-- **Acquire**: owner `i`, who had nothing, takes units that were not in use. -/
theorem Exact.acquire (exact : Exact used owns) (i : ι) (nothing : ∀ u, ¬owns i u)
    (kept : ∀ j u, j ≠ i → (owns' j u ↔ owns j u)) (free : ∀ u, owns' i u → ¬used u)
    (marked : ∀ u, used' u ↔ used u ∨ owns' i u) : Exact used' owns' where
  used_iff u := by
    rw [marked, exact.used_iff]
    constructor
    · rintro (⟨j, holds⟩ | holds)
      · have different : j ≠ i := fun same => nothing u (same ▸ holds)
        exact ⟨j, (kept j u different).mpr holds⟩
      · exact ⟨i, holds⟩
    · rintro ⟨j, holds⟩
      by_cases same : j = i
      · exact Or.inr (same ▸ holds)
      · exact Or.inl ⟨j, (kept j u same).mp holds⟩
  unique j k u first second := by
    have old : ∀ {l}, l ≠ i → owns' l u → used u := fun {l} different holds =>
      (exact.used_iff u).mpr ⟨l, (kept l u different).mp holds⟩
    by_cases sameJ : j = i
    · by_cases sameK : k = i
      · rw [sameJ, sameK]
      · exact absurd (old sameK second) (free u (sameJ ▸ first))
    · by_cases sameK : k = i
      · exact absurd (old sameJ first) (free u (sameK ▸ second))
      · exact exact.unique j k u ((kept j u sameJ).mp first) ((kept k u sameK).mp second)

end RustyPenguin.Ownership
