import Mathlib.Algebra.Ring.Int.Defs
import Mathlib.Algebra.Ring.Nat
import Mathlib.Data.List.Basic

/-!
# Computations that look at a memory

A `Reads` is a value with the places that were looked at to find it. `Within m P` says that each of
these places has a property. It goes step by step through a sequence (`within_bind`), and a search
stays within a property when each step up to the first hit does (`within_search`).
-/

set_option autoImplicit false

namespace RustyPenguin

/-- A value and the places looked at. -/
structure Reads (α : Type) where
  value : α
  places : List Nat

namespace Reads

variable {α β : Type} {P : Nat → Prop}

instance : Monad Reads where
  pure a := ⟨a, []⟩
  bind m f := ⟨(f m.value).value, m.places ++ (f m.value).places⟩

/-- Look at one place. -/
def look (mem : Nat → α) (x : Nat) : Reads α := ⟨mem x, [x]⟩

/-- Every place looked at has the property. -/
def Within (m : Reads α) (P : Nat → Prop) : Prop := ∀ x ∈ m.places, P x

@[simp] theorem value_pure (a : α) : (pure a : Reads α).value = a := rfl

@[simp] theorem value_bind (m : Reads α) (f : α → Reads β) :
    (m >>= f).value = (f m.value).value := rfl

@[simp] theorem value_look (mem : Nat → α) (x : Nat) : (look mem x).value = mem x := rfl

@[simp] theorem within_pure (a : α) : (pure a : Reads α).Within P := by
  intro x none
  cases none

@[simp] theorem within_bind (m : Reads α) (f : α → Reads β) :
    (m >>= f).Within P ↔ m.Within P ∧ (f m.value).Within P :=
  List.forall_mem_append

@[simp] theorem within_look (mem : Nat → α) (x : Nat) : (look mem x).Within P ↔ P x :=
  List.forall_mem_singleton

theorem within_ite {c : Prop} [Decidable c] {m n : Reads α} :
    (if c then m else n).Within P ↔ (c → m.Within P) ∧ (¬c → n.Within P) := by
  by_cases holds : c
  · rw [if_pos holds]
    exact ⟨fun inside => ⟨fun _ => inside, fun fails => absurd holds fails⟩,
      fun both => both.1 holds⟩
  · rw [if_neg holds]
    exact ⟨fun inside => ⟨fun here => absurd here holds, fun _ => inside⟩,
      fun both => both.2 holds⟩

theorem value_ite {c : Prop} [Decidable c] {m n : Reads α} :
    (if c then m else n).value = if c then m.value else n.value := by
  split <;> rfl

/-! ## Searches -/

/-- Take steps at `i`, `i + 1`, … until one has a result, and at most so many. -/
def search (step : Nat → Reads (Option α)) : (turns i : Nat) → Reads (Option α)
  | 0, _ => pure none
  | turns + 1, i => do
    match ← step i with
    | some a => pure (some a)
    | none => search step turns (i + 1)

variable {step : Nat → Reads (Option α)}

theorem search_succ (turns i : Nat) : search step (turns + 1) i = (do
    match ← step i with
    | some a => pure (some a)
    | none => search step turns (i + 1)) := rfl

/-- The steps from `i` up to `j` have no result. -/
def Missed (step : Nat → Reads (Option α)) (i j : Nat) : Prop :=
  ∀ k, i ≤ k → k < j → (step k).value = none

theorem missed_self (i : Nat) : Missed step i i := fun _ low high => absurd high (Nat.not_lt.mpr low)

theorem Missed.cons {i j : Nat} (first : (step i).value = none) (more : Missed step (i + 1) j) :
    Missed step i j := by
  intro k low high
  rcases Nat.eq_or_lt_of_le low with rfl | later
  · exact first
  · exact more k later high

/-- **A search stays within a property** exactly when each step up to the first hit does. -/
theorem within_search {turns i : Nat} : (search step turns i).Within P ↔
    ∀ j, i ≤ j → j < i + turns → Missed step i j → (step j).Within P := by
  induction turns generalizing i with
  | zero => exact ⟨fun _ j low high => absurd high (Nat.not_lt.mpr low), fun _ => within_pure none⟩
  | succ turns ih =>
    rw [search_succ, within_bind]
    constructor
    · rintro ⟨here, rest⟩ j low high missed
      rcases Nat.eq_or_lt_of_le low with rfl | later
      · exact here
      · have first := missed i (Nat.le_refl i) later
        rw [first] at rest
        exact ih.mp rest j later (by omega) fun k above below => missed k (by omega) below
    · intro each
      refine ⟨each i (Nat.le_refl i) (by omega) (missed_self i), ?_⟩
      cases first : (step i).value with
      | some a => exact within_pure (some a)
      | none =>
        exact ih.mpr fun j low high missed =>
          each j (by omega) (by omega) (.cons first missed)

/-- A search has the result of its first hit. -/
theorem value_search {turns i j : Nat} {a : α} (low : i ≤ j) (high : j < i + turns)
    (missed : Missed step i j) (hit : (step j).value = some a) :
    (search step turns i).value = some a := by
  induction turns generalizing i with
  | zero => omega
  | succ turns ih =>
    rw [search_succ, value_bind]
    rcases Nat.eq_or_lt_of_le low with rfl | later
    · rw [hit]
      rfl
    · rw [missed i (Nat.le_refl i) later]
      exact ih later (by omega) fun k above below => missed k (by omega) below

end Reads

end RustyPenguin
