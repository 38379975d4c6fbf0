import Mathlib.Data.List.FinRange
import RustyPenguin.Foundation.Checked

/-!
# Loops over all positions

A loop over the positions of an array keeps what each of its steps keeps
(`foldl_finRange`). Where every step comes to the value of a total step, so does the loop, and
it keeps the same invariant (`foldlM_finRange`).
-/

set_option autoImplicit false

namespace RustyPenguin

variable {σ : Type} {n : Nat} {Inv : Nat → σ → Prop}

theorem foldl_finRange {step : σ → Fin n → σ} {s : σ} (start : Inv 0 s)
    (next : ∀ (k : Fin n) s, Inv k.val s → Inv (k.val + 1) (step s k)) :
    Inv n ((List.finRange n).foldl step s) := by
  have run : ∀ m ≤ n, Inv m (((List.finRange n).take m).foldl step s) := by
    intro m
    induction m with
    | zero => exact fun _ => start
    | succ m upTo =>
      intro within
      have inside : m < (List.finRange n).length := by
        rw [List.length_finRange]
        exact within
      rw [List.take_succ_eq_append_getElem inside, List.foldl_append, List.foldl_cons,
        List.foldl_nil, List.getElem_finRange]
      exact next (Fin.cast List.length_finRange ⟨m, inside⟩) _ (upTo (by omega))
  have whole := run n (Nat.le_refl n)
  rwa [List.take_of_length_le (by rw [List.length_finRange])] at whole

theorem foldlM_finRange {checked : σ → Fin n → Checked σ} {step : σ → Fin n → σ} {s : σ}
    (start : Inv 0 s)
    (next : ∀ (k : Fin n) s, Inv k.val s →
      checked s k = .ok (step s k) ∧ Inv (k.val + 1) (step s k)) :
    (List.finRange n).foldlM checked s = .ok ((List.finRange n).foldl step s) ∧
      Inv n ((List.finRange n).foldl step s) := by
  have run : ∀ m ≤ n, ((List.finRange n).take m).foldlM checked s =
      .ok (((List.finRange n).take m).foldl step s) ∧
        Inv m (((List.finRange n).take m).foldl step s) := by
    intro m
    induction m with
    | zero => exact fun _ => ⟨rfl, start⟩
    | succ m upTo =>
      intro within
      obtain ⟨goes, holds⟩ := upTo (by omega)
      have inside : m < (List.finRange n).length := by
        rw [List.length_finRange]
        exact within
      obtain ⟨went, kept⟩ := next (Fin.cast List.length_finRange ⟨m, inside⟩) _ holds
      rw [List.take_succ_eq_append_getElem inside, List.foldlM_append, goes, List.foldl_append,
        List.foldl_cons, List.foldl_nil, List.getElem_finRange]
      refine ⟨?_, kept⟩
      show List.foldlM checked _ [_] = _
      rw [List.foldlM_cons, Checked.bind_of_ok went]
      rfl
  have whole := run n (Nat.le_refl n)
  rwa [List.take_of_length_le (by rw [List.length_finRange])] at whole

end RustyPenguin
