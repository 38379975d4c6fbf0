import Mathlib.Data.List.Zip
import RustyPenguin.Ternary.Words

/-!
# Sparse ternary inference

Inference multiplies a matrix of trits by a vector of trits and keeps the sign of each
product. Both implementations skip the positions where a factor is zero and count them: the
runtime of the host, over tensors whose shapes it asserts, and the one inside the desktop,
over slices it indexes. The desktop takes as many positions as both slices have.

A product of two vectors is computed exactly while its running sum fits the 32 bits it is
kept in (`Fits`), and then both implementations agree, on one layer and on any chain of
layers.
-/

set_option autoImplicit false

namespace RustyPenguin.Ternary

open Checked

/-! ## The product of two vectors -/

/-- The sum of the products of pairs of trits. -/
def products (pairs : List (Trit × Trit)) : Int := (pairs.map fun p => p.1.toI8 * p.2.toI8).sum

/-- The positions where a factor is zero. -/
def zeros (pairs : List (Trit × Trit)) : Nat :=
  pairs.countP fun p => decide (p.1 = .zero ∨ p.2 = .zero)

/-- Every running sum of the products fits 32 bits. -/
def Fits (pairs : List (Trit × Trit)) : Prop :=
  ∀ k, k ≤ pairs.length → Word 32 (products (pairs.take k))

instance (pairs : List (Trit × Trit)) : Decidable (Fits pairs) :=
  inferInstanceAs (Decidable (∀ k, k ≤ pairs.length → Word 32 (products (pairs.take k))))

/-- The sign of a sum. -/
def activation (sum : Int) : Trit := if sum > 0 then .pos else if sum < 0 then .neg else .zero

/-- One position of a sparse product. -/
def tally (acc : Int × Nat) (a b : Trit) : Checked (Int × Nat) :=
  match a, b with
  | .zero, _ => pure (acc.1, acc.2 + 1)
  | _, .zero => pure (acc.1, acc.2 + 1)
  | .pos, .pos => do
      let sum ← signedIn 32 (acc.1 + 1)
      pure (sum, acc.2)
  | .neg, .neg => do
      let sum ← signedIn 32 (acc.1 + 1)
      pure (sum, acc.2)
  | _, _ => do
      let sum ← signedIn 32 (acc.1 - 1)
      pure (sum, acc.2)

/-- The positions before `n` of a sparse product. -/
def dotLoop (a b : List Trit) (n : Nat) : Checked (Int × Nat) :=
  (List.range n).foldlM (fun acc i => do
    let x ← index a i
    let y ← index b i
    tally acc x y) (0, 0)

/-! ## The host -/

namespace Host

structure TernaryTensor where
  data : List Trit
  shape : List Nat
  deriving DecidableEq, Repr

namespace TernaryTensor

def new (data : List Trit) (shape : List Nat) : Checked TernaryTensor :=
  if data.length = shape.prod then pure ⟨data, shape⟩ else fault

/-- The sum, the positions and the positions skipped. -/
def sparseDot (a b : List Trit) : Checked (Int × Nat × Nat) :=
  if a.length = b.length then do
    let (sum, skipped) ← dotLoop a b a.length
    pure (sum, a.length, skipped)
  else fault

end TernaryTensor

/-- A linear layer: its output, the positions and the positions skipped. -/
def forward (weights input : TernaryTensor) : Checked (TernaryTensor × Nat × Nat) :=
  if input.shape.length = 1 then do
    let inFeatures ← index weights.shape 1
    let outFeatures ← index weights.shape 0
    if input.data.length = inFeatures then do
      let (outputData, totalOps, totalSkipped) ← (List.range outFeatures).foldlM
        (fun acc row => do
          let start := row * inFeatures
          let weightRow ← sub weights.data start (start + inFeatures)
          let (sum, ops, skipped) ← TernaryTensor.sparseDot input.data weightRow
          pure (acc.1 ++ [activation sum], acc.2.1 + ops, acc.2.2 + skipped)) ([], 0, 0)
      let output ← TernaryTensor.new outputData [outFeatures]
      pure (output, totalOps, totalSkipped)
    else fault
  else fault

end Host

/-! ## The desktop -/

namespace Desktop

/-- The sum, the positions and the positions skipped. -/
def sparseDot (a b : List Trit) : Checked (Int × Nat × Nat) := do
  let len := min a.length b.length
  let (sum, skip) ← dotLoop a b len
  pure (sum, len, skip)

/-- A linear layer: its output, the positions and the positions skipped. -/
def linearLayer (w : List Trit) (rows cols : Nat) (x out : List Trit) :
    Checked (List Trit × Nat × Nat) :=
  (List.range rows).foldlM (fun acc r => do
    let row ← sub w (r * cols) ((r + 1) * cols)
    let front ← sub x 0 cols
    let (s, t, sk) ← sparseDot row front
    let out ← setAt acc.1 r (activation s)
    pure (out, acc.2.1 + t, acc.2.2 + sk)) (out, 0, 0)

end Desktop

/-! ## One product -/

theorem products_append (front back : List (Trit × Trit)) :
    products (front ++ back) = products front + products back := by
  rw [products, List.map_append, List.sum_append, products, products]

theorem products_singleton (p : Trit × Trit) : products [p] = p.1.toI8 * p.2.toI8 := by
  rw [products, List.map_singleton, List.sum_singleton]

theorem zeros_append (front back : List (Trit × Trit)) :
    zeros (front ++ back) = zeros front + zeros back := by
  rw [zeros, List.countP_append, zeros, zeros]

theorem tally_skip (acc : Int × Nat) {a b : Trit} (zero : a = .zero ∨ b = .zero) :
    tally acc a b = .ok (acc.1, acc.2 + 1) := by
  rcases zero with rfl | rfl
  · rfl
  · cases a <;> rfl

theorem tally_multiply (acc : Int × Nat) {a b : Trit} (nonzero : ¬(a = .zero ∨ b = .zero)) :
    tally acc a b = (signedIn 32 (acc.1 + a.toI8 * b.toI8) >>= fun sum => pure (sum, acc.2)) := by
  cases a <;> cases b <;> first | rfl | exact absurd (by simp) nonzero

/-- One position adds its product and counts its zero. -/
theorem tally_spec {acc : Int × Nat} (fits : Word 32 acc.1) (p : Trit × Trit) :
    tally acc p.1 p.2 = if Word 32 (acc.1 + products [p])
      then .ok (acc.1 + products [p], acc.2 + zeros [p]) else .error .fault := by
  rw [products_singleton]
  by_cases zero : p.1 = .zero ∨ p.2 = .zero
  · have nothing : p.1.toI8 * p.2.toI8 = 0 := by
      rcases zero with is | is
      · rw [is, Trit.toI8, zero_mul]
      · rw [is, Trit.toI8, mul_zero]
    have counted : zeros [p] = 1 := List.countP_singleton.trans (if_pos (decide_eq_true zero))
    rw [tally_skip acc zero, nothing, add_zero, if_pos fits, counted]
  · have uncounted : zeros [p] = 0 := List.countP_singleton.trans (if_neg (by simpa using zero))
    rw [tally_multiply acc zero, uncounted, add_zero, signedIn]
    split <;> rfl

theorem fits_nil : Fits [] := fun _ _ => by
  rw [List.take_nil]
  exact ⟨by decide, by decide⟩

theorem fits_concat {front : List (Trit × Trit)} {p : Trit × Trit} :
    Fits (front ++ [p]) ↔ Fits front ∧ Word 32 (products front + products [p]) := by
  rw [← products_append]
  constructor
  · intro fits
    refine ⟨fun k short => ?_, ?_⟩
    · have prefixFits := fits k (by rw [List.length_append]; exact Nat.le_add_right_of_le short)
      rwa [List.take_append_of_le_length short] at prefixFits
    · have whole := fits _ (le_refl _)
      rwa [List.take_length] at whole
  · rintro ⟨fits, whole⟩ k short
    rw [List.length_append, List.length_singleton] at short
    rcases Nat.lt_or_eq_of_le short with less | rfl
    · rw [List.take_append_of_le_length (Nat.lt_succ_iff.mp less)]
      exact fits k (Nat.lt_succ_iff.mp less)
    · rwa [List.take_of_length_le (by rw [List.length_append, List.length_singleton])]

theorem Fits.last {pairs : List (Trit × Trit)} (fits : Fits pairs) : Word 32 (products pairs) := by
  have whole := fits _ (le_refl _)
  rwa [List.take_length] at whole

/-- **The positions before `n` are summed and counted while the running sums fit.** -/
theorem dotLoop_spec (a b : List Trit) {n : Nat} (inside : n ≤ (a.zip b).length) :
    dotLoop a b n = if Fits ((a.zip b).take n)
      then .ok (products ((a.zip b).take n), zeros ((a.zip b).take n)) else .error .fault := by
  induction n with
  | zero =>
    rw [List.take_zero, if_pos fits_nil]
    rfl
  | succ n ih =>
    have both : (a.zip b).length = min a.length b.length := List.length_zip
    have inA : n < a.length := by omega
    have inB : n < b.length := by omega
    have next : (a.zip b).take (n + 1) = (a.zip b).take n ++ [(a[n], b[n])] := by
      rw [List.take_add_one, List.getElem?_eq_getElem inside, List.getElem_zip]
      rfl
    have turn : ∀ acc : Int × Nat, (do
        let x ← index a n
        let y ← index b n
        tally acc x y) = tally acc a[n] b[n] := by
      intro acc
      rw [bind_of_ok (index_eq_ok.mpr (List.getElem?_eq_getElem inA)),
        bind_of_ok (index_eq_ok.mpr (List.getElem?_eq_getElem inB))]
    rw [dotLoop, List.range_succ, List.foldlM_append, ← dotLoop, ih (Nat.le_of_succ_le inside), next,
      products_append, zeros_append]
    by_cases fits : Fits ((a.zip b).take n)
    · rw [if_pos fits, Checked.bind_of_ok rfl, List.foldlM_cons, turn,
        tally_spec fits.last (a[n], b[n])]
      by_cases more : Word 32 (products ((a.zip b).take n) + products [(a[n], b[n])])
      · rw [if_pos more, if_pos (fits_concat.2 ⟨fits, more⟩)]
        rfl
      · rw [if_neg more, if_neg fun all => more (fits_concat.1 all).2]
        rfl
    · rw [if_neg fits, if_neg fun all => fits (fits_concat.1 all).1]
      rfl

/-- The desktop multiplies the positions that both vectors have. -/
theorem Desktop.sparseDot_spec (a b : List Trit) :
    Desktop.sparseDot a b = if Fits (a.zip b)
      then .ok (products (a.zip b), min a.length b.length, zeros (a.zip b))
      else .error .fault := by
  have whole : (a.zip b).take (min a.length b.length) = a.zip b := by
    rw [← List.length_zip, List.take_length]
  have loop := dotLoop_spec a b (n := min a.length b.length) (List.length_zip ▸ le_refl _)
  rw [whole] at loop
  rw [Desktop.sparseDot, loop]
  split <;> rfl

/-- The host multiplies vectors of one length, as the desktop does, and no others. -/
theorem Host.sparseDot_spec (a b : List Trit) :
    Host.TernaryTensor.sparseDot a b =
      if a.length = b.length then Desktop.sparseDot a b else .error .fault := by
  rw [Host.TernaryTensor.sparseDot]
  by_cases same : a.length = b.length
  · rw [if_pos same, if_pos same, Desktop.sparseDot, ← same, Nat.min_self]
  · rw [if_neg same, if_neg same]
    rfl

theorem products_swap (pairs : List (Trit × Trit)) :
    products (pairs.map Prod.swap) = products pairs := by
  rw [products, List.map_map, products]
  refine congrArg List.sum (List.map_congr_left fun p _ => ?_)
  exact mul_comm _ _

theorem zeros_swap (pairs : List (Trit × Trit)) : zeros (pairs.map Prod.swap) = zeros pairs := by
  rw [zeros, List.countP_map, zeros]
  refine List.countP_congr fun p _ => ?_
  simp [or_comm]

theorem fits_swap (pairs : List (Trit × Trit)) : Fits (pairs.map Prod.swap) ↔ Fits pairs := by
  simp only [Fits, List.length_map, ← List.map_take, products_swap]

/-- A product does not depend on which vector comes first. -/
theorem Desktop.sparseDot_comm (a b : List Trit) :
    Desktop.sparseDot a b = Desktop.sparseDot b a := by
  rw [Desktop.sparseDot_spec, Desktop.sparseDot_spec, ← List.zip_swap a b, products_swap, zeros_swap,
    Nat.min_comm]
  simp only [fits_swap]

/-! ## One layer -/

/-- The loop over the rows of a layer, given the product of each row. -/
def rowsLoop (row : Nat → Checked (Int × Nat × Nat)) (n : Nat) : Checked (List Trit × Nat × Nat) :=
  (List.range n).foldlM (fun acc r => do
    let (sum, ops, skipped) ← row r
    pure (acc.1 ++ [activation sum], acc.2.1 + ops, acc.2.2 + skipped)) ([], 0, 0)

theorem rowsLoop_succ (row : Nat → Checked (Int × Nat × Nat)) (n : Nat) :
    rowsLoop row (n + 1) = (rowsLoop row n >>= fun acc => row n >>= fun result =>
      pure (acc.1 ++ [activation result.1], acc.2.1 + result.2.1, acc.2.2 + result.2.2)) := by
  rw [rowsLoop, List.range_succ, List.foldlM_append, ← rowsLoop]
  simp only [List.foldlM_cons, List.foldlM_nil, bind_pure]

theorem length_rowsLoop {row : Nat → Checked (Int × Nat × Nat)} {n : Nat}
    {acc : List Trit × Nat × Nat} (returns : rowsLoop row n = .ok acc) : acc.1.length = n := by
  induction n generalizing acc with
  | zero =>
    cases returns
    rfl
  | succ n ih =>
    rw [rowsLoop_succ] at returns
    obtain ⟨before, first, returns⟩ := bind_eq_ok.mp returns
    obtain ⟨result, _, returns⟩ := bind_eq_ok.mp returns
    cases returns
    rw [List.length_append, ih first, List.length_singleton]

/-- Rows that write their signs to the places of a slice write what the loop collects. -/
theorem writeRows_eq (row : Nat → Checked (Int × Nat × Nat)) {n : Nat} {out : List Trit}
    (room : n ≤ out.length) :
    (List.range n).foldlM (fun acc r => do
      let (s, t, sk) ← row r
      let out ← setAt acc.1 r (activation s)
      pure (out, acc.2.1 + t, acc.2.2 + sk)) (out, 0, 0) =
    (rowsLoop row n >>= fun acc => pure (acc.1 ++ out.drop n, acc.2)) := by
  induction n with
  | zero => rfl
  | succ n ih =>
    rw [List.range_succ, List.foldlM_append, ih (Nat.le_of_succ_le room), rowsLoop_succ]
    cases before : rowsLoop row n with
    | error stop => rfl
    | ok acc =>
      have size := length_rowsLoop before
      simp only [List.foldlM_cons, List.foldlM_nil, bind_pure]
      show (row n >>= fun result => setAt (acc.1 ++ out.drop n) n (activation result.1) >>= fun out =>
        pure (out, acc.2.1 + result.2.1, acc.2.2 + result.2.2)) =
        ((row n >>= fun result => pure (acc.1 ++ [activation result.1], acc.2.1 + result.2.1,
          acc.2.2 + result.2.2)) >>= fun acc => pure (acc.1 ++ out.drop (n + 1), acc.2))
      rw [bind_assoc]
      refine congrArg (row n >>= ·) (funext fun result => ?_)
      rw [setAt, if_pos (by rw [List.length_append, size, List.length_drop]; omega), pure_bind,
        pure_bind, List.set_append_right n _ size.le, size, Nat.sub_self,
        List.drop_eq_getElem_cons room, List.set_cons_zero, List.append_assoc]
      rfl

/-- Rows that return or fault, collected. -/
theorem rowsLoop_spec {row : Nat → Checked (Int × Nat × Nat)} {fits : Nat → Prop}
    [DecidablePred fits] {result : Nat → Int × Nat × Nat} {n : Nat}
    (each : ∀ r, r < n → row r = if fits r then .ok (result r) else .error .fault) :
    rowsLoop row n = if ∀ r, r < n → fits r
      then .ok ((List.range n).map fun r => activation (result r).1,
        ((List.range n).map fun r => (result r).2.1).sum,
        ((List.range n).map fun r => (result r).2.2).sum)
      else .error .fault := by
  induction n with
  | zero => rw [if_pos fun r below => absurd below (Nat.not_lt_zero r)]; rfl
  | succ n ih =>
    rw [rowsLoop_succ, ih fun r below => each r (Nat.lt_succ_of_lt below),
      each n (Nat.lt_succ_self n)]
    by_cases before : ∀ r, r < n → fits r
    · rw [if_pos before, Checked.bind_of_ok rfl]
      by_cases last : fits n
      · have all : ∀ r, r < n + 1 → fits r := by
          intro r below
          rcases Nat.lt_succ_iff_lt_or_eq.mp below with less | rfl
          · exact before r less
          · exact last
        rw [if_pos last, if_pos all, Checked.bind_of_ok rfl]
        simp only [List.range_succ, List.map_append, List.map_singleton, List.sum_append,
          List.sum_singleton]
        rfl
      · rw [if_neg last, if_neg fun all => last (all n (Nat.lt_succ_self n))]
        rfl
    · have notAll : ¬∀ r, r < n + 1 → fits r := fun all =>
        before fun r below => all r (Nat.lt_succ_of_lt below)
      rw [if_neg before, if_neg notAll]
      rfl

/-- A row of a matrix. -/
def rowOf (w : List Trit) (cols r : Nat) : List Trit := (w.drop (r * cols)).take cols

/-- The signs of the product of a matrix and a vector. -/
def dense (w : List Trit) (rows cols : Nat) (x : List Trit) : List Trit :=
  (List.range rows).map fun r => activation (products ((rowOf w cols r).zip x))

/-- The positions where a factor of the product is zero. -/
def denseZeros (w : List Trit) (rows cols : Nat) (x : List Trit) : Nat :=
  ((List.range rows).map fun r => zeros ((rowOf w cols r).zip x)).sum

/-- Every running sum of the product fits 32 bits. -/
def LayerFits (w : List Trit) (rows cols : Nat) (x : List Trit) : Prop :=
  ∀ r, r < rows → Fits ((rowOf w cols r).zip x)

instance (w : List Trit) (rows cols : Nat) (x : List Trit) : Decidable (LayerFits w rows cols x) :=
  inferInstanceAs (Decidable (∀ r, r < rows → Fits ((rowOf w cols r).zip x)))

/-- The product of one row, on the desktop. -/
def desktopRow (w : List Trit) (cols : Nat) (x : List Trit) (r : Nat) :
    Checked (Int × Nat × Nat) := do
  let row ← sub w (r * cols) ((r + 1) * cols)
  let front ← sub x 0 cols
  Desktop.sparseDot row front

theorem linearLayer_eq (w : List Trit) {rows : Nat} (cols : Nat) (x : List Trit) {out : List Trit}
    (room : rows ≤ out.length) :
    Desktop.linearLayer w rows cols x out =
      (rowsLoop (desktopRow w cols x) rows >>= fun acc => pure (acc.1 ++ out.drop rows, acc.2)) := by
  rw [← writeRows_eq (desktopRow w cols x) room, Desktop.linearLayer]
  simp only [desktopRow, bind_assoc]

theorem sub_row {w : List Trit} {cols r : Nat} (inside : (r + 1) * cols ≤ w.length) :
    sub w (r * cols) ((r + 1) * cols) = .ok (rowOf w cols r) := by
  rw [sub, if_pos ⟨Nat.mul_le_mul_right cols (Nat.le_succ r), inside⟩, Nat.succ_mul,
    Nat.add_sub_cancel_left]
  rfl

theorem desktopRow_spec {w x : List Trit} {cols r : Nat} (inside : (r + 1) * cols ≤ w.length)
    (enough : cols ≤ x.length) :
    desktopRow w cols x r = if Fits ((rowOf w cols r).zip (x.take cols))
      then .ok (products ((rowOf w cols r).zip (x.take cols)), cols,
        zeros ((rowOf w cols r).zip (x.take cols)))
      else .error .fault := by
  have size : (rowOf w cols r).length = cols := by
    rw [rowOf, List.length_take, List.length_drop]
    rw [Nat.succ_mul] at inside
    omega
  have front : sub x 0 cols = .ok (x.take cols) := by
    rw [sub, if_pos ⟨Nat.zero_le cols, enough⟩]
    rfl
  rw [desktopRow, bind_of_ok (sub_row inside), bind_of_ok front, Desktop.sparseDot_spec, size,
    List.length_take, Nat.min_eq_left enough, Nat.min_self]

/-- **The layer of the desktop is the sign of the dense product with the front of the vector.** -/
theorem linearLayer_spec {w x out : List Trit} {rows cols : Nat} (matrix : rows * cols ≤ w.length)
    (enough : cols ≤ x.length) (room : rows ≤ out.length) :
    Desktop.linearLayer w rows cols x out = if LayerFits w rows cols (x.take cols)
      then .ok (dense w rows cols (x.take cols) ++ out.drop rows, rows * cols,
        denseZeros w rows cols (x.take cols))
      else .error .fault := by
  have each : ∀ r, r < rows → desktopRow w cols x r = _ := fun r below =>
    desktopRow_spec ((Nat.mul_le_mul_right cols below).trans matrix) enough
  rw [linearLayer_eq w cols x room, rowsLoop_spec each]
  have same : (∀ r, r < rows → Fits ((rowOf w cols r).zip (x.take cols))) ↔
    LayerFits w rows cols (x.take cols) := Iff.rfl
  simp only [same]
  by_cases fits : LayerFits w rows cols (x.take cols)
  · have sum : ((List.range rows).map fun _ => cols).sum = rows * cols := by
      rw [List.map_const', List.sum_replicate_nat, List.length_range]
    rw [if_pos fits, if_pos fits, sum]
    rfl
  · rw [if_neg fits, if_neg fits]
    rfl

/-- A row of the host has the product of the row of the desktop. -/
theorem hostRow_eq (w x : List Trit) (r : Nat) :
    (do
      let weightRow ← sub w (r * x.length) (r * x.length + x.length)
      Host.TernaryTensor.sparseDot x weightRow) = desktopRow w x.length x r := by
  have front : sub x 0 x.length = .ok x := by
    rw [sub, if_pos ⟨Nat.zero_le _, le_refl _⟩, List.drop_zero, Nat.sub_zero, List.take_length]
    rfl
  rw [desktopRow, Nat.succ_mul]
  cases cut : sub w (r * x.length) (r * x.length + x.length) with
  | error stop => rfl
  | ok row =>
    obtain ⟨_, inside, rfl⟩ := sub_eq_ok.mp cut
    have size : ((w.drop (r * x.length)).take (r * x.length + x.length - r * x.length)).length =
        x.length := by
      rw [List.length_take, List.length_drop]
      omega
    rw [Checked.bind_of_ok rfl, Checked.bind_of_ok rfl, bind_of_ok front, Host.sparseDot_spec,
      if_pos size.symm, Desktop.sparseDot_comm]

/-- **The layer of the host on a vector of the width of its matrix is that of the desktop.** -/
theorem forward_eq (w x : List Trit) (rows : Nat) :
    (Host.forward ⟨w, [rows, x.length]⟩ ⟨x, [x.length]⟩ >>= fun result =>
      pure (result.1.data, result.2)) =
      Desktop.linearLayer w rows x.length x (List.replicate rows .zero) := by
  have room : rows ≤ (List.replicate rows Trit.zero).length := by rw [List.length_replicate]
  have rest : (List.replicate rows Trit.zero).drop rows = [] :=
    List.drop_eq_nil_of_le (by rw [List.length_replicate])
  have loop : (List.range rows).foldlM (fun (acc : List Trit × Nat × Nat) row => do
      let start := row * x.length
      let weightRow ← sub w start (start + x.length)
      let (sum, ops, skipped) ← Host.TernaryTensor.sparseDot x weightRow
      pure (acc.1 ++ [activation sum], acc.2.1 + ops, acc.2.2 + skipped)) ([], 0, 0) =
      rowsLoop (desktopRow w x.length x) rows := by
    rw [rowsLoop]
    simp only [← hostRow_eq, bind_assoc]
  have opened : Host.forward ⟨w, [rows, x.length]⟩ ⟨x, [x.length]⟩ =
      (rowsLoop (desktopRow w x.length x) rows >>= fun acc =>
        Host.TernaryTensor.new acc.1 [rows] >>= fun output => pure (output, acc.2)) := by
    rw [← loop, Host.forward]
    simp only [List.length_singleton, if_true, index, List.getElem?_cons_succ,
      List.getElem?_cons_zero, pure_bind]
  rw [opened, linearLayer_eq w x.length x room, rest]
  cases collected : rowsLoop (desktopRow w x.length x) rows with
  | error stop => rfl
  | ok acc =>
    have size : acc.1.length = [rows].prod := by
      rw [length_rowsLoop collected, List.prod_singleton]
    rw [Checked.bind_of_ok rfl, Checked.bind_of_ok rfl, Host.TernaryTensor.new, if_pos size,
      List.append_nil]
    rfl

/-- The host asserts that the vector has the width of the matrix. -/
theorem forward_of_width {w x : List Trit} {rows cols : Nat} (wider : x.length ≠ cols) :
    Host.forward ⟨w, [rows, cols]⟩ ⟨x, [x.length]⟩ = .error .fault := by
  rw [Host.forward]
  simp only [List.length_singleton, if_true, index, List.getElem?_cons_succ,
    List.getElem?_cons_zero, pure_bind, if_neg wider]
  rfl

/-! ## Chains of layers -/

/-- Layers one after the other, each given by its weights and the number of its rows, with
the positions and the positions skipped in all. -/
def network (layer : List Trit → Nat → List Trit → Checked (List Trit × Nat × Nat))
    (layers : List (List Trit × Nat)) (x : List Trit) : Checked (List Trit × Nat × Nat) :=
  layers.foldlM (fun acc l => do
    let (out, ops, skipped) ← layer l.1 l.2 acc.1
    pure (out, acc.2.1 + ops, acc.2.2 + skipped)) (x, 0, 0)

/-- A layer of the host. -/
def Host.layer (w : List Trit) (rows : Nat) (x : List Trit) : Checked (List Trit × Nat × Nat) := do
  let (output, ops, skipped) ← Host.forward ⟨w, [rows, x.length]⟩ ⟨x, [x.length]⟩
  pure (output.data, ops, skipped)

/-- A layer of the desktop, into a slice of its own. -/
def Desktop.layer (w : List Trit) (rows : Nat) (x : List Trit) :
    Checked (List Trit × Nat × Nat) :=
  Desktop.linearLayer w rows x.length x (List.replicate rows .zero)

/-- What sparse inference computes, for two vectors, a matrix with a vector of its width, and
a chain of layers. -/
structure Inference (a b : List Trit) (w x out : List Trit) (rows : Nat)
    (layers : List (List Trit × Nat)) : Prop where
  desktopDot : Desktop.sparseDot a b = if Fits (a.zip b)
    then .ok (products (a.zip b), min a.length b.length, zeros (a.zip b)) else .error .fault
  hostDot : Host.TernaryTensor.sparseDot a b =
    if a.length = b.length then Desktop.sparseDot a b else .error .fault
  desktopLayer : rows * x.length ≤ w.length → rows ≤ out.length →
    Desktop.linearLayer w rows x.length x out = if LayerFits w rows x.length x
      then .ok (dense w rows x.length x ++ out.drop rows, rows * x.length,
        denseZeros w rows x.length x)
      else .error .fault
  hostLayer : Host.layer w rows x = Desktop.layer w rows x
  chains : network Host.layer layers x = network Desktop.layer layers x

/-- **Sparse inference is dense inference while the running sums fit, on the host and on the
desktop alike, for one layer and for chains of layers.** -/
theorem inference (a b w x out : List Trit) (rows : Nat) (layers : List (List Trit × Nat)) :
    Inference a b w x out rows layers := by
  have same : Host.layer = Desktop.layer := by
    funext w rows x
    exact forward_eq w x rows
  refine ⟨Desktop.sparseDot_spec a b, Host.sparseDot_spec a b, fun matrix room => ?_, ?_, ?_⟩
  · have layer := linearLayer_spec matrix (le_refl x.length) room
    rwa [List.take_length] at layer
  · rw [same]
  · rw [same]

/-- Vectors of two lengths are multiplied on the desktop only, and 2 ^ 31 products of one sign
leave the 32 bits on both. -/
theorem not_agreed : Host.TernaryTensor.sparseDot [.pos] [] = .error .fault ∧
    Desktop.sparseDot [.pos] [] = .ok (0, 0, 0) ∧
    Desktop.sparseDot (List.replicate (2 ^ 31) .pos) (List.replicate (2 ^ 31) .pos) =
      .error .fault := by
  refine ⟨rfl, rfl, ?_⟩
  rw [Desktop.sparseDot_spec, List.zip_replicate', if_neg]
  intro fits
  have last := fits.last
  rw [products, List.map_replicate, List.sum_replicate_int] at last
  exact absurd last.2 (by decide)

end RustyPenguin.Ternary
