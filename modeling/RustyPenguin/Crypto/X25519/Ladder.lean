import Mathlib.Data.ZMod.Basic
import RustyPenguin.Crypto.X25519.Product

/-!
# The ladder in the prime field

Limbs stand for residues modulo `2^255 - 19`. One step of the ladder of limbs is one step of
the ladder in the field, which swaps its two points lazily: it keeps the bit that says whether
they are swapped, where the limbs are swapped back at the end of each step. Inversion is the
power `p - 2`.
-/

set_option autoImplicit false

namespace RustyPenguin.Crypto

open Weights

/-- The field of the curve. -/
abbrev Field25519 : Type := ZMod prime25519

instance : NeZero prime25519 := ⟨by decide⟩

/-- The residue that limbs stand for. -/
def element (o : Gf) : Field25519 := (value o : Field25519)

/-! ## The ladder -/

/-- Two points as fractions of abscissas, and whether they are swapped. -/
structure Montgomery where
  x2 : Field25519
  z2 : Field25519
  x3 : Field25519
  z3 : Field25519
  swap : Bool

/-- Swap two values if a bit is set. -/
def cswap {α : Type} (swap : Bool) (a b : α) : α × α := if swap then (b, a) else (a, b)

/-- One step of the ladder, for one bit of the scalar. -/
def Montgomery.step (x1 : Field25519) (s : Montgomery) (bit : Bool) : Montgomery :=
  let swap := s.swap ^^ bit
  let (x2, x3) := cswap swap s.x2 s.x3
  let (z2, z3) := cswap swap s.z2 s.z3
  let a := x2 + z2
  let aa := a ^ 2
  let b := x2 - z2
  let bb := b ^ 2
  let e := aa - bb
  let c := x3 + z3
  let d := x3 - z3
  let da := d * a
  let cb := c * b
  { x2 := aa * bb
    z2 := e * (aa + 121665 * e)
    x3 := (da + cb) ^ 2
    z3 := x1 * (da - cb) ^ 2
    swap := bit }

/-- The ladder's abscissa of the multiple `k` of a point with abscissa `u`. -/
def ladder (k : Nat) (u : Field25519) : Field25519 :=
  let s := (List.range 255).foldr (fun t s => Montgomery.step u s (k.testBit t)) ⟨1, 0, u, 1, false⟩
  (cswap s.swap s.x2 s.x3).1 * (cswap s.swap s.z2 s.z3).1 ^ (prime25519 - 2)

/-! ## Elements -/

/-- Settled limbs that stand for a residue. -/
def Stands (o : Gf) (x : Field25519) : Prop := Settled o ∧ element o = x

/-- Loose limbs that stand for a residue. -/
def StandsLoosely (o : Gf) (x : Field25519) : Prop := Loose o ∧ element o = x

theorem Stands.loosely {o : Gf} {x : Field25519} (stands : Stands o x) : StandsLoosely o x :=
  ⟨stands.1.loose, stands.2⟩

variable {a b : Gf} {x y : Field25519}

theorem Stands.congr (stands : Stands a x) (same : x = y) : Stands a y := same ▸ stands

theorem addGf_stands (left : Stands a x) (right : Stands b y) :
    Checked25519.addGf a b = .ok (addGf a b) ∧ StandsLoosely (addGf a b) (x + y) := by
  obtain ⟨runs, loose, sum⟩ := addGf_spec left.1 right.1
  refine ⟨runs, loose, ?_⟩
  rw [element, sum, Int.cast_add, ← left.2, ← right.2]
  rfl

theorem subGf_stands (left : Stands a x) (right : Stands b y) :
    Checked25519.subGf a b = .ok (subGf a b) ∧ StandsLoosely (subGf a b) (x - y) := by
  obtain ⟨runs, loose, difference⟩ := subGf_spec left.1 right.1
  refine ⟨runs, loose, ?_⟩
  rw [element, difference, Int.cast_sub, ← left.2, ← right.2]
  rfl

theorem mulGf_stands (left : StandsLoosely a x) (right : StandsLoosely b y) :
    Checked25519.mulGf a b = .ok (mulGf a b) ∧ Stands (mulGf a b) (x * y) := by
  obtain ⟨runs, settled, product⟩ := mulGf_spec left.1 right.1
  refine ⟨runs, settled, ?_⟩
  rw [element, (ZMod.intCast_eq_intCast_iff _ _ _).mpr product, Int.cast_mul, ← left.2, ← right.2]
  rfl

theorem sqGf_stands (stands : StandsLoosely a x) :
    Checked25519.sqGf a = .ok (sqGf a) ∧ Stands (sqGf a) (x ^ 2) := by
  rw [pow_two]
  exact mulGf_stands stands stands

/-! ## Swaps -/

/-- A bit as a word. -/
def bitWord (bit : Bool) : Int64 := if bit then 1 else 0

theorem sel25519_eq (p q : Gf) (bit : Bool) : sel25519 p q (bitWord bit) = cswap bit p q := by
  cases bit with
  | false =>
    have mask : ~~~(bitWord false - 1) = 0 := rfl
    rw [sel25519, mask]
    simp [cswap]
  | true =>
    have mask : ~~~(bitWord true - 1) = -1 := rfl
    have there : ∀ x y : Int64, x ^^^ (x ^^^ y) = y := fun x y => by
      rw [← Int64.xor_assoc, Int64.xor_self, Int64.zero_xor]
    have back : ∀ x y : Int64, y ^^^ (x ^^^ y) = x := fun x y => by
      rw [Int64.xor_comm x y, there]
    rw [sel25519, mask]
    simp [cswap, there, back]

theorem checked_sel25519 (p q : Gf) (bit : Bool) :
    Checked25519.sel25519 p q (bitWord bit) = .ok (sel25519 p q (bitWord bit)) := by
  have fits : FitsWord ((bitWord bit).toInt - 1) := by
    cases bit <;> decide
  exact Checked.bind_of_ok (Word.sub_spec (b := 1) (y := 1) rfl rfl fits).1 _

theorem cswap_cswap {α : Type} (swap bit : Bool) (p q : α) :
    cswap bit (cswap swap p q).1 (cswap swap p q).2 = cswap (swap ^^ bit) p q := by
  cases swap <;> cases bit <;> rfl

theorem cswap_stands (left : Stands a x) (right : Stands b y) (bit : Bool) :
    Stands (cswap bit a b).1 (cswap bit x y).1 ∧ Stands (cswap bit a b).2 (cswap bit x y).2 := by
  cases bit with
  | false => exact ⟨left, right⟩
  | true => exact ⟨right, left⟩

/-- Limbs that stand for the two points of a ladder, swapped back. -/
structure Follows (s : Ladder) (m : Montgomery) : Prop where
  a : Stands s.a (cswap m.swap m.x2 m.x3).1
  b : Stands s.b (cswap m.swap m.x2 m.x3).2
  c : Stands s.c (cswap m.swap m.z2 m.z3).1
  d : Stands s.d (cswap m.swap m.z2 m.z3).2

theorem Follows.unswapped {a b c d : Gf} {x2 z2 x3 z3 : Field25519} (ofA : Stands a x2)
    (ofB : Stands b x3) (ofC : Stands c z2) (ofD : Stands d z3) :
    Follows ⟨a, b, c, d⟩ ⟨x2, z2, x3, z3, false⟩ :=
  ⟨ofA, ofB, ofC, ofD⟩

theorem sel_eq (s : Ladder) (bit : Bool) : s.sel (bitWord bit) =
    ⟨(cswap bit s.a s.b).1, (cswap bit s.a s.b).2, (cswap bit s.c s.d).1, (cswap bit s.c s.d).2⟩ := by
  rw [Ladder.sel, sel25519_eq, sel25519_eq]

theorem checked_sel (s : Ladder) (bit : Bool) :
    Checked25519.sel s (bitWord bit) = .ok (s.sel (bitWord bit)) := by
  rw [Checked25519.sel, Checked.bind_of_ok (checked_sel25519 s.a s.b bit)]
  exact Checked.bind_of_ok (checked_sel25519 s.c s.d bit) _

theorem sel_follows {s : Ladder} {m : Montgomery} (follows : Follows s m) (bit : Bool) :
    Follows (s.sel (bitWord bit)) { m with swap := m.swap ^^ bit } := by
  obtain ⟨a, b⟩ := cswap_stands follows.a follows.b bit
  obtain ⟨c, d⟩ := cswap_stands follows.c follows.d bit
  rw [cswap_cswap] at a b c d
  rw [sel_eq]
  exact ⟨a, b, c, d⟩

theorem gf121665_stands : StandsLoosely gf121665 121665 := by
  refine ⟨by decide, ?_⟩
  rw [element, show value gf121665 = 121665 by decide]
  rfl

/-- **One step** of the ladder of limbs does not overflow and follows the ladder in the field. -/
theorem step_follows {u : Gf} {x1 : Field25519} (base : StandsLoosely u x1) {s : Ladder}
    {m : Montgomery} (follows : Follows s m) (bit : Bool) :
    Checked25519.step u s (bitWord bit) = .ok (s.step u (bitWord bit)) ∧
      Follows (s.step u (bitWord bit)) (m.step x1 bit) := by
  have swapped := sel_follows follows bit
  rw [Checked25519.step, Checked.bind_of_ok (checked_sel s bit), Ladder.step, Montgomery.step]
  generalize s.sel (bitWord bit) = t at *
  obtain ⟨ofA, ofB, ofC, ofD⟩ := swapped
  dsimp only at ofA ofB ofC ofD ⊢
  generalize cswap (m.swap ^^ bit) m.x2 m.x3 = x at *
  generalize cswap (m.swap ^^ bit) m.z2 m.z3 = z at *
  obtain ⟨runs1, e⟩ := addGf_stands ofA ofC
  obtain ⟨runs2, a⟩ := subGf_stands ofA ofC
  obtain ⟨runs3, c⟩ := addGf_stands ofB ofD
  obtain ⟨runs4, b⟩ := subGf_stands ofB ofD
  obtain ⟨runs5, d⟩ := sqGf_stands e
  obtain ⟨runs6, f⟩ := sqGf_stands a
  obtain ⟨runs7, a'⟩ := mulGf_stands c a
  obtain ⟨runs8, c'⟩ := mulGf_stands b e
  obtain ⟨runs9, e'⟩ := addGf_stands a' c'
  obtain ⟨runs10, a2⟩ := subGf_stands a' c'
  obtain ⟨runs11, b'⟩ := sqGf_stands a2
  obtain ⟨runs12, c2⟩ := subGf_stands d f
  obtain ⟨runs13, a3⟩ := mulGf_stands c2 gf121665_stands
  obtain ⟨runs14, a4⟩ := addGf_stands a3 d
  obtain ⟨runs15, c3⟩ := mulGf_stands c2 a4
  obtain ⟨runs16, a5⟩ := mulGf_stands d.loosely f.loosely
  obtain ⟨runs17, d'⟩ := mulGf_stands b'.loosely base
  obtain ⟨runs18, b2⟩ := sqGf_stands e'
  rw [Checked.bind_of_ok runs1, Checked.bind_of_ok runs2, Checked.bind_of_ok runs3,
    Checked.bind_of_ok runs4, Checked.bind_of_ok runs5, Checked.bind_of_ok runs6,
    Checked.bind_of_ok runs7, Checked.bind_of_ok runs8, Checked.bind_of_ok runs9,
    Checked.bind_of_ok runs10, Checked.bind_of_ok runs11, Checked.bind_of_ok runs12,
    Checked.bind_of_ok runs13, Checked.bind_of_ok runs14, Checked.bind_of_ok runs15,
    Checked.bind_of_ok runs16, Checked.bind_of_ok runs17, Checked.bind_of_ok runs18]
  constructor
  · exact checked_sel _ bit
  · have third := b2.congr (y := ((x.2 - z.2) * (x.1 + z.1) + (x.2 + z.2) * (x.1 - z.1)) ^ 2)
      (by ring)
    have second := c3.congr (y := ((x.1 + z.1) ^ 2 - (x.1 - z.1) ^ 2) *
      ((x.1 + z.1) ^ 2 + 121665 * ((x.1 + z.1) ^ 2 - (x.1 - z.1) ^ 2))) (by ring)
    have fourth := d'.congr
      (y := x1 * ((x.2 - z.2) * (x.1 + z.1) - (x.2 + z.2) * (x.1 - z.1)) ^ 2) (by ring)
    have next := sel_follows (Follows.unswapped a5 third second fourth) bit
    rwa [Bool.false_xor] at next

/-- The whole ladder, over a list of bit positions. -/
theorem run_follows {u : Gf} {x1 : Field25519} (base : StandsLoosely u x1) {start : Ladder}
    {m : Montgomery} (follows : Follows start m) {word : Nat → Int64} {k : Nat}
    {positions : List Nat} (bits : ∀ t ∈ positions, word t = bitWord (k.testBit t)) :
    positions.foldrM (fun t s => Checked25519.step u s (word t)) start =
        .ok (positions.foldr (fun t s => s.step u (word t)) start) ∧
      Follows (positions.foldr (fun t s => s.step u (word t)) start)
        (positions.foldr (fun t s => s.step x1 (k.testBit t)) m) := by
  induction positions with
  | nil => exact ⟨rfl, follows⟩
  | cons t rest upper =>
    obtain ⟨runs, above⟩ := upper fun t member => bits t (List.mem_cons_of_mem _ member)
    obtain ⟨steps, next⟩ := step_follows base above (k.testBit t)
    rw [List.foldrM_cons, Checked.bind_of_ok runs, List.foldr_cons, List.foldr_cons,
      bits t List.mem_cons_self]
    exact ⟨steps, next⟩

/-! ## Inversion -/

/-- The power that squarings and multiplications come to. -/
def inverseExponent (positions : List Nat) : Nat :=
  positions.foldr (fun a e => if a ≠ 2 ∧ a ≠ 4 then 2 * e + 1 else 2 * e) 1

set_option maxRecDepth 16000 in
theorem inverseExponent_eq : inverseExponent (List.range 254) = prime25519 - 2 := by decide

theorem power_stands {i : Gf} {x : Field25519} (stands : Stands i x) (positions : List Nat) :
    positions.foldrM
        (fun a c => do
          let c ← Checked25519.sqGf c
          if a ≠ 2 ∧ a ≠ 4 then Checked25519.mulGf c i else pure c) i =
        .ok (positions.foldr
          (fun a c => if a ≠ 2 ∧ a ≠ 4 then mulGf (sqGf c) i else sqGf c) i) ∧
      Stands (positions.foldr (fun a c => if a ≠ 2 ∧ a ≠ 4 then mulGf (sqGf c) i else sqGf c) i)
        (x ^ inverseExponent positions) := by
  induction positions with
  | nil => exact ⟨rfl, stands.congr (pow_one x).symm⟩
  | cons a rest above =>
    obtain ⟨runs, power⟩ := above
    obtain ⟨squares, square⟩ := sqGf_stands power.loosely
    rw [List.foldrM_cons, Checked.bind_of_ok runs, Checked.bind_of_ok squares, List.foldr_cons,
      inverseExponent, List.foldr_cons, ← inverseExponent]
    by_cases factor : a ≠ 2 ∧ a ≠ 4
    · obtain ⟨multiplies, product⟩ := mulGf_stands square.loosely stands.loosely
      rw [if_pos factor, if_pos factor, if_pos factor]
      refine ⟨multiplies, product.congr ?_⟩
      rw [← pow_mul, ← pow_succ, Nat.mul_comm]
    · rw [if_neg factor, if_neg factor, if_neg factor]
      refine ⟨rfl, square.congr ?_⟩
      rw [← pow_mul, Nat.mul_comm]

/-- **Inversion** does not overflow and is the power `p - 2`. -/
theorem inv25519_stands {i : Gf} {x : Field25519} (stands : Stands i x) :
    Checked25519.inv25519 i = .ok (inv25519 i) ∧ Stands (inv25519 i) (x ^ (prime25519 - 2)) := by
  rw [← inverseExponent_eq]
  exact power_stands stands (List.range 254)

end RustyPenguin.Crypto
