import Mathlib.Tactic.Linarith
import RustyPenguin.Term.Calculator

/-!
# Expressions and the calculator

An expression has a value in words of 64 bits that wrap, with quotients rounded towards
zero, unless one of its divisors is zero. It is written with blanks between its parts and
with parentheses at least where the precedence of the operators asks for them.

The calculator reads a written expression as what it is (`parseAdd_written`). It computes
its value when, from left to right and before the first zero divisor, no number is past the
largest word and the least word is not divided by minus one (`Overflows`); on any bytes it
faults exactly where the tree it reads overflows (`calculator_iff`).
-/

set_option autoImplicit false

namespace RustyPenguin.Calc

open Checked

/-! ## The value of an expression -/

/-- A quotient is asked for. -/
def Op.Divides (op : Op) : Prop := op = .div ∨ op = .rem

instance (op : Op) : Decidable op.Divides := inferInstanceAs (Decidable (_ ∨ _))

/-- An operation on words that wraps. -/
def Op.wrapping : Op → Int → Int → Option Int
  | .add, a, b => some (wrap (a + b))
  | .sub, a, b => some (wrap (a - b))
  | .mul, a, b => some (wrap (a * b))
  | .div, a, b => if b = 0 then none else some (wrap (a.tdiv b))
  | .rem, a, b => if b = 0 then none else some (wrap (a.tmod b))

/-- The value of what is read, if it is whole and no divisor is zero. -/
def value : Tree → Option Int
  | .lit neg n => some (wrap (if neg then -n else n))
  | .bin op l r => do
      let a ← value l
      let b ← value r
      op.wrapping a b
  | .missing => none
  | .upTo _ _ => none

/-- An expression: nothing is missing of it. -/
def Whole : Tree → Prop
  | .lit _ _ => True
  | .bin _ l r => Whole l ∧ Whole r
  | .missing => False
  | .upTo _ _ => False

/-- Some divisor is zero. -/
def ZeroDivisor : Tree → Prop
  | .bin op l r => ZeroDivisor l ∨ ZeroDivisor r ∨ op.Divides ∧ value r = some 0
  | _ => False

theorem value_eq_none {t : Tree} (whole : Whole t) : value t = none ↔ ZeroDivisor t := by
  induction t with
  | lit neg n => simp [value, ZeroDivisor]
  | missing => exact absurd whole id
  | upTo l r => exact absurd whole id
  | bin op l r ihl ihr =>
    obtain ⟨wholeL, wholeR⟩ := whole
    rw [ZeroDivisor, ← ihl wholeL, ← ihr wholeR, value]
    cases value l with
    | none => simp
    | some a =>
      cases value r with
      | none => simp
      | some b =>
        have last : op.wrapping a b = none ↔ op.Divides ∧ b = 0 := by
          cases op <;> simp [Op.wrapping, Op.Divides]
        simpa using last

/-- From left to right and before a zero divisor or the end of what is read, a number is past
the largest word, or the least word is divided by minus one. -/
def Overflows : Tree → Prop
  | .lit _ n => 2 ^ 63 ≤ n
  | .bin op l r => Overflows l ∨ (value l).isSome ∧ Overflows r ∨
      op.Divides ∧ value l = some (-2 ^ 63) ∧ value r = some (-1)
  | .missing => False
  | .upTo l r => Overflows l ∨ (value l).isSome ∧ Overflows r

/-! ## Evaluation -/

theorem wrap_word (n : Int) : Word 64 (wrap n) := by
  have low := Int.le_bmod (x := n) (m := 2 ^ 64) (by decide)
  have high := Int.bmod_lt (x := n) (m := 2 ^ 64) (by decide)
  constructor
  · rw [wrap]
    norm_num at low ⊢
    exact low
  · rw [wrap]
    norm_num at high ⊢
    exact high

theorem wrap_of_word {n : Int} (word : Word 64 n) : wrap n = n := by
  obtain ⟨low, high⟩ := word
  norm_num at low high
  exact Int.bmod_eq_of_le (by norm_num; omega) (by norm_num; omega)

theorem wrapping_word {op : Op} {a b v : Int} (is : op.wrapping a b = some v) : Word 64 v := by
  cases op with
  | add => exact Option.some.inj is ▸ wrap_word _
  | sub => exact Option.some.inj is ▸ wrap_word _
  | mul => exact Option.some.inj is ▸ wrap_word _
  | div => exact Option.some.inj (Option.ite_none_left_eq_some.mp is).2 ▸ wrap_word _
  | rem => exact Option.some.inj (Option.ite_none_left_eq_some.mp is).2 ▸ wrap_word _

theorem value_word {t : Tree} {v : Int} (is : value t = some v) : Word 64 v := by
  cases t with
  | lit neg n => exact Option.some.inj is ▸ wrap_word _
  | missing => cases is
  | upTo l r => cases is
  | bin op l r =>
    rw [value] at is
    obtain ⟨a, _, is⟩ := Option.bind_eq_some_iff.mp is
    obtain ⟨b, _, is⟩ := Option.bind_eq_some_iff.mp is
    exact wrapping_word is

/-- A quotient of two words is a word, but for one. -/
theorem tdiv_word {a b : Int} (wordA : Word 64 a) (nonzero : b ≠ 0) :
    Word 64 (a.tdiv b) ↔ ¬(a = -2 ^ 63 ∧ b = -1) := by
  obtain ⟨low, high⟩ := wordA
  norm_num at low high
  by_cases one : b = 1
  · subst one
    rw [Int.tdiv_one]
    refine ⟨fun _ both => absurd both.2 (by decide), fun _ => ?_⟩
    constructor <;> norm_num <;> omega
  by_cases minus : b = -1
  · subst minus
    rw [Int.tdiv_neg, Int.tdiv_one]
    constructor
    · rintro ⟨_, below⟩ ⟨least, _⟩
      norm_num at below
      omega
    · intro other
      constructor <;> norm_num <;> omega
  · have size : (a.tdiv b).natAbs = a.natAbs / b.natAbs := Int.natAbs_tdiv a b
    have half : a.natAbs / b.natAbs ≤ a.natAbs / 2 :=
      Nat.div_le_div_left (by omega) (by decide)
    refine ⟨fun _ both => minus both.2, fun _ => ?_⟩
    constructor <;> norm_num <;> omega

theorem tmod_word {a b : Int} (wordA : Word 64 a) : Word 64 (a.tmod b) := by
  obtain ⟨low, high⟩ := wordA
  norm_num at low high
  have size : (a.tmod b).natAbs = a.natAbs % b.natAbs := Int.natAbs_tmod a b
  have less := Nat.mod_le a.natAbs b.natAbs
  rcases Int.lt_or_le a 0 with negative | nonneg
  · have sign := Int.tmod_nonneg b (Int.neg_nonneg_of_nonpos negative.le)
    rw [Int.neg_tmod] at sign
    constructor <;> norm_num <;> omega
  · have sign : 0 ≤ a.tmod b := Int.tmod_nonneg b nonneg
    constructor <;> norm_num <;> omega

/-- An operation of the calculator wraps, but for the one quotient that is no word. -/
theorem apply_eq {op : Op} {a b : Int} (wordA : Word 64 a) :
    op.apply a b = if op.Divides ∧ a = -2 ^ 63 ∧ b = -1 then .error .fault
      else match op.wrapping a b with
        | some v => .ok v
        | none => .error .refused := by
  have quotient (divides : op.Divides) (nonzero : b ≠ 0) : divIn 64 a b =
      if op.Divides ∧ a = -2 ^ 63 ∧ b = -1 then .error .fault else .ok (a.tdiv b) := by
    by_cases excess : a = -2 ^ 63 ∧ b = -1
    · rw [if_pos ⟨divides, excess⟩, divIn, if_neg nonzero,
        signedIn_of_not_word fun word => (tdiv_word wordA nonzero).mp word excess]
    · rw [if_neg fun all => excess all.2, divIn, if_neg nonzero,
        signedIn_of_word ((tdiv_word wordA nonzero).mpr excess)]
  cases op with
  | add => rw [if_neg fun all => absurd all.1 (by decide)]; rfl
  | sub => rw [if_neg fun all => absurd all.1 (by decide)]; rfl
  | mul => rw [if_neg fun all => absurd all.1 (by decide)]; rfl
  | div =>
    by_cases zero : b = 0
    · subst zero
      rw [if_neg fun all => absurd all.2.2 (by decide)]
      rfl
    · rw [Op.apply, if_neg zero, quotient (.inl rfl) zero, Op.wrapping, if_neg zero]
      by_cases excess : Op.div.Divides ∧ a = -2 ^ 63 ∧ b = -1
      · rw [if_pos excess, if_pos excess]
      · have word := (tdiv_word wordA zero).mpr fun both => excess ⟨.inl rfl, both⟩
        rw [if_neg excess, if_neg excess, wrap_of_word word]
  | rem =>
    by_cases zero : b = 0
    · subst zero
      rw [if_neg fun all => absurd all.2.2 (by decide)]
      rfl
    · rw [Op.apply, if_neg zero, remIn, quotient (.inr rfl) zero, Op.wrapping, if_neg zero]
      by_cases excess : Op.rem.Divides ∧ a = -2 ^ 63 ∧ b = -1
      · rw [if_pos excess, if_pos excess]
        rfl
      · rw [if_neg excess, if_neg excess, wrap_of_word (tmod_word wordA)]
        rfl

/-- **A tree is evaluated to its value, refused where it has none, and faults where it
overflows.** -/
theorem evaluate_eq (t : Tree) :
    (Overflows t → evaluate t = .error .fault) ∧
      (¬Overflows t → evaluate t = match value t with
        | some v => .ok v
        | none => .error .refused) := by
  induction t with
  | lit neg n =>
    rw [Overflows, evaluate]
    constructor
    · intro past
      rw [signedIn_of_not_word fun word => absurd ((word_natCast n).mp word) (Nat.not_lt.mpr past)]
      rfl
    · intro fits
      have word := (word_natCast n).mpr (Nat.not_le.mp fits)
      rw [bind_of_ok (signedIn_of_word word), value]
      obtain ⟨low, high⟩ := word
      norm_num at low high
      cases neg with
      | false =>
        rw [if_neg (by decide), if_neg (by decide), wrap_of_word ⟨by norm_num, by norm_num; omega⟩]
        rfl
      | true =>
        have wordNeg : Word 64 (-(n : Int)) := by constructor <;> norm_num <;> omega
        rw [if_pos rfl, if_pos rfl, signedIn_of_word wordNeg, wrap_of_word wordNeg]
  | missing => exact ⟨fun overflows => absurd overflows id, fun _ => rfl⟩
  | upTo l r ihl ihr =>
    rw [Overflows, evaluate_upTo]
    by_cases overL : Overflows l
    · rw [ihl.1 overL]
      exact ⟨fun _ => rfl, fun none => absurd (.inl overL) none⟩
    · rw [ihl.2 overL]
      cases value l with
      | none =>
        refine ⟨fun some => ?_, fun _ => rfl⟩
        rcases some with overflows | ⟨is, _⟩
        · exact absurd overflows overL
        · exact absurd is (by decide)
      | some a =>
        by_cases overR : Overflows r
        · simp only [ihr.1 overR]
          exact ⟨fun _ => rfl, fun none => absurd (.inr ⟨rfl, overR⟩) none⟩
        · simp only [ihr.2 overR]
          refine ⟨fun some => ?_, fun _ => ?_⟩
          · rcases some with overflows | ⟨_, overflows⟩
            · exact absurd overflows overL
            · exact absurd overflows overR
          · cases value r <;> rfl
  | bin op l r ihl ihr =>
    rw [Overflows, evaluate_bin, value]
    by_cases overL : Overflows l
    · rw [ihl.1 overL]
      exact ⟨fun _ => rfl, fun none => absurd (.inl overL) none⟩
    · rw [ihl.2 overL]
      cases isA : value l with
      | none =>
        refine ⟨fun some => ?_, fun _ => rfl⟩
        rcases some with overflows | ⟨is, _⟩ | ⟨_, is, _⟩
        · exact absurd overflows overL
        · exact absurd is (by decide)
        · cases is
      | some a =>
        by_cases overR : Overflows r
        · simp only [ihr.1 overR]
          exact ⟨fun _ => rfl, fun none => absurd (.inr (.inl ⟨rfl, overR⟩)) none⟩
        · simp only [ihr.2 overR]
          cases value r with
          | none =>
            refine ⟨fun some => ?_, fun _ => rfl⟩
            rcases some with overflows | ⟨_, overflows⟩ | ⟨_, _, is⟩
            · exact absurd overflows overL
            · exact absurd overflows overR
            · cases is
          | some b =>
            have same : Overflows l ∨ (some a).isSome ∧ Overflows r ∨
                op.Divides ∧ some a = some (-2 ^ 63) ∧ some b = some (-1) ↔
                op.Divides ∧ a = -2 ^ 63 ∧ b = -1 := by
              simp [overL, overR]
            rw [same]
            show (_ → op.apply a b = _) ∧ (_ → op.apply a b = match op.wrapping a b with
              | some v => .ok v
              | none => .error .refused)
            rw [apply_eq (value_word isA)]
            exact ⟨fun excess => if_pos excess, fun fits => if_neg fits⟩

/-! ## What the reader leaves -/

theorem parseMulLoop_le {lhs t : Tree} {r rest : Bytes} (read : parseMulLoop lhs r = .done t rest) :
    rest.length ≤ r.length := by
  rw [parseMulLoop] at read
  split at read
  · cases read
    exact Nat.le_refl _
  · next c behind skipped =>
    split at read
    · cases read
      exact Nat.le_refl _
    · split at read
      · cases read
      · next rhs r3 _ =>
        split at read
        · next shorter => exact (parseMulLoop_le read).trans shorter.le
        · cases read
termination_by r.length

theorem parseAddLoop_le {lhs t : Tree} {r rest : Bytes} (read : parseAddLoop lhs r = .done t rest) :
    rest.length ≤ r.length := by
  rw [parseAddLoop] at read
  split at read
  · cases read
    exact Nat.le_refl _
  · next c behind skipped =>
    split at read
    · cases read
      exact Nat.le_refl _
    · split at read
      · cases read
      · next rhs r3 _ =>
        split at read
        · next shorter => exact (parseAddLoop_le read).trans shorter.le
        · cases read
termination_by r.length

theorem parseAdd_lt {s rest : Bytes} {t : Tree} (read : parseAdd s = .done t rest) :
    rest.length < s.length := by
  rw [parseAdd] at read
  split at read
  · cases read
  · split at read
    · next shorter => exact (parseAddLoop_le read).trans_lt shorter
    · cases read

theorem parseMul_lt {s rest : Bytes} {t : Tree} (read : parseMul s = .done t rest) :
    rest.length < s.length := by
  rw [parseMul] at read
  split at read
  · cases read
  · split at read
    · next shorter => exact (parseMulLoop_le read).trans_lt shorter
    · cases read

theorem parseNumber_lt {neg : Bool} {d rest : Bytes} {t : Tree}
    (read : parseNumber neg d = .done t rest) : rest.length < d.length := by
  match d with
  | [] => cases read
  | c :: back =>
    rw [parseNumber] at read
    split at read
    · next digit =>
      cases read
      rw [List.dropWhile_cons_of_pos digit, List.length_cons]
      exact Nat.lt_succ_of_le (List.dropWhile_sublist isAsciiDigit).length_le
    · cases read

/-- An atom is read past its blanks and is not empty. -/
theorem parseAtom_lt {s rest : Bytes} {t : Tree} (read : parseAtom s = .done t rest) :
    rest.length < (calcSkip s).length := by
  rw [parseAtom] at read
  split at read
  · cases read
  · next b behind skipped =>
    rw [skipped, List.length_cons]
    split at read
    · split at read
      · cases read
      · next t r inner =>
        have short := (parseAdd_lt inner).trans_le (length_calcSkip_le behind)
        split at read
        · cases read
        · next c after closing =>
          have shorter := length_of_calcSkip closing
          split at read
          · cases read
            omega
          · cases read
    · split at read
      · exact Nat.lt_succ_of_lt (parseNumber_lt read)
      · exact parseNumber_lt read

/-- The reader of a product goes on behind its first atom. -/
theorem parseMul_of_atom {s r : Bytes} {t : Tree} (read : parseAtom s = .done t r) :
    parseMul s = parseMulLoop t r := by
  rw [parseMul, read]
  exact if_pos ((parseAtom_lt read).trans_le (length_calcSkip_le s))

/-- The reader of a sum goes on behind its first product. -/
theorem parseAdd_of_mul {s r : Bytes} {t : Tree} (read : parseMul s = .done t r) :
    parseAdd s = parseAddLoop t r := by
  rw [parseAdd, read]
  exact if_pos (parseMul_lt read)

/-! ## Written expressions -/

/-- How tightly a part of an expression holds together. -/
inductive Level where
  | atom
  | product
  | sum
  deriving DecidableEq

def Blanks (gap : Bytes) : Prop := ∀ b ∈ gap, isBlank b = true

/-- An expression written down: blanks stand before every number, parenthesis and operator, and
any part may be in parentheses, as one has to be that is looser than its place. -/
inductive Written : Level → Tree → Bytes → Prop where
  | number {neg : Bool} {digits gap : Bytes} (blanks : Blanks gap) (some : digits ≠ [])
      (decimal : ∀ c ∈ digits, isAsciiDigit c = true) :
      Written .atom (.lit neg (digitsValue 0 digits))
        (gap ++ ((if neg then [0x2D] else []) ++ digits))
  | parens {t : Tree} {s gap gap' : Bytes} (blanks : Blanks gap) (blanks' : Blanks gap')
      (inner : Written .sum t s) : Written .atom t (gap ++ 0x28 :: (s ++ (gap' ++ [0x29])))
  | ofAtom {t : Tree} {s : Bytes} (atom : Written .atom t s) : Written .product t s
  | product {op : Op} {l r : Tree} {c : UInt8} {s u gap : Bytes} (blanks : Blanks gap)
      (isOp : mulOp c = some op) (left : Written .product l s) (right : Written .atom r u) :
      Written .product (.bin op l r) (s ++ (gap ++ c :: u))
  | ofProduct {t : Tree} {s : Bytes} (product : Written .product t s) : Written .sum t s
  | sum {op : Op} {l r : Tree} {c : UInt8} {s u gap : Bytes} (blanks : Blanks gap)
      (isOp : addOp c = some op) (left : Written .sum l s) (right : Written .product r u) :
      Written .sum (.bin op l r) (s ++ (gap ++ c :: u))

theorem Written.whole {level : Level} {t : Tree} {s : Bytes} (written : Written level t s) :
    Whole t := by
  induction written with
  | number => trivial
  | parens _ _ _ ih => exact ih
  | ofAtom _ ih => exact ih
  | product _ _ _ _ ihl ihr => exact ⟨ihl, ihr⟩
  | ofProduct _ ih => exact ih
  | sum _ _ _ _ ihl ihr => exact ⟨ihl, ihr⟩

/-! ## Reading what is written -/

theorem calcSkip_gap {gap : Bytes} (blanks : Blanks gap) (s : Bytes) :
    calcSkip (gap ++ s) = calcSkip s :=
  List.dropWhile_append_of_pos blanks

theorem calcSkip_of_not_blank {b : UInt8} (visible : isBlank b = false) (s : Bytes) :
    calcSkip (b :: s) = b :: s :=
  List.dropWhile_cons_of_neg (by rw [visible]; decide)

theorem calcSkip_calcSkip (s : Bytes) : calcSkip (calcSkip s) = calcSkip s := by
  induction s with
  | nil => rfl
  | cons c s ih =>
    by_cases blank : isBlank c = true
    · have drops : calcSkip (c :: s) = calcSkip s := List.dropWhile_cons_of_pos blank
      rw [drops, ih]
    · rw [calcSkip_of_not_blank (Bool.eq_false_iff.mpr blank),
        calcSkip_of_not_blank (Bool.eq_false_iff.mpr blank)]

theorem parseAtom_nil {s : Bytes} (skipped : calcSkip s = []) : parseAtom s = .cut .missing := by
  rw [parseAtom]
  split
  · rfl
  · next other => exact absurd (other.symm.trans skipped) (List.cons_ne_nil _ _)

theorem parseAtom_cons {s rest : Bytes} {b : UInt8} (skipped : calcSkip s = b :: rest) :
    parseAtom s = if b = 0x28 then
        match parseAdd (calcSkip rest) with
        | .cut t => .cut t
        | .done t r =>
            match calcSkip r with
            | [] => .cut (.upTo t .missing)
            | c :: after => if c = 0x29 then .done t after else .cut (.upTo t .missing)
      else if b = 0x2D then parseNumber true rest
      else parseNumber false (b :: rest) := by
  rw [parseAtom]
  split
  · next other => exact absurd (skipped.symm.trans other) (List.cons_ne_nil _ _)
  · next other =>
    cases skipped.symm.trans other
    rfl

/-- An atom is read from behind the blanks. -/
theorem parseAtom_congr {s s' : Bytes} (same : calcSkip s = calcSkip s') :
    parseAtom s = parseAtom s' := by
  cases skipped : calcSkip s' with
  | nil => rw [parseAtom_nil (same.trans skipped), parseAtom_nil skipped]
  | cons b rest => rw [parseAtom_cons (same.trans skipped), parseAtom_cons skipped]

theorem parseMul_congr {s s' : Bytes} (same : calcSkip s = calcSkip s') :
    parseMul s = parseMul s' := by
  cases read : parseAtom s with
  | cut t => rw [parseMul, parseMul, ← parseAtom_congr same, read]
  | done t r =>
    rw [parseMul_of_atom read, parseMul_of_atom ((parseAtom_congr same).symm.trans read)]

theorem parseAdd_congr {s s' : Bytes} (same : calcSkip s = calcSkip s') :
    parseAdd s = parseAdd s' := by
  cases read : parseMul s with
  | cut t => rw [parseAdd, parseAdd, ← parseMul_congr same, read]
  | done t r =>
    rw [parseAdd_of_mul read, parseAdd_of_mul ((parseMul_congr same).symm.trans read)]

/-- What follows a number does not go on with it. -/
def NoDigit (rest : Bytes) : Prop := ∀ c, rest.head? = some c → isAsciiDigit c = false

/-- What follows is no operator of a kind. -/
def NoOp (kind : UInt8 → Option Op) (rest : Bytes) : Prop :=
  ∀ c back, calcSkip rest = c :: back → kind c = none

theorem noDigit_gap {gap : Bytes} (blanks : Blanks gap) {c : UInt8} (other : isAsciiDigit c = false)
    (rest : Bytes) : NoDigit (gap ++ c :: rest) := by
  intro d first
  cases gap with
  | nil => exact Option.some.inj first ▸ other
  | cons b gap =>
    have blank := blanks b List.mem_cons_self
    obtain rfl : b = d := Option.some.inj first
    rw [isBlank, Bool.or_eq_true, decide_eq_true_iff, decide_eq_true_iff] at blank
    rcases blank with rfl | rfl <;> rfl

theorem noOp_gap {gap : Bytes} (blanks : Blanks gap) {c : UInt8} (visible : isBlank c = false)
    {kind : UInt8 → Option Op} (other : kind c = none) (rest : Bytes) :
    NoOp kind (gap ++ c :: rest) := by
  intro d back skipped
  rw [calcSkip_gap blanks, calcSkip_of_not_blank visible] at skipped
  cases skipped
  exact other

theorem noDigit_blanks {gap : Bytes} (blanks : Blanks gap) : NoDigit gap := by
  cases gap with
  | nil => exact fun c first => nomatch first
  | cons b gap =>
    have blank := blanks b List.mem_cons_self
    rw [isBlank, Bool.or_eq_true, decide_eq_true_iff, decide_eq_true_iff] at blank
    intro d first
    obtain rfl : b = d := Option.some.inj first
    rcases blank with rfl | rfl <;> rfl

theorem noOp_blanks {gap : Bytes} (blanks : Blanks gap) (kind : UInt8 → Option Op) :
    NoOp kind gap := by
  intro c back skipped
  have none : calcSkip gap = [] := by
    rw [← List.append_nil gap, calcSkip_gap blanks]
    rfl
  rw [none] at skipped
  cases skipped

theorem digit_byte {c : UInt8} (digit : isAsciiDigit c = true) :
    isBlank c = false ∧ c ≠ 0x28 ∧ c ≠ 0x2D := by
  refine ⟨Bool.eq_false_iff.mpr fun blank => ?_, ?_, ?_⟩
  · rw [isBlank, Bool.or_eq_true, decide_eq_true_iff, decide_eq_true_iff] at blank
    rcases blank with rfl | rfl <;> exact absurd digit (by decide)
  · rintro rfl
    exact absurd digit (by decide)
  · rintro rfl
    exact absurd digit (by decide)

/-- An operator is a byte of its own. -/
theorem mulOp_byte {c : UInt8} {op : Op} (isOp : mulOp c = some op) :
    isBlank c = false ∧ isAsciiDigit c = false := by
  have three : c = 0x2A ∨ c = 0x2F ∨ c = 0x25 := by
    by_contra other
    obtain ⟨notMul, other⟩ := not_or.mp other
    obtain ⟨notDiv, notRem⟩ := not_or.mp other
    rw [mulOp, if_neg notMul, if_neg notDiv, if_neg notRem] at isOp
    cases isOp
  rcases three with rfl | rfl | rfl <;> exact ⟨rfl, rfl⟩

theorem addOp_byte {c : UInt8} {op : Op} (isOp : addOp c = some op) :
    isBlank c = false ∧ isAsciiDigit c = false ∧ mulOp c = none := by
  have two : c = 0x2B ∨ c = 0x2D := by
    by_contra other
    obtain ⟨notAdd, notSub⟩ := not_or.mp other
    rw [addOp, if_neg notAdd, if_neg notSub] at isOp
    cases isOp
  rcases two with rfl | rfl <;> exact ⟨rfl, rfl, rfl⟩

theorem parseMulLoop_stop {rest : Bytes} (stops : NoOp mulOp rest) (t : Tree) :
    parseMulLoop t rest = .done t rest := by
  rw [parseMulLoop]
  split
  · rfl
  · next c back skipped => rw [stops c back skipped]

theorem parseAddLoop_stop {rest : Bytes} (stops : NoOp addOp rest) (t : Tree) :
    parseAddLoop t rest = .done t rest := by
  rw [parseAddLoop]
  split
  · rfl
  · next c back skipped => rw [stops c back skipped]

theorem parseMulLoop_step {r rest r3 : Bytes} {c : UInt8} {op : Op} {rhs : Tree}
    (skipped : calcSkip r = c :: rest) (isOp : mulOp c = some op)
    (read : parseAtom rest = .done rhs r3) (lhs : Tree) :
    parseMulLoop lhs r = parseMulLoop (.bin op lhs rhs) r3 := by
  have readSkipped := (parseAtom_congr (calcSkip_calcSkip rest)).trans read
  have short := (parseAtom_lt read).trans_le (length_calcSkip_le rest)
  have shorter : r3.length < r.length := short.trans (length_of_calcSkip skipped)
  rw [parseMulLoop]
  split
  · next other => exact absurd (skipped.symm.trans other) (List.cons_ne_nil _ _)
  · next other =>
    cases skipped.symm.trans other
    rw [isOp]
    simp only [readSkipped, if_pos shorter]

theorem parseAddLoop_step {r rest r3 : Bytes} {c : UInt8} {op : Op} {rhs : Tree}
    (skipped : calcSkip r = c :: rest) (isOp : addOp c = some op)
    (read : parseMul rest = .done rhs r3) (lhs : Tree) :
    parseAddLoop lhs r = parseAddLoop (.bin op lhs rhs) r3 := by
  have readSkipped := (parseMul_congr (calcSkip_calcSkip rest)).trans read
  have shorter : r3.length < r.length := (parseMul_lt read).trans (length_of_calcSkip skipped)
  rw [parseAddLoop]
  split
  · next other => exact absurd (skipped.symm.trans other) (List.cons_ne_nil _ _)
  · next other =>
    cases skipped.symm.trans other
    rw [isOp]
    simp only [readSkipped, if_pos shorter]

theorem parseNumber_digits (neg : Bool) {digits rest : Bytes} (some : digits ≠ [])
    (decimal : ∀ c ∈ digits, isAsciiDigit c = true) (stops : NoDigit rest) :
    parseNumber neg (digits ++ rest) = .done (.lit neg (digitsValue 0 digits)) rest := by
  obtain ⟨c, back, rfl⟩ := List.exists_cons_of_ne_nil some
  have none : rest.takeWhile isAsciiDigit = [] ∧ rest.dropWhile isAsciiDigit = rest := by
    cases rest with
    | nil => exact ⟨rfl, rfl⟩
    | cons d rest =>
      have other : ¬isAsciiDigit d = true := by
        rw [stops d rfl]
        decide
      exact ⟨List.takeWhile_cons_of_neg other, List.dropWhile_cons_of_neg other⟩
  have front : (c :: back ++ rest).takeWhile isAsciiDigit = c :: back := by
    rw [List.takeWhile_append_of_pos decimal, none.1, List.append_nil]
  have behind : (c :: back ++ rest).dropWhile isAsciiDigit = rest := by
    rw [List.dropWhile_append_of_pos decimal, none.2]
  rw [List.cons_append, parseNumber, if_pos (decimal c List.mem_cons_self), ← List.cons_append,
    front, behind]

/-- What is read of something written at a level, with anything behind it that does not go on
with it. -/
def ReadsAs (level : Level) (t : Tree) (s : Bytes) : Prop :=
  ∀ rest, NoDigit rest → match level with
    | .atom => parseAtom (s ++ rest) = .done t rest
    | .product => parseMul (s ++ rest) = parseMulLoop t rest
    | .sum => NoOp mulOp rest → parseAdd (s ++ rest) = parseAddLoop t rest

/-- **What is written is read as what it is.** -/
theorem Written.reads {level : Level} {t : Tree} {s : Bytes} (written : Written level t s) :
    ReadsAs level t s := by
  induction written with
  | @number neg digits gap blanks some decimal =>
    intro rest stops
    obtain ⟨c, back, rfl⟩ := List.exists_cons_of_ne_nil some
    have digit := decimal c List.mem_cons_self
    have read := parseNumber_digits neg some decimal stops
    have skipped : calcSkip (gap ++ ((if neg then [0x2D] else []) ++ c :: back) ++ rest) =
        calcSkip ((if neg then [0x2D] else []) ++ (c :: back ++ rest)) := by
      rw [List.append_assoc, calcSkip_gap blanks, List.append_assoc]
    have visible := digit_byte digit
    cases neg with
    | true =>
      have minus : calcSkip ((if true then [0x2D] else []) ++ (c :: back ++ rest)) =
          0x2D :: (c :: back ++ rest) := calcSkip_of_not_blank rfl _
      exact (parseAtom_cons (skipped.trans minus)).trans read
    | false =>
      have plain : calcSkip ((if false then [0x2D] else []) ++ (c :: back ++ rest)) =
          c :: (back ++ rest) := calcSkip_of_not_blank visible.1 _
      show parseAtom _ = _
      rw [parseAtom_cons (skipped.trans plain), if_neg visible.2.1, if_neg visible.2.2]
      exact read
  | @parens t s gap gap' blanks blanks' inner ih =>
    intro rest _
    have shape : gap ++ 0x28 :: (s ++ (gap' ++ [0x29])) ++ rest =
        gap ++ 0x28 :: (s ++ (gap' ++ 0x29 :: rest)) := by
      simp only [List.append_assoc, List.cons_append, List.nil_append]
    have skipped : calcSkip (gap ++ 0x28 :: (s ++ (gap' ++ [0x29])) ++ rest) =
        0x28 :: (s ++ (gap' ++ 0x29 :: rest)) := by
      rw [shape, calcSkip_gap blanks, calcSkip_of_not_blank rfl]
    have closing : calcSkip (gap' ++ 0x29 :: rest) = 0x29 :: rest := by
      rw [calcSkip_gap blanks', calcSkip_of_not_blank rfl]
    have sum : parseAdd (calcSkip (s ++ (gap' ++ 0x29 :: rest))) =
        .done t (gap' ++ 0x29 :: rest) := by
      rw [parseAdd_congr (calcSkip_calcSkip _),
        ih (gap' ++ 0x29 :: rest) (noDigit_gap blanks' rfl rest) (noOp_gap blanks' rfl rfl rest),
        parseAddLoop_stop (noOp_gap blanks' rfl rfl rest)]
    show parseAtom _ = _
    rw [parseAtom_cons skipped, if_pos rfl, sum]
    simp only [closing, if_true]
  | ofAtom _ ih => exact fun rest stops => parseMul_of_atom (ih rest stops)
  | @product op l r c s u gap blanks isOp _ _ ihl ihr =>
    intro rest stops
    obtain ⟨visible, other⟩ := mulOp_byte isOp
    have shape : s ++ (gap ++ c :: u) ++ rest = s ++ (gap ++ c :: (u ++ rest)) := by
      simp only [List.append_assoc, List.cons_append]
    have skipped : calcSkip (gap ++ c :: (u ++ rest)) = c :: (u ++ rest) := by
      rw [calcSkip_gap blanks, calcSkip_of_not_blank visible]
    show parseMul _ = _
    rw [shape, ihl (gap ++ c :: (u ++ rest)) (noDigit_gap blanks other _),
      parseMulLoop_step skipped isOp (ihr rest stops)]
  | ofProduct _ ih =>
    intro rest stops noMul
    have product := ih rest stops
    rw [parseMulLoop_stop noMul] at product
    exact parseAdd_of_mul product
  | @sum op l r c s u gap blanks isOp _ _ ihl ihr =>
    intro rest stops noMul
    obtain ⟨visible, other, notMul⟩ := addOp_byte isOp
    have shape : s ++ (gap ++ c :: u) ++ rest = s ++ (gap ++ c :: (u ++ rest)) := by
      simp only [List.append_assoc, List.cons_append]
    have skipped : calcSkip (gap ++ c :: (u ++ rest)) = c :: (u ++ rest) := by
      rw [calcSkip_gap blanks, calcSkip_of_not_blank visible]
    have product := ihr rest stops
    rw [parseMulLoop_stop noMul] at product
    rw [shape, ihl (gap ++ c :: (u ++ rest)) (noDigit_gap blanks other _)
      (noOp_gap blanks visible notMul _), parseAddLoop_step skipped isOp product]

/-! ## Writing an expression -/

/-- The digits of a number. -/
def decimal (n : Nat) : Bytes :=
  if n < 10 then [UInt8.ofNat (0x30 + n)] else decimal (n / 10) ++ [UInt8.ofNat (0x30 + n % 10)]
termination_by n

def opByte : Op → UInt8
  | .add => 0x2B
  | .sub => 0x2D
  | .mul => 0x2A
  | .div => 0x2F
  | .rem => 0x25

/-- An expression in the place of a level, without blanks and with parentheses only where they
are needed. -/
def render (level : Level) : Tree → Bytes
  | .lit neg n => (if neg then [0x2D] else []) ++ decimal n
  | .bin op l r =>
      if op = .add ∨ op = .sub then
        let s := render .sum l ++ opByte op :: render .product r
        if level = .sum then s else 0x28 :: (s ++ [0x29])
      else
        let s := render .product l ++ opByte op :: render .atom r
        if level = .atom then 0x28 :: (s ++ [0x29]) else s
  | _ => []

theorem digit_ofNat : ∀ n, n < 10 → isAsciiDigit (UInt8.ofNat (0x30 + n)) = true ∧
    (UInt8.ofNat (0x30 + n)).toNat - 0x30 = n := by
  decide

theorem digitsValue_append (n : Nat) (front back : Bytes) :
    digitsValue n (front ++ back) = digitsValue (digitsValue n front) back :=
  List.foldl_append

theorem decimal_spec (n : Nat) : decimal n ≠ [] ∧ (∀ c ∈ decimal n, isAsciiDigit c = true) ∧
    digitsValue 0 (decimal n) = n := by
  induction n using Nat.strong_induction_on with
  | _ n ih =>
    rw [decimal]
    by_cases small : n < 10
    · obtain ⟨digit, isValue⟩ := digit_ofNat n small
      rw [if_pos small]
      refine ⟨List.cons_ne_nil _ _, fun c member => ?_, ?_⟩
      · rw [List.mem_singleton.mp member]
        exact digit
      · rw [digitsValue, List.foldl_cons, List.foldl_nil, isValue, Nat.zero_mul, Nat.zero_add]
    · obtain ⟨digit, isValue⟩ := digit_ofNat (n % 10) (Nat.mod_lt n (by decide))
      obtain ⟨_, digits, front⟩ := ih (n / 10) (by omega)
      rw [if_neg small]
      refine ⟨by simp, fun c member => ?_, ?_⟩
      · rcases List.mem_append.mp member with member | member
        · exact digits c member
        · rw [List.mem_singleton.mp member]
          exact digit
      · rw [digitsValue_append, front, digitsValue, List.foldl_cons, List.foldl_nil, isValue]
        omega

/-- Every expression is written so. -/
theorem written_render {t : Tree} (whole : Whole t) (level : Level) :
    Written level t (render level t) := by
  have none : Blanks [] := fun b member => absurd member List.not_mem_nil
  have parens {t : Tree} {s : Bytes} (inner : Written .sum t s) :
      Written .atom t (0x28 :: (s ++ [0x29])) :=
    .parens none none inner
  induction t generalizing level with
  | missing => exact absurd whole id
  | upTo l r => exact absurd whole id
  | lit neg n =>
    obtain ⟨some, digits, isValue⟩ := decimal_spec n
    have atom : Written .atom (.lit neg n) (render level (.lit neg n)) := by
      have written : Written .atom _ ([] ++ ((if neg then [0x2D] else []) ++ decimal n)) :=
        .number none some digits
      rw [isValue] at written
      exact written
    cases level with
    | atom => exact atom
    | product => exact .ofAtom atom
    | sum => exact .ofProduct (.ofAtom atom)
  | bin op l r ihl ihr =>
    obtain ⟨wholeL, wholeR⟩ := whole
    rw [render]
    by_cases additive : op = .add ∨ op = .sub
    · have isOp : addOp (opByte op) = some op := by
        rcases additive with rfl | rfl <;> rfl
      have sum : Written .sum (.bin op l r) _ :=
        .sum none isOp (ihl wholeL .sum) (ihr wholeR .product)
      rw [if_pos additive]
      cases level with
      | atom => exact parens sum
      | product => exact .ofAtom (parens sum)
      | sum => exact sum
    · have isOp : mulOp (opByte op) = some op := by
        cases op with
        | add => exact absurd (.inl rfl) additive
        | sub => exact absurd (.inr rfl) additive
        | mul => rfl
        | div => rfl
        | rem => rfl
      have product : Written .product (.bin op l r) _ :=
        .product none isOp (ihl wholeL .product) (ihr wholeR .atom)
      rw [if_neg additive]
      cases level with
      | atom => exact parens (.ofProduct product)
      | product => exact product
      | sum => exact .ofProduct product

/-! ## The calculator on a text and on any bytes -/

/-- An expression written out, with blanks behind it. -/
def Text (t : Tree) (s : Bytes) : Prop :=
  ∃ body gap, Written .sum t body ∧ Blanks gap ∧ s = body ++ gap

/-- The tree that is read of any bytes. -/
def Read.tree : Read → Tree
  | .done t _ => t
  | .cut t => t

/-- `trim_ws`. -/
def trimWs (b : Bytes) : Bytes := ((b.dropWhile isBlank).reverse.dropWhile isBlank).reverse

/-- The answer of the command `calc`: a value, or a syntax error. -/
def command (expr : Bytes) : Checked (Option Int) := do
  let answer ← attempt (calcAdd expr)
  match answer with
  | some (val, rest) => pure (if trimWs rest = [] then some val else none)
  | none => pure none

/-- The calculator reads the whole text and returns the value of the expression, or nothing
exactly where a divisor is zero; and the command answers so. -/
structure Computes (t : Tree) (s : Bytes) : Prop where
  returns : ∀ v, value t = some v → ∃ rest, calcAdd s = .ok (v, rest) ∧ Blanks rest
  refuses : ZeroDivisor t → calcAdd s = refuse
  defined : value t = none ↔ ZeroDivisor t
  answers : command s = .ok (value t)

theorem text_read {t : Tree} {s : Bytes} (text : Text t s) :
    ∃ rest, parseAdd s = .done t rest ∧ Blanks rest := by
  obtain ⟨body, gap, written, blanks, rfl⟩ := text
  have read := written.reads gap (noDigit_blanks blanks) (noOp_blanks blanks mulOp)
  exact ⟨gap, read.trans (parseAddLoop_stop (noOp_blanks blanks addOp) t), blanks⟩

theorem computes_iff {t : Tree} {s : Bytes} (text : Text t s) : Computes t s ↔ ¬Overflows t := by
  have whole : Whole t := by
    obtain ⟨_, _, written, _⟩ := text
    exact written.whole
  obtain ⟨rest, read, blanks⟩ := text_read text
  obtain ⟨bad, good⟩ := evaluate_eq t
  have runs : calcAdd s = (evaluate t >>= fun v => pure (v, rest)) := by
    rw [calcAdd_eq, read, run_done]
  have trimmed : trimWs rest = [] := by
    have none := calcSkip_gap blanks []
    rw [List.append_nil, calcSkip] at none
    rw [trimWs, none]
    rfl
  constructor
  · intro computes overflows
    have answered := computes.answers
    rw [command, runs, bad overflows] at answered
    cases answered
  · intro fits
    rw [good fits] at runs
    refine ⟨fun v is => ?_, fun zero => ?_, value_eq_none whole, ?_⟩
    · rw [is] at runs
      exact ⟨rest, runs, blanks⟩
    · rw [(value_eq_none whole).mpr zero] at runs
      exact runs
    · rw [command, runs]
      cases value t with
      | none => rfl
      | some v =>
        show (.ok (if trimWs rest = [] then some v else none) : Checked (Option Int)) = .ok (some v)
        rw [if_pos trimmed]

theorem faults_iff (s : Bytes) : calcAdd s = .error .fault ↔ Overflows (parseAdd s).tree := by
  rw [calcAdd_eq]
  obtain ⟨bad, good⟩ := evaluate_eq (parseAdd s).tree
  constructor
  · intro faults
    by_contra fits
    have evaluated := good fits
    cases read : parseAdd s with
    | done t rest =>
      rw [read, Read.tree] at evaluated
      rw [read, run_done, evaluated] at faults
      cases is : value t <;> rw [is] at faults <;> cases faults
    | cut t =>
      rw [read, Read.tree] at evaluated
      rw [read, run_cut, evaluated] at faults
      cases is : value t <;> rw [is] at faults <;> cases faults
  · intro overflows
    have evaluated := bad overflows
    cases read : parseAdd s with
    | done t rest =>
      rw [read, Read.tree] at evaluated
      rw [run_done, evaluated]
      rfl
    | cut t =>
      rw [read, Read.tree] at evaluated
      rw [run_cut, evaluated]
      rfl

/-- **The calculator computes the value of a written expression, and does not fault on any bytes,
exactly where what is read does not overflow.** -/
theorem calculator_iff {t : Tree} {s : Bytes} (text : Text t s) (bytes : Bytes) :
    (Computes t s ∧ calcAdd bytes ≠ .error .fault) ↔
      ¬Overflows t ∧ ¬Overflows (parseAdd bytes).tree :=
  and_congr (computes_iff text) (not_congr (faults_iff bytes))

/-- The tree of `7-2*(3-8)/4`. -/
def sample : Tree :=
  .bin .sub (.lit false 7) (.bin .div (.bin .mul (.lit false 2)
    (.bin .sub (.lit false 3) (.lit false 8))) (.lit false 4))

theorem text_render {t : Tree} (whole : Whole t) : Text t (render .sum t) :=
  ⟨render .sum t, [], written_render whole .sum, fun _ member => absurd member List.not_mem_nil,
    (List.append_nil _).symm⟩

theorem calculator_computes_sample :
    (Computes sample (render .sum sample) ∧ calcAdd (render .sum sample) ≠ .error .fault) ↔
      ¬Overflows sample ∧ ¬Overflows (parseAdd (render .sum sample)).tree :=
  calculator_iff (text_render (by simp [Whole, sample])) (render .sum sample)

/-- The least word, as one less than minus the largest, divided by minus one. -/
def leastByMinusOne : Tree :=
  .bin .div (.bin .sub (.lit true 9223372036854775807) (.lit false 1)) (.lit true 1)

/-- The least word divided by minus one is written as an expression, and faults. -/
theorem calculator_faults : ¬ ∀ (t : Tree) (s bytes : Bytes), Text t s →
    Computes t s ∧ calcAdd bytes ≠ .error .fault := by
  intro always
  have text : Text leastByMinusOne (render .sum leastByMinusOne) :=
    text_render (by simp [Whole, leastByMinusOne])
  have overflows : Overflows leastByMinusOne := .inr (.inr ⟨.inl rfl, rfl, rfl⟩)
  exact (computes_iff text).mp (always _ _ [] text).1 overflows

end RustyPenguin.Calc
