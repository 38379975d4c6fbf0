import Mathlib.Data.Nat.Cast.Basic
import Mathlib.Tactic.NormNum
import RustyPenguin.Foundation.Signed

/-!
# The calculator of the shell

`calc` evaluates what it reads while it reads it, by recursive descent: an atom is a number
or a sum in parentheses, a product a row of atoms, a sum a row of products. Sums and
products wrap, but the digits of a number are put together with checked arithmetic, and so
is a quotient.

The same descent without the arithmetic reads a tree (`parseAdd`), up to where the
calculator stops at the latest. The calculator is the evaluation of that tree, from left to
right (`calcAdd_eq`).
-/

set_option autoImplicit false

namespace RustyPenguin.Calc

open Checked

abbrev Bytes : Type := List UInt8

/-! ## Bytes -/

def isBlank (b : UInt8) : Bool := b = 0x20 || b = 0x09

def isAsciiDigit (b : UInt8) : Bool := 0x30 ≤ b && b ≤ 0x39

def calcSkip (s : Bytes) : Bytes := s.dropWhile isBlank

theorem length_calcSkip_le (s : Bytes) : (calcSkip s).length ≤ s.length :=
  (List.dropWhile_sublist isBlank).length_le

theorem length_of_calcSkip {s rest : Bytes} {b : UInt8} (skipped : calcSkip s = b :: rest) :
    rest.length < s.length := by
  have less := length_calcSkip_le s
  rw [skipped, List.length_cons] at less
  exact less

/-- What is behind the byte after the blanks is shorter, its own blanks skipped or not. -/
theorem length_calcSkip_lt {s rest : Bytes} {b : UInt8} (skipped : calcSkip s = b :: rest) :
    (calcSkip rest).length < s.length :=
  (length_calcSkip_le rest).trans_lt (length_of_calcSkip skipped)

/-! ## Operators -/

inductive Op where
  | add
  | sub
  | mul
  | div
  | rem
  deriving DecidableEq, Repr

def mulOp (c : UInt8) : Option Op :=
  if c = 0x2A then some .mul
  else if c = 0x2F then some .div
  else if c = 0x25 then some .rem
  else none

def addOp (c : UInt8) : Option Op :=
  if c = 0x2B then some .add
  else if c = 0x2D then some .sub
  else none

/-- A number wrapped into a signed word of 64 bits. -/
def wrap (n : Int) : Int := n.bmod (2 ^ 64)

/-- One operation of the calculator. -/
def Op.apply : Op → Int → Int → Checked Int
  | .add, lhs, rhs => pure (wrap (lhs + rhs))
  | .sub, lhs, rhs => pure (wrap (lhs - rhs))
  | .mul, lhs, rhs => pure (wrap (lhs * rhs))
  | .div, lhs, rhs => if rhs = 0 then refuse else divIn 64 lhs rhs
  | .rem, lhs, rhs => if rhs = 0 then refuse else remIn 64 lhs rhs

/-! ## The calculator -/

/-- The digits of a number, behind the digits read so far. -/
def calcDigits : Bytes → Int → Checked (Int × Bytes)
  | [], n => pure (n, [])
  | c :: rest, n =>
      if isAsciiDigit c then do
        let tens ← signedIn 64 (n * 10)
        let n ← signedIn 64 (tens + (c.toNat - 0x30))
        calcDigits rest n
      else pure (n, c :: rest)

/-- A number, with its sign. -/
def calcNumber (neg : Bool) (d : Bytes) : Checked (Int × Bytes) :=
  match d with
  | [] => refuse
  | c :: _ =>
      if isAsciiDigit c then do
        let (n, rest) ← calcDigits d 0
        let v ← if neg then signedIn 64 (-n) else pure n
        pure (v, rest)
      else refuse

mutual

/-- A number, or a sum in parentheses. -/
def calcAtom (s : Bytes) : Checked (Int × Bytes) :=
  match skipped : calcSkip s with
  | [] => refuse
  | b :: rest =>
      if b = 0x28 then do
        have := length_calcSkip_lt skipped
        let (v, r) ← calcAdd (calcSkip rest)
        match calcSkip r with
        | [] => refuse
        | c :: after => if c = 0x29 then pure (v, after) else refuse
      else if b = 0x2D then calcNumber true rest
      else calcNumber false (b :: rest)
termination_by (s.length, 0)

def calcMul (s : Bytes) : Checked (Int × Bytes) := do
  let (lhs, r) ← calcAtom s
  if r.length < s.length then calcMulLoop lhs r else refuse
termination_by (s.length, 1)

/-- The rest of a product. -/
def calcMulLoop (lhs : Int) (r : Bytes) : Checked (Int × Bytes) :=
  match skipped : calcSkip r with
  | [] => pure (lhs, r)
  | c :: rest =>
      match mulOp c with
      | none => pure (lhs, r)
      | some op => do
          have := length_calcSkip_lt skipped
          let (rhs, r3) ← calcAtom (calcSkip rest)
          let lhs ← op.apply lhs rhs
          if r3.length < r.length then calcMulLoop lhs r3 else refuse
termination_by (r.length, 0)

def calcAdd (s : Bytes) : Checked (Int × Bytes) := do
  let (lhs, r) ← calcMul s
  if r.length < s.length then calcAddLoop lhs r else refuse
termination_by (s.length, 2)

/-- The rest of a sum. -/
def calcAddLoop (lhs : Int) (r : Bytes) : Checked (Int × Bytes) :=
  match skipped : calcSkip r with
  | [] => pure (lhs, r)
  | c :: rest =>
      match addOp c with
      | none => pure (lhs, r)
      | some op => do
          have := length_calcSkip_lt skipped
          let (rhs, r3) ← calcMul (calcSkip rest)
          let lhs ← op.apply lhs rhs
          if r3.length < r.length then calcAddLoop lhs r3 else refuse
termination_by (r.length, 0)

end

/-! ## Reading without computing -/

/-- What is read: numbers and operations. Where the reading stops there is a number missing, or
a tree that is read only up to another, in which the reading stopped. -/
inductive Tree where
  | lit (neg : Bool) (n : Nat)
  | bin (op : Op) (l r : Tree)
  | missing
  | upTo (l r : Tree)
  deriving DecidableEq, Repr

/-- A tree with what is behind it, or the tree up to where the reading stopped. -/
inductive Read where
  | done (t : Tree) (rest : Bytes)
  | cut (t : Tree)
  deriving DecidableEq, Repr

/-- The number of a row of digits, behind a number read so far. -/
def digitsValue (n : Nat) (d : Bytes) : Nat := d.foldl (fun n c => n * 10 + (c.toNat - 0x30)) n

def parseNumber (neg : Bool) (d : Bytes) : Read :=
  match d with
  | [] => .cut .missing
  | c :: _ =>
      if isAsciiDigit c then
        .done (.lit neg (digitsValue 0 (d.takeWhile isAsciiDigit))) (d.dropWhile isAsciiDigit)
      else .cut .missing

mutual

def parseAtom (s : Bytes) : Read :=
  match skipped : calcSkip s with
  | [] => .cut .missing
  | b :: rest =>
      if b = 0x28 then
        have := length_calcSkip_lt skipped
        match parseAdd (calcSkip rest) with
        | .cut t => .cut t
        | .done t r =>
            match calcSkip r with
            | [] => .cut (.upTo t .missing)
            | c :: after => if c = 0x29 then .done t after else .cut (.upTo t .missing)
      else if b = 0x2D then parseNumber true rest
      else parseNumber false (b :: rest)
termination_by (s.length, 0)

def parseMul (s : Bytes) : Read :=
  match parseAtom s with
  | .cut t => .cut t
  | .done t r => if r.length < s.length then parseMulLoop t r else .cut (.upTo t .missing)
termination_by (s.length, 1)

def parseMulLoop (lhs : Tree) (r : Bytes) : Read :=
  match skipped : calcSkip r with
  | [] => .done lhs r
  | c :: rest =>
      match mulOp c with
      | none => .done lhs r
      | some op =>
          have := length_calcSkip_lt skipped
          match parseAtom (calcSkip rest) with
          | .cut rhs => .cut (.upTo lhs rhs)
          | .done rhs r3 =>
              if r3.length < r.length then parseMulLoop (.bin op lhs rhs) r3
              else .cut (.upTo (.bin op lhs rhs) .missing)
termination_by (r.length, 0)

def parseAdd (s : Bytes) : Read :=
  match parseMul s with
  | .cut t => .cut t
  | .done t r => if r.length < s.length then parseAddLoop t r else .cut (.upTo t .missing)
termination_by (s.length, 2)

def parseAddLoop (lhs : Tree) (r : Bytes) : Read :=
  match skipped : calcSkip r with
  | [] => .done lhs r
  | c :: rest =>
      match addOp c with
      | none => .done lhs r
      | some op =>
          have := length_calcSkip_lt skipped
          match parseMul (calcSkip rest) with
          | .cut rhs => .cut (.upTo lhs rhs)
          | .done rhs r3 =>
              if r3.length < r.length then parseAddLoop (.bin op lhs rhs) r3
              else .cut (.upTo (.bin op lhs rhs) .missing)
termination_by (r.length, 0)

end

/-! ## The calculator evaluates what is read -/

/-- A tree evaluated from left to right. -/
def evaluate : Tree → Checked Int
  | .lit neg n => do
      let n ← signedIn 64 n
      if neg then signedIn 64 (-n) else pure n
  | .bin op l r => do
      let lhs ← evaluate l
      let rhs ← evaluate r
      op.apply lhs rhs
  | .missing => refuse
  | .upTo l r => do
      let _ ← evaluate l
      let _ ← evaluate r
      refuse

/-- The value of what is read, with what is behind it. -/
def Read.run : Read → Checked (Int × Bytes)
  | .done t rest => do
      let v ← evaluate t
      pure (v, rest)
  | .cut t => do
      let _ ← evaluate t
      refuse

theorem run_done (t : Tree) (rest : Bytes) :
    (Read.done t rest).run = (evaluate t >>= fun v => pure (v, rest)) := rfl

theorem run_cut (t : Tree) : (Read.cut t).run = (evaluate t >>= fun _ => refuse) := rfl

theorem evaluate_bin (op : Op) (l r : Tree) : evaluate (.bin op l r) =
    (evaluate l >>= fun lhs => evaluate r >>= fun rhs => op.apply lhs rhs) := rfl

theorem evaluate_upTo (l r : Tree) : evaluate (.upTo l r) =
    (evaluate l >>= fun _ => evaluate r >>= fun _ => refuse) := rfl

theorem evaluate_missing : evaluate .missing = refuse := rfl

theorem refuse_bind {α β : Type} (f : α → Checked β) : (refuse >>= f) = refuse := rfl

theorem le_digitsValue (n : Nat) (d : Bytes) : n ≤ digitsValue n d := by
  induction d generalizing n with
  | nil => exact Nat.le_refl n
  | cons c d ih =>
    have more := ih (n * 10 + (c.toNat - 0x30))
    rw [digitsValue, List.foldl_cons, ← digitsValue]
    omega

theorem word_natCast (n : Nat) : Word 64 (n : Int) ↔ n < 2 ^ 63 := by
  constructor
  · intro inside
    have high := inside.2
    norm_num at high
    omega
  · intro below
    refine ⟨by norm_num, ?_⟩
    norm_num
    omega

/-- The digits are put together while their number fits. -/
theorem calcDigits_eq (d : Bytes) (n : Nat) (fits : n < 2 ^ 63) :
    calcDigits d n = (signedIn 64 (digitsValue n (d.takeWhile isAsciiDigit)) >>= fun n =>
      pure (n, d.dropWhile isAsciiDigit)) := by
  induction d generalizing n with
  | nil =>
    rw [calcDigits, List.takeWhile_nil, digitsValue, List.foldl_nil,
      signedIn_of_word ((word_natCast n).mpr fits)]
    rfl
  | cons c d ih =>
    by_cases digit : isAsciiDigit c = true
    · have low : 0x30 ≤ c.toNat := by
        rw [isAsciiDigit, Bool.and_eq_true] at digit
        exact UInt8.le_iff_toNat_le.mp (of_decide_eq_true digit.1)
      have tens : (n : Int) * 10 = ((n * 10 : Nat) : Int) := by push_cast; rfl
      have next : ((n * 10 : Nat) : Int) + (c.toNat - 0x30) =
          ((n * 10 + (c.toNat - 0x30) : Nat) : Int) := by omega
      have grows := le_digitsValue (n * 10 + (c.toNat - 0x30)) (d.takeWhile isAsciiDigit)
      rw [calcDigits, if_pos digit, List.takeWhile_cons_of_pos digit,
        List.dropWhile_cons_of_pos digit, digitsValue, List.foldl_cons, ← digitsValue, tens]
      by_cases room : n * 10 + (c.toNat - 0x30) < 2 ^ 63
      · rw [bind_of_ok (signedIn_of_word ((word_natCast (n * 10)).mpr (by omega))), next,
          bind_of_ok (signedIn_of_word ((word_natCast _).mpr room)), ih _ room]
      · have past : ¬Word 64 (digitsValue (n * 10 + (c.toNat - 0x30))
            (d.takeWhile isAsciiDigit) : Int) := fun inside => by
          have below := (word_natCast _).mp inside
          omega
        rw [signedIn_of_not_word past]
        by_cases roomTens : n * 10 < 2 ^ 63
        · rw [bind_of_ok (signedIn_of_word ((word_natCast (n * 10)).mpr roomTens)), next,
            signedIn_of_not_word fun inside => room ((word_natCast _).mp inside)]
          rfl
        · rw [signedIn_of_not_word fun inside => roomTens ((word_natCast _).mp inside)]
          rfl
    · rw [calcDigits, if_neg digit, List.takeWhile_cons_of_neg digit,
        List.dropWhile_cons_of_neg digit, digitsValue, List.foldl_nil,
        signedIn_of_word ((word_natCast n).mpr fits)]
      rfl

theorem calcNumber_eq (neg : Bool) (d : Bytes) : calcNumber neg d = (parseNumber neg d).run := by
  match d with
  | [] => rfl
  | c :: rest =>
    rw [calcNumber, parseNumber]
    by_cases digit : isAsciiDigit c = true
    · have digits := calcDigits_eq (c :: rest) 0 (by decide)
      rw [if_pos digit, if_pos digit]
      rw [Nat.cast_zero] at digits
      rw [digits, Read.run, evaluate]
      cases neg <;> simp only [bind_assoc, pure_bind, if_true, if_false, Bool.false_eq_true]
    · rw [if_neg digit, if_neg digit]
      rfl

theorem calcMulLoop_nil {r : Bytes} (skipped : calcSkip r = []) (lhs : Int) :
    calcMulLoop lhs r = pure (lhs, r) := by
  rw [calcMulLoop]
  split
  · rfl
  · next other => exact absurd (skipped.symm.trans other) (List.cons_ne_nil _ _).symm

theorem calcMulLoop_stop {r rest : Bytes} {c : UInt8} (skipped : calcSkip r = c :: rest)
    (noOp : mulOp c = none) (lhs : Int) : calcMulLoop lhs r = pure (lhs, r) := by
  rw [calcMulLoop]
  split
  · rfl
  · next other =>
    cases skipped.symm.trans other
    rw [noOp]

theorem calcMulLoop_step {r rest : Bytes} {c : UInt8} {op : Op}
    (skipped : calcSkip r = c :: rest) (isOp : mulOp c = some op) (lhs : Int) :
    calcMulLoop lhs r = (calcAtom (calcSkip rest) >>= fun p => op.apply lhs p.1 >>= fun lhs =>
      if p.2.length < r.length then calcMulLoop lhs p.2 else refuse) := by
  rw [calcMulLoop]
  split
  · next other => exact absurd (skipped.symm.trans other) (List.cons_ne_nil _ _)
  · next other =>
    cases skipped.symm.trans other
    rw [isOp]

theorem calcAddLoop_nil {r : Bytes} (skipped : calcSkip r = []) (lhs : Int) :
    calcAddLoop lhs r = pure (lhs, r) := by
  rw [calcAddLoop]
  split
  · rfl
  · next other => exact absurd (skipped.symm.trans other) (List.cons_ne_nil _ _).symm

theorem calcAddLoop_stop {r rest : Bytes} {c : UInt8} (skipped : calcSkip r = c :: rest)
    (noOp : addOp c = none) (lhs : Int) : calcAddLoop lhs r = pure (lhs, r) := by
  rw [calcAddLoop]
  split
  · rfl
  · next other =>
    cases skipped.symm.trans other
    rw [noOp]

theorem calcAddLoop_step {r rest : Bytes} {c : UInt8} {op : Op}
    (skipped : calcSkip r = c :: rest) (isOp : addOp c = some op) (lhs : Int) :
    calcAddLoop lhs r = (calcMul (calcSkip rest) >>= fun p => op.apply lhs p.1 >>= fun lhs =>
      if p.2.length < r.length then calcAddLoop lhs p.2 else refuse) := by
  rw [calcAddLoop]
  split
  · next other => exact absurd (skipped.symm.trans other) (List.cons_ne_nil _ _)
  · next other =>
    cases skipped.symm.trans other
    rw [isOp]

mutual

theorem calcAtom_eq (s : Bytes) : calcAtom s = (parseAtom s).run := by
  rw [calcAtom, parseAtom]
  split
  · rfl
  · next b rest skipped =>
    have shorter := length_calcSkip_lt skipped
    by_cases opens : b = 0x28
    · rw [if_pos opens, if_pos opens]
      simp only
      rw [calcAdd_eq (calcSkip rest)]
      cases parseAdd (calcSkip rest) with
      | cut t => simp only [run_cut, bind_assoc, refuse_bind]
      | done t r =>
        simp only [run_done, bind_assoc, pure_bind]
        cases calcSkip r with
        | nil => simp only [run_cut, evaluate_upTo, evaluate_missing, bind_assoc, refuse_bind]
        | cons c after =>
          by_cases closes : c = 0x29
          · simp only [if_pos closes, run_done]
          · simp only [if_neg closes, run_cut, evaluate_upTo, evaluate_missing, bind_assoc, refuse_bind]
    · rw [if_neg opens, if_neg opens]
      by_cases minus : b = 0x2D
      · rw [if_pos minus, if_pos minus, calcNumber_eq]
      · rw [if_neg minus, if_neg minus, calcNumber_eq]
termination_by (s.length, 0)

theorem calcMul_eq (s : Bytes) : calcMul s = (parseMul s).run := by
  rw [calcMul, parseMul, calcAtom_eq s]
  cases parseAtom s with
  | cut t => simp only [run_cut, bind_assoc, refuse_bind]
  | done t r =>
    simp only [run_done, bind_assoc, pure_bind]
    by_cases shorter : r.length < s.length
    · simp only [if_pos shorter]
      rw [calcMulLoop_eq]
    · simp only [if_neg shorter, run_cut, evaluate_upTo, evaluate_missing, bind_assoc, refuse_bind]
termination_by (s.length, 1)

theorem calcMulLoop_eq (lhs : Tree) (r : Bytes) :
    (evaluate lhs >>= fun v => calcMulLoop v r) = (parseMulLoop lhs r).run := by
  rw [parseMulLoop]
  split
  · next skipped =>
    simp only [calcMulLoop_nil skipped, run_done]
  · next c rest skipped =>
    have shorter := length_calcSkip_lt skipped
    cases isOp : mulOp c with
    | none => simp only [calcMulLoop_stop skipped isOp, run_done]
    | some op =>
      simp only [calcMulLoop_step skipped isOp]
      rw [calcAtom_eq (calcSkip rest)]
      cases parseAtom (calcSkip rest) with
      | cut rhs => simp only [run_cut, evaluate_upTo, bind_assoc, refuse_bind]
      | done rhs r3 =>
        simp only [run_done, bind_assoc, pure_bind]
        by_cases progress : r3.length < r.length
        · simp only [if_pos progress]
          rw [← calcMulLoop_eq (.bin op lhs rhs) r3, evaluate_bin]
          simp only [bind_assoc]
        · simp only [if_neg progress, run_cut, evaluate_bin, evaluate_upTo, evaluate_missing,
            bind_assoc, refuse_bind]
termination_by (r.length, 0)

theorem calcAdd_eq (s : Bytes) : calcAdd s = (parseAdd s).run := by
  rw [calcAdd, parseAdd, calcMul_eq s]
  cases parseMul s with
  | cut t => simp only [run_cut, bind_assoc, refuse_bind]
  | done t r =>
    simp only [run_done, bind_assoc, pure_bind]
    by_cases shorter : r.length < s.length
    · simp only [if_pos shorter]
      rw [calcAddLoop_eq]
    · simp only [if_neg shorter, run_cut, evaluate_upTo, evaluate_missing, bind_assoc, refuse_bind]
termination_by (s.length, 2)

theorem calcAddLoop_eq (lhs : Tree) (r : Bytes) :
    (evaluate lhs >>= fun v => calcAddLoop v r) = (parseAddLoop lhs r).run := by
  rw [parseAddLoop]
  split
  · next skipped =>
    simp only [calcAddLoop_nil skipped, run_done]
  · next c rest skipped =>
    have shorter := length_calcSkip_lt skipped
    cases isOp : addOp c with
    | none => simp only [calcAddLoop_stop skipped isOp, run_done]
    | some op =>
      simp only [calcAddLoop_step skipped isOp]
      rw [calcMul_eq (calcSkip rest)]
      cases parseMul (calcSkip rest) with
      | cut rhs => simp only [run_cut, evaluate_upTo, bind_assoc, refuse_bind]
      | done rhs r3 =>
        simp only [run_done, bind_assoc, pure_bind]
        by_cases progress : r3.length < r.length
        · simp only [if_pos progress]
          rw [← calcAddLoop_eq (.bin op lhs rhs) r3, evaluate_bin]
          simp only [bind_assoc]
        · simp only [if_neg progress, run_cut, evaluate_bin, evaluate_upTo, evaluate_missing,
            bind_assoc, refuse_bind]
termination_by (r.length, 0)

end

end RustyPenguin.Calc
