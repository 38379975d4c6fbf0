import RustyPenguin.Foundation.Balanced
import RustyPenguin.Foundation.Signed

/-!
# Printing balanced ternary

Three programs print a word of 64 bits in balanced ternary. All three split off digits
with one loop, into a buffer of fixed size, after taking the magnitude; the desktop shell
and the user shell then flip the digits of a negative number, while the calculator writes
a minus sign before the digits of the magnitude.

What is printed always reads back as the number. What may fail is the printing: the least
word has no magnitude, and two of the buffers hold forty digits where the words reach
forty-one (`printing_iff`).
-/

set_option autoImplicit false

namespace RustyPenguin.Ternary

open Checked

/-- Split the digits off a number, into a buffer of digits from the place `len` on. -/
def splitDigits (v : Int) (digits : List Int) (len : Nat) : Checked (List Int × Nat) :=
  if zero : v = 0 then pure (digits, len)
  else if two : v.tmod 3 = 2 then do
    let digits ← setAt digits len (-1)
    if Word 64 (v.tdiv 3 + 1) then splitDigits (v.tdiv 3 + 1) digits (len + 1) else fault
  else do
    let digits ← setAt digits len (v.tmod 3)
    splitDigits (v.tdiv 3) digits (len + 1)
termination_by v.natAbs
decreasing_by
  · have cut := Int.tmod_add_mul_tdiv v 3
    omega
  · have smaller : v.natAbs / 3 < v.natAbs := Nat.div_lt_self (by omega) (by omega)
    rw [Int.natAbs_tdiv]
    exact smaller

/-- The character of a digit. -/
def digitChar (d : Int) : Char := if d = 1 then '+' else if d = -1 then '-' else '0'

/-- The `k`-th character of the first `len` digits of a buffer, the last of them first, the
digit flipped if asked for. -/
def charAt (flip : Bool) (digits : List Int) (len k : Nat) : Checked Char := do
  let digit ← index digits (len - 1 - k)
  let d ← if flip then signedIn 8 (-digit) else pure digit
  pure (digitChar d)

/-- The magnitude of a word. -/
def magnitude (n : Int) : Checked Int := if n < 0 then signedIn 64 (-n) else pure n

/-- The digits of the desktop shell: a buffer of forty, flipped for a negative number. -/
def toTern (n : Int) : Checked (List Char) :=
  if n = 0 then pure ['0']
  else do
    let v ← magnitude n
    let (digits, len) ← splitDigits v (List.replicate 40 0) 0
    (List.range len).mapM (charAt (decide (n < 0)) digits len)

/-- The digits of the calculator: a buffer of forty-two, after a sign. -/
def toBalancedTernary (n : Int) : Checked (List Char) :=
  if n = 0 then pure ['0']
  else do
    let v ← magnitude n
    let (digits, len) ← splitDigits v (List.replicate 42 0) 0
    let out ← (List.range len).mapM (charAt false digits len)
    pure (if n < 0 then '-' :: out else out)

/-- What the user shell writes: as the desktop shell, through a second buffer of forty. -/
def writeTernary (n : Int) : Checked (List Char) :=
  if n = 0 then pure ['0']
  else do
    let v ← magnitude n
    let (digits, len) ← splitDigits v (List.replicate 40 0) 0
    let buf ← (List.range len).foldlM (fun buf k => do
      let c ← charAt (decide (n < 0)) digits len k
      setAt buf k c) (List.replicate 40 (Char.ofNat 0))
    sub buf 0 len

/-! ## Reading a numeral -/

/-- The digit a character is. -/
def charDigit (c : Char) : Int := if c = '+' then 1 else if c = '-' then -1 else 0

/-- The number a line of digits stands for, the units last. -/
def readTern (s : List Char) : Int := Balanced.value (s.reverse.map charDigit)

/-- The number of a line of digits that may have a sign before it. The first digit of a
magnitude is never negative. -/
def readSigned : List Char → Int
  | '-' :: rest => -readTern rest
  | s => readTern s

/-- A line of digits. -/
def IsTern (s : List Char) : Prop := ∀ c ∈ s, c = '+' ∨ c = '-' ∨ c = '0'

theorem charDigit_digitChar {d : Int} (digit : Balanced.Digit d) : charDigit (digitChar d) = d := by
  obtain ⟨low, high⟩ := digit
  have three : d = -1 ∨ d = 0 ∨ d = 1 := by omega
  rcases three with rfl | rfl | rfl <;> rfl

theorem isTern_digitChar (d : Int) : digitChar d = '+' ∨ digitChar d = '-' ∨ digitChar d = '0' := by
  unfold digitChar
  split
  · exact .inl rfl
  · split
    · exact .inr (.inl rfl)
    · exact .inr (.inr rfl)

/-- Digits written last first read back as their number. -/
theorem readTern_digits {ds : List Int} (digits : ∀ d ∈ ds, Balanced.Digit d) :
    readTern (ds.map digitChar).reverse = Balanced.value ds := by
  have back : ds.map (charDigit ∘ digitChar) = ds := by
    refine (List.map_congr_left fun d member => ?_).trans (List.map_id ds)
    exact charDigit_digitChar (digits d member)
  rw [readTern, List.reverse_reverse, List.map_map, back]

/-! ## Splitting off digits -/

/-- One turn of the loop puts away the balanced remainder. -/
theorem splitDigits_step {v : Int} (positive : 0 < v) (word : v < 2 ^ 63) (digits : List Int)
    (len : Nat) : ∃ d v', v = d + 3 * v' ∧ Balanced.Digit d ∧ 0 ≤ v' ∧ v' < v ∧ (v' = 0 → d = 1) ∧
      splitDigits v digits len =
        (setAt digits len d >>= fun digits => splitDigits v' digits (len + 1)) := by
  have cut := Int.tmod_add_mul_tdiv v 3
  have low : 0 ≤ v.tmod 3 := Int.tmod_nonneg 3 positive.le
  have high : v.tmod 3 < 3 := Int.tmod_lt_of_pos v (by decide)
  rw [splitDigits, dif_neg positive.ne']
  by_cases two : v.tmod 3 = 2
  · have room : Word 64 (v.tdiv 3 + 1) := by constructor <;> norm_num <;> omega
    rw [dif_pos two]
    simp only [if_pos room]
    exact ⟨-1, v.tdiv 3 + 1, by omega, ⟨by decide, by decide⟩, by omega, by omega, by omega, rfl⟩
  · rw [dif_neg two]
    exact ⟨v.tmod 3, v.tdiv 3, by omega, ⟨by omega, by omega⟩, by omega, by omega, by omega, rfl⟩

/-- A number within the reach of the rest of the buffer is split into its digits. -/
theorem splitDigits_of_reach {k : Nat} {v : Int} (nonneg : 0 ≤ v) (word : v < 2 ^ 63)
    (inside : v ≤ Balanced.reach k) (digits : List Int) (len : Nat)
    (room : len + k ≤ digits.length) :
    ∃ ds out, splitDigits v digits len = .ok (out, len + ds.length) ∧
      out.take (len + ds.length) = digits.take len ++ ds ∧ (∀ d ∈ ds, Balanced.Digit d) ∧
      Balanced.value ds = v ∧ (ds.getLast? = if v = 0 then none else some 1) ∧ ds.length ≤ k := by
  induction k generalizing v digits len with
  | zero =>
    obtain rfl : v = 0 := le_antisymm inside nonneg
    exact ⟨[], digits, by rw [splitDigits]; rfl, by simp, by simp, rfl, by simp, le_refl 0⟩
  | succ k ih =>
    rcases nonneg.eq_or_lt with rfl | positive
    · exact ⟨[], digits, by rw [splitDigits]; rfl, by simp, by simp, rfl, by simp, by simp⟩
    obtain ⟨d, v', split, digit, nonneg', less, last, step⟩ :=
      splitDigits_step positive word digits len
    have inside' : v' ≤ Balanced.reach k := by
      rw [Balanced.reach] at inside
      have low := digit.1
      omega
    have slot : len < digits.length := by omega
    obtain ⟨ds, out, returns, kept, areDigits, isValue, top, short⟩ :=
      ih nonneg' (less.trans word) inside' (digits.set len d) (len + 1)
        (by rw [List.length_set]; omega)
    have next : len + 1 + ds.length = len + (d :: ds).length := by
      rw [List.length_cons]
      omega
    have put : (digits.set len d).take (len + 1) = digits.take len ++ [d] := by
      rw [List.take_add_one, List.take_set_of_le (le_refl len), List.getElem?_set_self slot]
      rfl
    refine ⟨d :: ds, out, ?_, ?_, ?_, ?_, ?_, ?_⟩
    · rw [step, setAt, if_pos slot, ← next]
      exact returns
    · rw [← next, kept, put, List.append_assoc, List.singleton_append]
    · intro e member
      rcases List.mem_cons.mp member with rfl | member
      · exact digit
      · exact areDigits e member
    · rw [Balanced.value_cons, isValue, split]
    · rw [List.getLast?_cons, top, if_neg positive.ne']
      by_cases zero : v' = 0
      · rw [if_pos zero, last zero]
        rfl
      · rw [if_neg zero]
        rfl
    · rw [List.length_cons]
      omega

/-- A number past the reach of the rest of the buffer has one digit too many. -/
theorem splitDigits_of_past {k : Nat} {v : Int} (word : v < 2 ^ 63) (past : Balanced.reach k < v)
    {digits : List Int} {len : Nat} (room : len + k = digits.length) :
    splitDigits v digits len = .error .fault := by
  induction k generalizing v digits len with
  | zero =>
    obtain ⟨d, v', _, _, _, _, _, step⟩ := splitDigits_step past word digits len
    rw [step, setAt, if_neg (by omega)]
    rfl
  | succ k ih =>
    have nonneg := Balanced.reach_nonneg (k + 1)
    obtain ⟨d, v', split, digit, nonneg', less, _, step⟩ :=
      splitDigits_step (nonneg.trans_lt past) word digits len
    have past' : Balanced.reach k < v' := by
      rw [Balanced.reach] at past
      have high := digit.2
      omega
    rw [step, setAt, if_pos (by omega)]
    exact ih (less.trans word) past' (by rw [List.length_set]; omega)

/-! ## Writing the digits out -/

/-- The characters of digits, the last of them first, each flipped if asked for. -/
def written (flip : Bool) (ds : List Int) : List Char :=
  (ds.map fun d => digitChar (if flip then -d else d)).reverse

theorem length_written (flip : Bool) (ds : List Int) : (written flip ds).length = ds.length := by
  rw [written, List.length_reverse, List.length_map]

theorem isTern_written (flip : Bool) (ds : List Int) : IsTern (written flip ds) := by
  intro c member
  obtain ⟨d, _, rfl⟩ := List.mem_map.mp (List.mem_reverse.mp member)
  exact isTern_digitChar _

theorem value_negated (ds : List Int) : Balanced.value (ds.map fun d => -d) = -Balanced.value ds := by
  induction ds with
  | nil => rfl
  | cons d rest ih =>
    rw [List.map_cons, Balanced.value_cons, ih, Balanced.value_cons]
    omega

theorem readTern_written {flip : Bool} {ds : List Int} (digits : ∀ d ∈ ds, Balanced.Digit d) :
    readTern (written flip ds) = if flip then -Balanced.value ds else Balanced.value ds := by
  cases flip with
  | false => exact readTern_digits digits
  | true =>
    have negated : ∀ d ∈ ds.map fun d => -d, Balanced.Digit d := by
      intro d member
      obtain ⟨e, inside, rfl⟩ := List.mem_map.mp member
      obtain ⟨low, high⟩ := digits e inside
      exact ⟨by omega, by omega⟩
    have read := readTern_digits negated
    rw [List.map_map, value_negated] at read
    exact read

/-- The digits of a buffer, written last first. -/
theorem charAt_digits (flip : Bool) {out ds : List Int} (front : out.take ds.length = ds)
    (digits : ∀ d ∈ ds, Balanced.Digit d) {k : Nat} (inside : k < ds.length) :
    charAt flip out ds.length k = .ok ((written flip ds).getD k ' ') := by
  have place : ds.length - 1 - k < ds.length := by omega
  have found : out[ds.length - 1 - k]? = some ds[ds.length - 1 - k] := by
    rw [← List.getElem?_take_of_lt place, front, List.getElem?_eq_getElem place]
  have digit := digits _ (List.getElem_mem place)
  rw [charAt, bind_of_ok (index_eq_ok.mpr found), written, List.getD_eq_getElem?_getD,
    List.getElem?_reverse (by rwa [List.length_map]), List.getElem?_map, List.length_map,
    List.getElem?_eq_getElem place]
  cases flip with
  | true =>
    rw [if_pos rfl, signedIn_of_word (by
      obtain ⟨low, high⟩ := digit
      constructor <;> norm_num <;> omega)]
    rfl
  | false => rfl

theorem map_getD_range {s : List Char} {n : Nat} (size : s.length = n) :
    (List.range n).map (fun k => s.getD k ' ') = s := by
  subst size
  refine List.ext_getElem (by rw [List.length_map, List.length_range]) fun k _ inside => ?_
  rw [List.getElem_map, List.getElem_range, List.getD_eq_getElem?_getD,
    List.getElem?_eq_getElem inside]
  rfl

/-- **The digits split off a magnitude within the reach of the buffer, as both loops write
them.** -/
theorem splitDigits_written (cap : Nat) {v : Int} (positive : 0 < v) (word : v < 2 ^ 63)
    (inside : v ≤ Balanced.reach cap) (flip : Bool) :
    ∃ ds out, splitDigits v (List.replicate cap 0) 0 = .ok (out, ds.length) ∧
      (∀ d ∈ ds, Balanced.Digit d) ∧ Balanced.value ds = v ∧ ds.getLast? = some 1 ∧
      ds.length ≤ cap ∧
      (∀ k, k < ds.length → charAt flip out ds.length k = .ok ((written flip ds).getD k ' ')) ∧
      (List.range ds.length).mapM (charAt flip out ds.length) = .ok (written flip ds) := by
  obtain ⟨ds, out, returns, front, digits, isValue, top, short⟩ :=
    splitDigits_of_reach positive.le word inside (List.replicate cap 0) 0
      (by rw [List.length_replicate, Nat.zero_add])
  rw [Nat.zero_add] at returns front
  have each := fun k inside => charAt_digits flip front digits (k := k) inside
  refine ⟨ds, out, returns, digits, isValue, ?_, short, each, ?_⟩
  · rw [top, if_neg positive.ne']
  · rw [mapM_of_each fun k member => each k (List.mem_range.mp member),
      map_getD_range (length_written flip ds)]

theorem magnitude_eq {n : Int} (low : -2 ^ 63 < n) (high : n < 2 ^ 63) : magnitude n = .ok |n| := by
  rw [magnitude]
  by_cases negative : n < 0
  · rw [if_pos negative, abs_of_neg negative]
    exact signedIn_of_word (by constructor <;> norm_num <;> omega)
  · rw [if_neg negative, abs_of_nonneg (not_lt.mp negative)]
    rfl

theorem flipped_abs (n : Int) : (if decide (n < 0) then -|n| else |n|) = n := by
  by_cases negative : n < 0
  · rw [if_pos (decide_eq_true negative), abs_of_neg negative, neg_neg]
  · rw [if_neg (by simpa using negative), abs_of_nonneg (not_lt.mp negative)]

/-- What a print of `n` returns, of which `read` reads `n` back. -/
def Prints (print : Int → Checked (List Char)) (read : List Char → Int) (n : Int) : Prop :=
  ∃ s, print n = .ok s ∧ IsTern s ∧ read s = n

theorem prints_zero {print : Int → Checked (List Char)} {read : List Char → Int}
    (zero : print 0 = .ok ['0']) (back : read ['0'] = 0) : Prints print read 0 :=
  ⟨['0'], zero, fun _ member => .inr (.inr (List.mem_singleton.mp member)), back⟩

theorem toTern_prints {n : Int} (word : |n| < 2 ^ 63) (inside : |n| ≤ Balanced.reach 40) :
    Prints toTern readTern n := by
  obtain ⟨low, high⟩ := abs_lt.mp word
  by_cases zero : n = 0
  · rw [zero]
    exact prints_zero rfl rfl
  · obtain ⟨ds, out, returns, digits, isValue, _, _, _, chars⟩ :=
      splitDigits_written 40 (abs_pos.mpr zero) word inside (decide (n < 0))
    refine ⟨written (decide (n < 0)) ds, ?_, isTern_written _ ds, ?_⟩
    · rw [toTern, if_neg zero, bind_of_ok (magnitude_eq low high), bind_of_ok returns]
      exact chars
    · rw [readTern_written digits, isValue, flipped_abs]

theorem writeTernary_prints {n : Int} (word : |n| < 2 ^ 63) (inside : |n| ≤ Balanced.reach 40) :
    Prints writeTernary readTern n := by
  obtain ⟨low, high⟩ := abs_lt.mp word
  by_cases zero : n = 0
  · rw [zero]
    exact prints_zero rfl rfl
  · obtain ⟨ds, out, returns, digits, isValue, _, short, each, _⟩ :=
      splitDigits_written 40 (abs_pos.mpr zero) word inside (decide (n < 0))
    have room : ds.length ≤ (List.replicate 40 (Char.ofNat 0)).length := short
    have size := length_written (decide (n < 0)) ds
    refine ⟨written (decide (n < 0)) ds, ?_, isTern_written _ ds, ?_⟩
    · rw [writeTernary, if_neg zero, bind_of_ok (magnitude_eq low high), bind_of_ok returns]
      simp only
      rw [bind_of_ok (foldlM_setAt each room), map_getD_range size, sub_eq_ok]
      refine ⟨Nat.zero_le _, ?_, ?_⟩
      · rw [List.length_append, size]
        exact Nat.le_add_right _ _
      · rw [List.drop_zero, Nat.sub_zero, ← size, List.take_left]
    · rw [readTern_written digits, isValue, flipped_abs]

/-- The calculator prints every word that has a magnitude. -/
theorem toBalancedTernary_prints {n : Int} (word : |n| < 2 ^ 63) :
    Prints toBalancedTernary readSigned n := by
  obtain ⟨low, high⟩ := abs_lt.mp word
  by_cases zero : n = 0
  · rw [zero]
    exact prints_zero rfl rfl
  · have inside : |n| ≤ Balanced.reach 42 := word.le.trans (by decide)
    obtain ⟨ds, out, returns, digits, isValue, top, _, _, chars⟩ :=
      splitDigits_written 42 (abs_pos.mpr zero) word inside false
    have returned : toBalancedTernary n =
        .ok (if n < 0 then '-' :: written false ds else written false ds) := by
      rw [toBalancedTernary, if_neg zero, bind_of_ok (magnitude_eq low high), bind_of_ok returns]
      simp only
      rw [bind_of_ok chars]
      rfl
    have read : readTern (written false ds) = |n| := by
      rw [readTern_written digits, isValue]
      rfl
    by_cases negative : n < 0
    · refine ⟨'-' :: written false ds, by rw [returned, if_pos negative], ?_, ?_⟩
      · intro c member
        rcases List.mem_cons.mp member with rfl | member
        · exact .inr (.inl rfl)
        · exact isTern_written false ds c member
      · show -readTern (written false ds) = n
        rw [read, abs_of_neg negative, neg_neg]
    · refine ⟨written false ds, by rw [returned, if_neg negative], isTern_written false ds, ?_⟩
      -- the digit written first is the last one split off, which is one
      have first : (written false ds).head? = some '+' := by
        rw [written, List.head?_reverse, List.getLast?_map, top]
        rfl
      obtain ⟨rest, shape⟩ := List.head?_eq_some_iff.mp first
      have plain : readSigned (written false ds) = readTern (written false ds) := by
        rw [shape]
        rfl
      rw [plain, read, abs_of_nonneg (not_lt.mp negative)]

theorem toTern_of_past {n : Int} (word : |n| < 2 ^ 63) (past : Balanced.reach 40 < |n|) :
    toTern n = .error .fault := by
  obtain ⟨low, high⟩ := abs_lt.mp word
  have nonzero : n ≠ 0 := abs_pos.mp ((Balanced.reach_nonneg 40).trans_lt past)
  rw [toTern, if_neg nonzero, bind_of_ok (magnitude_eq low high),
    splitDigits_of_past word past (by rw [List.length_replicate])]
  rfl

theorem toTern_least : toTern (-2 ^ 63) = .error .fault := rfl

/-- The three printed lines of a number: each is a line of digits that reads back as the
number, by the sign rule of the program that printed it. -/
structure Printed (n : Int) : Prop where
  shell : Prints toTern readTern n
  calculator : Prints toBalancedTernary readSigned n
  userShell : Prints writeTernary readTern n

/-- **The three printers are faithful on the numbers of forty digits, and on no other.** -/
theorem printing_iff (n : Int64) : Printed n.toInt ↔ |n.toInt| ≤ 6078832729528464400 := by
  have reach : Balanced.reach 40 = 6078832729528464400 := rfl
  rw [← reach]
  have low := n.le_toInt
  have high := n.toInt_lt
  constructor
  · rintro ⟨⟨s, printed, _⟩, _, _⟩
    by_contra past
    by_cases least : n.toInt = -2 ^ 63
    · rw [least, toTern_least] at printed
      exact nomatch printed
    · have word : |n.toInt| < 2 ^ 63 := abs_lt.mpr ⟨by omega, high⟩
      rw [toTern_of_past word (not_le.mp past)] at printed
      exact nomatch printed
  · intro inside
    have word : |n.toInt| < 2 ^ 63 := inside.trans_lt (by decide)
    exact ⟨toTern_prints word inside, toBalancedTernary_prints word,
      writeTernary_prints word inside⟩

theorem not_printed : ¬ ∀ n : Int64, Printed n.toInt := by
  intro always
  obtain ⟨s, printed, _⟩ := (always Int64.maxValue).shell
  have past : toTern Int64.maxValue.toInt = .error .fault :=
    toTern_of_past (by decide) (by decide)
  rw [past] at printed
  exact nomatch printed

end RustyPenguin.Ternary
