import Mathlib.Algebra.Ring.Int.Defs
import Mathlib.Algebra.Ring.Nat
import Mathlib.Data.List.Infix

/-!
# Computations that may refuse or fault

A function that reads untrusted bytes has two ways to stop without a value. It may
*refuse* its input, which is an answer its callers deal with, or it may *fault*: an
index outside a slice, or arithmetic that leaves its machine word. `Checked` keeps
the two apart.

`Holds x P` says that `x` does not fault and that the value it returns, if it returns
one, satisfies `P`. It is closed under sequencing (`Holds.bind`), so that a function is
shown not to fault by following its text, with what each part returns carried along.
`Answers x` says that `x` does not refuse, and is closed in the same way.
-/

set_option autoImplicit false

namespace RustyPenguin

/-- Why a computation stopped without a value. -/
inductive Stop where
  | refused
  | fault
  deriving DecidableEq, Repr

/-- A computation that returns a value, refuses, or faults. -/
abbrev Checked (α : Type) : Type := Except Stop α

namespace Checked

variable {α β : Type}

/-- Refuse the input. -/
def refuse : Checked α := .error .refused

/-- Fault. -/
def fault : Checked α := .error .fault

/-- The element at an index. -/
def index (buf : List α) (i : Nat) : Checked α :=
  match buf[i]? with
  | some a => pure a
  | none => fault

/-- The list with the element at an index replaced. -/
def setAt (buf : List α) (i : Nat) (a : α) : Checked (List α) :=
  if i < buf.length then pure (buf.set i a) else fault

/-- The elements from `lo` on and before `hi`. -/
def sub (buf : List α) (lo hi : Nat) : Checked (List α) :=
  if lo ≤ hi ∧ hi ≤ buf.length then pure ((buf.drop lo).take (hi - lo)) else fault

/-- The list with the elements from `lo` on and before `hi` overwritten by as many others. -/
def copyTo (buf : List α) (lo hi : Nat) (src : List α) : Checked (List α) :=
  if lo ≤ hi ∧ hi ≤ buf.length ∧ src.length = hi - lo then pure (buf.take lo ++ src ++ buf.drop hi)
  else fault

/-- Addition in a word of `w` bits. -/
def addIn (w a b : Nat) : Checked Nat := if a + b < 2 ^ w then pure (a + b) else fault

/-- Multiplication in a word of `w` bits. -/
def mulIn (w a b : Nat) : Checked Nat := if a * b < 2 ^ w then pure (a * b) else fault

/-- Subtraction of unsigned words. -/
def subIn (a b : Nat) : Checked Nat := if b ≤ a then pure (a - b) else fault

/-- A refusal turned into a value its caller looks at. -/
def attempt (x : Checked α) : Checked (Option α) :=
  match x with
  | .ok a => pure (some a)
  | .error .refused => pure none
  | .error .fault => fault

/-- An answer of a partial function, whose absence refuses. -/
def require (a? : Option α) : Checked α :=
  match a? with
  | some a => pure a
  | none => refuse

/-- An answer of a partial function, whose absence faults. -/
def expect (a? : Option α) : Checked α :=
  match a? with
  | some a => pure a
  | none => fault

/-! ## What holds of a computation -/

/-- `x` does not fault, and what it returns satisfies `P`. -/
def Holds (x : Checked α) (P : α → Prop) : Prop :=
  match x with
  | .ok a => P a
  | .error .refused => True
  | .error .fault => False

variable {P : α → Prop} {Q : β → Prop}

theorem holds_iff {x : Checked α} :
    Holds x P ↔ x ≠ .error .fault ∧ ∀ a, x = .ok a → P a := by
  match x with
  | .ok a => simp [Holds]
  | .error .refused => simp [Holds]
  | .error .fault => simp [Holds]

theorem Holds.of_ok {x : Checked α} {a : α} (holds : Holds x P) (returns : x = .ok a) : P a :=
  (holds_iff.1 holds).2 a returns

theorem Holds.safe {x : Checked α} (holds : Holds x P) : x ≠ .error .fault :=
  (holds_iff.1 holds).1

@[simp] theorem holds_pure {a : α} : Holds (pure a) P ↔ P a := Iff.rfl

@[simp] theorem holds_ok {a : α} : Holds (.ok a) P ↔ P a := Iff.rfl

@[simp] theorem holds_refuse : Holds refuse P := trivial

theorem Holds.bind {x : Checked α} {f : α → Checked β} (first : Holds x P)
    (next : ∀ a, P a → Holds (f a) Q) : Holds (x >>= f) Q := by
  match x, first with
  | .ok a, first => exact next a first
  | .error .refused, _ => trivial

theorem Holds.mono {x : Checked α} {P' : α → Prop} (holds : Holds x P)
    (weaker : ∀ a, P a → P' a) : Holds x P' := by
  match x, holds with
  | .ok a, holds => exact weaker a holds
  | .error .refused, _ => trivial

/-- What a computation returns may be used with the fact that it returned it. -/
theorem Holds.returned {x : Checked α} (holds : Holds x P) :
    Holds x fun a => x = .ok a ∧ P a :=
  holds_iff.2 ⟨holds.safe, fun _ returns => ⟨returns, holds.of_ok returns⟩⟩

theorem Holds.ite {c : Prop} [Decidable c] {x y : Checked α} (yes : c → Holds x P)
    (no : ¬ c → Holds y P) : Holds (if c then x else y) P := by
  by_cases test : c
  · rw [if_pos test]
    exact yes test
  · rw [if_neg test]
    exact no test

theorem holds_index {buf : List α} {i : Nat} (inside : i < buf.length) :
    Holds (index buf i) fun a => buf[i]? = some a := by
  rw [index, List.getElem?_eq_getElem inside]
  rfl

theorem holds_setAt {buf : List α} {i : Nat} {a : α} (inside : i < buf.length) :
    Holds (setAt buf i a) fun out => out = buf.set i a := by
  rw [setAt, if_pos inside]
  rfl

/-- What each step of a loop keeps holds after it. -/
theorem Holds.foldlM {ι : Type} {step : α → ι → Checked α} {items : List ι} {a : α} (start : P a)
    (next : ∀ a i, i ∈ items → P a → Holds (step a i) P) : Holds (items.foldlM step a) P := by
  induction items generalizing a with
  | nil => exact start
  | cons i items rest =>
    rw [List.foldlM_cons]
    refine (next a i List.mem_cons_self start).bind fun b kept => ?_
    exact rest kept fun a i member => next a i (List.mem_cons_of_mem _ member)

theorem holds_sub {buf : List α} {lo hi : Nat} (ordered : lo ≤ hi) (inside : hi ≤ buf.length) :
    Holds (sub buf lo hi) fun part => part = (buf.drop lo).take (hi - lo) := by
  rw [sub, if_pos ⟨ordered, inside⟩]
  rfl

theorem holds_addIn {w a b : Nat} (fits : a + b < 2 ^ w) :
    Holds (addIn w a b) fun c => c = a + b := by
  rw [addIn, if_pos fits]
  rfl

theorem holds_mulIn {w a b : Nat} (fits : a * b < 2 ^ w) :
    Holds (mulIn w a b) fun c => c = a * b := by
  rw [mulIn, if_pos fits]
  rfl

theorem holds_subIn {a b : Nat} (ordered : b ≤ a) : Holds (subIn a b) fun c => c = a - b := by
  rw [subIn, if_pos ordered]
  rfl

theorem Holds.attempt {x : Checked α} (holds : Holds x P) :
    Holds (attempt x) fun a? => ∀ a, a? = some a → P a := by
  match x, holds with
  | .ok a, holds =>
    intro b same
    cases same
    exact holds
  | .error .refused, _ =>
    intro b same
    cases same

theorem holds_expect {a? : Option α} {a : α} (is : a? = some a) :
    Holds (expect a?) fun b => b = a := by
  rw [is]
  rfl

/-! ## Computations that never refuse -/

/-- `x` returns or faults. -/
def Answers (x : Checked α) : Prop := x ≠ .error .refused

theorem answers_pure {a : α} : Answers (pure a) := fun same => nomatch same

theorem answers_addIn {w a b : Nat} : Answers (addIn w a b) := by
  rw [addIn]
  split <;> exact fun same => nomatch same

theorem answers_sub {buf : List α} {lo hi : Nat} : Answers (sub buf lo hi) := by
  rw [sub]
  split <;> exact fun same => nomatch same

theorem answers_expect {a? : Option α} : Answers (expect a?) := by
  cases a? with
  | some a => exact fun same => nomatch same
  | none => exact fun same => nomatch same

theorem Answers.bind {x : Checked α} {f : α → Checked β} (first : Answers x)
    (next : ∀ a, Answers (f a)) : Answers (x >>= f) := by
  match x, first with
  | .ok a, _ => exact next a
  | .error .fault, _ => exact fun same => nomatch same
  | .error .refused, first => exact absurd rfl first

theorem Answers.foldlM {ι : Type} {step : α → ι → Checked α}
    (next : ∀ a i, Answers (step a i)) (items : List ι) (a : α) :
    Answers (items.foldlM step a) := by
  induction items generalizing a with
  | nil => exact answers_pure
  | cons i items rest =>
    rw [List.foldlM_cons]
    exact (next a i).bind rest

/-! ## Reading a result back -/

theorem bind_eq_ok {x : Checked α} {f : α → Checked β} {b : β} :
    (x >>= f) = .ok b ↔ ∃ a, x = .ok a ∧ f a = .ok b := by
  match x with
  | .ok a => exact ⟨fun runs => ⟨a, rfl, runs⟩, fun ⟨_, same, runs⟩ => by cases same; exact runs⟩
  | .error e => exact ⟨fun runs => (nomatch runs), fun ⟨_, same, _⟩ => (nomatch same)⟩

/-- A step that returned is taken. -/
theorem bind_of_ok {x : Checked α} {a : α} (returns : x = .ok a) (f : α → Checked β) :
    (x >>= f) = f a := by
  rw [returns]
  rfl

/-- The last turn of a loop that carries nothing. -/
theorem each_succ (f : Nat → Checked Unit) (n : Nat) :
    (List.range (n + 1)).foldlM (fun _ i => f i) () =
      ((List.range n).foldlM (fun _ i => f i) () >>= fun _ => f n) := by
  rw [List.range_succ, List.foldlM_append]
  match (List.range n).foldlM (fun _ i => f i) () with
  | .error stop => rfl
  | .ok () => exact bind_pure (f n)

/-- A loop that carries nothing returns when each of its turns does. -/
theorem each_eq_ok {f : Nat → Checked Unit} {n : Nat} :
    (List.range n).foldlM (fun _ i => f i) () = .ok () ↔ ∀ i, i < n → f i = .ok () := by
  induction n with
  | zero => exact ⟨fun _ i inside => absurd inside (Nat.not_lt_zero i), fun _ => rfl⟩
  | succ n rest =>
    rw [each_succ, bind_eq_ok]
    constructor
    · rintro ⟨_, before, last⟩ i inside
      rcases Nat.lt_succ_iff_lt_or_eq.mp inside with earlier | rfl
      · exact rest.mp before i earlier
      · exact last
    · intro all
      exact ⟨(), rest.mpr fun i inside => all i (Nat.lt_succ_of_lt inside),
        all n (Nat.lt_succ_self n)⟩

/-- A loop that collects what its turns return. -/
theorem mapM_of_each {ι : Type} {f : ι → Checked α} {g : ι → α} {items : List ι}
    (each : ∀ i ∈ items, f i = .ok (g i)) : items.mapM f = .ok (items.map g) := by
  induction items with
  | nil => rfl
  | cons i items rest =>
    rw [List.mapM_cons, bind_of_ok (each i List.mem_cons_self),
      bind_of_ok (rest fun j member => each j (List.mem_cons_of_mem i member))]
    rfl

/-- A loop that writes what its turns return to the places of a buffer in turn. -/
theorem foldlM_setAt {f : Nat → Checked α} {g : Nat → α} {n : Nat} {buf : List α}
    (each : ∀ i, i < n → f i = .ok (g i)) (room : n ≤ buf.length) :
    (List.range n).foldlM (fun buf i => do
      let a ← f i
      setAt buf i a) buf = .ok ((List.range n).map g ++ buf.drop n) := by
  induction n with
  | zero => rfl
  | succ n rest =>
    have size : ((List.range n).map g).length = n := by rw [List.length_map, List.length_range]
    rw [List.range_succ, List.foldlM_append,
      bind_of_ok (rest (fun i below => each i (Nat.lt_succ_of_lt below)) (Nat.le_of_succ_le room)),
      List.foldlM_cons, bind_of_ok (each n (Nat.lt_succ_self n)), setAt,
      if_pos (by rw [List.length_append, size, List.length_drop]; omega), pure_bind,
      List.foldlM_nil, List.set_append_right n (g n) (Nat.le_of_eq size), size, Nat.sub_self,
      List.drop_eq_getElem_cons room, List.set_cons_zero, List.map_append, List.append_assoc]
    rfl

theorem require_eq_ok {a? : Option α} {a : α} : require a? = .ok a ↔ a? = some a := by
  cases a? with
  | some b => exact ⟨fun same => congrArg some (Except.ok.inj same), fun same => by cases same; rfl⟩
  | none => exact ⟨fun same => (nomatch same), fun same => (nomatch same)⟩

theorem expect_eq_ok {a? : Option α} {a : α} : expect a? = .ok a ↔ a? = some a := by
  cases a? with
  | some b => exact ⟨fun same => congrArg some (Except.ok.inj same), fun same => by cases same; rfl⟩
  | none => exact ⟨fun same => (nomatch same), fun same => (nomatch same)⟩

theorem addIn_eq_ok {w a b c : Nat} : addIn w a b = .ok c ↔ a + b < 2 ^ w ∧ c = a + b := by
  rw [addIn]
  by_cases fits : a + b < 2 ^ w
  · rw [if_pos fits]
    exact ⟨fun same => ⟨fits, (Except.ok.inj same).symm⟩, fun ⟨_, same⟩ => by rw [same]; rfl⟩
  · rw [if_neg fits]
    exact ⟨fun same => (nomatch same), fun ⟨below, _⟩ => absurd below fits⟩

theorem index_eq_ok {buf : List α} {i : Nat} {a : α} :
    index buf i = .ok a ↔ buf[i]? = some a := by
  rw [index]
  cases buf[i]? with
  | some b => exact ⟨fun same => congrArg some (Except.ok.inj same), fun same => by cases same; rfl⟩
  | none => exact ⟨fun same => (nomatch same), fun same => (nomatch same)⟩

theorem sub_eq_ok {buf part : List α} {lo hi : Nat} :
    sub buf lo hi = .ok part ↔
      lo ≤ hi ∧ hi ≤ buf.length ∧ part = (buf.drop lo).take (hi - lo) := by
  rw [sub]
  by_cases inside : lo ≤ hi ∧ hi ≤ buf.length
  · rw [if_pos inside]
    exact ⟨fun same => ⟨inside.1, inside.2, (Except.ok.inj same).symm⟩,
      fun ⟨_, _, same⟩ => by rw [same]; rfl⟩
  · rw [if_neg inside]
    exact ⟨fun same => (nomatch same), fun ⟨ordered, fits, _⟩ => absurd ⟨ordered, fits⟩ inside⟩

/-- A buffer is filled from the front. -/
theorem copyTo_append (front rest src : List α) {lo hi : Nat} (start : front.length = lo)
    (stop : lo + src.length = hi) (room : src.length ≤ rest.length) :
    copyTo (front ++ rest) lo hi src = .ok (front ++ src ++ rest.drop src.length) := by
  subst start stop
  rw [copyTo, if_pos ⟨Nat.le_add_right _ _, by rw [List.length_append]; omega, by omega⟩,
    List.take_left, List.drop_append]
  rw [List.drop_eq_nil_of_le (Nat.le_add_right _ _), Nat.add_sub_cancel_left, List.nil_append]
  rfl

theorem setAt_append (front rest : List α) {i : Nat} (start : front.length = i)
    (room : 0 < rest.length) (a : α) :
    setAt (front ++ rest) i a = .ok (front ++ [a] ++ rest.drop 1) := by
  subst start
  obtain ⟨b, back, rfl⟩ := List.exists_cons_of_length_pos room
  rw [setAt, if_pos (by rw [List.length_append, List.length_cons]; omega),
    List.set_append_right _ _ (Nat.le_refl _), Nat.sub_self, List.set_cons_zero, List.append_assoc]
  rfl

theorem sub_append (front rest : List α) {n : Nat} (size : front.length = n) :
    sub (front ++ rest) 0 n = .ok front := by
  subst size
  rw [sub, if_pos ⟨Nat.zero_le _, by rw [List.length_append]; omega⟩, List.drop_zero, Nat.sub_zero,
    List.take_left]
  rfl

theorem attempt_eq_some {x : Checked α} {a : α} (found : attempt x = .ok (some a)) :
    x = .ok a := by
  match x, found with
  | .ok b, found =>
    cases found
    rfl

end Checked

end RustyPenguin
