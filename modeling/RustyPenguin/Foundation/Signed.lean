import RustyPenguin.Foundation.Checked

/-!
# Signed machine words

Arithmetic in a signed word of `w` bits, on integers. An operation whose result the word
cannot hold faults, and so do a division by zero and the one quotient of two words that is
no word. Quotients are rounded towards zero and a remainder has the sign of its dividend.
-/

set_option autoImplicit false

namespace RustyPenguin.Checked

/-- `n` is a signed word of `w` bits. -/
def Word (w : Nat) (n : Int) : Prop := -2 ^ (w - 1) ≤ n ∧ n < 2 ^ (w - 1)

instance (w : Nat) (n : Int) : Decidable (Word w n) := inferInstanceAs (Decidable (_ ∧ _))

/-- The result of an operation, in a signed word of `w` bits. -/
def signedIn (w : Nat) (n : Int) : Checked Int := if Word w n then pure n else fault

/-- The quotient of two signed words. -/
def divIn (w : Nat) (a b : Int) : Checked Int := if b = 0 then fault else signedIn w (a.tdiv b)

/-- The remainder of two signed words. It faults where their quotient does. -/
def remIn (w : Nat) (a b : Int) : Checked Int := do
  let _ ← divIn w a b
  pure (a.tmod b)

theorem signedIn_of_word {w : Nat} {n : Int} (fits : Word w n) : signedIn w n = .ok n :=
  if_pos fits

theorem signedIn_of_not_word {w : Nat} {n : Int} (outside : ¬ Word w n) :
    signedIn w n = .error .fault :=
  if_neg outside

theorem signedIn_eq_ok {w : Nat} {n m : Int} : signedIn w n = .ok m ↔ Word w n ∧ m = n := by
  by_cases fits : Word w n
  · rw [signedIn_of_word fits]
    exact ⟨fun same => ⟨fits, (Except.ok.inj same).symm⟩, fun ⟨_, same⟩ => by rw [same]⟩
  · rw [signedIn_of_not_word fits]
    exact ⟨fun same => (nomatch same), fun ⟨inside, _⟩ => absurd inside fits⟩

theorem divIn_of_word {w : Nat} {a b : Int} (nonzero : b ≠ 0) (fits : Word w (a.tdiv b)) :
    divIn w a b = .ok (a.tdiv b) := by
  rw [divIn, if_neg nonzero, signedIn_of_word fits]

theorem remIn_of_word {w : Nat} {a b : Int} (nonzero : b ≠ 0) (fits : Word w (a.tdiv b)) :
    remIn w a b = .ok (a.tmod b) := by
  rw [remIn, divIn_of_word nonzero fits]
  rfl

end RustyPenguin.Checked
