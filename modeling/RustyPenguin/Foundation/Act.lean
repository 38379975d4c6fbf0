import Mathlib.Algebra.Ring.Int.Defs
import Mathlib.Algebra.Ring.Nat
import Mathlib.Logic.Relation

/-!
# Computations with a state and errors

An `Act` takes a state to a result, which is a value or an error, and the next state; an error
keeps the state it was raised in. A computation may also not come to an end.

Three rules follow a computation through its steps. `Keeps` says how the state after it relates
to the state before, whatever the result. `Follows` relates the runs of two computations on two
kinds of state: when the first ends, the second ends with the same result. `Ends` says that a
computation ends from every state that has a property, in a state that has it again or with
an error that is accounted for.
-/

set_option autoImplicit false

namespace RustyPenguin

/-- A computation on a state, with errors. -/
def Act (σ ε α : Type) : Type := σ → Option (Except ε α × σ)

namespace Act

variable {σ τ ε α β : Type}

/-- End with a value. -/
def ret (a : α) : Act σ ε α := fun s => some (.ok a, s)

/-- End with an error. -/
def fail (e : ε) : Act σ ε α := fun s => some (.error e, s)

/-- Come to no end. -/
def stuck : Act σ ε α := fun _ => none

/-- One computation, and another with its value. -/
def andThen (x : Act σ ε α) (f : α → Act σ ε β) : Act σ ε β := fun s =>
  match x s with
  | none => none
  | some (.ok a, s') => f a s'
  | some (.error e, s') => some (.error e, s')

instance : Monad (Act σ ε) where
  pure := ret
  bind := andThen

theorem pure_eq (a : α) : (pure a : Act σ ε α) = ret a := rfl

theorem bind_eq (x : Act σ ε α) (f : α → Act σ ε β) : (x >>= f) = andThen x f := rfl

theorem bind_of_ok {x : Act σ ε α} {f : α → Act σ ε β} {s m : σ} {a : α}
    (went : x s = some (.ok a, m)) : (x >>= f) s = f a m := by
  rw [bind_eq, andThen, went]

theorem bind_of_error {x : Act σ ε α} {f : α → Act σ ε β} {s m : σ} {e : ε}
    (failed : x s = some (.error e, m)) : (x >>= f) s = some (.error e, m) := by
  rw [bind_eq, andThen, failed]

theorem bind_eq_some {x : Act σ ε α} {f : α → Act σ ε β} {s s' : σ} {r : Except ε β} :
    (x >>= f) s = some (r, s') ↔
      (∃ e, x s = some (.error e, s') ∧ r = .error e) ∨
        ∃ a m, x s = some (.ok a, m) ∧ f a m = some (r, s') := by
  rw [bind_eq, andThen]
  cases first : x s with
  | none =>
    constructor
    · intro none
      cases none
    · rintro (⟨e, none, _⟩ | ⟨a, m, none, _⟩)
      · cases none
      · cases none
  | some pair =>
    obtain ⟨result, m⟩ := pair
    cases result with
    | ok a =>
      constructor
      · intro next
        exact .inr ⟨a, m, rfl, next⟩
      · rintro (⟨e, same, _⟩ | ⟨b, m', same, next⟩)
        · cases same
        · cases same
          exact next
    | error e =>
      constructor
      · intro same
        cases same
        exact .inl ⟨e, rfl, rfl⟩
      · rintro (⟨e', same, rfl⟩ | ⟨b, m', same, next⟩)
        · cases same
          rfl
        · cases same

/-! ## What a computation does to the state -/

/-- Whenever `x` ends, the state after it is related to the state before. -/
def Keeps (R : σ → σ → Prop) (x : Act σ ε α) : Prop :=
  ∀ s r s', x s = some (r, s') → R s s'

section Keeps

variable {R R' : σ → σ → Prop}

theorem Keeps.ret (refl : ∀ s, R s s) (a : α) : Keeps R (pure a : Act σ ε α) := by
  intro s r s' ends
  cases ends
  exact refl s

theorem Keeps.fail (refl : ∀ s, R s s) (e : ε) : Keeps R (fail e : Act σ ε α) := by
  intro s r s' ends
  cases ends
  exact refl s

theorem Keeps.stuck : Keeps R (stuck : Act σ ε α) := by
  intro s r s' ends
  cases ends

theorem Keeps.bind (trans : ∀ a b c, R a b → R b c → R a c) {x : Act σ ε α} {f : α → Act σ ε β}
    (first : Keeps R x) (next : ∀ a, Keeps R (f a)) : Keeps R (x >>= f) := by
  intro s r s' ends
  rcases bind_eq_some.1 ends with ⟨e, failed, _⟩ | ⟨a, m, went, rest⟩
  · exact first s _ s' failed
  · exact trans s m s' (first s _ m went) (next a m r s' rest)

theorem Keeps.mono (weaker : ∀ s s', R s s' → R' s s') {x : Act σ ε α} (keeps : Keeps R x) :
    Keeps R' x := by
  intro s r s' ends
  exact weaker s s' (keeps s r s' ends)

end Keeps

/-! ## Two computations side by side -/

/-- From related states, whenever `x` ends so does `y`, with the same result and in a related
state. -/
def Follows (R : σ → τ → Prop) (x : Act σ ε α) (y : Act τ ε α) : Prop :=
  ∀ s t r s', R s t → x s = some (r, s') → ∃ t', y t = some (r, t') ∧ R s' t'

section Follows

variable {R : σ → τ → Prop}

theorem Follows.ret (a : α) : Follows R (pure a : Act σ ε α) (pure a) := by
  intro s t r s' related ends
  cases ends
  exact ⟨t, rfl, related⟩

theorem Follows.fail (e : ε) : Follows R (fail e : Act σ ε α) (fail e) := by
  intro s t r s' related ends
  cases ends
  exact ⟨t, rfl, related⟩

theorem Follows.stuck {y : Act τ ε α} : Follows R (stuck : Act σ ε α) y := by
  intro s t r s' _ ends
  cases ends

theorem Follows.bind {x : Act σ ε α} {y : Act τ ε α} {f : α → Act σ ε β} {g : α → Act τ ε β}
    (first : Follows R x y) (next : ∀ a, Follows R (f a) (g a)) : Follows R (x >>= f) (y >>= g) := by
  intro s t r s' related ends
  rcases bind_eq_some.1 ends with ⟨e, failed, rfl⟩ | ⟨a, m, went, rest⟩
  · obtain ⟨t', same, related'⟩ := first s t _ s' related failed
    exact ⟨t', bind_eq_some.2 (.inl ⟨e, same, rfl⟩), related'⟩
  · obtain ⟨n, same, related'⟩ := first s t _ m related went
    obtain ⟨t', rest', related''⟩ := next a m n r s' related' rest
    exact ⟨t', bind_eq_some.2 (.inr ⟨a, n, same, rest'⟩), related''⟩

/-- As `Follows`, for the runs of `x` that end with a value or with an error that `held` accepts. -/
def FollowsOn (held : ε → Prop) (R : σ → τ → Prop) (x : Act σ ε α) (y : Act τ ε α) : Prop :=
  ∀ s t r s', R s t → x s = some (r, s') → (∀ e, r = .error e → held e) →
    ∃ t', y t = some (r, t') ∧ R s' t'

variable {held : ε → Prop}

theorem Follows.on {x : Act σ ε α} {y : Act τ ε α} (follows : Follows R x y) :
    FollowsOn held R x y := fun s t r s' related ends _ => follows s t r s' related ends

theorem FollowsOn.bind {x : Act σ ε α} {y : Act τ ε α} {f : α → Act σ ε β} {g : α → Act τ ε β}
    (first : FollowsOn held R x y) (next : ∀ a, FollowsOn held R (f a) (g a)) :
    FollowsOn held R (x >>= f) (y >>= g) := by
  intro s t r s' related ends accepted
  rcases bind_eq_some.1 ends with ⟨e, failed, rfl⟩ | ⟨a, m, went, rest⟩
  · obtain ⟨t', same, related'⟩ := first s t _ s' related failed fun e' same => by
      cases same
      exact accepted e rfl
    exact ⟨t', bind_eq_some.2 (.inl ⟨e, same, rfl⟩), related'⟩
  · obtain ⟨n, same, related'⟩ := first s t _ m related went fun e none => nomatch none
    obtain ⟨t', rest', related''⟩ := next a m n r s' related' rest accepted
    exact ⟨t', bind_eq_some.2 (.inr ⟨a, n, same, rest'⟩), related''⟩

end Follows

/-! ## Computations that end -/

/-- From the state `s` the computation ends, with a value in a state with `P` or with an error
and a state that `Q` accounts for. -/
def EndsAt (P : σ → Prop) (Q : ε → σ → Prop) (x : Act σ ε α) (s : σ) : Prop :=
  (∃ a s', x s = some (.ok a, s') ∧ P s') ∨ ∃ e s', x s = some (.error e, s') ∧ Q e s'

/-- From every state with `P` the computation ends, with a value in a state with `P` or with an
error and a state that `Q` accounts for. -/
def Ends (P : σ → Prop) (Q : ε → σ → Prop) (x : Act σ ε α) : Prop := ∀ s, P s → EndsAt P Q x s

section Ends

variable {P P' : σ → Prop} {Q : ε → σ → Prop}

theorem EndsAt.ret {s : σ} (holds : P s) (a : α) : EndsAt P Q (pure a : Act σ ε α) s :=
  .inl ⟨a, s, rfl, holds⟩

theorem EndsAt.bind {x : Act σ ε α} {f : α → Act σ ε β} {s : σ} (first : EndsAt P Q x s)
    (next : ∀ a m, x s = some (.ok a, m) → P m → EndsAt P' Q (f a) m) :
    EndsAt P' Q (x >>= f) s := by
  rcases first with ⟨a, m, went, holds⟩ | ⟨e, s', failed, accounted⟩
  · rcases next a m went holds with ⟨b, s', rest, holds'⟩ | ⟨e, s', rest, accounted⟩
    · exact .inl ⟨b, s', bind_eq_some.2 (.inr ⟨a, m, went, rest⟩), holds'⟩
    · exact .inr ⟨e, s', bind_eq_some.2 (.inr ⟨a, m, went, rest⟩), accounted⟩
  · exact .inr ⟨e, s', bind_eq_some.2 (.inl ⟨e, failed, rfl⟩), accounted⟩

theorem EndsAt.mono (weaker : ∀ s, P s → P' s) {x : Act σ ε α} {s : σ} (ends : EndsAt P Q x s) :
    EndsAt P' Q x s := by
  rcases ends with ⟨a, s', went, holds⟩ | failed
  · exact .inl ⟨a, s', went, weaker s' holds⟩
  · exact .inr failed

theorem Ends.ret (a : α) : Ends P Q (pure a : Act σ ε α) := fun _ holds => EndsAt.ret holds a

theorem Ends.bind {x : Act σ ε α} {f : α → Act σ ε β} (first : Ends P Q x)
    (next : ∀ a, Ends P Q (f a)) : Ends P Q (x >>= f) := fun s holds =>
  (first s holds).bind fun a m _ holds' => next a m holds'

end Ends

end Act

end RustyPenguin
