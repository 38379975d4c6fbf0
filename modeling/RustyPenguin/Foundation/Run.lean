import RustyPenguin.Foundation.Buffer

/-!
# Runs of a partial machine

A machine is a partial function: an operation takes a state to an answer and the next
state, or faults. A `Run` is a sequence of operations none of which faulted, with the
answers they gave, newest first. Each operation of a run met the condition `C` in the
state it was called in; a run with no restriction has the condition that is always true.

`Run.invariant` is the rule for what holds in every state a run reaches, and
`Run.invariant_history` the one for what also speaks about the answers so far.
-/

set_option autoImplicit false

namespace RustyPenguin

variable {S O A : Type}

/-- The states reached from `s₀` by operations that met `C`, with what was answered. -/
inductive Run (step : S → O → Option (A × S)) (C : S → O → Prop) (s₀ : S) :
    List (O × A) → S → Prop where
  | start : Run step C s₀ [] s₀
  | next {history : List (O × A)} {s s' : S} {op : O} {a : A} (before : Run step C s₀ history s)
      (allowed : C s op) (done : step s op = some (a, s')) : Run step C s₀ ((op, a) :: history) s'

namespace Run

variable {step : S → O → Option (A × S)} {C C' : S → O → Prop} {s₀ s : S}
  {history : List (O × A)}

/-- What holds at the start and is kept by every answered operation holds after a run, whatever
it says about the answers. -/
theorem invariant_history {P : List (O × A) → S → Prop} (init : P [] s₀)
    (keeps : ∀ history s op a s', P history s → C s op → step s op = some (a, s') →
      P ((op, a) :: history) s') (run : Run step C s₀ history s) : P history s := by
  induction run with
  | start => exact init
  | next _ allowed done ih => exact keeps _ _ _ _ _ ih allowed done

/-- What holds at the start and is kept by every operation holds after a run. -/
theorem invariant {P : S → Prop} (init : P s₀)
    (keeps : ∀ s op a s', P s → C s op → step s op = some (a, s') → P s')
    (run : Run step C s₀ history s) : P s :=
  run.invariant_history (P := fun _ s => P s) init fun _ => keeps

theorem mono (weaker : ∀ s op, C s op → C' s op) (run : Run step C s₀ history s) :
    Run step C' s₀ history s := by
  induction run with
  | start => exact start
  | next _ allowed done ih => exact ih.next (weaker _ _ allowed) done

end Run

end RustyPenguin
