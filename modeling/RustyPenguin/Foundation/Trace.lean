import Mathlib.Algebra.Ring.Int.Defs
import Mathlib.Algebra.Ring.Nat
import Mathlib.Data.List.Infix

/-!
# Traces of a machine

A machine that takes an event in every state, and what holds after every front of a list of events.

When a property is kept by exactly the events that are allowed, it holds all along a trace exactly
when every event of the trace is allowed where it happens (`always_iff`). An invariant that every
event keeps may be used on the way.
-/

set_option autoImplicit false

namespace RustyPenguin.Trace

variable {S E : Type}

/-- The state after a list of events. -/
def after (step : S → E → S) (s : S) (events : List E) : S := events.foldl step s

@[simp] theorem after_nil (step : S → E → S) (s : S) : after step s [] = s := rfl

theorem after_concat (step : S → E → S) (s : S) (events : List E) (e : E) :
    after step s (events ++ [e]) = step (after step s events) e := by
  rw [after, List.foldl_append]
  rfl

/-- `P` holds after every front of the events. -/
def Always (step : S → E → S) (s : S) (P : S → Prop) (events : List E) : Prop :=
  ∀ front, front <+: events → P (after step s front)

/-- `A` holds of every event and the state it happens in. -/
def Each (step : S → E → S) (s : S) (A : S → E → Prop) (events : List E) : Prop :=
  ∀ front e, front ++ [e] <+: events → A (after step s front) e

section Rules

variable {step : S → E → S} {s : S} {P I : S → Prop} {A : S → E → Prop} {events : List E} {e : E}

theorem always_nil : Always step s P [] ↔ P s := by
  constructor
  · intro always
    exact always [] List.prefix_rfl
  · intro start front fits
    rw [List.prefix_nil.mp fits]
    exact start

theorem always_concat :
    Always step s P (events ++ [e]) ↔
      Always step s P events ∧ P (step (after step s events) e) := by
  constructor
  · intro always
    refine ⟨?_, ?_⟩
    · intro front fits
      exact always front (fits.trans (List.prefix_append events [e]))
    · rw [← after_concat step]
      exact always _ List.prefix_rfl
  · rintro ⟨always, last⟩ front fits
    rcases List.prefix_concat_iff.mp fits with rfl | earlier
    · rw [after_concat]
      exact last
    · exact always front earlier

theorem each_nil : Each step s A [] := by
  intro front e fits
  have none := List.prefix_nil.mp fits
  simp at none

theorem each_concat :
    Each step s A (events ++ [e]) ↔ Each step s A events ∧ A (after step s events) e := by
  constructor
  · intro each
    refine ⟨?_, ?_⟩
    · intro front e' fits
      exact each front e' (fits.trans (List.prefix_append events [e]))
    · exact each events e List.prefix_rfl
  · rintro ⟨each, last⟩ front e' fits
    rcases List.prefix_concat_iff.mp fits with same | earlier
    · obtain ⟨rfl, one⟩ := List.append_inj' same rfl
      cases one
      exact last
    · exact each front e' earlier

/-- The first event, and the rest from the state after it. -/
theorem each_cons :
    Each step s A (e :: events) ↔ A s e ∧ Each step (step s e) A events := by
  constructor
  · intro each
    refine ⟨each [] e (List.prefix_append [e] events), ?_⟩
    intro front e' fits
    exact each (e :: front) e' ((List.prefix_cons_inj e).mpr fits)
  · rintro ⟨first, rest⟩ front e' fits
    rcases front with _ | ⟨head, front⟩
    · obtain ⟨rfl, -⟩ := List.cons_prefix_cons.mp fits
      exact first
    · obtain ⟨rfl, inside⟩ := List.cons_prefix_cons.mp fits
      exact rest front e' inside

/-- Whether all events are allowed is found by running them. -/
instance decidableEach [∀ s e, Decidable (A s e)] :
    (events : List E) → (s : S) → Decidable (Each step s A events)
  | [], _ => isTrue each_nil
  | e :: events, s =>
    have := decidableEach events (step s e)
    decidable_of_iff (A s e ∧ Each step (step s e) A events) (Iff.symm each_cons)

/-- What every event keeps holds after every trace. -/
theorem invariant (start : I s) (keeps : ∀ s e, I s → I (step s e)) (events : List E) :
    I (after step s events) := by
  induction events using List.reverseRecOn with
  | nil => exact start
  | append_singleton events e ih =>
    rw [after_concat]
    exact keeps _ e ih

/-- What holds at the start and is kept by the allowed events holds all along a trace of these. -/
theorem always_of_each (start : I s) (keeps : ∀ s e, I s → A s e → I (step s e))
    (implies : ∀ s, I s → P s) (events : List E) (given : Each step s A events) :
    Always step s P events := by
  have all : I (after step s events) ∧ Always step s P events := by
    induction events using List.reverseRecOn with
    | nil => exact ⟨start, always_nil.2 (implies s start)⟩
    | append_singleton events e ih =>
      obtain ⟨before, last⟩ := each_concat.1 given
      obtain ⟨inv, always⟩ := ih before
      have next := keeps _ e inv last
      rw [after_concat, always_concat]
      exact ⟨next, always, implies _ next⟩
  exact all.2

/-- **Always exactly when allowed**, where an assumption is made of every event. -/
theorem always_iff_of_each {B : S → E → Prop} (start : I s) (holds : P s)
    (keeps : ∀ s e, I s → B s e → I (step s e))
    (exact : ∀ s e, I s → P s → B s e → (P (step s e) ↔ A s e)) (events : List E)
    (given : Each step s B events) : Always step s P events ↔ Each step s A events := by
  have all : I (after step s events) ∧ (Always step s P events ↔ Each step s A events) := by
    induction events using List.reverseRecOn with
    | nil => exact ⟨start, fun _ => each_nil, fun _ => always_nil.2 holds⟩
    | append_singleton events e ih =>
      obtain ⟨before, last⟩ := each_concat.1 given
      obtain ⟨inv, iff⟩ := ih before
      rw [after_concat]
      refine ⟨keeps _ e inv last, ?_⟩
      rw [always_concat, each_concat, iff]
      refine and_congr_right ?_
      intro each
      exact exact _ e inv (iff.mpr each events List.prefix_rfl) last
  exact all.2

/-- **Always exactly when allowed**: what is kept by exactly the allowed events holds all along a
trace exactly when each event is allowed. -/
theorem always_iff (start : I s) (keeps : ∀ s e, I s → I (step s e)) (holds : P s)
    (exact : ∀ s e, I s → P s → (P (step s e) ↔ A s e)) (events : List E) :
    Always step s P events ↔ Each step s A events :=
  always_iff_of_each (B := fun _ _ => True) start holds (fun s e inv _ => keeps s e inv)
    (fun s e inv now _ => exact s e inv now) events fun _ _ _ => trivial

/-- **Two conditions on events agree along a trace** when they agree in every state that events
meeting one of them lead to. -/
theorem each_congr {B : S → E → Prop} (start : I s) (keeps : ∀ s e, I s → B s e → I (step s e))
    (same : ∀ s e, I s → (A s e ↔ B s e)) (events : List E) :
    Each step s A events ↔ Each step s B events := by
  induction events generalizing s with
  | nil => exact iff_of_true each_nil each_nil
  | cons e events ih =>
    rw [each_cons, each_cons, same s e start]
    exact and_congr_right fun allowed => ih (keeps s e start allowed)

end Rules

end RustyPenguin.Trace
