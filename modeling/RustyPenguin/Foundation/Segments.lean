import Mathlib.Data.List.Infix
import Mathlib.Data.Nat.ModEq

/-!
# Streams in segments

A stream travels in segments, which may arrive in any order, more than once or not at all. A
receiver that takes a segment only when it starts at the next place expected has taken a prefix
of the stream at any time, and has seen the end only when it has taken everything
(`Receiver.Sound`).

Where segments are numbered modulo `m`, a segment is known by its number among those less than
`m` places away from the next one (`number_eq_iff`). `Near` says that no other segment arrives.
-/

set_option autoImplicit false

namespace RustyPenguin

variable {α : Type}

/-- A part of a stream: where it starts, its elements, and whether the stream ends with it. -/
structure Segment (α : Type) where
  offset : Nat
  data : List α
  last : Bool

/-- The segment is a part of `stream`. -/
structure Segment.Of (stream : List α) (seg : Segment α) : Prop where
  part : seg.data = (stream.drop seg.offset).take seg.data.length
  inside : seg.offset + seg.data.length ≤ stream.length
  ends : seg.last = true → seg.offset + seg.data.length = stream.length

theorem Segment.of_iff {stream : List α} {seg : Segment α} :
    seg.Of stream ↔ seg.data = (stream.drop seg.offset).take seg.data.length ∧
      seg.offset + seg.data.length ≤ stream.length ∧
      (seg.last = true → seg.offset + seg.data.length = stream.length) :=
  ⟨fun part => ⟨part.part, part.inside, part.ends⟩, fun part => ⟨part.1, part.2.1, part.2.2⟩⟩

instance [DecidableEq α] (stream : List α) (seg : Segment α) : Decidable (seg.Of stream) :=
  decidable_of_iff' _ Segment.of_iff

/-- What was taken of a stream so far, and whether its end was seen. -/
structure Receiver (α : Type) where
  taken : List α
  ended : Bool

namespace Receiver

/-- Nothing taken. -/
def start : Receiver α where
  taken := []
  ended := false

/-- The place expected next; the end takes a place as well. -/
def next (r : Receiver α) : Nat := r.taken.length + if r.ended then 1 else 0

/-- A segment is taken when it starts at the next place. -/
def accept (r : Receiver α) (seg : Segment α) : Receiver α :=
  if seg.offset = r.next then ⟨r.taken ++ seg.data, seg.last⟩ else r

/-- What may arrive at a time. -/
def hear (r : Receiver α) (seg? : Option (Segment α)) : Receiver α :=
  match seg? with
  | some seg => r.accept seg
  | none => r

/-- A prefix of `stream` was taken, and all of it if the end was seen. -/
structure Sound (stream : List α) (r : Receiver α) : Prop where
  front : r.taken = stream.take r.taken.length
  whole : r.ended = true → r.taken = stream

variable {stream : List α} {r : Receiver α}

theorem sound_start : (start : Receiver α).Sound stream where
  front := rfl
  whole ended := (nomatch ended)

theorem Sound.isPrefix (sound : r.Sound stream) : r.taken <+: stream := by
  rw [sound.front]
  exact List.take_prefix _ _

theorem Sound.accept (sound : r.Sound stream) {seg : Segment α} (part : seg.Of stream) :
    (r.accept seg).Sound stream := by
  rw [Receiver.accept]
  by_cases expected : seg.offset = r.next
  · rw [if_pos expected]
    cases ended : r.ended with
    | true =>
      have all := sound.whole ended
      have inside := part.inside
      rw [expected, next, ended, all, if_pos rfl] at inside
      omega
    | false =>
      have place : seg.offset = r.taken.length := by
        rw [expected, next, ended]
        rfl
      have taken : r.taken ++ seg.data = stream.take (r.taken.length + seg.data.length) := by
        rw [List.take_add, ← sound.front, ← place, ← part.part]
      constructor
      · rw [List.length_append]
        exact taken
      · intro last
        show r.taken ++ seg.data = stream
        rw [taken, ← place, part.ends last, List.take_length]
  · rw [if_neg expected]
    exact sound

theorem Sound.hear (sound : r.Sound stream) {seg? : Option (Segment α)}
    (part : ∀ seg ∈ seg?, seg.Of stream) : (r.hear seg?).Sound stream := by
  cases seg? with
  | none => exact sound
  | some seg => exact sound.accept (part seg rfl)

/-- **A receiver has a prefix of the stream** whatever arrives of it. -/
theorem Sound.foldl (sound : r.Sound stream) {arrivals : List (Option (Segment α))}
    (parts : ∀ seg, some seg ∈ arrivals → seg.Of stream) :
    (arrivals.foldl Receiver.hear r).Sound stream := by
  induction arrivals generalizing r with
  | nil => exact sound
  | cons seg? arrivals ih =>
    refine ih (sound.hear ?_) fun seg later => parts seg (List.mem_cons_of_mem _ later)
    intro seg here
    exact parts seg (here ▸ List.mem_cons_self)

/-- After the end nothing is taken. -/
theorem accept_of_ended (sound : r.Sound stream) (ended : r.ended = true) {seg : Segment α}
    (part : seg.Of stream) : r.accept seg = r := by
  refine if_neg ?_
  intro expected
  have inside := part.inside
  rw [expected, next, ended, sound.whole ended, if_pos rfl] at inside
  omega

/-- A segment with nothing in it changes nothing. -/
theorem accept_nothing (going : r.ended = false) {seg : Segment α} (none : seg.data = [])
    (notLast : seg.last = false) : r.accept seg = r := by
  obtain ⟨taken, ended⟩ := r
  obtain rfl : ended = false := going
  rw [accept, none, notLast, List.append_nil, ite_self]

/-! ## Numbers modulo `m` -/

/-- Less than `m` places away from the next one. -/
def Within (m : Nat) (r : Receiver α) (seg : Segment α) : Prop :=
  seg.offset < r.next + m ∧ r.next < seg.offset + m

/-- Among the places less than `m` away, only the next one has its number. -/
theorem number_eq_iff {m : Nat} {seg : Segment α} (within : r.Within m seg) :
    seg.offset ≡ r.next [MOD m] ↔ seg.offset = r.next := by
  constructor
  · intro same
    obtain ⟨below, above⟩ := within
    rcases Nat.le_total seg.offset r.next with le | le
    · have gap := (Nat.modEq_iff_dvd' le).mp same
      have none := Nat.eq_zero_of_dvd_of_lt gap (by omega)
      omega
    · have gap := (Nat.modEq_iff_dvd' le).mp same.symm
      have none := Nat.eq_zero_of_dvd_of_lt gap (by omega)
      omega
  · intro same
    rw [same]

/-- Every segment arrives less than `m` places away from the one expected then. -/
def Near (m : Nat) : Receiver α → List (Option (Segment α)) → Prop
  | _, [] => True
  | r, none :: arrivals => Near m r arrivals
  | r, some seg :: arrivals => r.Within m seg ∧ Near m (r.accept seg) arrivals

instance (m : Nat) (r : Receiver α) (seg : Segment α) : Decidable (r.Within m seg) :=
  inferInstanceAs (Decidable (_ ∧ _))

instance decidableNear (m : Nat) : ∀ (r : Receiver α) (arrivals : List (Option (Segment α))),
    Decidable (Near m r arrivals)
  | _, [] => inferInstanceAs (Decidable True)
  | r, none :: arrivals => decidableNear m r arrivals
  | r, some seg :: arrivals =>
    have := decidableNear m (r.accept seg) arrivals
    inferInstanceAs (Decidable (_ ∧ _))

/-- In a stream of less than `m` elements every segment is near. -/
theorem near_of_short {m : Nat} (sound : r.Sound stream) (short : stream.length + 1 < m)
    {arrivals : List (Option (Segment α))} (parts : ∀ seg, some seg ∈ arrivals → seg.Of stream) :
    Near m r arrivals := by
  induction arrivals generalizing r with
  | nil => trivial
  | cons seg? arrivals ih =>
    have later : ∀ seg, some seg ∈ arrivals → seg.Of stream := fun seg later =>
      parts seg (List.mem_cons_of_mem _ later)
    cases seg? with
    | none => exact ih sound later
    | some seg =>
      have part := parts seg List.mem_cons_self
      refine ⟨?_, ih (sound.accept part) later⟩
      have taken := sound.isPrefix.length_le
      have inside := part.inside
      have next : r.next ≤ r.taken.length + 1 := by
        rw [Receiver.next]
        split <;> omega
      constructor <;> omega

end Receiver

end RustyPenguin
