import Mathlib.Algebra.Ring.Int.Defs
import Mathlib.Algebra.Ring.Nat
import RustyPenguin.Foundation.Segments

/-!
# Streams cut into segments

A sender cuts a stream into segments, each of which starts where the one before ends. Every one
of them is a part of the stream (`Consecutive.of`), and a receiver that hears them in order has
the whole of it (`Consecutive.foldl`).
-/

set_option autoImplicit false

namespace RustyPenguin

variable {α : Type}

/-- What a list of segments says together. -/
def joined (segs : List (Segment α)) : List α := segs.flatMap Segment.data

theorem joined_cons (seg : Segment α) (segs : List (Segment α)) :
    joined (seg :: segs) = seg.data ++ joined segs := rfl

theorem joined_append (a b : List (Segment α)) : joined (a ++ b) = joined a ++ joined b := by
  rw [joined, List.flatMap_append]
  rfl

/-- From the place `k` on, each segment starts where the one before ends, and none comes after the
end. -/
def Consecutive : Nat → List (Segment α) → Prop
  | _, [] => True
  | k, seg :: segs => seg.offset = k ∧ (seg.last = true → segs = []) ∧
      Consecutive (k + seg.data.length) segs

namespace Consecutive

theorem single (k : Nat) (data : List α) (last : Bool) : Consecutive k [⟨k, data, last⟩] :=
  ⟨rfl, fun _ => rfl, trivial⟩

theorem append {k : Nat} {a b : List (Segment α)} (first : Consecutive k a)
    (going : ∀ seg ∈ a, seg.last = false) (next : Consecutive (k + (joined a).length) b) :
    Consecutive k (a ++ b) := by
  induction a generalizing k with
  | nil => exact next
  | cons seg a ih =>
    obtain ⟨place, _, rest⟩ := first
    refine ⟨place, ?_, ih rest (fun other later => going other (List.mem_cons_of_mem _ later)) ?_⟩
    · intro last
      rw [going seg List.mem_cons_self] at last
      cases last
    · rw [joined_cons, List.length_append, ← Nat.add_assoc] at next
      exact next

/-- **Every segment is a part of the stream.** -/
theorem of {segs : List (Segment α)} : ∀ {front : List α}, Consecutive front.length segs →
    ∀ seg ∈ segs, seg.Of (front ++ joined segs) := by
  induction segs with
  | nil =>
    intro front _ seg none
    cases none
  | cons head segs ih =>
    intro front consecutive seg member
    obtain ⟨place, atEnd, rest⟩ := consecutive
    rcases List.mem_cons.mp member with rfl | later
    · constructor
      · rw [place, List.drop_left, joined_cons, List.take_left]
      · rw [place, joined_cons, List.length_append, List.length_append]
        omega
      · intro last
        rw [place, atEnd last, joined_cons, List.length_append, List.length_append]
        rfl
    · rw [← List.length_append] at rest
      have part := ih rest seg later
      rw [List.append_assoc, ← joined_cons] at part
      exact part

/-- **A receiver that hears the segments in order has the whole stream.** -/
theorem foldl {segs : List (Segment α)} : ∀ {r : Receiver α}, r.ended = false →
    Consecutive r.taken.length segs →
      segs.foldl Receiver.accept r = ⟨r.taken ++ joined segs, segs.any Segment.last⟩ := by
  induction segs with
  | nil =>
    intro r going _
    obtain ⟨taken, ended⟩ := r
    obtain rfl : ended = false := going
    rw [List.foldl_nil, joined, List.flatMap_nil, List.append_nil, List.any_nil]
  | cons seg segs ih =>
    intro r going consecutive
    obtain ⟨place, atEnd, rest⟩ := consecutive
    have next : r.next = r.taken.length := by
      rw [Receiver.next, going]
      rfl
    have accepted : r.accept seg = ⟨r.taken ++ seg.data, seg.last⟩ := by
      rw [Receiver.accept, if_pos (place.trans next.symm)]
    rw [List.foldl_cons, accepted, joined_cons, List.any_cons]
    cases last : seg.last with
    | true =>
      rw [atEnd last]
      show _ = Receiver.mk (r.taken ++ (seg.data ++ [])) true
      rw [List.append_nil]
      rfl
    | false =>
      rw [← List.length_append] at rest
      rw [ih rfl rest, List.append_assoc, Bool.false_or]

end Consecutive

end RustyPenguin
