import Mathlib.Algebra.BigOperators.Group.Finset.Piecewise
import Mathlib.Algebra.BigOperators.Group.List.Basic
import Mathlib.Algebra.BigOperators.Ring.Finset
import Mathlib.Order.Interval.Finset.Nat

/-!
# Extents

An extent is a run of consecutive units. A list of extents *tiles* a range when every unit of
the range lies in exactly one of them and no other unit in any, counted by `cover`; it is
*spaced* when its extents are in strictly ascending order and no two touch.

Two operations on a spaced list of free extents. `carve` takes a piece out of the first
extent that has room for it at a place of the caller's choice, and leaves what was before and
behind it. `restore` puts a piece back and joins it with the extents it touches. Both account
for every unit (`cover_carve`, `cover_restore`) and keep the list spaced (`Spaced.carve`,
`Spaced.restore`).
-/

set_option autoImplicit false

namespace RustyPenguin

/-- `len` units from `start` on. -/
structure Extent where
  start : Nat
  len : Nat
  deriving DecidableEq, Repr

namespace Extent

/-- The first unit behind an extent. -/
def stop (e : Extent) : Nat := e.start + e.len

/-- One if an extent has the unit, and zero if not. -/
def count (e : Extent) (x : Nat) : Nat := if e.start ≤ x ∧ x < e.stop then 1 else 0

theorem count_inside {s n x : Nat} (low : s ≤ x) (high : x < s + n) :
    (⟨s, n⟩ : Extent).count x = 1 := if_pos ⟨low, high⟩

theorem count_outside {s n x : Nat} (out : x < s ∨ s + n ≤ x) : (⟨s, n⟩ : Extent).count x = 0 := by
  refine if_neg fun ⟨low, high⟩ => ?_
  rcases out with below | above
  · exact Nat.not_lt.mpr low below
  · exact Nat.not_lt.mpr above high

theorem count_empty (s x : Nat) : (⟨s, 0⟩ : Extent).count x = 0 :=
  count_outside (by omega)

/-- An extent counts as its two parts. -/
theorem count_split (s m n x : Nat) :
    (⟨s, m + n⟩ : Extent).count x = (⟨s, m⟩ : Extent).count x + (⟨s + m, n⟩ : Extent).count x := by
  by_cases below : x < s
  · rw [count_outside (.inl below), count_outside (.inl below), count_outside (by omega)]
  by_cases first : x < s + m
  · rw [count_inside (by omega) (by omega), count_inside (by omega) first,
      count_outside (.inl first)]
  by_cases second : x < s + m + n
  · rw [count_inside (by omega) (by omega), count_outside (by omega),
      count_inside (by omega) second]
  · rw [count_outside (by omega), count_outside (by omega), count_outside (by omega)]

/-- An extent and the one right behind it count as one. -/
theorem count_join {a b : Extent} (touch : a.stop = b.start) (x : Nat) :
    (⟨a.start, a.len + b.len⟩ : Extent).count x = a.count x + b.count x := by
  have behind : a.start + a.len = b.start := touch
  rw [count_split, behind]

/-- How many extents of a list have the unit. -/
def cover (es : List Extent) (x : Nat) : Nat := (es.map (·.count x)).sum

@[simp] theorem cover_nil (x : Nat) : cover [] x = 0 := rfl

@[simp] theorem cover_cons (e : Extent) (es : List Extent) (x : Nat) :
    cover (e :: es) x = e.count x + cover es x := by
  simp [cover]

@[simp] theorem cover_append (es fs : List Extent) (x : Nat) :
    cover (es ++ fs) x = cover es x + cover fs x := by
  simp [cover]

theorem count_le_cover {e : Extent} {es : List Extent} (isMember : e ∈ es) (x : Nat) :
    e.count x ≤ cover es x := by
  induction es with
  | nil => cases isMember
  | cons f es ih =>
    rw [cover_cons]
    cases isMember with
    | head => exact Nat.le_add_right _ _
    | tail _ later => exact Nat.le_trans (ih later) (Nat.le_add_left _ _)

theorem cover_perm {es fs : List Extent} (same : es.Perm fs) (x : Nat) :
    cover es x = cover fs x :=
  (same.map _).sum_eq

/-- Every unit from `lo` to `hi` lies in exactly one extent, and no other unit in any. -/
def Tiles (es : List Extent) (lo hi : Nat) : Prop :=
  ∀ x, cover es x = if lo ≤ x ∧ x < hi then 1 else 0

/-- In strictly ascending order, and no two touch. -/
def Spaced (es : List Extent) : Prop := es.Pairwise fun a b => a.stop < b.start

/-- Extents that are apart, not empty and inside a range are no more than it has units. -/
theorem Spaced.length_le {es : List Extent} {lo hi : Nat} (spaced : Spaced es)
    (within : ∀ e ∈ es, lo ≤ e.start ∧ e.stop ≤ hi ∧ 0 < e.len) : es.length ≤ hi - lo := by
  induction es generalizing lo with
  | nil => exact Nat.zero_le _
  | cons e es ih =>
    obtain ⟨behind, rest⟩ := List.pairwise_cons.mp spaced
    obtain ⟨low, high, positive⟩ := within e List.mem_cons_self
    have inside : ∀ c ∈ es, e.stop ≤ c.start ∧ c.stop ≤ hi ∧ 0 < c.len := fun c later =>
      ⟨Nat.le_of_lt (behind c later), (within c (List.mem_cons_of_mem _ later)).2⟩
    have fewer := ih rest inside
    rw [List.length_cons]
    simp only [stop] at *
    omega

/-! ## Taking a piece out -/

/-- An extent, unless it is empty. -/
def piece (s n : Nat) : List Extent := if n = 0 then [] else [⟨s, n⟩]

theorem cover_piece (s n x : Nat) : cover (piece s n) x = (⟨s, n⟩ : Extent).count x := by
  rw [piece]
  split
  · rename_i empty
    rw [empty, count_empty, cover_nil]
  · rw [cover_cons, cover_nil, Nat.add_zero]

/-- What is left of an extent when `need` units at `p` are taken out. -/
def gaps (b : Extent) (p need : Nat) : List Extent :=
  piece b.start (p - b.start) ++ piece (p + need) (b.stop - (p + need))

/-- Take `need` units, at the place `at_` says, out of the first extent with room for them. -/
def carve (place : Nat → Nat) (need : Nat) : List Extent → Option (Nat × List Extent)
  | [] => none
  | b :: es =>
    if place b.start + need ≤ b.stop then
      some (place b.start, gaps b (place b.start) need ++ es)
    else (carve place need es).map fun (p, rest) => (p, b :: rest)

theorem cover_gaps {b : Extent} {p need : Nat} (inside : b.start ≤ p) (fits : p + need ≤ b.stop)
    (x : Nat) : b.count x = cover (gaps b p need) x + (⟨p, need⟩ : Extent).count x := by
  obtain ⟨s, n⟩ := b
  simp only [stop] at inside fits
  have parts : n = (p - s) + (need + (s + n - (p + need))) := by omega
  have first := count_split s (p - s) (need + (s + n - (p + need))) x
  have second := count_split (s + (p - s)) need (s + n - (p + need)) x
  have start : s + (p - s) = p := by omega
  rw [← parts] at first
  rw [start] at first second
  rw [gaps, cover_append, cover_piece, cover_piece, first, second]
  simp only [stop]
  omega

/-- What a carved list says. -/
theorem carve_some {place : Nat → Nat} {need : Nat} {es es' : List Extent} {p : Nat}
    (carved : carve place need es = some (p, es')) :
    ∃ front b back, es = front ++ b :: back ∧ p = place b.start ∧ p + need ≤ b.stop ∧
      es' = front ++ (gaps b p need ++ back) ∧ ∀ a ∈ front, ¬ place a.start + need ≤ a.stop := by
  induction es generalizing es' with
  | nil => cases carved
  | cons b es ih =>
    rw [carve] at carved
    split at carved
    · rename_i fits
      cases carved
      exact ⟨[], b, es, rfl, rfl, fits, rfl, fun _ none => nomatch none⟩
    · rename_i full
      obtain ⟨⟨p', rest⟩, later, same⟩ := Option.map_eq_some_iff.mp carved
      cases same
      obtain ⟨front, c, back, rfl, at_, fits, rfl, skipped⟩ := ih later
      refine ⟨b :: front, c, back, rfl, at_, fits, rfl, fun a isMember => ?_⟩
      cases isMember with
      | head => exact full
      | tail _ later => exact skipped a later

/-- Nothing is carved exactly when no extent has room. -/
theorem carve_eq_none {place : Nat → Nat} {need : Nat} {es : List Extent} :
    carve place need es = none ↔ ∀ b ∈ es, ¬place b.start + need ≤ b.stop := by
  induction es with
  | nil => exact ⟨fun _ b none => absurd none List.not_mem_nil, fun _ => rfl⟩
  | cons b es ih =>
    rw [carve, List.forall_mem_cons, ← ih]
    split
    · rename_i fits
      exact ⟨nofun, fun full => absurd fits full.1⟩
    · rename_i full
      rw [Option.map_eq_none_iff]
      exact ⟨fun none => ⟨full, none⟩, fun both => both.2⟩

theorem cover_carve {place : Nat → Nat} (above : ∀ s, s ≤ place s) {need : Nat}
    {es es' : List Extent} {p : Nat} (carved : carve place need es = some (p, es')) (x : Nat) :
    cover es x = cover es' x + (⟨p, need⟩ : Extent).count x := by
  obtain ⟨front, b, back, rfl, at_, fits, rfl, _⟩ := carve_some carved
  have inside : b.start ≤ p := at_ ▸ above b.start
  have taken := cover_gaps inside fits x
  simp only [cover_append, cover_cons]
  omega

theorem gaps_within {b e : Extent} {p need : Nat} (fits : p + need ≤ b.stop)
    (inside : b.start ≤ p) (isMember : e ∈ gaps b p need) :
    b.start ≤ e.start ∧ e.stop ≤ b.stop ∧ 0 < e.len := by
  rw [gaps, piece, piece] at isMember
  simp only [stop] at fits ⊢
  rcases List.mem_append.mp isMember with before | behind
  · split at before
    · cases before
    · rw [List.mem_singleton] at before
      rw [before]
      simp only
      omega
  · split at behind
    · cases behind
    · rw [List.mem_singleton] at behind
      rw [behind]
      simp only [stop] at *
      omega

theorem Spaced.gaps {b : Extent} {p need : Nat} (positive : 0 < need) (inside : b.start ≤ p) :
    Spaced (gaps b p need) := by
  rw [Extent.gaps, piece, piece, Spaced]
  split
  · split
    · exact List.Pairwise.nil
    · exact List.pairwise_singleton _ _
  · split
    · exact List.pairwise_singleton _ _
    · refine List.pairwise_pair.mpr ?_
      simp only [stop]
      omega

theorem Spaced.carve {place : Nat → Nat} (above : ∀ s, s ≤ place s) {need : Nat}
    (positive : 0 < need) {es es' : List Extent} {p : Nat} (spaced : Spaced es)
    (carved : carve place need es = some (p, es')) : Spaced es' := by
  obtain ⟨front, b, back, rfl, at_, fits, rfl, _⟩ := carve_some carved
  have inside : b.start ≤ p := at_ ▸ above b.start
  obtain ⟨frontSpaced, restSpaced, apart⟩ := List.pairwise_append.mp spaced
  obtain ⟨behind, backSpaced⟩ := List.pairwise_cons.mp restSpaced
  refine List.pairwise_append.mpr ⟨frontSpaced, List.pairwise_append.mpr
    ⟨Spaced.gaps positive inside, backSpaced, ?_⟩, ?_⟩
  · intro a isGap c isBack
    have within := gaps_within fits inside isGap
    have later := behind c isBack
    omega
  · intro a isFront c isRest
    rcases List.mem_append.mp isRest with isGap | isBack
    · have within := gaps_within fits inside isGap
      have before := apart a isFront b List.mem_cons_self
      omega
    · exact apart a isFront c (List.mem_cons_of_mem _ isBack)

/-! ## Putting a piece back -/

/-- Put `e` in front, joined with the first extent if they touch. -/
def absorb (e : Extent) : List Extent → List Extent
  | [] => [e]
  | b :: es => if e.stop = b.start then ⟨e.start, e.len + b.len⟩ :: es else e :: b :: es

/-- Put `e` back where it belongs, joined with the extents it touches. -/
def restore (e : Extent) : List Extent → List Extent
  | [] => [e]
  | b :: es =>
    if b.start < e.start then
      if b.stop = e.start then absorb ⟨b.start, b.len + e.len⟩ es else b :: restore e es
    else absorb e (b :: es)

theorem restore_cons (e b : Extent) (es : List Extent) : restore e (b :: es) =
    if b.start < e.start then
      if b.stop = e.start then absorb ⟨b.start, b.len + e.len⟩ es else b :: restore e es
    else absorb e (b :: es) := rfl

theorem cover_absorb (e : Extent) (es : List Extent) (x : Nat) :
    cover (absorb e es) x = e.count x + cover es x := by
  cases es with
  | nil => rfl
  | cons b es =>
    rw [absorb]
    split
    · rename_i touch
      rw [cover_cons, cover_cons, count_join touch, Nat.add_assoc]
    · rw [cover_cons]

theorem cover_restore (e : Extent) (es : List Extent) (x : Nat) :
    cover (restore e es) x = e.count x + cover es x := by
  induction es with
  | nil => rfl
  | cons b es ih =>
    rw [restore_cons]
    split
    · split
      · rename_i touch
        rw [cover_absorb, cover_cons, count_join touch]
        omega
      · rw [cover_cons, cover_cons, ih]
        omega
    · exact cover_absorb e (b :: es) x

/-- Extents before the place of `e` that do not touch it stay as they are. -/
theorem restore_append {e : Extent} {front : List Extent}
    (before : ∀ a ∈ front, a.start < e.start ∧ a.stop ≠ e.start) (back : List Extent) :
    restore e (front ++ back) = front ++ restore e back := by
  induction front with
  | nil => rfl
  | cons a front ih =>
    obtain ⟨below, apart⟩ := before a List.mem_cons_self
    rw [List.cons_append, restore_cons, if_pos below, if_neg apart,
      ih fun c later => before c (List.mem_cons_of_mem _ later), List.cons_append]

theorem restore_of_le {e : Extent} {es : List Extent} (after : ∀ b ∈ es, e.start ≤ b.start) :
    restore e es = absorb e es := by
  cases es with
  | nil => rfl
  | cons b es => exact if_neg (Nat.not_lt.mpr (after b List.mem_cons_self))

theorem Spaced.absorb {e : Extent} {es : List Extent} (spaced : Spaced es)
    (before : ∀ b ∈ es, e.stop ≤ b.start) : Spaced (absorb e es) := by
  cases es with
  | nil => exact List.pairwise_singleton _ _
  | cons b es =>
    obtain ⟨behind, rest⟩ := List.pairwise_cons.mp spaced
    rw [Extent.absorb]
    split
    · rename_i touch
      refine List.pairwise_cons.mpr ⟨fun c isMember => ?_, rest⟩
      have later := behind c isMember
      simp only [stop] at touch later ⊢
      omega
    · rename_i apart
      refine List.pairwise_cons.mpr ⟨fun c isMember => ?_, spaced⟩
      have first := before b List.mem_cons_self
      cases isMember with
      | head => omega
      | tail _ later =>
        have further := behind c later
        simp only [stop] at *
        omega

theorem start_of_mem_absorb {e c : Extent} {es : List Extent} (isMember : c ∈ absorb e es) :
    c.start = e.start ∨ c ∈ es := by
  cases es with
  | nil =>
    rw [absorb, List.mem_singleton] at isMember
    exact .inl (isMember ▸ rfl)
  | cons b es =>
    rw [absorb] at isMember
    split at isMember
    · cases isMember with
      | head => exact .inl rfl
      | tail _ later => exact .inr (List.mem_cons_of_mem _ later)
    · cases isMember with
      | head => exact .inl rfl
      | tail _ later => exact .inr later

theorem start_of_mem_restore {e c : Extent} {es : List Extent} (isMember : c ∈ restore e es) :
    c.start = e.start ∨ ∃ b ∈ es, c.start = b.start := by
  induction es with
  | nil =>
    rw [restore, List.mem_singleton] at isMember
    exact .inl (isMember ▸ rfl)
  | cons b es ih =>
    rw [restore_cons] at isMember
    split at isMember
    · split at isMember
      · rcases start_of_mem_absorb isMember with first | later
        · exact .inr ⟨b, List.mem_cons_self, first⟩
        · exact .inr ⟨c, List.mem_cons_of_mem _ later, rfl⟩
      · cases isMember with
        | head => exact .inr ⟨_, List.mem_cons_self, rfl⟩
        | tail _ later =>
          rcases ih later with same | ⟨d, inRest, same⟩
          · exact .inl same
          · exact .inr ⟨d, List.mem_cons_of_mem _ inRest, same⟩
    · rcases start_of_mem_absorb isMember with first | later
      · exact .inl first
      · exact .inr ⟨c, later, rfl⟩

/-- Two extents with no unit in common, one before the other. -/
def Apart (a b : Extent) : Prop := a.stop ≤ b.start ∨ b.stop ≤ a.start

theorem Spaced.restore {e : Extent} (positive : 0 < e.len) {es : List Extent}
    (spaced : Spaced es) (lengths : ∀ b ∈ es, 0 < b.len) (apart : ∀ b ∈ es, Apart e b) :
    Spaced (restore e es) := by
  induction es with
  | nil => exact List.pairwise_singleton _ _
  | cons b es ih =>
    obtain ⟨behind, rest⟩ := List.pairwise_cons.mp spaced
    have bLength := lengths b List.mem_cons_self
    have bApart := apart b List.mem_cons_self
    have lengths' : ∀ c ∈ es, 0 < c.len := fun c later => lengths c (List.mem_cons_of_mem _ later)
    have apart' : ∀ c ∈ es, Apart e c := fun c later => apart c (List.mem_cons_of_mem _ later)
    rw [Extent.restore_cons]
    split
    · rename_i below
      split
      · rename_i touch
        refine Spaced.absorb rest fun c isMember => ?_
        have later := behind c isMember
        have cLength := lengths' c isMember
        have cApart := apart' c isMember
        simp only [Apart, stop] at *
        omega
      · rename_i gap
        refine List.pairwise_cons.mpr ⟨fun c isMember => ?_, ih rest lengths' apart'⟩
        rcases start_of_mem_restore isMember with same | ⟨d, inRest, same⟩
        · simp only [Apart, stop] at *
          omega
        · have later := behind d inRest
          omega
    · rename_i above
      refine Spaced.absorb spaced fun c isMember => ?_
      cases isMember with
      | head =>
        simp only [Apart, stop] at *
        omega
      | tail _ isLater =>
        have later := behind c isLater
        simp only [Apart, stop] at *
        omega

/-! ## Whole grains -/

/-- An extent of whole grains that is not empty. -/
def Grained (g : Nat) (e : Extent) : Prop := g ∣ e.start ∧ g ∣ e.len ∧ 0 < e.len

theorem Grained.join {g : Nat} {a b : Extent} (first : Grained g a) (second : Grained g b) :
    Grained g ⟨a.start, a.len + b.len⟩ :=
  ⟨first.1, Nat.dvd_add first.2.1 second.2.1, Nat.add_pos_left first.2.2 _⟩

theorem grained_absorb {g : Nat} {e : Extent} {es : List Extent} (grained : Grained g e)
    (each : ∀ b ∈ es, Grained g b) : ∀ c ∈ absorb e es, Grained g c := by
  intro c isMember
  cases es with
  | nil =>
    rw [absorb, List.mem_singleton] at isMember
    exact isMember ▸ grained
  | cons b es =>
    rw [absorb] at isMember
    split at isMember
    · cases isMember with
      | head => exact grained.join (each b List.mem_cons_self)
      | tail _ later => exact each c (List.mem_cons_of_mem _ later)
    · cases isMember with
      | head => exact grained
      | tail _ later => exact each c later

theorem grained_restore {g : Nat} {e : Extent} {es : List Extent} (grained : Grained g e)
    (each : ∀ b ∈ es, Grained g b) : ∀ c ∈ restore e es, Grained g c := by
  induction es with
  | nil =>
    intro c isMember
    rw [restore, List.mem_singleton] at isMember
    exact isMember ▸ grained
  | cons b es ih =>
    have first := each b List.mem_cons_self
    have rest : ∀ c ∈ es, Grained g c := fun c later => each c (List.mem_cons_of_mem _ later)
    rw [restore_cons]
    split
    · split
      · exact grained_absorb (first.join grained) rest
      · intro c isMember
        cases isMember with
        | head => exact first
        | tail _ later => exact ih rest c later
    · exact grained_absorb grained each

theorem grained_gaps {g : Nat} {b : Extent} {p need : Nat} (grained : Grained g b) (at_ : g ∣ p)
    (whole : g ∣ need) : ∀ c ∈ gaps b p need, Grained g c := by
  have stops : g ∣ b.stop := Nat.dvd_add grained.1 grained.2.1
  have behind : g ∣ p + need := Nat.dvd_add at_ whole
  intro c isMember
  rw [gaps, piece, piece] at isMember
  rcases List.mem_append.mp isMember with before | after
  · split at before
    · cases before
    · rename_i some
      rw [List.mem_singleton] at before
      rw [before]
      exact ⟨grained.1, Nat.dvd_sub at_ grained.1, Nat.pos_of_ne_zero some⟩
  · split at after
    · cases after
    · rename_i some
      rw [List.mem_singleton] at after
      rw [after]
      exact ⟨behind, Nat.dvd_sub stops behind, Nat.pos_of_ne_zero some⟩

theorem grained_carve {g : Nat} {place : Nat → Nat} {need p : Nat} {es es' : List Extent}
    (each : ∀ e ∈ es, Grained g e) (at_ : ∀ s, g ∣ place s) (whole : g ∣ need)
    (carved : carve place need es = some (p, es')) : ∀ e ∈ es', Grained g e := by
  obtain ⟨front, b, back, rfl, value, _, rfl, _⟩ := carve_some carved
  intro e isMember
  rcases List.mem_append.mp isMember with isFront | isRest
  · exact each e (List.mem_append_left _ isFront)
  rcases List.mem_append.mp isRest with isGap | isBack
  · have bGrained := each b (List.mem_append_right _ List.mem_cons_self)
    exact grained_gaps bGrained (value ▸ at_ b.start) whole e isGap
  · exact each e (List.mem_append_right _ (List.mem_cons_of_mem _ isBack))

/-! ## Tilings -/

theorem Tiles.within {es : List Extent} {lo hi : Nat} (tiles : Tiles es lo hi) {e : Extent}
    (isMember : e ∈ es) (positive : 0 < e.len) : lo ≤ e.start ∧ e.stop ≤ hi := by
  have inside : ∀ x, e.start ≤ x → x < e.stop → lo ≤ x ∧ x < hi := by
    intro x low high
    have here := count_le_cover isMember x
    rw [tiles x, count, if_pos ⟨low, high⟩] at here
    by_contra outside
    rw [if_neg outside] at here
    omega
  have first := inside e.start (Nat.le_refl _) (by simp only [stop]; omega)
  have last := inside (e.stop - 1) (by simp only [stop]; omega) (by simp only [stop]; omega)
  simp only [stop] at *
  omega

theorem sum_count {e : Extent} {hi : Nat} (inside : e.stop ≤ hi) :
    (Finset.range hi).sum e.count = e.len := by
  have units : (Finset.range hi).filter (fun x => e.start ≤ x ∧ x < e.stop) =
      Finset.Ico e.start e.stop := by
    ext x
    rw [Finset.mem_filter, Finset.mem_range, Finset.mem_Ico]
    exact ⟨fun has => has.2, fun has => ⟨Nat.lt_of_lt_of_le has.2 inside, has⟩⟩
  calc (Finset.range hi).sum e.count
      = ((Finset.range hi).filter (fun x => e.start ≤ x ∧ x < e.stop)).card :=
        (Finset.card_filter _ _).symm
    _ = e.len := by rw [units, Nat.card_Ico, stop, Nat.add_sub_cancel_left]

/-- The lengths of the extents that tile a range add up to its length. -/
theorem Tiles.sum_len {es : List Extent} {lo hi : Nat} (tiles : Tiles es lo hi)
    (ordered : lo ≤ hi) (lengths : ∀ e ∈ es, 0 < e.len) : (es.map len).sum = hi - lo := by
  have counted : ∀ fs : List Extent, (∀ e ∈ fs, e.stop ≤ hi) →
      (Finset.range hi).sum (cover fs) = (fs.map len).sum := by
    intro fs inside
    induction fs with
    | nil => exact Finset.sum_const_zero
    | cons e fs ih =>
      have rest := ih fun c later => inside c (List.mem_cons_of_mem _ later)
      have first := sum_count (inside e List.mem_cons_self)
      rw [List.map_cons, List.sum_cons, ← first, ← rest, ← Finset.sum_add_distrib]
      exact Finset.sum_congr rfl fun x _ => cover_cons e fs x
  have whole : (Finset.range hi).sum (cover es) = (Finset.range hi).sum (⟨lo, hi - lo⟩ : Extent).count := by
    refine Finset.sum_congr rfl fun x _ => ?_
    rw [tiles x, count, stop, Nat.add_sub_cancel' ordered]
  rw [← counted es fun e isMember => (tiles.within isMember (lengths e isMember)).2, whole]
  exact sum_count (by rw [stop, Nat.add_sub_cancel' ordered])

/-- Extents that have no unit twice are apart. -/
theorem apart_of_count {a b : Extent} (aPositive : 0 < a.len) (bPositive : 0 < b.len)
    (once : ∀ x, a.count x + b.count x ≤ 1) : Apart a b := by
  by_contra overlap
  obtain ⟨first, second⟩ := not_or.mp overlap
  have inA : a.count (max a.start b.start) = 1 := by
    refine if_pos ?_
    simp only [stop] at *
    omega
  have inB : b.count (max a.start b.start) = 1 := by
    refine if_pos ?_
    simp only [stop] at *
    omega
  have here := once (max a.start b.start)
  omega

/-- **A spaced list that tiles a range is one extent.** -/
theorem eq_single_of_tiles {es : List Extent} {lo hi : Nat} (some : lo < hi)
    (tiles : Tiles es lo hi) (spaced : Spaced es) (lengths : ∀ e ∈ es, 0 < e.len) :
    es = [⟨lo, hi - lo⟩] := by
  cases es with
  | nil =>
    have first := tiles lo
    rw [cover_nil, if_pos ⟨Nat.le_refl _, some⟩] at first
    cases first
  | cons e es =>
    have positive := lengths e List.mem_cons_self
    have within := tiles.within List.mem_cons_self positive
    have behind := (List.pairwise_cons.mp spaced).1
    have above : ∀ x, x ≤ e.stop → cover es x = 0 := by
      intro x low
      have none : ∀ c ∈ es.map (·.count x), c = 0 := by
        intro c isMember
        obtain ⟨f, inRest, rfl⟩ := List.mem_map.mp isMember
        have later := behind f inRest
        exact if_neg fun inside => by omega
      exact List.sum_eq_zero none
    have ends : e.stop = hi := by
      have next := tiles e.stop
      rw [cover_cons, above _ (Nat.le_refl _), Nat.add_zero, count,
        if_neg (by omega : ¬ (e.start ≤ e.stop ∧ e.stop < e.stop))] at next
      by_contra short
      have inside : lo ≤ e.stop ∧ e.stop < hi := by
        simp only [stop] at *
        omega
      rw [if_pos inside] at next
      cases next
    have starts : e.start = lo := by
      have first := tiles lo
      rw [cover_cons, above lo (by simp only [stop] at *; omega), if_pos ⟨Nat.le_refl _, some⟩,
        Nat.add_zero, count] at first
      by_contra late
      rw [if_neg (by omega)] at first
      cases first
    have alone : es = [] := by
      cases es with
      | nil => rfl
      | cons f es =>
        have inList : f ∈ e :: f :: es := List.mem_cons_of_mem _ List.mem_cons_self
        have further := tiles.within inList (lengths f inList)
        have later := behind f List.mem_cons_self
        simp only [stop] at *
        omega
    rw [alone]
    obtain ⟨s, n⟩ := e
    simp only [stop] at ends starts
    rw [starts] at ends ⊢
    have whole : n = hi - lo := by omega
    rw [whole]

end Extent

end RustyPenguin
