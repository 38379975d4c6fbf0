import RustyPenguin.Foundation.Words
import Mathlib.Data.List.Range
import Mathlib.Logic.Function.Basic
import Mathlib.Tactic.ByContra

/-!
# The frame codec

A frame is packed as its difference from the one before: the runs of changed pixels, each with the
number of pixels to skip before it. The packer finds the runs by the edges of the changed flags; the
player writes their pixels over the frame it has.

Decoding what was packed, over the frame it was packed against, gives the frame (`applyFrame_encodeFrame`).
-/

set_option autoImplicit false

namespace RustyPenguin.Video

open Foundation

abbrev Bytes := List UInt8

abbrev Pixel := BitVec 32

/-! ## The player -/

/-- The frame buffer. -/
abbrev FrameBuffer := Nat → Pixel

/-- The loop over the literals of a segment, which start at byte `o`. -/
def writeLiterals (seg : Bytes) (pos o litlen : Nat) (frame : FrameBuffer) : FrameBuffer :=
  (List.range litlen).foldl
    (fun frame i => Function.update frame (pos + i) (BitVec.ofNat 32 (readLe32 seg (o + i * 4)))) frame

/-- `apply_frame`, from a pixel and a byte on. -/
def applyFrame (seg : Bytes) (npix pos o : Nat) (frame : FrameBuffer) : Bool × FrameBuffer :=
  if o + 8 ≤ seg.length then
    if npix < pos + readLe32 seg o + readLe32 seg (o + 4) ∨
        seg.length < o + 8 + readLe32 seg (o + 4) * 4 then (false, frame)
    else
      applyFrame seg npix (pos + readLe32 seg o + readLe32 seg (o + 4))
        (o + 8 + readLe32 seg (o + 4) * 4)
        (writeLiterals seg (pos + readLe32 seg o) (o + 8) (readLe32 seg (o + 4)) frame)
  else (true, frame)
termination_by seg.length - o
decreasing_by omega

/-! ## The packer -/

/-- `flatnonzero`, from an index on. -/
def flatnonzero (i : Nat) : List Bool → List Nat
  | [] => []
  | b :: rest => if b then i :: flatnonzero (i + 1) rest else flatnonzero (i + 1) rest

/-- `diff`. -/
def diff : List Int → List Int
  | a :: b :: rest => (b - a) :: diff (b :: rest)
  | _ => []

def flag (b : Bool) : Int := if b then 1 else 0

/-- The differences of the flags between two zeros. -/
def edges (changed : List Bool) : List Int := diff (0 :: (changed.map flag ++ [0]))

/-- The runs of changed pixels, each with its start and its end. -/
def runs (changed : List Bool) : List (Nat × Nat) :=
  (flatnonzero 0 ((edges changed).map fun d => d == 1)).zip
    (flatnonzero 0 ((edges changed).map fun d => d == -1))

def pixelBytes (pixels : List Pixel) : Bytes := (pixels.map BitVec.toNat).flatMap le32

/-- The loop over the runs. -/
def encodeRuns (cur : List Pixel) (prevEnd : Nat) : List (Nat × Nat) → Bytes
  | [] => []
  | (s, e) :: rest =>
    le32 (s - prevEnd) ++ le32 (e - s) ++ pixelBytes ((cur.drop s).take (e - s)) ++
      encodeRuns cur e rest

def changedPixels (cur prev : List Pixel) : List Bool := List.zipWith (fun c p => c != p) cur prev

/-- `encode_frame`. -/
def encodeFrame (cur prev : List Pixel) : Bytes :=
  if (changedPixels cur prev).any id then encodeRuns cur 0 (runs (changedPixels cur prev)) else []

/-! ## The runs cover what changed -/

/-- From a pixel on, nothing changed outside the runs. -/
def Covers (changed : Nat → Bool) (n : Nat) : Nat → List (Nat × Nat) → Prop
  | at_, [] => ∀ i, at_ ≤ i → i < n → changed i = false
  | at_, (s, e) :: rest => at_ ≤ s ∧ s < e ∧ e ≤ n ∧ (∀ i, at_ ≤ i → i < s → changed i = false) ∧
      Covers changed n e rest

section Edges

variable {changed : Nat → Bool} {n : Nat}

def startsFrom (i : Nat) (last : Bool) (flags : List Bool) : List Nat :=
  flatnonzero i ((diff (flag last :: (flags.map flag ++ [0]))).map fun d => d == 1)

def endsFrom (i : Nat) (last : Bool) (flags : List Bool) : List Nat :=
  flatnonzero i ((diff (flag last :: (flags.map flag ++ [0]))).map fun d => d == -1)

theorem startsFrom_nil (i : Nat) (last : Bool) : startsFrom i last [] = [] := by
  cases last <;> rfl

theorem endsFrom_nil (i : Nat) (last : Bool) : endsFrom i last [] = if last then [i] else [] := by
  cases last <;> rfl

theorem startsFrom_cons (i : Nat) (last b : Bool) (flags : List Bool) :
    startsFrom i last (b :: flags) =
      if b && !last then i :: startsFrom (i + 1) b flags else startsFrom (i + 1) b flags := by
  cases last <;> cases b <;> rfl

theorem endsFrom_cons (i : Nat) (last b : Bool) (flags : List Bool) :
    endsFrom i last (b :: flags) =
      if !b && last then i :: endsFrom (i + 1) b flags else endsFrom (i + 1) b flags := by
  cases last <;> cases b <;> rfl

theorem Covers.back {i : Nat} {rest : List (Nat × Nat)} (same : changed i = false)
    (covers : Covers changed n (i + 1) rest) : Covers changed n i rest := by
  have before : ∀ {m}, (∀ j, i + 1 ≤ j → j < m → changed j = false) →
      ∀ j, i ≤ j → j < m → changed j = false := by
    intro m all j above below
    rcases Nat.eq_or_lt_of_le above with rfl | later
    · exact same
    · exact all j later below
  rcases rest with _ | ⟨⟨s, e⟩, rest⟩
  · exact before covers
  · obtain ⟨start, full, fits, outside, more⟩ := covers
    exact ⟨Nat.le_of_succ_le start, full, fits, before outside, more⟩

/-- Outside a run the edges go on with runs that cover the rest; inside, with the end of the run. -/
theorem covers_edges (flags : List Bool) (i : Nat)
    (isFlags : ∀ k, k < flags.length → changed (i + k) = flags.getD k false)
    (size : n = i + flags.length) :
    Covers changed n i ((startsFrom i false flags).zip (endsFrom i false flags)) ∧
    ∃ e rest, endsFrom i true flags = e :: rest ∧ i ≤ e ∧ e ≤ n ∧
      Covers changed n e ((startsFrom i true flags).zip rest) := by
  induction flags generalizing i with
  | nil =>
    have done : Covers changed n i [] := by
      intro j above below
      rw [size, List.length_nil] at below
      omega
    rw [startsFrom_nil, startsFrom_nil, endsFrom_nil, endsFrom_nil]
    exact ⟨done, i, [], rfl, Nat.le_refl i, Nat.le_of_eq size.symm, done⟩
  | cons b flags ih =>
    obtain ⟨outside, e, rest, ends, above, fits, inside⟩ := ih (i + 1)
      (fun k small => by
        have here := isFlags (k + 1) (Nat.succ_lt_succ small)
        rwa [List.getD_cons_succ, ← Nat.add_assoc, Nat.add_right_comm] at here)
      (by rw [size, List.length_cons]; omega)
    have first := isFlags 0 (Nat.succ_pos _)
    rw [Nat.add_zero, List.getD_cons_zero] at first
    rw [startsFrom_cons, startsFrom_cons, endsFrom_cons, endsFrom_cons]
    cases b with
    | false =>
      refine ⟨outside.back first, i, _, rfl, Nat.le_refl i, ?_, outside.back first⟩
      rw [size]
      exact Nat.le_add_right _ _
    | true =>
      refine ⟨?_, e, rest, ends, Nat.le_of_succ_le above, fits, inside⟩
      show Covers changed n i ((i :: startsFrom (i + 1) true flags).zip (endsFrom (i + 1) true flags))
      rw [ends]
      exact ⟨Nat.le_refl i, above, fits, fun j le lt => absurd lt (Nat.not_lt.mpr le), inside⟩

/-- **The runs cover what changed.** -/
theorem covers_runs (flags : List Bool) :
    Covers (fun i => flags.getD i false) flags.length 0 (runs flags) :=
  (covers_edges flags 0 (fun k _ => by rw [Nat.zero_add]) (Nat.zero_add _).symm).1

end Edges

/-! ## Decoding what was packed -/

section Decoding

variable {seg front back : Bytes} {pixels cur prev : List Pixel} {frame : FrameBuffer}
  {npix pos litlen : Nat}

@[simp] theorem length_pixelBytes : (pixelBytes pixels).length = 4 * pixels.length := by
  rw [pixelBytes, length_words, List.length_map]

theorem readLe32_pixelBytes (pixels : List Pixel) (back : Bytes) {i : Nat}
    (inside : i < pixels.length) :
    BitVec.ofNat 32 (readLe32 (pixelBytes pixels ++ back) (i * 4)) = pixels.getD i 0 := by
  have bound : i < (pixels.map BitVec.toNat).length := by rwa [List.length_map]
  rw [pixelBytes, readLe32_words _ back bound, List.getD_eq_getElem _ _ bound, List.getElem_map,
    Nat.mod_eq_of_lt (BitVec.isLt _), BitVec.ofNat_toNat, BitVec.setWidth_eq,
    List.getD_eq_getElem _ _ inside]

theorem foldl_update (value : Nat → Pixel) (n p : Nat) :
    (List.range n).foldl (fun frame i => Function.update frame (pos + i) (value i)) frame p =
      if pos ≤ p ∧ p < pos + n then value (p - pos) else frame p := by
  induction n with
  | zero => rw [List.range_zero, List.foldl_nil, if_neg (by omega)]
  | succ n ih =>
    rw [List.range_succ, List.foldl_append, List.foldl_cons, List.foldl_nil]
    by_cases last : p = pos + n
    · rw [last, Function.update_self, if_pos (by omega), Nat.add_sub_cancel_left]
    · rw [Function.update_of_ne last, ih]
      by_cases inside : pos ≤ p ∧ p < pos + n
      · rw [if_pos inside, if_pos (by omega)]
      · rw [if_neg inside, if_neg (by omega)]

/-- The literals are the pixels, in their places. -/
theorem writeLiterals_eq (front back : Bytes) (pixels : List Pixel) (pos : Nat)
    (frame : FrameBuffer) (p : Nat) :
    writeLiterals (front ++ (pixelBytes pixels ++ back)) pos front.length pixels.length frame p =
      if pos ≤ p ∧ p < pos + pixels.length then pixels.getD (p - pos) 0 else frame p := by
  rw [writeLiterals, foldl_update]
  refine ite_congr rfl (fun inside => ?_) (fun _ => rfl)
  rw [readLe32_append]
  exact readLe32_pixelBytes pixels back (by omega)

/-- **One segment**: pixels are skipped and pixels are written. -/
theorem applyFrame_segment (front back : Bytes) (pixels : List Pixel) (frame : FrameBuffer)
    {skip : Nat} (fits : pos + skip + pixels.length ≤ npix)
    (small : npix < 2 ^ 32) :
    applyFrame (front ++ (le32 skip ++ le32 pixels.length ++ pixelBytes pixels ++ back)) npix pos
        front.length frame =
      applyFrame ((front ++ le32 skip ++ le32 pixels.length ++ pixelBytes pixels) ++ back) npix
        (pos + skip + pixels.length)
        (front ++ le32 skip ++ le32 pixels.length ++ pixelBytes pixels).length
        (fun p => if pos + skip ≤ p ∧ p < pos + skip + pixels.length then
          pixels.getD (p - (pos + skip)) 0 else frame p) := by
  have isSkip : readLe32 (front ++ (le32 skip ++ le32 pixels.length ++ pixelBytes pixels ++ back))
      front.length = skip := by
    rw [List.append_assoc, List.append_assoc, readLe32_at]
    exact Nat.mod_eq_of_lt (by omega)
  have isLength : readLe32 (front ++ (le32 skip ++ le32 pixels.length ++ pixelBytes pixels ++ back))
      (front.length + 4) = pixels.length := by
    rw [readLe32_append, List.append_assoc, List.append_assoc]
    have read := readLe32_at (le32 skip) (pixelBytes pixels ++ back) pixels.length
    rw [length_le32] at read
    rw [read]
    exact Nat.mod_eq_of_lt (by omega)
  rw [applyFrame, if_pos ?_, isSkip, isLength, if_neg ?_]
  · have literals := writeLiterals_eq (front ++ le32 skip ++ le32 pixels.length) back pixels
      (pos + skip) frame
    have size : (front ++ le32 skip ++ le32 pixels.length).length = front.length + 8 := by
      simp only [List.length_append, length_le32]
    have whole : front ++ (le32 skip ++ le32 pixels.length ++ pixelBytes pixels ++ back) =
        front ++ le32 skip ++ le32 pixels.length ++ (pixelBytes pixels ++ back) := by
      simp only [List.append_assoc]
    rw [size] at literals
    rw [whole, funext literals, ← List.append_assoc]
    congr 1
    rw [List.length_append, size, length_pixelBytes]
    omega
  · rintro (far | short)
    · omega
    · simp only [List.length_append, length_le32, length_pixelBytes] at short
      omega
  · simp only [List.length_append, length_le32]
    omega

theorem applyFrame_end (seg : Bytes) : applyFrame seg npix pos seg.length frame = (true, frame) := by
  rw [applyFrame, if_neg (by omega)]

/-- The runs that are left are decoded to the frame from their place on. -/
theorem applyFrame_runs {changed : Nat → Bool} (small : npix < 2 ^ 32) (size : cur.length = npix) :
    ∀ (rest : List (Nat × Nat)) (front : Bytes) (pos : Nat) (frame : FrameBuffer),
      Covers changed npix pos rest →
      (∀ i, pos ≤ i → i < npix → changed i = false → frame i = cur.getD i 0) →
      ∃ frame', applyFrame (front ++ encodeRuns cur pos rest) npix pos front.length frame =
          (true, frame') ∧
        (∀ i, i < pos → frame' i = frame i) ∧ ∀ i, pos ≤ i → i < npix → frame' i = cur.getD i 0 := by
  intro rest
  induction rest with
  | nil =>
    intro front pos frame covers same
    refine ⟨frame, ?_, fun _ _ => rfl, fun i above below => same i above below (covers i above below)⟩
    rw [encodeRuns, List.append_nil, applyFrame_end]
  | cons run rest ih =>
    obtain ⟨s, e⟩ := run
    intro front pos frame covers same
    obtain ⟨start, full, fits, outside, more⟩ := covers
    have length : ((cur.drop s).take (e - s)).length = e - s := by
      rw [List.length_take, List.length_drop, size]
      omega
    have there : ∀ i, s ≤ i → i < e → ((cur.drop s).take (e - s)).getD (i - s) 0 = cur.getD i 0 := by
      intro i above below
      rw [List.getD_eq_getElem?_getD, List.getElem?_take_of_lt (by omega), List.getElem?_drop,
        Nat.add_sub_cancel' above, List.getD_eq_getElem?_getD]
    have skipped : pos + (s - pos) = s := Nat.add_sub_cancel' start
    have room : pos + (s - pos) + ((cur.drop s).take (e - s)).length ≤ npix := by
      rw [length]
      omega
    have segment := applyFrame_segment front (encodeRuns cur e rest) _ frame room small
    rw [skipped, length, Nat.add_sub_cancel' (Nat.le_of_lt full)] at segment
    have later : ∀ i, e ≤ i → i < npix → changed i = false →
        (if s ≤ i ∧ i < e then ((cur.drop s).take (e - s)).getD (i - s) 0 else frame i) =
          cur.getD i 0 := by
      intro i above below still
      rw [if_neg (by omega)]
      exact same i (by omega) below still
    obtain ⟨frame', decoded, kept, done⟩ := ih _ e (fun p =>
      if s ≤ p ∧ p < e then ((cur.drop s).take (e - s)).getD (p - s) 0 else frame p) more later
    refine ⟨frame', ?_, ?_, ?_⟩
    · rw [encodeRuns, segment, decoded]
    · intro i before
      rw [kept i (by omega), if_neg (by omega)]
    · intro i above below
      by_cases late : e ≤ i
      · exact done i late below
      · rw [kept i (by omega)]
        by_cases inside : s ≤ i ∧ i < e
        · rw [if_pos inside, there i inside.1 inside.2]
        · rw [if_neg inside]
          exact same i above below (outside i above (by omega))

theorem getD_changedPixels (sizes : cur.length = prev.length) {i : Nat} (inside : i < cur.length) :
    (changedPixels cur prev).getD i false = (cur.getD i 0 != prev.getD i 0) := by
  rw [changedPixels, List.getD_eq_getElem?_getD, List.getElem?_zipWith, List.getD_eq_getElem?_getD,
    List.getD_eq_getElem?_getD, List.getElem?_eq_getElem inside,
    List.getElem?_eq_getElem (sizes ▸ inside)]
  rfl

theorem length_changedPixels (sizes : cur.length = prev.length) :
    (changedPixels cur prev).length = cur.length := by
  rw [changedPixels, List.length_zipWith, sizes, Nat.min_self]

/-- A run takes eight bytes and four for each of its pixels. -/
theorem length_encodeRuns {changed : Nat → Bool} :
    ∀ (rest : List (Nat × Nat)) (pos : Nat), Covers changed npix pos rest → pos ≤ npix →
      (encodeRuns cur pos rest).length ≤ 12 * (npix - pos) := by
  intro rest
  induction rest with
  | nil =>
    intro pos _ _
    exact Nat.zero_le _
  | cons run rest ih =>
    obtain ⟨s, e⟩ := run
    intro pos covers _
    obtain ⟨start, full, fits, -, more⟩ := covers
    have left := ih e more fits
    rw [encodeRuns, List.length_append, List.length_append, List.length_append, length_le32,
      length_le32, length_pixelBytes, List.length_take]
    omega

theorem length_encodeFrame (sizes : cur.length = prev.length) :
    (encodeFrame cur prev).length ≤ 12 * cur.length := by
  rw [encodeFrame]
  split_ifs
  · have covers := covers_runs (changedPixels cur prev)
    rw [length_changedPixels sizes] at covers
    exact length_encodeRuns _ 0 covers (Nat.zero_le _)
  · exact Nat.zero_le _

/-- A list of pixels is shown from the start of the frame buffer. -/
def Shows (frame : FrameBuffer) (pixels : List Pixel) : Prop :=
  ∀ i, i < pixels.length → frame i = pixels.getD i 0

/-- **A packed frame is decoded to the frame**, over the one it was packed against. -/
theorem applyFrame_encodeFrame (sizes : cur.length = prev.length) (small : cur.length < 2 ^ 32)
    (shown : Shows frame prev) : ∃ frame',
      applyFrame (encodeFrame cur prev) cur.length 0 0 frame = (true, frame') ∧ Shows frame' cur := by
  have still : ∀ i, i < cur.length → (changedPixels cur prev).getD i false = false →
      frame i = cur.getD i 0 := by
    intro i inside unchanged
    rw [getD_changedPixels sizes inside, bne_eq_false_iff_eq] at unchanged
    rw [unchanged]
    exact shown i (sizes ▸ inside)
  rw [encodeFrame]
  split_ifs with some
  · have covers := covers_runs (changedPixels cur prev)
    rw [length_changedPixels sizes] at covers
    obtain ⟨frame', decoded, -, done⟩ := applyFrame_runs small rfl _ [] 0 frame covers
      fun i _ below => still i below
    exact ⟨frame', decoded, fun i inside => done i (Nat.zero_le i) inside⟩
  · refine ⟨frame, applyFrame_end [], fun i inside => still i inside ?_⟩
    rw [← length_changedPixels sizes] at inside
    rw [List.getD_eq_getElem _ _ inside]
    have none := List.any_eq_false.mp (eq_false_of_ne_true some) _ (List.getElem_mem inside)
    exact eq_false_of_ne_true none

end Decoding

end RustyPenguin.Video
