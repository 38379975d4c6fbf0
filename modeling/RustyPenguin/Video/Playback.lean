import RustyPenguin.Video.Container

/-!
# Playing what was packed

The player keeps the invariant that what is left of the data is the records of the frames that are
left, against the frame that is shown; it holds at the start exactly when the header gives the whole
size of the audio. When some bytes of the audio are behind the place where the player looks for the
first frame, the length it reads there is made of these bytes: four or more of them give every sequence
of frames the same first frame, and with fewer a frame of one colour loses its first pixel.
-/

set_option autoImplicit false

namespace RustyPenguin.Video

open Foundation

/-! ## The frames that are left -/

section Playing

variable {hda : Hda} {s : VideoState} {prev fr : List Pixel} {rest frames : List (List Pixel)}
  {front : Bytes}

/-- What is left of the data is the records of the frames that are left. -/
structure Playing (s : VideoState) (front : Bytes) (prev : List Pixel)
    (rest : List (List Pixel)) : Prop where
  data : s.data = front ++ records prev rest
  curOff : s.curOff = front.length
  left : s.curFrame + rest.length = s.nframes
  shows : Shows s.frame prev
  prevSize : prev.length = s.w * s.h
  sizes : ∀ fr ∈ rest, fr.length = s.w * s.h
  small : s.w * s.h ≤ 230400

/-- **A step shows the next frame.** -/
theorem Playing.advance (hda : Hda) (playing : Playing s front prev (fr :: rest)) :
    ∃ front', Playing (s.advance hda).1 front' fr rest ∧
      (s.advance hda).1.curFrame = s.curFrame + 1 := by
  have size : fr.length = s.w * s.h := playing.sizes fr List.mem_cons_self
  have small := playing.small
  have same : fr.length = prev.length := size.trans playing.prevSize.symm
  have short : (encodeFrame fr prev).length < 2 ^ 32 := by
    have bound := length_encodeFrame same
    omega
  have left := playing.left
  rw [List.length_cons] at left
  have stepped := advance_record hda (by omega) playing.data playing.curOff short
  obtain ⟨frame, decoded, shown⟩ := applyFrame_encodeFrame same (by omega) playing.shows
  refine ⟨front ++ (le32 (encodeFrame fr prev).length ++ encodeFrame fr prev), ?_, stepped.curFrame⟩
  refine ⟨?_, ?_, ?_, ?_, ?_, ?_, ?_⟩
  · rw [stepped.data, playing.data, records, ← List.append_assoc]
  · rw [stepped.curOff, playing.curOff, List.length_append, List.length_append, length_le32,
      Nat.add_assoc]
  · rw [stepped.curFrame, stepped.nframes]
    omega
  · rw [stepped.frame, ← size, decoded]
    exact shown
  · rw [stepped.w, stepped.h, size]
  · intro later mem
    rw [stepped.w, stepped.h]
    exact playing.sizes later (List.mem_cons_of_mem _ mem)
  · rw [stepped.w, stepped.h]
    exact small

/-- After some steps these frames are behind. -/
theorem Playing.after (hda : Hda) (playing : Playing s front prev frames) (first : s.curFrame = 0) :
    ∀ k, k ≤ frames.length → ∃ front' prev', Playing (s.after hda k) front' prev' (frames.drop k) ∧
      (s.after hda k).curFrame = k := by
  intro k
  induction k with
  | zero => exact fun _ => ⟨front, prev, playing, first⟩
  | succ k ih =>
    intro inside
    obtain ⟨front', prev', here, at_⟩ := ih (Nat.le_of_succ_le inside)
    rw [List.drop_eq_getElem_cons inside] at here
    obtain ⟨next, there, moved⟩ := here.advance hda
    exact ⟨next, frames[k], there, moved.trans (congrArg Nat.succ at_)⟩

/-- **From the records of all frames, every frame is shown in its turn.** -/
theorem Playing.plays (playing : Playing s front prev frames) (first : s.curFrame = 0) {k : Nat}
    (mem : frames[k]? = some fr) :
    (s.after hda (k + 1)).curFrame = k + 1 ∧ Shows (s.after hda (k + 1)).frame fr := by
  obtain ⟨inside, rfl⟩ := List.getElem?_eq_some_iff.mp mem
  obtain ⟨front', prev', here, at_⟩ := playing.after hda first k (Nat.le_of_lt inside)
  rw [List.drop_eq_getElem_cons inside] at here
  obtain ⟨next, there, moved⟩ := here.advance hda
  exact ⟨moved.trans (congrArg Nat.succ at_), there.shows⟩

end Playing

/-! ## The packed data -/

section Packed

variable {hda : Hda} {frames : List (List Pixel)} {w h fps arate ach : Nat} {pcm data : Bytes}

/-- The bytes of the audio that the header counts. -/
def counted (pcm : Bytes) (ach : Nat) : Nat := sampleFrames pcm ach * ach * 2

theorem counted_le (pcm : Bytes) (ach : Nat) : counted pcm ach ≤ pcm.length := by
  rw [counted, sampleFrames, Nat.mul_assoc]
  split_ifs
  · rw [Nat.zero_mul]
    exact Nat.zero_le _
  · exact Nat.div_mul_le_self _ _

/-- The audio behind the part that the header counts. -/
def leftover (pcm : Bytes) (ach : Nat) : Bytes := pcm.drop (counted pcm ach)

theorem whole_iff : Whole pcm ach ↔ leftover pcm ach = [] := by
  rw [leftover, List.drop_eq_nil_iff]
  constructor
  · exact fun whole => Nat.le_of_eq whole.symm
  · exact fun all => Nat.le_antisymm (counted_le pcm ach) all

/-- **Opening**: the player starts in front of the leftover audio and the records. -/
theorem open_pack (hda : Hda) (size : Supported w h)
    (packed : pack frames w h fps pcm arate ach = some data) :
    ∃ s dims front, serviceOpen hda data = some (s, dims) ∧
      Opened s data w h frames.length front.length ∧
      data = front ++ (leftover pcm ach ++ records (List.replicate (w * h) 0) frames) := by
  obtain ⟨s, dims, opens, opened⟩ := serviceOpen_header hda size (isHeader_pack packed)
  rw [pack] at packed
  split_ifs at packed
  cases packed
  refine ⟨s, dims, magic ++ (headerWords w h fps frames.length arate ach
    (sampleFrames pcm ach)).flatMap le32 ++ pcm.take (counted pcm ach), opens, ?_, ?_⟩
  · have front : (magic ++ (headerWords w h fps frames.length arate ach
        (sampleFrames pcm ach)).flatMap le32 ++ pcm.take (counted pcm ach)).length =
        32 + sampleFrames pcm ach * ach * 2 := by
      rw [List.length_append, List.length_append, length_words, List.length_take,
        Nat.min_eq_left (counted_le pcm ach)]
      rfl
    rw [front]
    exact opened
  · rw [List.append_assoc, List.append_assoc _ (pcm.take _), ← List.append_assoc (pcm.take _),
      leftover, List.take_append_drop, ← List.append_assoc]

/-- When the header counts all of the audio, the frames are played. -/
theorem plays_of_whole (size : Supported w h) (whole : Whole pcm ach)
    (sizes : ∀ fr ∈ frames, fr.length = w * h)
    (packed : pack frames w h fps pcm arate ach = some data) : Plays hda data frames := by
  obtain ⟨s, dims, front, opens, opened, split⟩ := open_pack hda size packed
  rw [whole_iff.1 whole, List.nil_append] at split
  have playing : Playing s front (List.replicate (w * h) 0) frames := by
    refine ⟨opened.data.trans split, opened.start, ?_, ?_, ?_, ?_, ?_⟩
    · rw [opened.first, opened.nframes, Nat.zero_add]
    · intro i inside
      rw [opened.black, List.getD_eq_getElem _ _ inside, List.getElem_replicate]
    · rw [List.length_replicate, opened.w, opened.h]
    · rw [opened.w, opened.h]
      exact sizes
    · rw [opened.w, opened.h]
      exact size.pixels.2
  exact ⟨s, dims, opens, fun k fr mem => playing.plays opened.first mem⟩

end Packed

/-! ## Frames that start too early -/

section Leftover

variable {hda : Hda} {frames : List (List Pixel)} {fr : List Pixel} {w h fps arate ach npix : Nat}
  {pcm data stream seg : Bytes} {frame : FrameBuffer}

/-- What the player makes of a record: the frame it shows over black. -/
def firstShown (stream : Bytes) (npix : Nat) : Option FrameBuffer :=
  if stream.length < 4 + readLe32 stream 0 then none
  else some (applyFrame ((stream.drop 4).take (readLe32 stream 0)) npix 0 0 fun _ => 0).2

/-- A frame that is played is what the player makes of the first bytes it finds. -/
theorem firstShown_of_plays (size : Supported w h)
    (packed : pack [fr] w h fps pcm arate ach = some data) (plays : Plays hda data [fr]) :
    ∃ frame, firstShown (leftover pcm ach ++ records (List.replicate (w * h) 0) [fr]) (w * h) =
      some frame ∧ Shows frame fr := by
  obtain ⟨s, dims, front, opens, opened, split⟩ := open_pack hda size packed
  obtain ⟨s', dims', opens', steps⟩ := plays
  cases opens.symm.trans opens'
  obtain ⟨moved, shown⟩ := steps 0 fr rfl
  generalize leftover pcm ach ++ records (List.replicate (w * h) 0) [fr] = stream at split
  have isLength : readLe32 s.data s.curOff = readLe32 stream 0 := by
    have behind := readLe32_append front stream 0
    rwa [Nat.add_zero, ← split, ← opened.data, ← opened.start] at behind
  have total : s.data.length = s.curOff + stream.length := by
    rw [opened.data, opened.start, split, List.length_append]
  have isSeg : s.data.drop (s.curOff + 4) = stream.drop 4 := by
    rw [opened.data, opened.start, split, List.drop_append, List.drop_of_length_le (by omega),
      List.nil_append, Nat.add_sub_cancel_left]
  have more : s.curFrame < s.nframes := by
    rw [opened.first, opened.nframes]
    exact Nat.one_pos
  rw [firstShown]
  rcases advance_moved hda more with still | ⟨inside, frame⟩
  · have same : (s.advance hda).1.curFrame = 1 := moved
    rw [still, opened.first] at same
    cases same
  · rw [isLength] at inside frame
    rw [isSeg, opened.w, opened.h, opened.black] at frame
    have there : Shows (s.advance hda).1.frame fr := shown
    rw [frame] at there
    rw [if_neg (by omega)]
    exact ⟨_, rfl, there⟩

/-- The player's first frame depends only on the bytes up to the length that it reads. -/
theorem firstShown_append {record : Bytes} (rest : Bytes)
    (long : 4 + readLe32 record 0 ≤ record.length) :
    firstShown (record ++ rest) npix =
      some (applyFrame ((record.drop 4).take (readLe32 record 0)) npix 0 0 fun _ => 0).2 := by
  have total : (record ++ rest).length = record.length + rest.length := List.length_append
  rw [firstShown, readLe32_prefix (by omega), if_neg (by omega),
    List.drop_append_of_le_length (by omega), List.take_append_of_le_length]
  rw [List.length_drop]
  omega

/-- Pixels before the place that is reached are not written. -/
theorem applyFrame_below (seg : Bytes) (npix pos o : Nat) (frame : FrameBuffer) {p : Nat}
    (before : p < pos) : (applyFrame seg npix pos o frame).2 p = frame p := by
  induction pos, o, frame using applyFrame.induct seg npix with
  | case1 pos o frame more bad => rw [applyFrame, if_pos more, if_pos bad]
  | case2 pos o frame more fits ih =>
    rw [applyFrame, if_pos more, if_neg fits, ih (by omega), writeLiterals, foldl_update,
      if_neg (by omega)]
  | case3 pos o frame done => rw [applyFrame, if_neg done]

/-- A segment that starts with a skip, or with too many pixels, does not write the first pixel. -/
theorem applyFrame_first (bad : 8 ≤ seg.length → 0 < readLe32 seg 0 ∨ npix < readLe32 seg 4) :
    (applyFrame seg npix 0 0 frame).2 0 = frame 0 := by
  rw [applyFrame]
  by_cases more : 0 + 8 ≤ seg.length
  · rw [if_pos more]
    split_ifs with far
    · rfl
    · rcases bad (by omega) with skips | many
      · rw [applyFrame_below, writeLiterals, foldl_update, if_neg]
        · omega
        · omega
      · rw [Nat.zero_add, Nat.zero_add] at far
        exact absurd (Or.inl (Nat.lt_of_lt_of_le many (Nat.le_add_left _ _))) far
  · rw [if_neg more]

/-- A frame of one colour. -/
def uniform (npix : Nat) (c : Pixel) : List Pixel := List.replicate npix c

theorem startsFrom_true (n i : Nat) : startsFrom i true (List.replicate n true) = [] := by
  induction n generalizing i with
  | zero => exact startsFrom_nil i true
  | succ n ih =>
    rw [List.replicate_succ, startsFrom_cons]
    exact ih (i + 1)

theorem endsFrom_true (n i : Nat) : endsFrom i true (List.replicate n true) = [i + n] := by
  induction n generalizing i with
  | zero => exact endsFrom_nil i true
  | succ n ih =>
    rw [List.replicate_succ, endsFrom_cons, Nat.add_comm n, ← Nat.add_assoc]
    exact ih (i + 1)

/-- When all pixels changed there is one run. -/
theorem runs_replicate (n : Nat) : runs (List.replicate (n + 1) true) = [(0, n + 1)] := by
  show (startsFrom 0 false _).zip (endsFrom 0 false _) = _
  rw [List.replicate_succ, startsFrom_cons, endsFrom_cons]
  show (0 :: startsFrom 1 true _).zip (endsFrom 1 true _) = _
  rw [startsFrom_true, endsFrom_true, Nat.add_comm]
  rfl

theorem encodeFrame_black (npix : Nat) : encodeFrame (uniform npix 0) (uniform npix 0) = [] := by
  have same : changedPixels (uniform npix 0) (uniform npix 0) = List.replicate npix false := by
    rw [changedPixels, uniform, List.zipWith_replicate, Nat.min_self]
    rfl
  have none : (List.replicate npix false).any id = false := by
    rw [List.any_eq_false]
    intro b mem
    rw [List.eq_of_mem_replicate mem]
    exact Bool.false_ne_true
  rw [encodeFrame, same, none]
  rfl

theorem encodeFrame_uniform {c : Pixel} (some : 0 < npix) (lit : c ≠ 0) :
    encodeFrame (uniform npix c) (uniform npix 0) =
      le32 0 ++ le32 npix ++ pixelBytes (uniform npix c) := by
  obtain ⟨n, rfl⟩ := Nat.exists_eq_succ_of_ne_zero (Nat.ne_of_gt some)
  have differ : changedPixels (uniform (n + 1) c) (uniform (n + 1) 0) =
      List.replicate (n + 1) true := by
    rw [changedPixels, uniform, uniform, List.zipWith_replicate, Nat.min_self,
      bne_iff_ne.mpr lit]
  have any : (List.replicate (n + 1) true).any id = true := List.any_cons
  rw [encodeFrame, differ, runs_replicate, if_pos any, encodeRuns, encodeRuns, List.append_nil,
    List.drop_zero, Nat.sub_zero, Nat.sub_zero, uniform, List.take_replicate, Nat.min_self]

theorem Shows.first {c : Pixel} (shows : Shows frame (uniform npix c)) (some : 0 < npix) :
    frame 0 = c := by
  have first := shows 0 (by rwa [uniform, List.length_replicate])
  rwa [uniform, List.getD_eq_getElem _ _ (by rwa [List.length_replicate]),
    List.getElem_replicate] at first

/-- The player makes of the first bytes the frame that was packed, for every single frame. -/
def Decodes (left : Bytes) (npix : Nat) : Prop :=
  ∀ fr : List Pixel, fr.length = npix → ∃ frame,
    firstShown (left ++ records (uniform npix 0) [fr]) npix = some frame ∧ Shows frame fr

theorem records_uniform {c : Pixel} (some : 0 < npix) (lit : c ≠ 0) :
    records (uniform npix 0) [uniform npix c] =
      le32 (8 + 4 * npix) ++ (le32 0 ++ (le32 npix ++ pixelBytes (uniform npix c))) := by
  rw [records, records, encodeFrame_uniform some lit, List.append_nil, List.append_assoc (le32 0)]
  congr 2
  simp only [List.length_append, length_le32, length_pixelBytes, uniform, List.length_replicate]
  omega

/-- **Four bytes or more** are the length of the first record and give every sequence the same first
frame. -/
theorem not_decodes_of_four {left : Bytes} (some : 0 < npix) (four : 4 ≤ left.length) :
    ¬Decodes left npix := by
  intro decodes
  have long : 4 + readLe32 left 0 ≤ left.length + 4 := by
    obtain ⟨frame, shown, -⟩ := decodes (uniform npix 0) List.length_replicate
    rw [firstShown, records, records, encodeFrame_black, readLe32_prefix four] at shown
    split_ifs at shown with short
    simp only [List.length_append, length_le32, List.length_nil] at short
    omega
  have both : ∀ c : Pixel, c ≠ 0 →
      (applyFrame (((left ++ le32 (8 + 4 * npix)).drop 4).take (readLe32 left 0)) npix 0 0
        fun _ => 0).2 0 = c := by
    intro c lit
    obtain ⟨frame, shown, shows⟩ := decodes (uniform npix c) List.length_replicate
    have isLength : readLe32 (left ++ le32 (8 + 4 * npix)) 0 = readLe32 left 0 :=
      readLe32_prefix four
    rw [records_uniform some lit, ← List.append_assoc, firstShown_append, isLength] at shown
    · cases shown
      exact shows.first some
    · rw [isLength, List.length_append, length_le32]
      exact long
  exact absurd ((both 1 (by decide)).symm.trans (both 2 (by decide))) (by decide)

/-- **With fewer bytes** the player takes a part of the header of a segment for another, and a frame
of one colour loses its first pixel. -/
theorem not_decodes_of_short {left : Bytes} (some : 0 < npix) (small : npix ≤ 230400)
    (full : left ≠ []) (short : left.length < 4) : ¬Decodes left npix := by
  intro decodes
  obtain ⟨frame, shown, shows⟩ := decodes (uniform npix 1) List.length_replicate
  rw [records_uniform some (by decide), firstShown] at shown
  split_ifs at shown
  cases shown
  have positive := List.length_pos_of_ne_nil full
  obtain ⟨k, isK, inside⟩ : ∃ k, left.length + k = 4 ∧ k < 4 := ⟨4 - left.length, by omega⟩
  have isSkip := readLe32_append left
    (le32 (8 + 4 * npix) ++ (le32 0 ++ (le32 npix ++ pixelBytes (uniform npix 1)))) k
  have isCount := readLe32_append (left ++ le32 (8 + 4 * npix))
    (le32 0 ++ (le32 npix ++ pixelBytes (uniform npix 1))) k
  rw [isK, readLe32_between _ _ _ inside] at isSkip
  rw [List.append_assoc, List.length_append, length_le32, Nat.add_right_comm, isK,
    readLe32_between _ _ _ inside] at isCount
  have first := shows.first some
  rw [applyFrame_first] at first
  · exact absurd first (by decide)
  · intro eight
    rw [List.length_take] at eight
    have long := Nat.le_trans eight (Nat.min_le_left _ _)
    rw [readLe32_take (Nat.le_trans (by decide) long), readLe32_take long, readLe32_drop,
      readLe32_drop, isSkip, isCount]
    obtain rfl | rfl | rfl : k = 1 ∨ k = 2 ∨ k = 3 := by omega
    · omega
    · omega
    · omega

theorem decodes_nil_of {left : Bytes} (size : Supported w h) (decodes : Decodes left (w * h)) :
    left = [] := by
  by_contra full
  obtain ⟨some, small⟩ := size.pixels
  by_cases four : 4 ≤ left.length
  · exact not_decodes_of_four some four decodes
  · exact not_decodes_of_short some small full (Nat.not_le.mp four) decodes

end Leftover

/-! ## When the frames are played -/

section Sequences

variable {hda : Hda} {w h fps arate ach : Nat} {pcm : Bytes}

/-- Every sequence of frames that is packed with this audio is played. -/
def PlaysAll (hda : Hda) (w h fps : Nat) (pcm : Bytes) (arate ach : Nat) : Prop :=
  ∀ (frames : List (List Pixel)) (data : Bytes), frames ≠ [] → (∀ fr ∈ frames, fr.length = w * h) →
    pack frames w h fps pcm arate ach = some data → Plays hda data frames

theorem pack_single (size : Supported w h)
    (fits : ∀ word ∈ [fps, arate, ach, sampleFrames pcm ach], word < 2 ^ 32) (fr : List Pixel) :
    ∃ data, pack [fr] w h fps pcm arate ach = some data := by
  have narrow := size.narrow
  have low := size.low
  have words : ∀ word ∈ headerWords w h fps 1 arate ach (sampleFrames pcm ach), word < 2 ^ 32 := by
    rw [maxW] at narrow
    rw [maxH] at low
    simp only [headerWords, List.forall_mem_cons] at fits ⊢
    exact ⟨by omega, by omega, fits.1, by decide, fits.2.1, fits.2.2.1, fits.2.2.2⟩
  rw [pack]
  exact ⟨_, if_pos words⟩

/-- When every frame is played alone, no audio is left over. -/
theorem whole_of_playsAll (size : Supported w h)
    (fits : ∀ word ∈ [fps, arate, ach, sampleFrames pcm ach], word < 2 ^ 32)
    (plays : PlaysAll hda w h fps pcm arate ach) : Whole pcm ach := by
  rw [whole_iff]
  refine decodes_nil_of size ?_
  intro fr isSize
  obtain ⟨data, packed⟩ := pack_single size fits fr
  refine firstShown_of_plays size packed (plays [fr] data (List.cons_ne_nil _ _) ?_ packed)
  intro other mem
  rwa [List.mem_singleton.mp mem]

/-- **A frame record decodes to its frame, and the packed frames are played in order exactly when the
audio is a whole number of sample frames.** -/
theorem plays_iff (hda : Hda) (pcm : Bytes) (size : Supported w h)
    (fits : ∀ word ∈ [fps, arate, ach, sampleFrames pcm ach], word < 2 ^ 32) :
    (∀ (prev cur : List Pixel) (frame : FrameBuffer), prev.length = w * h → cur.length = w * h →
      Shows frame prev → ∃ frame', applyFrame (encodeFrame cur prev) (w * h) 0 0 frame =
        (true, frame') ∧ Shows frame' cur) ∧
    (PlaysAll hda w h fps pcm arate ach ↔ Whole pcm ach) := by
  refine ⟨?_, whole_of_playsAll size fits, ?_⟩
  · intro prev cur frame isPrev isCur shows
    have small := size.pixels.2
    rw [← isCur] at small ⊢
    exact applyFrame_encodeFrame (isCur.trans isPrev.symm) (by omega) shows
  · intro whole frames data _ sizes packed
    exact plays_of_whole size whole sizes packed

theorem plays_iff_sample :
    PlaysAll ⟨true, 4096⟩ 2 1 25 [1, 2, 3, 4] 44100 2 ∧ ¬PlaysAll ⟨true, 4096⟩ 2 1 25 [1, 2, 3] 44100 2 := by
  have size : Supported 2 1 := ⟨by decide, by decide, by decide, by decide⟩
  refine ⟨(plays_iff ⟨true, 4096⟩ [1, 2, 3, 4] size (by decide)).2.mpr (by decide), ?_⟩
  intro plays
  exact absurd ((plays_iff ⟨true, 4096⟩ [1, 2, 3] size (by decide)).2.mp plays) (by decide)

/-- One byte of audio, and the one frame is not shown. -/
theorem not_plays_one_byte : ∃ data, pack [[0x112233]] 1 1 25 [7] 44100 2 = some data ∧
    ¬Plays ⟨true, 4096⟩ data [[0x112233]] := by
  have size : Supported 1 1 := ⟨by decide, by decide, by decide, by decide⟩
  obtain ⟨data, packed⟩ :=
    @pack_single 1 1 25 44100 2 [7] size (by decide) [0x112233]
  refine ⟨data, packed, ?_⟩
  intro plays
  obtain ⟨frame, shown, -⟩ := firstShown_of_plays size packed plays
  have none : (leftover [7] 2 ++ records (List.replicate (1 * 1) 0) [[0x112233]]).length <
      4 + readLe32 (leftover [7] 2 ++ records (List.replicate (1 * 1) 0) [[0x112233]]) 0 := by decide
  rw [firstShown, if_pos none] at shown
  cases shown

end Sequences
end RustyPenguin.Video
