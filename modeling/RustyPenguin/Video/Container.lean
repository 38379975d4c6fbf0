import RustyPenguin.Foundation.Members
import RustyPenguin.Video.Codec

/-!
# The container

A header of eight words, the audio, and the frames, each with its length before it. The packer writes
the audio as it is; in the header it puts the number of its sample frames, rounded down, and the
player computes from this where the frames start.

When the audio is a whole number of sample frames the player shows the frames that were packed, in
order; when it is not, the frames start too early and there are frames that it does not show
(`plays_iff`).
-/

set_option autoImplicit false

namespace RustyPenguin.Video

open Foundation

def magic : Bytes := [0x52, 0x50, 0x56, 0x31]

/-! ## The packer -/

/-- `asamps`: the sample frames of the audio, of two bytes for each channel. -/
def sampleFrames (pcm : Bytes) (ach : Nat) : Nat := if ach = 0 then 0 else pcm.length / (ach * 2)

/-- The records of the frames. -/
def records (prev : List Pixel) : List (List Pixel) → Bytes
  | [] => []
  | fr :: frames =>
    le32 (encodeFrame fr prev).length ++ encodeFrame fr prev ++ records fr frames

/-- The words of the header. -/
def headerWords (w h fps nframes arate ach asamps : Nat) : List Nat :=
  [w, h, fps, nframes, arate, ach, asamps]

/-- `pack`, of frames of `w * h` pixels. A word that does not fit is an error. -/
def pack (frames : List (List Pixel)) (w h fps : Nat) (pcm : Bytes) (arate ach : Nat) :
    Option Bytes :=
  let words := headerWords w h fps frames.length arate ach (sampleFrames pcm ach)
  if ∀ word ∈ words, word < 2 ^ 32 then
    some (magic ++ words.flatMap le32 ++ pcm ++ records (List.replicate (w * h) 0) frames)
  else none

/-! ## The player -/

def maxW : Nat := 640

def maxH : Nat := 360

structure Header where
  width : Nat
  height : Nat
  fps : Nat
  nframes : Nat
  arate : Nat
  ach : Nat
  asamps : Nat

def parseHeader (data : Bytes) : Option Header :=
  if data.length < 32 ∨ data.take 4 ≠ magic then none
  else
    let h : Header :=
      { width := readLe32 data 4
        height := readLe32 data 8
        fps := max (readLe32 data 12) 1
        nframes := readLe32 data 16
        arate := readLe32 data 20
        ach := readLe32 data 24
        asamps := readLe32 data 28 }
    if h.width = 0 ∨ h.height = 0 ∨ maxW < h.width ∨ maxH < h.height then none else some h

/-- The audio device: whether it is ready, and the size of its ring. -/
structure Hda where
  ready : Bool
  ringBytes : Nat

/-- The player, with the frame buffer and what was written to the audio ring. -/
structure VideoState where
  data : Bytes
  w : Nat
  h : Nat
  nframes : Nat
  fps : Nat
  framesStart : Nat
  curOff : Nat
  curFrame : Nat
  pcmOff : Nat
  pcmLen : Nat
  apos : Nat
  ring : Nat
  arate : Nat
  haveAudio : Bool
  frame : FrameBuffer
  written : List (Nat × Bytes)

/-- `service_open`, with the packed dimensions. -/
def serviceOpen (hda : Hda) (data : Bytes) : Option (VideoState × BitVec 64) :=
  (parseHeader data).map fun h =>
    let pcmBytes := h.asamps * h.ach * 2
    let pcmLen := if 32 + pcmBytes ≤ data.length then pcmBytes else 0
    let haveAudio := decide (0 < pcmLen) && hda.ready && h.ach == 2 && h.arate == 44100
    let prime := min pcmLen hda.ringBytes
    ({ data := data
       w := h.width
       h := h.height
       nframes := h.nframes
       fps := h.fps
       framesStart := 32 + pcmBytes
       curOff := 32 + pcmBytes
       curFrame := 0
       pcmOff := 32
       pcmLen := pcmLen
       apos := if haveAudio then prime else 0
       ring := if haveAudio then prime % max hda.ringBytes 1 else 0
       arate := h.arate
       haveAudio := haveAudio
       frame := fun _ => 0
       written := if haveAudio then [(0, (data.drop 32).take prime)] else [] },
      BitVec.ofNat 64 h.width <<< 48 ||| BitVec.ofNat 64 h.height <<< 32 |||
        BitVec.ofNat 64 h.fps <<< 24 ||| (BitVec.ofNat 64 h.nframes &&& 0xFFFFFF))

/-- The start again after the last frame. -/
def VideoState.rewind (s : VideoState) : VideoState :=
  if s.nframes ≤ s.curFrame then
    { s with curOff := s.framesStart, curFrame := 0, apos := 0, ring := 0, frame := fun _ => 0 }
  else s

/-- The highest of every 32nd sample. -/
def peakOf (chunk : Bytes) : Nat :=
  (List.range chunk.length).foldl (fun peak k =>
    if 64 * k + 1 < chunk.length then
      max peak (BitVec.ofNat 16 (chunk.getD (64 * k) 0).toNat |||
        BitVec.ofNat 16 (chunk.getD (64 * k + 1) 0).toNat <<< 8).toInt.natAbs
    else peak) 0

/-- The audio of a frame: the state after it and the level. -/
def VideoState.stream (s : VideoState) (hda : Hda) : VideoState × Nat :=
  let bpf := s.arate * 4 / s.fps
  if s.haveAudio ∧ 0 < s.fps ∧ 0 < bpf ∧ s.apos < s.pcmLen then
    let stop := min (s.apos + bpf) s.pcmLen
    let chunk := (s.data.drop (s.pcmOff + s.apos)).take (stop - s.apos)
    ({ s with
        written := s.written ++ [(s.ring, chunk)]
        ring := (s.ring + chunk.length) % max hda.ringBytes 1
        apos := stop },
      peakOf chunk * 255 / 32768)
  else (s, 0)

/-- `service_advance`, with the level and the number of the frame in one word. -/
def VideoState.advance (s : VideoState) (hda : Hda) : VideoState × BitVec 64 :=
  let s := s.rewind
  if s.data.length < s.curOff + 4 then (s, BitVec.ofNat 64 s.curFrame)
  else
    let seglen := readLe32 s.data s.curOff
    if s.data.length < s.curOff + 4 + seglen then (s, BitVec.ofNat 64 s.curFrame)
    else
      let seg := (s.data.drop (s.curOff + 4)).take seglen
      let s := { s with
        frame := (applyFrame seg (s.w * s.h) 0 0 s.frame).2
        curOff := s.curOff + 4 + seglen
        curFrame := s.curFrame + 1 }
      ((s.stream hda).1,
        BitVec.ofNat 64 (s.stream hda).2 <<< 32 ||| (BitVec.ofNat 64 s.curFrame &&& 0xFFFFFFFF))

/-- The player after some steps. -/
def VideoState.after (s : VideoState) (hda : Hda) : Nat → VideoState
  | 0 => s
  | k + 1 => ((s.after hda k).advance hda).1

/-- The player shows the frames that were packed: after each step it is at the next frame and shows
it. -/
def Plays (hda : Hda) (data : Bytes) (frames : List (List Pixel)) : Prop :=
  ∃ s dims, serviceOpen hda data = some (s, dims) ∧ ∀ k fr, frames[k]? = some fr →
    (s.after hda (k + 1)).curFrame = k + 1 ∧ Shows (s.after hda (k + 1)).frame fr

/-- The audio is a whole number of sample frames. -/
def Whole (pcm : Bytes) (ach : Nat) : Prop := sampleFrames pcm ach * ach * 2 = pcm.length

instance (pcm : Bytes) (ach : Nat) : Decidable (Whole pcm ach) := Nat.decEq _ _

/-! ## The header -/

section Opening

variable {hda : Hda} {frames : List (List Pixel)} {w h fps arate ach asamps : Nat} {pcm data : Bytes}
  {s : VideoState} {words : List Nat}

/-- A frame size that the player supports. -/
structure Supported (w h : Nat) : Prop where
  width : 0 < w
  height : 0 < h
  narrow : w ≤ maxW
  low : h ≤ maxH

theorem Supported.pixels (size : Supported w h) : 0 < w * h ∧ w * h ≤ 230400 := by
  refine ⟨Nat.mul_pos size.width size.height, ?_⟩
  exact Nat.mul_le_mul size.narrow size.low

/-- The words of the header are read where they are. -/
theorem readLe32_header (words : List Nat) (back : Bytes) {i : Nat} (inside : i < words.length) :
    readLe32 (magic ++ (words.flatMap le32 ++ back)) (4 + i * 4) = words.getD i 0 % 2 ^ 32 := by
  have behind := readLe32_append magic (words.flatMap le32 ++ back) (i * 4)
  exact behind.trans (readLe32_words words back inside)

/-- What is opened: the frames start behind the audio that the header counts. -/
structure Opened (s : VideoState) (data : Bytes) (w h nframes start : Nat) : Prop where
  data : s.data = data
  w : s.w = w
  h : s.h = h
  nframes : s.nframes = nframes
  start : s.curOff = start
  first : s.curFrame = 0
  black : s.frame = fun _ => 0

/-- The words of a header. -/
def IsHeader (data : Bytes) (words : List Nat) : Prop :=
  32 ≤ data.length ∧ data.take 4 = magic ∧ ∀ i, i < 7 → readLe32 data (4 + i * 4) = words.getD i 0

theorem isHeader_pack (packed : pack frames w h fps pcm arate ach = some data) :
    IsHeader data (headerWords w h fps frames.length arate ach (sampleFrames pcm ach)) := by
  rw [pack] at packed
  split_ifs at packed with fits
  cases packed
  rw [List.append_assoc, List.append_assoc]
  refine ⟨?_, rfl, ?_⟩
  · rw [← List.append_assoc, List.length_append, List.length_append, length_words]
    show 32 ≤ 4 + 4 * 7 + _
    exact Nat.le_add_right 32 _
  · intro i inside
    rw [readLe32_header _ _ inside, Nat.mod_eq_of_lt]
    rw [List.getD_eq_getElem _ _ inside]
    exact fits _ (List.getElem_mem inside)

theorem serviceOpen_header (hda : Hda) (size : Supported w h)
    (header : IsHeader data (headerWords w h fps frames.length arate ach asamps)) :
    ∃ s dims, serviceOpen hda data = some (s, dims) ∧
      Opened s data w h frames.length (32 + asamps * ach * 2) := by
  obtain ⟨long, isMagic, words⟩ := header
  have isWidth : readLe32 data 4 = w := words 0 (by decide)
  have isHeight : readLe32 data 8 = h := words 1 (by decide)
  have isFrames : readLe32 data 16 = frames.length := words 3 (by decide)
  have isAch : readLe32 data 24 = ach := words 5 (by decide)
  have isAsamps : readLe32 data 28 = asamps := words 6 (by decide)
  have known : ¬(data.length < 32 ∨ data.take 4 ≠ magic) := by
    rintro (short | other)
    · exact absurd long (Nat.not_le.mpr short)
    · exact other isMagic
  have fits : ¬(w = 0 ∨ h = 0 ∨ maxW < w ∨ maxH < h) := by
    have width := size.width
    have height := size.height
    have narrow := size.narrow
    have low := size.low
    omega
  rw [serviceOpen, parseHeader, if_neg known]
  dsimp only
  rw [isWidth, isHeight, if_neg fits]
  refine ⟨_, _, rfl, ⟨rfl, rfl, rfl, isFrames, ?_, rfl, rfl⟩⟩
  dsimp only
  rw [isAch, isAsamps]

end Opening

/-! ## A step -/

section Stepping

variable {hda : Hda} {s : VideoState} {npix : Nat}

/-- The audio does not touch the frames. -/
theorem stream_frames (s : VideoState) (hda : Hda) :
    (s.stream hda).1 = { s with
      written := (s.stream hda).1.written
      ring := (s.stream hda).1.ring
      apos := (s.stream hda).1.apos } := by
  rw [VideoState.stream]
  split
  · rfl
  · rfl

theorem stream_shown (frame : FrameBuffer) (curOff curFrame : Nat) (level : BitVec 64) :
    (({ s with frame, curOff, curFrame }.stream hda).1, level).1.frame = frame := by
  rw [stream_frames]

theorem rewind_of_lt (more : s.curFrame < s.nframes) : s.rewind = s := by
  rw [VideoState.rewind, if_neg (Nat.not_le.mpr more)]

/-- What a step does when the next record is there. -/
structure Stepped (s s' : VideoState) (seg : Bytes) : Prop where
  data : s'.data = s.data
  w : s'.w = s.w
  h : s'.h = s.h
  nframes : s'.nframes = s.nframes
  curOff : s'.curOff = s.curOff + 4 + seg.length
  curFrame : s'.curFrame = s.curFrame + 1
  frame : s'.frame = (applyFrame seg (s.w * s.h) 0 0 s.frame).2

theorem advance_record (hda : Hda) {front seg back : Bytes} (more : s.curFrame < s.nframes)
    (split : s.data = front ++ (le32 seg.length ++ seg ++ back)) (here : s.curOff = front.length)
    (short : seg.length < 2 ^ 32) : Stepped s (s.advance hda).1 seg := by
  have isLength : readLe32 s.data s.curOff = seg.length := by
    rw [split, here, List.append_assoc, readLe32_at, Nat.mod_eq_of_lt short]
  have size : s.data.length = s.curOff + 4 + seg.length + back.length := by
    rw [split, here]
    simp only [List.length_append, length_le32]
    omega
  have isSeg : (s.data.drop (s.curOff + 4)).take seg.length = seg := by
    have before : s.curOff + 4 = (front ++ le32 seg.length).length := by
      rw [List.length_append, length_le32, here]
    rw [before, split, List.append_assoc, ← List.append_assoc front, List.drop_left, List.take_left]
  rw [VideoState.advance, rewind_of_lt more]
  dsimp only
  rw [if_neg (by omega), isLength, if_neg (by omega), isSeg, stream_frames]
  exact ⟨rfl, rfl, rfl, rfl, rfl, rfl, rfl⟩

/-- A step leaves the player as it is, or a whole record is there and is decoded. -/
theorem advance_moved (hda : Hda) (more : s.curFrame < s.nframes) :
    (s.advance hda).1 = s ∨ s.curOff + 4 + readLe32 s.data s.curOff ≤ s.data.length ∧
      (s.advance hda).1.frame =
        (applyFrame ((s.data.drop (s.curOff + 4)).take (readLe32 s.data s.curOff))
          (s.w * s.h) 0 0 s.frame).2 := by
  rw [VideoState.advance, rewind_of_lt more]
  dsimp only
  split_ifs with short cut
  · exact Or.inl rfl
  · exact Or.inl rfl
  · refine Or.inr ⟨Nat.not_lt.mp cut, ?_⟩
    exact stream_shown _ _ _ _

end Stepping

end RustyPenguin.Video
