import RustyPenguin.Vmm.Paging

/-!
# Bytes of memory

Memory is made of words; the kernel also writes bytes, through its direct map of memory. A byte is
a lane of its word. The bytes of a frame are those at its base and the 4095 addresses after it, and
copying bytes into a frame leaves the words of every other frame as they are.
-/

set_option autoImplicit false

namespace RustyPenguin.Vmm

/-! ## Bytes of words -/

/-- The byte of a word in a lane. -/
def lane (word : BitVec 64) (k : Nat) : BitVec 8 := word.extractLsb' (8 * k) 8

def laneMask : BitVec 64 := 0xFF

def setLane (word : BitVec 64) (k : Nat) (byte : BitVec 8) : BitVec 64 :=
  word &&& ~~~(laneMask <<< (8 * k)) ||| byte.setWidth 64 <<< (8 * k)

theorem laneBit (k : Nat) : laneMask.getLsbD k = decide (k < 8) := by
  by_cases inside : k < 64
  · exact (by decide : ∀ k, k < 64 → laneMask.getLsbD k = decide (k < 8)) k inside
  · rw [BitVec.getLsbD_of_ge _ _ (Nat.le_of_not_lt inside)]
    exact (decide_eq_false (by omega)).symm

theorem lane_setLane {word : BitVec 64} {byte : BitVec 8} {j k : Nat} (first : j < 8)
    (second : k < 8) : lane (setLane word k byte) j = if j = k then byte else lane word j := by
  refine BitVec.eq_of_getLsbD_eq fun i inside => ?_
  have place : 8 * j + i < 64 := by omega
  simp only [lane, setLane, BitVec.getLsbD_extractLsb', BitVec.getLsbD_or, BitVec.getLsbD_and,
    BitVec.getLsbD_not, BitVec.getLsbD_shiftLeft, BitVec.getLsbD_setWidth, laneBit, inside, place,
    decide_true, Bool.true_and]
  split
  · rename_i same
    subst same
    have start : 8 * j + i - 8 * j = i := by omega
    have low : ¬8 * j + i < 8 * j := by omega
    simp only [start, low, inside, show i < 64 by omega, decide_true, decide_false, Bool.not_false,
      Bool.not_true, Bool.and_false, Bool.and_true, Bool.true_and, Bool.false_or]
  · rename_i other
    simp only [BitVec.getLsbD_extractLsb', inside, decide_true, Bool.true_and]
    by_cases low : 8 * j + i < 8 * k
    · simp only [low, decide_true, Bool.not_true, Bool.false_and, Bool.not_false, Bool.and_true,
        Bool.or_false]
    · have high : ¬8 * j + i - 8 * k < 8 := by omega
      have none : byte.getLsbD (8 * j + i - 8 * k) = false :=
        BitVec.getLsbD_of_ge _ _ (by omega)
      simp only [high, none, decide_false, Bool.and_false, Bool.not_false, Bool.and_true,
        Bool.or_false]

/-- The word a byte is in. -/
def wordOf (addr : Nat) : Nat := addr / 8 * 8

def readByte (mem : Memory) (addr : Nat) : BitVec 8 := lane (mem (wordOf addr)) (addr % 8)

def writeByte (mem : Memory) (addr : Nat) (byte : BitVec 8) : Memory := fun a =>
  if a = wordOf addr then setLane (mem a) (addr % 8) byte else mem a

/-- Copy bytes to an address. -/
def copyBytes (mem : Memory) (dst : Nat) : List (BitVec 8) → Memory
  | [] => mem
  | byte :: rest => copyBytes (writeByte mem dst byte) (dst + 1) rest

section Bytes

variable {mem mem' : Memory} {a b : Nat} {byte : BitVec 8}

@[simp] theorem readByte_writeByte :
    readByte (writeByte mem a byte) b = if b = a then byte else readByte mem b := by
  rw [readByte, writeByte]
  by_cases word : wordOf b = wordOf a
  · rw [if_pos word, lane_setLane (Nat.mod_lt _ (by decide)) (Nat.mod_lt _ (by decide))]
    rw [wordOf, wordOf] at word
    by_cases same : b = a
    · rw [if_pos (congrArg (· % 8) same), if_pos same]
    · rw [if_neg (by omega), if_neg same]
      rfl
  · rw [if_neg word, if_neg]
    · rfl
    · rintro rfl
      exact word rfl

/-- Bytes that are copied are there, and the others are as they were. -/
theorem readByte_copyBytes (bytes : List (BitVec 8)) : ∀ {mem : Memory} {dst : Nat},
    readByte (copyBytes mem dst bytes) a =
      if dst ≤ a then bytes.getD (a - dst) (readByte mem a) else readByte mem a := by
  induction bytes with
  | nil =>
    intro mem dst
    rw [copyBytes, List.getD_nil, ite_self]
  | cons byte rest ih =>
    intro mem dst
    rw [copyBytes, ih, readByte_writeByte]
    by_cases below : dst + 1 ≤ a
    · have next : a - dst = (a - (dst + 1)) + 1 := by omega
      have other : a ≠ dst := by omega
      have above : dst ≤ a := by omega
      rw [if_neg other, if_pos below, if_pos above, next, List.getD_cons_succ]
    · rw [if_neg below]
      by_cases here : a = dst
      · subst here
        rw [if_pos rfl, if_pos (Nat.le_refl a), Nat.sub_self, List.getD_cons_zero]
      · have under : ¬dst ≤ a := by omega
        rw [if_neg here, if_neg under]

/-- Copying stays in the words it writes to. -/
theorem copyBytes_away (bytes : List (BitVec 8)) : ∀ {mem : Memory} {dst : Nat},
    (∀ i, i < bytes.length → a ≠ wordOf (dst + i)) → copyBytes mem dst bytes a = mem a := by
  induction bytes with
  | nil => intro mem dst _; rfl
  | cons byte rest ih =>
    intro mem dst away
    rw [copyBytes, ih, writeByte, if_neg]
    · exact away 0 (Nat.succ_pos _)
    · intro i inside
      rw [Nat.add_assoc, Nat.add_comm 1 i]
      exact away (i + 1) (Nat.succ_lt_succ inside)

end Bytes

/-! ## Bytes of frames -/

/-- A byte of a frame. -/
def frameByte (mem : Memory) (frame : BitVec 64) (off : Nat) : BitVec 8 :=
  readByte mem (frame.toNat + off)

section Frame

variable {mem mem' : Memory} {f g : BitVec 64} {off : Nat}

theorem wordOf_frame (isFrame : IsFrame f) (inside : off < 4096) :
    wordOf (f.toNat + off) = f.toNat + off / 8 * 8 ∧ off / 8 < 512 := by
  have aligned := (isFrame_iff.mp isFrame).1
  rw [wordOf]
  omega

/-- A frame with the same words has the same bytes. -/
theorem frameByte_congr (isFrame : IsFrame f) (same : ∀ j, read64 mem' f j = read64 mem f j)
    (inside : off < 4096) : frameByte mem' f off = frameByte mem f off := by
  obtain ⟨word, small⟩ := wordOf_frame isFrame inside
  have words := same ⟨off / 8, small⟩
  rw [read64, read64] at words
  rw [frameByte, frameByte, readByte, readByte, word]
  exact congrArg (lane · _) words

theorem frameByte_zeroFrame (isFrame : IsFrame f) (inside : off < 4096) :
    frameByte (zeroFrame mem f) f off = 0 := by
  obtain ⟨word, small⟩ := wordOf_frame isFrame inside
  rw [frameByte, readByte, word, zeroFrame, if_pos (by omega), lane]
  exact BitVec.extractLsb'_zero

theorem frameByte_copyBytes {start : Nat} (bytes : List (BitVec 8)) :
    frameByte (copyBytes mem (f.toNat + start) bytes) f off =
      if start ≤ off then bytes.getD (off - start) (frameByte mem f off)
      else frameByte mem f off := by
  rw [frameByte, readByte_copyBytes, Nat.add_sub_add_left]
  by_cases after : start ≤ off
  · rw [if_pos after, if_pos (Nat.add_le_add_left after _)]
    rfl
  · rw [if_neg after, if_neg (by omega)]
    rfl

/-- Copying into a frame leaves the words of every other frame. -/
theorem read64_copyBytes {start : Nat} {bytes : List (BitVec 8)} (first : IsFrame f)
    (second : IsFrame g) (other : g ≠ f) (fits : start + bytes.length ≤ 4096) (j : Fin 512) :
    read64 (copyBytes mem (f.toNat + start) bytes) g j = read64 mem g j := by
  refine copyBytes_away bytes fun i inside same => other ?_
  obtain ⟨word, small⟩ := wordOf_frame first (show start + i < 4096 by omega)
  rw [Nat.add_assoc, word] at same
  exact (slot_inj second first (j := ⟨_, small⟩) same).1

end Frame

end RustyPenguin.Vmm
