import RustyPenguin.Foundation.Layers
import RustyPenguin.Vmm.Contents

/-!
# Segments of an ELF file

An ELF file lists its segments in program headers. A loadable segment says which bytes of the file
go to which addresses, and how many zeros follow them. Both kinds of loader read the same fields;
they differ in where they put the bytes.

The scheduled loaders work page by page. `Segment.fill` is what they copy into the fresh zeroed
frame of a page, and `Segment.byteAt` the byte the segment asks for at an address. For a segment
that is in its file and whose addresses do not wrap, the pages hold these bytes
(`Segment.contents_eq`).
-/

set_option autoImplicit false

namespace RustyPenguin.Elf

open Vmm (pageNumber lowPages)

/-- The bytes of a file. -/
abbrev File : Type := List (BitVec 8)

/-! ## Reading -/

def byteOf (b : File) (o : Nat) : BitVec 8 := b.getD o 0

/-- Reading past the end of the file panics. -/
def rdU16 (b : File) (o : Nat) : Option (BitVec 16) :=
  if o + 2 ≤ b.length then some (byteOf b (o + 1) ++ byteOf b o) else none

def rdU32 (b : File) (o : Nat) : Option (BitVec 32) :=
  if o + 4 ≤ b.length then
    some (byteOf b (o + 3) ++ byteOf b (o + 2) ++ byteOf b (o + 1) ++ byteOf b o)
  else none

def rdU64 (b : File) (o : Nat) : Option (BitVec 64) := do
  let low ← rdU32 b o
  let high ← rdU32 b (o + 4)
  return high ++ low

/-- The bytes `\x7f`, `E`, `L`, `F`. -/
def elfMagic : File := [0x7f, 0x45, 0x4c, 0x46]

def isElf (elf : File) : Bool := 64 ≤ elf.length ∧ elf.take 4 = elfMagic

/-- The table of program headers: where it is, how many there are and how long each is. -/
structure HeaderTable where
  phoff : BitVec 64
  phnum : BitVec 16
  phent : BitVec 16
  deriving DecidableEq

def headerTable (elf : File) : Option HeaderTable := do
  let phoff ← rdU64 elf 32
  let phnum ← rdU16 elf 56
  let phent ← rdU16 elf 54
  return ⟨phoff, phnum, phent⟩

/-- Where a program header is. -/
def HeaderTable.entry (table : HeaderTable) (s : Nat) : BitVec 64 :=
  table.phoff + BitVec.ofNat 64 (s * table.phent.toNat)

/-- A program header, as far as the loaders read it. -/
structure Phdr where
  type : BitVec 32
  offset : BitVec 64
  vaddr : BitVec 64
  filesz : BitVec 64
  memsz : BitVec 64
  deriving DecidableEq

def ptLoad : BitVec 32 := 1
def ptInterp : BitVec 32 := 3

/-- The header ends inside the file. -/
def headerFits (elf : File) (ph : BitVec 64) : Bool := (ph + 56).toNat ≤ elf.length

def phdrAt (elf : File) (ph : BitVec 64) : Option Phdr := do
  let type ← rdU32 elf ph.toNat
  let offset ← rdU64 elf (ph.toNat + 8)
  let vaddr ← rdU64 elf (ph.toNat + 16)
  let filesz ← rdU64 elf (ph.toNat + 32)
  let memsz ← rdU64 elf (ph.toNat + 40)
  return ⟨type, offset, vaddr, filesz, memsz⟩

/-! ## Segments -/

/-- A loadable segment, with the file it is in and its address after the bias. -/
structure Segment where
  elf : File
  offset : BitVec 64
  vaddr : BitVec 64
  filesz : BitVec 64
  memsz : BitVec 64
  deriving DecidableEq

def Phdr.segment (ph : Phdr) (elf : File) (bias : BitVec 64) : Segment :=
  ⟨elf, ph.offset, ph.vaddr + bias, ph.filesz, ph.memsz⟩

/-- The segment of a program header, if it is loadable. A header that is not inside the file is
passed over. -/
def segmentAt (elf : File) (bias : BitVec 64) (table : HeaderTable) (s : Nat) :
    Option (Option Segment) :=
  let ph := table.entry s
  if headerFits elf ph then
    (phdrAt elf ph).map fun header =>
      if header.type = ptLoad then some (header.segment elf bias) else none
  else some none

namespace Segment

/-- The first address of the first page. -/
def start (seg : Segment) : BitVec 64 := seg.vaddr &&& ~~~0xFFF

/-- The first address after the last page. -/
def stop (seg : Segment) : BitVec 64 := (seg.vaddr + seg.memsz + 0xFFF) &&& ~~~0xFFF

def pageCount (seg : Segment) : Nat := (seg.stop.toNat - seg.start.toNat) / 4096

def pageAt (seg : Segment) (i : Nat) : BitVec 64 := seg.start + BitVec.ofNat 64 (i * 4096)

/-- What is copied into the frame of the page at `va`: where, and which bytes. Where the file is too
short nothing is copied. A sum that wraps around to a place in the file makes the copy leave the
file, and there is no answer. -/
def fill (seg : Segment) (va : BitVec 64) : Option (Nat × List (BitVec 8)) :=
  let fileVaEnd := seg.vaddr + seg.filesz
  let cs := max va.toNat seg.vaddr.toNat
  let ce := min (va + 4096).toNat fileVaEnd.toNat
  if cs < ce then
    let srcOff := seg.offset + BitVec.ofNat 64 (cs - seg.vaddr.toNat)
    let dstOff := cs - va.toNat
    let len := ce - cs
    if (srcOff + BitVec.ofNat 64 len).toNat ≤ seg.elf.length then
      if srcOff.toNat + len ≤ seg.elf.length then
        some (dstOff, (seg.elf.drop srcOff.toNat).take len)
      else none
    else some (0, [])
  else some (0, [])

/-- A byte of a frame of zeros that bytes were copied into. -/
def copied (off : Nat) : Option (Nat × List (BitVec 8)) → BitVec 8
  | some (dstOff, bytes) => if dstOff ≤ off then bytes.getD (off - dstOff) 0 else 0
  | none => 0

/-- What the frame of the page at `va` holds. -/
def contents (seg : Segment) (va : BitVec 64) (off : Nat) : BitVec 8 := copied off (seg.fill va)

/-! ## What a segment asks for -/

/-- How many bytes the segment has. -/
def size (seg : Segment) : Nat := max seg.filesz.toNat seg.memsz.toNat

/-- An address is one of the segment's bytes. -/
def Has (seg : Segment) (a : Nat) : Prop :=
  seg.vaddr.toNat ≤ a ∧ a < seg.vaddr.toNat + seg.size

/-- The byte of the file at an address, and zero where the file part does not reach. -/
def byteAt (seg : Segment) (a : Nat) : BitVec 8 :=
  if seg.vaddr.toNat ≤ a ∧ a < seg.vaddr.toNat + seg.filesz.toNat then
    byteOf seg.elf (seg.offset.toNat + (a - seg.vaddr.toNat))
  else 0

/-- The file is not too short for the segment. -/
def InFile (seg : Segment) : Prop :=
  seg.filesz = 0 ∨ seg.offset.toNat + seg.filesz.toNat ≤ seg.elf.length

/-- All bytes are in the lower half of the addresses. -/
def Low (seg : Segment) : Prop := ∀ a, seg.Has a → a < 2 ^ 47

/-- The segment has no more bytes in the file than in memory, as the format demands. -/
def Proper (seg : Segment) : Prop := seg.filesz.toNat ≤ seg.memsz.toNat

/-- The segment can be loaded as it asks. -/
structure Loadable (seg : Segment) : Prop where
  proper : seg.Proper
  inFile : seg.InFile
  low : seg.Low
  length : seg.elf.length < 2 ^ 63

/-! ## Pages -/

/-- Clearing the low bits gives the base of the page. -/
theorem toNat_pageBase (v : BitVec 64) : (v &&& ~~~(0xFFF : BitVec 64)).toNat = v.toNat / 4096 * 4096 := by
  have shifts : v &&& ~~~(0xFFF : BitVec 64) = v >>> 12 <<< 12 := by
    refine BitVec.eq_of_getLsbD_eq fun k inside => ?_
    simp only [BitVec.getLsbD_and, BitVec.getLsbD_not, BitVec.getLsbD_shiftLeft,
      BitVec.getLsbD_ushiftRight, Vmm.lowBit, inside, decide_true, Bool.true_and]
    by_cases low : k < 12
    · simp [low]
    · simp [low, Nat.add_sub_cancel' (Nat.le_of_not_lt low)]
  have small := v.isLt
  rw [shifts, BitVec.toNat_shiftLeft, BitVec.toNat_ushiftRight, Nat.shiftRight_eq_div_pow,
    Nat.shiftLeft_eq]
  exact Nat.mod_eq_of_lt (by omega)

theorem start_toNat (seg : Segment) : seg.start.toNat = seg.vaddr.toNat / 4096 * 4096 :=
  toNat_pageBase seg.vaddr

theorem stop_toNat (seg : Segment) :
    seg.stop.toNat = (seg.vaddr.toNat + seg.memsz.toNat + 4095) % 2 ^ 64 / 4096 * 4096 := by
  rw [stop, toNat_pageBase, BitVec.toNat_add, BitVec.toNat_add]
  show ((seg.vaddr.toNat + seg.memsz.toNat) % 2 ^ 64 + 4095) % 2 ^ 64 / 4096 * 4096 = _
  omega

variable {seg : Segment} {a i page off : Nat}

theorem size_of_proper (proper : seg.Proper) : seg.size = seg.memsz.toNat :=
  Nat.max_eq_right proper

/-- The bytes of a low segment end in the lower half. -/
theorem Low.end_le (low : seg.Low) (some : 0 < seg.size) :
    seg.vaddr.toNat + seg.size ≤ 2 ^ 47 := by
  have last := low (seg.vaddr.toNat + seg.size - 1) ⟨by omega, by omega⟩
  omega

/-- The pages of a loadable segment, counted up from the first without wrapping. -/
theorem Loadable.pageAt_toNat (loadable : seg.Loadable) (inside : i < seg.pageCount) :
    (seg.pageAt i).toNat = seg.vaddr.toNat / 4096 * 4096 + i * 4096 ∧
      (0 < seg.size → (seg.pageAt i).toNat < seg.vaddr.toNat + seg.size ∧
        seg.vaddr.toNat + seg.size ≤ 2 ^ 47) := by
  have size := size_of_proper loadable.proper
  have small := seg.vaddr.isLt
  rw [pageCount, start_toNat, stop_toNat] at inside
  rw [pageAt, BitVec.toNat_add, start_toNat, BitVec.toNat_ofNat]
  by_cases some : 0 < seg.size
  · have ends := loadable.low.end_le some
    omega
  · omega

/-- A page of the segment, by its number. -/
def Takes (seg : Segment) (page : Nat) : Prop :=
  ∃ i, i < seg.pageCount ∧ pageNumber (seg.pageAt i) = page

/-- **A loadable segment takes the page of each of its bytes.** -/
theorem Loadable.takes (loadable : seg.Loadable) (has : seg.Has a) : seg.Takes (a / 4096) := by
  obtain ⟨above, below⟩ := has
  have size := size_of_proper loadable.proper
  have ends := loadable.low.end_le (by omega)
  have inside : a / 4096 - seg.vaddr.toNat / 4096 < seg.pageCount := by
    rw [pageCount, start_toNat, stop_toNat]
    omega
  refine ⟨a / 4096 - seg.vaddr.toNat / 4096, inside, ?_⟩
  rw [pageNumber, (loadable.pageAt_toNat inside).1]
  omega

/-! ## Contents -/

theorem toNat_add_ofNat {x : BitVec 64} {k : Nat} (fits : x.toNat + k < 2 ^ 64) :
    (x + BitVec.ofNat 64 k).toNat = x.toNat + k := by
  rw [BitVec.toNat_add, BitVec.toNat_ofNat, Nat.add_mod_mod, Nat.mod_eq_of_lt fits]

/-- The part of a page `p` that a file part from `v` on covers. -/
theorem covered_iff {p v n off : Nat} (small : off < 4096)
    (copies : max p v < min (p + 4096) (v + n)) :
    ((max p v - p ≤ off ∧ off - (max p v - p) < min (p + 4096) (v + n) - max p v) ↔
      v ≤ p + off ∧ p + off < v + n) ∧
    (max p v - p ≤ off → off - (max p v - p) < min (p + 4096) (v + n) - max p v →
      v ≤ p + (max p v - p)) := by
  have left := Nat.le_max_left p v
  have right := Nat.le_max_right p v
  refine ⟨?_, fun _ _ => by omega⟩
  omega

/-- What is copied into a page: the bytes of the file part that fall in the page. -/
theorem Loadable.fill_eq (loadable : seg.Loadable) (inside : i < seg.pageCount) :
    ∃ dstOff len, seg.fill (seg.pageAt i) =
        some (dstOff, (seg.elf.drop (seg.offset.toNat + ((seg.pageAt i).toNat + dstOff -
          seg.vaddr.toNat))).take len) ∧
      ∀ off, off < 4096 → ((dstOff ≤ off ∧ off - dstOff < len) ↔
        seg.vaddr.toNat ≤ (seg.pageAt i).toNat + off ∧
          (seg.pageAt i).toNat + off < seg.vaddr.toNat + seg.filesz.toNat) ∧
        (dstOff ≤ off → off - dstOff < len → seg.vaddr.toNat ≤ (seg.pageAt i).toNat + dstOff) := by
  obtain ⟨va, bounds⟩ := loadable.pageAt_toNat inside
  have size := size_of_proper loadable.proper
  have proper := loadable.proper
  have length := loadable.length
  rw [Proper] at proper
  by_cases some : 0 < seg.size
  · obtain ⟨below, low⟩ := bounds some
    have fileEnd : (seg.vaddr + seg.filesz).toNat = seg.vaddr.toNat + seg.filesz.toNat := by
      rw [BitVec.toNat_add]
      exact Nat.mod_eq_of_lt (by omega)
    have pageEnd : (seg.pageAt i + 4096).toNat = (seg.pageAt i).toNat + 4096 := by
      rw [BitVec.toNat_add]
      exact Nat.mod_eq_of_lt (show _ + 4096 < _ by omega)
    simp only [fill, fileEnd, pageEnd]
    split
    · rename_i copies
      have fits : seg.offset.toNat + seg.filesz.toNat ≤ seg.elf.length := by
        rcases loadable.inFile with none | fits
        · have zero : seg.filesz.toNat = 0 := congrArg BitVec.toNat none
          omega
        · exact fits
      generalize isStart : max (seg.pageAt i).toNat seg.vaddr.toNat = start at copies ⊢
      generalize isStop : min ((seg.pageAt i).toNat + 4096) (seg.vaddr.toNat + seg.filesz.toNat) =
        stop at copies ⊢
      have fromFile : seg.vaddr.toNat ≤ start ∧ (seg.pageAt i).toNat ≤ start :=
        ⟨isStart ▸ Nat.le_max_right _ _, isStart ▸ Nat.le_max_left _ _⟩
      have toFile : stop ≤ seg.vaddr.toNat + seg.filesz.toNat := isStop ▸ Nat.min_le_right _ _
      have src : (seg.offset + BitVec.ofNat 64 (start - seg.vaddr.toNat)).toNat =
          seg.offset.toNat + (start - seg.vaddr.toNat) := toNat_add_ofNat (by omega)
      have srcEnd : (seg.offset + BitVec.ofNat 64 (start - seg.vaddr.toNat) +
          BitVec.ofNat 64 (stop - start)).toNat ≤ seg.elf.length := by
        rw [toNat_add_ofNat (by omega), src]
        omega
      rw [if_pos srcEnd, src, if_pos (by omega)]
      refine ⟨start - (seg.pageAt i).toNat, stop - start, ?_, fun off small => ?_⟩
      · rw [Nat.add_sub_of_le fromFile.2]
      · subst isStart isStop
        exact covered_iff small copies
    · rename_i copies
      refine ⟨0, 0, by rw [List.take_zero], fun off small => ?_⟩
      omega
  · have none : seg.filesz.toNat = 0 := by omega
    have fileEnd : (seg.vaddr + seg.filesz).toNat = seg.vaddr.toNat := by
      rw [BitVec.toNat_add, none]
      exact Nat.mod_eq_of_lt seg.vaddr.isLt
    simp only [fill, fileEnd]
    rw [if_neg (by omega)]
    refine ⟨0, 0, by rw [List.take_zero], fun off small => ?_⟩
    omega

/-- **The pages of a loadable segment hold the bytes it asks for.** -/
theorem Loadable.contents_eq (loadable : seg.Loadable) (inside : i < seg.pageCount)
    (small : off < 4096) :
    seg.contents (seg.pageAt i) off = seg.byteAt ((seg.pageAt i).toNat + off) := by
  obtain ⟨dstOff, len, filled, range⟩ := loadable.fill_eq inside
  obtain ⟨both, above⟩ := range off small
  rw [contents, filled, byteAt, copied]
  by_cases fromFile : dstOff ≤ off ∧ off - dstOff < len
  · have starts := above fromFile.1 fromFile.2
    have source : seg.offset.toNat + ((seg.pageAt i).toNat + dstOff - seg.vaddr.toNat) +
        (off - dstOff) = seg.offset.toNat + ((seg.pageAt i).toNat + off - seg.vaddr.toNat) := by
      omega
    rw [if_pos fromFile.1, if_pos (both.mp fromFile), byteOf, List.getD_eq_getElem?_getD,
      List.getElem?_take_of_lt fromFile.2, List.getElem?_drop, source, List.getD_eq_getElem?_getD]
  · rw [if_neg fun file => fromFile (both.mpr file)]
    split
    · rename_i after
      refine List.getD_eq_default _ _ ?_
      rw [List.length_take]
      omega
    · rfl

/-! ## Layers of pages -/

/-- The pages of a segment and what they hold. -/
def pages (seg : Segment) : Nat → Option (Nat → BitVec 8) :=
  Layers.top (fun i => Layers.single (pageNumber (seg.pageAt i)) (seg.contents (seg.pageAt i)))
    seg.pageCount

theorem pages_eq_none : seg.pages page = none ↔ ¬seg.Takes page := by
  rw [pages, Layers.top_eq_none]
  constructor
  · rintro none ⟨i, inside, here⟩
    exact Layers.single_eq_none.mp (none i inside) here.symm
  · intro untaken i inside
    refine Layers.single_eq_none.mpr ?_
    rintro rfl
    exact untaken ⟨i, inside, rfl⟩

/-- **A page of a loadable segment holds what the segment asks for** at each of its addresses. -/
theorem Loadable.pages_eq_some (loadable : seg.Loadable) {contents : Nat → BitVec 8}
    (low : page < lowPages) (found : seg.pages page = some contents) (small : off < 4096) :
    contents off = seg.byteAt (page * 4096 + off) := by
  obtain ⟨i, inside, here, -⟩ := Layers.top_eq_some.mp found
  obtain ⟨rfl, rfl⟩ := Layers.single_eq_some.mp here
  obtain ⟨value, bounds⟩ := loadable.pageAt_toNat inside
  rw [loadable.contents_eq inside small]
  by_cases some : 0 < seg.size
  · have address : pageNumber (seg.pageAt i) * 4096 = (seg.pageAt i).toNat := by
      rw [pageNumber]
      have := bounds some
      omega
    rw [address]
  · have none : seg.filesz.toNat = 0 := by
      have := loadable.proper
      rw [size] at some
      omega
    rw [byteAt, byteAt, if_neg (by omega), if_neg (by omega)]

end Segment

/-! ## The segments of a file -/

/-- The loadable segment of a program header of the file. -/
def IsSegment (elf : File) (bias : BitVec 64) (s : Nat) (seg : Segment) : Prop :=
  ∃ table, headerTable elf = some table ∧ s < table.phnum.toNat ∧
    segmentAt elf bias table s = some (some seg)

theorem IsSegment.unique {elf : File} {bias : BitVec 64} {s : Nat} {seg seg' : Segment}
    (first : IsSegment elf bias s seg) (second : IsSegment elf bias s seg') : seg = seg' := by
  obtain ⟨table, isTable, -, here⟩ := first
  obtain ⟨table', isTable', -, here'⟩ := second
  cases isTable.symm.trans isTable'
  cases here.symm.trans here'
  rfl

/-- No address is a byte of two segments. -/
def DisjointSegments (elf : File) (bias : BitVec 64) : Prop :=
  ∀ s s' seg seg' a, IsSegment elf bias s seg → IsSegment elf bias s' seg' → s ≠ s' → seg.Has a →
    ¬seg'.Has a

/-- A file as the format has it, in memory: its length is an address, and no segment has more bytes
in the file than in memory. -/
structure IsElf64 (elf : File) (bias : BitVec 64) : Prop where
  length : elf.length < 2 ^ 63
  proper : ∀ s seg, IsSegment elf bias s seg → seg.Proper

/-- What a program header adds to the pages. -/
def segmentPages (elf : File) (bias : BitVec 64) (table : HeaderTable) (s : Nat) :
    Nat → Option (Nat → BitVec 8) :=
  match segmentAt elf bias table s with
  | some (some seg) => seg.pages
  | _ => Layers.empty

/-- The pages of the first `n` program headers. -/
def imagePages (elf : File) (bias : BitVec 64) (table : HeaderTable) (n : Nat) :
    Nat → Option (Nat → BitVec 8) :=
  Layers.top (segmentPages elf bias table) n

theorem elf_of_segmentAt {elf : File} {bias : BitVec 64} {table : HeaderTable} {s : Nat}
    {seg : Segment} (here : segmentAt elf bias table s = some (some seg)) : seg.elf = elf := by
  simp only [segmentAt] at here
  split at here
  · obtain ⟨header, -, isLoad⟩ := Option.map_eq_some_iff.mp here
    split at isLoad
    · cases isLoad
      rfl
    · cases isLoad
  · cases here

end RustyPenguin.Elf
