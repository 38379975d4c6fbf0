import Mathlib.Algebra.BigOperators.Group.Finset.Basic
import RustyPenguin.Foundation.Run
import RustyPenguin.Vmm.Pmm

/-!
# Accounts of the frame allocator

`init` marks the frames of the boot memory map free and counts them, and reserves the first
megabyte and the kernel's image. After it frames are taken one by one or as a run, and given
back. The count of free frames is kept beside the bitmap.

Every operation changes the count as it changes the number of frames marked free, so the
difference of the two stays what it was after `init`. It is zero there exactly when no frame
lies in two available regions: `init` counts the frames of a region without looking whether
they are marked already.
-/

set_option autoImplicit false

namespace RustyPenguin.Vmm

/-- The frame allocator with both its counters. -/
structure Frames extends Pmm where
  totalFrames : BitVec 64

/-! ## The boot memory map -/

def rd32 (mem : Nat → BitVec 8) (addr : BitVec 32) : BitVec 32 :=
  mem (addr.toNat + 3) ++ mem (addr.toNat + 2) ++ mem (addr.toNat + 1) ++ mem addr.toNat

def rd64 (mem : Nat → BitVec 8) (addr : BitVec 32) : BitVec 64 :=
  rd32 (fun k => mem (k + 4)) addr ++ rd32 mem addr

/-- An entry of the memory map. -/
structure Region where
  base : BitVec 64
  len : BitVec 64
  etype : BitVec 32
  deriving DecidableEq

/-- More steps than there are addresses below 4 GiB: a walk that takes them all never ends. -/
@[irreducible] def walkSteps : Nat := 2 ^ 32 + 1

def readEntries (mem : Nat → BitVec 8) (entrySize eend : BitVec 32) :
    Nat → BitVec 32 → Option (List Region)
  | 0, _ => none
  | fuel + 1, eoff =>
    if eoff < eend then
      (readEntries mem entrySize eend fuel (eoff + entrySize)).map fun rest =>
        ⟨rd64 mem eoff, rd64 mem (eoff + 8), rd32 mem (eoff + 16)⟩ :: rest
    else some []

def readTags (mem : Nat → BitVec 8) (mb2Addr totalSize : BitVec 32) :
    Nat → BitVec 32 → Option (List Region)
  | 0, _ => none
  | fuel + 1, offset =>
    if offset < totalSize then
      let ttype := rd32 mem (mb2Addr + offset)
      let tsize := rd32 mem (mb2Addr + offset + 4)
      if ttype = 0 then some []
      else if ttype = 6 then
        let entrySize := rd32 mem (mb2Addr + offset + 8)
        readEntries mem entrySize (mb2Addr + offset + tsize) walkSteps (mb2Addr + offset + 16)
      else readTags mem mb2Addr totalSize fuel (offset + ((tsize + 7) &&& ~~~7))
    else some []

/-- The regions of the first memory map tag. -/
def memoryMap (mem : Nat → BitVec 8) (mb2Addr : BitVec 32) : Option (List Region) :=
  readTags mem mb2Addr (rd32 mem mb2Addr) walkSteps 8

/-! ## The operations -/

namespace Frames

def isFree (f : Frames) (page : Nat) : Bool := f.toPmm.isFree page

def markFree (f : Frames) (page : Nat) : Frames :=
  if page < maxPages then
    { f with bitmap := fun i =>
        if i = page / 64 then f.bitmap i ||| Pmm.pageBit page else f.bitmap i }
  else f

def markUsed (f : Frames) (page : Nat) : Frames := { f with toPmm := f.toPmm.markUsed page }

/-- Count `n` free frames more. -/
def fetchAdd (f : Frames) (n : Nat) : Frames := { f with freeFrames := f.freeFrames + n }

/-- Count `n` free frames fewer. -/
def fetchSub (f : Frames) (n : Nat) : Frames := { f with freeFrames := f.freeFrames - n }

/-- Count `n` frames more. -/
def fetchAddTotal (f : Frames) (n : Nat) : Frames := { f with totalFrames := f.totalFrames + n }

/-- Mark `left` pages from `page` on free. -/
def markRegion (f : Frames) : (left : Nat) → (page : Nat) → Frames
  | 0, _ => f
  | left + 1, page => (f.markFree page).markRegion left (page + 1)

/-- The pages of a region that lie whole below the ceiling. -/
def pgStart (r : Region) : Nat := (r.base.toNat + pageSize - 1) / pageSize

def pgEnd (r : Region) : Nat := min (r.base + r.len).toNat (maxPages * pageSize) / pageSize

def addRegion (f : Frames) (r : Region) : Frames :=
  if r.etype = 1 ∧ r.base.toNat < maxPages * pageSize then
    let count := pgEnd r - pgStart r
    ((f.markRegion count (pgStart r)).fetchAdd count).fetchAddTotal count
  else f

/-- Take `left` pages from `page` on out of the free ones. -/
def reserve (f : Frames) : (left : Nat) → (page : Nat) → Frames
  | 0, _ => f
  | left + 1, page =>
    if f.isFree page then ((f.markUsed page).fetchSub 1).reserve left (page + 1)
    else f.reserve left (page + 1)

/-- Everything used, and nothing counted. -/
def boot : Frames where
  bitmap := fun _ => 0
  freeFrames := 0
  ready := false
  totalFrames := 0

/-- Open for requests. -/
def setReady (f : Frames) : Frames := { f with ready := true }

def initRegions (regions : List Region) (kernelEnd : BitVec 64) : Frames :=
  let f := regions.foldl addRegion boot
  let f := f.reserve (0x100000 / pageSize) 0
  let kendPage := (kernelEnd + 4095).toNat / pageSize
  (f.reserve (kendPage - 0x100000 / pageSize) (0x100000 / pageSize)).setReady

def init (mem : Nat → BitVec 8) (mb2Addr : BitVec 32) (kernelEnd : BitVec 64) : Option Frames :=
  if mb2Addr = 0 then some boot
  else (memoryMap mem mb2Addr).map fun regions => initRegions regions kernelEnd

/-- Allocate one 4 KiB physical frame. -/
def allocFrame (f : Frames) : Option (BitVec 64 × Frames) :=
  f.toPmm.allocFrame.map fun (frame, pmm) => (frame, { f with toPmm := pmm })

/-- The first of `n` free pages in a row among the next `left`. -/
def findRun (f : Frames) (n : Nat) : (left : Nat) → (page start run : Nat) → Option Nat
  | 0, _, _, _ => none
  | left + 1, page, start, run =>
    if f.isFree page then
      let start := if run = 0 then page else start
      if run + 1 = n then some start else f.findRun n left (page + 1) start (run + 1)
    else f.findRun n left (page + 1) start 0

/-- Mark `left` pages from `page` on used. -/
def markRun (f : Frames) : (left : Nat) → (page : Nat) → Frames
  | 0, _ => f
  | left + 1, page => (f.markUsed page).markRun left (page + 1)

/-- Allocate `n` physically contiguous frames. -/
def allocFrames (f : Frames) (n : Nat) : Option (BitVec 64 × Frames) :=
  if n = 0 ∨ f.ready = false then none
  else if n = 1 then f.allocFrame
  else
    (f.findRun n (f.totalFrames.toNat - 256) 256 0 0).map fun start =>
      (BitVec.ofNat 64 (start * pageSize), (f.markRun n start).fetchSub n)

/-- Return a frame to the free pool. -/
def freeFrame (f : Frames) (addr : BitVec 64) : Frames :=
  let page := addr.toNat / pageSize
  if f.isFree page then f else (f.markFree page).fetchAdd 1

/-! ## The pages marked free -/

/-- The pages marked free. -/
@[irreducible] def freePages (f : Frames) : Finset Nat := (Finset.range maxPages).filter fun page => f.isFree page

theorem mem_freePages {f : Frames} {page : Nat} : page ∈ f.freePages ↔ f.isFree page = true := by
  rw [freePages, Finset.mem_filter, Finset.mem_range]
  constructor
  · intro isMember
    exact isMember.2
  · intro free
    refine ⟨?_, free⟩
    rw [isFree, Pmm.isFree, Bool.and_eq_true, decide_eq_true_eq] at free
    exact free.1

theorem freePages_congr {f g : Frames} (same : f.bitmap = g.bitmap) :
    f.freePages = g.freePages := by
  ext page
  rw [mem_freePages, mem_freePages, isFree, isFree, Pmm.isFree, Pmm.isFree, same]

theorem lt_of_isFree {f : Frames} {page : Nat} (free : f.isFree page = true) : page < maxPages := by
  rw [isFree, Pmm.isFree, Bool.and_eq_true, decide_eq_true_eq] at free
  exact free.1

/-- Marking a page free sets its bit and no other. -/
theorem isFree_markFree {f : Frames} {page : Nat} (inside : page < maxPages) (other : Nat) :
    (f.markFree page).isFree other = (f.isFree other || decide (other = page)) := by
  simp only [isFree, Pmm.isFree, markFree, if_pos inside]
  have small : other % 64 < 64 := Nat.mod_lt _ (by decide)
  by_cases word : other / 64 = page / 64
  · have bits : (Pmm.pageBit page).getLsbD (other % 64) = decide (other = page) := by
      rw [Pmm.pageBit, BitVec.getLsbD_shiftLeft, BitVec.getLsbD_one, decide_eq_true small,
        decide_eq_true (show 0 < 64 by decide), Bool.true_and, Bool.true_and, ← decide_not,
        ← Bool.decide_and]
      exact decide_eq_decide.mpr (by omega)
    simp only [word, if_true, BitVec.getLsbD_or, bits]
    by_cases same : other = page
    · simp [same, inside]
    · simp [same]
  · have different : other ≠ page := fun same => word (same ▸ rfl)
    simp [word, different]

theorem freePages_markFree {f : Frames} {page : Nat} (inside : page < maxPages) :
    (f.markFree page).freePages = insert page f.freePages := by
  ext other
  rw [mem_freePages, isFree_markFree inside, Finset.mem_insert, mem_freePages, Bool.or_eq_true,
    decide_eq_true_eq]
  exact or_comm

theorem freePages_markUsed {f : Frames} {page : Nat} (inside : page < maxPages) :
    (f.markUsed page).freePages = f.freePages.erase page := by
  ext other
  rw [mem_freePages, Finset.mem_erase, mem_freePages]
  simp only [isFree, markUsed]
  rw [Pmm.isFree_markUsed inside, Bool.and_eq_true, decide_eq_true_eq]
  exact and_comm

/-- What the count of free frames is above the number of pages marked free. -/
def excess (f : Frames) : BitVec 64 := f.freeFrames - BitVec.ofNat 64 f.freePages.card

theorem card_freePages_le (f : Frames) : f.freePages.card ≤ maxPages := by
  have inside : f.freePages ⊆ Finset.range maxPages := fun page isMember =>
    Finset.mem_range.mpr (lt_of_isFree (mem_freePages.1 isMember))
  have most := Finset.card_le_card inside
  rw [Finset.card_range] at most
  exact most

/-- The counter is right when there is no excess. -/
theorem excess_eq_zero {f : Frames} :
    f.excess = 0 ↔ f.freeFrames.toNat = f.freePages.card := by
  have few := card_freePages_le f
  have pages : maxPages = 1048576 := rfl
  have value : (BitVec.ofNat 64 f.freePages.card).toNat = f.freePages.card := by
    rw [BitVec.toNat_ofNat]
    exact Nat.mod_eq_of_lt (by omega)
  rw [excess, sub_eq_zero, ← BitVec.toNat_inj, value]

/-! ## One operation on the pages and the count -/

@[simp] theorem freePages_fetchAdd (f : Frames) (n : Nat) : (f.fetchAdd n).freePages = f.freePages :=
  freePages_congr rfl

@[simp] theorem freePages_fetchSub (f : Frames) (n : Nat) : (f.fetchSub n).freePages = f.freePages :=
  freePages_congr rfl

theorem freeFrames_markFree (f : Frames) (page : Nat) :
    (f.markFree page).freeFrames = f.freeFrames := by
  rw [markFree]
  split
  · rfl
  · rfl

theorem freeFrames_markUsed (f : Frames) (page : Nat) :
    (f.markUsed page).freeFrames = f.freeFrames := by
  simp only [markUsed, Pmm.markUsed]
  split
  · rfl
  · rfl

theorem excess_congr {f g : Frames} (same : f.bitmap = g.bitmap)
    (count : f.freeFrames = g.freeFrames) : f.excess = g.excess := by
  rw [excess, excess, freePages_congr same, count]

@[simp] theorem freePages_fetchAddTotal (f : Frames) (n : Nat) :
    (f.fetchAddTotal n).freePages = f.freePages := freePages_congr rfl

@[simp] theorem excess_fetchAddTotal (f : Frames) (n : Nat) :
    (f.fetchAddTotal n).excess = f.excess := excess_congr rfl rfl

@[simp] theorem excess_setReady (f : Frames) : f.setReady.excess = f.excess := excess_congr rfl rfl

/-- As many pages taken out of the free ones as are counted fewer. -/
theorem excess_fetchSub {f g : Frames} {n : Nat} (count : g.freeFrames = f.freeFrames)
    (fewer : g.freePages.card + n = f.freePages.card) : (g.fetchSub n).excess = f.excess := by
  rw [excess, excess, freePages_fetchSub, ← fewer, BitVec.ofNat_add, fetchSub, count]
  exact (sub_sub _ _ _).trans (congrArg (f.freeFrames - ·) (add_comm _ _))

/-- As many pages added to the free ones, up to `n`, as are counted more. -/
theorem excess_fetchAdd {f g : Frames} {n k : Nat} (count : g.freeFrames = f.freeFrames)
    (more : g.freePages.card + k = f.freePages.card + n) :
    (g.fetchAdd n).excess = f.excess + BitVec.ofNat 64 k := by
  have sums := congrArg (BitVec.ofNat 64) more
  rw [BitVec.ofNat_add, BitVec.ofNat_add] at sums
  rw [excess, excess, freePages_fetchAdd, fetchAdd, count, sub_add_eq_add_sub, add_sub_assoc,
    add_sub_assoc]
  refine congrArg (f.freeFrames + ·) (sub_eq_sub_iff_add_eq_add.mpr ?_)
  exact (add_comm _ _).trans (sums.symm.trans (add_comm _ _))

/-- Taking one frame takes a free one, and counts it. -/
theorem allocFrame_spec {f f' : Frames} {frame : BitVec 64}
    (taken : f.allocFrame = some (frame, f')) : ∃ page, page < maxPages ∧
      frame.toNat = page * 4096 ∧ f.isFree page = true ∧
      f'.freePages = f.freePages.erase page ∧ f'.excess = f.excess := by
  obtain ⟨⟨frame, pmm⟩, alloc, same⟩ := Option.map_eq_some_iff.mp taken
  cases same
  obtain ⟨page, inside, value, free, marked⟩ := Pmm.allocFrame_spec alloc
  have counted : pmm.freeFrames = f.freeFrames - 1 := by
    rw [Pmm.allocFrame] at alloc
    split at alloc
    · obtain ⟨_, _, result⟩ := Option.map_eq_some_iff.mp alloc
      cases result
      rfl
    · cases alloc
  have pages : { f with toPmm := pmm }.freePages = f.freePages.erase page :=
    (freePages_congr marked).trans (freePages_markUsed inside)
  have card := Finset.card_erase_add_one (mem_freePages.2 free)
  refine ⟨page, inside, value, free, pages, ?_⟩
  have same := excess_fetchSub (freeFrames_markUsed f page) (freePages_markUsed inside ▸ card)
  rw [← same, excess, excess, pages, freePages_fetchSub, freePages_markUsed inside]
  exact congrArg (· - _) (counted.trans (congrArg (· - _) (freeFrames_markUsed f page).symm))

/-- Giving a frame back marks it free. -/
theorem freeFrame_spec {f : Frames} {page : Nat} {addr : BitVec 64} (inside : page < maxPages)
    (value : addr.toNat = page * 4096) : (f.freeFrame addr).freePages = insert page f.freePages ∧
      (f.freeFrame addr).excess = f.excess := by
  have number : addr.toNat / pageSize = page := by
    rw [value, pageSize, Nat.mul_div_cancel _ (by decide)]
  have steps : f.freeFrame addr =
      if f.isFree page then f else (f.markFree page).fetchAdd 1 := by
    rw [freeFrame, number]
  by_cases free : f.isFree page = true
  · rw [steps, if_pos free, Finset.insert_eq_of_mem (mem_freePages.2 free)]
    exact ⟨rfl, rfl⟩
  · have absent : page ∉ f.freePages := fun isMember => free (mem_freePages.1 isMember)
    have card := Finset.card_insert_of_notMem absent
    rw [← freePages_markFree inside] at card
    rw [steps, if_neg free, freePages_fetchAdd, freePages_markFree inside,
      excess_fetchAdd (freeFrames_markFree f page) ((Nat.add_zero _).trans card)]
    exact ⟨rfl, add_zero _⟩

/-! ## Runs of pages -/

/-- A run that is found is free. -/
theorem findRun_spec {f : Frames} {n : Nat} (left : Nat) : ∀ {page start run s : Nat},
    f.findRun n left page start run = some s → run < n →
      (∀ i, i < run → f.isFree (start + i) = true) → (run ≠ 0 → start + run = page) →
      ∀ i, i < n → f.isFree (s + i) = true := by
  induction left with
  | zero => intro page start run s found; cases found
  | succ left ih =>
    intro page start run s found short free joined
    rw [findRun] at found
    split at found
    · rename_i here
      have first : (if run = 0 then page else start) + run = page := by
        split
        · rename_i none
          rw [none, Nat.add_zero]
        · rename_i some
          exact joined some
      have grown : ∀ i, i < run + 1 → f.isFree ((if run = 0 then page else start) + i) = true := by
        intro i inside
        rcases Nat.lt_or_eq_of_le (Nat.le_of_lt_succ inside) with before | last
        · have nonzero : run ≠ 0 := Nat.ne_zero_of_lt before
          rw [if_neg nonzero]
          exact free i before
        · rw [last, first]
          exact here
      simp only at found
      split at found
      · rename_i whole
        cases found
        intro i inside
        exact grown i (by omega)
      · rename_i more
        exact ih found (by omega) grown fun _ => by omega
    · exact ih found (by omega) (fun i inside => absurd inside (Nat.not_lt_zero i))
        fun some => absurd rfl some

/-- Marking a run of free pages used takes them out. -/
theorem markRun_spec (left : Nat) : ∀ {f : Frames} {page : Nat},
    (∀ i, i < left → f.isFree (page + i) = true) →
      (f.markRun left page).freePages = f.freePages \ Finset.Ico page (page + left) ∧
      (f.markRun left page).freePages.card + left = f.freePages.card ∧
      (f.markRun left page).freeFrames = f.freeFrames := by
  induction left with
  | zero =>
    intro f page _
    rw [markRun, Nat.add_zero, Nat.add_zero, Finset.Ico_self, Finset.sdiff_empty]
    exact ⟨rfl, rfl, rfl⟩
  | succ left ih =>
    intro f page free
    have first : f.isFree page = true := free 0 (Nat.succ_pos left)
    have erased : (f.markUsed page).freePages = f.freePages.erase page :=
      freePages_markUsed (lt_of_isFree first)
    have rest : ∀ i, i < left → (f.markUsed page).isFree (page + 1 + i) = true := by
      intro i inside
      rw [← mem_freePages, erased, Finset.mem_erase, mem_freePages]
      refine ⟨by omega, ?_⟩
      rw [Nat.add_right_comm]
      exact free (i + 1) (Nat.succ_lt_succ inside)
    obtain ⟨pages, card, count⟩ := ih rest
    have one := Finset.card_erase_add_one (mem_freePages.2 first)
    rw [markRun]
    refine ⟨?_, ?_, count.trans (freeFrames_markUsed f page)⟩
    · rw [pages, erased]
      ext other
      simp only [Finset.mem_sdiff, Finset.mem_erase, Finset.mem_Ico, mem_freePages]
      constructor
      · rintro ⟨⟨different, isFree⟩, outside⟩
        exact ⟨isFree, by omega⟩
      · rintro ⟨isFree, outside⟩
        exact ⟨⟨by omega, isFree⟩, by omega⟩
    · rw [erased] at card
      omega

/-- Taking frames in a row takes free ones, and counts them. -/
theorem allocFrames_spec {f f' : Frames} {n : Nat} {base : BitVec 64}
    (taken : f.allocFrames n = some (base, f')) : ∃ start, start + n ≤ maxPages ∧
      base.toNat = start * 4096 ∧ (∀ i, i < n → f.isFree (start + i) = true) ∧
      f'.freePages = f.freePages \ Finset.Ico start (start + n) ∧ f'.excess = f.excess := by
  rw [allocFrames] at taken
  split at taken
  · cases taken
  rename_i ready
  split at taken
  · rename_i one
    obtain ⟨page, inside, value, free, pages, same⟩ := allocFrame_spec taken
    refine ⟨page, by omega, value, ?_, ?_, same⟩
    · intro i isFirst
      have zero : i = 0 := by omega
      rw [zero]
      exact free
    · rw [pages, one, Nat.Ico_succ_singleton, Finset.sdiff_singleton_eq_erase]
  · rename_i several
    obtain ⟨start, found, result⟩ := Option.map_eq_some_iff.mp taken
    cases result
    have positive : 0 < n := Nat.pos_of_ne_zero fun none => ready (.inl none)
    have free := findRun_spec _ found positive (fun i inside => absurd inside (Nat.not_lt_zero i))
      fun some => absurd rfl some
    obtain ⟨pages, card, count⟩ := markRun_spec n free
    have last := lt_of_isFree (free (n - 1) (by omega))
    have few : maxPages = 1048576 := rfl
    refine ⟨start, by omega, ?_, free, (freePages_fetchSub _ _).trans pages,
      excess_fetchSub count card⟩
    rw [BitVec.toNat_ofNat, pageSize]
    exact Nat.mod_eq_of_lt (by omega)

/-! ## The boot memory map counted -/

/-- Reserving pages keeps the excess. -/
theorem excess_reserve (left : Nat) : ∀ {f : Frames} {page : Nat},
    (f.reserve left page).excess = f.excess := by
  induction left with
  | zero => intro f page; rfl
  | succ left ih =>
    intro f page
    rw [reserve]
    split
    · rename_i free
      have card := Finset.card_erase_add_one (mem_freePages.2 free)
      rw [← freePages_markUsed (lt_of_isFree free)] at card
      rw [ih, excess_fetchSub (freeFrames_markUsed f page) card]
    · exact ih

theorem markRegion_spec (left : Nat) : ∀ {f : Frames} {page : Nat}, page + left ≤ maxPages →
    (f.markRegion left page).freePages = f.freePages ∪ Finset.Ico page (page + left) ∧
      (f.markRegion left page).freeFrames = f.freeFrames := by
  induction left with
  | zero =>
    intro f page _
    rw [Nat.add_zero, Finset.Ico_self, Finset.union_empty, markRegion]
    exact ⟨rfl, rfl⟩
  | succ left ih =>
    intro f page inside
    obtain ⟨pages, count⟩ := @ih (f.markFree page) (page + 1) (by omega)
    rw [markRegion]
    refine ⟨?_, count.trans (freeFrames_markFree f page)⟩
    rw [pages, freePages_markFree (by omega)]
    ext other
    simp only [Finset.mem_union, Finset.mem_insert, Finset.mem_Ico]
    constructor
    · rintro ((here | free) | later)
      · exact .inr (by omega)
      · exact .inl free
      · exact .inr (by omega)
    · rintro (free | inRun)
      · exact .inl (.inr free)
      · rcases Nat.lt_or_eq_of_le inRun.1 with later | here
        · exact .inr (by omega)
        · exact .inl (.inl here.symm)

/-- The pages `init` marks free for a region. -/
def pages (r : Region) : Finset Nat :=
  if r.etype = 1 ∧ r.base.toNat < maxPages * pageSize then Finset.Ico (pgStart r) (pgEnd r) else ∅

theorem pgEnd_le (r : Region) : pgEnd r ≤ maxPages := by
  rw [pgEnd, pageSize]
  omega

theorem card_pages_le (r : Region) : (pages r).card ≤ maxPages := by
  rw [pages]
  split
  · rw [Nat.card_Ico]
    exact Nat.le_trans (Nat.sub_le _ _) (pgEnd_le r)
  · exact Nat.zero_le _

/-- A region adds its pages, and to the excess those that were free already. -/
theorem addRegion_spec (f : Frames) (r : Region) :
    (f.addRegion r).freePages = f.freePages ∪ pages r ∧
      (f.addRegion r).excess = f.excess + BitVec.ofNat 64 (f.freePages ∩ pages r).card := by
  rw [addRegion, pages]
  split
  · rename_i available
    have ends := pgEnd_le r
    have low := available.2
    have starts : pgStart r ≤ maxPages := by
      rw [pgStart, pageSize] at *
      omega
    have upTo : Finset.Ico (pgStart r) (pgStart r + (pgEnd r - pgStart r)) =
        Finset.Ico (pgStart r) (pgEnd r) := by
      ext page
      rw [Finset.mem_Ico, Finset.mem_Ico]
      omega
    obtain ⟨marked, count⟩ := @markRegion_spec (pgEnd r - pgStart r) f (pgStart r) (by omega)
    rw [upTo] at marked
    have sizes := Finset.card_union_add_card_inter f.freePages (Finset.Ico (pgStart r) (pgEnd r))
    rw [Nat.card_Ico, ← marked] at sizes
    have counted := excess_fetchAdd count sizes
    rw [freePages_fetchAddTotal, freePages_fetchAdd, excess_fetchAddTotal]
    exact ⟨marked, counted⟩
  · rw [Finset.union_empty, Finset.inter_empty]
    exact ⟨rfl, (add_zero _).symm⟩

/-- The pages of regions that are free already when their region is counted. -/
def overlap (free : Finset Nat) : List Region → Nat
  | [] => 0
  | r :: rs => (free ∩ pages r).card + overlap (free ∪ pages r) rs

theorem overlap_le (free : Finset Nat) (rs : List Region) :
    overlap free rs ≤ rs.length * maxPages := by
  induction rs generalizing free with
  | nil => exact Nat.zero_le _
  | cons r rs ih =>
    have first := Finset.card_le_card (@Finset.inter_subset_right _ _ free (pages r))
    have few := card_pages_le r
    have rest := ih (free ∪ pages r)
    rw [overlap, List.length_cons, Nat.succ_mul]
    omega

theorem overlap_eq_zero {free : Finset Nat} {rs : List Region} : overlap free rs = 0 ↔
    (∀ r ∈ rs, Disjoint free (pages r)) ∧ rs.Pairwise fun a b => Disjoint (pages a) (pages b) := by
  induction rs generalizing free with
  | nil => exact ⟨fun _ => ⟨fun _ none => (nomatch none), .nil⟩, fun _ => rfl⟩
  | cons r rs ih =>
    rw [overlap, Nat.add_eq_zero_iff, Finset.card_eq_zero, ← Finset.disjoint_iff_inter_eq_empty, ih,
      List.pairwise_cons, List.forall_mem_cons]
    simp only [Finset.disjoint_union_left]
    constructor
    · rintro ⟨first, later, rest⟩
      exact ⟨⟨first, fun s isMember => (later s isMember).1⟩, fun s isMember => (later s isMember).2,
        rest⟩
    · rintro ⟨⟨first, later⟩, apart, rest⟩
      exact ⟨first, fun s isMember => ⟨later s isMember, apart s isMember⟩, rest⟩

/-- The regions together add to the excess what lies in two of them. -/
theorem excess_regions (rs : List Region) : ∀ f : Frames,
    (rs.foldl addRegion f).excess = f.excess + BitVec.ofNat 64 (overlap f.freePages rs) := by
  induction rs with
  | nil => intro f; exact (add_zero _).symm
  | cons r rs ih =>
    intro f
    obtain ⟨pages, first⟩ := addRegion_spec f r
    rw [List.foldl_cons, ih, first, pages, overlap, BitVec.ofNat_add, add_assoc]

theorem freePages_boot : boot.freePages = ∅ := by
  ext page
  have clear : boot.bitmap (page / 64) = 0#64 := rfl
  rw [mem_freePages, isFree, Pmm.isFree, clear, BitVec.getLsbD_zero, Bool.and_false]
  exact iff_of_false Bool.false_ne_true (Finset.notMem_empty page)

theorem excess_boot : boot.excess = 0 := by
  rw [excess, freePages_boot]
  rfl

theorem excess_initRegions (regions : List Region) (kernelEnd : BitVec 64) :
    (initRegions regions kernelEnd).excess = BitVec.ofNat 64 (overlap ∅ regions) := by
  rw [initRegions, excess_setReady, excess_reserve, excess_reserve, excess_regions, excess_boot, freePages_boot]
  exact zero_add _

end Frames

end RustyPenguin.Vmm
