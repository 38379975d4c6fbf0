import RustyPenguin.Vmm.Loans

/-!
# Frames in a row

`alloc_frames` looks for a run of free pages from page 256 up to the number of managed frames. That
number is a count and not the highest page: where the memory map has holes, pages above the count
are managed and never looked at. In every state after boot the search answers as it should exactly
when a run that exists anywhere exists below the count too, or one frame is asked for.
-/

set_option autoImplicit false

namespace RustyPenguin.Vmm

namespace Frames

variable {f f' : Frames}

/-- `n` pages marked free in a row. -/
def FreeRun (f : Frames) (n start : Nat) : Prop := ∀ i < n, f.isFree (start + i) = true

/-! ## What the searches leave out -/

/-- A run that was found lies among the pages that were looked at. -/
theorem findRun_within {n : Nat} (left : Nat) : ∀ {page start run s : Nat},
    f.findRun n left page start run = some s → (run ≠ 0 → start + run = page) →
      run < n → page ≤ s + run ∧ s + n ≤ page + left := by
  induction left with
  | zero =>
    intro page start run s found
    cases found
  | succ left ih =>
    intro page start run s found joined short
    rw [findRun] at found
    split at found
    · simp only at found
      have first : (if run = 0 then page else start) + run = page := by
        split
        · rename_i none
          rw [none, Nat.add_zero]
        · rename_i some
          exact joined some
      split at found
      · cases found
        omega
      · obtain ⟨low, high⟩ := ih found (fun _ => by omega) (by omega)
        omega
    · obtain ⟨low, high⟩ := ih found (fun some => absurd rfl some) (by omega)
      omega

/-- No run is found only if there is none among the pages that were looked at: the pages of the
run that was begun count too. -/
theorem findRun_none {n : Nat} (left : Nat) : ∀ {page start run : Nat},
    f.findRun n left page start run = none → run < n →
      ∀ s, page ≤ s + run → s + n ≤ page + left → ¬ f.FreeRun n s := by
  induction left with
  | zero =>
    intro page start run _ short s low high
    omega
  | succ left ih =>
    intro page start run missed short s low high free
    rw [findRun] at missed
    split at missed
    · simp only at missed
      split at missed
      · cases missed
      · exact ih missed (by omega) s (by omega) (by omega) free
    · rename_i used
      by_cases later : page + 1 ≤ s
      · exact ih missed (by omega) s (by omega) (by omega) free
      · have here := free (page - s) (by omega)
        rw [Nat.add_sub_cancel' (by omega)] at here
        exact used here

theorem firstWord_none {bitmap : Nat → BitVec 64} : ∀ {left i : Nat},
    Pmm.firstWord bitmap left i = none → ∀ j, i ≤ j → j < i + left → bitmap j = 0
  | 0, _, _, _, low, high => by omega
  | left + 1, i, missed, j, low, high => by
      rw [Pmm.firstWord] at missed
      split at missed
      · cases missed
      · rename_i zero
        rcases Nat.lt_or_eq_of_le low with later | rfl
        · exact firstWord_none missed j later (by omega)
        · exact not_not.mp zero

/-- No single frame is found only if none is free. -/
theorem allocFrame_none (ready : f.ready = true) (missed : f.allocFrame = none) (page : Nat) :
    f.isFree page = false := by
  rw [allocFrame, Option.map_eq_none_iff, Pmm.allocFrame, if_pos ready,
    Option.map_eq_none_iff] at missed
  rw [Bool.eq_false_iff]
  intro free
  have inside := lt_of_isFree free
  have pages : maxPages = 1048576 := rfl
  have words : bitmapLen = 16384 := rfl
  have zero := firstWord_none missed (page / 64) (by omega) (by omega)
  rw [isFree, Pmm.isFree, zero] at free
  simp at free

/-! ## The search for a run -/

/-- Where the search for several frames looks. -/
def Searched (f : Frames) (n start : Nat) : Prop :=
  256 ≤ start ∧ start + n ≤ f.totalFrames.toNat

/-- What an allocation of `n` frames in a row should answer: a run of free frames, which it takes;
or nothing where there is no such run. -/
def Answered (f : Frames) (n : Nat) (answer : Option (BitVec 64)) (f' : Frames) : Prop :=
  match answer with
  | some base => ∃ start, f.FreeRun n start ∧ base.toNat = start * pageSize ∧
      f'.freePages = f.freePages \ Finset.Ico start (start + n)
  | none => f' = f ∧ ∀ start, ¬ f.FreeRun n start

/-- Nothing is found exactly when no run is looked at. -/
theorem allocFrames_none {n : Nat} (ready : f.ready = true) (several : 1 < n) :
    f.allocFrames n = none ↔ ∀ start, f.Searched n start → ¬ f.FreeRun n start := by
  rw [allocFrames, if_neg (by rw [ready]; simp; omega), if_neg (by omega), Option.map_eq_none_iff]
  constructor
  · rintro missed start ⟨low, high⟩
    exact findRun_none _ missed (by omega) start low (by omega)
  · intro none
    by_contra found
    obtain ⟨start, found⟩ := Option.ne_none_iff_exists'.mp found
    obtain ⟨low, high⟩ := findRun_within _ found (fun some => absurd rfl some) (by omega)
    refine none start ⟨low, by omega⟩ fun i inside => ?_
    exact findRun_spec _ found (by omega) (fun i none => absurd none (Nat.not_lt_zero i))
      (fun some => absurd rfl some) i inside

theorem not_freeRun_one (ready : f.ready = true) (missed : f.allocFrames 1 = none) (start : Nat) :
    ¬ f.FreeRun 1 start := by
  intro free
  rw [allocFrames, if_neg (by rw [ready]; simp), if_pos rfl] at missed
  have used := allocFrame_none ready missed start
  have first := free 0 (by decide)
  rw [Nat.add_zero, used] at first
  cases first

/-! ## The allocator stays open -/

theorem ready_markUsed (f : Frames) (page : Nat) : (f.markUsed page).ready = f.ready := by
  simp only [markUsed, Pmm.markUsed]
  split <;> rfl

theorem ready_markFree (f : Frames) (page : Nat) : (f.markFree page).ready = f.ready := by
  rw [markFree]
  split <;> rfl

theorem ready_markRun (left : Nat) : ∀ (f : Frames) (page : Nat),
    (f.markRun left page).ready = f.ready := by
  induction left with
  | zero => exact fun _ _ => rfl
  | succ left ih =>
    intro f page
    rw [markRun, ih, ready_markUsed]

theorem ready_allocFrame {frame : BitVec 64} (taken : f.allocFrame = some (frame, f')) :
    f'.ready = f.ready := by
  obtain ⟨⟨frame, pmm⟩, alloc, same⟩ := Option.map_eq_some_iff.mp taken
  cases same
  rw [Pmm.allocFrame] at alloc
  split at alloc
  · obtain ⟨_, _, result⟩ := Option.map_eq_some_iff.mp alloc
    cases result
    exact ready_markUsed f _
  · cases alloc

theorem ready_allocFrames {n : Nat} {base : BitVec 64}
    (taken : f.allocFrames n = some (base, f')) : f'.ready = f.ready := by
  rw [allocFrames] at taken
  split at taken
  · cases taken
  split at taken
  · exact ready_allocFrame taken
  · obtain ⟨start, _, result⟩ := Option.map_eq_some_iff.mp taken
    cases result
    exact ready_markRun n f start

theorem ready_freeFrame (f : Frames) (addr : BitVec 64) : (f.freeFrame addr).ready = f.ready := by
  simp only [freeFrame]
  split
  · rfl
  · exact ready_markFree f _

/-- A closed allocator answers nothing. -/
theorem allocFrame_closed (closed : f.ready = false) : f.allocFrame = none := by
  rw [allocFrame, Pmm.allocFrame, if_neg (by rw [closed]; exact Bool.false_ne_true)]
  rfl

theorem allocFrames_closed (n : Nat) (closed : f.ready = false) : f.allocFrames n = none := by
  rw [allocFrames, if_pos (.inr closed)]

theorem ready_initRegions (regions : List Region) (kernelEnd : BitVec 64) :
    (initRegions regions kernelEnd).ready = true := rfl

end Frames

namespace Loans

open Frames

variable {w w' : Loans}

/-- After boot the allocator is open, or there is nothing to hand out and nothing was. -/
def Opened (w : Loans) : Prop :=
  w.frames.ready = true ∨ w.frames.ready = false ∧ w.frames.freePages = ∅ ∧ w.issued = []

theorem opened_start {mem : Nat → BitVec 8} {mb2Addr : BitVec 32} {kernelEnd : BitVec 64}
    {f : Frames} (booted : Frames.init mem mb2Addr kernelEnd = some f) : Opened (start f) := by
  rw [Frames.init] at booted
  split at booted
  · cases booted
    exact .inr ⟨rfl, freePages_boot, rfl⟩
  · obtain ⟨regions, _, rfl⟩ := Option.map_eq_some_iff.mp booted
    exact .inl (ready_initRegions _ _)

theorem Opened.step (opened : Opened w) {op : FrameOp} {answer : Option (BitVec 64)}
    (valid : w.Valid op) (done : w.step op = some (answer, w')) : Opened w' := by
  cases op with
  | alloc =>
    cases taken : w.frames.allocFrame with
    | none =>
      rw [Loans.step, taken] at done
      cases done
      exact opened
    | some result =>
      rw [Loans.step, taken] at done
      cases done
      obtain ready | ⟨closed, -⟩ := opened
      · exact .inl ((ready_allocFrame taken).trans ready)
      · rw [allocFrame_closed closed] at taken
        cases taken
  | allocRun n =>
    cases taken : w.frames.allocFrames n with
    | none =>
      rw [Loans.step, taken] at done
      cases done
      exact opened
    | some result =>
      rw [Loans.step, taken] at done
      cases done
      obtain ready | ⟨closed, -⟩ := opened
      · exact .inl ((ready_allocFrames taken).trans ready)
      · rw [allocFrames_closed n closed] at taken
        cases taken
  | free addr =>
    cases done
    obtain ready | ⟨-, -, none⟩ := opened
    · exact .inl ((ready_freeFrame _ addr).trans ready)
    · have issued : addr ∈ w.issued := valid
      rw [none] at issued
      exact absurd issued List.not_mem_nil

/-- One available region of two pages at two megabytes: its pages are above the count. -/
def highMapped : Nat → BitVec 8 :=
  bootMemory [56, 0, 6, 40, 24, 0, 0x200000, 0, 0x2000, 0, 1, 0]

theorem high_regions : memoryMap highMapped 4096 = some [⟨0x200000, 0x2000, 1⟩] := by
  with_unfolding_all rfl

theorem init_high (kernelEnd : BitVec 64) : Frames.init highMapped 4096 kernelEnd =
    some (Frames.initRegions [⟨0x200000, 0x2000, 1⟩] kernelEnd) := by
  rw [Frames.init, if_neg (by decide), high_regions]
  rfl

end Loans

end RustyPenguin.Vmm
