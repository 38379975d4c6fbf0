import RustyPenguin.Vmm.Frames

/-!
# Frames on loan

The frame allocator from boot on, with the frames its callers hold. Callers take frames, one or
several in a row, and give back frames they were handed at some time.

A frame on loan is not marked free, so it is not handed out again. The count of free frames is
right in every state exactly when no two available regions of the boot memory map share a frame.
-/

set_option autoImplicit false

namespace RustyPenguin.Vmm

inductive FrameOp where
  | alloc
  | allocRun (n : Nat)
  | free (addr : BitVec 64)

/-- The allocator, the frames it ever handed out, and those not given back since. -/
structure Loans where
  frames : Frames
  issued : List (BitVec 64)
  out : List (BitVec 64)

/-- The frames an answer hands out. -/
def granted : FrameOp → BitVec 64 → List (BitVec 64)
  | .alloc, base => [base]
  | .allocRun n, base => (List.range n).map fun i => base + BitVec.ofNat 64 (i * pageSize)
  | .free _, _ => []

namespace Loans

def start (f : Frames) : Loans where
  frames := f
  issued := []
  out := []

def lend (w : Loans) (op : FrameOp) (taken : Option (BitVec 64 × Frames)) :
    Option (BitVec 64) × Loans :=
  match taken with
  | none => (none, w)
  | some (base, f) => (some base, ⟨f, granted op base ++ w.issued, granted op base ++ w.out⟩)

def step (w : Loans) (op : FrameOp) : Option (Option (BitVec 64) × Loans) :=
  match op with
  | .alloc => some (w.lend op w.frames.allocFrame)
  | .allocRun n => some (w.lend op (w.frames.allocFrames n))
  | .free addr => some (none, ⟨w.frames.freeFrame addr, w.issued, w.out.filter (· ≠ addr)⟩)

/-- Callers give back only what was handed out. -/
def Valid (w : Loans) : FrameOp → Prop
  | .alloc => True
  | .allocRun _ => True
  | .free addr => addr ∈ w.issued

/-- The page of a frame. -/
def IsPage (addr : BitVec 64) (page : Nat) : Prop := page < maxPages ∧ addr.toNat = page * 4096

/-- Frames on loan are pages marked used, and none is on loan twice. -/
structure Kept (w : Loans) : Prop where
  pages : ∀ addr ∈ w.issued, ∃ page, IsPage addr page
  known : ∀ addr ∈ w.out, addr ∈ w.issued
  used : ∀ addr ∈ w.out, ∀ page, IsPage addr page → page ∉ w.frames.freePages
  once : w.out.Nodup

theorem IsPage.unique {addr : BitVec 64} {page page' : Nat} (first : IsPage addr page)
    (second : IsPage addr page') : page = page' := by
  have same := first.2.symm.trans second.2
  omega

theorem IsPage.inj {addr addr' : BitVec 64} {page : Nat} (first : IsPage addr page)
    (second : IsPage addr' page) : addr = addr' :=
  BitVec.eq_of_toNat_eq (first.2.trans second.2.symm)

theorem kept_start (f : Frames) : Kept (start f) where
  pages _ none := nomatch none
  known _ none := nomatch none
  used _ none := nomatch none
  once := List.nodup_nil

variable {w w' : Loans}

/-- What a grant takes: pages that are free, each once. -/
structure Takes (f f' : Frames) (addrs : List (BitVec 64)) : Prop where
  pages : ∀ addr ∈ addrs, ∃ page, IsPage addr page ∧ page ∈ f.freePages ∧ page ∉ f'.freePages
  rest : f'.freePages ⊆ f.freePages
  once : addrs.Nodup
  excess : f'.excess = f.excess

theorem takes_one {f f' : Frames} {base : BitVec 64} (taken : f.allocFrame = some (base, f')) :
    Takes f f' (granted .alloc base) := by
  obtain ⟨page, inside, value, free, pages, same⟩ := Frames.allocFrame_spec taken
  refine ⟨?_, ?_, List.nodup_singleton _, same⟩
  · intro addr isMember
    rw [granted, List.mem_singleton] at isMember
    rw [isMember, pages]
    exact ⟨page, ⟨inside, value⟩, Frames.mem_freePages.mpr free, Finset.notMem_erase _ _⟩
  · rw [pages]
    exact Finset.erase_subset _ _

theorem takes_run {f f' : Frames} {n : Nat} {base : BitVec 64}
    (taken : f.allocFrames n = some (base, f')) : Takes f f' (granted (.allocRun n) base) := by
  obtain ⟨start, inside, value, free, pages, same⟩ := Frames.allocFrames_spec taken
  have few : maxPages = 1048576 := rfl
  have each : ∀ i, i < n → IsPage (base + BitVec.ofNat 64 (i * pageSize)) (start + i) := by
    intro i isBelow
    refine ⟨by omega, ?_⟩
    rw [BitVec.toNat_add, BitVec.toNat_ofNat, value, pageSize]
    omega
  refine ⟨?_, ?_, ?_, same⟩
  · intro addr isMember
    obtain ⟨i, inRange, rfl⟩ := List.mem_map.mp isMember
    have isBelow := List.mem_range.mp inRange
    refine ⟨start + i, each i isBelow, Frames.mem_freePages.mpr (free i isBelow), ?_⟩
    rw [pages, Finset.mem_sdiff, Finset.mem_Ico]
    intro isFree
    exact isFree.2 ⟨by omega, by omega⟩
  · rw [pages]
    exact Finset.sdiff_subset
  · refine List.Nodup.map_on ?_ List.nodup_range
    intro i iRange j jRange same
    have iPage := each i (List.mem_range.mp iRange)
    have jPage := each j (List.mem_range.mp jRange)
    rw [same] at iPage
    have equal := iPage.unique jPage
    omega

/-- What is granted was not on loan. -/
theorem Takes.fresh {f' : Frames} {addrs : List (BitVec 64)} (takes : Takes w.frames f' addrs)
    (kept : Kept w) : ∀ addr ∈ addrs, addr ∉ w.out := by
  intro addr isGranted isOut
  obtain ⟨page, isPage, free, _⟩ := takes.pages addr isGranted
  exact kept.used addr isOut page isPage free

theorem Takes.kept {f' : Frames} {addrs : List (BitVec 64)} (takes : Takes w.frames f' addrs)
    (kept : Kept w) : Kept ⟨f', addrs ++ w.issued, addrs ++ w.out⟩ := by
  refine ⟨?_, ?_, ?_, ?_⟩
  · intro addr isMember
    rcases List.mem_append.mp isMember with isGranted | before
    · obtain ⟨page, isPage, _⟩ := takes.pages addr isGranted
      exact ⟨page, isPage⟩
    · exact kept.pages addr before
  · intro addr isMember
    rcases List.mem_append.mp isMember with isGranted | before
    · exact List.mem_append_left _ isGranted
    · exact List.mem_append_right _ (kept.known addr before)
  · intro addr isMember page isPage free
    rcases List.mem_append.mp isMember with isGranted | before
    · obtain ⟨page', isPage', _, used⟩ := takes.pages addr isGranted
      rw [isPage.unique isPage'] at free
      exact used free
    · exact kept.used addr before page isPage (takes.rest free)
  · refine List.nodup_append.mpr ⟨takes.once, kept.once, ?_⟩
    rintro addr isGranted other isOut rfl
    exact takes.fresh kept addr isGranted isOut

/-- Giving a frame back ends its loan. -/
theorem Kept.free (kept : Kept w) {addr : BitVec 64} (isIssued : addr ∈ w.issued) :
    Kept ⟨w.frames.freeFrame addr, w.issued, w.out.filter (· ≠ addr)⟩ ∧
      (w.frames.freeFrame addr).excess = w.frames.excess := by
  obtain ⟨page, isPage⟩ := kept.pages addr isIssued
  obtain ⟨pages, same⟩ := Frames.freeFrame_spec isPage.1 isPage.2
  refine ⟨⟨kept.pages, ?_, ?_, kept.once.filter _⟩, same⟩
  · intro other isMember
    exact kept.known other (List.mem_of_mem_filter isMember)
  · intro other isMember page' isPage' free
    rw [List.mem_filter, decide_eq_true_eq] at isMember
    rw [pages, Finset.mem_insert] at free
    rcases free with here | before
    · exact isMember.2 (isPage'.inj (here ▸ isPage))
    · exact kept.used other isMember.1 page' isPage' before

/-- **One operation** keeps the loans and the excess of the count. -/
theorem Kept.step (kept : Kept w) {op : FrameOp} {answer : Option (BitVec 64)} (valid : w.Valid op)
    (done : w.step op = some (answer, w')) :
    Kept w' ∧ w'.frames.excess = w.frames.excess ∧
      ∀ base, answer = some base → ∀ addr ∈ granted op base, addr ∉ w.out := by
  cases op with
  | alloc =>
    cases taken : w.frames.allocFrame with
    | none =>
      rw [Loans.step, taken] at done
      cases done
      exact ⟨kept, rfl, fun _ none => nomatch none⟩
    | some result =>
      obtain ⟨base, f'⟩ := result
      rw [Loans.step, taken] at done
      cases done
      have takes := takes_one taken
      refine ⟨takes.kept kept, takes.excess, ?_⟩
      rintro _ ⟨⟩
      exact takes.fresh kept
  | allocRun n =>
    cases taken : w.frames.allocFrames n with
    | none =>
      rw [Loans.step, taken] at done
      cases done
      exact ⟨kept, rfl, fun _ none => nomatch none⟩
    | some result =>
      obtain ⟨base, f'⟩ := result
      rw [Loans.step, taken] at done
      cases done
      have takes := takes_run taken
      refine ⟨takes.kept kept, takes.excess, ?_⟩
      rintro _ ⟨⟩
      exact takes.fresh kept
  | free addr =>
    cases done
    obtain ⟨next, same⟩ := kept.free valid
    exact ⟨next, same, fun _ none => nomatch none⟩

/-- **A run** keeps the loans, and the excess of the count that boot left. -/
theorem run_kept {f : Frames} {history : List (FrameOp × Option (BitVec 64))}
    (run : Run step Valid (start f) history w) : Kept w ∧ w.frames.excess = f.excess := by
  refine run.invariant (P := fun w => Kept w ∧ w.frames.excess = f.excess) ⟨kept_start f, rfl⟩ ?_
  rintro s op a s' ⟨kept, same⟩ valid done
  obtain ⟨next, same', _⟩ := kept.step valid done
  exact ⟨next, same'.trans same⟩

/-! ## Boot -/

/-- The regions `init` reads. -/
def bootRegions (mem : Nat → BitVec 8) (mb2Addr : BitVec 32) : List Region :=
  if mb2Addr = 0 then [] else (memoryMap mem mb2Addr).getD []

/-- No frame lies in two available regions. -/
def RegionsApart (mem : Nat → BitVec 8) (mb2Addr : BitVec 32) : Prop :=
  (bootRegions mem mb2Addr).Pairwise fun a b => Disjoint (Frames.pages a) (Frames.pages b)

theorem length_readEntries {mem : Nat → BitVec 8} {entrySize eend : BitVec 32} (fuel : Nat) :
    ∀ {eoff : BitVec 32} {rs : List Region},
      readEntries mem entrySize eend fuel eoff = some rs → rs.length ≤ fuel := by
  induction fuel with
  | zero => intro eoff rs reads; cases reads
  | succ fuel ih =>
    intro eoff rs reads
    rw [readEntries] at reads
    split at reads
    · obtain ⟨rest, later, rfl⟩ := Option.map_eq_some_iff.mp reads
      exact Nat.succ_le_succ (ih later)
    · cases reads
      exact Nat.zero_le _

theorem length_readTags {mem : Nat → BitVec 8} {mb2Addr totalSize : BitVec 32} (fuel : Nat) :
    ∀ {offset : BitVec 32} {rs : List Region},
      readTags mem mb2Addr totalSize fuel offset = some rs → rs.length ≤ walkSteps := by
  induction fuel with
  | zero => intro offset rs reads; cases reads
  | succ fuel ih =>
    intro offset rs reads
    rw [readTags] at reads
    split at reads
    · simp only at reads
      split at reads
      · cases reads
        exact Nat.zero_le _
      · split at reads
        · exact length_readEntries _ reads
        · exact ih reads
    · cases reads
      exact Nat.zero_le _

theorem length_bootRegions (mem : Nat → BitVec 8) (mb2Addr : BitVec 32) :
    (bootRegions mem mb2Addr).length ≤ walkSteps := by
  rw [bootRegions]
  split
  · exact Nat.zero_le _
  · cases reads : memoryMap mem mb2Addr with
    | none => exact Nat.zero_le _
    | some rs => exact length_readTags _ reads

/-- The excess that boot leaves is what lies in two regions. -/
theorem excess_init {mem : Nat → BitVec 8} {mb2Addr : BitVec 32} {kernelEnd : BitVec 64} {f : Frames}
    (booted : Frames.init mem mb2Addr kernelEnd = some f) :
    f.excess = BitVec.ofNat 64 (Frames.overlap ∅ (bootRegions mem mb2Addr)) := by
  rw [Frames.init] at booted
  rw [bootRegions]
  split at booted
  · rename_i none
    cases booted
    rw [if_pos none, Frames.excess_boot]
    rfl
  · rename_i some
    obtain ⟨rs, reads, rfl⟩ := Option.map_eq_some_iff.mp booted
    rw [if_neg some, reads, Frames.excess_initRegions]
    rfl

theorem excess_init_eq_zero {mem : Nat → BitVec 8} {mb2Addr : BitVec 32} {kernelEnd : BitVec 64}
    {f : Frames} (booted : Frames.init mem mb2Addr kernelEnd = some f) :
    f.excess = 0 ↔ RegionsApart mem mb2Addr := by
  have most := Frames.overlap_le ∅ (bootRegions mem mb2Addr)
  have few := Nat.mul_le_mul_right maxPages (length_bootRegions mem mb2Addr)
  have pages : maxPages = 1048576 := rfl
  have steps : walkSteps = 4294967297 := by
    rw [walkSteps]
    rfl
  rw [pages, steps] at few
  rw [pages] at most
  have small : Frames.overlap ∅ (bootRegions mem mb2Addr) < 2 ^ 64 := by omega
  have zero : BitVec.ofNat 64 (Frames.overlap ∅ (bootRegions mem mb2Addr)) = 0 ↔
      Frames.overlap ∅ (bootRegions mem mb2Addr) = 0 := by
    rw [← BitVec.toNat_inj, BitVec.toNat_ofNat, Nat.mod_eq_of_lt small]
    exact Iff.rfl
  rw [excess_init booted, zero, Frames.overlap_eq_zero]
  constructor
  · intro both
    exact both.2
  · intro apart
    exact ⟨fun r _ => Finset.disjoint_empty_left _, apart⟩

/-- A boot memory map in memory at 4096, of little-endian words. -/
def bootMemory (words : List (BitVec 32)) (addr : Nat) : BitVec 8 :=
  ((words.getD ((addr - 4096) / 4) 0) >>> (8 * (addr % 4))).setWidth 8

/-- One available region of one page at two megabytes. -/
def onceMapped : Nat → BitVec 8 :=
  bootMemory [56, 0, 6, 40, 24, 0, 0x200000, 0, 0x1000, 0, 1, 0]

/-- The same region twice. -/
def twiceMapped : Nat → BitVec 8 :=
  bootMemory [80, 0, 6, 64, 24, 0, 0x200000, 0, 0x1000, 0, 1, 0, 0x200000, 0, 0x1000, 0, 1, 0]

theorem once_regions : memoryMap onceMapped 4096 = some [⟨0x200000, 0x1000, 1⟩] := by
  with_unfolding_all rfl

theorem twice_regions : memoryMap twiceMapped 4096 =
    some [⟨0x200000, 0x1000, 1⟩, ⟨0x200000, 0x1000, 1⟩] := by
  with_unfolding_all rfl

theorem once_apart : RegionsApart onceMapped 4096 := by
  rw [RegionsApart, bootRegions, if_neg (by decide), once_regions]
  exact List.pairwise_singleton _ _

theorem twice_not_apart : ¬ RegionsApart twiceMapped 4096 := by
  rw [RegionsApart, bootRegions, if_neg (by decide), twice_regions]
  intro apart
  have both := (List.pairwise_cons.mp apart).1 _ List.mem_cons_self
  have page : (512 : Nat) ∈ Frames.pages ⟨0x200000, 0x1000, 1⟩ := by decide
  exact Finset.disjoint_left.mp both page page

theorem init_once (kernelEnd : BitVec 64) : Frames.init onceMapped 4096 kernelEnd =
    some (Frames.initRegions [⟨0x200000, 0x1000, 1⟩] kernelEnd) := by
  rw [Frames.init, if_neg (by decide), once_regions]
  rfl

theorem init_twice (kernelEnd : BitVec 64) : Frames.init twiceMapped 4096 kernelEnd =
    some (Frames.initRegions [⟨0x200000, 0x1000, 1⟩, ⟨0x200000, 0x1000, 1⟩] kernelEnd) := by
  rw [Frames.init, if_neg (by decide), twice_regions]
  rfl

end Loans

end RustyPenguin.Vmm
