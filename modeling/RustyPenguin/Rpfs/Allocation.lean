import RustyPenguin.Foundation.Ownership
import RustyPenguin.Rpfs.Progress

/-!
# The allocation invariant

`Allocated` says that the bitmap is exact: a block is marked used if and only if it
lies in the extent of an active entry, in one only, and every extent lies in the
volume. It is `Ownership.Exact` at the blocks of the volume, with the directory slots
as owners, so that an operation keeps it by releasing and acquiring extents. The one
step that does not is a write whose data the device refused (`WriteOutcome.failed`): it
leaves the extent it took without an owner.
-/

set_option autoImplicit false

namespace RustyPenguin.Rpfs

open Buffer Ownership

/-! ## Extents as ownership -/

/-- The entry is active and block `b` is in its extent. -/
def Entry.Holds (e : Entry) (b : Nat) : Prop := e.Active ∧ e.Owns b

/-- What the slots own, but for slot `skip`. -/
def Directory.OwnsBut (dir : Directory) (skip : Fin dirEntries) (i : Fin dirEntries) (b : Nat) :
    Prop := i ≠ skip ∧ (dir.entry i).Holds b

/-- The block is marked used. -/
def Used (bitmap : List UInt8) (b : Nat) : Prop := bitAt bitmap b = true

/-- **The allocation invariant** of a bitmap and a directory. -/
structure Allocation (totalBlocks : Nat) (dir : Directory) (bitmap : List UInt8) : Prop where
  exact : Exact (Used bitmap) fun i => (dir.entry i).Holds
  inside : ∀ i, (dir.entry i).Active → 0 < (dir.entry i).nblocks →
    (dir.entry i).start + (dir.entry i).nblocks ≤ totalBlocks
  dirs : ∀ i, (dir.entry i).IsDir → (dir.entry i).nblocks = 0

/-- **The allocation invariant** of a volume. -/
abbrev Allocated {D : Type} (fs : Rpfs D) : Prop := Allocation fs.totalBlocks fs.dir fs.bitmap

theorem Entry.not_holds_of_free {e : Entry} (unused : e.trit ≤ 0) (b : Nat) : ¬e.Holds b :=
  fun held => held.1.not_free unused

theorem Entry.not_holds_of_empty {e : Entry} (empty : e.nblocks = 0) (b : Nat) : ¬e.Holds b := by
  rintro ⟨-, low, high⟩
  omega

namespace Allocation

variable {totalBlocks : Nat} {dir dir' : Directory} {bitmap bitmap' : List UInt8}
  {slot : Fin dirEntries}

/-- A block of an extent lies in the volume. -/
theorem lt_totalBlocks (alloc : Allocation totalBlocks dir bitmap) {i : Fin dirEntries} {b : Nat}
    (held : (dir.entry i).Holds b) : b < totalBlocks := by
  obtain ⟨active, low, high⟩ := held
  have := alloc.inside i active (by omega)
  omega

/-- A slot that owns nothing may be skipped. -/
theorem but_of_empty (alloc : Allocation totalBlocks dir bitmap)
    (nothing : ∀ b, ¬(dir.entry slot).Holds b) : Exact (Used bitmap) (dir.OwnsBut slot) := by
  refine alloc.exact.congr (fun b => Iff.rfl) fun i b => ?_
  constructor
  · exact fun held => held.2
  · exact fun held => ⟨fun same => nothing b (same ▸ held), held⟩

/-- Clearing the bits of a slot's extent leaves what the other slots own. -/
theorem but_of_freed (alloc : Allocation totalBlocks dir bitmap) (active : (dir.entry slot).Active)
    (freed : Filled bitmap bitmap' (min (dir.entry slot).start totalBlocks)
      (min ((dir.entry slot).start + (dir.entry slot).nblocks) totalBlocks) false) :
    Exact (Used bitmap') (dir.OwnsBut slot) := by
  refine alloc.exact.release slot (fun b held => held.1 rfl)
    (fun j b different => ⟨fun held => held.2, fun held => ⟨different, held⟩⟩) fun b => ?_
  have within := alloc.inside slot active
  by_cases mine : (dir.entry slot).Owns b
  · obtain ⟨low, high⟩ := mine
    have inside := within (by omega)
    have cleared := freed.inside b (by omega) (by omega)
    rw [Used, cleared]
    exact ⟨fun impossible => absurd impossible Bool.false_ne_true,
      fun both => absurd ⟨active, low, high⟩ both.2⟩
  · have kept := freed.outside b (by rw [Entry.Owns] at mine; omega)
    rw [Used, Used, kept]
    exact ⟨fun used => ⟨used, fun held => mine held.2⟩, fun both => both.1⟩

/-- The slots but one own what is used, so a directory in which that one owns nothing is
allocated. -/
theorem of_but (owned : Exact (Used bitmap) (dir.OwnsBut slot))
    (inside : ∀ i, i ≠ slot → (dir.entry i).Active → 0 < (dir.entry i).nblocks →
      (dir.entry i).start + (dir.entry i).nblocks ≤ totalBlocks)
    (dirs : ∀ i, i ≠ slot → (dir.entry i).IsDir → (dir.entry i).nblocks = 0)
    (others : ∀ i, i ≠ slot → dir'.entry i = dir.entry i)
    (empty : ¬(dir'.entry slot).Active ∨ (dir'.entry slot).nblocks = 0) :
    Allocation totalBlocks dir' bitmap where
  exact := by
    refine owned.congr (fun b => Iff.rfl) fun i b => ?_
    by_cases here : i = slot
    · subst here
      refine ⟨fun held => ?_, fun held => absurd rfl held.1⟩
      rcases empty with inactive | none
      · exact absurd held.1 inactive
      · exact absurd held (Entry.not_holds_of_empty none b)
    · rw [others i here]
      exact ⟨fun held => ⟨here, held⟩, fun held => held.2⟩
  inside i active positive := by
    by_cases here : i = slot
    · subst here
      rcases empty with inactive | none
      · exact absurd active inactive
      · omega
    · rw [others i here] at active positive ⊢
      exact inside i here active positive
  dirs i isDir := by
    by_cases here : i = slot
    · subst here
      rcases empty with inactive | none
      · exact absurd isDir.1 inactive
      · exact none
    · rw [others i here] at isDir ⊢
      exact dirs i here isDir

/-- A slot that owned nothing is given an entry that owns nothing. -/
theorem set_empty (alloc : Allocation totalBlocks dir bitmap)
    (nothing : ∀ b, ¬(dir.entry slot).Holds b)
    (others : ∀ i, i ≠ slot → dir'.entry i = dir.entry i)
    (empty : ¬(dir'.entry slot).Active ∨ (dir'.entry slot).nblocks = 0) :
    Allocation totalBlocks dir' bitmap :=
  of_but (alloc.but_of_empty nothing) (fun i _ => alloc.inside i) (fun i _ => alloc.dirs i) others
    empty

/-- Creating parents takes no blocks. -/
theorem parentsAdded {name : List UInt8} (alloc : Allocation totalBlocks dir bitmap)
    (added : ParentsAdded name dir dir') : Allocation totalBlocks dir' bitmap := by
  induction added with
  | refl => exact alloc
  | tail _ last ih =>
      obtain ⟨p, slot, -, -, free, rfl⟩ := last
      have unused := (Directory.freeSlot_eq_some.mp free).1
      refine ih.set_empty (Entry.not_holds_of_free unused) (fun i elsewhere => ?_) (Or.inr ?_)
      · rw [entry_setEntry_parent, if_neg elsewhere]
      · rw [entry_setEntry_parent, if_pos rfl]
        rfl

end Allocation

/-- Creating parents takes no blocks, whatever becomes of the slot that is skipped. -/
theorem ParentsAdded.but {name : List UInt8} {slot : Fin dirEntries} {bitmap : List UInt8} {dir dir' : Directory}
    (added : ParentsAdded name dir dir') (owned : Exact (Used bitmap) (dir.OwnsBut slot)) :
    Exact (Used bitmap) (dir'.OwnsBut slot) := by
  refine owned.congr (fun b => Iff.rfl) fun i b => ?_
  rcases added.entry i with same | ⟨unused, p, -, -, parent⟩
  · rw [Directory.OwnsBut, Directory.OwnsBut, same]
  · refine ⟨fun held => absurd held.2 (parent ▸ Entry.not_holds_of_empty rfl b), fun held => ?_⟩
    exact absurd held.2 (Entry.not_holds_of_free unused b)

/-! ## Steps -/

section Steps

variable {D : Type} [BlockDev D] {fs fs' : Rpfs D} {name data : List UInt8}

omit [BlockDev D] in
/-- After the extent of an overwritten file is released, what is used is what the slots but the
one to be written own. -/
theorem Released.but {slot : Fin dirEntries} {bitmap : List UInt8} (alloc : fs.Allocated)
    (released : Released fs name slot bitmap) : Exact (Used bitmap) (fs.dir.OwnsBut slot) := by
  cases released with
  | overwrite found isFile freed =>
      exact alloc.but_of_freed (Directory.find_eq_some.mp found).1.1 freed
  | fresh missing free =>
      exact alloc.but_of_empty (Entry.not_holds_of_free (Directory.freeSlot_eq_some.mp free).1)

omit [BlockDev D] in
/-- The slot a write goes to is in use by the file it overwrites or free. -/
theorem Released.slot_entry {slot : Fin dirEntries} {bitmap : List UInt8}
    (released : Released fs name slot bitmap) :
    (fs.dir.find name = some slot ∧ (fs.dir.entry slot).IsFile ∧ (fs.dir.entry slot).name = name) ∨
      (fs.dir.find name = none ∧ fs.dir.freeSlot = some slot ∧ (fs.dir.entry slot).trit ≤ 0) := by
  cases released with
  | overwrite found isFile freed =>
      have there := (Directory.find_eq_some.mp found).1
      exact Or.inl ⟨found, ⟨there.1, isFile⟩, there.2⟩
  | fresh missing free =>
      exact Or.inr ⟨missing, free, (Directory.freeSlot_eq_some.mp free).1⟩

omit [BlockDev D] in
/-- **A stored file's extent is acquired by its slot.** -/
theorem Allocated.stored {slot : Fin dirEntries} {start : Nat} {bitmap bitmap' : List UInt8}
    {dir : Directory} (alloc : fs.Allocated) (small : fs.totalBlocks < 2 ^ 32)
    (released : Released fs name slot bitmap)
    (room : start + blocksFor data.length ≤ fs.totalBlocks)
    (free : FreeRun bitmap start (blocksFor data.length))
    (taken : Filled bitmap bitmap' start (start + blocksFor data.length) true)
    (parents : ParentsAdded name fs.dir dir) :
    Allocation fs.totalBlocks
      (dir.setEntry slot name kFile 1 start data.length (blocksFor data.length)) bitmap' := by
  have startSmall : start % 2 ^ 32 = start := Nat.mod_eq_of_lt (by omega)
  have countSmall : blocksFor data.length % 2 ^ 32 = blocksFor data.length :=
    Nat.mod_eq_of_lt (by omega)
  have written := Directory.entry_setEntry dir slot slot name kFile 1 start data.length
    (blocksFor data.length)
  have others : ∀ i, i ≠ slot → (dir.setEntry slot name kFile 1 start data.length
      (blocksFor data.length)).entry i = dir.entry i := fun i elsewhere => by
    rw [Directory.entry_setEntry, if_neg elsewhere]
  rw [if_pos rfl, startSmall, countSmall] at written
  have grown := alloc.parentsAdded parents
  have owned := parents.but (released.but alloc)
  refine ⟨owned.acquire slot (fun b held => held.1 rfl) (fun j b different => ?_)
    (fun b held => ?_) (fun b => ?_), fun i active positive => ?_, fun i isDir => ?_⟩
  · rw [others j different]
    exact ⟨fun held => ⟨different, held⟩, fun held => held.2⟩
  · rw [written] at held
    rw [Used, free b held.2.1 held.2.2]
    exact Bool.false_ne_true
  · rw [written]
    by_cases inside : start ≤ b ∧ b < start + blocksFor data.length
    · rw [Used, taken.inside b inside.1 inside.2]
      exact ⟨fun _ => Or.inr ⟨rfl, inside.1, inside.2⟩, fun _ => rfl⟩
    · rw [Used, Used, taken.outside b (by omega)]
      exact ⟨Or.inl, fun either => either.resolve_right fun held => inside held.2⟩
  · by_cases here : i = slot
    · subst here
      rw [written]
      exact room
    · rw [others i here] at active positive ⊢
      exact grown.inside i active positive
  · by_cases here : i = slot
    · subst here
      rw [written] at isDir
      exact absurd isDir.2 (show ¬kFile = kDir by decide)
    · rw [others i here] at isDir ⊢
      exact grown.dirs i isDir

omit [BlockDev D] in
/-- A write that ran out of space leaves the slot empty and its old extent released. -/
theorem Allocated.noSpace {slot : Fin dirEntries} {bitmap : List UInt8} (alloc : fs.Allocated)
    (released : Released fs name slot bitmap) :
    Allocation fs.totalBlocks (fs.dir.setEntry slot name kFile (-1) 0 0 0) bitmap := by
  refine Allocation.of_but (released.but alloc) (fun i _ => alloc.inside i) (fun i _ => alloc.dirs i)
    (fun i elsewhere => ?_) (Or.inr ?_)
  · rw [Directory.entry_setEntry, if_neg elsewhere]
  · rw [Directory.entry_setEntry, if_pos rfl]
    rfl

omit [BlockDev D] in
/-- Nothing is used or owned in a fresh volume. -/
theorem Fresh.allocated (fresh : Fresh fs) : fs.Allocated := by
  have unused := fresh.inactive
  refine ⟨Exact.empty (fun b used => ?_) fun i b held => unused i held.1,
    fun i active => absurd active (unused i), fun i isDir => absurd isDir.1 (unused i)⟩
  rw [Used, fresh.bitmap_eq, bitAt_replicate] at used
  exact Bool.false_ne_true used

omit [BlockDev D] in
theorem Fresh.find_eq_none (fresh : Fresh fs) (name : List UInt8) : fs.find name = none :=
  Directory.find_eq_none.mpr fun i there => fresh.inactive i there.1

omit [BlockDev D] in
theorem Fresh.freeSlot_ne_none (fresh : Fresh fs) : fs.freeSlot ≠ none := by
  intro none
  rw [freeSlot, fresh.dir_eq] at none
  exact Directory.freeSlot_eq_none.mp none ⟨0, by decide⟩ (by rw [Directory.trit_zero]; decide)

omit [BlockDev D] in
/-- A fresh volume does not refuse a write within the limits. -/
theorem Fresh.not_refused (fresh : Fresh fs) (named : name ≠ []) (short : name.length ≤ maxName)
    (small : data.length ≤ maxFile) : ¬(¬fs.Writable name data ∨ fs.Unslotted name) := by
  rintro (unwritable | ⟨i, found, -⟩ | ⟨-, none⟩)
  · exact unwritable ⟨fresh.ready, named, short, small⟩
  · exact Option.some_ne_none i (found.symm.trans (fresh.find_eq_none name))
  · exact fresh.freeSlot_ne_none none

omit [BlockDev D] in
/-- There is nothing to release in a fresh volume. -/
theorem Fresh.released {slot : Fin dirEntries} {bitmap : List UInt8} (fresh : Fresh fs)
    (released : Released fs name slot bitmap) : bitmap = fs.bitmap := by
  cases released with
  | overwrite found => exact absurd (found.symm.trans (fresh.find_eq_none name)) (Option.some_ne_none _)
  | fresh => rfl

omit [BlockDev D] in
/-- Every run of blocks of a fresh volume is free. -/
theorem Fresh.free (fresh : Fresh fs) (start n : Nat) : FreeRun fs.bitmap start n := by
  intro c _ _
  rw [fresh.bitmap_eq]
  exact bitAt_replicate _ c

end Steps

section Recorded

variable {D : Type} [BlockDev D] {fs fs' : Rpfs (Recorder D)}

/-- **A step whose data writes were honoured keeps the allocation exact.** -/
theorem apply_allocated {op : Op} {ok : Bool} (wf : fs.WellFormed)
    (small : fs.totalBlocks < 2 ^ 32) (alloc : fs.Allocated)
    (done : fs.apply op = some (ok, fs')) (honoured : DataHonoured fs fs') : fs'.Allocated := by
  have total : fs'.totalBlocks = fs.totalBlocks :=
    congrArg Shape.totalBlocks (apply_bounded wf done).shape_eq
  rw [Allocated, total]
  cases op with
  | write name data =>
      cases writeFile_outcome wf done with
      | refused => exact alloc
      | noSpace _ released _ effect =>
          rw [effect.dir_eq, effect.bitmap_eq]
          exact Allocated.noSpace alloc released
      | failed _ _ _ _ _ before loop _ => exact absurd honoured (not_dataHonoured before loop)
      | stored _ released room free taken _ _ parents _ effect =>
          rw [effect.dir_eq, effect.bitmap_eq]
          exact Allocated.stored alloc small released room free taken parents
  | delete name =>
      cases deleteFile_outcome wf done with
      | refused => exact alloc
      | @dir slot _ found isDir _ effect =>
          rw [effect.dir_eq, effect.bitmap_eq]
          have active := (Directory.find_eq_some.mp found).1.1
          refine alloc.set_empty
            (Entry.not_holds_of_empty (alloc.dirs slot ⟨active, isDir⟩)) (fun i elsewhere => ?_)
            (Or.inl ?_)
          · rw [Directory.entry_tombstone, if_neg elsewhere]
          · rw [Directory.entry_tombstone, if_pos rfl]
            exact show ¬(-1 : Int8) = 1 by decide
      | @file slot _ _ found isFile freed effect =>
          rw [effect.dir_eq, effect.bitmap_eq]
          have active := (Directory.find_eq_some.mp found).1.1
          refine Allocation.of_but (alloc.but_of_freed active freed) (fun i _ => alloc.inside i)
            (fun i _ => alloc.dirs i) (fun i elsewhere => ?_) (Or.inl ?_)
          · rw [Directory.entry_tombstone, if_neg elsewhere]
          · rw [Directory.entry_tombstone, if_pos rfl]
            exact show ¬(-1 : Int8) = 1 by decide
  | mkdir name =>
      cases mkdir_outcome wf done with
      | refused => exact alloc
      | there _ _ parents _ effect =>
          rw [effect.dir_eq, effect.bitmap_eq]
          exact alloc.parentsAdded parents
      | full _ _ parents _ _ effect =>
          rw [effect.dir_eq, effect.bitmap_eq]
          exact alloc.parentsAdded parents
      | made _ _ parents _ free effect =>
          rw [effect.dir_eq, effect.bitmap_eq]
          refine (alloc.parentsAdded parents).set_empty
            (Entry.not_holds_of_free (Directory.freeSlot_eq_some.mp free).1)
            (fun i elsewhere => ?_) (Or.inr ?_)
          · rw [entry_setEntry_parent, if_neg elsewhere]
          · rw [entry_setEntry_parent, if_pos rfl]
            rfl
  | read name out =>
      obtain ⟨r, out', read⟩ := apply_read done
      rw [(readFile_spec read).dir_eq, (readFile_spec read).bitmap_eq]
      exact alloc

/-- A step of a disk that honours everything. -/
theorem dataHonoured_of_willing {fs fs' : Rpfs (Recorder ScriptedDisk)} {R : Nat → Nat → Prop}
    (willing : fs.dev.dev.script = fun _ => true) (step : Bounded fs fs' R) :
    DataHonoured fs fs' := fun q member _ _ => by
  obtain ⟨k, answer⟩ := (ScriptedDisk.since_script step.issued).2 q member
  rw [answer, willing]

/-- **A fresh volume stores a file** of the size it has room for, if its disk honours
everything. -/
theorem Fresh.stores {fs : Rpfs (Recorder ScriptedDisk)} (fresh : Fresh fs) (name data : List UInt8)
    (roomy : fs.shape.Roomy) (willing : fs.dev.dev.script = fun _ => true) (named : name ≠ [])
    (short : name.length ≤ maxName) (small : data.length ≤ maxFile)
    (room : blocksFor data.length ≤ fs.totalBlocks) :
    ∃ fs', fs.apply (.write name data) = some (true, fs') ∧ DataHonoured fs fs' ∧
      ∃ (slot : Fin dirEntries) (start : Nat) (dir : Directory), fs.dir.freeSlot = some slot ∧
        ParentsAdded name fs.dir dir ∧
        fs'.dir = dir.setEntry slot name kFile 1 start data.length (blocksFor data.length) := by
  obtain ⟨⟨ok, fs'⟩, done⟩ := fresh.total roomy (.write name data)
  have honoured := dataHonoured_of_willing willing (apply_bounded fresh.wf done)
  cases writeFile_outcome fresh.wf done with
  | refused why => exact (fresh.not_refused named short small why).elim
  | noSpace _ released full _ =>
      rw [fresh.released released] at full
      exact absurd (fresh.free _ _) (full 0 (by omega))
  | failed _ _ _ _ _ before loop _ => exact absurd honoured (not_dataHonoured before loop)
  | @stored slot _ _ _ start _ _ dir _ released _ _ _ _ _ parents _ effect =>
      refine ⟨fs', done, honoured, slot, start, dir, ?_, parents, effect.dir_eq⟩
      rcases released.slot_entry with ⟨found, -⟩ | ⟨-, free, -⟩
      · exact absurd (found.symm.trans (fresh.find_eq_none name)) (Option.some_ne_none _)
      · exact free

/-- **The allocation stays exact while the device honours the data writes.** Whatever happens
to writes of the bitmap and the directory, and whatever the operations are: as long as no data
write is refused, every used block of a formatted volume belongs to exactly one active entry,
and every extent lies in the volume. -/
theorem allocated_of_run {fs₀ : Rpfs (Recorder D)} {history : List (Op × Bool)}
    (formatted : Formatted fs₀) (run : RunFrom Any fs₀ history fs)
    (honoured : DataHonoured fs₀ fs) : fs.Allocated := by
  have fresh := formatted.fresh
  refine (run.invariant (P := fun fs => Bounded fs₀ fs fs₀.shape.VolumeArea ∧
    (DataHonoured fs₀ fs → fs.Allocated)) ⟨⟨rfl, Issues.refl _⟩, fun _ => fresh.allocated⟩ ?_).2
    honoured
  rintro fs op ok fs' ⟨before, alloc⟩ - done
  have wf : fs.WellFormed := show Shape.WellFormed _ from before.shape_eq ▸ fresh.wf
  have step := apply_bounded wf done
  have total : fs.totalBlocks = fs₀.totalBlocks := congrArg Shape.totalBlocks before.shape_eq
  have after : Bounded fs₀ fs' fs₀.shape.VolumeArea :=
    ⟨step.shape_eq.trans before.shape_eq,
      before.issued.trans (before.shape_eq ▸ step.issued)⟩
  refine ⟨after, fun honoured => ?_⟩
  obtain ⟨first, second⟩ := honoured.split before step
  exact apply_allocated wf (total ▸ fresh.totalBlocks_lt) (alloc first) done second

/-- The theorem at a volume of one block on a disk that honours everything, after one write. -/
theorem allocated_of_run_small : ∃ fs₀ fs : Rpfs (Recorder ScriptedDisk),
    formatVolume ⟨ScriptedDisk.blank fun _ => true, []⟩ 0 1 1 = some fs₀ ∧
      RunFrom Any fs₀ [(.write [97] [1, 2, 3], true)] fs ∧ fs.Allocated := by
  obtain ⟨fs₀, laid, formatted, roomy, total, issued⟩ :=
    exists_formatted (⟨ScriptedDisk.blank fun _ => true, []⟩ : Recorder ScriptedDisk) 1 (by decide)
  obtain ⟨fs, done, honoured, -⟩ := formatted.fresh.stores [97] [1, 2, 3] roomy
    (ScriptedDisk.since_script issued).1 (by decide) (by decide) (by decide) (by rw [total]; decide)
  have run : RunFrom Any fs₀ [(.write [97] [1, 2, 3], true)] fs := Run.start.next trivial done
  exact ⟨fs₀, fs, laid, run, allocated_of_run formatted run honoured⟩

/-- **A refused data write leaks its extent.** On a volume of one block whose disk refuses every
write, a write of one file returns false and leaves its block used by nobody. -/
theorem refused_write_leaks : ∃ fs₀ fs : Rpfs (Recorder ScriptedDisk),
    formatVolume ⟨ScriptedDisk.blank fun _ => false, []⟩ 0 1 1 = some fs₀ ∧
      RunFrom Any fs₀ [(.write [97] [1, 2, 3], false)] fs ∧ ¬fs.Allocated := by
  obtain ⟨fs₀, laid, formatted, roomy, total, issued⟩ :=
    exists_formatted (⟨ScriptedDisk.blank fun _ => false, []⟩ : Recorder ScriptedDisk) 1 (by decide)
  have fresh := formatted.fresh
  obtain ⟨⟨ok, fs⟩, done⟩ := fresh.total roomy (.write [97] [1, 2, 3])
  have unwilling : fs₀.dev.dev.script = fun _ => false := (ScriptedDisk.since_script issued).1
  cases writeFile_outcome fresh.wf done with
  | refused why => exact (fresh.not_refused (by decide) (by decide) (by decide) why).elim
  | noSpace _ released full _ =>
      rw [fresh.released released] at full
      exact absurd (fresh.free _ _) (full 0 (by rw [total]; decide))
  | @failed slot fs₂ _ start bitmap bitmap' _ released room free taken before loop effect =>
      refine ⟨fs₀, fs, laid, Run.start.next trivial done, fun alloc => ?_⟩
      have used : Used fs.bitmap start := by
        rw [Used, effect.bitmap_eq]
        exact taken.inside start (Nat.le_refl _) (by have := blocksFor_pos 3; exact Nat.lt_add_of_pos_right this)
      obtain ⟨i, held⟩ := (alloc.exact.used_iff start).mp used
      rw [effect.dir_eq] at held
      exact fresh.inactive i held.1
  | @stored slot fs₂ fs₃ _ start bitmap bitmap' dir _ released room free taken before loop =>
      have script := (ScriptedDisk.since_script before.issued).1
      exact absurd loop (writeData_of_unwilling (blocksFor_pos _) (script.trans unwilling))

end Recorded

end RustyPenguin.Rpfs
