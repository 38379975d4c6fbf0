import RustyPenguin.Rpfs.FailedWrite

/-!
# Created paths and their parents

A call that creates a path and returns true should leave every parent of the path a
directory, the path itself an entry of the kind asked for, and every other entry as it
was (`Created`). Parents that are missing take the first free slots. `write_file` has
chosen the slot of a new file before that, so the first missing parent goes to the slot
the file then overwrites (`ParentsAdded.lost`).

How many parents are created is a matter of counting: each takes one free slot and ends
one missing path (`ParentAdded.counts`), and `ensure_parents` stops for want of either
(`ensureParents_settled`).
-/

set_option autoImplicit false

namespace RustyPenguin.Rpfs

open Buffer

/-! ## Missing parents and free slots -/

namespace Directory

/-- The path is that of an active directory. -/
def HasDir (dir : Directory) (p : List UInt8) : Prop :=
  ∃ i, (dir.entry i).IsDir ∧ (dir.entry i).name = p

/-- The separators of `name` at which a parent path ends that nothing has. -/
def missing (dir : Directory) (name : List UInt8) : Finset Nat :=
  (Finset.range name.length).filter fun idx =>
    0 < idx ∧ name[idx]? = some slash ∧ dir.find (name.take idx) = none

/-- The slots that are empty or deleted. -/
def freeSlots (dir : Directory) : Finset (Fin dirEntries) :=
  Finset.univ.filter fun i => (dir.entry i).trit ≤ 0

/-- Every parent of `name` that some entry has is a directory. -/
def ClearParents (dir : Directory) (name : List UInt8) : Prop :=
  ∀ p, ParentOf name p → dir.find p = none ∨ dir.HasDir p

variable {dir : Directory} {name p q : List UInt8} {slot : Fin dirEntries}

theorem mem_missing {idx : Nat} : idx ∈ dir.missing name ↔
    0 < idx ∧ name[idx]? = some slash ∧ dir.find (name.take idx) = none := by
  rw [missing, Finset.mem_filter, Finset.mem_range]
  refine ⟨fun both => both.2, fun there => ⟨?_, there⟩⟩
  exact (List.getElem?_eq_some_iff.mp there.2.1).1

theorem missing_eq_empty : dir.missing name = ∅ ↔ ∀ p, ParentOf name p → dir.find p ≠ none := by
  rw [Finset.eq_empty_iff_forall_notMem]
  constructor
  · rintro none p ⟨idx, positive, separator, rfl⟩ missing
    exact none idx (mem_missing.2 ⟨positive, separator, missing⟩)
  · intro present idx member
    obtain ⟨positive, separator, missing⟩ := mem_missing.1 member
    exact present _ ⟨idx, positive, separator, rfl⟩ missing

theorem mem_freeSlots {i : Fin dirEntries} : i ∈ dir.freeSlots ↔ (dir.entry i).trit ≤ 0 := by
  rw [freeSlots, Finset.mem_filter]
  exact ⟨fun both => both.2, fun unused => ⟨Finset.mem_univ i, unused⟩⟩

theorem freeSlots_eq_empty : dir.freeSlots = ∅ ↔ dir.freeSlot = none := by
  rw [Finset.eq_empty_iff_forall_notMem, freeSlot_eq_none]
  exact ⟨fun none i unused => none i (mem_freeSlots.2 unused),
    fun full i member => full i (mem_freeSlots.1 member)⟩

/-- A directory put in a free slot is found, and nothing else becomes or ceases to be. -/
theorem find_setEntry_parent (unused : (dir.entry slot).trit ≤ 0) (stored : storedName p = p) :
    (dir.setEntry slot p kDir 1 0 0 0).find q = none ↔ dir.find q = none ∧ q ≠ p := by
  rw [find_eq_none, find_eq_none]
  constructor
  · refine fun absent => ⟨fun i there => absent i ?_, fun same => absent slot ?_⟩
    · have elsewhere : i ≠ slot := by
        rintro rfl
        exact there.1.not_free unused
      rw [entry_setEntry_of_ne _ elsewhere]
      exact there
    · rw [entry_setEntry_self]
      exact ⟨rfl, stored.trans same.symm⟩
  · rintro ⟨absent, different⟩ i there
    by_cases here : i = slot
    · rw [here, entry_setEntry_self] at there
      exact different (there.2.symm.trans stored)
    · rw [entry_setEntry_of_ne _ here] at there
      exact absent i there

end Directory

section Parents

variable {name : List UInt8} {dir dir' : Directory}

/-- **A created parent** ends one missing path and takes one free slot. -/
theorem ParentAdded.counts (added : ParentAdded name dir dir') (nulFree : NulFree name)
    (short : name.length ≤ maxName) :
    (dir.missing name).card = (dir'.missing name).card + 1 ∧
      dir.freeSlots.card = dir'.freeSlots.card + 1 := by
  obtain ⟨p, slot, parent, missing, free, rfl⟩ := added
  have unused := (Directory.freeSlot_eq_some.mp free).1
  have stored := parent.storedName_eq nulFree short
  obtain ⟨idx, positive, separator, rfl⟩ := parent
  have inside := (List.getElem?_eq_some_iff.mp separator).1
  constructor
  · have mine := Directory.mem_missing.mpr ⟨positive, separator, missing⟩
    rw [← Finset.card_erase_add_one mine]
    refine congrArg (fun left => Finset.card left + 1) (Finset.ext fun k => ?_)
    rw [Finset.mem_erase, Directory.mem_missing, Directory.mem_missing,
      Directory.find_setEntry_parent unused stored]
    constructor
    · rintro ⟨different, low, there, absent⟩
      refine ⟨low, there, absent, fun same => different ?_⟩
      have above := (List.getElem?_eq_some_iff.mp there).1
      have lengths := congrArg List.length same
      rw [List.length_take, List.length_take] at lengths
      omega
    · rintro ⟨low, there, absent, different⟩
      exact ⟨fun same => different (by rw [same]), low, there, absent⟩
  · have mine : slot ∈ dir.freeSlots := Directory.mem_freeSlots.mpr unused
    rw [← Finset.card_erase_add_one mine]
    refine congrArg (fun left => Finset.card left + 1) (Finset.ext fun i => ?_)
    rw [Finset.mem_erase, Directory.mem_freeSlots, Directory.mem_freeSlots, entry_setEntry_parent]
    by_cases here : i = slot
    · rw [if_pos here]
      exact ⟨fun both => absurd here both.1, fun impossible =>
        absurd (show (1 : Int8) ≤ 0 from impossible) (by decide)⟩
    · rw [if_neg here]
      exact ⟨fun both => both.2, fun free => ⟨here, free⟩⟩

theorem ParentsAdded.counts (added : ParentsAdded name dir dir') (nulFree : NulFree name)
    (short : name.length ≤ maxName) :
    ∃ n, (dir.missing name).card = (dir'.missing name).card + n ∧
      dir.freeSlots.card = dir'.freeSlots.card + n := by
  induction added with
  | refl => exact ⟨0, (Nat.add_zero _).symm, (Nat.add_zero _).symm⟩
  | tail _ last ih =>
      obtain ⟨n, missing, free⟩ := ih
      obtain ⟨missing', free'⟩ := last.counts nulFree short
      exact ⟨n + 1, by omega, by omega⟩

/-- Nothing is left to create: the table is full, or every parent that can be stored is there. -/
def Settled (name : List UInt8) (dir : Directory) : Prop :=
  dir.freeSlot = none ∨ ∀ p, ParentOf name p → storedName p = p → dir.find p ≠ none

/-- **`ensure_parents` goes on while it can.** -/
theorem ensureParents_settled {D : Type} [BlockDev D] {fs fs' : Rpfs D}
    (done : fs.ensureParents name = some fs') : Settled name fs'.dir := by
  have reached := ensureParents_scan
    (P := fun idx fs => fs.dir.freeSlot = none ∨ ∀ cut < idx, 0 < cut → name[cut]? = some slash →
      storedName (name.take cut) = name.take cut → fs.dir.find (name.take cut) ≠ none) ?_ ?_
    (Or.inr fun cut low => absurd low (Nat.not_lt_zero cut)) done
  · refine reached.imp_right fun present p parent stored => ?_
    obtain ⟨idx, positive, separator, rfl⟩ := parent
    exact present idx (List.getElem?_eq_some_iff.mp separator).1 positive separator stored
  · refine fun idx fs other before => before.imp_right fun present cut low positive separator => ?_
    have earlier : cut ≠ idx := by
      rintro rfl
      exact other ⟨separator, positive⟩
    exact present cut (by omega) positive separator
  · intro idx fs fs' _ _ before one
    rcases ensureParent_some one with ⟨rfl, found | full⟩ | ⟨-, slot, free, put⟩
    · refine before.imp_right fun present cut low positive separator stored => ?_
      by_cases here : cut = idx
      · rw [here]
        exact found
      · exact present cut (by omega) positive separator stored
    · exact Or.inl full
    · change fs.dir.freeSlot = some slot at free
      have present := before.resolve_left fun full =>
        Option.some_ne_none slot (free.symm.trans full)
      rw [dir_putEntry put]
      refine Or.inr fun cut low positive separator stored none => ?_
      rw [Directory.find_eq_none] at none
      by_cases here : cut = idx
      · subst here
        refine none slot ?_
        rw [Directory.entry_setEntry_self]
        exact ⟨rfl, stored⟩
      · refine present cut (by omega) positive separator stored
          (Directory.find_eq_none.mpr fun i there => none i ?_)
        have elsewhere : i ≠ slot := by
          rintro rfl
          exact there.1.not_free (Directory.freeSlot_eq_some.mp free).1
        rw [Directory.entry_setEntry_of_ne _ elsewhere]
        exact there

theorem Settled.missing_eq_empty (settled : Settled name dir) (nulFree : NulFree name)
    (short : name.length ≤ maxName) (free : dir.freeSlot ≠ none) : dir.missing name = ∅ :=
  Directory.missing_eq_empty.mpr fun p parent =>
    settled.resolve_left free p parent (parent.storedName_eq nulFree short)

/-- **All parents are created** if and only if there are as many free slots as are missing. -/
theorem ParentsAdded.missing_eq_empty_iff (added : ParentsAdded name dir dir')
    (settled : Settled name dir') (nulFree : NulFree name) (short : name.length ≤ maxName) :
    dir'.missing name = ∅ ↔ (dir.missing name).card ≤ dir.freeSlots.card := by
  obtain ⟨n, missing, free⟩ := added.counts nulFree short
  constructor
  · intro none
    rw [none, Finset.card_empty] at missing
    omega
  · intro enough
    by_cases full : dir'.freeSlot = none
    · rw [Directory.freeSlots_eq_empty.mpr full, Finset.card_empty] at free
      exact Finset.card_eq_zero.mp (by omega)
    · exact settled.missing_eq_empty nulFree short full

/-- The parents that are directories after missing ones were created. -/
theorem ParentsAdded.hasDir_iff (added : ParentsAdded name dir dir') (nulFree : NulFree name)
    (short : name.length ≤ maxName) (p : List UInt8) :
    dir'.HasDir p ↔ dir.HasDir p ∨ (dir.find p = none ∧ dir'.find p ≠ none) := by
  constructor
  · rintro ⟨i, isDir, named⟩
    rcases added.entry i with same | ⟨-, q, parent, missing, created⟩
    · rw [same] at isDir named
      exact Or.inl ⟨i, isDir, named⟩
    · obtain ⟨j, found⟩ := Directory.exists_find isDir.1 named
      rw [created] at named
      have stored : q = p := (parent.storedName_eq nulFree short).symm.trans named
      exact Or.inr ⟨stored ▸ missing, found ▸ Option.some_ne_none j⟩
  · rintro (⟨i, isDir, named⟩ | ⟨missing, present⟩)
    · refine ⟨i, ?_, ?_⟩
      · rw [added.entry_of_active isDir.1]
        exact isDir
      · rw [added.entry_of_active isDir.1]
        exact named
    · obtain ⟨i, found⟩ := Option.ne_none_iff_exists'.mp present
      have there := (Directory.find_eq_some.mp found).1
      refine ⟨i, ?_, there.2⟩
      rcases added.entry i with same | ⟨-, q, -, -, created⟩
      · rw [same] at there
        exact absurd there (Directory.find_eq_none.mp missing i)
      · rw [created]
        exact ⟨rfl, rfl⟩

/-- **Every parent is a directory** if and only if none was something else and there was a slot
for each that was missing. -/
theorem ParentsAdded.parents_iff (added : ParentsAdded name dir dir')
    (settled : Settled name dir') (nulFree : NulFree name) (short : name.length ≤ maxName) :
    (∀ p, ParentOf name p → dir'.HasDir p) ↔
      dir.ClearParents name ∧ (dir.missing name).card ≤ dir.freeSlots.card := by
  rw [← added.missing_eq_empty_iff settled nulFree short, Directory.missing_eq_empty]
  constructor
  · refine fun made => ⟨fun p parent => ?_, fun p parent => ?_⟩
    · rcases (added.hasDir_iff nulFree short p).mp (made p parent) with before | ⟨missing, -⟩
      · exact Or.inr before
      · exact Or.inl missing
    · obtain ⟨i, isDir, named⟩ := made p parent
      obtain ⟨j, found⟩ := Directory.exists_find isDir.1 named
      exact found ▸ Option.some_ne_none j
  · rintro ⟨clear, present⟩ p parent
    rw [added.hasDir_iff nulFree short]
    exact (clear p parent).symm.imp_right fun missing => ⟨missing, present p parent⟩

/-- **The first missing parent takes the first free slot**, and no other slot gets its path. -/
theorem ParentsAdded.lost {slot : Fin dirEntries} (added : ParentsAdded name dir dir')
    (settled : Settled name dir') (nulFree : NulFree name) (short : name.length ≤ maxName)
    (free : dir.freeSlot = some slot) (needed : dir.missing name ≠ ∅) :
    ∃ p, ParentOf name p ∧ ∀ i, i ≠ slot → (dir'.entry i).Active → (dir'.entry i).name ≠ p := by
  rcases Relation.ReflTransGen.cases_head added with rfl | ⟨mid, first, later⟩
  · refine absurd (settled.missing_eq_empty nulFree short ?_) needed
    rw [free]
    exact Option.some_ne_none slot
  · obtain ⟨p, slot', parent, missing, free', rfl⟩ := first
    obtain rfl := Option.some.inj (free.symm.trans free')
    have stored := parent.storedName_eq nulFree short
    refine ⟨p, parent, fun i elsewhere active named => ?_⟩
    rcases ParentsAdded.entry later i with same | ⟨-, q, parent', absent, created⟩
    · rw [same, Directory.entry_setEntry_of_ne _ elsewhere] at active named
      exact Directory.find_eq_none.mp missing i ⟨active, named⟩
    · rw [created] at named
      have samePath : q = p := (parent'.storedName_eq nulFree short).symm.trans named
      exact ((Directory.find_setEntry_parent (Directory.freeSlot_eq_some.mp free).1 stored).mp
        absent).2 samePath

end Parents

/-! ## Creating calls -/

/-- Replacing an entry changes which paths are directories at most for its old and new path. -/
theorem Directory.hasDir_set {dir dir' : Directory} {slot : Fin dirEntries} {p : List UInt8}
    (others : ∀ i, i ≠ slot → dir'.entry i = dir.entry i)
    (before : (dir.entry slot).IsDir → (dir.entry slot).name ≠ p)
    (after : (dir'.entry slot).IsDir → (dir'.entry slot).name ≠ p) :
    dir'.HasDir p ↔ dir.HasDir p := by
  constructor
  · rintro ⟨i, isDir, named⟩
    have elsewhere : i ≠ slot := by
      rintro rfl
      exact after isDir named
    rw [others i elsewhere] at isDir named
    exact ⟨i, isDir, named⟩
  · rintro ⟨i, isDir, named⟩
    have elsewhere : i ≠ slot := by
      rintro rfl
      exact before isDir named
    rw [← others i elsewhere] at isDir named
    exact ⟨i, isDir, named⟩

/-- Active entries are regular files or directories. -/
def Directory.Kinded (dir : Directory) : Prop :=
  ∀ i, (dir.entry i).Active → (dir.entry i).kind = kFile ∨ (dir.entry i).kind = kDir

section Calls

variable {D : Type}

/-- **The path was created**: its parents are directories, it is the path of an active entry of
the kind wanted, and the entries that were active are still there. -/
structure Created (fs fs' : Rpfs D) (name : List UInt8) (Wanted : Fin dirEntries → Prop) :
    Prop where
  parents : ∀ p, ParentOf name p → fs'.dir.HasDir p
  there : ∃ i, (fs'.dir.entry i).Active ∧ (fs'.dir.entry i).name = name ∧ Wanted i
  kept : ∀ i, (fs.dir.entry i).Active → (fs'.dir.entry i).Active ∧
    (fs'.dir.entry i).name = (fs.dir.entry i).name ∧ (fs'.dir.entry i).kind = (fs.dir.entry i).kind

/-- The path was created as a directory. -/
def DirMade (fs fs' : Rpfs D) (name : List UInt8) : Prop :=
  Created fs fs' name fun i => (fs'.dir.entry i).kind = kDir

/-- The path was created as a regular file that holds the data. -/
def FileMade [LawfulBlockDev D] (fs fs' : Rpfs D) (name data : List UInt8) : Prop :=
  Created fs fs' name fun i => (fs'.dir.entry i).kind = kFile ∧ Stored fs' i data

/-- A path `write_file` can create: NUL-free, no parent of it something else than a directory,
and either none missing or, for a file that is overwritten, a free slot for each. -/
def FitsFile (fs : Rpfs D) (name : List UInt8) : Prop :=
  NulFree name ∧ fs.dir.ClearParents name ∧ (fs.dir.missing name = ∅ ∨
    fs.find name ≠ none ∧ (fs.dir.missing name).card ≤ fs.dir.freeSlots.card)

/-- A path `mkdir` can create: NUL-free, no parent of it something else than a directory, and,
if some entry has it, that is a directory and there is a free slot for each missing parent. -/
def FitsDir (fs : Rpfs D) (name : List UInt8) : Prop :=
  NulFree name ∧ fs.dir.ClearParents name ∧ (fs.find name ≠ none →
    fs.dir.HasDir name ∧ (fs.dir.missing name).card ≤ fs.dir.freeSlots.card)

theorem Created.nulFree {fs fs' : Rpfs D} {name : List UInt8} {Wanted : Fin dirEntries → Prop}
    (made : Created fs fs' name Wanted) : NulFree name := by
  obtain ⟨i, -, named, -⟩ := made.there
  exact named ▸ Directory.nulFree_name _ i

section Steps

variable [BlockDev D] {fs fs' : Rpfs D} {name data : List UInt8}

/-- **Operations create regular files and directories only.** -/
theorem apply_kinded {op : Op} {ok : Bool} (wf : fs.WellFormed) (kinded : fs.dir.Kinded)
    (done : fs.apply op = some (ok, fs')) : fs'.dir.Kinded := by
  intro i active
  rcases apply_entry wf done active with same | isDir | ⟨_, _, -, -, -, isFile⟩
  · rw [same] at active ⊢
    exact kinded i active
  · exact Or.inr isDir
  · exact Or.inl isFile

/-- The directory after a write that returned true, with what became of the parents. -/
theorem writeFile_settled (wf : fs.WellFormed) (done : fs.writeFile name data = some (true, fs')) :
    ∃ (slot : Fin dirEntries) (start : Nat) (bitmap : List UInt8) (dir : Directory),
      name.length ≤ maxName ∧ Released fs name slot bitmap ∧ ParentsAdded name fs.dir dir ∧
        Settled name dir ∧
        fs'.dir = dir.setEntry slot name kFile 1 start data.length (blocksFor data.length) := by
  cases writeFile_steps done with
  | @stored slot fs₁ fs₂ fs₃ fs₄ _ start bitmap writable slotted room free taken loop parents
      flushed entry =>
      obtain ⟨released, first⟩ := slotted.spec rfl wf
      have second := writeData_spec
        ((shape_bitmap fs₁ taken.length_eq).trans first.shape_eq) loop
      obtain ⟨dir, added, third⟩ := ensureParents_spec second.shape_eq wf parents
      have settled := ensureParents_settled parents
      have fourth := flushBitmapRange_spec (shape_setEntry.trans third.shape_eq) wf flushed
      have same : fs₂.dir = fs.dir := second.dir_eq.trans first.dir_eq
      rw [third.dir_eq] at settled
      rw [same] at added
      refine ⟨slot, start, _, dir, writable.2.2.1, released, added, settled, ?_⟩
      rw [flushDirEntry_some entry, dir_devWrite, fourth.dir_eq, ← third.dir_eq]
      rfl

/-- An entry in use stays what it was when a write returns true. -/
theorem writeFile_kept (wf : fs.WellFormed) (kinded : fs.dir.Kinded) (nulFree : NulFree name)
    (done : fs.writeFile name data = some (true, fs')) {i : Fin dirEntries}
    (active : (fs.dir.entry i).Active) :
    (fs'.dir.entry i).Active ∧ (fs'.dir.entry i).name = (fs.dir.entry i).name ∧
      (fs'.dir.entry i).kind = (fs.dir.entry i).kind := by
  obtain ⟨slot, start, bitmap, dir, short, released, added, -, dirEq⟩ := writeFile_settled wf done
  rw [dirEq]
  by_cases here : i = slot
  · subst here
    rw [Directory.entry_setEntry_self]
    rcases released.slot_entry with ⟨-, isFile, named⟩ | ⟨-, -, unused⟩
    · refine ⟨rfl, (storedName_of_nulFree nulFree short).trans named.symm, ?_⟩
      exact ((kinded i active).resolve_right isFile.2).symm
    · exact absurd unused active.not_free
  · rw [Directory.entry_setEntry_of_ne _ here, added.entry_of_active active]
    exact ⟨active, rfl, rfl⟩

/-- **Which parents are there after a write that returned true.** -/
theorem writeFile_parents (wf : fs.WellFormed) (nulFree : NulFree name)
    (done : fs.writeFile name data = some (true, fs')) :
    (∀ p, ParentOf name p → fs'.dir.HasDir p) ↔
      fs.dir.ClearParents name ∧ (fs.dir.missing name = ∅ ∨
        fs.find name ≠ none ∧ (fs.dir.missing name).card ≤ fs.dir.freeSlots.card) := by
  obtain ⟨slot, start, bitmap, dir, short, released, added, settled, dirEq⟩ :=
    writeFile_settled wf done
  have others : ∀ i, i ≠ slot → fs'.dir.entry i = dir.entry i := fun i elsewhere => by
    rw [dirEq, Directory.entry_setEntry_of_ne _ elsewhere]
  have notDir : ¬(fs'.dir.entry slot).IsDir := fun isDir => by
    rw [dirEq, Directory.entry_setEntry_self] at isDir
    exact absurd isDir.2 (show ¬kFile = kDir by decide)
  rcases released.slot_entry with ⟨found, isFile, -⟩ | ⟨absent, free, unused⟩
  · -- the file keeps its slot, so no parent is put there
    have same : ∀ p, fs'.dir.HasDir p ↔ dir.HasDir p := fun p =>
      Directory.hasDir_set others (fun isDir => by
        rw [added.entry_of_active isFile.1] at isDir
        exact absurd isDir.2 isFile.2) fun isDir => absurd isDir notDir
    have present : fs.find name ≠ none := fun none => Option.some_ne_none slot (found.symm.trans none)
    simp only [same]
    rw [added.parents_iff settled nulFree short]
    refine and_congr_right fun _ => ⟨fun enough => Or.inr ⟨present, enough⟩, ?_⟩
    rintro (none | ⟨-, enough⟩)
    · rw [none, Finset.card_empty]
      exact Nat.zero_le _
    · exact enough
  · have absent' : ¬fs.find name ≠ none := fun present => present absent
    by_cases none : fs.dir.missing name = ∅
    · -- nothing is created, and the slot was free
      have flat := added.eq_of_present (Directory.missing_eq_empty.mp none)
      subst flat
      have same : ∀ p, fs'.dir.HasDir p ↔ fs.dir.HasDir p := fun p =>
        Directory.hasDir_set others (fun isDir => absurd unused isDir.1.not_free)
          fun isDir => absurd isDir notDir
      simp only [same]
      refine ⟨fun made => ⟨fun p parent => Or.inr (made p parent), Or.inl none⟩, ?_⟩
      rintro ⟨clear, -⟩ p parent
      exact (clear p parent).resolve_left (Directory.missing_eq_empty.mp none p parent)
    · constructor
      · intro made
        obtain ⟨p, parent, gone⟩ := added.lost settled nulFree short free none
        obtain ⟨i, isDir, named⟩ := made p parent
        have elsewhere : i ≠ slot := by
          rintro rfl
          exact notDir isDir
        rw [others i elsewhere] at isDir named
        exact absurd named (gone i elsewhere isDir.1)
      · rintro ⟨-, flat | ⟨present, -⟩⟩
        · exact absurd flat none
        · exact absurd absent present

/-- **What a `mkdir` that returned true made.** -/
theorem dirMade_iff (wf : fs.WellFormed) (done : fs.mkdir name = some (true, fs')) :
    DirMade fs fs' name ↔ fs.FitsDir name := by
  by_cases nulFree : NulFree name
  · cases mkdir_steps done with
    | there _ short parents found =>
        obtain ⟨dir, added, effect⟩ := ensureParents_spec rfl wf parents
        have settled := ensureParents_settled parents
        rw [effect.dir_eq] at settled
        -- the path is not among those created, so it was there before
        have same : ∀ {i}, (dir.entry i).name = name → dir.entry i = fs.dir.entry i :=
          fun {i} named => (added.name_ne nulFree short i).resolve_right fun other => other.1 named
        have present : fs.find name ≠ none := by
          obtain ⟨i, there⟩ := Option.ne_none_iff_exists'.mp found
          change fs'.dir.find name = some i at there
          rw [effect.dir_eq] at there
          have mine := (Directory.find_eq_some.mp there).1
          rw [same mine.2] at mine
          exact fun none => Directory.find_eq_none.mp none i mine
        have parentsIff := added.parents_iff settled nulFree short
        constructor
        · intro made
          obtain ⟨clear, enough⟩ := parentsIff.mp fun p parent =>
            effect.dir_eq ▸ made.parents p parent
          refine ⟨nulFree, clear, fun _ => ⟨?_, enough⟩⟩
          obtain ⟨i, active, named, isDir⟩ := made.there
          rw [effect.dir_eq] at active named isDir
          rw [same named] at active isDir
          exact ⟨i, ⟨active, isDir⟩, same named ▸ named⟩
        · rintro ⟨-, clear, fits⟩
          obtain ⟨⟨i, isDir, named⟩, enough⟩ := fits present
          have kept := added.entry_of_active isDir.1
          refine ⟨fun p parent => ?_, ⟨i, ?_⟩, fun j active => ?_⟩
          · rw [effect.dir_eq]
            exact parentsIff.mpr ⟨clear, enough⟩ p parent
          · rw [effect.dir_eq, kept]
            exact ⟨isDir.1, named, isDir.2⟩
          · rw [effect.dir_eq, added.entry_of_active active]
            exact ⟨active, rfl, rfl⟩
    | @made slot fs₁ _ _ short parents missing free put =>
        obtain ⟨dir, added, effect⟩ := ensureParents_spec rfl wf parents
        have settled := ensureParents_settled parents
        have dirEq := dir_putEntry put
        change fs₁.dir.find name = none at missing
        change fs₁.dir.freeSlot = some slot at free
        rw [effect.dir_eq] at settled dirEq missing free
        have unused := (Directory.freeSlot_eq_some.mp free).1
        have created : fs'.dir.entry slot = parentEntry name := by
          rw [dirEq, entry_setEntry_parent, if_pos rfl]
        have others : ∀ i, i ≠ slot → fs'.dir.entry i = dir.entry i := fun i elsewhere => by
          rw [dirEq, entry_setEntry_parent, if_neg elsewhere]
        have stored : storedName name = name := storedName_of_nulFree nulFree short
        have enough := (added.missing_eq_empty_iff settled nulFree short).mp
          (settled.missing_eq_empty nulFree short (free ▸ Option.some_ne_none slot))
        have absent : fs.find name = none := by
          refine Directory.find_eq_none.mpr fun i there => Directory.find_eq_none.mp missing i ?_
          rw [added.entry_of_active there.1]
          exact there
        have same : ∀ p, ParentOf name p → (fs'.dir.HasDir p ↔ dir.HasDir p) := fun p parent =>
          Directory.hasDir_set others (fun isDir => absurd unused isDir.1.not_free) fun _ here => by
            rw [created] at here
            have shorter := parent.below.length_lt
            rw [show p = name from here.symm.trans stored] at shorter
            exact Nat.lt_irrefl _ shorter
        have parentsIff := added.parents_iff settled nulFree short
        constructor
        · intro made
          have clear := (parentsIff.mp fun p parent => (same p parent).mp (made.parents p parent)).1
          exact ⟨nulFree, clear, fun present => absurd absent present⟩
        · rintro ⟨-, clear, -⟩
          refine ⟨fun p parent => (same p parent).mpr (parentsIff.mpr ⟨clear, enough⟩ p parent),
            ⟨slot, ?_⟩, fun i active => ?_⟩
          · rw [created]
            exact ⟨rfl, stored, rfl⟩
          · have kept := added.entry_of_active active
            have elsewhere : i ≠ slot := by
              rintro rfl
              rw [kept] at unused
              exact active.not_free unused
            rw [others i elsewhere, kept]
            exact ⟨active, rfl, rfl⟩
  · exact ⟨fun made => absurd made.nulFree nulFree, fun fits => absurd fits.1 nulFree⟩

end Steps

section Files

variable [LawfulBlockDev D] {fs fs' : Rpfs D} {name data : List UInt8}

/-- A write that returned true left a regular file with its data under its path. -/
theorem writeFile_there (wf : fs.WellFormed) (small : fs.totalBlocks < 2 ^ 32)
    (nulFree : NulFree name) (done : fs.writeFile name data = some (true, fs')) :
    ∃ i, (fs'.dir.entry i).Active ∧ (fs'.dir.entry i).name = name ∧
      (fs'.dir.entry i).kind = kFile ∧ Stored fs' i data := by
  cases writeFile_outcome wf done with
  | @stored slot _ _ _ start _ _ dir writable _ room _ _ before loop _ after effect =>
      have stored := stored_of_loop small writable.2.2.2 room before loop after
      refine ⟨slot, stored.isFile.1, ?_, ?_, stored⟩
      · rw [effect.dir_eq, Directory.entry_setEntry_self]
        exact storedName_of_nulFree nulFree writable.2.2.1
      · rw [effect.dir_eq, Directory.entry_setEntry_self]

/-- **What a `write_file` that returned true made.** -/
theorem fileMade_iff (wf : fs.WellFormed) (small : fs.totalBlocks < 2 ^ 32)
    (kinded : fs.dir.Kinded) (done : fs.writeFile name data = some (true, fs')) :
    FileMade fs fs' name data ↔ fs.FitsFile name := by
  constructor
  · intro made
    have nulFree := made.nulFree
    exact ⟨nulFree, (writeFile_parents wf nulFree done).mp made.parents⟩
  · rintro ⟨nulFree, fits⟩
    exact ⟨(writeFile_parents wf nulFree done).mpr fits, writeFile_there wf small nulFree done,
      fun i => writeFile_kept wf kinded nulFree done⟩

/-- **When creating calls do what they should.** In every state a formatted volume reaches, a
`write_file` or `mkdir` that returned true has created its path if and only if the path fitted
before the call. -/
theorem created_of_run {fs₀ fs : Rpfs D} {history : List (Op × Bool)} (formatted : Formatted fs₀)
    (run : RunFrom Any fs₀ history fs) :
    (∀ name data fs', fs.writeFile name data = some (true, fs') →
      (FileMade fs fs' name data ↔ fs.FitsFile name)) ∧
    ∀ name fs', fs.mkdir name = some (true, fs') → (DirMade fs fs' name ↔ fs.FitsDir name) := by
  have fresh := formatted.fresh
  have bounded := run_bounded fresh.wf run
  have wf : fs.WellFormed := show Shape.WellFormed _ from bounded.shape_eq.symm ▸ fresh.wf
  have total : fs.totalBlocks = fs₀.totalBlocks := congrArg Shape.totalBlocks bounded.shape_eq
  have kinded : fs.dir.Kinded := by
    refine (run.invariant (P := fun fs => fs.WellFormed ∧ fs.dir.Kinded)
      ⟨fresh.wf, fun i active => absurd active (fresh.inactive i)⟩ ?_).2
    rintro fs op ok fs' ⟨wf, kinded⟩ - done
    exact ⟨show Shape.WellFormed _ from (apply_bounded wf done).shape_eq.symm ▸ wf,
      apply_kinded wf kinded done⟩
  exact ⟨fun name data fs' => fileMade_iff wf (total ▸ fresh.totalBlocks_lt) kinded,
    fun name fs' => dirMade_iff wf⟩

end Files

/-- The theorem at the first write to a small volume. -/
theorem created_of_run_small : ∃ fs₀ fs : Rpfs (Recorder ScriptedDisk),
    formatVolume ⟨ScriptedDisk.blank fun _ => true, []⟩ 0 1 1 = some fs₀ ∧
      fs₀.writeFile [97] [1] = some (true, fs) ∧ FileMade fs₀ fs [97] [1] := by
  obtain ⟨fs₀, laid, formatted, roomy, total, issued⟩ :=
    exists_formatted (⟨ScriptedDisk.blank fun _ => true, []⟩ : Recorder ScriptedDisk) 1 (by decide)
  obtain ⟨fs, done, -⟩ := formatted.fresh.stores [97] [1] roomy
    (ScriptedDisk.since_script issued).1 (by decide) (by decide) (by decide) (by rw [total]; decide)
  have flat : ∀ p, ¬ParentOf [97] p := fun p parent => by
    obtain ⟨idx, positive, separator, -⟩ := parent
    obtain ⟨inside, -⟩ := List.getElem?_eq_some_iff.mp separator
    exact absurd inside (by simp only [List.length_singleton]; omega)
  have fits : fs₀.FitsFile [97] := by
    refine ⟨by simp [NulFree], fun p parent => absurd parent (flat p), Or.inl ?_⟩
    exact Directory.missing_eq_empty.mpr fun p parent => absurd parent (flat p)
  have run : RunFrom Any fs₀ [] fs₀ := Run.start
  exact ⟨fs₀, fs, laid, done, ((created_of_run formatted run).1 [97] [1] fs done).mpr fits⟩

/-- **The parent of a new file is lost.** On an empty volume `write_file("a/b", …)` returns true,
and afterwards there is no directory `a`. -/
theorem new_file_loses_parent : ∃ fs₀ fs : Rpfs (Recorder ScriptedDisk),
    formatVolume ⟨ScriptedDisk.blank fun _ => true, []⟩ 0 1 1 = some fs₀ ∧
      fs₀.writeFile [97, 47, 98] [1] = some (true, fs) ∧ ParentOf [97, 47, 98] [97] ∧
        ¬fs.dir.HasDir [97] ∧ ¬FileMade fs₀ fs [97, 47, 98] [1] := by
  obtain ⟨fs₀, laid, formatted, roomy, total, issued⟩ :=
    exists_formatted (⟨ScriptedDisk.blank fun _ => true, []⟩ : Recorder ScriptedDisk) 1 (by decide)
  have fresh := formatted.fresh
  obtain ⟨fs, done, -⟩ := fresh.stores [97, 47, 98] [1] roomy
    (ScriptedDisk.since_script issued).1 (by decide) (by decide) (by decide) (by rw [total]; decide)
  have parent : ParentOf [97, 47, 98] [97] := ⟨1, Nat.one_pos, rfl, rfl⟩
  have lost : ¬fs.dir.HasDir [97] := by
    intro there
    have only : ∀ p, ParentOf [97, 47, 98] p → fs.dir.HasDir p := by
      rintro p ⟨idx, positive, separator, rfl⟩
      obtain ⟨inside, -⟩ := List.getElem?_eq_some_iff.mp separator
      match idx, positive, inside, separator with
      | 1, _, _, _ => exact there
      | 2, _, _, impossible => exact absurd impossible (by decide)
    have nulFree : NulFree [97, 47, 98] := by simp [NulFree]
    rcases (writeFile_parents fresh.wf nulFree done).mp only with ⟨-, none | ⟨present, -⟩⟩
    · exact Directory.missing_eq_empty.mp none [97] parent (fresh.find_eq_none [97])
    · exact present (fresh.find_eq_none [97, 47, 98])
  exact ⟨fs₀, fs, laid, done, parent, lost, fun made => lost (made.parents [97] parent)⟩

end Calls

end RustyPenguin.Rpfs
