import RustyPenguin.Rpfs.Volume

/-!
# What the operations change

Every operation leaves the geometry alone (`Shape`), issues writes in a known area of
the disk only, and changes the bitmap and the directory in a way stated once here.
The statements are inversions: from a call that returned, what the state after it is.

* The flushes change the device only (`flushDirEntry_some`, `flushBitmapRange_spec`).
* `ensureParents_induct` is the rule for `ensure_parents`: what holds before it and is
  kept by creating one missing parent in a free slot holds after it.
* `writeData_spec` says what the data loop does to the device.
* `WriteSteps`, `DeleteSteps` and `MkdirSteps` list the ways `write_file`,
  `delete_file` and `mkdir` can go, with the intermediate states.
-/

set_option autoImplicit false

namespace RustyPenguin.Rpfs

open Buffer

/-! ## The shape of a volume -/

/-- What no operation changes: the geometry, the vector lengths and readiness. -/
structure Shape where
  base : Nat
  totalBlocks : Nat
  bitmapLba : Nat
  bitmapSectors : Nat
  dirLba : Nat
  dataLba : Nat
  bitmapLength : Nat
  scratchLength : Nat
  ready : Bool

namespace Shape

/-- The areas follow one another, and the vectors have the sizes they were allocated with. -/
structure WellFormed (sh : Shape) : Prop where
  bitmapLba_eq : sh.bitmapLba = sh.base + 1
  dirLba_eq : sh.dirLba = sh.bitmapLba + sh.bitmapSectors
  dataLba_eq : sh.dataLba = sh.dirLba + dirSectors
  bitmapLength_eq : sh.bitmapLength = sh.bitmapSectors * sector
  scratchLength_eq : sh.scratchLength = scratchSectors * sector

/-- Transfers inside the bitmap. -/
def BitmapArea (sh : Shape) (lba count : Nat) : Prop := sh.bitmapLba ≤ lba ∧ lba + count ≤ sh.dirLba

/-- Transfers inside the directory. -/
def DirArea (sh : Shape) (lba count : Nat) : Prop := sh.dirLba ≤ lba ∧ lba + count ≤ sh.dataLba

/-- Transfers inside the bitmap or the directory. -/
def MetaArea (sh : Shape) (lba count : Nat) : Prop := sh.bitmapLba ≤ lba ∧ lba + count ≤ sh.dataLba

/-- Transfers inside data blocks `start` to `start + n`. -/
def DataArea (sh : Shape) (start n lba count : Nat) : Prop :=
  sh.dataLba + start ≤ lba ∧ lba + count ≤ sh.dataLba + start + n

/-- Transfers inside the metadata or inside data blocks `start` to `start + n`. -/
def FileArea (sh : Shape) (start n lba count : Nat) : Prop :=
  sh.MetaArea lba count ∨ sh.DataArea start n lba count

theorem WellFormed.meta_of_bitmap {sh : Shape} (wf : sh.WellFormed) (lba count : Nat)
    (within : sh.BitmapArea lba count) : sh.MetaArea lba count := by
  have := wf.dataLba_eq
  exact ⟨within.1, by have := within.2; omega⟩

theorem WellFormed.meta_of_dir {sh : Shape} (wf : sh.WellFormed) (lba count : Nat)
    (within : sh.DirArea lba count) : sh.MetaArea lba count := by
  have := wf.dirLba_eq
  exact ⟨by have := within.1; omega, within.2⟩

end Shape

section Effects

variable {D : Type}

def shape (fs : Rpfs D) : Shape where
  base := fs.base
  totalBlocks := fs.totalBlocks
  bitmapLba := fs.bitmapLba
  bitmapSectors := fs.bitmapSectors
  dirLba := fs.dirLba
  dataLba := fs.dataLba
  bitmapLength := fs.bitmap.length
  scratchLength := fs.scratch.length
  ready := fs.ready

/-- The volume has the layout it was mounted with. -/
abbrev WellFormed (fs : Rpfs D) : Prop := fs.shape.WellFormed

/-- Replacing the bitmap by one of the same length. -/
theorem shape_bitmap (fs : Rpfs D) {bitmap : List UInt8}
    (size : bitmap.length = fs.bitmap.length) :
    ({ fs with bitmap } : Rpfs D).shape = fs.shape := by
  rw [shape, shape]
  dsimp only
  rw [size]

/-- Setting an entry. -/
theorem shape_setEntry {fs : Rpfs D} {i : Fin dirEntries} {name : List UInt8} {kind : UInt8}
    {trit : Int8} {start size nblocks : Nat} :
    (fs.setEntry i name kind trit start size nblocks).shape = fs.shape := rfl

/-- Replacing the directory. -/
theorem shape_dir {fs : Rpfs D} {dir : Directory} : ({ fs with dir } : Rpfs D).shape = fs.shape :=
  rfl

variable [BlockDev D]

/-- From `fs`, the volume becomes `fs'`: its directory and bitmap are as said, its shape is the
given one, and the requests made on the way write in `R` only. -/
structure Becomes (sh : Shape) (R : Nat → Nat → Prop) (fs fs' : Rpfs D) (dir : Directory)
    (bitmap : List UInt8) : Prop where
  shape_eq : fs'.shape = sh
  dir_eq : fs'.dir = dir
  bitmap_eq : fs'.bitmap = bitmap
  issued : Issues R fs.dev fs'.dev

theorem Becomes.refl {fs : Rpfs D} {sh : Shape} {R : Nat → Nat → Prop} (same : fs.shape = sh) :
    Becomes sh R fs fs fs.dir fs.bitmap := ⟨same, rfl, rfl, Issues.refl _⟩

theorem Becomes.mono {fs fs' : Rpfs D} {sh : Shape} {R R' : Nat → Nat → Prop} {dir : Directory}
    {bitmap : List UInt8} (effect : Becomes sh R fs fs' dir bitmap)
    (wider : ∀ lba count, R lba count → R' lba count) : Becomes sh R' fs fs' dir bitmap :=
  ⟨effect.shape_eq, effect.dir_eq, effect.bitmap_eq, effect.issued.mono wider⟩

theorem Becomes.trans {fs fs' fs'' : Rpfs D} {sh : Shape} {R : Nat → Nat → Prop}
    {dir dir' : Directory} {bitmap bitmap' : List UInt8} (first : Becomes sh R fs fs' dir bitmap)
    (second : Becomes sh R fs' fs'' dir' bitmap') : Becomes sh R fs fs'' dir' bitmap' :=
  ⟨second.shape_eq, second.dir_eq, second.bitmap_eq, first.issued.trans second.issued⟩

/-- A step that changes neither the directory nor the bitmap. -/
theorem Becomes.keeps {fs fs' fs'' : Rpfs D} {sh : Shape} {R : Nat → Nat → Prop}
    {dir : Directory} {bitmap : List UInt8} (first : Becomes sh R fs fs' dir bitmap)
    (second : Becomes sh R fs' fs'' fs'.dir fs'.bitmap) : Becomes sh R fs fs'' dir bitmap :=
  ⟨second.shape_eq, second.dir_eq.trans first.dir_eq, second.bitmap_eq.trans first.bitmap_eq,
    first.issued.trans second.issued⟩

/-! ## The flushes -/

@[simp] theorem shape_devWrite (fs : Rpfs D) (lba count : Nat) (buf : List UInt8) :
    (fs.devWrite lba count buf).2.shape = fs.shape := rfl

@[simp] theorem dir_devWrite (fs : Rpfs D) (lba count : Nat) (buf : List UInt8) :
    (fs.devWrite lba count buf).2.dir = fs.dir := rfl

@[simp] theorem bitmap_devWrite (fs : Rpfs D) (lba count : Nat) (buf : List UInt8) :
    (fs.devWrite lba count buf).2.bitmap = fs.bitmap := rfl

@[simp] theorem dev_devWrite (fs : Rpfs D) (lba count : Nat) (buf : List UInt8) :
    (fs.devWrite lba count buf).2.dev = (BlockDev.write fs.dev lba count buf).2 := rfl

/-- The directory sector that holds slot `i`. -/
def dirSector (i : Fin dirEntries) : Nat := i * entrySz / sector

theorem dirSector_lt (i : Fin dirEntries) : dirSector i < dirSectors := by
  have inside := i.isLt
  simp only [dirSector, dirSectors, dirEntries, entrySz, sector] at inside ⊢
  omega

theorem dirSector_fits (dir : Directory) {k : Nat} (inside : k < dirSectors) :
    k * sector + sector ≤ dir.bytes.length := by
  rw [dir.length_eq]
  simp only [dirSectors, dirEntries, entrySz, sector] at inside ⊢
  omega

/-- Flushing an entry is one write of the sector that holds it. -/
theorem flushDirEntry_some {fs fs' : Rpfs D} {i : Fin dirEntries}
    (done : fs.flushDirEntry i = some fs') :
    fs' = (fs.devWrite (fs.dirLba + dirSector i) 1
      (slice fs.dir.bytes (dirSector i * sector) sector)).2 := by
  simp only [flushDirEntry, Option.bind_eq_bind, Option.bind_eq_some_iff] at done
  obtain ⟨buf, read, lba, sum, result⟩ := done
  obtain ⟨-, rfl⟩ := slice?_eq_some.mp read
  obtain ⟨-, rfl⟩ := addU64_eq_some.mp sum
  exact (Option.some.inj result).symm

section Flush

variable {fs fs' : Rpfs D} {sh : Shape}

theorem flushDirEntry_spec {i : Fin dirEntries} (same : fs.shape = sh) (wf : sh.WellFormed)
    (done : fs.flushDirEntry i = some fs') :
    Becomes sh sh.DirArea fs fs' fs.dir fs.bitmap := by
  subst same
  have result := flushDirEntry_some done
  subst result
  refine ⟨rfl, rfl, rfl, Issues.of_write ?_ ⟨Nat.le_add_right _ _, ?_⟩⟩
  · rw [length_slice (dirSector_fits fs.dir (dirSector_lt i)), Nat.one_mul]
  · have size := wf.dataLba_eq
    have inside := dirSector_lt i
    change fs.dataLba = fs.dirLba + dirSectors at size
    change fs.dirLba + dirSector i + 1 ≤ fs.dataLba
    omega

theorem putEntry_spec {i : Fin dirEntries} {name : List UInt8} {kind : UInt8} {trit : Int8}
    {start size nblocks : Nat} (same : fs.shape = sh) (wf : sh.WellFormed)
    (done : fs.putEntry i name kind trit start size nblocks = some fs') :
    Becomes sh sh.DirArea fs fs' (fs.dir.setEntry i name kind trit start size nblocks)
      fs.bitmap := by
  have effect := flushDirEntry_spec (shape_setEntry.trans same) wf done
  exact ⟨effect.shape_eq, effect.dir_eq, effect.bitmap_eq, effect.issued⟩

/-- A sector that fits in `n` sectors is one of them. -/
theorem lt_of_sector_fits {s n : Nat} (fits : s * sector + sector ≤ n * sector) : s < n := by
  simp only [sector] at fits
  omega

theorem sector_fits_of_lt {s n : Nat} (inside : s < n) : s * sector + sector ≤ n * sector := by
  simp only [sector]
  omega

theorem flushBitmapLoop_spec (wf : sh.WellFormed) :
    ∀ {left s : Nat} {fs fs' : Rpfs D}, fs.shape = sh → fs.flushBitmapLoop left s = some fs' →
      Becomes sh sh.BitmapArea fs fs' fs.dir fs.bitmap
  | 0, _, fs, _, same, done => by
      cases done
      exact Becomes.refl same
  | left + 1, s, fs, fs', same, done => by
      rw [flushBitmapLoop] at done
      split at done
      · cases done
        exact Becomes.refl same
      · simp only [Option.bind_eq_bind, Option.bind_eq_some_iff] at done
        obtain ⟨buf, read, lba, sum, rest⟩ := done
        obtain ⟨fits, rfl⟩ := slice?_eq_some.mp read
        obtain ⟨-, rfl⟩ := addU64_eq_some.mp sum
        have tail := flushBitmapLoop_spec wf ((shape_devWrite _ _ _ _).trans same) rest
        have size : fs.bitmap.length = fs.bitmapSectors * sector := by
          have := wf.bitmapLength_eq
          rwa [← same] at this
        have next : fs.dirLba = fs.bitmapLba + fs.bitmapSectors := by
          have := wf.dirLba_eq
          rwa [← same] at this
        have below := lt_of_sector_fits (size ▸ fits)
        refine ⟨tail.shape_eq, tail.dir_eq, tail.bitmap_eq,
          Issues.trans (Issues.of_write (by rw [length_slice fits, Nat.one_mul]) ?_) tail.issued⟩
        rw [← same]
        exact ⟨Nat.le_add_right _ _, show fs.bitmapLba + s + 1 ≤ fs.dirLba by omega⟩

theorem flushBitmapRange_spec {start n : Nat} (same : fs.shape = sh) (wf : sh.WellFormed)
    (done : fs.flushBitmapRange start n = some fs') :
    Becomes sh sh.BitmapArea fs fs' fs.dir fs.bitmap := by
  simp only [flushBitmapRange, Option.bind_eq_bind, Option.bind_eq_some_iff] at done
  obtain ⟨_, _, loop⟩ := done
  exact flushBitmapLoop_spec wf same loop

end Flush

/-! ## Parents -/

/-- `p` is a proper parent path of `name`: the part before one of its separators, which is not
the leading one. -/
def ParentOf (name p : List UInt8) : Prop :=
  ∃ idx, 0 < idx ∧ name[idx]? = some slash ∧ p = name.take idx

/-- Creating the missing parent `p` in a free slot and flushing it. -/
def AddsParent (name : List UInt8) (fs fs' : Rpfs D) : Prop :=
  ∃ p slot, ParentOf name p ∧ fs.find p = none ∧ fs.freeSlot = some slot ∧
    fs.putEntry slot p kDir 1 0 0 0 = some fs'

theorem ensureParent_some {fs fs' : Rpfs D} {p : List UInt8} (done : fs.ensureParent p = some fs') :
    (fs' = fs ∧ (fs.find p ≠ none ∨ fs.freeSlot = none)) ∨
      (fs.find p = none ∧ ∃ slot, fs.freeSlot = some slot ∧
        fs.putEntry slot p kDir 1 0 0 0 = some fs') := by
  rw [ensureParent] at done
  cases found : fs.find p with
  | some i =>
      simp only [found, Option.some.injEq] at done
      exact Or.inl ⟨done.symm, Or.inl (Option.some_ne_none i)⟩
  | none =>
      cases free : fs.freeSlot with
      | some slot =>
          simp only [found, free] at done
          exact Or.inr ⟨rfl, slot, rfl, done⟩
      | none =>
          simp only [found, free, Option.some.injEq] at done
          exact Or.inl ⟨done.symm, Or.inr rfl⟩

/-- The rule for the scan of `ensure_parents`: `P` moves from position to position, past bytes
that end no parent path and through the one call where one ends. -/
theorem ensureParents_scan {name : List UInt8} {P : Nat → Rpfs D → Prop}
    (pass : ∀ idx fs, ¬(name[idx]? = some slash ∧ 0 < idx) → P idx fs → P (idx + 1) fs)
    (cut : ∀ idx fs fs', name[idx]? = some slash → 0 < idx → P idx fs →
      fs.ensureParent (name.take idx) = some fs' → P (idx + 1) fs') {fs fs' : Rpfs D}
    (holds : P 0 fs) (done : fs.ensureParents name = some fs') : P name.length fs' := by
  have scan : ∀ (rest : List UInt8) (idx : Nat) (fs : Rpfs D), name.drop idx = rest →
      idx + rest.length = name.length → P idx fs →
        ensureParentsFrom name fs idx rest = some fs' → P name.length fs' := by
    intro rest
    induction rest with
    | nil =>
        intro idx fs _ whole holds done
        cases done
        rw [← whole]
        exact holds
    | cons c rest ih =>
        intro idx fs tail whole holds done
        have next : name.drop (idx + 1) = rest := by
          rw [← List.drop_drop, tail, List.drop_one, List.tail_cons]
        have at' : name[idx]? = some c := by
          have head := congrArg (fun l => l[0]?) tail
          simpa using head
        rw [List.length_cons] at whole
        rw [ensureParentsFrom] at done
        split at done
        · rename_i separator
          obtain ⟨mid, one, rest⟩ := Option.bind_eq_some_iff.mp done
          refine ih (idx + 1) mid next (by omega) ?_ rest
          exact cut idx fs mid (separator.1 ▸ at') separator.2 holds one
        · rename_i other
          refine ih (idx + 1) fs next (by omega) (pass idx fs (fun both => other ?_) holds) done
          exact ⟨Option.some.inj (at'.symm.trans both.1), both.2⟩
  exact scan name 0 fs rfl (Nat.zero_add _) holds done

/-- **The rule for `ensure_parents`.** What creating one missing parent keeps, it keeps. -/
theorem ensureParents_induct {name : List UInt8} {P : Rpfs D → Prop}
    (step : ∀ fs fs', P fs → AddsParent name fs fs' → P fs') {fs fs' : Rpfs D} (holds : P fs)
    (done : fs.ensureParents name = some fs') : P fs' := by
  refine ensureParents_scan (P := fun _ => P) (fun _ _ _ holds => holds) ?_ holds done
  intro idx fs fs' separator positive holds one
  rcases ensureParent_some one with ⟨same, -⟩ | ⟨missing, slot, free, put⟩
  · exact same ▸ holds
  · exact step fs fs' holds
      ⟨name.take idx, slot, ⟨idx, positive, separator, rfl⟩, missing, free, put⟩

/-- Putting an entry changes the directory as `set_entry` does. -/
theorem dir_putEntry {fs fs' : Rpfs D} {i : Fin dirEntries} {name : List UInt8} {kind : UInt8}
    {trit : Int8} {start size nblocks : Nat}
    (done : fs.putEntry i name kind trit start size nblocks = some fs') :
    fs'.dir = fs.dir.setEntry i name kind trit start size nblocks := by
  rw [flushDirEntry_some done]
  rfl

/-- One missing parent of `name` created in the first free slot, seen in the directory. -/
def ParentAdded (name : List UInt8) (dir dir' : Directory) : Prop :=
  ∃ p slot, ParentOf name p ∧ dir.find p = none ∧ dir.freeSlot = some slot ∧
    dir' = dir.setEntry slot p kDir 1 0 0 0

/-- Missing parents of `name` created one after the other. -/
def ParentsAdded (name : List UInt8) : Directory → Directory → Prop :=
  Relation.ReflTransGen (ParentAdded name)

/-- The entry of a created parent. -/
def parentEntry (p : List UInt8) : Entry := ⟨storedName p, kDir, 1, 0, 0, 0⟩

theorem entry_setEntry_parent (dir : Directory) (i j : Fin dirEntries) (p : List UInt8) :
    (dir.setEntry i p kDir 1 0 0 0).entry j = if j = i then parentEntry p else dir.entry j :=
  Directory.entry_setEntry dir i j p kDir 1 0 0 0

/-- **What creating parents does to a slot**: nothing, or a free slot gets a missing parent. -/
theorem ParentsAdded.entry {name : List UInt8} {dir dir' : Directory}
    (added : ParentsAdded name dir dir') (i : Fin dirEntries) :
    dir'.entry i = dir.entry i ∨
      ((dir.entry i).trit ≤ 0 ∧
        ∃ p, ParentOf name p ∧ dir.find p = none ∧ dir'.entry i = parentEntry p) := by
  induction added generalizing i with
  | refl => exact Or.inl rfl
  | @tail dir₁ dir₂ _ last ih =>
      obtain ⟨p, slot, parent, missing, free, rfl⟩ := last
      have unused := (Directory.freeSlot_eq_some.mp free).1
      rw [entry_setEntry_parent]
      by_cases here : i = slot
      · subst here
        rw [if_pos rfl]
        rcases ih i with same | ⟨-, q, -, -, taken⟩
        · refine Or.inr ⟨same ▸ unused, p, parent, Directory.find_eq_none.mpr fun j there => ?_, rfl⟩
          -- an entry that was active is still there
          rcases ih j with kept | ⟨unused', -⟩
          · exact Directory.find_eq_none.mp missing j (kept ▸ there)
          · exact there.1.not_free unused'
        · rw [taken] at unused
          exact absurd (show (1 : Int8) ≤ 0 from unused) (by decide)
      · rw [if_neg here]
        exact ih i

/-- An entry in use stays as it is when parents are created. -/
theorem ParentsAdded.entry_of_active {name : List UInt8} {dir dir' : Directory}
    (added : ParentsAdded name dir dir') {i : Fin dirEntries} (active : (dir.entry i).Active) :
    dir'.entry i = dir.entry i := by
  rcases added.entry i with same | ⟨unused, -⟩
  · exact same
  · exact absurd unused active.not_free

theorem ensureParents_spec {name : List UInt8} {fs fs' : Rpfs D} {sh : Shape}
    (same : fs.shape = sh) (wf : sh.WellFormed) (done : fs.ensureParents name = some fs') :
    ∃ dir, ParentsAdded name fs.dir dir ∧ Becomes sh sh.DirArea fs fs' dir fs.bitmap := by
  refine ensureParents_induct
    (P := fun mid => ∃ dir, ParentsAdded name fs.dir dir ∧
      Becomes sh sh.DirArea fs mid dir fs.bitmap) ?_
    ⟨fs.dir, Relation.ReflTransGen.refl, Becomes.refl same⟩ done
  rintro mid mid' ⟨dir, added, effect⟩ ⟨p, slot, parent, missing, free, put⟩
  have step := putEntry_spec effect.shape_eq wf put
  rw [effect.dir_eq, effect.bitmap_eq] at step
  change mid.dir.find p = none at missing
  change mid.dir.freeSlot = some slot at free
  rw [effect.dir_eq] at missing free
  exact ⟨_, added.tail ⟨p, slot, parent, missing, free, rfl⟩, effect.trans step⟩

/-! ## The data loop -/

/-- The bytes a file's blocks hold: its data, zero-padded to whole sectors. -/
def padded (data : List UInt8) (n : Nat) : List UInt8 :=
  data ++ List.replicate (n * sector - data.length) 0

/-- The bytes of one chunk: the data from `written` on, zero-padded to `cbytes`. -/
def chunk (data : List UInt8) (written cbytes : Nat) : List UInt8 :=
  slice data written (min (data.length - written) cbytes) ++
    List.replicate (cbytes - min (data.length - written) cbytes) 0

theorem length_copied (data : List UInt8) (written cbytes : Nat) :
    (slice data written (min (data.length - written) cbytes)).length =
      min (data.length - written) cbytes := by
  simp only [slice, List.length_take, List.length_drop]
  omega

theorem length_chunk (data : List UInt8) (written cbytes : Nat) :
    (chunk data written cbytes).length = cbytes := by
  rw [chunk, List.length_append, length_copied, List.length_replicate]
  omega

/-- A chunk of the data is that window of the padded data. -/
theorem chunk_eq_slice {data : List UInt8} {n written cbytes : Nat}
    (fits : written + cbytes ≤ n * sector) :
    chunk data (min written data.length) cbytes = slice (padded data n) written cbytes := by
  apply List.ext_getElem?
  intro k
  rw [getElem?_slice, padded, chunk]
  have copied := length_copied data (min written data.length) cbytes
  by_cases inside : k < cbytes
  · rw [if_pos inside]
    by_cases live : written + k < data.length
    · rw [List.getElem?_append_left (by omega), getElem?_slice, if_pos (by omega),
        List.getElem?_append_left live]
      congr 1
      omega
    · rw [List.getElem?_append_right (by omega), List.getElem?_append_right (by omega),
        List.getElem?_replicate_of_lt (by omega), List.getElem?_replicate_of_lt (by omega)]
  · rw [if_neg inside, List.getElem?_eq_none]
    rw [List.length_append, copied, List.length_replicate]
    omega

/-- Staging a chunk in the scratch buffer: copy, then zero the tail. -/
theorem slice_staged {scratch data first second : List UInt8} {written cbytes : Nat}
    (copied : blit? scratch 0 (slice data written (min (data.length - written) cbytes)) =
      some first)
    (cleared : blit? first (min (data.length - written) cbytes)
      (List.replicate (cbytes - min (data.length - written) cbytes) 0) = some second) :
    second.length = scratch.length ∧ slice second 0 cbytes = chunk data written cbytes := by
  obtain ⟨fits, rfl⟩ := blit?_eq_some.mp copied
  obtain ⟨fits', rfl⟩ := blit?_eq_some.mp cleared
  refine ⟨by rw [length_blit fits', length_blit fits], ?_⟩
  have staged := slice_blit_blit_zero scratch
    (slice data written (min (data.length - written) cbytes))
    (List.replicate (cbytes - min (data.length - written) cbytes) 0)
  have whole : min (data.length - written) cbytes +
      (cbytes - min (data.length - written) cbytes) = cbytes := by omega
  rw [length_copied, List.length_replicate, whole] at staged
  exact staged

/-- One round of the data loop. -/
theorem writeData_step {data : List UInt8} {start nblocks : Nat} {fs fs' : Rpfs D}
    {blk written : Nat} {ok : Bool}
    (done : writeData data start nblocks fs blk written = some (ok, fs')) :
    (nblocks ≤ blk ∧ ok = true ∧ fs' = fs) ∨
      (blk < nblocks ∧ fs.dataLba + (start + blk) < 2 ^ 64 ∧
        ∃ scratch : List UInt8, scratch.length = fs.scratch.length ∧
        ∃ answer, answer = devWrite { fs with scratch } (fs.dataLba + (start + blk))
            (min (nblocks - blk) scratchSectors)
            (chunk data written (min (nblocks - blk) scratchSectors * sector)) ∧
          ((answer.1 = false ∧ ok = false ∧ fs' = answer.2) ∨
            (answer.1 = true ∧
              writeData data start nblocks answer.2 (blk + min (nblocks - blk) scratchSectors)
                (written + min (data.length - written)
                  (min (nblocks - blk) scratchSectors * sector)) = some (ok, fs')))) := by
  rw [writeData] at done
  split at done
  · rename_i more
    simp only [Option.bind_eq_some_iff] at done
    obtain ⟨first, copied, second, cleared, block, sum, lba, place, buf, read, rest⟩ := done
    obtain ⟨-, rfl⟩ := addU32_eq_some.mp sum
    obtain ⟨small, rfl⟩ := addU64_eq_some.mp place
    obtain ⟨size, staged⟩ := slice_staged copied cleared
    obtain ⟨-, rfl⟩ := slice?_eq_some.mp read
    rw [staged] at rest
    refine Or.inr ⟨more, small, second, size, _, rfl, ?_⟩
    split at rest
    · rename_i honoured
      exact Or.inr ⟨honoured, rest⟩
    · rename_i refused
      cases rest
      exact Or.inl ⟨Bool.eq_false_iff.mpr refused, rfl, rfl⟩
  · rename_i finished
    cases done
    exact Or.inl ⟨by omega, rfl, rfl⟩

/-- The data loop writes only the blocks still to be written. -/
theorem writeData_spec {data : List UInt8} {start nblocks : Nat} {sh : Shape} :
    ∀ {fs fs' : Rpfs D} {blk written : Nat} {ok : Bool}, fs.shape = sh →
      writeData data start nblocks fs blk written = some (ok, fs') →
        Becomes sh (sh.DataArea (start + blk) (nblocks - blk)) fs fs' fs.dir fs.bitmap := by
  intro fs fs' blk written ok same done
  induction left : nblocks - blk using Nat.strongRecOn generalizing fs blk written with
  | ind left ih =>
      subst left
      rcases writeData_step done with ⟨-, -, rfl⟩ | ⟨more, -, scratch, size, answer, asked, rest⟩
      · exact Becomes.refl same
      · subst same
        have place : fs.shape.dataLba = fs.dataLba := rfl
        have first : Becomes fs.shape (fs.shape.DataArea (start + blk) (nblocks - blk)) fs answer.2
            fs.dir fs.bitmap := by
          rw [asked]
          refine ⟨?_, rfl, rfl, Issues.of_write (length_chunk _ _ _) ⟨Nat.le_refl _, ?_⟩⟩
          · rw [shape_devWrite, shape, shape]
            dsimp only
            rw [size]
          · rw [place]
            omega
        rcases rest with ⟨-, -, rfl⟩ | ⟨-, again⟩
        · exact first
        · have tail := ih _ (by simp only [scratchSectors]; omega) first.shape_eq again rfl
          rw [first.dir_eq, first.bitmap_eq] at tail
          refine first.trans (tail.mono ?_)
          rintro lba count ⟨low, high⟩
          exact ⟨by omega, by omega⟩

/-- **The data loop stores the file.** If no chunk was refused, the file's blocks hold its
bytes, zero-padded. -/
theorem writeData_stores {D : Type} [LawfulBlockDev D] {data : List UInt8} {start nblocks : Nat} :
    ∀ {fs fs' : Rpfs D} {blk : Nat}, blk ≤ nblocks →
      writeData data start nblocks fs blk (min (blk * sector) data.length) = some (true, fs') →
        extent (LawfulBlockDev.content fs'.dev) (fs.dataLba + (start + blk)) (nblocks - blk) =
          slice (padded data nblocks) (blk * sector) ((nblocks - blk) * sector) := by
  intro fs fs' blk below done
  induction left : nblocks - blk using Nat.strongRecOn generalizing fs blk with
  | ind left ih =>
      subst left
      rcases writeData_step done with ⟨stop, -, rfl⟩ | ⟨more, -, scratch, -, answer, asked, rest⟩
      · have none : nblocks - blk = 0 := by omega
        rw [none, extent, Nat.zero_mul, slice, List.take_zero]
      · rcases rest with ⟨-, impossible, -⟩ | ⟨honoured, again⟩
        · cases impossible
        · generalize cnt_eq : min (nblocks - blk) scratchSectors = cnt at *
          have positive : 0 < cnt := by
            rw [← cnt_eq]
            simp only [scratchSectors]
            omega
          have within : cnt ≤ nblocks - blk := by omega
          have window : blk * sector + cnt * sector ≤ nblocks * sector := by
            rw [← Nat.add_mul]
            exact Nat.mul_le_mul_right _ (by omega)
          have next : min (blk * sector) data.length +
              min (data.length - min (blk * sector) data.length) (cnt * sector) =
                min ((blk + cnt) * sector) data.length := by
            rw [Nat.add_mul]
            omega
          rw [next] at again
          have lba : answer.2.dataLba = fs.dataLba := by rw [asked]; rfl
          have tail := ih (nblocks - (blk + cnt)) (by omega) (by omega) again rfl
          have stored : extent (LawfulBlockDev.content answer.2.dev) (fs.dataLba + (start + blk)) cnt =
              slice (padded data nblocks) (blk * sector) (cnt * sector) := by
            rw [← chunk_eq_slice window]
            rw [asked] at honoured ⊢
            exact LawfulBlockDev.write_honoured _ _ _ _ (length_chunk _ _ _) honoured
          -- the later rounds write behind this chunk
          have kept : extent (LawfulBlockDev.content fs'.dev) (fs.dataLba + (start + blk)) cnt =
              extent (LawfulBlockDev.content answer.2.dev) (fs.dataLba + (start + blk)) cnt := by
            refine (writeData_spec rfl again).issued.extent_eq ?_
            rintro lba count ⟨low, -⟩
            change answer.2.dataLba + (start + (blk + cnt)) ≤ lba at low
            omega
          have split : nblocks - blk = cnt + (nblocks - (blk + cnt)) := by omega
          rw [split, ← extent_append, kept, stored, Nat.add_mul, ← slice_append_slice]
          congr 1
          rw [lba] at tail
          rw [← Nat.add_mul, ← tail]
          congr 1
          omega

/-- The addresses of the chunks that a data loop wrote fit their word. -/
theorem writeData_addresses {data : List UInt8} {start nblocks : Nat} :
    ∀ {fs fs' : Rpfs D} {blk written : Nat}, blk % scratchSectors = 0 →
      writeData data start nblocks fs blk written = some (true, fs') →
        ∀ k, blk ≤ k → k < nblocks → k % scratchSectors = 0 →
          fs.dataLba + (start + k) < 2 ^ 64 := by
  intro fs fs' blk written aligned done
  induction left : nblocks - blk using Nat.strongRecOn generalizing fs blk written with
  | ind left ih =>
      subst left
      intro k low high chunkStart
      rcases writeData_step done with ⟨stop, -, -⟩ | ⟨more, small, scratch, -, answer, asked, rest⟩
      · omega
      · by_cases here : k = blk
        · rw [here]
          exact small
        · rcases rest with ⟨-, impossible, -⟩ | ⟨-, again⟩
          · cases impossible
          · have place : answer.2.dataLba = fs.dataLba := by rw [asked]; rfl
            simp only [scratchSectors] at aligned chunkStart again
            have next : min (nblocks - blk) 64 = 64 := by omega
            rw [next] at again
            rw [← place]
            exact ih _ (by omega) (by simp only [scratchSectors]; omega) again rfl k (by omega) high
              chunkStart

/-- A data loop that reports failure had a chunk refused. -/
theorem writeData_refused {D : Type} [BlockDev D] {data : List UInt8} {start nblocks : Nat} :
    ∀ {fs fs' : Rpfs (Recorder D)} {blk written : Nat},
      writeData data start nblocks fs blk written = some (false, fs') →
        ∃ q ∈ fs.dev.since fs'.dev,
          q.isWrite = true ∧ fs.dataLba ≤ q.lba ∧ q.honoured = false := by
  intro fs fs' blk written done
  induction left : nblocks - blk using Nat.strongRecOn generalizing fs blk written with
  | ind left ih =>
      subst left
      rcases writeData_step done with ⟨-, impossible, -⟩ | ⟨more, -, scratch, -, answer, asked, rest⟩
      · cases impossible
      · have asks : Issues (fun _ _ => True) fs.dev answer.2.dev := by
          rw [asked]
          exact Issues.of_write (length_chunk _ _ _) trivial
        rcases rest with ⟨refused, -, rfl⟩ | ⟨-, again⟩
        · refine ⟨⟨true, fs.dataLba + (start + blk), min (nblocks - blk) scratchSectors, false⟩,
            ?_, rfl, Nat.le_add_right _ _, rfl⟩
          have recorded := Recorder.log_write fs.dev (fs.dataLba + (start + blk))
            (min (nblocks - blk) scratchSectors)
            (chunk data written (min (nblocks - blk) scratchSectors * sector))
          rw [asked] at refused ⊢
          rw [show (BlockDev.write fs.dev _ _ _).1 = false from refused] at recorded
          rw [Recorder.since, dev_devWrite, recorded, List.drop_left]
          exact List.mem_singleton_self _
        · obtain ⟨q, member, isWrite, high, refused⟩ :=
            ih (nblocks - (blk + min (nblocks - blk) scratchSectors))
              (by simp only [scratchSectors]; omega) again rfl
          refine ⟨q, asks.since_left ?_ member, isWrite, ?_, refused⟩
          · exact (writeData_spec rfl again).issued.any
          · rw [asked] at high
            exact high

/-- A disk that refuses everything does not store a file. -/
theorem writeData_of_unwilling {data : List UInt8} {start nblocks written : Nat}
    {fs fs' : Rpfs (Recorder ScriptedDisk)} (some : 0 < nblocks)
    (unwilling : fs.dev.dev.script = fun _ => false) :
    writeData data start nblocks fs 0 written ≠ Option.some (true, fs') := by
  intro done
  rcases writeData_step done with ⟨none, -, -⟩ | ⟨-, -, scratch, -, answer, asked, rest⟩
  · omega
  · have refused : answer.1 = false := by
      rw [asked]
      exact congrFun unwilling _
    rcases rest with ⟨-, impossible, -⟩ | ⟨honoured, -⟩
    · exact Bool.false_ne_true impossible.symm
    · exact Bool.false_ne_true (refused.symm.trans honoured)

end Effects

end RustyPenguin.Rpfs
