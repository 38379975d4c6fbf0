import RustyPenguin.Rpfs.Effects

/-!
# The ways an operation can go

`WriteSteps` lists the ways a `write_file` call can go, with the states between its
steps: refused, out of space, a chunk refused by the device, stored. `WriteOutcome` is
the same list as a change of the bitmap and the directory and a set of requests,
which is all most results need (`writeFile_outcome`). `DeleteOutcome`, `MkdirOutcome`
and `readFile_spec` do the same for the other operations.
-/

set_option autoImplicit false

namespace RustyPenguin.Rpfs

open Buffer

section Outcomes

variable {D : Type} [BlockDev D]

/-! ## Writing a file -/

/-- The slot a write goes to, and the volume with the extent of an overwritten file released. -/
inductive Slotted (fs : Rpfs D) (name : List UInt8) : Fin dirEntries → Rpfs D → Prop where
  | overwrite {slot : Fin dirEntries} {bitmap : List UInt8} {fs₁ : Rpfs D}
      (found : fs.find name = some slot) (isFile : fs.dir.eKind slot ≠ kDir)
      (freed : freeRun fs.totalBlocks fs.bitmap (fs.dir.eStart slot) (fs.dir.eNblocks slot) =
        some bitmap)
      (flushed : flushBitmapRange { fs with bitmap } (fs.dir.eStart slot)
        (fs.dir.eNblocks slot) = some fs₁) : Slotted fs name slot fs₁
  | fresh {slot : Fin dirEntries} (missing : fs.find name = none)
      (free : fs.freeSlot = some slot) : Slotted fs name slot fs

/-- A path that no slot can be had for: a directory has it, or the table is full. -/
def Unslotted (fs : Rpfs D) (name : List UInt8) : Prop :=
  (∃ i, fs.find name = some i ∧ fs.dir.eKind i = kDir) ∨ (fs.find name = none ∧ fs.freeSlot = none)

theorem slotFor_some {fs fs₁ : Rpfs D} {name : List UInt8} {r : Option (Fin dirEntries)}
    (done : fs.slotFor name = some (r, fs₁)) :
    (r = none ∧ fs₁ = fs ∧ fs.Unslotted name) ∨ ∃ slot, r = some slot ∧ fs.Slotted name slot fs₁ := by
  rw [slotFor] at done
  cases found : fs.find name with
  | none =>
      simp only [found, Option.some.injEq, Prod.mk.injEq] at done
      obtain ⟨rfl, rfl⟩ := done
      cases free : fs.freeSlot with
      | none => exact Or.inl ⟨rfl, rfl, Or.inr ⟨found, free⟩⟩
      | some slot => exact Or.inr ⟨slot, rfl, Slotted.fresh found free⟩
  | some i =>
      simp only [found] at done
      by_cases isDir : fs.dir.eKind i = kDir
      · rw [if_pos isDir] at done
        cases done
        exact Or.inl ⟨rfl, rfl, Or.inl ⟨i, found, isDir⟩⟩
      · rw [if_neg isDir] at done
        simp only [Option.bind_eq_bind, Option.bind_eq_some_iff] at done
        obtain ⟨bitmap, freed, fs₂, flushed, result⟩ := done
        cases result
        exact Or.inr ⟨i, rfl, Slotted.overwrite found isDir freed flushed⟩

/-- The ways a write can go, with the states between its steps. -/
inductive WriteSteps (fs : Rpfs D) (name data : List UInt8) : Bool → Rpfs D → Prop where
  | refused (why : ¬fs.Writable name data ∨ fs.Unslotted name) : WriteSteps fs name data false fs
  | noSpace {slot : Fin dirEntries} {fs₁ fs' : Rpfs D} (writable : fs.Writable name data)
      (slotted : fs.Slotted name slot fs₁)
      (full : ∀ s, s + blocksFor data.length ≤ fs₁.totalBlocks →
        ¬FreeRun fs₁.bitmap s (blocksFor data.length))
      (put : fs₁.putEntry slot name kFile (-1) 0 0 0 = some fs') : WriteSteps fs name data false fs'
  | failed {slot : Fin dirEntries} {fs₁ fs' : Rpfs D} {start : Nat} {bitmap : List UInt8}
      (writable : fs.Writable name data) (slotted : fs.Slotted name slot fs₁)
      (room : start + blocksFor data.length ≤ fs₁.totalBlocks)
      (free : FreeRun fs₁.bitmap start (blocksFor data.length))
      (taken : Filled fs₁.bitmap bitmap start (start + blocksFor data.length) true)
      (loop : writeData data start (blocksFor data.length) { fs₁ with bitmap } 0 0 =
        some (false, fs')) : WriteSteps fs name data false fs'
  | stored {slot : Fin dirEntries} {fs₁ fs₂ fs₃ fs₄ fs' : Rpfs D} {start : Nat}
      {bitmap : List UInt8} (writable : fs.Writable name data) (slotted : fs.Slotted name slot fs₁)
      (room : start + blocksFor data.length ≤ fs₁.totalBlocks)
      (free : FreeRun fs₁.bitmap start (blocksFor data.length))
      (taken : Filled fs₁.bitmap bitmap start (start + blocksFor data.length) true)
      (loop : writeData data start (blocksFor data.length) { fs₁ with bitmap } 0 0 =
        some (true, fs₂))
      (parents : fs₂.ensureParents name = some fs₃)
      (flushed : (fs₃.setEntry slot name kFile 1 start data.length
        (blocksFor data.length)).flushBitmapRange start (blocksFor data.length) = some fs₄)
      (entry : fs₄.flushDirEntry slot = some fs') : WriteSteps fs name data true fs'

theorem blocksFor_pos (len : Nat) : 0 < blocksFor len := by
  rw [blocksFor]
  omega

theorem le_blocksFor (len : Nat) : len ≤ blocksFor len * sector := by
  simp only [blocksFor, sector]
  omega

theorem writeFile_steps {fs fs' : Rpfs D} {name data : List UInt8} {ok : Bool}
    (done : fs.writeFile name data = some (ok, fs')) : WriteSteps fs name data ok fs' := by
  rw [writeFile] at done
  by_cases writable : fs.Writable name data
  · rw [if_pos writable, Option.bind_eq_bind, Option.bind_eq_some_iff] at done
    obtain ⟨⟨r, fs₁⟩, slotting, rest⟩ := done
    rcases slotFor_some slotting with ⟨rfl, rfl, unslotted⟩ | ⟨slot, rfl, slotted⟩
    · cases rest
      exact WriteSteps.refused (Or.inr unslotted)
    · simp only [Option.bind_eq_bind, Option.bind_eq_some_iff] at rest
      obtain ⟨⟨found, bitmap⟩, allocated, rest⟩ := rest
      cases found with
      | none =>
          obtain ⟨same, full⟩ := allocRun_none (blocksFor_pos _) allocated
          simp only [Option.bind_eq_some_iff] at rest
          obtain ⟨fs₂, put, result⟩ := rest
          cases result
          subst same
          exact WriteSteps.noSpace writable slotted full put
      | some start =>
          obtain ⟨room, free, taken⟩ := allocRun_some allocated
          simp only [storeFile, Option.bind_eq_bind, Option.bind_eq_some_iff] at rest
          obtain ⟨⟨stored, fs₂⟩, loop, rest⟩ := rest
          cases stored with
          | false =>
              cases rest
              exact WriteSteps.failed writable slotted room free taken loop
          | true =>
              simp only [if_true, Option.bind_eq_some_iff] at rest
              obtain ⟨fs₃, parents, fs₄, flushed, fs₅, entry, result⟩ := rest
              cases result
              exact WriteSteps.stored writable slotted room free taken loop parents flushed entry
  · rw [if_neg writable] at done
    cases done
    exact WriteSteps.refused (Or.inl writable)

/-- The slot a write goes to and the bitmap after an overwritten file's extent is released. -/
inductive Released (fs : Rpfs D) (name : List UInt8) : Fin dirEntries → List UInt8 → Prop where
  | overwrite {slot : Fin dirEntries} {bitmap : List UInt8} (found : fs.find name = some slot)
      (isFile : (fs.dir.entry slot).kind ≠ kDir)
      (freed : Filled fs.bitmap bitmap (min (fs.dir.entry slot).start fs.totalBlocks)
        (min ((fs.dir.entry slot).start + (fs.dir.entry slot).nblocks) fs.totalBlocks) false) :
      Released fs name slot bitmap
  | fresh {slot : Fin dirEntries} (missing : fs.find name = none)
      (free : fs.freeSlot = some slot) : Released fs name slot fs.bitmap

theorem Slotted.spec {fs fs₁ : Rpfs D} {name : List UInt8} {slot : Fin dirEntries} {sh : Shape}
    (same : fs.shape = sh) (wf : sh.WellFormed) (slotted : fs.Slotted name slot fs₁) :
    Released fs name slot fs₁.bitmap ∧ Becomes sh sh.BitmapArea fs fs₁ fs.dir fs₁.bitmap := by
  cases slotted with
  | overwrite found isFile freed flushed =>
      have filled := freeRun_filled freed
      have effect := flushBitmapRange_spec ((shape_bitmap fs filled.length_eq).trans same) wf flushed
      have bits := effect.bitmap_eq
      dsimp only at bits
      subst bits
      exact ⟨Released.overwrite found isFile filled,
        effect.shape_eq, effect.dir_eq, rfl, effect.issued⟩
  | fresh missing free => exact ⟨Released.fresh missing free, Becomes.refl same⟩

/-- The ways a write can go, as changes of the bitmap and the directory. -/
inductive WriteOutcome (fs : Rpfs D) (name data : List UInt8) : Bool → Rpfs D → Prop where
  | refused (why : ¬fs.Writable name data ∨ fs.Unslotted name) : WriteOutcome fs name data false fs
  | noSpace {slot : Fin dirEntries} {fs' : Rpfs D} {bitmap : List UInt8}
      (writable : fs.Writable name data) (released : Released fs name slot bitmap)
      (full : ∀ s, s + blocksFor data.length ≤ fs.totalBlocks →
        ¬FreeRun bitmap s (blocksFor data.length))
      (effect : Becomes fs.shape fs.shape.MetaArea fs fs'
        (fs.dir.setEntry slot name kFile (-1) 0 0 0) bitmap) : WriteOutcome fs name data false fs'
  | failed {slot : Fin dirEntries} {fs₂ fs' : Rpfs D} {start : Nat} {bitmap bitmap' : List UInt8}
      (writable : fs.Writable name data) (released : Released fs name slot bitmap)
      (room : start + blocksFor data.length ≤ fs.totalBlocks)
      (free : FreeRun bitmap start (blocksFor data.length))
      (taken : Filled bitmap bitmap' start (start + blocksFor data.length) true)
      (before : Becomes fs.shape fs.shape.MetaArea fs fs₂ fs.dir bitmap')
      (loop : writeData data start (blocksFor data.length) fs₂ 0 0 = some (false, fs'))
      (effect : Becomes fs.shape (fs.shape.FileArea start (blocksFor data.length)) fs fs' fs.dir
        bitmap') : WriteOutcome fs name data false fs'
  | stored {slot : Fin dirEntries} {fs₂ fs₃ fs' : Rpfs D} {start : Nat}
      {bitmap bitmap' : List UInt8} {dir : Directory} (writable : fs.Writable name data)
      (released : Released fs name slot bitmap)
      (room : start + blocksFor data.length ≤ fs.totalBlocks)
      (free : FreeRun bitmap start (blocksFor data.length))
      (taken : Filled bitmap bitmap' start (start + blocksFor data.length) true)
      (before : Becomes fs.shape fs.shape.MetaArea fs fs₂ fs.dir bitmap')
      (loop : writeData data start (blocksFor data.length) fs₂ 0 0 = some (true, fs₃))
      (parents : ParentsAdded name fs.dir dir)
      (after : Becomes fs.shape fs.shape.MetaArea fs₃ fs'
        (dir.setEntry slot name kFile 1 start data.length (blocksFor data.length)) bitmap')
      (effect : Becomes fs.shape (fs.shape.FileArea start (blocksFor data.length)) fs fs'
        (dir.setEntry slot name kFile 1 start data.length (blocksFor data.length)) bitmap') :
      WriteOutcome fs name data true fs'

theorem writeFile_outcome {fs fs' : Rpfs D} {name data : List UInt8} {ok : Bool}
    (wf : fs.WellFormed) (done : fs.writeFile name data = some (ok, fs')) :
    WriteOutcome fs name data ok fs' := by
  have whole : ∀ {start n lba count : Nat}, fs.shape.DataArea (start + 0) (n - 0) lba count →
      fs.shape.FileArea start n lba count := fun within => Or.inr (by simpa using within)
  cases writeFile_steps done with
  | refused why => exact WriteOutcome.refused why
  | @noSpace slot fs₁ _ writable slotted full put =>
      obtain ⟨released, first⟩ := slotted.spec rfl wf
      have total : fs₁.totalBlocks = fs.totalBlocks := congrArg Shape.totalBlocks first.shape_eq
      have second := putEntry_spec first.shape_eq wf put
      rw [first.dir_eq] at second
      exact WriteOutcome.noSpace writable released (total ▸ full)
        ((first.mono wf.meta_of_bitmap).trans (second.mono wf.meta_of_dir))
  | @failed slot fs₁ _ start bitmap writable slotted room free taken loop =>
      obtain ⟨released, first⟩ := slotted.spec rfl wf
      have total : fs₁.totalBlocks = fs.totalBlocks := congrArg Shape.totalBlocks first.shape_eq
      have before : Becomes fs.shape fs.shape.MetaArea fs { fs₁ with bitmap } fs.dir bitmap :=
        ⟨(shape_bitmap fs₁ taken.length_eq).trans first.shape_eq, first.dir_eq, rfl,
          first.issued.mono wf.meta_of_bitmap⟩
      exact WriteOutcome.failed writable released (total ▸ room) free taken before loop
        ((before.mono fun _ _ => Or.inl).keeps
          ((writeData_spec before.shape_eq loop).mono fun _ _ => whole))
  | @stored slot fs₁ fs₂ fs₃ fs₄ _ start bitmap writable slotted room free taken loop parents
      flushed entry =>
      obtain ⟨released, first⟩ := slotted.spec rfl wf
      have total : fs₁.totalBlocks = fs.totalBlocks := congrArg Shape.totalBlocks first.shape_eq
      have before : Becomes fs.shape fs.shape.MetaArea fs { fs₁ with bitmap } fs.dir bitmap :=
        ⟨(shape_bitmap fs₁ taken.length_eq).trans first.shape_eq, first.dir_eq, rfl,
          first.issued.mono wf.meta_of_bitmap⟩
      have written : Becomes fs.shape (fs.shape.FileArea start (blocksFor data.length)) fs fs₂
          fs.dir bitmap := (before.mono fun _ _ => Or.inl).keeps
        ((writeData_spec before.shape_eq loop).mono fun _ _ => whole)
      obtain ⟨dir, added, third⟩ := ensureParents_spec written.shape_eq wf parents
      rw [written.dir_eq] at added
      rw [written.bitmap_eq] at third
      have fourth := flushBitmapRange_spec (shape_setEntry.trans third.shape_eq) wf flushed
      have fifth := flushDirEntry_spec fourth.shape_eq wf entry
      have after : Becomes fs.shape fs.shape.MetaArea fs₂ _
          (dir.setEntry slot name kFile 1 start data.length (blocksFor data.length)) bitmap :=
        ⟨fifth.shape_eq,
          fifth.dir_eq.trans (fourth.dir_eq.trans (by rw [← third.dir_eq]; rfl)),
          fifth.bitmap_eq.trans (fourth.bitmap_eq.trans third.bitmap_eq),
          ((third.issued.mono wf.meta_of_dir).trans (fourth.issued.mono wf.meta_of_bitmap)).trans
            (fifth.issued.mono wf.meta_of_dir)⟩
      exact WriteOutcome.stored writable released (total ▸ room) free taken before loop added after
        (written.trans (after.mono fun _ _ => Or.inl))

/-! ## Deleting a file -/

/-- The ways a delete can go, with the states between its steps. -/
inductive DeleteSteps (fs : Rpfs D) (name : List UInt8) : Bool → Rpfs D → Prop where
  | refused (why : fs.ready = false ∨ fs.find name = none ∨
      ∃ slot, fs.find name = some slot ∧ (fs.dir.entry slot).kind = kDir ∧
        fs.hasChild name = true) : DeleteSteps fs name false fs
  | dir {slot : Fin dirEntries} {fs' : Rpfs D} (found : fs.find name = some slot)
      (isDir : (fs.dir.entry slot).kind = kDir) (childless : fs.hasChild name = false)
      (entry : flushDirEntry { fs with dir := fs.dir.tombstone slot } slot = some fs') :
      DeleteSteps fs name true fs'
  | file {slot : Fin dirEntries} {fs₁ fs' : Rpfs D} {bitmap : List UInt8}
      (found : fs.find name = some slot) (isFile : (fs.dir.entry slot).kind ≠ kDir)
      (freed : freeRun fs.totalBlocks fs.bitmap (fs.dir.entry slot).start
        (fs.dir.entry slot).nblocks = some bitmap)
      (flushed : flushBitmapRange { fs with bitmap } (fs.dir.entry slot).start
        (fs.dir.entry slot).nblocks = some fs₁)
      (entry : flushDirEntry { fs₁ with dir := fs₁.dir.tombstone slot } slot = some fs') :
      DeleteSteps fs name true fs'

theorem dropEntry_some {fs fs' : Rpfs D} {slot : Fin dirEntries} {ok : Bool}
    (done : fs.dropEntry slot = some (ok, fs')) :
    ok = true ∧ flushDirEntry { fs with dir := fs.dir.tombstone slot } slot = some fs' := by
  simp only [dropEntry, Option.bind_eq_bind, Option.bind_eq_some_iff] at done
  obtain ⟨fs₁, entry, result⟩ := done
  cases result
  exact ⟨rfl, entry⟩

theorem deleteFile_steps {fs fs' : Rpfs D} {name : List UInt8} {ok : Bool}
    (done : fs.deleteFile name = some (ok, fs')) : DeleteSteps fs name ok fs' := by
  rw [deleteFile] at done
  by_cases ready : fs.ready = true
  · rw [if_pos ready] at done
    cases found : fs.find name with
    | none =>
        simp only [found] at done
        cases done
        exact DeleteSteps.refused (Or.inr (Or.inl found))
    | some slot =>
        simp only [found] at done
        by_cases isDir : fs.dir.eKind slot = kDir
        · rw [if_pos isDir] at done
          cases child : fs.hasChild name with
          | true =>
              simp only [child, if_true] at done
              cases done
              exact DeleteSteps.refused (Or.inr (Or.inr ⟨slot, found, isDir, child⟩))
          | false =>
              simp only [child, Bool.false_eq_true, if_false] at done
              obtain ⟨rfl, entry⟩ := dropEntry_some done
              exact DeleteSteps.dir found isDir child entry
        · rw [if_neg isDir] at done
          simp only [Option.bind_eq_bind, Option.bind_eq_some_iff] at done
          obtain ⟨bitmap, freed, fs₁, flushed, dropped⟩ := done
          obtain ⟨rfl, entry⟩ := dropEntry_some dropped
          exact DeleteSteps.file found isDir freed flushed entry
  · rw [if_neg ready] at done
    cases done
    exact DeleteSteps.refused (Or.inl (Bool.eq_false_iff.mpr ready))

/-- The ways a delete can go, as changes of the bitmap and the directory. -/
inductive DeleteOutcome (fs : Rpfs D) (name : List UInt8) : Bool → Rpfs D → Prop where
  | refused (why : fs.ready = false ∨ fs.find name = none ∨
      ∃ slot, fs.find name = some slot ∧ (fs.dir.entry slot).kind = kDir ∧
        fs.hasChild name = true) : DeleteOutcome fs name false fs
  | dir {slot : Fin dirEntries} {fs' : Rpfs D} (found : fs.find name = some slot)
      (isDir : (fs.dir.entry slot).kind = kDir) (childless : fs.hasChild name = false)
      (effect : Becomes fs.shape fs.shape.MetaArea fs fs' (fs.dir.tombstone slot) fs.bitmap) :
      DeleteOutcome fs name true fs'
  | file {slot : Fin dirEntries} {fs' : Rpfs D} {bitmap : List UInt8}
      (found : fs.find name = some slot) (isFile : (fs.dir.entry slot).kind ≠ kDir)
      (freed : Filled fs.bitmap bitmap (min (fs.dir.entry slot).start fs.totalBlocks)
        (min ((fs.dir.entry slot).start + (fs.dir.entry slot).nblocks) fs.totalBlocks) false)
      (effect : Becomes fs.shape fs.shape.MetaArea fs fs' (fs.dir.tombstone slot) bitmap) :
      DeleteOutcome fs name true fs'

theorem deleteFile_outcome {fs fs' : Rpfs D} {name : List UInt8} {ok : Bool}
    (wf : fs.WellFormed) (done : fs.deleteFile name = some (ok, fs')) :
    DeleteOutcome fs name ok fs' := by
  cases deleteFile_steps done with
  | refused why => exact DeleteOutcome.refused why
  | @dir slot _ found isDir childless entry =>
      have effect := flushDirEntry_spec shape_dir wf entry
      exact DeleteOutcome.dir found isDir childless
        ⟨effect.shape_eq, effect.dir_eq, effect.bitmap_eq, effect.issued.mono wf.meta_of_dir⟩
  | @file slot fs₁ _ bitmap found isFile freed flushed entry =>
      have filled := freeRun_filled freed
      have first := flushBitmapRange_spec (shape_bitmap fs filled.length_eq) wf flushed
      have second := flushDirEntry_spec (shape_dir.trans first.shape_eq) wf entry
      exact DeleteOutcome.file found isFile filled
        ⟨second.shape_eq,
          second.dir_eq.trans (congrArg (fun dir => dir.tombstone slot) first.dir_eq),
          second.bitmap_eq.trans first.bitmap_eq,
          (first.issued.mono wf.meta_of_bitmap).trans (second.issued.mono wf.meta_of_dir)⟩

/-! ## Making a directory -/

/-- The ways a `mkdir` can go, with the state after its parents were made. -/
inductive MkdirSteps (fs : Rpfs D) (name : List UInt8) : Bool → Rpfs D → Prop where
  | refused (why : fs.ready = false ∨ name = [] ∨ maxName < name.length) :
      MkdirSteps fs name false fs
  | there {fs' : Rpfs D} (named : name ≠ []) (short : name.length ≤ maxName)
      (parents : fs.ensureParents name = some fs') (found : fs'.find name ≠ none) :
      MkdirSteps fs name true fs'
  | full {fs' : Rpfs D} (named : name ≠ []) (short : name.length ≤ maxName)
      (parents : fs.ensureParents name = some fs') (missing : fs'.find name = none)
      (none : fs'.freeSlot = none) : MkdirSteps fs name false fs'
  | made {slot : Fin dirEntries} {fs₁ fs' : Rpfs D} (named : name ≠ [])
      (short : name.length ≤ maxName) (parents : fs.ensureParents name = some fs₁)
      (missing : fs₁.find name = none) (free : fs₁.freeSlot = some slot)
      (put : fs₁.putEntry slot name kDir 1 0 0 0 = some fs') : MkdirSteps fs name true fs'

theorem mkdir_steps {fs fs' : Rpfs D} {name : List UInt8} {ok : Bool}
    (done : fs.mkdir name = some (ok, fs')) : MkdirSteps fs name ok fs' := by
  rw [mkdir] at done
  by_cases allowed : fs.ready = true ∧ name ≠ [] ∧ name.length ≤ maxName
  · have named := allowed.2.1
    have short := allowed.2.2
    rw [if_pos allowed, Option.bind_eq_bind, Option.bind_eq_some_iff] at done
    obtain ⟨fs₁, parents, rest⟩ := done
    cases found : fs₁.find name with
    | some i =>
        simp only [found] at rest
        cases rest
        exact MkdirSteps.there named short parents (found ▸ Option.some_ne_none i)
    | none =>
        cases free : fs₁.freeSlot with
        | none =>
            simp only [found, free] at rest
            cases rest
            exact MkdirSteps.full named short parents found free
        | some slot =>
            simp only [found, free, Option.bind_eq_some_iff] at rest
            obtain ⟨fs₂, put, result⟩ := rest
            cases result
            exact MkdirSteps.made named short parents found free put
  · rw [if_neg allowed] at done
    cases done
    refine MkdirSteps.refused ?_
    by_contra fine
    simp only [not_or, Bool.not_eq_false, Nat.not_lt] at fine
    exact allowed fine

/-- The ways a `mkdir` can go, as changes of the directory. -/
inductive MkdirOutcome (fs : Rpfs D) (name : List UInt8) : Bool → Rpfs D → Prop where
  | refused (why : fs.ready = false ∨ name = [] ∨ maxName < name.length) :
      MkdirOutcome fs name false fs
  | there {fs' : Rpfs D} {dir : Directory} (named : name ≠ []) (short : name.length ≤ maxName)
      (parents : ParentsAdded name fs.dir dir) (found : dir.find name ≠ none)
      (effect : Becomes fs.shape fs.shape.DirArea fs fs' dir fs.bitmap) :
      MkdirOutcome fs name true fs'
  | full {fs' : Rpfs D} {dir : Directory} (named : name ≠ []) (short : name.length ≤ maxName)
      (parents : ParentsAdded name fs.dir dir) (missing : dir.find name = none)
      (none : dir.freeSlot = none)
      (effect : Becomes fs.shape fs.shape.DirArea fs fs' dir fs.bitmap) :
      MkdirOutcome fs name false fs'
  | made {slot : Fin dirEntries} {fs' : Rpfs D} {dir : Directory} (named : name ≠ [])
      (short : name.length ≤ maxName) (parents : ParentsAdded name fs.dir dir)
      (missing : dir.find name = none) (free : dir.freeSlot = some slot)
      (effect : Becomes fs.shape fs.shape.DirArea fs fs' (dir.setEntry slot name kDir 1 0 0 0)
        fs.bitmap) : MkdirOutcome fs name true fs'

theorem mkdir_outcome {fs fs' : Rpfs D} {name : List UInt8} {ok : Bool}
    (wf : fs.WellFormed) (done : fs.mkdir name = some (ok, fs')) : MkdirOutcome fs name ok fs' := by
  cases mkdir_steps done with
  | refused why => exact MkdirOutcome.refused why
  | there named short parents found =>
      obtain ⟨dir, added, effect⟩ := ensureParents_spec rfl wf parents
      exact MkdirOutcome.there named short added (effect.dir_eq ▸ found) effect
  | full named short parents missing none =>
      obtain ⟨dir, added, effect⟩ := ensureParents_spec rfl wf parents
      exact MkdirOutcome.full named short added (effect.dir_eq ▸ missing) (effect.dir_eq ▸ none)
        effect
  | made named short parents missing free put =>
      obtain ⟨dir, added, effect⟩ := ensureParents_spec rfl wf parents
      have last := putEntry_spec effect.shape_eq wf put
      rw [effect.dir_eq, effect.bitmap_eq] at last
      exact MkdirOutcome.made named short added (effect.dir_eq ▸ missing) (effect.dir_eq ▸ free)
        (effect.trans last)

/-! ## Reading a file -/

/-- Reading writes nothing. -/
theorem readData_spec {start size nblocks : Nat} {sh : Shape} :
    ∀ {fs fs' : Rpfs D} {out out' : List UInt8} {blk filePos outPos : Nat} {r : Option Nat},
      fs.shape = sh →
        readData start size nblocks fs out blk filePos outPos = some (r, out', fs') →
          Becomes sh (fun _ _ => False) fs fs' fs.dir fs.bitmap := by
  intro fs fs' out out' blk filePos outPos r same done
  induction left : nblocks - blk using Nat.strongRecOn generalizing fs out blk filePos outPos with
  | ind left ih =>
      subst left
      rw [readData] at done
      split at done
      · rename_i more
        simp only [Option.bind_eq_some_iff] at done
        obtain ⟨block, sum, lba, place, buf, window, rest⟩ := done
        obtain ⟨fits, rfl⟩ := slice?_eq_some.mp window
        have size : (BlockDev.read fs.dev lba (min (nblocks - blk) scratchSectors)
            (slice fs.scratch 0 (min (nblocks - blk) scratchSectors * sector))).2.1.length =
              min (nblocks - blk) scratchSectors * sector := by
          rw [BlockDev.read_length, length_slice fits]
        generalize answered : BlockDev.read fs.dev lba (min (nblocks - blk) scratchSectors)
          (slice fs.scratch 0 (min (nblocks - blk) scratchSectors * sector)) = answer at *
        have first : Becomes sh (fun _ _ => False) fs
            { fs with dev := answer.2.2, scratch := blit fs.scratch 0 answer.2.1 } fs.dir
            fs.bitmap := by
          refine ⟨?_, rfl, rfl, answered ▸ Issues.of_read _ _ _ _⟩
          rw [← same, shape, shape]
          dsimp only
          rw [length_blit (by omega)]
        split at rest
        · simp only [Option.bind_eq_some_iff] at rest
          obtain ⟨src, _, out₁, _, rest⟩ := rest
          split at rest
          · cases rest
            exact first
          · exact first.trans (ih _ (by simp only [scratchSectors]; omega) first.shape_eq rest rfl)
        · cases rest
          exact first
      · cases done
        exact Becomes.refl same

theorem readFile_spec {fs fs' : Rpfs D} {name out out' : List UInt8} {r : Option Nat}
    (done : fs.readFile name out = some (r, out', fs')) :
    Becomes fs.shape (fun _ _ => False) fs fs' fs.dir fs.bitmap := by
  rw [readFile] at done
  split at done
  · split at done
    · cases done
      exact Becomes.refl rfl
    · split at done
      · cases done
        exact Becomes.refl rfl
      · exact readData_spec rfl done
  · cases done
    exact Becomes.refl rfl

end Outcomes

end RustyPenguin.Rpfs
