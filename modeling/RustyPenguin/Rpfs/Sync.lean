import RustyPenguin.Foundation.Mirror
import RustyPenguin.Rpfs.Contents

/-!
# The metadata on disk

Between operations the device holds the superblock, the bitmap and the directory of the
running volume (`Synced`), as long as every write is honoured. Within an operation it
lags behind by some sectors of the bitmap and of the directory (`SyncedBut`): changing
the bitmap or an entry makes the sectors concerned stale, and the flush that follows
writes exactly these (`flushBitmapRange_synced`, `flushDirEntry_synced`).
-/

set_option autoImplicit false

namespace RustyPenguin.Rpfs

open Buffer

/-! ## Honoured writes -/

/-- Every write recorded between two device states was honoured. -/
def WritesHonoured {D : Type} (r r' : Recorder D) : Prop :=
  ∀ q ∈ r.since r', q.isWrite = true → q.honoured = true

theorem WritesHonoured.split {D : Type} [BlockDev D] {r r' r'' : Recorder D}
    {R R' : Nat → Nat → Prop} (honoured : WritesHonoured r r'') (first : Issues R r r')
    (second : Issues R' r' r'') : WritesHonoured r r' ∧ WritesHonoured r' r'' :=
  ⟨fun q member => honoured q (first.any.since_right second.any member),
    fun q member => honoured q (first.any.since_left second.any member)⟩

/-- A write that is all there is was honoured. -/
theorem honoured_write {D : Type} [BlockDev D] {r : Recorder D} {lba count : Nat} {buf : List UInt8}
    (honoured : WritesHonoured r (BlockDev.write r lba count buf).2) :
    (BlockDev.write r lba count buf).1 = true := by
  refine honoured ⟨true, lba, count, (BlockDev.write r lba count buf).1⟩ ?_ rfl
  rw [Recorder.since, Recorder.log_write, List.drop_left]
  exact List.mem_singleton_self _

/-- What an honoured write of one sector leaves on the device. -/
theorem content_write_sector {D : Type} [LawfulBlockDev D] {r : Recorder D} {lba : Nat}
    {buf : List UInt8} (size : buf.length = sector)
    (honoured : WritesHonoured r (BlockDev.write r lba 1 buf).2) :
    LawfulBlockDev.content (BlockDev.write r lba 1 buf).2 lba = buf ∧
      ∀ x, x ≠ lba → LawfulBlockDev.content (BlockDev.write r lba 1 buf).2 x =
        LawfulBlockDev.content r x := by
  constructor
  · have stored := LawfulBlockDev.write_honoured r lba 1 buf (by rw [size, Nat.one_mul])
      (honoured_write honoured)
    rwa [extent, extent, List.append_nil] at stored
  · intro x elsewhere
    exact LawfulBlockDev.write_outside r lba 1 buf x (by omega)

/-! ## Stale sectors -/

/-- The bitmap sectors that hold the bits of blocks `start` to `start + n`. -/
def Touched (start n : Nat) (s : Nat) : Prop := ∃ b, start ≤ b ∧ b < start + n ∧ b / 8 / sector = s

/-- No sector. -/
def Nowhere (_ : Nat) : Prop := False

/-- Filling bits changes the sectors that hold them. -/
theorem Filled.slice_eq {bm bm' : List UInt8} {lo hi s : Nat} {v : Bool}
    (filled : Filled bm bm' lo hi v) (missed : ∀ b, lo ≤ b → b < hi → b / 8 / sector ≠ s) :
    slice bm' (s * sector) sector = slice bm (s * sector) sector := by
  refine slice_congr fun k low high => filled.bytes k fun b below above same => ?_
  refine missed b below above ?_
  simp only [sector] at low high ⊢
  omega

/-- Setting an entry changes the sector that holds it. -/
theorem Directory.slice_setEntry (dir : Directory) {i : Fin dirEntries} {s : Nat}
    (elsewhere : s ≠ dirSector i) (name : List UInt8) (kind : UInt8) (trit : Int8)
    (start size nblocks : Nat) :
    slice (dir.setEntry i name kind trit start size nblocks).bytes (s * sector) sector =
      slice dir.bytes (s * sector) sector := by
  rw [Directory.bytes_setEntry]
  refine slice_blit_of_disjoint ?_ ?_
  · rw [length_entryBytes]
    exact dir.slot_fits i
  · rw [length_entryBytes]
    simp only [dirSector, entrySz, sector] at elsewhere ⊢
    omega

theorem Directory.slice_tombstone (dir : Directory) {i : Fin dirEntries} {s : Nat}
    (elsewhere : s ≠ dirSector i) :
    slice (dir.tombstone i).bytes (s * sector) sector = slice dir.bytes (s * sector) sector := by
  refine slice_congr fun k low high => ?_
  rw [Directory.tombstone, List.getElem?_set_ne]
  simp only [dirSector, entrySz, sector] at elsewhere low high ⊢
  omega

section Sync

variable {D : Type} [LawfulBlockDev D] {fs fs' : Rpfs (Recorder D)} {bits entries : Nat → Prop}

/-- **The device holds the volume's metadata**, but for the given sectors of the bitmap and of the
directory. -/
structure SyncedBut (fs : Rpfs (Recorder D)) (bits entries : Nat → Prop) : Prop where
  super : LawfulBlockDev.content fs.dev fs.base = superSector fs.totalBlocks fs.bitmapSectors
  bitmap : Mirrors sector (LawfulBlockDev.content fs.dev) fs.bitmapLba fs.bitmapSectors fs.bitmap bits
  dir : Mirrors sector (LawfulBlockDev.content fs.dev) fs.dirLba dirSectors fs.dir.bytes entries

/-- **The device holds the volume's metadata.** -/
abbrev Synced (fs : Rpfs (Recorder D)) : Prop := SyncedBut fs Nowhere Nowhere

namespace SyncedBut

theorem mono {bits' entries' : Nat → Prop} (synced : SyncedBut fs bits entries)
    (moreBits : ∀ s < fs.bitmapSectors, bits s → bits' s)
    (moreEntries : ∀ s, entries s → entries' s) : SyncedBut fs bits' entries' :=
  ⟨synced.super, synced.bitmap.mono moreBits, synced.dir.mono fun s _ => moreEntries s⟩

/-- Requests that leave the superblock, the bitmap and the directory leave what is synced. -/
theorem frame {R : Nat → Nat → Prop} {sh : Shape} (synced : SyncedBut fs bits entries)
    (same : fs.shape = sh) (wf : sh.WellFormed) (effect : Becomes sh R fs fs' fs.dir fs.bitmap)
    (missed : ∀ lba count, R lba count → sh.dataLba ≤ lba) : SyncedBut fs' bits entries := by
  subst same
  have first := wf.bitmapLba_eq
  have second := wf.dirLba_eq
  have third := wf.dataLba_eq
  change fs.bitmapLba = fs.base + 1 at first
  change fs.dirLba = fs.bitmapLba + fs.bitmapSectors at second
  change fs.dataLba = fs.dirLba + dirSectors at third
  have kept : ∀ x < fs.dataLba, LawfulBlockDev.content fs'.dev x = LawfulBlockDev.content fs.dev x :=
    fun x below => effect.issued.content_eq fun lba count within =>
      Or.inl (Nat.lt_of_lt_of_le below (missed lba count within))
  have base : fs'.base = fs.base := congrArg Shape.base effect.shape_eq
  have total : fs'.totalBlocks = fs.totalBlocks := congrArg Shape.totalBlocks effect.shape_eq
  have sectors : fs'.bitmapSectors = fs.bitmapSectors := congrArg Shape.bitmapSectors effect.shape_eq
  have bitmapLba : fs'.bitmapLba = fs.bitmapLba := congrArg Shape.bitmapLba effect.shape_eq
  have dirLba : fs'.dirLba = fs.dirLba := congrArg Shape.dirLba effect.shape_eq
  refine ⟨?_, ?_, ?_⟩
  · rw [base, total, sectors, kept fs.base (by omega)]
    exact synced.super
  · rw [sectors, bitmapLba, effect.bitmap_eq]
    exact synced.bitmap.frame fun x _ _ => kept x (by omega)
  · rw [dirLba, effect.dir_eq]
    exact synced.dir.frame fun x _ _ => kept x (by omega)

/-- A bitmap filled from `start` to `start + n` at most makes the sectors of these bits stale. -/
theorem setBitmap {bitmap : List UInt8} {start n lo hi : Nat} {v : Bool}
    (synced : SyncedBut fs Nowhere entries) (filled : Filled fs.bitmap bitmap lo hi v)
    (inside : ∀ b, lo ≤ b → b < hi → start ≤ b ∧ b < start + n) :
    SyncedBut { fs with bitmap } (Touched start n) entries := by
  refine ⟨synced.super, ?_, synced.dir⟩
  refine (synced.bitmap.touch (Touched start n) fun s _ clear => ?_).mono fun s _ => ?_
  · refine filled.slice_eq fun b low high same => clear ⟨b, ?_⟩
    obtain ⟨below, above⟩ := inside b low high
    exact ⟨below, above, same⟩
  · rintro (none | touched)
    · exact none.elim
    · exact touched

/-- A changed slot makes its sector stale. -/
theorem setDir {dir : Directory} {k : Nat} (synced : SyncedBut fs bits Nowhere)
    (others : ∀ s, s ≠ k → slice dir.bytes (s * sector) sector =
      slice fs.dir.bytes (s * sector) sector) : SyncedBut { fs with dir } bits (· = k) := by
  refine ⟨synced.super, synced.bitmap, ?_⟩
  refine (synced.dir.touch (· = k) fun s _ => others s).mono fun s _ => ?_
  rintro (none | here)
  · exact none.elim
  · exact here

end SyncedBut

/-! ## Flushes -/

/-- **Flushing an entry** writes the stale sector that holds it. -/
theorem flushDirEntry_synced {i : Fin dirEntries} (wf : fs.WellFormed)
    (synced : SyncedBut fs bits (· = dirSector i)) (done : fs.flushDirEntry i = some fs')
    (honoured : WritesHonoured fs.dev fs'.dev) : SyncedBut fs' bits Nowhere := by
  have first := wf.bitmapLba_eq
  have second := wf.dirLba_eq
  change fs.bitmapLba = fs.base + 1 at first
  change fs.dirLba = fs.bitmapLba + fs.bitmapSectors at second
  rw [flushDirEntry_some done] at honoured ⊢
  obtain ⟨stored, others⟩ := content_write_sector
    (length_slice (dirSector_fits fs.dir (dirSector_lt i))) honoured
  refine ⟨?_, synced.bitmap.frame fun x _ _ => ?_, ?_⟩
  · exact (others _ (by dsimp only [devWrite]; omega)).trans synced.super
  · exact others x (by omega)
  · exact (synced.dir.flush stored others).mono fun s _ both => both.2 both.1

theorem flushBitmapLoop_synced : ∀ {left s : Nat} {fs fs' : Rpfs (Recorder D)} {bits : Nat → Prop},
    fs.WellFormed → SyncedBut fs bits entries → fs.flushBitmapLoop left s = some fs' →
      WritesHonoured fs.dev fs'.dev →
        SyncedBut fs' (fun k => bits k ∧ ¬(s ≤ k ∧ k < s + left)) entries
  | 0, s, fs, _, bits, _, synced, done, _ => by
      cases done
      exact synced.mono (fun k _ stale => ⟨stale, by omega⟩) fun _ => id
  | left + 1, s, fs, fs', bits, wf, synced, done, honoured => by
      have first := wf.bitmapLba_eq
      have second := wf.dirLba_eq
      have length := wf.bitmapLength_eq
      change fs.bitmapLba = fs.base + 1 at first
      change fs.dirLba = fs.bitmapLba + fs.bitmapSectors at second
      change fs.bitmap.length = fs.bitmapSectors * sector at length
      rw [flushBitmapLoop] at done
      split at done
      · rename_i beyond
        cases done
        rw [length] at beyond
        refine synced.mono (fun k inside stale => ⟨stale, fun both => ?_⟩) fun _ => id
        have fits := sector_fits_of_lt (Nat.lt_of_le_of_lt both.1 inside)
        omega
      · simp only [Option.bind_eq_bind, Option.bind_eq_some_iff] at done
        obtain ⟨buf, read, lba, sum, rest⟩ := done
        obtain ⟨fits, rfl⟩ := slice?_eq_some.mp read
        obtain ⟨-, rfl⟩ := addU64_eq_some.mp sum
        have below := lt_of_sector_fits (length ▸ fits)
        have issued : Issues (fun _ _ => True) fs.dev
            (fs.devWrite (fs.bitmapLba + s) 1 (slice fs.bitmap (s * sector) sector)).2.dev :=
          Issues.of_write (by rw [length_slice fits, Nat.one_mul]) trivial
        obtain ⟨now, later⟩ := honoured.split issued
          (flushBitmapLoop_spec wf (shape_devWrite _ _ _ _) rest).issued
        obtain ⟨stored, others⟩ := content_write_sector (length_slice fits) now
        have current : SyncedBut (fs.devWrite (fs.bitmapLba + s) 1
            (slice fs.bitmap (s * sector) sector)).2 (fun k => bits k ∧ k ≠ s) entries := by
          refine ⟨?_, synced.bitmap.flush stored others, synced.dir.frame fun x _ _ => ?_⟩
          · exact (others _ (by dsimp only [devWrite]; omega)).trans synced.super
          · exact others x (by omega)
        have wf' : (fs.devWrite (fs.bitmapLba + s) 1
            (slice fs.bitmap (s * sector) sector)).2.WellFormed := wf
        refine (flushBitmapLoop_synced wf' current rest later).mono (fun k _ stale => ?_) fun _ => id
        obtain ⟨⟨old, elsewhere⟩, outside⟩ := stale
        exact ⟨old, by omega⟩

/-- **Flushing a range of the bitmap** writes the sectors that hold its bits. -/
theorem flushBitmapRange_synced {start n : Nat} (wf : fs.WellFormed)
    (synced : SyncedBut fs (Touched start n) entries)
    (done : fs.flushBitmapRange start n = some fs') (honoured : WritesHonoured fs.dev fs'.dev) :
    SyncedBut fs' Nowhere entries := by
  simp only [flushBitmapRange, Option.bind_eq_bind, Option.bind_eq_some_iff] at done
  obtain ⟨stop, sum, loop⟩ := done
  obtain ⟨-, rfl⟩ := addU32_eq_some.mp sum
  refine (flushBitmapLoop_synced wf synced loop honoured).mono (fun k _ stale => ?_) fun _ => id
  obtain ⟨⟨b, low, high, rfl⟩, outside⟩ := stale
  refine outside ⟨?_, ?_⟩
  · exact Nat.div_le_div_right (Nat.div_le_div_right low)
  · have above : b / 8 / sector ≤ (start + n - 1) / 8 / sector :=
      Nat.div_le_div_right (Nat.div_le_div_right (by omega))
    have below : start / 8 / sector ≤ b / 8 / sector :=
      Nat.div_le_div_right (Nat.div_le_div_right low)
    omega

/-- Putting an entry and flushing its sector. -/
theorem putEntry_synced {i : Fin dirEntries} {name : List UInt8} {kind : UInt8} {trit : Int8}
    {start size nblocks : Nat} (wf : fs.WellFormed) (synced : SyncedBut fs bits Nowhere)
    (done : fs.putEntry i name kind trit start size nblocks = some fs')
    (honoured : WritesHonoured fs.dev fs'.dev) : SyncedBut fs' bits Nowhere := by
  have changed : SyncedBut (fs.setEntry i name kind trit start size nblocks) bits
      (· = dirSector i) :=
    synced.setDir fun s elsewhere => fs.dir.slice_setEntry elsewhere _ _ _ _ _ _
  have wf' : (fs.setEntry i name kind trit start size nblocks).WellFormed := wf
  exact flushDirEntry_synced wf' changed done honoured

theorem ensureParents_synced {name : List UInt8} (wf : fs.WellFormed)
    (synced : SyncedBut fs bits Nowhere) (done : fs.ensureParents name = some fs')
    (honoured : WritesHonoured fs.dev fs'.dev) : SyncedBut fs' bits Nowhere := by
  refine (ensureParents_induct (P := fun mid => mid.shape = fs.shape ∧
    Issues (fun _ _ => True) fs.dev mid.dev ∧
      (WritesHonoured fs.dev mid.dev → SyncedBut mid bits Nowhere)) ?_
    ⟨rfl, Issues.refl _, fun _ => synced⟩ done).2.2 honoured
  rintro mid mid' ⟨same, issued, synced⟩ ⟨p, slot, -, -, -, put⟩
  have step := putEntry_spec same wf put
  refine ⟨step.shape_eq, issued.trans step.issued.any, fun honoured => ?_⟩
  obtain ⟨early, late⟩ := honoured.split issued step.issued
  exact putEntry_synced (show Shape.WellFormed _ from same ▸ wf) (synced early) put late

/-! ## Operations -/

/-- Releasing an extent and flushing its bits. -/
theorem release_synced {bitmap : List UInt8} {start n : Nat} (wf : fs.WellFormed)
    (synced : Synced fs) (freed : freeRun fs.totalBlocks fs.bitmap start n = some bitmap)
    (flushed : flushBitmapRange { fs with bitmap } start n = some fs')
    (honoured : WritesHonoured fs.dev fs'.dev) : Synced fs' := by
  have filled := freeRun_filled freed
  have wf' : ({ fs with bitmap } : Rpfs (Recorder D)).WellFormed :=
    show Shape.WellFormed _ from (shape_bitmap fs filled.length_eq).symm ▸ wf
  exact flushBitmapRange_synced wf' (synced.setBitmap filled fun b _ _ => by omega) flushed honoured

theorem Slotted.synced {name : List UInt8} {slot : Fin dirEntries} {fs₁ : Rpfs (Recorder D)}
    (slotted : fs.Slotted name slot fs₁) (wf : fs.WellFormed) (synced : Synced fs)
    (honoured : WritesHonoured fs.dev fs₁.dev) : Synced fs₁ := by
  cases slotted with
  | overwrite _ _ freed flushed => exact release_synced wf synced freed flushed honoured
  | fresh => exact synced

/-- Marking an entry deleted and flushing its sector. -/
theorem tombstone_synced {i : Fin dirEntries} (wf : fs.WellFormed) (synced : Synced fs)
    (done : flushDirEntry { fs with dir := fs.dir.tombstone i } i = some fs')
    (honoured : WritesHonoured fs.dev fs'.dev) : Synced fs' := by
  have wf' : ({ fs with dir := fs.dir.tombstone i } : Rpfs (Recorder D)).WellFormed := wf
  exact flushDirEntry_synced wf' (synced.setDir fun s => fs.dir.slice_tombstone) done honoured

/-- A write flushes all it changes. -/
theorem writeFile_synced {name data : List UInt8} {ok : Bool} (wf : fs.WellFormed)
    (synced : Synced fs) (done : fs.writeFile name data = some (ok, fs'))
    (honoured : WritesHonoured fs.dev fs'.dev) : Synced fs' := by
  cases writeFile_steps done with
  | refused => exact synced
  | @noSpace slot fs₁ _ _ slotted _ put =>
      obtain ⟨-, first⟩ := slotted.spec rfl wf
      have wf₁ : fs₁.WellFormed := show Shape.WellFormed _ from first.shape_eq ▸ wf
      obtain ⟨early, late⟩ := honoured.split first.issued (putEntry_spec rfl wf₁ put).issued
      exact putEntry_synced wf₁ (slotted.synced wf synced early) put late
  | @failed slot fs₁ _ start bitmap _ slotted _ _ taken loop =>
      obtain ⟨-, first⟩ := slotted.spec rfl wf
      obtain ⟨q, member, isWrite, -, refused⟩ := writeData_refused loop
      have second := (writeData_spec rfl loop).issued
      have granted := honoured q (first.issued.any.since_left second.any member) isWrite
      exact absurd (refused.symm.trans granted) Bool.false_ne_true
  | @stored slot fs₁ fs₂ fs₃ fs₄ _ start bitmap _ slotted _ _ taken loop parents flushed entry =>
      obtain ⟨-, first⟩ := slotted.spec rfl wf
      have marked := (shape_bitmap fs₁ taken.length_eq).trans first.shape_eq
      have second := writeData_spec marked loop
      obtain ⟨dir, -, third⟩ := ensureParents_spec second.shape_eq wf parents
      have fourth := flushBitmapRange_spec (shape_setEntry.trans third.shape_eq) wf flushed
      have fifth := flushDirEntry_spec fourth.shape_eq wf entry
      obtain ⟨honoured₁, rest⟩ := honoured.split first.issued
        (second.issued.any.trans (third.issued.any.trans (fourth.issued.any.trans fifth.issued.any)))
      obtain ⟨-, rest⟩ := rest.split second.issued
        (third.issued.any.trans (fourth.issued.any.trans fifth.issued.any))
      obtain ⟨honoured₃, rest⟩ := rest.split third.issued (fourth.issued.any.trans fifth.issued.any)
      obtain ⟨honoured₄, honoured₅⟩ := rest.split fourth.issued fifth.issued
      have current₁ := slotted.synced wf synced honoured₁
      have current₂ : SyncedBut fs₂ (Touched start (blocksFor data.length)) Nowhere :=
        (current₁.setBitmap taken fun b low high => ⟨low, high⟩).frame marked wf second
          fun lba count within => Nat.le_trans (Nat.le_add_right _ _) within.1
      have wf₂ : fs₂.WellFormed := show Shape.WellFormed _ from second.shape_eq ▸ wf
      have wf₃ : (fs₃.setEntry slot name kFile 1 start data.length
          (blocksFor data.length)).WellFormed := show Shape.WellFormed _ from third.shape_eq ▸ wf
      have wf₄ : fs₄.WellFormed := show Shape.WellFormed _ from fourth.shape_eq ▸ wf
      have current₃ := ensureParents_synced wf₂ current₂ parents honoured₃
      have current₄ := flushBitmapRange_synced wf₃
        (current₃.setDir fun s elsewhere => fs₃.dir.slice_setEntry elsewhere _ _ _ _ _ _) flushed
        honoured₄
      exact flushDirEntry_synced wf₄ current₄ entry honoured₅

/-- **Every operation flushes all it changes.** -/
theorem apply_synced {op : Op} {ok : Bool} (wf : fs.WellFormed) (synced : Synced fs)
    (done : fs.apply op = some (ok, fs')) (honoured : WritesHonoured fs.dev fs'.dev) :
    Synced fs' := by
  cases op with
  | write name data => exact writeFile_synced wf synced done honoured
  | delete name =>
      cases deleteFile_steps done with
      | refused => exact synced
      | dir _ _ _ entry => exact tombstone_synced wf synced entry honoured
      | @file slot fs₁ _ bitmap _ _ freed flushed entry =>
          have first := flushBitmapRange_spec
            (shape_bitmap fs (freeRun_filled freed).length_eq) wf flushed
          have second := flushDirEntry_spec (shape_dir.trans first.shape_eq) wf entry
          obtain ⟨early, late⟩ := honoured.split first.issued second.issued
          have wf₁ : fs₁.WellFormed := show Shape.WellFormed _ from first.shape_eq ▸ wf
          exact tombstone_synced wf₁ (release_synced wf synced freed flushed early) entry late
  | mkdir name =>
      cases mkdir_steps done with
      | refused => exact synced
      | there _ _ parents _ => exact ensureParents_synced wf synced parents honoured
      | full _ _ parents _ _ => exact ensureParents_synced wf synced parents honoured
      | @made slot fs₁ _ _ _ parents _ _ put =>
          obtain ⟨dir, -, first⟩ := ensureParents_spec rfl wf parents
          have wf₁ : fs₁.WellFormed := show Shape.WellFormed _ from first.shape_eq ▸ wf
          obtain ⟨early, late⟩ := honoured.split first.issued (putEntry_spec rfl wf₁ put).issued
          exact putEntry_synced wf₁ (ensureParents_synced wf synced parents early) put late
  | read name out =>
      obtain ⟨r, out', read⟩ := apply_read done
      exact synced.frame rfl wf (readFile_spec read) fun _ _ impossible => impossible.elim

/-! ## Formatting -/

/-- Flushing all of a buffer in chunks puts it on the device. -/
theorem flushChunks_content {bytes : List UInt8} {lba total : Nat} :
    ∀ {fs fs' : Rpfs (Recorder D)} {done : Nat}, fs.flushChunks bytes lba total done = some fs' →
      WritesHonoured fs.dev fs'.dev → ∀ s, done ≤ s → s < total →
        LawfulBlockDev.content fs'.dev (lba + s) = slice bytes (s * sector) sector := by
  intro fs fs' done flushed honoured
  induction left : total - done using Nat.strongRecOn generalizing fs done with
  | ind left ih =>
      subst left
      intro s low high
      rw [flushChunks, if_pos (by omega)] at flushed
      simp only [Option.bind_eq_some_iff] at flushed
      obtain ⟨buf, window, place, sum, rest⟩ := flushed
      obtain ⟨fits, rfl⟩ := slice?_eq_some.mp window
      obtain ⟨-, rfl⟩ := addU64_eq_some.mp sum
      generalize count : min (total - done) 64 = n at *
      have size : (slice bytes (done * sector) (n * sector)).length = n * sector := length_slice fits
      have issued : Issues (fun _ _ => True) fs.dev
          (fs.devWrite (lba + done) n (slice bytes (done * sector) (n * sector))).2.dev :=
        Issues.of_write size trivial
      have later := flushChunks_spec rfl rest
      obtain ⟨now, honoured'⟩ := honoured.split issued later.issued
      by_cases behind : done + n ≤ s
      · exact ih _ (by omega) rest honoured' rfl s behind high
      · have kept : LawfulBlockDev.content fs'.dev (lba + s) = LawfulBlockDev.content
            (fs.devWrite (lba + done) n (slice bytes (done * sector) (n * sector))).2.dev (lba + s) :=
          later.issued.content_eq fun lba' count' within => Or.inl (by
            have := within.1
            omega)
        have stored := LawfulBlockDev.write_honoured fs.dev (lba + done) n _ size (honoured_write now)
        have whole := LawfulBlockDev.content_length
          (fs.devWrite (lba + done) n (slice bytes (done * sector) (n * sector))).2.dev
        have cut : slice (extent _ (lba + done) n) ((s - done) * sector) sector = _ :=
          slice_extent whole (by omega)
        have place : lba + done + (s - done) = lba + s := by omega
        have offset : done * sector + (s - done) * sector = s * sector := by
          rw [← Nat.add_mul]
          congr 1
          omega
        rw [kept, ← place, ← cut, dev_devWrite, stored,
          slice_slice (sector_fits_of_lt (by omega)), offset]

/-- **A volume is synced when it is formatted.** -/
theorem format_synced (wf : fs.WellFormed) (done : fs.format = some fs')
    (honoured : WritesHonoured fs.dev fs'.dev) : Synced fs' := by
  obtain ⟨fs₁, fs₂, first, bits, entries⟩ := format_some done
  have bitmapLba := wf.bitmapLba_eq
  have dirLba := wf.dirLba_eq
  change fs.bitmapLba = fs.base + 1 at bitmapLba
  change fs.dirLba = fs.bitmapLba + fs.bitmapSectors at dirLba
  have same₁ : fs₁.shape = fs.shape := by
    rw [first]
    exact shape_bitmap fs List.length_replicate
  have issued : Issues (fun _ _ => True) fs.dev fs₁.dev := by
    rw [first]
    exact Issues.of_write (length_superSector _ _) trivial
  have second := flushChunks_spec same₁ bits
  have third := flushChunks_spec second.shape_eq entries
  have base₁ : fs₁.bitmapLba = fs.bitmapLba := congrArg Shape.bitmapLba same₁
  have sectors₁ : fs₁.bitmapSectors = fs.bitmapSectors := congrArg Shape.bitmapSectors same₁
  have base₂ : fs₂.dirLba = fs.dirLba := congrArg Shape.dirLba second.shape_eq
  obtain ⟨honoured₁, rest⟩ := honoured.split issued (second.issued.any.trans third.issued.any)
  obtain ⟨honoured₂, honoured₃⟩ := rest.split second.issued third.issued
  have kept₂ : ∀ x, x < fs.bitmapLba →
      LawfulBlockDev.content fs₂.dev x = LawfulBlockDev.content fs₁.dev x := fun x below =>
    second.issued.content_eq fun lba count within => Or.inl (by
      have := within.1
      omega)
  have kept₃ : ∀ x, x < fs.dirLba →
      LawfulBlockDev.content fs'.dev x = LawfulBlockDev.content fs₂.dev x := fun x below =>
    third.issued.content_eq fun lba count within => Or.inl (by
      have := within.1
      omega)
  have super : LawfulBlockDev.content fs₁.dev fs.base =
      superSector fs.totalBlocks fs.bitmapSectors := by
    rw [first] at honoured₁ ⊢
    exact (content_write_sector (length_superSector _ _) honoured₁).1
  have same := third.shape_eq
  have base₃ : fs'.base = fs.base := congrArg Shape.base same
  have total₃ : fs'.totalBlocks = fs.totalBlocks := congrArg Shape.totalBlocks same
  have sectors₃ : fs'.bitmapSectors = fs.bitmapSectors := congrArg Shape.bitmapSectors same
  have bitmapLba₃ : fs'.bitmapLba = fs.bitmapLba := congrArg Shape.bitmapLba same
  have dirLba₃ : fs'.dirLba = fs.dirLba := congrArg Shape.dirLba same
  refine ⟨?_, fun s inside _ => ?_, fun s inside _ => ?_⟩
  · rw [base₃, total₃, sectors₃, kept₃ _ (by omega), kept₂ _ (by omega), super]
  · rw [sectors₃] at inside
    rw [bitmapLba₃, kept₃ _ (by omega), ← base₁,
      flushChunks_content bits honoured₂ s (Nat.zero_le s) (by omega), third.bitmap_eq,
      second.bitmap_eq]
  · rw [dirLba₃, ← base₂, flushChunks_content entries honoured₃ s (Nat.zero_le s) inside,
      third.dir_eq]

/-- **The device holds the metadata of every state it honoured the writes of.** -/
theorem synced_of_run {dev : Recorder D} {base totalBlocks bitmapSectors : Nat}
    {fs₀ : Rpfs (Recorder D)} {history : List (Op × Bool)}
    (formatted : formatVolume dev base totalBlocks bitmapSectors = some fs₀)
    (run : RunFrom Any fs₀ history fs) (honoured : WritesHonoured dev fs.dev) : Synced fs := by
  simp only [formatVolume, Option.bind_eq_bind, Option.bind_eq_some_iff] at formatted
  obtain ⟨laid, laidOut, fs₁, formatted, result⟩ := formatted
  cases result
  have wf := layout_wellFormed laidOut
  have first := format_spec wf formatted
  have start : laid.dev = dev := by
    obtain ⟨-, rfl⟩ := layout_some laidOut
    rfl
  have wf₁ : ({ fs₁ with ready := true } : Rpfs (Recorder D)).WellFormed := by
    have wf₁ : fs₁.WellFormed := show Shape.WellFormed _ from first.shape_eq ▸ wf
    exact ⟨wf₁.bitmapLba_eq, wf₁.dirLba_eq, wf₁.dataLba_eq, wf₁.bitmapLength_eq,
      wf₁.scratchLength_eq⟩
  have issued : Issues (fun _ _ => True) dev fs₁.dev := start ▸ first.issued.any
  refine (run.invariant (P := fun fs => fs.WellFormed ∧ Issues (fun _ _ => True) dev fs.dev ∧
    (WritesHonoured dev fs.dev → Synced fs)) ⟨wf₁, issued, fun honoured => ?_⟩ ?_).2.2 honoured
  · have synced := format_synced wf formatted (start.symm ▸ honoured)
    exact ⟨synced.super, synced.bitmap, synced.dir⟩
  · rintro fs op ok fs' ⟨wf, issued, synced⟩ - done
    have step := apply_bounded wf done
    refine ⟨show Shape.WellFormed _ from step.shape_eq.symm ▸ wf, issued.trans step.issued.any,
      fun honoured => ?_⟩
    obtain ⟨early, late⟩ := honoured.split issued step.issued
    exact apply_synced wf (synced early) done late

end Sync

end RustyPenguin.Rpfs
