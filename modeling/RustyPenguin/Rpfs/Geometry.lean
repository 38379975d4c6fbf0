import RustyPenguin.Foundation.Extents
import RustyPenguin.Rpfs.Progress

/-!
# The areas of a volume

The superblock, the bitmap, the directory and the data blocks lie one behind the other. The number
of blocks and the size of the bitmap that describes them come from one division, and the rounding
of the two never takes more than there is, so the loop that would correct it never runs.

The areas are inside the disk from the size on that leaves one sector to the bitmap. A bitmap of
more than 65535 sectors is read back with its count cut to sixteen bits.
-/

set_option autoImplicit false

namespace RustyPenguin.Rpfs

variable {D : Type} [BlockDev D]

theorem dirSectors_eq : dirSectors = 512 := rfl

/-- Sectors in front of what the bitmap and the data share. -/
def frontSectors : Nat := 1 + dirSectors

/-- The 64-bit counts of data blocks and of bitmap sectors that share `avail` sectors. -/
def wideCounts (avail : Nat) : Nat × Nat :=
  let per := sector * 8
  let dataBlocks := avail * per / (per + 1)
  tighten avail per dataBlocks ((dataBlocks + per - 1) / per)

/-- The volume that is made on a device without a superblock. -/
def freshVolume (dev : D) (base disk : UInt64) : Option (Rpfs D) :=
  (geometry base.toNat disk.toNat).bind fun words => formatVolume dev base.toNat words.1 words.2

/-- The areas of the metadata: superblock, bitmap and directory. -/
def metaAreas (fs : Rpfs D) : List Extent :=
  [⟨fs.base, 1⟩, ⟨fs.bitmapLba, fs.bitmapSectors⟩, ⟨fs.dirLba, dirSectors⟩]

/-- The data blocks, one sector each. -/
def dataArea (fs : Rpfs D) : Extent := ⟨fs.dataLba, fs.totalBlocks⟩

/-- What the layout of a volume is for. -/
structure Sound (base disk : UInt64) (fs : Rpfs D) : Prop where
  front : base.toNat + frontSectors ≤ disk.toNat
  blocks : fs.totalBlocks = (wideCounts (disk.toNat - (base.toNat + frontSectors))).1
  sectors : fs.bitmapSectors = max (wideCounts (disk.toNat - (base.toNat + frontSectors))).2 1
  readBack : fs.bitmapSectors % 2 ^ 16 = fs.bitmapSectors
  apart : (fs.metaAreas ++ [fs.dataArea]).Pairwise Extent.Apart
  inside : ∀ area ∈ fs.metaAreas ++ [fs.dataArea],
    base.toNat ≤ area.start ∧ area.stop ≤ disk.toNat
  described : fs.totalBlocks ≤ 8 * fs.bitmap.length
  mapped : ∀ block < fs.totalBlocks, fs.dataLba + block < disk.toNat ∧
    ∀ area ∈ fs.metaAreas, ¬(area.start ≤ fs.dataLba + block ∧ fs.dataLba + block < area.stop)

/-! ## The counts -/

theorem tighten_idle {avail per dataBlocks bitmapSectors : Nat}
    (fits : bitmapSectors + dataBlocks ≤ avail) :
    tighten avail per dataBlocks bitmapSectors = (dataBlocks, bitmapSectors) := by
  cases dataBlocks with
  | zero => rfl
  | succ dataBlocks => exact if_neg (Nat.not_lt.mpr fits)

/-- The division leaves room for the bitmap. -/
theorem wideCounts_eq (avail : Nat) : wideCounts avail =
    (avail * 4096 / 4097, (avail * 4096 / 4097 + 4095) / 4096) := by
  have fits : (avail * 4096 / 4097 + 4096 - 1) / 4096 + avail * 4096 / 4097 ≤ avail := by omega
  exact tighten_idle fits

theorem geometry_some (base disk : Nat) (start : base + frontSectors < 2 ^ 64)
    (fits : (disk - (base + frontSectors)) * 4096 < 2 ^ 64) :
    geometry base disk = some
      ((wideCounts (disk - (base + frontSectors))).1 % 2 ^ 32,
        max (wideCounts (disk - (base + frontSectors))).2 1 % 2 ^ 32) := by
  have sum : addU64 base (1 + dirSectors) = some (base + frontSectors) := addU64_of_lt start
  rw [geometry, sum, Option.bind_eq_bind, Option.bind_some]
  exact if_pos fits

/-- From one sector on, up to what sixteen bits count, the counts fit what there is. -/
theorem wideCounts_fit (avail : Nat) (some : 1 ≤ avail) (few : avail ≤ 65535 * 4097 + 1) :
    (wideCounts avail).1 + max (wideCounts avail).2 1 ≤ avail ∧
      (wideCounts avail).1 ≤ 4096 * max (wideCounts avail).2 1 ∧
      max (wideCounts avail).2 1 < 2 ^ 16 := by
  rw [wideCounts_eq]
  dsimp only
  omega

theorem few_of_narrow {avail : Nat} (narrow : (wideCounts avail).2 < 2 ^ 16) :
    avail ≤ 65535 * 4097 + 1 := by
  rw [wideCounts_eq] at narrow
  dsimp only at narrow
  omega

/-! ## The layout -/

theorem freshVolume_shape {dev : D} {base disk : UInt64} {fs : Rpfs D}
    (made : freshVolume dev base disk = some fs) : ∃ words,
    geometry base.toNat disk.toNat = some words ∧ fs.shape = ⟨base.toNat, words.1, base.toNat + 1,
      words.2, base.toNat + 1 + words.2, base.toNat + 1 + words.2 + dirSectors, words.2 * sector,
      scratchSectors * sector, true⟩ := by
  obtain ⟨words, found, formatted⟩ := Option.bind_eq_some_iff.mp made
  have areas : base.toNat + 1 + words.2 + dirSectors < 2 ^ 64 := by
    simp only [formatVolume, Option.bind_eq_bind, Option.bind_eq_some_iff] at formatted
    obtain ⟨laid, laidOut, -⟩ := formatted
    exact (layout_some laidOut).1
  obtain ⟨fs₁, done, -, shape⟩ := formatVolume_total dev words.1 areas
  obtain rfl := Option.some.inj (formatted.symm.trans done)
  exact ⟨words, found, shape⟩

omit [BlockDev D] in
/-- Areas one behind the other up to the end of the disk are what a layout is for. -/
theorem sound_of_shape {base disk : UInt64} {fs : Rpfs D} {blocks sectors : Nat}
    (shape : fs.shape = ⟨base.toNat, blocks, base.toNat + 1, max sectors 1,
      base.toNat + 1 + max sectors 1, base.toNat + 1 + max sectors 1 + dirSectors,
      max sectors 1 * sector, scratchSectors * sector, true⟩)
    (counts : wideCounts (disk.toNat - (base.toNat + frontSectors)) = (blocks, sectors))
    (front : base.toNat + frontSectors ≤ disk.toNat)
    (share : blocks + max sectors 1 ≤ disk.toNat - (base.toNat + frontSectors))
    (bits : blocks ≤ 4096 * max sectors 1) (narrow : max sectors 1 < 2 ^ 16) :
    Sound base disk fs := by
  have start : fs.base = base.toNat := congrArg Shape.base shape
  have total : fs.totalBlocks = blocks := congrArg Shape.totalBlocks shape
  have bitmap : fs.bitmapLba = base.toNat + 1 := congrArg Shape.bitmapLba shape
  have count : fs.bitmapSectors = max sectors 1 := congrArg Shape.bitmapSectors shape
  have dir : fs.dirLba = base.toNat + 1 + max sectors 1 := congrArg Shape.dirLba shape
  have data : fs.dataLba = base.toNat + 1 + max sectors 1 + dirSectors :=
    congrArg Shape.dataLba shape
  have length : fs.bitmap.length = max sectors 1 * sector := congrArg Shape.bitmapLength shape
  have tables : fs.metaAreas = [⟨base.toNat, 1⟩, ⟨base.toNat + 1, max sectors 1⟩,
      ⟨base.toNat + 1 + max sectors 1, dirSectors⟩] := by
    rw [metaAreas, start, bitmap, count, dir]
  have behind : fs.dataArea = ⟨base.toNat + 1 + max sectors 1 + dirSectors, blocks⟩ := by
    rw [dataArea, data, total]
  have fixed : frontSectors = 1 + dirSectors := rfl
  refine ⟨front, ?_, ?_, ?_, ?_, ?_, ?_, ?_⟩
  · rw [total, counts]
  · rw [count, counts]
  · rw [count]
    exact Nat.mod_eq_of_lt narrow
  · rw [tables, behind]
    simp only [List.cons_append, List.nil_append, List.pairwise_cons, List.forall_mem_cons,
      Extent.Apart, Extent.stop]
    refine ⟨⟨.inl ?_, .inl ?_, .inl ?_, ?_⟩, ⟨.inl ?_, .inl ?_, ?_⟩, ⟨.inl ?_, ?_⟩, ?_, .nil⟩
    all_goals first | omega | exact fun _ none => absurd none List.not_mem_nil
  · rw [tables, behind]
    simp only [List.cons_append, List.nil_append, List.forall_mem_cons, Extent.stop]
    refine ⟨?_, ?_, ?_, ?_, fun _ none => absurd none List.not_mem_nil⟩
    all_goals omega
  · rw [total, length, sector]
    omega
  · intro block isBlock
    rw [total] at isBlock
    rw [data, tables]
    simp only [List.forall_mem_cons, Extent.stop]
    refine ⟨by omega, by omega, by omega, by omega, fun _ none => absurd none List.not_mem_nil⟩

/-- A layout that is sound has room for the bitmap, and its count fits sixteen bits. -/
theorem Sound.bounds {dev : D} {base disk : UInt64} {fs : Rpfs D} (sound : Sound base disk fs)
    (made : freshVolume dev base disk = some fs) :
    base.toNat + 514 ≤ disk.toNat ∧ disk.toNat ≤ base.toNat + 514 + 65535 * 4097 := by
  obtain ⟨words, found, shape⟩ := freshVolume_shape made
  have front := sound.front
  have narrow : max (wideCounts (disk.toNat - (base.toNat + frontSectors))).2 1 < 2 ^ 16 := by
    rw [← sound.sectors, ← sound.readBack]
    exact Nat.mod_lt _ (by decide)
  have few := few_of_narrow (Nat.lt_of_le_of_lt (Nat.le_max_left _ 1) narrow)
  have words₂ : fs.bitmapSectors = words.2 := congrArg Shape.bitmapSectors shape
  have dir : fs.dirLba = base.toNat + 1 + words.2 := congrArg Shape.dirLba shape
  have some : 1 ≤ fs.bitmapSectors := sound.sectors ▸ Nat.le_max_right _ 1
  have last := (sound.inside ⟨fs.dirLba, dirSectors⟩ (by simp [metaAreas])).2
  simp only [Extent.stop, frontSectors, dirSectors_eq] at last front few
  omega

/-- **The layout is sound** exactly for disks with one sector for the bitmap behind the metadata of
fixed size, and with a bitmap of at most 65535 sectors. -/
theorem freshVolume_iff (dev : D) (base disk : UInt64) :
    (∃ fs, freshVolume dev base disk = some fs ∧ Sound base disk fs) ↔
      base.toNat + 514 ≤ disk.toNat ∧ disk.toNat ≤ base.toNat + 514 + 65535 * 4097 := by
  constructor
  · rintro ⟨fs, made, sound⟩
    exact sound.bounds made
  · rintro ⟨enough, few⟩
    have room := UInt64.toNat_lt disk
    have front : frontSectors = 513 := rfl
    obtain ⟨share, bits, narrow⟩ :=
      wideCounts_fit (disk.toNat - (base.toNat + frontSectors)) (by omega) (by omega)
    have found := geometry_some base.toNat disk.toNat (by omega) (by omega)
    generalize counts : wideCounts (disk.toNat - (base.toNat + frontSectors)) = wide at *
    obtain ⟨blocks, sectors⟩ := wide
    have wide₁ : blocks % 2 ^ 32 = blocks := Nat.mod_eq_of_lt (by omega)
    have wide₂ : max sectors 1 % 2 ^ 32 = max sectors 1 := Nat.mod_eq_of_lt (by omega)
    rw [wide₁, wide₂] at found
    have areas : base.toNat + 1 + max sectors 1 + dirSectors < 2 ^ 64 := by
      rw [dirSectors_eq]
      omega
    obtain ⟨fs, made, -, shape⟩ := formatVolume_total dev blocks areas
    refine ⟨fs, ?_, sound_of_shape shape counts (by omega) share bits narrow⟩
    rw [freshVolume, found]
    exact made

/-- A disk of 128 GiB and a little behind sector 8192 has 65536 bitmap sectors, and a mount reads
none of them. -/
theorem large_disk_unsound : ¬∃ fs,
    freshVolume (ScriptedDisk.blank fun _ => true) 8192 268505602 = some fs ∧
      Sound 8192 268505602 fs := by
  rintro ⟨fs, made, sound⟩
  exact absurd (sound.bounds made).2 (by decide)

end RustyPenguin.Rpfs
