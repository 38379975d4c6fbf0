import RustyPenguin.Rpfs.ReadBack
import RustyPenguin.Rpfs.Sync

/-!
# Mounting a volume

Mounting reads the superblock, then the bitmap in one transfer and the directory in
eight. `Mounted` says what comes of it: which requests were made, and that every sector
of the mounted bitmap and directory is the sector on the device if its transfer was
honoured, and zero otherwise (`mountVolume_spec`). The bitmap transfer asks for
`bitmap_sectors as u16` sectors, so of a larger bitmap only that many are read.

When the device holds the metadata of a running volume and honours the transfers, what is
mounted is that volume (`remount_of_run`).
-/

set_option autoImplicit false

namespace RustyPenguin.Rpfs

open Buffer

/-! ## The superblock -/

theorem rdU32_wrU32_self {b : List UInt8} {o : Nat} (fits : o + 4 ≤ b.length) (v : Nat) :
    rdU32 (wrU32 b o v) o = v % 2 ^ 32 := by
  refine rdU32_of_bytes fun k small => ?_
  rw [wrU32, getElem?_blit (by simpa using fits),
    if_pos ⟨Nat.le_add_right _ _, by rw [length_u32Bytes]; omega⟩, Nat.add_sub_cancel_left]

theorem rdU32_wrU32_of_ne {b : List UInt8} {o p : Nat} (fits : o + 4 ≤ b.length) (v : Nat)
    (apart : p + 4 ≤ o ∨ o + 4 ≤ p) : rdU32 (wrU32 b o v) p = rdU32 b p := by
  refine rdU32_congr fun k small => ?_
  rw [wrU32, getElem?_blit (by simpa using fits), if_neg (by rw [length_u32Bytes]; omega)]

/-- The superblock sector reads back as what was put in it. -/
theorem superSector_words (totalBlocks bitmapSectors : Nat) :
    isSuper (superSector totalBlocks bitmapSectors) = true ∧
      rdU32 (superSector totalBlocks bitmapSectors) 12 = totalBlocks % 2 ^ 32 ∧
      rdU32 (superSector totalBlocks bitmapSectors) 16 = bitmapSectors % 2 ^ 32 := by
  simp only [superSector]
  have blank : (List.replicate sector (0 : UInt8)).length = sector := List.length_replicate
  have room : 0 + magic.length ≤ (List.replicate sector (0 : UInt8)).length := by
    rw [blank]
    decide
  have size₀ : (blit (List.replicate sector 0) 0 magic).length = sector :=
    (length_blit room).trans blank
  have size₁ := length_wrU32 size₀ (o := 8) (by decide) version
  have size₂ := length_wrU32 size₁ (o := 12) (by decide) totalBlocks
  have size₃ := length_wrU32 size₂ (o := 16) (by decide) bitmapSectors
  have fits : ∀ {b : List UInt8}, b.length = sector → ∀ {o}, o ≤ 20 → o + 4 ≤ b.length :=
    fun size o low => by
      rw [size]
      simp only [sector]
      omega
  refine ⟨?_, ?_, ?_⟩
  · have front : ∀ {b : List UInt8}, b.length = sector → ∀ {o}, 8 ≤ o → o ≤ 20 → ∀ v,
        slice (wrU32 b o v) 0 8 = slice b 0 8 := fun size o low high v =>
      slice_blit_of_disjoint (by simpa using fits size high) (Or.inl (by omega))
    have named : slice (blit (List.replicate sector 0) 0 magic) 0 8 = magic :=
      slice_blit_self room
    rw [isSuper, Bool.and_eq_true, beq_iff_eq, beq_iff_eq, front size₃ (by omega) (by omega),
      front size₂ (by omega) (by omega), front size₁ (by omega) (by omega),
      front size₀ (by omega) (by omega), named,
      rdU32_wrU32_of_ne (fits size₃ (by omega)) _ (by omega),
      rdU32_wrU32_of_ne (fits size₂ (by omega)) _ (by omega),
      rdU32_wrU32_of_ne (fits size₁ (by omega)) _ (by omega),
      rdU32_wrU32_self (fits size₀ (by omega))]
    exact ⟨rfl, rfl⟩
  · rw [rdU32_wrU32_of_ne (fits size₃ (by omega)) _ (by omega),
      rdU32_wrU32_of_ne (fits size₂ (by omega)) _ (by omega),
      rdU32_wrU32_self (fits size₁ (by omega))]
  · rw [rdU32_wrU32_of_ne (fits size₃ (by omega)) _ (by omega),
      rdU32_wrU32_self (fits size₂ (by omega))]

/-! ## Loading -/

/-- Buffers of whole sectors that agree in every sector are equal. -/
theorem eq_of_sectors {buf buf' : List UInt8} {n : Nat} (size : buf.length = n * sector)
    (size' : buf'.length = n * sector)
    (same : ∀ s < n, slice buf' (s * sector) sector = slice buf (s * sector) sector) :
    buf' = buf := by
  have cut := fun b : List UInt8 => extent_slices (fun s => slice buf (s * sector) sector) b 0 0 n
  have first := cut buf fun k _ => by rw [Nat.zero_add]
  have second := cut buf' fun k inside => by
    rw [Nat.zero_add]
    exact (same k inside).symm
  rw [Nat.zero_mul, ← size, slice_zero_length] at first
  rw [Nat.zero_mul, ← size', slice_zero_length] at second
  exact second.symm.trans first

section Mount

variable {D : Type} [LawfulBlockDev D] {fs fs' : Rpfs (Recorder D)}

/-- **A transfer of `n` sectors** into the sectors of a buffer from `done` on brings each of them
up to date, if it is honoured, and otherwise leaves the buffer. -/
theorem slice_transfer {dev : Recorder D} {lba done n s : Nat} {buf : List UInt8}
    (fits : done * sector + n * sector ≤ buf.length) :
    slice (blit buf (done * sector)
        (BlockDev.read dev lba n (slice buf (done * sector) (n * sector))).2.1) (s * sector) sector =
      if (done ≤ s ∧ s < done + n) ∧
          (BlockDev.read dev lba n (slice buf (done * sector) (n * sector))).1 = true then
        LawfulBlockDev.content dev (lba + (s - done))
      else slice buf (s * sector) sector := by
  have whole := LawfulBlockDev.content_length dev
  have size : (slice buf (done * sector) (n * sector)).length = n * sector := length_slice fits
  have length := (BlockDev.read_length dev lba n (slice buf (done * sector) (n * sector))).trans size
  by_cases inside : done ≤ s ∧ s < done + n
  · have offset : done * sector + (s - done) * sector = s * sector := by
      rw [← Nat.add_mul]
      congr 1
      omega
    have within : (s - done) * sector + sector ≤ n * sector := sector_fits_of_lt (by omega)
    rw [← offset, slice_blit_inside (by omega) (by omega)]
    split
    · rename_i served
      rw [LawfulBlockDev.read_honoured dev lba n _ (Nat.le_of_eq size.symm) served.2,
        blit_whole ((length_extent whole _ _).trans size.symm), slice_extent whole (by omega)]
    · rename_i refused
      have answer := LawfulBlockDev.read_refused dev lba n (slice buf (done * sector) (n * sector))
        (Bool.eq_false_iff.mpr fun served => refused ⟨inside, served⟩)
      rw [answer, slice_slice within]
  · rw [if_neg fun both => inside both.1]
    refine slice_blit_of_disjoint (by omega) ?_
    rw [length]
    simp only [sector] at inside ⊢
    omega

/-- Reads alone leave the contents. -/
theorem content_of_reads {dev dev' : Recorder D} (reads : Issues (fun _ _ => False) dev dev') :
    LawfulBlockDev.content dev' = LawfulBlockDev.content dev :=
  funext fun _ => reads.content_eq fun _ _ impossible => impossible.elim

/-- **One directory transfer** of 64 sectors: the request made, and what each sector of the
directory is afterwards. -/
theorem readChunk_spec (dir : Directory) (dev : Recorder D) (lba : Nat) {k : Nat}
    (more : k * 64 < dirSectors) : ∃ served : Bool,
      Issues (fun _ _ => False) dev (readChunk dir dev lba (k * 64) more).2 ∧
      (readChunk dir dev lba (k * 64) more).2.log = dev.log ++ [⟨false, lba, 64, served⟩] ∧
      ∀ s, slice (readChunk dir dev lba (k * 64) more).1.bytes (s * sector) sector =
        if s / 64 = k ∧ served = true then LawfulBlockDev.content dev (lba + (s - k * 64))
        else slice dir.bytes (s * sector) sector := by
  have width : min (dirSectors - k * 64) 64 = 64 := by
    have size : dirSectors = 512 := rfl
    omega
  have fits := dirChunk_fits more
  rw [← dir.length_eq, width] at fits
  refine ⟨(BlockDev.read dev lba 64 (slice dir.bytes (k * 64 * sector) (64 * sector))).1, ?_, ?_,
    fun s => ?_⟩
  · exact Issues.of_read dev lba _ _
  · change (BlockDev.read dev lba (min (dirSectors - k * 64) 64) (slice dir.bytes (k * 64 * sector)
      (min (dirSectors - k * 64) 64 * sector))).2.2.log = _
    rw [width]
    rfl
  · change slice (blit dir.bytes (k * 64 * sector) (BlockDev.read dev lba
      (min (dirSectors - k * 64) 64) (slice dir.bytes (k * 64 * sector)
        (min (dirSectors - k * 64) 64 * sector))).2.1) (s * sector) sector = _
    rw [width, slice_transfer fits]
    have inside : (k * 64 ≤ s ∧ s < k * 64 + 64) ↔ s / 64 = k := by omega
    simp only [inside]

/-- **Loading the directory** from transfer `k` on: what was requested, and what each sector of
the directory is afterwards. -/
theorem loadDirChunks_spec : ∀ {left k : Nat} {fs fs' : Rpfs (Recorder D)}, left + k = 8 →
    fs.loadDirChunks (k * 64) = some fs' → ∃ chunks : Nat → Bool,
      fs'.shape = fs.shape ∧ fs'.bitmap = fs.bitmap ∧ Issues (fun _ _ => False) fs.dev fs'.dev ∧
      fs'.dev.log = fs.dev.log ++ (List.range' k left).map
        (fun j => ⟨false, fs.dirLba + j * 64, 64, chunks j⟩) ∧
      ∀ s < dirSectors, slice fs'.dir.bytes (s * sector) sector =
        if k * 64 ≤ s ∧ chunks (s / 64) = true then
          LawfulBlockDev.content fs.dev (fs.dirLba + s)
        else slice fs.dir.bytes (s * sector) sector
  | 0, k, fs, fs', count, done => by
      have size : dirSectors = 512 := rfl
      rw [loadDirChunks, dif_neg (by omega)] at done
      cases done
      refine ⟨fun _ => false, rfl, rfl, Issues.refl _, by simp, fun s inside => ?_⟩
      rw [if_neg (by omega)]
  | left + 1, k, fs, fs', count, done => by
      have size : dirSectors = 512 := rfl
      have more : k * 64 < dirSectors := by omega
      have width : min (dirSectors - k * 64) 64 = 64 := by omega
      rw [loadDirChunks, dif_pos more] at done
      obtain ⟨lba, sum, rest⟩ := Option.bind_eq_some_iff.mp done
      obtain ⟨-, rfl⟩ := addU64_eq_some.mp sum
      obtain ⟨served, issued, log, transfer⟩ :=
        readChunk_spec fs.dir fs.dev (fs.dirLba + k * 64) more
      dsimp only at rest
      rw [width, ← Nat.succ_mul] at rest
      generalize readChunk fs.dir fs.dev (fs.dirLba + k * 64) (k * 64) more = answer at *
      obtain ⟨chunks, shape, bitmap, issued', log', dir⟩ :=
        loadDirChunks_spec (show left + (k + 1) = 8 by omega) rest
      refine ⟨fun j => if j = k then served else chunks j, shape, bitmap, issued.trans issued',
        ?_, fun s inside => ?_⟩
      · rw [log', log, List.append_assoc, List.range'_succ, List.map_cons]
        dsimp only
        rw [if_pos rfl, List.singleton_append]
        congr 2
        refine List.map_congr_left fun j member => ?_
        rw [List.mem_range'_1] at member
        rw [if_neg (by omega)]
      · rw [dir s inside, transfer]
        dsimp only
        rw [content_of_reads issued]
        by_cases here : s / 64 = k
        · have place : fs.dirLba + k * 64 + (s - k * 64) = fs.dirLba + s := by omega
          have low : k * 64 ≤ s := by omega
          rw [if_neg (show ¬((k + 1) * 64 ≤ s ∧ chunks (s / 64) = true) by omega), place]
          simp only [here, low, true_and, if_true]
        · have low : (k + 1) * 64 ≤ s ↔ k * 64 ≤ s := by omega
          simp only [here, low, false_and, if_false]

/-- **What mounting gives**: the shape the superblock words say, a log of one bitmap transfer and
eight of the directory with their outcomes, and sectors as on the device where the transfer was
honoured, zero elsewhere. -/
structure Mounted (dev : Recorder D) (base totalBlocks bitmapSectors : Nat) (bits : Bool)
    (chunks : Nat → Bool) (fs : Rpfs (Recorder D)) : Prop where
  shape_eq : fs.shape = ⟨base, totalBlocks, base + 1, bitmapSectors, base + 1 + bitmapSectors,
    base + 1 + bitmapSectors + dirSectors, bitmapSectors * sector, scratchSectors * sector, true⟩
  log_eq : fs.dev.log = dev.log ++ ⟨false, base + 1, bitmapSectors % 2 ^ 16, bits⟩ ::
    (List.range' 0 8).map fun j => ⟨false, base + 1 + bitmapSectors + j * 64, 64, chunks j⟩
  issued : Issues (fun _ _ => False) dev fs.dev
  bitmap : ∀ s < bitmapSectors, slice fs.bitmap (s * sector) sector =
    if s < bitmapSectors % 2 ^ 16 ∧ bits = true then LawfulBlockDev.content dev (base + 1 + s)
    else List.replicate sector 0
  dir : ∀ s < dirSectors, slice fs.dir.bytes (s * sector) sector =
    if chunks (s / 64) = true then LawfulBlockDev.content dev (base + 1 + bitmapSectors + s)
    else List.replicate sector 0

theorem Mounted.wellFormed {dev : Recorder D} {base totalBlocks bitmapSectors : Nat} {bits : Bool}
    {chunks : Nat → Bool} (mounted : Mounted dev base totalBlocks bitmapSectors bits chunks fs) :
    fs.WellFormed := by
  rw [WellFormed, mounted.shape_eq]
  exact ⟨rfl, rfl, rfl, rfl, rfl⟩

/-- **The bitmap transfer** fills the front of a zeroed buffer, or leaves it zero. -/
theorem slice_bitmap_transfer {dev : Recorder D} {lba n m s : Nat} (fits : n ≤ m) (inside : s < m) :
    slice (BlockDev.read dev lba n (List.replicate (m * sector) 0)).2.1 (s * sector) sector =
      if s < n ∧ (BlockDev.read dev lba n (List.replicate (m * sector) 0)).1 = true then
        LawfulBlockDev.content dev (lba + s)
      else List.replicate sector 0 := by
  have whole := LawfulBlockDev.content_length dev
  have room := sector_fits_of_lt inside
  have size : n * sector ≤ (List.replicate (m * sector) (0 : UInt8)).length := by
    rw [List.length_replicate]
    exact Nat.mul_le_mul_right _ fits
  have zero : slice (List.replicate (m * sector) (0 : UInt8)) (s * sector) sector =
      List.replicate sector 0 := slice_replicate room
  cases served : (BlockDev.read dev lba n (List.replicate (m * sector) 0)).1 with
  | false =>
      rw [LawfulBlockDev.read_refused dev lba n _ served, zero, if_neg (fun both => by cases both.2)]
  | true =>
      have length := length_extent whole lba n
      have fill : 0 + (extent (LawfulBlockDev.content dev) lba n).length ≤
          (List.replicate (m * sector) (0 : UInt8)).length := by omega
      rw [LawfulBlockDev.read_honoured dev lba n _ size served]
      by_cases early : s < n
      · have within : s * sector + sector ≤ (extent (LawfulBlockDev.content dev) lba n).length := by
          rw [length]
          exact sector_fits_of_lt early
        have window := slice_blit_inside fill within
        rw [Nat.zero_add] at window
        rw [window, slice_extent whole early, if_pos ⟨early, rfl⟩]
      · rw [if_neg fun both => early both.1, ← zero]
        refine slice_blit_of_disjoint fill (Or.inr ?_)
        rw [length, Nat.zero_add]
        exact Nat.mul_le_mul_right _ (by omega)

/-- **Mounting does what `Mounted` says.** -/
theorem mountVolume_spec {dev : Recorder D} {base : Nat} {sb : List UInt8}
    (done : mountVolume dev base sb = some fs) :
    ∃ bits chunks, Mounted dev base (rdU32 sb 12) (rdU32 sb 16) bits chunks fs := by
  simp only [mountVolume, Option.bind_eq_bind, Option.bind_eq_some_iff] at done
  obtain ⟨laid, laidOut, fs₁, loaded, result⟩ := done
  cases result
  obtain ⟨-, rfl⟩ := layout_some laidOut
  generalize rdU32 sb 12 = totalBlocks at *
  generalize rdU32 sb 16 = bitmapSectors at *
  dsimp only at loaded
  obtain ⟨chunks, shape, bitmap, issued, log, dir⟩ :=
    loadDirChunks_spec (show 8 + 0 = 8 from rfl) loaded
  have length := (BlockDev.read_length dev (base + 1) (bitmapSectors % 2 ^ 16)
    (List.replicate (bitmapSectors * sector) 0)).trans List.length_replicate
  refine ⟨(BlockDev.read dev (base + 1) (bitmapSectors % 2 ^ 16)
    (List.replicate (bitmapSectors * sector) 0)).1, chunks, ?_, ?_, ?_, fun s inside => ?_,
    fun s inside => ?_⟩
  · simp only [Rpfs.shape, Shape.mk.injEq] at shape ⊢
    simp only [shape, length, List.length_replicate, and_self]
  · dsimp only
    rw [log, Recorder.log_read, List.append_assoc]
    rfl
  · exact (Issues.of_read dev _ _ _).trans issued
  · dsimp only
    rw [bitmap]
    exact slice_bitmap_transfer (Nat.mod_le _ _) inside
  · dsimp only
    rw [dir s inside, LawfulBlockDev.content_read]
    have blank : slice Directory.zero.bytes (s * sector) sector = List.replicate sector 0 := by
      have room := dirSector_fits Directory.zero inside
      rw [Directory.length_eq] at room
      exact slice_replicate room
    simp only [Nat.zero_mul, Nat.zero_le, true_and, blank]

/-- **Mounting does not fault** when the metadata has 64-bit addresses. -/
theorem loadDirChunks_total : ∀ {left k : Nat} {fs : Rpfs (Recorder D)}, left + k = 8 →
    fs.dirLba + dirSectors < 2 ^ 64 → ∃ fs', fs.loadDirChunks (k * 64) = some fs'
  | 0, k, fs, count, _ => by
      have size : dirSectors = 512 := rfl
      exact ⟨fs, by rw [loadDirChunks, dif_neg (by omega)]⟩
  | left + 1, k, fs, count, areas => by
      have size : dirSectors = 512 := rfl
      have more : k * 64 < dirSectors := by omega
      have width : min (dirSectors - k * 64) 64 = 64 := by omega
      rw [loadDirChunks, dif_pos more]
      refine exists_bind ⟨_, addU64_of_lt (by omega)⟩ fun lba _ => ?_
      dsimp only
      rw [width, ← Nat.succ_mul]
      exact loadDirChunks_total (show left + (k + 1) = 8 by omega) areas

theorem mountVolume_total (dev : Recorder D) {base : Nat} {sb : List UInt8}
    (areas : base + 1 + rdU32 sb 16 + dirSectors < 2 ^ 64) :
    ∃ fs, mountVolume dev base sb = some fs := by
  refine exists_bind (layout_total dev _ areas) fun laid laidOut => ?_
  obtain ⟨-, rfl⟩ := layout_some laidOut
  refine exists_bind ?_ fun fs _ => ⟨_, rfl⟩
  exact loadDirChunks_total (show 8 + 0 = 8 from rfl) areas

/-- The device after the superblock was read. -/
def afterSuper (dev : Recorder D) (base : Nat) : Recorder D :=
  (BlockDev.read dev base 1 (List.replicate sector 0)).2.2

/-- The superblock read was honoured. -/
def SuperServed (dev : Recorder D) (base : Nat) : Prop :=
  (BlockDev.read dev base 1 (List.replicate sector 0)).1 = true

theorem content_afterSuper (dev : Recorder D) (base : Nat) :
    LawfulBlockDev.content (afterSuper dev base) = LawfulBlockDev.content dev :=
  LawfulBlockDev.content_read _ _ _ _

/-- **Opening mounts** when the superblock read is honoured and finds one. -/
theorem openDev_mounts {dev : Recorder D} {base : Nat} (served : SuperServed dev base)
    (super : isSuper (LawfulBlockDev.content dev base) = true) (diskSectors : Nat) :
    openDev dev base diskSectors =
      mountVolume (afterSuper dev base) base (LawfulBlockDev.content dev base) := by
  have whole := LawfulBlockDev.content_length dev base
  have blank : (List.replicate sector (0 : UInt8)).length = sector := List.length_replicate
  have bytes : (BlockDev.read dev base 1 (List.replicate sector 0)).2.1 =
      LawfulBlockDev.content dev base := by
    rw [LawfulBlockDev.read_honoured dev base 1 _ (by rw [blank, Nat.one_mul]) served, extent, extent,
      List.append_nil, blit_whole (whole.trans blank.symm)]
  have found : (readSuper dev base).1 = true := by
    rw [readSuper, bytes, super, Bool.and_true]
    exact served
  have answer : readSuper dev base =
      (true, LawfulBlockDev.content dev base, afterSuper dev base) := by
    refine Prod.ext found (Prod.ext bytes rfl)
  rw [openDev, answer]
  rfl

/-- **Opening formats** when the superblock read is refused. -/
theorem openDev_formats {dev : Recorder D} {base : Nat} (refused : ¬SuperServed dev base)
    (diskSectors : Nat) :
    openDev dev base diskSectors = (geometry base diskSectors).bind fun words =>
      formatVolume (afterSuper dev base) base words.1 words.2 := by
  have missed : (readSuper dev base).1 = false := by
    rw [readSuper, Bool.and_eq_false_iff]
    exact Or.inl (Bool.eq_false_iff.mpr refused)
  have answer : readSuper dev base =
      (false, (readSuper dev base).2.1, afterSuper dev base) := Prod.ext missed rfl
  rw [openDev, answer]
  rfl

/-- Formatting asks the device it is given. -/
theorem formatVolume_issued {dev : Recorder D} {base totalBlocks bitmapSectors : Nat}
    (done : formatVolume dev base totalBlocks bitmapSectors = some fs) :
    Issues (fun _ _ => True) dev fs.dev := by
  simp only [formatVolume, Option.bind_eq_bind, Option.bind_eq_some_iff] at done
  obtain ⟨laid, laidOut, fs₁, formatted, result⟩ := done
  cases result
  have wf := layout_wellFormed laidOut
  obtain ⟨-, rfl⟩ := layout_some laidOut
  exact (format_spec wf formatted).issued.any

/-- So does opening, whichever way it goes. -/
theorem openDev_issued {dev : Recorder D} {base diskSectors : Nat}
    (done : openDev dev base diskSectors = some fs) : Issues (fun _ _ => True) dev fs.dev := by
  have first : Issues (fun _ _ => True) dev (afterSuper dev base) := Issues.of_read dev base 1 _
  rw [openDev] at done
  have read : (readSuper dev base).2.2 = afterSuper dev base := rfl
  generalize readSuper dev base = answer at done read
  obtain ⟨found, sb, dev₁⟩ := answer
  obtain rfl : dev₁ = afterSuper dev base := read
  cases found with
  | true =>
    obtain ⟨bits, chunks, mounted⟩ := mountVolume_spec done
    exact first.trans mounted.issued.any
  | false =>
    simp only [Bool.false_eq_true, if_false, Option.bind_eq_bind, Option.bind_eq_some_iff] at done
    obtain ⟨words, -, formatted⟩ := done
    exact first.trans (formatVolume_issued formatted)

/-! ## Remounting -/

/-- What a mount of honoured transfers has is what the device holds. -/
theorem Mounted.eq_of_synced {dev : Recorder D} {bits : Bool} {chunks : Nat → Bool}
    (wf : fs.WellFormed) (synced : Synced fs)
    (same : LawfulBlockDev.content dev = LawfulBlockDev.content fs.dev)
    (few : fs.bitmapSectors ≤ 65535)
    (mounted : Mounted dev fs.base fs.totalBlocks fs.bitmapSectors bits chunks fs')
    (honoured : HonouredSince dev fs'.dev) : fs'.dir = fs.dir ∧ fs'.bitmap = fs.bitmap := by
  have first := wf.bitmapLba_eq
  have second := wf.dirLba_eq
  change fs.bitmapLba = fs.base + 1 at first
  change fs.dirLba = fs.bitmapLba + fs.bitmapSectors at second
  have recorded : ∀ q ∈ ⟨false, fs.base + 1, fs.bitmapSectors % 2 ^ 16, bits⟩ ::
      (List.range' 0 8).map (fun j =>
        (⟨false, fs.base + 1 + fs.bitmapSectors + j * 64, 64, chunks j⟩ : Request)),
        q.honoured = true := fun q member => honoured q (by
    rw [Recorder.since, mounted.log_eq, List.drop_left]
    exact member)
  have bitsServed : bits = true := recorded _ List.mem_cons_self
  have chunkServed : ∀ j < 8, chunks j = true := fun j small =>
    recorded _ (List.mem_cons_of_mem _ (List.mem_map_of_mem
      (List.mem_range'_1.mpr ⟨Nat.zero_le j, by omega⟩)))
  have fewer : fs.bitmapSectors % 2 ^ 16 = fs.bitmapSectors := Nat.mod_eq_of_lt (by omega)
  constructor
  · suffices bytes : fs'.dir.bytes = fs.dir.bytes by
      cases left : fs'.dir
      cases right : fs.dir
      simp only [left, right] at bytes
      simp only [bytes]
    refine eq_of_sectors (n := dirSectors) fs.dir.length_eq fs'.dir.length_eq fun s inside => ?_
    have size : dirSectors = 512 := rfl
    rw [mounted.dir s inside, if_pos (chunkServed _ (by omega)), same, ← first, ← second]
    exact synced.dir s inside id
  · refine eq_of_sectors wf.bitmapLength_eq ?_ fun s inside => ?_
    · exact congrArg Shape.bitmapLength mounted.shape_eq
    · change s < fs.bitmapSectors at inside
      rw [mounted.bitmap s inside, fewer, if_pos ⟨inside, bitsServed⟩, same, ← first]
      exact synced.bitmap s inside id

/-- A formatted volume has the geometry asked for, and its metadata has 64-bit addresses. -/
theorem formatVolume_shape {dev : Recorder D} {base totalBlocks bitmapSectors : Nat}
    (done : formatVolume dev base totalBlocks bitmapSectors = some fs) :
    base + 1 + bitmapSectors + dirSectors < 2 ^ 64 ∧ fs.base = base ∧
      fs.totalBlocks = totalBlocks ∧ fs.bitmapSectors = bitmapSectors := by
  have areas : base + 1 + bitmapSectors + dirSectors < 2 ^ 64 := by
    simp only [formatVolume, Option.bind_eq_bind, Option.bind_eq_some_iff] at done
    obtain ⟨laid, laidOut, -⟩ := done
    exact (layout_some laidOut).1
  obtain ⟨fs₁, done₁, -, shape⟩ := formatVolume_total dev totalBlocks areas
  obtain rfl := Option.some.inj (done.symm.trans done₁)
  exact ⟨areas, congrArg Shape.base shape, congrArg Shape.totalBlocks shape,
    congrArg Shape.bitmapSectors shape⟩

/-- **Remounting gives back the running volume.** In every state that a formatted volume with a
bitmap of at most 65535 sectors reaches while its device honours every write, the device holds
the volume's metadata, and opening it, if the reads are honoured, gives the same directory,
bitmap, block count and number of free blocks. -/
theorem remount_of_run {dev : Recorder D} {base totalBlocks bitmapSectors : Nat}
    {fs₀ : Rpfs (Recorder D)} {history : List (Op × Bool)} (small : totalBlocks < 2 ^ 32)
    (few : bitmapSectors ≤ 65535)
    (formatted : formatVolume dev base totalBlocks bitmapSectors = some fs₀)
    (run : RunFrom Any fs₀ history fs) (honoured : WritesHonoured dev fs.dev) (diskSectors : Nat) :
    Synced fs ∧ (SuperServed fs.dev base →
      ∃ fs', openDev fs.dev base diskSectors = some fs' ∧ (HonouredSince fs.dev fs'.dev →
        fs'.dir = fs.dir ∧ fs'.bitmap = fs.bitmap ∧ fs'.totalBlocks = fs.totalBlocks ∧
        freeBlocks fs'.totalBlocks fs'.bitmap = freeBlocks fs.totalBlocks fs.bitmap)) := by
  have synced := synced_of_run formatted run honoured
  refine ⟨synced, fun served => ?_⟩
  have fresh := Formatted.fresh ⟨dev, base, totalBlocks, bitmapSectors, small, by omega, formatted⟩
  have bounded := run_bounded fresh.wf run
  have wf : fs.WellFormed := show Shape.WellFormed _ from bounded.shape_eq.symm ▸ fresh.wf
  obtain ⟨areas, base₀, total₀, sectors₀⟩ := formatVolume_shape formatted
  have base₁ : fs.base = base := (congrArg Shape.base bounded.shape_eq).trans base₀
  have total₁ : fs.totalBlocks = totalBlocks :=
    (congrArg Shape.totalBlocks bounded.shape_eq).trans total₀
  have sectors₁ : fs.bitmapSectors = bitmapSectors :=
    (congrArg Shape.bitmapSectors bounded.shape_eq).trans sectors₀
  subst base₁ total₁ sectors₁
  obtain ⟨super, total, sectors⟩ := superSector_words fs.totalBlocks fs.bitmapSectors
  rw [Nat.mod_eq_of_lt small] at total
  rw [Nat.mod_eq_of_lt (by omega)] at sectors
  rw [openDev_mounts served (synced.super ▸ super), synced.super]
  obtain ⟨fs', mounts⟩ := mountVolume_total (afterSuper fs.dev fs.base) (sectors.symm ▸ areas)
  refine ⟨fs', mounts, fun honoured' => ?_⟩
  obtain ⟨bits, chunks, mounted⟩ := mountVolume_spec mounts
  rw [total, sectors] at mounted
  have later : HonouredSince (afterSuper fs.dev fs.base) fs'.dev := fun q member => by
    refine honoured' q ?_
    rw [Recorder.since, mounted.log_eq, List.drop_left] at member
    rw [Recorder.since, mounted.log_eq, afterSuper, Recorder.log_read, List.append_assoc,
      List.drop_left]
    exact List.mem_cons_of_mem _ member
  obtain ⟨dir, bitmap⟩ := mounted.eq_of_synced wf synced (content_afterSuper _ _) few later
  have same : fs'.totalBlocks = fs.totalBlocks := congrArg Shape.totalBlocks mounted.shape_eq
  exact ⟨dir, bitmap, same, by rw [same, bitmap]⟩

end Mount

/-- The theorem at a volume of one block on a disk that honours everything, after one write. -/
theorem remount_of_run_small : ∃ fs₀ fs fs' : Rpfs (Recorder ScriptedDisk),
    formatVolume ⟨ScriptedDisk.blank fun _ => true, []⟩ 0 1 1 = some fs₀ ∧
      RunFrom Any fs₀ [(.write [97] [1, 2, 3], true)] fs ∧ openDev fs.dev 0 600 = some fs' ∧
        fs'.dir = fs.dir ∧ fs'.bitmap = fs.bitmap := by
  obtain ⟨fs₀, laid, formatted, roomy, total, issued⟩ :=
    exists_formatted (⟨ScriptedDisk.blank fun _ => true, []⟩ : Recorder ScriptedDisk) 1 (by decide)
  have willing : fs₀.dev.dev.script = fun _ => true := (ScriptedDisk.since_script issued).1
  obtain ⟨fs, done, -⟩ := formatted.fresh.stores [97] [1, 2, 3] roomy willing (by decide)
    (by decide) (by decide) (by rw [total]; decide)
  have run : RunFrom Any fs₀ [(.write [97] [1, 2, 3], true)] fs := Run.start.next trivial done
  have step := (run_bounded formatted.fresh.wf run).issued
  have willing' : fs.dev.dev.script = fun _ => true := (ScriptedDisk.since_script step).1.trans willing
  have honoured : WritesHonoured ⟨ScriptedDisk.blank fun _ => true, []⟩ fs.dev := by
    intro q member _
    obtain ⟨k, answer⟩ := (ScriptedDisk.since_script (issued.trans step.any)).2 q member
    exact answer
  have served : SuperServed fs.dev 0 := congrFun willing' _
  obtain ⟨fs', opened, same⟩ :=
    (remount_of_run (by decide) (by decide) laid run honoured 600).2 served
  obtain ⟨dir, bitmap, -⟩ := same (honouredSince_of_willing willing' (openDev_issued opened))
  exact ⟨fs₀, fs, fs', laid, run, opened, dir, bitmap⟩

end RustyPenguin.Rpfs
