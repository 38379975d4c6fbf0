import RustyPenguin.Rpfs.Bitmap

/-!
# The mounted volume and its operations

`Rpfs` is the mounted volume: the device, the geometry, the in-RAM bitmap and
directory, and the staging buffer every transfer goes through. The operations follow
the source function by function. Each returns `none` where the program would panic
(an index outside a vector, an overflowing sum of fields), and otherwise its result
with the volume after it. Sums that cannot overflow whatever the fields are (a loop
counter below its bound) are plain.

Device transfers answer with a flag. The operations look at it where the source does,
in the data loop of `writeFile`, in `readFile` and in the superblock read of
`openDev`, and drop it everywhere else.
-/

set_option autoImplicit false

namespace RustyPenguin

open Rpfs Buffer

/-- A mounted volume. -/
structure Rpfs (D : Type) where
  dev : D
  base : Nat
  totalBlocks : Nat
  bitmapLba : Nat
  bitmapSectors : Nat
  dirLba : Nat
  dataLba : Nat
  bitmap : List UInt8
  dir : Directory
  scratch : List UInt8
  ready : Bool

namespace Rpfs

/-- `b"RPFS2027"`. -/
def magic : List UInt8 := [82, 80, 70, 83, 50, 48, 50, 55]
def version : Nat := 2

/-- Sectors the directory takes. -/
def dirSectors : Nat := dirEntries * entrySz / sector

section Operations

variable {D : Type} [BlockDev D]

/-- A device write; the volume only sees the flag. -/
def devWrite (fs : Rpfs D) (lba count : Nat) (buf : List UInt8) : Bool × Rpfs D :=
  let answer := BlockDev.write fs.dev lba count buf
  (answer.1, { fs with dev := answer.2 })

/-! ## Flushing metadata -/

/-- The superblock sector. -/
def superSector (totalBlocks bitmapSectors : Nat) : List UInt8 :=
  let sb := List.replicate sector 0
  let sb := blit sb 0 magic
  let sb := wrU32 sb 8 version
  let sb := wrU32 sb 12 totalBlocks
  let sb := wrU32 sb 16 bitmapSectors
  wrU32 sb 20 dirEntries

theorem length_wrU32 {b : List UInt8} {o : Nat} (size : b.length = sector) (fits : o + 4 ≤ sector)
    (v : Nat) : (wrU32 b o v).length = sector :=
  (length_blit (by rw [length_u32Bytes, size]; exact fits)).trans size

theorem length_superSector (totalBlocks bitmapSectors : Nat) :
    (superSector totalBlocks bitmapSectors).length = sector := by
  have blank : (List.replicate sector (0 : UInt8)).length = sector := List.length_replicate
  have named : (blit (List.replicate sector 0) 0 magic).length = sector :=
    (length_blit (by rw [blank]; decide)).trans blank
  exact length_wrU32 (length_wrU32 (length_wrU32 (length_wrU32 named (by decide) _) (by decide) _)
    (by decide) _) (by decide) _

def flushSuper (fs : Rpfs D) : Rpfs D :=
  (fs.devWrite fs.base 1 (superSector fs.totalBlocks fs.bitmapSectors)).2

/-- Write `total` sectors of `bytes` to `lba`, in chunks of at most 64, from sector `done` on. -/
def flushChunks (fs : Rpfs D) (bytes : List UInt8) (lba total done : Nat) : Option (Rpfs D) :=
  if done < total then
    let n := min (total - done) 64
    (slice? bytes (done * sector) (n * sector)).bind fun buf =>
      (addU64 lba done).bind fun at' =>
        flushChunks (fs.devWrite at' n buf).2 bytes lba total (done + n)
  else some fs
termination_by total - done
decreasing_by omega

def flushDirAll (fs : Rpfs D) : Option (Rpfs D) :=
  fs.flushChunks fs.dir.bytes fs.dirLba dirSectors 0

def flushBitmapAll (fs : Rpfs D) : Option (Rpfs D) :=
  fs.flushChunks fs.bitmap fs.bitmapLba fs.bitmapSectors 0

/-- Write the one directory sector that holds slot `i`. -/
def flushDirEntry (fs : Rpfs D) (i : Fin dirEntries) : Option (Rpfs D) := do
  let sec := i * entrySz / sector
  let buf ← slice? fs.dir.bytes (sec * sector) sector
  let lba ← addU64 fs.dirLba sec
  return (fs.devWrite lba 1 buf).2

/-- Write bitmap sectors `s`, `s + 1`, …, stopping at the end of the bitmap. -/
def flushBitmapLoop (fs : Rpfs D) : (left s : Nat) → Option (Rpfs D)
  | 0, _ => some fs
  | left + 1, s =>
      if s * sector + sector > fs.bitmap.length then some fs
      else do
        let buf ← slice? fs.bitmap (s * sector) sector
        let lba ← addU64 fs.bitmapLba s
        flushBitmapLoop (fs.devWrite lba 1 buf).2 left (s + 1)

/-- Write the bitmap sectors that cover blocks `start` to `start + n`. -/
def flushBitmapRange (fs : Rpfs D) (start n : Nat) : Option (Rpfs D) := do
  let first := start / 8 / sector
  let stop ← addU32 start n
  let last := (stop - 1) / 8 / sector
  fs.flushBitmapLoop (last + 1 - first) first

/-! ## Formatting and mounting -/

/-- `while bitmap_sectors + data_blocks > avail && data_blocks > 0 { data_blocks -= 1; … }`. -/
def tighten (avail per : Nat) : (dataBlocks bitmapSectors : Nat) → Nat × Nat
  | 0, bitmapSectors => (0, bitmapSectors)
  | dataBlocks + 1, bitmapSectors =>
      if bitmapSectors + (dataBlocks + 1) > avail then
        tighten avail per dataBlocks ((dataBlocks + per - 1) / per)
      else (dataBlocks + 1, bitmapSectors)

/-- Data blocks and bitmap sectors of a region of `diskSectors` sectors in all whose volume
starts at `base`. -/
def geometry (base diskSectors : Nat) : Option (Nat × Nat) := do
  let front ← addU64 base (1 + dirSectors)
  let avail := diskSectors - front
  let per := sector * 8
  if avail * per < 2 ^ 64 then do
    let dataBlocks := avail * per / (per + 1)
    let bitmapSectors := (dataBlocks + per - 1) / per
    let (dataBlocks, bitmapSectors) := tighten avail per dataBlocks bitmapSectors
    return (dataBlocks % 2 ^ 32, max bitmapSectors 1 % 2 ^ 32)
  else none

/-- The volume before anything is read or written: the areas laid out one behind the other,
the vectors zeroed. -/
def layout (dev : D) (base totalBlocks bitmapSectors : Nat) : Option (Rpfs D) := do
  let bitmapLba ← addU64 base 1
  let dirLba ← addU64 bitmapLba bitmapSectors
  let dataLba ← addU64 dirLba dirSectors
  return {
    dev, base, totalBlocks, bitmapLba, bitmapSectors, dirLba, dataLba
    bitmap := List.replicate (bitmapSectors * sector) 0
    dir := Directory.zero
    scratch := List.replicate (scratchSectors * sector) 0
    ready := false }

def format (fs : Rpfs D) : Option (Rpfs D) := do
  let fs := { fs with bitmap := List.replicate fs.bitmap.length 0, dir := Directory.zero }
  let fs := fs.flushSuper
  let fs ← fs.flushBitmapAll
  fs.flushDirAll

/-- Lay out a volume of the given geometry and format it. -/
def formatVolume (dev : D) (base totalBlocks bitmapSectors : Nat) : Option (Rpfs D) := do
  let fs ← layout dev base totalBlocks bitmapSectors
  let fs ← fs.format
  return { fs with ready := true }

theorem dirChunk_fits {done : Nat} (more : done < dirSectors) :
    done * sector + min (dirSectors - done) 64 * sector ≤ dirEntries * entrySz := by
  simp only [dirSectors, dirEntries, entrySz, sector] at more ⊢
  omega

/-- The directory with the bytes from sector `done` on replaced by what a chunk read gave. -/
def readChunk (dir : Directory) (dev : D) (lba done : Nat) (more : done < dirSectors) :
    Directory × D :=
  let n := min (dirSectors - done) 64
  let buf := slice dir.bytes (done * sector) (n * sector)
  let answer := BlockDev.read dev lba n buf
  ({ bytes := blit dir.bytes (done * sector) answer.2.1
     length_eq := by
      have fits := dir.length_eq ▸ dirChunk_fits more
      have size : answer.2.1.length = n * sector :=
        (BlockDev.read_length dev lba n buf).trans (length_slice fits)
      rw [length_blit (by rw [size]; exact fits), dir.length_eq] },
    answer.2.2)

/-- Read the directory in chunks of at most 64 sectors. -/
def loadDirChunks (fs : Rpfs D) (done : Nat) : Option (Rpfs D) :=
  if more : done < dirSectors then
    (addU64 fs.dirLba done).bind fun lba =>
      let answer := readChunk fs.dir fs.dev lba done more
      loadDirChunks { fs with dir := answer.1, dev := answer.2 } (done + min (dirSectors - done) 64)
  else some fs
termination_by dirSectors - done
decreasing_by omega

def loadDir (fs : Rpfs D) : Option (Rpfs D) := fs.loadDirChunks 0

/-- Whether a sector is the superblock of this version. -/
def isSuper (sb : List UInt8) : Bool := slice sb 0 8 == magic && rdU32 sb 8 == version

/-- Read the superblock: whether there is one, its bytes, and the device after the read. -/
def readSuper (dev : D) (base : Nat) : Bool × List UInt8 × D :=
  let answer := BlockDev.read dev base 1 (List.replicate sector 0)
  (answer.1 && isSuper answer.2.1, answer.2.1, answer.2.2)

/-- Mount the volume whose superblock was read. The bitmap is read in one transfer of
`bitmap_sectors as u16` sectors. -/
def mountVolume (dev : D) (base : Nat) (sb : List UInt8) : Option (Rpfs D) := do
  let totalBlocks := rdU32 sb 12
  let bitmapSectors := rdU32 sb 16
  let fs ← layout dev base totalBlocks bitmapSectors
  let answer := BlockDev.read fs.dev fs.bitmapLba (bitmapSectors % 2 ^ 16) fs.bitmap
  let fs := { fs with dev := answer.2.2, bitmap := answer.2.1 }
  let fs ← fs.loadDir
  return { fs with ready := true }

/-- Mount an existing volume, or format a fresh one if no valid superblock is present. -/
def openDev (dev : D) (base diskSectors : Nat) : Option (Rpfs D) :=
  let (haveSb, sb, dev) := readSuper dev base
  if haveSb then mountVolume dev base sb
  else do
    let (totalBlocks, bitmapSectors) ← geometry base diskSectors
    formatVolume dev base totalBlocks bitmapSectors

/-! ## Directory entries -/

def find (fs : Rpfs D) (name : List UInt8) : Option (Fin dirEntries) := fs.dir.find name

def freeSlot (fs : Rpfs D) : Option (Fin dirEntries) := fs.dir.freeSlot

def setEntry (fs : Rpfs D) (i : Fin dirEntries) (name : List UInt8) (kind : UInt8) (trit : Int8)
    (start size nblocks : Nat) : Rpfs D :=
  { fs with dir := fs.dir.setEntry i name kind trit start size nblocks }

/-- Put an entry in slot `i` and flush its sector. -/
def putEntry (fs : Rpfs D) (i : Fin dirEntries) (name : List UInt8) (kind : UInt8) (trit : Int8)
    (start size nblocks : Nat) : Option (Rpfs D) :=
  (fs.setEntry i name kind trit start size nblocks).flushDirEntry i

/-- Create the directory `dirpath` if no entry has that path and a slot is free. -/
def ensureParent (fs : Rpfs D) (dirpath : List UInt8) : Option (Rpfs D) :=
  match fs.find dirpath with
  | some _ => some fs
  | none =>
      match fs.freeSlot with
      | some slot => fs.putEntry slot dirpath kDir 1 0 0 0
      | none => some fs

/-- The scan of `ensure_parents` over `name[idx..]`, which is the third argument: at every
separator but a leading one, the path before it gets a directory. -/
def ensureParentsFrom (name : List UInt8) (fs : Rpfs D) : (idx : Nat) → List UInt8 → Option (Rpfs D)
  | _, [] => some fs
  | idx, c :: rest =>
      if c = slash ∧ 0 < idx then
        (fs.ensureParent (name.take idx)).bind fun fs => ensureParentsFrom name fs (idx + 1) rest
      else ensureParentsFrom name fs (idx + 1) rest

def ensureParents (fs : Rpfs D) (name : List UInt8) : Option (Rpfs D) :=
  ensureParentsFrom name fs 0 name

/-! ## Files -/

/-- Blocks a file of `len` bytes takes: at least one. -/
def blocksFor (len : Nat) : Nat := max ((len + sector - 1) / sector) 1

/-- The data loop of `write_file`: each chunk is staged in the scratch buffer, zero-padded to
whole sectors, and written. The flag is false when the device refused a chunk. -/
def writeData (data : List UInt8) (start nblocks : Nat) (fs : Rpfs D) (blk written : Nat) :
    Option (Bool × Rpfs D) :=
  if blk < nblocks then
    let cnt := min (nblocks - blk) scratchSectors
    let cbytes := cnt * sector
    let copy := min (data.length - written) cbytes
    (blit? fs.scratch 0 (slice data written copy)).bind fun scratch =>
    (blit? scratch copy (List.replicate (cbytes - copy) 0)).bind fun scratch =>
    (addU32 start blk).bind fun block =>
    (addU64 fs.dataLba block).bind fun lba =>
    (slice? scratch 0 cbytes).bind fun buf =>
      let answer := devWrite { fs with scratch } lba cnt buf
      if answer.1 then writeData data start nblocks answer.2 (blk + cnt) (written + copy)
      else some (false, answer.2)
  else some (true, fs)
termination_by nblocks - blk
decreasing_by simp only [scratchSectors]; omega

/-- The slot `write_file` will use, with the extent of an overwritten file released first. No
slot means the call is refused: the path is a directory, or the table is full. -/
def slotFor (fs : Rpfs D) (name : List UInt8) : Option (Option (Fin dirEntries) × Rpfs D) :=
  match fs.find name with
  | some i =>
      if fs.dir.eKind i = kDir then some (none, fs)
      else do
        let os := fs.dir.eStart i
        let on := fs.dir.eNblocks i
        let bitmap ← freeRun fs.totalBlocks fs.bitmap os on
        let fs ← flushBitmapRange { fs with bitmap } os on
        return (some i, fs)
  | none => some (fs.freeSlot, fs)

/-- The arguments `write_file` takes. -/
def Writable (fs : Rpfs D) (name data : List UInt8) : Prop :=
  fs.ready = true ∧ name ≠ [] ∧ name.length ≤ maxName ∧ data.length ≤ maxFile

instance (fs : Rpfs D) (name data : List UInt8) : Decidable (fs.Writable name data) :=
  inferInstanceAs (Decidable (_ ∧ _ ∧ _ ∧ _))

/-- The part of `write_file` after a slot and an extent are there. -/
def storeFile (fs : Rpfs D) (slot : Fin dirEntries) (start : Nat) (name data : List UInt8) :
    Option (Bool × Rpfs D) := do
  let nblocks := blocksFor data.length
  let (ok, fs) ← writeData data start nblocks fs 0 0
  if ok then do
    let fs ← fs.ensureParents name
    let fs := fs.setEntry slot name kFile 1 start data.length nblocks
    let fs ← fs.flushBitmapRange start nblocks
    let fs ← fs.flushDirEntry slot
    return (true, fs)
  else return (false, fs)

/-- Create or overwrite a file. Reclaims the old extent on overwrite. -/
def writeFile (fs : Rpfs D) (name data : List UInt8) : Option (Bool × Rpfs D) :=
  if fs.Writable name data then do
    let (slot, fs) ← fs.slotFor name
    match slot with
    | none => return (false, fs)
    | some slot => do
        let (start, bitmap) ← allocRun fs.totalBlocks fs.bitmap (blocksFor data.length)
        let fs := { fs with bitmap }
        match start with
        | none => do
            let fs ← fs.putEntry slot name kFile (-1) 0 0 0
            return (false, fs)
        | some start => fs.storeFile slot start name data
  else some (false, fs)

/-- The loop of `read_file`: `out` is filled from `outPos` on, `filePos` bytes of the file
having been consumed. -/
def readData (start size nblocks : Nat) (fs : Rpfs D) (out : List UInt8)
    (blk filePos outPos : Nat) : Option (Option Nat × List UInt8 × Rpfs D) :=
  if blk < nblocks then
    let cnt := min (nblocks - blk) scratchSectors
    let cbytes := cnt * sector
    (addU32 start blk).bind fun block =>
    (addU64 fs.dataLba block).bind fun lba =>
    (slice? fs.scratch 0 cbytes).bind fun buf =>
      let answer := BlockDev.read fs.dev lba cnt buf
      let fs := { fs with dev := answer.2.2, scratch := blit fs.scratch 0 answer.2.1 }
      if answer.1 then
        let valid := min (size - filePos) cbytes
        let n := min valid (out.length - outPos)
        (slice? fs.scratch 0 n).bind fun src =>
        (blit? out outPos src).bind fun out =>
          if outPos + n ≥ out.length ∨ filePos + cbytes ≥ size then some (some (outPos + n), out, fs)
          else readData start size nblocks fs out (blk + cnt) (filePos + cbytes) (outPos + n)
      else some (none, out, fs)
  else some (some outPos, out, fs)
termination_by nblocks - blk
decreasing_by simp only [scratchSectors]; omega

/-- Read a file into `out`: the number of bytes read, or none if it is not there. -/
def readFile (fs : Rpfs D) (name out : List UInt8) : Option (Option Nat × List UInt8 × Rpfs D) :=
  if fs.ready = true then
    match fs.find name with
    | none => some (none, out, fs)
    | some i =>
        if fs.dir.eKind i = kDir then some (none, out, fs)
        else readData (fs.dir.eStart i) (fs.dir.eSize i) (fs.dir.eNblocks i) fs out 0 0 0
  else some (none, out, fs)

/-- `cn` is a path below the directory `name`. -/
def childOf (name cn : List UInt8) : Bool :=
  decide (cn.length > name.length) && name.isPrefixOf cn && cn.getD name.length 0 == slash

/-- Some active entry lies below the directory `name`. -/
def hasChild (fs : Rpfs D) (name : List UInt8) : Bool :=
  decide (∃ j, fs.dir.eTrit j = 1 ∧ childOf name (fs.dir.eName j) = true)

/-- Mark slot `i` deleted and flush its sector. -/
def dropEntry (fs : Rpfs D) (i : Fin dirEntries) : Option (Bool × Rpfs D) := do
  let fs ← flushDirEntry { fs with dir := fs.dir.tombstone i } i
  return (true, fs)

/-- Delete a file or an empty directory; frees its blocks. -/
def deleteFile (fs : Rpfs D) (name : List UInt8) : Option (Bool × Rpfs D) :=
  if fs.ready = true then
    match fs.find name with
    | none => some (false, fs)
    | some i =>
        if fs.dir.eKind i = kDir then
          if fs.hasChild name then some (false, fs) else fs.dropEntry i
        else do
          let s := fs.dir.eStart i
          let n := fs.dir.eNblocks i
          let bitmap ← freeRun fs.totalBlocks fs.bitmap s n
          let fs ← flushBitmapRange { fs with bitmap } s n
          fs.dropEntry i
  else some (false, fs)

/-- Make a directory and any missing parents. -/
def mkdir (fs : Rpfs D) (name : List UInt8) : Option (Bool × Rpfs D) :=
  if fs.ready = true ∧ name ≠ [] ∧ name.length ≤ maxName then do
    let fs ← fs.ensureParents name
    match fs.find name with
    | some _ => return (true, fs)
    | none =>
        match fs.freeSlot with
        | some slot => do
            let fs ← fs.putEntry slot name kDir 1 0 0 0
            return (true, fs)
        | none => return (false, fs)
  else some (false, fs)

/-! ## Queries -/

/-- The path before the last separator, or the empty path. -/
def parentOf (name : List UInt8) : List UInt8 :=
  (name.reverse.dropWhile (· != slash)).tail.reverse

/-- The path behind the last separator. -/
def childName (name : List UInt8) : List UInt8 := (name.reverse.takeWhile (· != slash)).reverse

/-- A directory listing item; `name` is the bytes of the last path component, before they
are decoded as UTF-8. -/
structure DirItem where
  name : List UInt8
  isDir : Bool
  size : Nat

/-- The immediate children of directory `path`. -/
def listDir (fs : Rpfs D) (path : List UInt8) : List DirItem :=
  (List.finRange dirEntries).filterMap fun i =>
    if fs.dir.eTrit i = 1 ∧ parentOf (fs.dir.eName i) = path then
      some ⟨childName (fs.dir.eName i), fs.dir.eKind i == kDir, fs.dir.eSize i⟩
    else none

end Operations

end Rpfs

end RustyPenguin
