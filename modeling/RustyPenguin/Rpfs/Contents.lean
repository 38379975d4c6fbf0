import RustyPenguin.Rpfs.Namespace

/-!
# The bytes of files

`Stored fs i data` says that slot `i` is a file whose blocks on the device hold `data`,
zero-padded. Reading it back gives `data`, cut to the caller's buffer
(`readFile_stored`), and a write that returns true stores what it was given
(`writeFile_stored`).

A file keeps its bytes while nothing else may take its blocks (`Protected`): its blocks
are marked used, and no other active entry has them. Every operation on another path
keeps such a file, whatever the device does (`apply_keeps`).
-/

set_option autoImplicit false

namespace RustyPenguin.Rpfs

open Buffer Ownership

/-! ## Reading -/

/-- Everything recorded between two device states was honoured. -/
def HonouredSince {D : Type} (r r' : Recorder D) : Prop := ∀ q ∈ r.since r', q.honoured = true

theorem HonouredSince.split {D : Type} [BlockDev D] {r r' r'' : Recorder D}
    {R R' : Nat → Nat → Prop} (honoured : HonouredSince r r'') (first : Issues R r r')
    (second : Issues R' r' r'') : HonouredSince r r' ∧ HonouredSince r' r'' := by
  have early := first.any
  have late := second.any
  exact ⟨fun q member => honoured q (early.since_right late member),
    fun q member => honoured q (early.since_left late member)⟩

/-- A read that is all there is was honoured. -/
theorem honoured_read {D : Type} [BlockDev D] {r : Recorder D} {lba count : Nat} {buf : List UInt8}
    (honoured : HonouredSince r (BlockDev.read r lba count buf).2.2) :
    (BlockDev.read r lba count buf).1 = true := by
  refine honoured ⟨false, lba, count, (BlockDev.read r lba count buf).1⟩ ?_
  rw [Recorder.since, Recorder.log_read, List.drop_left]
  exact List.mem_singleton_self _

section Reading

variable {D : Type} [LawfulBlockDev D]

/-- The bytes of slot `i`'s blocks. -/
def blocksOf (fs : Rpfs D) (i : Fin dirEntries) : List UInt8 :=
  extent (LawfulBlockDev.content fs.dev) (fs.dataLba + (fs.dir.entry i).start)
    (fs.dir.entry i).nblocks

/-- An honoured chunk read returns a window of the extent it lies in. -/
theorem chunk_read {dev : D} {lba start blk cnt nblocks : Nat} {bytes buf : List UInt8}
    (stored : extent (LawfulBlockDev.content dev) (lba + start) nblocks = bytes)
    (inside : blk + cnt ≤ nblocks) (size : buf.length = cnt * sector)
    (honoured : (BlockDev.read dev (lba + (start + blk)) cnt buf).1 = true) :
    (BlockDev.read dev (lba + (start + blk)) cnt buf).2.1 =
      slice bytes (blk * sector) (cnt * sector) := by
  have whole := LawfulBlockDev.content_length dev
  rw [LawfulBlockDev.read_honoured dev _ cnt buf (Nat.le_of_eq size.symm) honoured,
    blit_whole ((length_extent whole _ _).trans size.symm), ← stored, ← extent_sub whole inside,
    Nat.add_assoc]

theorem slice_padded {data : List UInt8} {n off m : Nat} (fits : off + m ≤ data.length) :
    slice (padded data n) off m = slice data off m := slice_append_left _ fits

/-- What the read loop delivers when the device honours it: the pieces of `bytes` it copies to
the caller's buffer. -/
def deliver (bytes : List UInt8) (size nblocks : Nat) (out : List UInt8)
    (blk filePos outPos : Nat) : Nat × List UInt8 :=
  if blk < nblocks then
    let cnt := min (nblocks - blk) scratchSectors
    let cbytes := cnt * sector
    let n := min (min (size - filePos) cbytes) (out.length - outPos)
    let out := blit out outPos (slice bytes (blk * sector) n)
    if outPos + n ≥ out.length ∨ filePos + cbytes ≥ size then (outPos + n, out)
    else deliver bytes size nblocks out (blk + cnt) (filePos + cbytes) (outPos + n)
  else (outPos, out)
termination_by nblocks - blk
decreasing_by simp only [scratchSectors]; omega

/-- **An honoured read loop delivers what the blocks hold.** -/
theorem readData_deliver {bytes : List UInt8} {start size nblocks : Nat} :
    ∀ {fs fs' : Rpfs (Recorder D)} {out out' : List UInt8} {blk filePos outPos : Nat}
      {r : Option Nat},
      extent (LawfulBlockDev.content fs.dev) (fs.dataLba + start) nblocks = bytes →
        readData start size nblocks fs out blk filePos outPos = some (r, out', fs') →
          HonouredSince fs.dev fs'.dev →
            r = some (deliver bytes size nblocks out blk filePos outPos).1 ∧
              out' = (deliver bytes size nblocks out blk filePos outPos).2 := by
  intro fs fs' out out' blk filePos outPos r stored done honoured
  induction left : nblocks - blk using Nat.strongRecOn generalizing fs out blk filePos outPos with
  | ind left ih =>
      subst left
      rw [readData] at done
      rw [deliver]
      split at done
      · rename_i more
        rw [if_pos more]
        dsimp only
        simp only [Option.bind_eq_some_iff] at done
        obtain ⟨block, sum, lba, place, buf, window, rest⟩ := done
        obtain ⟨-, rfl⟩ := addU32_eq_some.mp sum
        obtain ⟨-, rfl⟩ := addU64_eq_some.mp place
        obtain ⟨fits, rfl⟩ := slice?_eq_some.mp window
        have smaller : nblocks - (blk + min (nblocks - blk) scratchSectors) < nblocks - blk := by
          simp only [scratchSectors]
          omega
        generalize cntEq : min (nblocks - blk) scratchSectors = cnt at *
        have bufLength := length_slice fits
        have readLength := BlockDev.read_length fs.dev (fs.dataLba + (start + blk)) cnt
          (slice fs.scratch 0 (cnt * sector))
        have request := Issues.of_read (R := fun _ _ => False) fs.dev
          (fs.dataLba + (start + blk)) cnt (slice fs.scratch 0 (cnt * sector))
        split at rest
        · rename_i served
          have got := chunk_read stored (by omega) bufLength served
          have kept := LawfulBlockDev.content_read fs.dev (fs.dataLba + (start + blk)) cnt
            (slice fs.scratch 0 (cnt * sector))
          generalize BlockDev.read fs.dev (fs.dataLba + (start + blk)) cnt
            (slice fs.scratch 0 (cnt * sector)) = answer at *
          have within : min (min (size - filePos) (cnt * sector)) (out.length - outPos) ≤
              cnt * sector := by omega
          generalize min (min (size - filePos) (cnt * sector)) (out.length - outPos) = n at *
          simp only [Option.bind_eq_some_iff] at rest
          obtain ⟨src, srcEq, out₁, outEq, rest⟩ := rest
          have srcIs : src = slice bytes (blk * sector) n := by
            obtain ⟨srcFits, rfl⟩ := slice?_eq_some.mp srcEq
            have front : slice (blit fs.scratch 0 answer.2.1) (0 + 0) n = slice answer.2.1 0 n :=
              slice_blit_inside (by omega) (by omega)
            rw [Nat.add_zero] at front
            rw [front, got, slice_slice (by omega), Nat.add_zero]
          subst srcIs
          obtain ⟨-, rfl⟩ := blit?_eq_some.mp outEq
          split at rest
          · rename_i last
            rw [if_pos last]
            cases rest
            exact ⟨rfl, rfl⟩
          · rename_i again
            rw [if_neg again]
            have honouredRest : HonouredSince answer.2.2 fs'.dev :=
              (honoured.split request (readData_spec rfl rest).issued).2
            exact ih _ smaller (by rw [kept]; exact stored) rest honouredRest rfl
        · rename_i refused
          cases rest
          exact absurd (honoured_read honoured) refused
      · rename_i stop
        rw [if_neg stop]
        cases done
        exact ⟨rfl, rfl⟩

/-- **What is delivered of a file's blocks is the file**, cut to the caller's buffer. -/
theorem deliver_padded {data : List UInt8} {nblocks : Nat} (size : data.length ≤ nblocks * sector) :
    ∀ {out : List UInt8} {blk : Nat}, blk < nblocks → blk * sector ≤ data.length →
      blk * sector ≤ out.length →
        deliver (padded data nblocks) data.length nblocks out blk (blk * sector) (blk * sector) =
          (min data.length out.length, blit out (blk * sector)
            (slice data (blk * sector) (min data.length out.length - blk * sector))) := by
  intro out blk more low inside
  induction left : nblocks - blk using Nat.strongRecOn generalizing out blk with
  | ind left ih =>
      subst left
      rw [deliver, if_pos more]
      dsimp only
      have positive : 0 < min (nblocks - blk) scratchSectors := by
        simp only [scratchSectors]
        omega
      generalize cntEq : min (nblocks - blk) scratchSectors = cnt at *
      generalize counted : min (min (data.length - blk * sector) (cnt * sector))
        (out.length - blk * sector) = n
      rw [slice_padded (by omega)]
      have srcLength : (slice data (blk * sector) n).length = n := length_slice (by omega)
      have outLength : (blit out (blk * sector) (slice data (blk * sector) n)).length = out.length :=
        length_blit (by omega)
      split
      · rename_i last
        rw [outLength] at last
        have total : blk * sector + n = min data.length out.length := by omega
        rw [← total, Nat.add_sub_cancel_left]
      · rename_i again
        simp only [outLength, not_or, Nat.not_le] at again
        have full : n = cnt * sector := by omega
        subst full
        have next : (blk + cnt) * sector = blk * sector + cnt * sector := Nat.add_mul _ _ _
        have later : blk + cnt < nblocks := by
          refine Nat.lt_of_not_le fun stop => ?_
          have := Nat.mul_le_mul_right sector stop
          omega
        rw [← next, ih _ (by omega) later (by omega) (by omega) rfl, outLength, next]
        have tailLength : (slice data (blk * sector + cnt * sector)
            (min data.length out.length - (blk * sector + cnt * sector))).length =
              min data.length out.length - (blk * sector + cnt * sector) :=
          length_slice (by omega)
        have whole : cnt * sector + (min data.length out.length - (blk * sector + cnt * sector)) =
            min data.length out.length - blk * sector := by omega
        have room : blk * sector + ((slice data (blk * sector) (cnt * sector)).length +
            (slice data (blk * sector + cnt * sector)
              (min data.length out.length - (blk * sector + cnt * sector))).length) ≤
                out.length := by omega
        have joined := blit_append room
        rw [srcLength, slice_append_slice, whole] at joined
        rw [joined]

/-- **What an honoured read returns**: nothing when the path is not a file, and otherwise what
the file's blocks hold. -/
theorem readFile_deliver {fs fs' : Rpfs (Recorder D)} {name out out' : List UInt8} {r : Option Nat}
    (ready : fs.ready = true) (done : fs.readFile name out = some (r, out', fs'))
    (honoured : HonouredSince fs.dev fs'.dev) :
    (r = none ∧ out' = out ∧ ∀ i, fs.find name = some i → (fs.dir.entry i).kind = kDir) ∨
      ∃ i, fs.find name = some i ∧ (fs.dir.entry i).kind ≠ kDir ∧
        r = some (deliver (blocksOf fs i) (fs.dir.entry i).size (fs.dir.entry i).nblocks
          out 0 0 0).1 ∧
        out' = (deliver (blocksOf fs i) (fs.dir.entry i).size (fs.dir.entry i).nblocks
          out 0 0 0).2 := by
  rw [readFile, if_pos ready] at done
  cases found : fs.find name with
  | none =>
      simp only [found] at done
      cases done
      exact Or.inl ⟨rfl, rfl, fun i impossible => absurd impossible.symm (Option.some_ne_none i)⟩
  | some i =>
      simp only [found] at done
      by_cases isDir : fs.dir.eKind i = kDir
      · rw [if_pos isDir] at done
        cases done
        refine Or.inl ⟨rfl, rfl, fun j same => ?_⟩
        rw [← Option.some.inj same]
        exact isDir
      · rw [if_neg isDir] at done
        exact Or.inr ⟨i, rfl, isDir, readData_deliver rfl done honoured⟩

/-- **Slot `i` is a file that holds `data`**: its entry has the size and the extent, the extent
can be addressed, and the device has the bytes there. -/
structure Stored (fs : Rpfs D) (i : Fin dirEntries) (data : List UInt8) : Prop where
  isFile : (fs.dir.entry i).IsFile
  size_eq : (fs.dir.entry i).size = data.length
  nblocks_eq : (fs.dir.entry i).nblocks = blocksFor data.length
  addressable : (fs.dir.entry i).Addressable fs.dataLba
  bytes : extent (LawfulBlockDev.content fs.dev) (fs.dataLba + (fs.dir.entry i).start)
    (blocksFor data.length) = padded data (blocksFor data.length)

theorem Stored.blocksOf_eq {fs : Rpfs D} {i : Fin dirEntries} {data : List UInt8}
    (stored : Stored fs i data) : blocksOf fs i = padded data (blocksFor data.length) := by
  rw [blocksOf, stored.nblocks_eq, stored.bytes]

/-- **Reading a stored file** returns its bytes, as many as fit the caller's buffer. -/
theorem readFile_stored {fs fs' : Rpfs (Recorder D)} {name data out out' : List UInt8}
    {i : Fin dirEntries} {r : Option Nat} (ready : fs.ready = true) (found : fs.find name = some i)
    (stored : Stored fs i data) (done : fs.readFile name out = some (r, out', fs'))
    (honoured : HonouredSince fs.dev fs'.dev) :
    r = some (min data.length out.length) ∧
      out' = blit out 0 (slice data 0 (min data.length out.length)) := by
  rcases readFile_deliver ready done honoured with ⟨-, -, dirs⟩ | ⟨j, there, -, count, copied⟩
  · exact absurd (dirs i found) stored.isFile.2
  · obtain rfl := Option.some.inj (there.symm.trans found)
    have start : 0 * sector ≤ out.length := by omega
    have whole := deliver_padded (le_blocksFor data.length) (blocksFor_pos _) (by omega) start
    rw [Nat.zero_mul, Nat.sub_zero] at whole
    rw [stored.blocksOf_eq, stored.size_eq, stored.nblocks_eq, whole] at count copied
    exact ⟨count, copied⟩

/-- Reading a stored file does not fault. -/
theorem Stored.readFile_total {fs : Rpfs D} {name data : List UInt8} {i : Fin dirEntries}
    (wf : fs.WellFormed) (stored : Stored fs i data) (found : fs.find name = some i)
    (out : List UInt8) : ∃ r, fs.readFile name out = some r :=
  Rpfs.readFile_total wf out fun j there _ => by
    rw [Option.some.inj (there.symm.trans found)]
    exact stored.addressable

theorem length_padded {data : List UInt8} {n : Nat} (fits : data.length ≤ n * sector) :
    (padded data n).length = n * sector := by
  rw [padded, List.length_append, List.length_replicate]
  omega

/-- **A write that returns true stores its data** in the slot it wrote. -/
theorem stored_of_loop {fs fs₂ fs₃ fs' : Rpfs D} {name data : List UInt8} {slot : Fin dirEntries}
    {start : Nat} {dir : Directory} {bitmap bitmap' : List UInt8}
    (small : fs.totalBlocks < 2 ^ 32) (size : data.length ≤ maxFile)
    (room : start + blocksFor data.length ≤ fs.totalBlocks)
    (before : Becomes fs.shape fs.shape.MetaArea fs fs₂ fs.dir bitmap)
    (loop : writeData data start (blocksFor data.length) fs₂ 0 0 = some (true, fs₃))
    (after : Becomes fs.shape fs.shape.MetaArea fs₃ fs'
      (dir.setEntry slot name kFile 1 start data.length (blocksFor data.length)) bitmap') :
    Stored fs' slot data := by
  have place : fs'.dataLba = fs.dataLba := congrArg Shape.dataLba after.shape_eq
  have place₂ : fs₂.dataLba = fs.dataLba := congrArg Shape.dataLba before.shape_eq
  have startSmall : start % 2 ^ 32 = start := Nat.mod_eq_of_lt (by omega)
  have countSmall : blocksFor data.length % 2 ^ 32 = blocksFor data.length :=
    Nat.mod_eq_of_lt (by omega)
  have sizeSmall : data.length % 2 ^ 32 = data.length :=
    Nat.mod_eq_of_lt (Nat.lt_of_le_of_lt size (by decide))
  have written := Directory.entry_setEntry_self dir slot name kFile 1 start data.length
    (blocksFor data.length)
  rw [startSmall, countSmall, sizeSmall, ← after.dir_eq] at written
  refine ⟨?_, ?_, ?_, ?_, ?_⟩
  · rw [written]
    exact ⟨rfl, show ¬kFile = kDir by decide⟩
  · rw [written]
  · rw [written]
  · rw [written, place]
    refine ⟨by dsimp only; omega, fun k inside aligned => ?_⟩
    rw [← place₂]
    exact writeData_addresses rfl loop k (Nat.zero_le k) inside aligned
  · have zero : min (0 * sector) data.length = 0 := by
      rw [Nat.zero_mul]
      exact Nat.zero_min _
    have stored := writeData_stores (Nat.zero_le _) (zero.symm ▸ loop)
    have whole := length_padded (le_blocksFor data.length)
    rw [Nat.add_zero, Nat.sub_zero, Nat.zero_mul, ← whole, slice_zero_length, place₂] at stored
    rw [written, place]
    refine Eq.trans (after.issued.extent_eq fun lba count within => Or.inl ?_) stored
    exact Nat.le_trans within.2 (Nat.le_add_right _ _)

end Reading

/-! ## Files that nothing else may touch -/

/-- Slot `i` is a file whose blocks are marked used and are in no other active entry. -/
structure Protected {D : Type} (fs : Rpfs D) (i : Fin dirEntries) : Prop where
  isFile : (fs.dir.entry i).IsFile
  used : ∀ b, (fs.dir.entry i).Owns b → Used fs.bitmap b
  apart : ∀ j, j ≠ i → (fs.dir.entry j).Active → ∀ b, (fs.dir.entry i).Owns b →
    ¬(fs.dir.entry j).Owns b

/-- Where the allocation is exact, every file is protected. -/
theorem Allocated.protected {D : Type} {fs : Rpfs D} (alloc : fs.Allocated) {i : Fin dirEntries}
    (isFile : (fs.dir.entry i).IsFile) : Protected fs i where
  isFile := isFile
  used b mine := (alloc.exact.used_iff b).mpr ⟨i, isFile.1, mine⟩
  apart j different active b mine theirs :=
    different (alloc.exact.unique j i b ⟨active, theirs⟩ ⟨isFile.1, mine⟩)

/-- An entry after parents were created owns what it owned before. -/
theorem ParentsAdded.owns {name : List UInt8} {dir dir' : Directory}
    (added : ParentsAdded name dir dir') {j : Fin dirEntries} {b : Nat}
    (active : (dir'.entry j).Active) (owned : (dir'.entry j).Owns b) :
    (dir.entry j).Active ∧ (dir.entry j).Owns b := by
  rcases added.entry j with same | ⟨-, p, -, -, created⟩
  · rw [same] at active owned
    exact ⟨active, owned⟩
  · rw [created] at active owned
    exact absurd ⟨active, owned⟩ (Entry.not_holds_of_empty rfl b)

section Protection

variable {D : Type} {fs fs' : Rpfs D} {i : Fin dirEntries}

/-- A protected file's slot is not the one another path is written to. -/
theorem Released.ne_slot {name : List UInt8} {slot : Fin dirEntries} {bitmap : List UInt8}
    (released : Released fs name slot bitmap) (safe : Protected fs i)
    (other : name ≠ (fs.dir.entry i).name) : i ≠ slot := by
  rintro rfl
  rcases released.slot_entry with ⟨-, -, named⟩ | ⟨-, -, unused⟩
  · exact other named.symm
  · exact safe.isFile.1.not_free unused

/-- Clearing another active entry's bits leaves those of a protected file. -/
theorem Protected.used_of_freed {slot : Fin dirEntries} {bitmap : List UInt8}
    (safe : Protected fs i) (different : slot ≠ i) (active : (fs.dir.entry slot).Active)
    (freed : Filled fs.bitmap bitmap (min (fs.dir.entry slot).start fs.totalBlocks)
      (min ((fs.dir.entry slot).start + (fs.dir.entry slot).nblocks) fs.totalBlocks) false)
    (b : Nat) (mine : (fs.dir.entry i).Owns b) : Used bitmap b := by
  have apart := safe.apart slot different active b mine
  rw [Entry.Owns] at apart
  rw [Used, freed.outside b (by omega)]
  exact safe.used b mine

theorem Released.used {name : List UInt8} {slot : Fin dirEntries} {bitmap : List UInt8}
    (released : Released fs name slot bitmap) (safe : Protected fs i) (elsewhere : i ≠ slot)
    (b : Nat) (mine : (fs.dir.entry i).Owns b) : Used bitmap b := by
  cases released with
  | overwrite found isFile freed =>
      exact safe.used_of_freed elsewhere.symm (Directory.find_eq_some.mp found).1.1 freed b mine
  | fresh => exact safe.used b mine

/-- Slots that own nothing new keep a protected file protected. -/
theorem Protected.keep (safe : Protected fs i) (entry : fs'.dir.entry i = fs.dir.entry i)
    (used : ∀ b, (fs.dir.entry i).Owns b → Used fs'.bitmap b)
    (others : ∀ j, j ≠ i → (fs'.dir.entry j).Active → ∀ b, (fs.dir.entry i).Owns b →
      (fs'.dir.entry j).Owns b → (fs.dir.entry j).Active ∧ (fs.dir.entry j).Owns b) :
    Protected fs' i := by
  refine ⟨?_, fun b mine => ?_, fun j different active b mine theirs => ?_⟩
  · rw [entry]
    exact safe.isFile
  · rw [entry] at mine
    exact used b mine
  · rw [entry] at mine
    obtain ⟨wasActive, wasTheirs⟩ := others j different active b mine theirs
    exact safe.apart j different wasActive b mine wasTheirs

end Protection

/-- The operation is not a write or a delete of the path. -/
def Op.Spares (name : List UInt8) : Op → Prop
  | .write other _ | .delete other => other ≠ name
  | .mkdir _ | .read _ _ => True

section Keeps

variable {D : Type} [LawfulBlockDev D] {fs fs' : Rpfs D} {i : Fin dirEntries}

/-- The file in slot `i` is as it was, and still protected. -/
structure Keeps (fs fs' : Rpfs D) (i : Fin dirEntries) : Prop where
  isProtected : Protected fs' i
  entry_eq : fs'.dir.entry i = fs.dir.entry i
  blocks_eq : blocksOf fs' i = blocksOf fs i

theorem Keeps.trans {fs'' : Rpfs D} (first : Keeps fs fs' i) (second : Keeps fs' fs'' i) :
    Keeps fs fs'' i :=
  ⟨second.isProtected, second.entry_eq.trans first.entry_eq,
    second.blocks_eq.trans first.blocks_eq⟩

/-- A stored file that is kept is still stored. -/
theorem Stored.keep {data : List UInt8} (stored : Stored fs i data) (kept : Keeps fs fs' i)
    (same : fs'.shape = fs.shape) : Stored fs' i data := by
  have place : fs'.dataLba = fs.dataLba := congrArg Shape.dataLba same
  have blocks := kept.blocks_eq
  rw [blocksOf, blocksOf, kept.entry_eq, stored.nblocks_eq] at blocks
  refine ⟨?_, ?_, ?_, ?_, ?_⟩
  · exact kept.isProtected.isFile
  · rw [kept.entry_eq]
    exact stored.size_eq
  · rw [kept.entry_eq]
    exact stored.nblocks_eq
  · rw [kept.entry_eq, place]
    exact stored.addressable
  · rw [kept.entry_eq]
    exact blocks.trans stored.bytes

/-- Requests in the metadata and in blocks that slot `i` does not own leave its blocks. -/
theorem blocksOf_kept {start n : Nat} {dir : Directory} {bitmap : List UInt8}
    (effect : Becomes fs.shape (fs.shape.FileArea start n) fs fs' dir bitmap)
    (entry : fs'.dir.entry i = fs.dir.entry i)
    (apart : ∀ b, (fs.dir.entry i).Owns b → ¬(start ≤ b ∧ b < start + n)) :
    blocksOf fs' i = blocksOf fs i := by
  have place : fs'.dataLba = fs.dataLba := congrArg Shape.dataLba effect.shape_eq
  rw [blocksOf, blocksOf, entry, place]
  refine extent_congr fun x low high => effect.issued.content_eq fun lba count within => ?_
  have mine := apart (x - fs.dataLba) ⟨by omega, by omega⟩
  rcases within with ⟨-, below⟩ | ⟨above, below⟩
  · change lba + count ≤ fs.dataLba at below
    omega
  · change fs.dataLba + start ≤ lba at above
    change lba + count ≤ fs.dataLba + start + n at below
    omega

/-- Requests in the metadata leave every slot's blocks. -/
theorem blocksOf_meta {dir : Directory} {bitmap : List UInt8}
    (effect : Becomes fs.shape fs.shape.MetaArea fs fs' dir bitmap)
    (entry : fs'.dir.entry i = fs.dir.entry i) : blocksOf fs' i = blocksOf fs i := by
  have narrow : Becomes fs.shape (fs.shape.FileArea 0 0) fs fs' dir bitmap :=
    effect.mono fun _ _ => Or.inl
  exact blocksOf_kept narrow entry fun b _ => by omega

/-- **Operations on other paths keep a protected file**, whatever the device does. -/
theorem apply_keeps {op : Op} {ok : Bool} (wf : fs.WellFormed) (small : fs.totalBlocks < 2 ^ 32)
    (safe : Protected fs i) (spares : op.Spares (fs.dir.entry i).name)
    (done : fs.apply op = some (ok, fs')) : Keeps fs fs' i := by
  have inMeta : ∀ {R : Nat → Nat → Prop} {dir : Directory} {bitmap : List UInt8},
      Becomes fs.shape R fs fs' dir bitmap → (∀ lba count, R lba count → fs.shape.MetaArea lba count) →
        fs'.dir.entry i = fs.dir.entry i → blocksOf fs' i = blocksOf fs i := fun effect wider entry =>
    blocksOf_meta (effect.mono wider) entry
  have same : Keeps fs fs i := ⟨safe, rfl, rfl⟩
  cases op with
  | write name data =>
      cases writeFile_outcome wf done with
      | refused => exact same
      | @noSpace slot _ bitmap _ released _ effect =>
          have elsewhere := released.ne_slot safe spares
          have entry : fs'.dir.entry i = fs.dir.entry i := by
            rw [effect.dir_eq, Directory.entry_setEntry_of_ne _ elsewhere]
          refine ⟨safe.keep entry (fun b mine => ?_) fun j different active b _ theirs => ?_, entry,
            inMeta effect (fun _ _ within => within) entry⟩
          · rw [effect.bitmap_eq]
            exact released.used safe elsewhere b mine
          · rw [effect.dir_eq] at active theirs
            by_cases here : j = slot
            · subst here
              rw [Directory.entry_setEntry_self] at active
              exact absurd (show (-1 : Int8) = 1 from active) (by decide)
            · rw [Directory.entry_setEntry_of_ne _ here] at active theirs
              exact ⟨active, theirs⟩
      | @failed slot _ _ start bitmap _ _ released room free taken _ _ effect =>
          have elsewhere := released.ne_slot safe spares
          have entry : fs'.dir.entry i = fs.dir.entry i := by rw [effect.dir_eq]
          have kept := released.used safe elsewhere
          have apart : ∀ b, (fs.dir.entry i).Owns b →
              ¬(start ≤ b ∧ b < start + blocksFor data.length) := fun b mine inside =>
            Bool.false_ne_true ((free b inside.1 inside.2).symm.trans (kept b mine))
          refine ⟨safe.keep entry (fun b mine => ?_) fun j _ active b _ theirs => ?_, entry,
            blocksOf_kept effect entry apart⟩
          · have clear := apart b mine
            rw [Used, effect.bitmap_eq, taken.outside b (by omega)]
            exact kept b mine
          · rw [effect.dir_eq] at active theirs
            exact ⟨active, theirs⟩
      | @stored slot _ _ _ start bitmap _ dir _ released room free taken _ _ parents _ effect =>
          have elsewhere := released.ne_slot safe spares
          have entry : fs'.dir.entry i = fs.dir.entry i := by
            rw [effect.dir_eq, Directory.entry_setEntry_of_ne _ elsewhere,
              parents.entry_of_active safe.isFile.1]
          have kept := released.used safe elsewhere
          have apart : ∀ b, (fs.dir.entry i).Owns b →
              ¬(start ≤ b ∧ b < start + blocksFor data.length) := fun b mine inside =>
            Bool.false_ne_true ((free b inside.1 inside.2).symm.trans (kept b mine))
          refine ⟨safe.keep entry (fun b mine => ?_) fun j _ active b mine theirs => ?_, entry,
            blocksOf_kept effect entry apart⟩
          · have clear := apart b mine
            rw [Used, effect.bitmap_eq, taken.outside b (by omega)]
            exact kept b mine
          · rw [effect.dir_eq] at active theirs
            by_cases here : j = slot
            · subst here
              rw [Directory.entry_setEntry_self] at theirs
              have startSmall : start % 2 ^ 32 = start := Nat.mod_eq_of_lt (by omega)
              have countSmall : blocksFor data.length % 2 ^ 32 = blocksFor data.length :=
                Nat.mod_eq_of_lt (by omega)
              rw [startSmall, countSmall] at theirs
              exact absurd theirs (apart b mine)
            · rw [Directory.entry_setEntry_of_ne _ here] at active theirs
              exact parents.owns active theirs
  | delete name =>
      have ne_slot : ∀ {slot : Fin dirEntries}, fs.find name = some slot → slot ≠ i := by
        rintro slot found rfl
        exact spares (Directory.find_eq_some.mp found).1.2.symm
      have others : ∀ {slot j : Fin dirEntries} {b : Nat},
          ((fs.dir.tombstone slot).entry j).Active → ((fs.dir.tombstone slot).entry j).Owns b →
            (fs.dir.entry j).Active ∧ (fs.dir.entry j).Owns b := by
        intro slot j b active theirs
        by_cases here : j = slot
        · subst here
          exact absurd active (Directory.not_active_tombstone _ _)
        · rw [Directory.entry_tombstone_of_ne _ here] at active theirs
          exact ⟨active, theirs⟩
      cases deleteFile_outcome wf done with
      | refused => exact same
      | @dir slot _ found _ _ effect =>
          have entry : fs'.dir.entry i = fs.dir.entry i := by
            rw [effect.dir_eq, Directory.entry_tombstone_of_ne _ (ne_slot found).symm]
          refine ⟨safe.keep entry (fun b mine => ?_) fun j _ active b _ theirs => ?_, entry,
            inMeta effect (fun _ _ within => within) entry⟩
          · rw [effect.bitmap_eq]
            exact safe.used b mine
          · rw [effect.dir_eq] at active theirs
            exact others active theirs
      | @file slot _ bitmap found _ freed effect =>
          have entry : fs'.dir.entry i = fs.dir.entry i := by
            rw [effect.dir_eq, Directory.entry_tombstone_of_ne _ (ne_slot found).symm]
          refine ⟨safe.keep entry (fun b mine => ?_) fun j _ active b _ theirs => ?_, entry,
            inMeta effect (fun _ _ within => within) entry⟩
          · rw [effect.bitmap_eq]
            exact safe.used_of_freed (ne_slot found) (Directory.find_eq_some.mp found).1.1 freed b
              mine
          · rw [effect.dir_eq] at active theirs
            exact others active theirs
  | mkdir name =>
      have grown : ∀ {dir : Directory}, ParentsAdded name fs.dir dir →
          Becomes fs.shape fs.shape.DirArea fs fs' dir fs.bitmap → Keeps fs fs' i := by
        intro dir parents effect
        have entry : fs'.dir.entry i = fs.dir.entry i := by
          rw [effect.dir_eq, parents.entry_of_active safe.isFile.1]
        refine ⟨safe.keep entry (fun b mine => ?_) fun j _ active b _ theirs => ?_, entry,
          inMeta effect wf.meta_of_dir entry⟩
        · rw [effect.bitmap_eq]
          exact safe.used b mine
        · rw [effect.dir_eq] at active theirs
          exact parents.owns active theirs
      cases mkdir_outcome wf done with
      | refused => exact same
      | there _ _ parents _ effect => exact grown parents effect
      | full _ _ parents _ _ effect => exact grown parents effect
      | @made slot _ dir _ _ parents _ free effect =>
          have unused := (Directory.freeSlot_eq_some.mp free).1
          have elsewhere : i ≠ slot := by
            rintro rfl
            rw [parents.entry_of_active safe.isFile.1] at unused
            exact safe.isFile.1.not_free unused
          have entry : fs'.dir.entry i = fs.dir.entry i := by
            rw [effect.dir_eq, Directory.entry_setEntry_of_ne _ elsewhere,
              parents.entry_of_active safe.isFile.1]
          refine ⟨safe.keep entry (fun b mine => ?_) fun j _ active b _ theirs => ?_, entry,
            inMeta effect wf.meta_of_dir entry⟩
          · rw [effect.bitmap_eq]
            exact safe.used b mine
          · rw [effect.dir_eq] at active theirs
            by_cases here : j = slot
            · subst here
              rw [entry_setEntry_parent, if_pos rfl] at active theirs
              exact absurd ⟨active, theirs⟩ (Entry.not_holds_of_empty rfl b)
            · rw [Directory.entry_setEntry_of_ne _ here] at active theirs
              exact parents.owns active theirs
  | read name out =>
      obtain ⟨r, out', read⟩ := apply_read done
      have effect := readFile_spec read
      have entry : fs'.dir.entry i = fs.dir.entry i := by rw [effect.dir_eq]
      refine ⟨safe.keep entry (fun b mine => ?_) fun j _ active b _ theirs => ?_, entry,
        inMeta effect (fun _ _ impossible => impossible.elim) entry⟩
      · rw [effect.bitmap_eq]
        exact safe.used b mine
      · rw [effect.dir_eq] at active theirs
        exact ⟨active, theirs⟩

end Keeps

end RustyPenguin.Rpfs
