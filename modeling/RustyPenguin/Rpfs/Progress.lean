import RustyPenguin.Rpfs.Runs

/-!
# Operations that do not fault

An operation faults when an index leaves a vector or a sum leaves its word. It does
not on a volume whose bitmap covers its blocks and whose blocks have 64-bit addresses
(`Shape.Roomy`), as long as the extents in the directory are such that their ends can be
computed (`Directory.Addressable`); `apply_total` says so for every operation, and
`apply_addressable` that the operations keep it so.
-/

set_option autoImplicit false

namespace RustyPenguin.Rpfs

open Buffer

/-- The bitmap covers the blocks, and block numbers and addresses fit their words. -/
structure Shape.Roomy (sh : Shape) : Prop where
  covered : sh.totalBlocks ≤ 8 * sh.bitmapLength
  words : sh.totalBlocks < 2 ^ 32
  areas : sh.dataLba < 2 ^ 64
  addresses : sh.dataLba + sh.totalBlocks ≤ 2 ^ 64

/-- The addresses of the chunks in which `n` blocks from `start` on are transferred. -/
def ChunksFit (dataLba start n : Nat) : Prop :=
  ∀ k < n, k % scratchSectors = 0 → dataLba + (start + k) < 2 ^ 64

/-- The end of the extent and the addresses of its chunks fit their words. -/
def Entry.Addressable (e : Entry) (dataLba : Nat) : Prop :=
  e.start + e.nblocks < 2 ^ 32 ∧ ChunksFit dataLba e.start e.nblocks

instance (dataLba start n : Nat) : Decidable (ChunksFit dataLba start n) :=
  inferInstanceAs (Decidable (∀ k < n, _))

instance (e : Entry) (dataLba : Nat) : Decidable (e.Addressable dataLba) :=
  inferInstanceAs (Decidable (_ ∧ _))

/-- Every file's extent can be addressed. -/
def Directory.Addressable (dir : Directory) (dataLba : Nat) : Prop :=
  ∀ i, (dir.entry i).IsFile → (dir.entry i).Addressable dataLba

section Progress

variable {D : Type} [BlockDev D] {fs : Rpfs D} {sh : Shape}

/-! ## The flushes and the parents -/

theorem flushDirEntry_total (wf : fs.WellFormed) (areas : fs.dataLba < 2 ^ 64)
    (i : Fin dirEntries) : ∃ fs', fs.flushDirEntry i = some fs' := by
  have inside := dirSector_lt i
  have size : fs.dataLba = fs.dirLba + dirSectors := wf.dataLba_eq
  refine exists_bind ⟨_, slice?_of_fits (dirSector_fits fs.dir inside)⟩ fun buf _ => ?_
  refine exists_bind ⟨_, addU64_of_lt (show fs.dirLba + dirSector i < 2 ^ 64 by omega)⟩ ?_
  exact fun lba _ => ⟨_, rfl⟩

theorem putEntry_total (wf : fs.WellFormed) (areas : fs.dataLba < 2 ^ 64) (i : Fin dirEntries)
    (name : List UInt8) (kind : UInt8) (trit : Int8) (start size nblocks : Nat) :
    ∃ fs', fs.putEntry i name kind trit start size nblocks = some fs' :=
  flushDirEntry_total (show (fs.setEntry i name kind trit start size nblocks).WellFormed from wf)
    areas i

theorem flushBitmapLoop_total (wf : sh.WellFormed) (areas : sh.dataLba < 2 ^ 64) :
    ∀ {left s : Nat} {fs : Rpfs D}, fs.shape = sh → ∃ fs', fs.flushBitmapLoop left s = some fs'
  | 0, _, fs, _ => ⟨fs, rfl⟩
  | left + 1, s, fs, same => by
      rw [flushBitmapLoop]
      split
      · exact ⟨fs, rfl⟩
      · rename_i within
        have wf' : fs.WellFormed := show Shape.WellFormed _ from same ▸ wf
        have size : fs.bitmap.length = fs.bitmapSectors * sector := wf'.bitmapLength_eq
        have next : fs.dirLba = fs.bitmapLba + fs.bitmapSectors := wf'.dirLba_eq
        have last : fs.dataLba = fs.dirLba + dirSectors := wf'.dataLba_eq
        have small : fs.dataLba < 2 ^ 64 := by
          rw [← same] at areas
          exact areas
        have fits : s * sector + sector ≤ fs.bitmap.length := by omega
        have below := lt_of_sector_fits (size ▸ fits)
        rw [Option.bind_eq_bind, slice?_of_fits fits, Option.bind_some, Option.bind_eq_bind,
          addU64_of_lt (by omega)]
        exact flushBitmapLoop_total wf areas ((shape_devWrite _ _ _ _).trans same)

theorem flushBitmapRange_total {start n : Nat} (wf : fs.WellFormed) (areas : fs.dataLba < 2 ^ 64)
    (fits : start + n < 2 ^ 32) : ∃ fs', fs.flushBitmapRange start n = some fs' := by
  rw [flushBitmapRange, addU32_of_lt fits]
  exact flushBitmapLoop_total wf areas rfl

theorem ensureParent_total (wf : fs.WellFormed) (areas : fs.dataLba < 2 ^ 64) (p : List UInt8) :
    ∃ fs', fs.ensureParent p = some fs' := by
  rw [ensureParent]
  split
  · exact ⟨fs, rfl⟩
  · split
    · exact putEntry_total wf areas _ _ _ _ _ _ _
    · exact ⟨fs, rfl⟩

theorem ensureParent_shape {fs' : Rpfs D} {p : List UInt8} (wf : fs.WellFormed)
    (done : fs.ensureParent p = some fs') : fs'.shape = fs.shape := by
  rcases ensureParent_some done with ⟨rfl, -⟩ | ⟨-, slot, -, put⟩
  · rfl
  · exact (putEntry_spec rfl wf put).shape_eq

theorem ensureParents_total (wf : fs.WellFormed) (areas : fs.dataLba < 2 ^ 64)
    (name : List UInt8) : ∃ fs', fs.ensureParents name = some fs' := by
  have scan : ∀ (rest : List UInt8) (idx : Nat) (fs : Rpfs D), fs.WellFormed →
      fs.dataLba < 2 ^ 64 → ∃ fs', ensureParentsFrom name fs idx rest = some fs' := by
    intro rest
    induction rest with
    | nil => exact fun _ fs _ _ => ⟨fs, rfl⟩
    | cons c rest ih =>
        intro idx fs wf areas
        rw [ensureParentsFrom]
        split
        · obtain ⟨mid, one⟩ := ensureParent_total wf areas (name.take idx)
          have same := ensureParent_shape wf one
          have place : mid.dataLba = fs.dataLba := congrArg Shape.dataLba same
          rw [one, Option.bind_some]
          exact ih _ mid (show Shape.WellFormed _ from same.symm ▸ wf) (place ▸ areas)
        · exact ih _ fs wf areas
  exact scan name 0 fs wf areas

/-! ## The loops -/

theorem writeData_total {data : List UInt8} {start nblocks : Nat}
    (words : start + nblocks < 2 ^ 32) :
    ∀ {fs : Rpfs D} {blk written : Nat}, fs.dataLba + (start + nblocks) ≤ 2 ^ 64 →
      fs.scratch.length = scratchSectors * sector →
        ∃ r, writeData data start nblocks fs blk written = some r := by
  intro fs blk written addresses size
  induction left : nblocks - blk using Nat.strongRecOn generalizing fs blk written with
  | ind left ih =>
      subst left
      rw [writeData]
      split
      · rename_i more
        dsimp only
        generalize cbytesEq : min (nblocks - blk) scratchSectors * sector = cbytes
        have chunkFits : cbytes ≤ fs.scratch.length := by
          rw [size, ← cbytesEq]
          exact Nat.mul_le_mul_right _ (Nat.min_le_right _ _)
        have copied := length_copied data written cbytes
        refine exists_bind ⟨_, blit?_of_fits (by omega)⟩ fun first firstEq => ?_
        obtain ⟨firstFits, rfl⟩ := blit?_eq_some.mp firstEq
        have firstLength := length_blit firstFits
        refine exists_bind ⟨_, blit?_of_fits (by rw [List.length_replicate]; omega)⟩
          fun second secondEq => ?_
        obtain ⟨secondFits, rfl⟩ := blit?_eq_some.mp secondEq
        have secondLength := length_blit secondFits
        refine exists_bind ⟨_, addU32_of_lt (by omega)⟩ fun block blockEq => ?_
        obtain ⟨-, rfl⟩ := addU32_eq_some.mp blockEq
        refine exists_bind ⟨_, addU64_of_lt (by omega)⟩ fun lba _ => ?_
        refine exists_bind ⟨_, slice?_of_fits (by omega)⟩ fun buf _ => ?_
        split
        · refine ih _ (by simp only [scratchSectors]; omega) addresses ?_ rfl
          exact secondLength.trans (firstLength.trans size)
        · exact ⟨_, rfl⟩
      · exact ⟨_, rfl⟩

theorem readData_total {start size nblocks : Nat} (words : start + nblocks < 2 ^ 32) :
    ∀ {fs : Rpfs D} {out : List UInt8} {blk filePos outPos : Nat},
      ChunksFit fs.dataLba start nblocks → fs.scratch.length = scratchSectors * sector →
        outPos ≤ out.length → (blk % scratchSectors = 0 ∨ nblocks ≤ blk) →
          ∃ r, readData start size nblocks fs out blk filePos outPos = some r := by
  intro fs out blk filePos outPos addresses scratchSize inside aligned
  induction left : nblocks - blk using Nat.strongRecOn generalizing fs out blk filePos outPos with
  | ind left ih =>
      subst left
      rw [readData]
      split
      · rename_i more
        dsimp only
        generalize cbytesEq : min (nblocks - blk) scratchSectors * sector = cbytes
        have chunkFits : 0 + cbytes ≤ fs.scratch.length := by
          rw [scratchSize, Nat.zero_add, ← cbytesEq]
          exact Nat.mul_le_mul_right _ (Nat.min_le_right _ _)
        refine exists_bind ⟨_, addU32_of_lt (by omega)⟩ fun block blockEq => ?_
        obtain ⟨-, rfl⟩ := addU32_eq_some.mp blockEq
        have address := addresses blk more (aligned.resolve_right (by omega))
        refine exists_bind ⟨_, addU64_of_lt address⟩ fun lba _ => ?_
        refine exists_bind ⟨_, slice?_of_fits chunkFits⟩ fun buf window => ?_
        obtain ⟨-, rfl⟩ := slice?_eq_some.mp window
        have readLength := BlockDev.read_length fs.dev lba (min (nblocks - blk) scratchSectors)
          (slice fs.scratch 0 cbytes)
        rw [length_slice chunkFits] at readLength
        generalize BlockDev.read fs.dev lba (min (nblocks - blk) scratchSectors)
          (slice fs.scratch 0 cbytes) = answer at *
        have newLength : (blit fs.scratch 0 answer.2.1).length = fs.scratch.length :=
          length_blit (by omega)
        split
        · refine exists_bind ⟨_, slice?_of_fits (by omega)⟩ fun src srcEq => ?_
          obtain ⟨srcFits, rfl⟩ := slice?_eq_some.mp srcEq
          have srcLength := length_slice srcFits
          refine exists_bind ⟨_, blit?_of_fits (by omega)⟩ fun out₁ outEq => ?_
          obtain ⟨outFits, rfl⟩ := blit?_eq_some.mp outEq
          have outLength := length_blit outFits
          split
          · exact ⟨_, rfl⟩
          · refine ih _ (by simp only [scratchSectors]; omega) addresses
              (newLength.trans scratchSize) (by omega) ?_ rfl
            simp only [scratchSectors] at aligned ⊢
            omega
        · exact ⟨_, rfl⟩
      · exact ⟨_, rfl⟩

/-! ## The operations -/

/-- A file that a lookup finds has an addressable extent. -/
theorem Directory.Addressable.of_find {dir : Directory} {dataLba : Nat} {name : List UInt8}
    {i : Fin dirEntries} (addressable : dir.Addressable dataLba) (found : dir.find name = some i)
    (isFile : (dir.entry i).kind ≠ kDir) : (dir.entry i).Addressable dataLba :=
  addressable i ⟨(Directory.find_eq_some.mp found).1.1, isFile⟩

theorem slotFor_total (wf : fs.WellFormed) (roomy : fs.shape.Roomy)
    (addressable : fs.dir.Addressable fs.dataLba) (name : List UInt8) :
    ∃ r, fs.slotFor name = some r := by
  rw [slotFor]
  cases found : fs.find name with
  | none => exact ⟨_, rfl⟩
  | some i =>
      dsimp only
      split
      · exact ⟨_, rfl⟩
      · rename_i isFile
        have ends := (addressable.of_find found isFile).1
        refine exists_bind (freeRun_isSome roomy.covered ends) fun bitmap freed => ?_
        have same := shape_bitmap fs (freeRun_filled freed).length_eq
        refine exists_bind (flushBitmapRange_total ?_ roomy.areas ends) fun fs₁ _ => ⟨_, rfl⟩
        exact show Shape.WellFormed _ from same.symm ▸ wf

theorem storeFile_total (wf : fs.WellFormed) (roomy : fs.shape.Roomy) {start : Nat}
    {name data : List UInt8} (room : start + blocksFor data.length ≤ fs.totalBlocks)
    (slot : Fin dirEntries) : ∃ r, fs.storeFile slot start name data = some r := by
  have words := roomy.words
  have addresses := roomy.addresses
  change fs.totalBlocks < 2 ^ 32 at words
  change fs.dataLba + fs.totalBlocks ≤ 2 ^ 64 at addresses
  refine exists_bind (writeData_total (by omega) (by omega) wf.scratchLength_eq)
    fun ⟨ok, fs₁⟩ loop => ?_
  dsimp only
  split
  · have same₁ := (writeData_spec rfl loop).shape_eq
    have wf₁ : fs₁.WellFormed := show Shape.WellFormed _ from same₁.symm ▸ wf
    have areas₁ : fs₁.dataLba < 2 ^ 64 := by
      rw [show fs₁.dataLba = fs.dataLba from congrArg Shape.dataLba same₁]
      exact roomy.areas
    refine exists_bind (ensureParents_total wf₁ areas₁ name) fun fs₂ parents => ?_
    obtain ⟨dir, -, effect⟩ := ensureParents_spec same₁ wf parents
    have wf₂ : fs₂.WellFormed := show Shape.WellFormed _ from effect.shape_eq.symm ▸ wf
    have areas₂ : fs₂.dataLba < 2 ^ 64 := by
      rw [show fs₂.dataLba = fs.dataLba from congrArg Shape.dataLba effect.shape_eq]
      exact roomy.areas
    have wf₃ : (fs₂.setEntry slot name kFile 1 start data.length
        (blocksFor data.length)).WellFormed := wf₂
    refine exists_bind (flushBitmapRange_total wf₃ areas₂ (by omega)) fun fs₃ flushed => ?_
    have same₃ :=
      (flushBitmapRange_spec (shape_setEntry.trans effect.shape_eq) wf flushed).shape_eq
    refine exists_bind (flushDirEntry_total (show Shape.WellFormed _ from same₃.symm ▸ wf) ?_ slot)
      fun fs₄ _ => ⟨_, rfl⟩
    rw [show fs₃.dataLba = fs.dataLba from congrArg Shape.dataLba same₃]
    exact roomy.areas
  · exact ⟨_, rfl⟩

theorem writeFile_total (wf : fs.WellFormed) (roomy : fs.shape.Roomy)
    (addressable : fs.dir.Addressable fs.dataLba) (name data : List UInt8) :
    ∃ r, fs.writeFile name data = some r := by
  rw [writeFile]
  split
  · refine exists_bind (slotFor_total wf roomy addressable name) fun slotted slotting => ?_
    obtain ⟨slot, fs₁⟩ := slotted
    rcases slotFor_some slotting with ⟨rfl, rfl, -⟩ | ⟨slot, rfl, slotted⟩
    · exact ⟨_, rfl⟩
    · obtain ⟨-, first⟩ := slotted.spec rfl wf
      have roomy₁ : fs₁.shape.Roomy := first.shape_eq.symm ▸ roomy
      have wf₁ : fs₁.shape.WellFormed := first.shape_eq.symm ▸ wf
      refine exists_bind (allocRun_isSome roomy₁.covered roomy₁.words)
        fun run allocated => ?_
      obtain ⟨start, bitmap⟩ := run
      cases start with
      | none =>
          obtain ⟨rfl, -⟩ := allocRun_none (blocksFor_pos _) allocated
          refine exists_bind (putEntry_total wf₁ roomy₁.areas _ _ _ _ _ _ _)
            fun fs₂ _ => ⟨_, rfl⟩
      | some start =>
          obtain ⟨room, -, taken⟩ := allocRun_some allocated
          have same := shape_bitmap fs₁ taken.length_eq
          have wf₂ : ({ fs₁ with bitmap } : Rpfs D).WellFormed :=
            show Shape.WellFormed _ from same.symm ▸ wf₁
          exact storeFile_total wf₂ (same.symm ▸ roomy₁) room slot
  · exact ⟨_, rfl⟩

theorem dropEntry_total (wf : fs.WellFormed) (areas : fs.dataLba < 2 ^ 64)
    (i : Fin dirEntries) : ∃ r, fs.dropEntry i = some r :=
  exists_bind (flushDirEntry_total
    (show ({ fs with dir := fs.dir.tombstone i } : Rpfs D).WellFormed from wf) areas i)
    fun _ _ => ⟨_, rfl⟩

theorem deleteFile_total (wf : fs.WellFormed) (roomy : fs.shape.Roomy)
    (addressable : fs.dir.Addressable fs.dataLba) (name : List UInt8) :
    ∃ r, fs.deleteFile name = some r := by
  rw [deleteFile]
  split
  · cases found : fs.find name with
    | none => exact ⟨_, rfl⟩
    | some i =>
        dsimp only
        split
        · split
          · exact ⟨_, rfl⟩
          · exact dropEntry_total wf roomy.areas i
        · rename_i isFile
          have ends := (addressable.of_find found isFile).1
          refine exists_bind (freeRun_isSome roomy.covered ends) fun bitmap freed => ?_
          have same := shape_bitmap fs (freeRun_filled freed).length_eq
          refine exists_bind (flushBitmapRange_total
            (show Shape.WellFormed _ from same.symm ▸ wf) roomy.areas ends) fun fs₁ flushed => ?_
          have same₁ := (flushBitmapRange_spec same wf flushed).shape_eq
          refine dropEntry_total (show Shape.WellFormed _ from same₁.symm ▸ wf) ?_ i
          rw [show fs₁.dataLba = fs.dataLba from congrArg Shape.dataLba same₁]
          exact roomy.areas
  · exact ⟨_, rfl⟩

theorem mkdir_total (wf : fs.WellFormed) (areas : fs.dataLba < 2 ^ 64) (name : List UInt8) :
    ∃ r, fs.mkdir name = some r := by
  rw [mkdir]
  split
  · refine exists_bind (ensureParents_total wf areas name) fun fs₁ parents => ?_
    obtain ⟨dir, -, effect⟩ := ensureParents_spec rfl wf parents
    split
    · exact ⟨_, rfl⟩
    · split
      · refine exists_bind (putEntry_total (show Shape.WellFormed _ from effect.shape_eq.symm ▸ wf)
          ?_ _ _ _ _ _ _ _) fun fs₂ _ => ⟨_, rfl⟩
        rw [show fs₁.dataLba = fs.dataLba from congrArg Shape.dataLba effect.shape_eq]
        exact areas
      · exact ⟨_, rfl⟩
  · exact ⟨_, rfl⟩

theorem readFile_total (wf : fs.WellFormed) {name : List UInt8} (out : List UInt8)
    (ends : ∀ i, fs.find name = some i → (fs.dir.entry i).kind ≠ kDir →
      (fs.dir.entry i).Addressable fs.dataLba) : ∃ r, fs.readFile name out = some r := by
  rw [readFile]
  split
  · cases found : fs.find name with
    | none => exact ⟨_, rfl⟩
    | some i =>
        dsimp only
        split
        · exact ⟨_, rfl⟩
        · rename_i isFile
          obtain ⟨words, addresses⟩ := ends i found isFile
          exact readData_total words addresses wf.scratchLength_eq (Nat.zero_le _) (Or.inl rfl)
  · exact ⟨_, rfl⟩

/-- **No operation faults** on a roomy volume whose files can be addressed. -/
theorem apply_total (wf : fs.WellFormed) (roomy : fs.shape.Roomy)
    (addressable : fs.dir.Addressable fs.dataLba) (op : Op) : ∃ r, fs.apply op = some r := by
  cases op with
  | write name data => exact writeFile_total wf roomy addressable name data
  | delete name => exact deleteFile_total wf roomy addressable name
  | mkdir name => exact mkdir_total wf roomy.areas name
  | read name out =>
      obtain ⟨r, read⟩ := readFile_total wf out fun i => addressable.of_find
      exact ⟨_, by rw [apply, read]; rfl⟩

/-! ## Addressable extents stay addressable -/

/-- A directory stays addressable when a slot is given an entry that is one. -/
theorem Directory.Addressable.setEntry {dir : Directory} {dataLba : Nat}
    (addressable : dir.Addressable dataLba) (i : Fin dirEntries) (name : List UInt8) (kind : UInt8)
    (trit : Int8) {start size nblocks : Nat}
    (fits : trit = 1 → kind ≠ kDir →
      start + nblocks < 2 ^ 32 ∧ ChunksFit dataLba start nblocks) :
    (dir.setEntry i name kind trit start size nblocks).Addressable dataLba := by
  rintro j ⟨active, isFile⟩
  rw [Directory.entry_setEntry] at active isFile ⊢
  split at active
  · rename_i here
    rw [if_pos here] at isFile ⊢
    obtain ⟨words, addresses⟩ := fits active isFile
    have first := Nat.mod_le start (2 ^ 32)
    have second := Nat.mod_le nblocks (2 ^ 32)
    refine ⟨by dsimp only; omega, fun k inside aligned => ?_⟩
    have address := addresses k (Nat.lt_of_lt_of_le inside second) aligned
    dsimp only
    omega
  · rename_i elsewhere
    rw [if_neg elsewhere] at isFile ⊢
    exact addressable j ⟨active, isFile⟩

theorem Directory.Addressable.tombstone {dir : Directory} {dataLba : Nat}
    (addressable : dir.Addressable dataLba) (i : Fin dirEntries) :
    (dir.tombstone i).Addressable dataLba := by
  rintro j ⟨active, isFile⟩
  rw [Directory.entry_tombstone] at active isFile ⊢
  split at active
  · exact absurd (show (-1 : Int8) = 1 from active) (by decide)
  · rename_i elsewhere
    rw [if_neg elsewhere] at isFile ⊢
    exact addressable j ⟨active, isFile⟩

theorem ParentsAdded.addressable {name : List UInt8} {dir dir' : Directory} {dataLba : Nat}
    (added : ParentsAdded name dir dir') (addressable : dir.Addressable dataLba) :
    dir'.Addressable dataLba := by
  induction added with
  | refl => exact addressable
  | tail _ last ih =>
      obtain ⟨p, slot, -, -, -, rfl⟩ := last
      exact ih.setEntry slot p kDir 1 fun _ impossible => absurd rfl impossible

/-- **Operations keep every file addressable**: a data loop that stored a file could address all
of its chunks. -/
theorem apply_addressable {fs' : Rpfs D} {op : Op} {ok : Bool} (wf : fs.WellFormed)
    (small : fs.totalBlocks < 2 ^ 32) (addressable : fs.dir.Addressable fs.dataLba)
    (done : fs.apply op = some (ok, fs')) : fs'.dir.Addressable fs'.dataLba := by
  have place : fs'.dataLba = fs.dataLba := congrArg Shape.dataLba (apply_bounded wf done).shape_eq
  rw [place]
  cases op with
  | write name data =>
      cases writeFile_outcome wf done with
      | refused => exact addressable
      | noSpace _ _ _ effect =>
          rw [effect.dir_eq]
          exact addressable.setEntry _ _ _ _ fun impossible => absurd impossible (by decide)
      | failed _ _ _ _ _ _ _ effect =>
          rw [effect.dir_eq]
          exact addressable
      | stored _ _ room _ _ before loop parents _ effect =>
          have place₂ : _ = fs.dataLba := congrArg Shape.dataLba before.shape_eq
          rw [effect.dir_eq]
          refine (parents.addressable addressable).setEntry _ _ _ _ fun _ _ =>
            ⟨by omega, fun k inside aligned => ?_⟩
          rw [← place₂]
          exact writeData_addresses rfl loop k (Nat.zero_le k) inside aligned
  | delete name =>
      cases deleteFile_outcome wf done with
      | refused => exact addressable
      | dir _ _ _ effect =>
          rw [effect.dir_eq]
          exact addressable.tombstone _
      | file _ _ _ effect =>
          rw [effect.dir_eq]
          exact addressable.tombstone _
  | mkdir name =>
      cases mkdir_outcome wf done with
      | refused => exact addressable
      | there _ _ parents _ effect =>
          rw [effect.dir_eq]
          exact parents.addressable addressable
      | full _ _ parents _ _ effect =>
          rw [effect.dir_eq]
          exact parents.addressable addressable
      | made _ _ parents _ _ effect =>
          rw [effect.dir_eq]
          exact (parents.addressable addressable).setEntry _ _ _ _
            fun _ impossible => absurd rfl impossible
  | read name out =>
      obtain ⟨r, out', read⟩ := apply_read done
      rw [(readFile_spec read).dir_eq]
      exact addressable

/-- Every file is addressable after a run that started so. -/
theorem run_addressable {C : Rpfs D → Op → Prop} {fs₀ : Rpfs D} {history : List (Op × Bool)}
    (wf : fs₀.WellFormed) (small : fs₀.totalBlocks < 2 ^ 32)
    (addressable : fs₀.dir.Addressable fs₀.dataLba) (run : RunFrom C fs₀ history fs) :
    fs.dir.Addressable fs.dataLba := by
  refine (run.invariant
    (P := fun fs => fs.shape = fs₀.shape ∧ fs.dir.Addressable fs.dataLba) ⟨rfl, addressable⟩ ?_).2
  rintro fs op ok fs' ⟨same, addressable⟩ - done
  have wf' : fs.WellFormed := show fs.shape.WellFormed from same.symm ▸ wf
  have total : fs.totalBlocks = fs₀.totalBlocks := congrArg Shape.totalBlocks same
  exact ⟨(apply_bounded wf' done).shape_eq.trans same,
    apply_addressable wf' (total ▸ small) addressable done⟩

/-- **No operation of a run faults.** After any run from a roomy volume with addressable files,
every operation returns. -/
theorem run_total {C : Rpfs D → Op → Prop} {fs₀ : Rpfs D} {history : List (Op × Bool)}
    (wf : fs₀.WellFormed) (roomy : fs₀.shape.Roomy)
    (addressable : fs₀.dir.Addressable fs₀.dataLba) (run : RunFrom C fs₀ history fs) (op : Op) :
    ∃ r, fs.apply op = some r := by
  have same := (run_bounded wf run).shape_eq
  exact apply_total (show fs.shape.WellFormed from same.symm ▸ wf) (same.symm ▸ roomy)
    (run_addressable wf roomy.words addressable run) op

/-! ## Formatting -/

theorem flushChunks_total {bytes : List UInt8} {lba total : Nat}
    (size : bytes.length = total * sector) (areas : lba + total < 2 ^ 64) :
    ∀ {fs : Rpfs D} {done : Nat}, ∃ fs', fs.flushChunks bytes lba total done = some fs' := by
  intro fs done
  induction left : total - done using Nat.strongRecOn generalizing fs done with
  | ind left ih =>
      subst left
      rw [flushChunks]
      split
      · refine exists_bind ⟨_, slice?_of_fits ?_⟩ fun buf _ => ?_
        · rw [size, ← Nat.add_mul]
          exact Nat.mul_le_mul_right _ (by omega)
        · refine exists_bind ⟨_, addU64_of_lt (by omega)⟩ fun place _ => ?_
          exact ih _ (by omega) rfl
      · exact ⟨_, rfl⟩

omit [BlockDev D] in
theorem layout_total (dev : D) {base bitmapSectors : Nat} (totalBlocks : Nat)
    (areas : base + 1 + bitmapSectors + dirSectors < 2 ^ 64) :
    ∃ fs, layout dev base totalBlocks bitmapSectors = some fs := by
  refine exists_bind ⟨_, addU64_of_lt (by omega)⟩ fun bitmapLba sum => ?_
  obtain ⟨-, rfl⟩ := addU64_eq_some.mp sum
  refine exists_bind ⟨_, addU64_of_lt (by omega)⟩ fun dirLba sum => ?_
  obtain ⟨-, rfl⟩ := addU64_eq_some.mp sum
  exact exists_bind ⟨_, addU64_of_lt areas⟩ fun dataLba _ => ⟨_, rfl⟩

/-- **Formatting does not fault** when the metadata has 64-bit addresses, and gives the volume
the shape asked for. -/
theorem formatVolume_total (dev : D) {base bitmapSectors : Nat} (totalBlocks : Nat)
    (areas : base + 1 + bitmapSectors + dirSectors < 2 ^ 64) :
    ∃ fs₀, formatVolume dev base totalBlocks bitmapSectors = some fs₀ ∧
      Issues (fun _ _ => True) dev fs₀.dev ∧
      fs₀.shape = ⟨base, totalBlocks, base + 1, bitmapSectors, base + 1 + bitmapSectors,
        base + 1 + bitmapSectors + dirSectors, bitmapSectors * sector, scratchSectors * sector,
        true⟩ := by
  obtain ⟨fs, laid⟩ := layout_total dev totalBlocks areas
  obtain ⟨-, laidOut⟩ := layout_some laid
  have wf := layout_wellFormed laid
  have shape : fs.shape = ⟨base, totalBlocks, base + 1, bitmapSectors, base + 1 + bitmapSectors,
      base + 1 + bitmapSectors + dirSectors, bitmapSectors * sector, scratchSectors * sector,
      false⟩ := by
    rw [laidOut]
    simp only [Rpfs.shape, List.length_replicate]
  have formatted : ∃ fs₁, fs.format = some fs₁ := by
    refine exists_bind (flushChunks_total ?_ ?_) fun fs₁ flushed => flushChunks_total ?_ ?_
    · exact List.length_replicate.trans wf.bitmapLength_eq
    · rw [laidOut]
      exact show base + 1 + bitmapSectors < 2 ^ 64 by omega
    · exact fs₁.dir.length_eq
    · have same := (flushChunks_spec rfl flushed).shape_eq
      have place : fs₁.dirLba = fs.dirLba := congrArg Shape.dirLba same
      rw [place, laidOut]
      exact areas
  obtain ⟨fs₁, formatted⟩ := formatted
  have effect := format_spec wf formatted
  refine ⟨{ fs₁ with ready := true }, ?_, ?_, ?_⟩
  · rw [formatVolume, laid, Option.bind_eq_bind, Option.bind_some, formatted]
    rfl
  · have start : fs.dev = dev := by rw [laidOut]
    rw [← start]
    exact effect.issued.any
  · have same := effect.shape_eq.trans shape
    simp only [Rpfs.shape, Shape.mk.injEq] at same ⊢
    simp only [same, and_self]

omit [BlockDev D] in
/-- No slot of a fresh volume is in use. -/
theorem Fresh.inactive (fresh : Fresh fs) (i : Fin dirEntries) : ¬(fs.dir.entry i).Active := by
  intro active
  rw [fresh.dir_eq] at active
  exact absurd ((Directory.trit_zero i).symm.trans active) (by decide)

omit [BlockDev D] in
theorem Fresh.addressable (fresh : Fresh fs) (dataLba : Nat) : fs.dir.Addressable dataLba :=
  fun i isFile => absurd isFile.1 (fresh.inactive i)

/-- There are formatted volumes that no operation faults on, of every number of blocks that one
bitmap sector covers. -/
theorem exists_formatted (dev : D) (totalBlocks : Nat) (covered : totalBlocks ≤ 8 * sector) :
    ∃ fs₀, formatVolume dev 0 totalBlocks 1 = some fs₀ ∧ Formatted fs₀ ∧ fs₀.shape.Roomy ∧
      fs₀.totalBlocks = totalBlocks ∧ Issues (fun _ _ => True) dev fs₀.dev := by
  have areas : 0 + 1 + 1 + dirSectors < 2 ^ 64 := by decide
  obtain ⟨fs₀, done, issued, shape⟩ := formatVolume_total dev totalBlocks areas
  have small : totalBlocks ≤ 8 * 512 := covered
  have place : 0 + 1 + 1 + dirSectors = 514 := by decide
  refine ⟨fs₀, done, ⟨dev, 0, totalBlocks, 1, by omega, by decide, done⟩, ?_,
    congrArg Shape.totalBlocks shape, issued⟩
  rw [shape]
  refine ⟨?_, ?_, areas, ?_⟩
  · dsimp only
    rw [Nat.one_mul]
    exact covered
  · dsimp only
    omega
  · dsimp only
    omega

/-- On a fresh roomy volume no operation faults. -/
theorem Fresh.total (fresh : Fresh fs) (roomy : fs.shape.Roomy) (op : Op) :
    ∃ r, fs.apply op = some r := apply_total fresh.wf roomy (fresh.addressable _) op

end Progress

end RustyPenguin.Rpfs
