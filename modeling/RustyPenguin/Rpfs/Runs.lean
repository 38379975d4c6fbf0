import RustyPenguin.Foundation.Run
import RustyPenguin.Rpfs.Outcomes

/-!
# Runs of a volume

A volume starts formatted (`Formatted`) and then serves operations one after the other
(`Op`, `apply`). What an operation may do to it at all is stated here once: it keeps the
shape and writes only inside the volume (`apply_bounded`).
-/

set_option autoImplicit false

namespace RustyPenguin.Rpfs

open Buffer

/-! ## Operations -/

/-- A call of the volume's interface. -/
inductive Op where
  | write (name data : List UInt8)
  | delete (name : List UInt8)
  | mkdir (name : List UInt8)
  | read (name out : List UInt8)

/-- The path an operation is about. -/
def Op.name : Op → List UInt8
  | .write name _ | .delete name | .mkdir name | .read name _ => name

/-- Transfers inside the bitmap, the directory or the data blocks of the volume. -/
def Shape.VolumeArea (sh : Shape) (lba count : Nat) : Prop :=
  sh.bitmapLba ≤ lba ∧ lba + count ≤ sh.dataLba + sh.totalBlocks

section Runs

variable {D : Type} [BlockDev D]

/-- Serve one operation. A read answers whether it found the file. -/
def apply (fs : Rpfs D) : Op → Option (Bool × Rpfs D)
  | .write name data => fs.writeFile name data
  | .delete name => fs.deleteFile name
  | .mkdir name => fs.mkdir name
  | .read name out => (fs.readFile name out).map fun answer => (answer.1.isSome, answer.2.2)

theorem apply_read {fs fs' : Rpfs D} {name out : List UInt8} {ok : Bool}
    (done : fs.apply (.read name out) = some (ok, fs')) :
    ∃ r out', fs.readFile name out = some (r, out', fs') := by
  obtain ⟨⟨r, out', fs₁⟩, read, same⟩ := Option.map_eq_some_iff.mp done
  cases same
  exact ⟨r, out', read⟩

/-- What a step did not change and where it wrote. -/
structure Bounded (fs fs' : Rpfs D) (R : Nat → Nat → Prop) : Prop where
  shape_eq : fs'.shape = fs.shape
  issued : Issues R fs.dev fs'.dev

theorem Becomes.bounded {fs fs' : Rpfs D} {R R' : Nat → Nat → Prop} {dir : Directory}
    {bitmap : List UInt8} (effect : Becomes fs.shape R fs fs' dir bitmap)
    (wider : ∀ lba count, R lba count → R' lba count) : Bounded fs fs' R' :=
  ⟨effect.shape_eq, effect.issued.mono wider⟩

namespace Shape

variable {sh : Shape}

theorem volume_of_meta (lba count : Nat) (within : sh.MetaArea lba count) :
    sh.VolumeArea lba count := ⟨within.1, by have := within.2; omega⟩

theorem WellFormed.volume_of_file (wf : sh.WellFormed) {start n : Nat}
    (room : start + n ≤ sh.totalBlocks) (lba count : Nat) (within : sh.FileArea start n lba count) :
    sh.VolumeArea lba count := by
  have first := wf.dirLba_eq
  have second := wf.dataLba_eq
  rcases within with inMeta | ⟨low, high⟩
  · exact volume_of_meta lba count inMeta
  · exact ⟨by omega, by omega⟩

end Shape

/-- **Every operation keeps the shape and writes inside the volume.** -/
theorem apply_bounded {fs fs' : Rpfs D} {op : Op} {ok : Bool} (wf : fs.WellFormed)
    (done : fs.apply op = some (ok, fs')) : Bounded fs fs' fs.shape.VolumeArea := by
  have inDir : ∀ lba count, fs.shape.DirArea lba count → fs.shape.VolumeArea lba count :=
    fun lba count within => Shape.volume_of_meta lba count (wf.meta_of_dir lba count within)
  cases op with
  | write name data =>
      cases writeFile_outcome wf done with
      | refused => exact ⟨rfl, Issues.refl _⟩
      | noSpace _ _ _ effect => exact effect.bounded Shape.volume_of_meta
      | failed _ _ room _ _ _ _ effect => exact effect.bounded (wf.volume_of_file room)
      | stored _ _ room _ _ _ _ _ _ effect => exact effect.bounded (wf.volume_of_file room)
  | delete name =>
      cases deleteFile_outcome wf done with
      | refused => exact ⟨rfl, Issues.refl _⟩
      | dir _ _ _ effect => exact effect.bounded Shape.volume_of_meta
      | file _ _ _ effect => exact effect.bounded Shape.volume_of_meta
  | mkdir name =>
      cases mkdir_outcome wf done with
      | refused => exact ⟨rfl, Issues.refl _⟩
      | there _ _ _ _ effect => exact effect.bounded inDir
      | full _ _ _ _ _ effect => exact effect.bounded inDir
      | made _ _ _ _ _ effect => exact effect.bounded inDir
  | read name out =>
      obtain ⟨r, out', read⟩ := apply_read done
      exact (readFile_spec read).bounded fun _ _ impossible => impossible.elim

/-- A run of operations on a volume, each meeting `C` in the state it was called in. -/
abbrev RunFrom (C : Rpfs D → Op → Prop) (fs₀ : Rpfs D) (history : List (Op × Bool))
    (fs : Rpfs D) : Prop := Run apply C fs₀ history fs

/-- No restriction on the operations of a run. -/
def Any (_ : Rpfs D) (_ : Op) : Prop := True

theorem run_bounded {C : Rpfs D → Op → Prop} {fs₀ fs : Rpfs D} {history : List (Op × Bool)}
    (wf : fs₀.WellFormed) (run : RunFrom C fs₀ history fs) : Bounded fs₀ fs fs₀.shape.VolumeArea := by
  refine run.invariant (P := fun fs => Bounded fs₀ fs fs₀.shape.VolumeArea) ⟨rfl, Issues.refl _⟩ ?_
  intro fs op ok fs' before _ done
  have step := apply_bounded (show Shape.WellFormed _ from before.shape_eq ▸ wf) done
  rw [before.shape_eq] at step
  exact ⟨step.shape_eq.trans before.shape_eq, before.issued.trans step.issued⟩

/-! ## Honoured writes -/

/-- Every data write recorded between two states was honoured. -/
def DataHonoured {D : Type} (fs fs' : Rpfs (Recorder D)) : Prop :=
  ∀ q ∈ fs.dev.since fs'.dev, q.isWrite = true → fs.dataLba ≤ q.lba → q.honoured = true

/-- What was honoured on a stretch was honoured on its parts. -/
theorem DataHonoured.split {fs₀ fs fs' : Rpfs (Recorder D)} {R R' : Nat → Nat → Prop}
    (honoured : DataHonoured fs₀ fs') (first : Bounded fs₀ fs R) (second : Bounded fs fs' R') :
    DataHonoured fs₀ fs ∧ DataHonoured fs fs' := by
  have early := first.issued.any
  have late := second.issued.any
  have place : fs.dataLba = fs₀.dataLba := congrArg Shape.dataLba first.shape_eq
  exact ⟨fun q member => honoured q (early.since_right late member),
    fun q member isWrite low => honoured q (early.since_left late member) isWrite (place ▸ low)⟩

/-- A data loop that reports failure was refused a data write. -/
theorem not_dataHonoured {fs fs₂ fs' : Rpfs (Recorder D)} {data : List UInt8} {start n : Nat}
    {R : Nat → Nat → Prop} {dir : Directory} {bitmap : List UInt8}
    (before : Becomes fs.shape R fs fs₂ dir bitmap)
    (loop : writeData data start n fs₂ 0 0 = some (false, fs')) : ¬DataHonoured fs fs' := by
  intro honoured
  obtain ⟨q, member, isWrite, low, refused⟩ := writeData_refused loop
  have early := before.issued.any
  have late := (writeData_spec before.shape_eq loop).issued.any
  have place : fs₂.dataLba = fs.dataLba := congrArg Shape.dataLba before.shape_eq
  have granted := honoured q (early.since_left late member) isWrite (place ▸ low)
  exact Bool.false_ne_true (refused.symm.trans granted)

/-! ## Formatted volumes -/

/-- A volume just formatted: on any device, at any place, with any geometry of two 32-bit
words. -/
def Formatted (fs₀ : Rpfs D) : Prop :=
  ∃ (dev : D) (base totalBlocks bitmapSectors : Nat), totalBlocks < 2 ^ 32 ∧ bitmapSectors < 2 ^ 32 ∧
    formatVolume dev base totalBlocks bitmapSectors = some fs₀

/-- Transfers inside the `n` sectors from `lo` on. -/
def Within (lo n lba count : Nat) : Prop := lo ≤ lba ∧ lba + count ≤ lo + n

theorem flushChunks_spec {bytes : List UInt8} {lba total : Nat} {sh : Shape} :
    ∀ {fs fs' : Rpfs D} {done : Nat}, fs.shape = sh →
      fs.flushChunks bytes lba total done = some fs' →
        Becomes sh (Within (lba + done) (total - done)) fs fs' fs.dir fs.bitmap := by
  intro fs fs' done same flushed
  induction left : total - done using Nat.strongRecOn generalizing fs done with
  | ind left ih =>
      subst left
      rw [flushChunks] at flushed
      split at flushed
      · rename_i more
        simp only [Option.bind_eq_some_iff] at flushed
        obtain ⟨buf, window, place, sum, rest⟩ := flushed
        obtain ⟨fits, rfl⟩ := slice?_eq_some.mp window
        obtain ⟨-, rfl⟩ := addU64_eq_some.mp sum
        have first : Becomes sh (Within (lba + done) (total - done)) fs
            (fs.devWrite (lba + done) (min (total - done) 64)
              (slice bytes (done * sector) (min (total - done) 64 * sector))).2 fs.dir fs.bitmap :=
          ⟨same, rfl, rfl, Issues.of_write (length_slice fits) ⟨Nat.le_refl _, by omega⟩⟩
        refine first.keeps ((ih _ (by omega) first.shape_eq rest rfl).mono ?_)
        rintro lba' count ⟨low, high⟩
        exact ⟨by omega, by omega⟩
      · cases flushed
        exact Becomes.refl same

/-- **A formatted volume is empty**: every slot and every block of it is free. -/
structure Fresh (fs : Rpfs D) : Prop where
  wf : fs.WellFormed
  ready : fs.ready = true
  dir_eq : fs.dir = Directory.zero
  bitmap_eq : fs.bitmap = List.replicate fs.bitmap.length 0
  totalBlocks_lt : fs.totalBlocks < 2 ^ 32
  bitmapSectors_lt : fs.bitmapSectors < 2 ^ 32

omit [BlockDev D] in
theorem layout_some {dev : D} {base totalBlocks bitmapSectors : Nat} {fs : Rpfs D}
    (done : layout dev base totalBlocks bitmapSectors = some fs) :
    base + 1 + bitmapSectors + dirSectors < 2 ^ 64 ∧ fs =
      { dev, base, totalBlocks, bitmapSectors
        bitmapLba := base + 1
        dirLba := base + 1 + bitmapSectors
        dataLba := base + 1 + bitmapSectors + dirSectors
        bitmap := List.replicate (bitmapSectors * sector) 0
        dir := Directory.zero
        scratch := List.replicate (scratchSectors * sector) 0
        ready := false } := by
  simp only [layout, Option.bind_eq_bind, Option.bind_eq_some_iff] at done
  obtain ⟨_, first, _, second, _, third, result⟩ := done
  obtain ⟨-, rfl⟩ := addU64_eq_some.mp first
  obtain ⟨-, rfl⟩ := addU64_eq_some.mp second
  obtain ⟨fits, rfl⟩ := addU64_eq_some.mp third
  exact ⟨fits, (Option.some.inj result).symm⟩

omit [BlockDev D] in
theorem layout_wellFormed {dev : D} {base totalBlocks bitmapSectors : Nat} {fs : Rpfs D}
    (done : layout dev base totalBlocks bitmapSectors = some fs) : fs.WellFormed := by
  obtain ⟨-, rfl⟩ := layout_some done
  exact ⟨rfl, rfl, rfl, List.length_replicate, List.length_replicate⟩

/-- The steps of formatting a laid-out volume. -/
theorem format_some {fs fs' : Rpfs D} (done : fs.format = some fs') :
    ∃ fs₁ fs₂ : Rpfs D,
      fs₁ = flushSuper { fs with bitmap := List.replicate fs.bitmap.length 0
                                 dir := Directory.zero } ∧
      fs₁.flushBitmapAll = some fs₂ ∧ fs₂.flushDirAll = some fs' := by
  simp only [format, Option.bind_eq_bind, Option.bind_eq_some_iff] at done
  obtain ⟨fs₂, bits, entries⟩ := done
  exact ⟨_, fs₂, rfl, bits, entries⟩

/-- Formatting writes the superblock and then metadata. -/
theorem format_spec {fs fs' : Rpfs D} (wf : fs.WellFormed) (done : fs.format = some fs') :
    Becomes fs.shape (Within fs.base (1 + fs.bitmapSectors + dirSectors)) fs fs' Directory.zero
      (List.replicate fs.bitmap.length 0) := by
  obtain ⟨fs₁, fs₂, rfl, bits, entries⟩ := format_some done
  have first := wf.bitmapLba_eq
  have second := wf.dirLba_eq
  change fs.bitmapLba = fs.base + 1 at first
  change fs.dirLba = fs.bitmapLba + fs.bitmapSectors at second
  have super : Becomes fs.shape (Within fs.base (1 + fs.bitmapSectors + dirSectors)) fs
      (flushSuper { fs with bitmap := List.replicate fs.bitmap.length 0, dir := Directory.zero })
      Directory.zero (List.replicate fs.bitmap.length 0) := by
    refine ⟨?_, rfl, rfl, Issues.of_write ?_ ⟨Nat.le_refl _, ?_⟩⟩
    · exact shape_bitmap fs List.length_replicate
    · exact length_superSector _ _
    · dsimp only
      omega
  refine (super.keeps ((flushChunks_spec super.shape_eq bits).mono ?_)).keeps
    ((flushChunks_spec (flushChunks_spec super.shape_eq bits).shape_eq entries).mono ?_)
  · rintro lba count ⟨low, high⟩
    change fs.bitmapLba + 0 ≤ lba at low
    change lba + count ≤ fs.bitmapLba + 0 + (fs.bitmapSectors - 0) at high
    exact ⟨by omega, by omega⟩
  · rintro lba count ⟨low, high⟩
    have place : fs₂.dirLba = fs.dirLba :=
      congrArg Shape.dirLba (flushChunks_spec super.shape_eq bits).shape_eq
    rw [place] at low high
    exact ⟨by omega, by omega⟩

/-- **A formatted volume is fresh.** -/
theorem Formatted.fresh {fs₀ : Rpfs D} (formatted : Formatted fs₀) : Fresh fs₀ := by
  obtain ⟨dev, base, totalBlocks, bitmapSectors, small, small', done⟩ := formatted
  simp only [formatVolume, Option.bind_eq_bind, Option.bind_eq_some_iff] at done
  obtain ⟨fs, laid, fs₁, formatted, result⟩ := done
  cases result
  have wf := layout_wellFormed laid
  have effect := format_spec wf formatted
  obtain ⟨-, laidOut⟩ := layout_some laid
  have same := effect.shape_eq
  have total : fs₁.totalBlocks = totalBlocks :=
    (congrArg Shape.totalBlocks same).trans (by rw [laidOut]; rfl)
  have sectors : fs₁.bitmapSectors = bitmapSectors :=
    (congrArg Shape.bitmapSectors same).trans (by rw [laidOut]; rfl)
  have length : fs₁.bitmap.length = fs.bitmap.length := congrArg Shape.bitmapLength same
  have wf₁ : fs₁.WellFormed := show Shape.WellFormed _ from same ▸ wf
  refine ⟨?_, rfl, effect.dir_eq, ?_, ?_, ?_⟩
  · exact ⟨wf₁.bitmapLba_eq, wf₁.dirLba_eq, wf₁.dataLba_eq, wf₁.bitmapLength_eq,
      wf₁.scratchLength_eq⟩
  · exact effect.bitmap_eq.trans (by rw [length])
  · exact total ▸ small
  · exact sectors ▸ small'

end Runs

end RustyPenguin.Rpfs
