import RustyPenguin.Elf.Loaders

/-!
# What the loaders leave in an address space

A space that holds some pages holds, after the segments of a file were loaded into it, the pages of
the file laid over them (`loadSegmentsInto_spec`). Stack pages and the surface come after; that one
of them could not be mapped is not noticed, but a page that is already mapped can always be mapped
again, so on the pages of the program they are laid over as well (`Laid`).
-/

set_option autoImplicit false

namespace RustyPenguin.Elf

open Vmm
open Layers (overlay single top)
open LawfulFrameAlloc (InUse)

variable {A : Type} [LawfulFrameAlloc A] {roots : List (BitVec 64)} {vm vm' vm'' : State A}
  {root : BitVec 64} {pages pages' pages'' upper upper' : Nat → Option (Nat → BitVec 8)}

/-! ## Segments -/

/-- What is copied into a page fits in its frame. -/
theorem Segment.fill_fits {seg : Segment} {va : BitVec 64} {dstOff : Nat} {bytes : List (BitVec 8)}
    (filled : seg.fill va = some (dstOff, bytes)) : dstOff + bytes.length ≤ 4096 := by
  have pageEnd : (va + 4096).toNat = (va.toNat + 4096) % 2 ^ 64 := BitVec.toNat_add va 4096
  have small := va.isLt
  simp only [Segment.fill] at filled
  split at filled
  · split at filled
    · split at filled
      · cases filled
        rw [List.length_take]
        omega
      · cases filled
    · cases filled
      exact Nat.zero_le _
  · cases filled
    exact Nat.zero_le _

theorem loadPage_spec (holds : Holds roots root vm pages) {seg : Segment} {va : BitVec 64} {ok : Bool}
    (done : loadPage vm root seg va = some (ok, vm')) :
    Keeps roots vm vm' ∧ (ok = true →
      Holds roots root vm' (overlay (single (pageNumber va) (seg.contents va)) pages)) := by
  rw [loadPage] at done
  split at done
  · cases done
    exact ⟨Keeps.refl, fun isTrue => absurd isTrue Bool.false_ne_true⟩
  rename_i frame pmm alloc
  obtain ⟨⟨dstOff, bytes⟩, filled, mapped⟩ := Option.map_eq_some_iff.mp done
  have isFrame := LawfulFrameAlloc.isFrame alloc
  have fits := Segment.fill_fits filled
  have reads : SameButFor frame vm.mem
      (copyBytes (zeroFrame vm.mem frame) (frame.toNat + dstOff) bytes) := by
    intro g isFrame' other j
    rw [read64_copyBytes isFrame isFrame' other fits]
    exact read64_zeroFrame_of_ne isFrame isFrame' other
  have unstaged : SameButFor frame vm'.mem vm'.mem := fun _ _ _ _ => rfl
  obtain ⟨keeps, succeeded, -, -⟩ := holds.place alloc reads mapped unstaged
    fun same off inside => show frameByte vm'.mem frame off = seg.contents va off by
      rw [frameByte_congr isFrame same inside, frameByte_copyBytes, Segment.contents, filled,
        Segment.copied, frameByte_zeroFrame isFrame inside]
  refine ⟨keeps, fun isOk => ?_⟩
  rw [← Layers.update_eq_overlay]
  exact succeeded isOk

theorem loadPages_spec (holds : Holds roots root vm pages) {seg : Segment} (n : Nat) :
    ∀ {vm' : State A} {ok : Bool}, loadPages vm root seg n = some (ok, vm') →
      Keeps roots vm vm' ∧ (ok = true → Holds roots root vm'
        (overlay (top (fun i => single (pageNumber (seg.pageAt i)) (seg.contents (seg.pageAt i))) n)
          pages)) := by
  induction n with
  | zero =>
    rintro vm' ok ⟨⟩
    refine ⟨Keeps.refl, fun _ => ?_⟩
    rw [top, Layers.empty_overlay]
    exact holds
  | succ n ih =>
    intro vm' ok done
    rw [loadPages] at done
    split at done
    · rename_i vm₁ before
      obtain ⟨keeps, holds₁⟩ := ih before
      obtain ⟨keeps', holds'⟩ := loadPage_spec (holds₁ rfl) done
      refine ⟨keeps.trans keeps', fun isOk => ?_⟩
      rw [top, Layers.overlay_assoc]
      exact holds' isOk
    · rename_i other
      cases ok with
      | true => exact absurd done (other vm')
      | false => exact ⟨(ih done).1, fun isTrue => absurd isTrue Bool.false_ne_true⟩

theorem loadSegments_spec (holds : Holds roots root vm pages) {elf : File} {bias : BitVec 64}
    {table : HeaderTable} (n : Nat) :
    ∀ {vm' : State A} {ok : Bool}, loadSegments vm root elf bias table n = some (ok, vm') →
      Keeps roots vm vm' ∧
        (ok = true → Holds roots root vm' (overlay (imagePages elf bias table n) pages)) := by
  induction n with
  | zero =>
    rintro vm' ok ⟨⟩
    refine ⟨Keeps.refl, fun _ => ?_⟩
    rw [imagePages, top, Layers.empty_overlay]
    exact holds
  | succ n ih =>
    intro vm' ok done
    rw [loadSegments] at done
    split at done
    · rename_i vm₁ before
      obtain ⟨keeps, holds₁⟩ := ih before
      have holds₁ := holds₁ rfl
      split at done
      · cases done
      · rename_i skipped
        cases done
        refine ⟨keeps, fun _ => ?_⟩
        rw [imagePages, top, segmentPages, skipped, Layers.empty_overlay]
        exact holds₁
      · rename_i seg isSegment
        obtain ⟨keeps', holds'⟩ := loadPages_spec holds₁ _ done
        refine ⟨keeps.trans keeps', fun isOk => ?_⟩
        rw [imagePages, top, segmentPages, isSegment, Layers.overlay_assoc]
        exact holds' isOk
    · rename_i other
      cases ok with
      | true => exact absurd done (other vm')
      | false => exact ⟨(ih done).1, fun isTrue => absurd isTrue Bool.false_ne_true⟩

/-- **Loading a file lays its pages over those of the space.** -/
theorem loadSegmentsInto_spec (holds : Holds roots root vm pages) {elf : File} {bias : BitVec 64}
    (done : loadSegmentsInto vm root elf bias = some (true, vm')) :
    ∃ table, headerTable elf = some table ∧ Keeps roots vm vm' ∧
      Holds roots root vm' (overlay (imagePages elf bias table table.phnum.toNat) pages) := by
  rw [loadSegmentsInto] at done
  split at done
  · cases done
  · rename_i table isTable
    obtain ⟨keeps, holds'⟩ := loadSegments_spec holds _ done
    exact ⟨table, isTable, keeps, holds' rfl⟩

/-! ## What comes after them -/

/-- On the pages that were mapped, these are laid over. -/
def Laid (upper pages pages' : Nat → Option (Nat → BitVec 8)) : Prop :=
  ∀ page, page < lowPages → pages page ≠ none → pages' page = overlay upper pages page

theorem Laid.refl : Laid Layers.empty pages pages := by
  intro page _ _
  rw [Layers.empty_overlay]

theorem Laid.of_overlay : Laid upper pages (overlay upper pages) := fun _ _ _ => rfl

theorem Laid.trans (first : Laid upper pages pages') (second : Laid upper' pages' pages'') :
    Laid (overlay upper' upper) pages pages'' := by
  intro page low mapped
  have middle := first page low mapped
  have still : pages' page ≠ none := by
    rw [middle, overlay]
    cases upper page with
    | some c => exact Option.some_ne_none c
    | none => exact mapped
  rw [second page low still, Layers.overlay_assoc, overlay, middle]
  rfl

/-- A fresh frame for a page that need not be mapped. -/
theorem place_laid (holds : Holds roots root vm pages) {frame virt : BitVec 64} {pmm : A}
    (alloc : FrameAlloc.allocFrame vm.pmm = some (frame, pmm)) {mem' : Memory}
    (staged : SameButFor frame
      (State.mapPageIn (vm.take frame pmm) root virt frame pfw).2.mem mem')
    {contents : Nat → BitVec 8}
    (bytes : (∀ off, off < 4096 →
        frameByte (State.mapPageIn (vm.take frame pmm) root virt frame pfw).2.mem frame off = 0) →
      ∀ off, off < 4096 → frameByte mem' frame off = contents off) :
    Keeps roots vm
      { (State.mapPageIn (vm.take frame pmm) root virt frame pfw).2 with mem := mem' } ∧
    ∃ pages', Holds roots root
      { (State.mapPageIn (vm.take frame pmm) root virt frame pfw).2 with mem := mem' } pages' ∧
        Laid (single (pageNumber virt) contents) pages pages' := by
  have isFrame := LawfulFrameAlloc.isFrame alloc
  have zeroed : SameButFor frame vm.mem (zeroFrame vm.mem frame) := fun g isFrame' other j =>
    read64_zeroFrame_of_ne isFrame isFrame' other
  have done : State.mapPageIn (vm.take frame pmm) root virt frame pfw =
      ((State.mapPageIn (vm.take frame pmm) root virt frame pfw).1,
        (State.mapPageIn (vm.take frame pmm) root virt frame pfw).2) := rfl
  obtain ⟨keeps, succeeded, failed, always⟩ := holds.place alloc zeroed done staged
    fun same => bytes fun off inside =>
      (frameByte_congr isFrame same inside).trans (frameByte_zeroFrame isFrame inside)
  refine ⟨keeps, ?_⟩
  cases ok : (State.mapPageIn (vm.take frame pmm) root virt frame pfw).1 with
  | true =>
    refine ⟨_, succeeded ok, ?_⟩
    rw [Layers.update_eq_overlay]
    exact Laid.of_overlay
  | false =>
    refine ⟨pages, failed ok, fun page low mapped => ?_⟩
    have other : page ≠ pageNumber virt := by
      rintro rfl
      have fails := always low mapped
      exact absurd (ok.symm.trans fails) Bool.false_ne_true
    rw [Layers.overlay_of_none (Layers.single_eq_none.mpr other)]

/-- The pages of the stack, full of zeros. -/
def stackLayers (bottom : BitVec 64) (n : Nat) : Nat → Option (Nat → BitVec 8) :=
  top (fun i => single (pageNumber (stackPageAt bottom i)) fun _ => 0) n

theorem mapStack_spec (holds : Holds roots root vm pages) {bottom : BitVec 64} (n : Nat) :
    ∀ {vm' : State A} {frame : BitVec 64}, mapStack vm root bottom n = (some frame, vm') →
      Keeps roots vm vm' ∧ ∃ pages', Holds roots root vm' pages' ∧
        Laid (stackLayers bottom n) pages pages' := by
  induction n with
  | zero =>
    rintro vm' frame ⟨⟩
    exact ⟨Keeps.refl, pages, holds, Laid.refl⟩
  | succ n ih =>
    intro vm' frame done
    rw [mapStack] at done
    split at done
    · cases done
    rename_i vm₁ before
    obtain ⟨keeps, pages₁, holds₁, laid₁⟩ := ih before
    split at done
    · cases done
    rename_i frame pmm alloc
    cases done
    obtain ⟨keeps', pages', holds', laid'⟩ := place_laid holds₁ alloc (fun _ _ _ _ => rfl) fun zero => zero
    exact ⟨keeps.trans keeps', pages', holds', laid₁.trans laid'⟩

/-! ## The start block -/

theorem length_wordBytes (w : BitVec 64) : (wordBytes w).length = 8 := by
  rw [wordBytes, List.length_map, List.length_range]

theorem length_words (words : List (BitVec 64)) :
    (words.flatMap wordBytes).length = 8 * words.length := by
  induction words with
  | nil => rfl
  | cons w words ih =>
    rw [List.flatMap_cons, List.length_append, length_wordBytes, ih, List.length_cons]
    omega

theorem length_randomBytes (n : Nat) : ∀ x, (randomBytes n x).length = n := by
  induction n with
  | zero => intro x; rfl
  | succ n ih =>
    intro x
    rw [randomBytes, List.length_cons, ih]

theorem length_startWords (elf : File) (table : HeaderTable) (bias base entry : BitVec 64) :
    (startWords elf table bias base entry).length = 20 := rfl

/-- The top page of a Linux program's stack. -/
def startPage (ticks : BitVec 64) (words : List (BitVec 64)) (off : Nat) : BitVec 8 :=
  frameByte (stageStart 0 ticks words fun _ => 0) 0 off

section Stage

variable {frame ticks : BitVec 64} {words : List (BitVec 64)} {mem : Memory}

/-- Staging in a zeroed frame leaves the same bytes whatever the frame. -/
theorem frameByte_stageStart {off : Nat} (zero : frameByte mem frame off = 0) :
    frameByte (stageStart frame ticks words mem) frame off = startPage ticks words off := by
  have blank : frameByte (fun _ => 0) 0 off = 0 := by
    rw [frameByte, readByte, lane]
    exact BitVec.extractLsb'_zero
  simp only [startPage, stageStart, stage, frameByte_copyBytes, zero, blank]

theorem sameButFor_stage {uva : BitVec 64} {bytes : List (BitVec 8)} (isFrame : IsFrame frame)
    (fits : (uva - (userStackTop - 4096)).toNat + bytes.length ≤ 4096) :
    SameButFor frame mem (stage frame uva bytes mem) :=
  fun _ isFrame' other j => read64_copyBytes isFrame isFrame' other fits j

theorem sameButFor_stageStart (isFrame : IsFrame frame) (length : words.length = 20) :
    SameButFor frame mem (stageStart frame ticks words mem) := by
  have name : (argv0Ptr - (userStackTop - 4096)).toNat + argv0.length ≤ 4096 := by decide
  have random : (randPtr - (userStackTop - 4096)).toNat + 16 ≤ 4096 := by decide
  have block : (userRsp - (userStackTop - 4096)).toNat + 160 ≤ 4096 := by decide
  intro g isFrame' other j
  rw [stageStart, sameButFor_stage isFrame _ g isFrame' other, sameButFor_stage isFrame _ g isFrame' other,
    sameButFor_stage isFrame name g isFrame' other]
  · rw [length_randomBytes]
    exact random
  · rw [length_words, length]
    exact block

end Stage

/-- The stack of a Linux program with its start block. -/
def linuxLayers (ticks : BitVec 64) (words : List (BitVec 64)) : Nat → Option (Nat → BitVec 8) :=
  overlay (single (pageNumber (stackPageAt (stackBottom userStackTop userStackPages) 15))
    (startPage ticks words)) (stackLayers (stackBottom userStackTop userStackPages) 15)

/-- The last page of a stack may be written once more. -/
theorem finishStack_spec (holds : Holds roots root vm pages) {as_ ticks bottom : BitVec 64}
    {words : List (BitVec 64)} (length : words.length = 20) {n : Nat}
    (done : finishStack root ticks words (mapStack vm root bottom (n + 1)) = (some as_, vm')) :
    as_ = root ∧ ∃ pages', Holds roots root vm' pages' ∧
      Laid (overlay (single (pageNumber (stackPageAt bottom n)) (startPage ticks words))
        (stackLayers bottom n)) pages pages' := by
  rw [mapStack] at done
  split at done
  · cases done
  rename_i top vm₁ before
  obtain ⟨-, pages₁, holds₁, laid₁⟩ := mapStack_spec holds n before
  split at done
  · cases done
  rename_i frame pmm alloc
  cases done
  have isFrame := LawfulFrameAlloc.isFrame alloc
  obtain ⟨-, pages', holds', laid'⟩ := place_laid holds₁ alloc
    (@sameButFor_stageStart frame ticks words _ isFrame length)
    fun zero off inside => frameByte_stageStart (zero off inside)
  exact ⟨rfl, pages', holds', laid₁.trans laid'⟩

theorem linuxStack_spec (holds : Holds roots root vm pages) {as_ ticks : BitVec 64}
    {words : List (BitVec 64)} (length : words.length = 20)
    (done : linuxStack root ticks words vm = (some as_, vm')) :
    as_ = root ∧ ∃ pages', Holds roots root vm' pages' ∧ Laid (linuxLayers ticks words) pages pages' :=
  finishStack_spec holds length done

/-! ## Whole spaces -/

/-- The surface of a native program, if it has one. -/
def surfaceLayer (vm : State A) (fbFrame : BitVec 64) : Nat → Option (Nat → BitVec 8) :=
  if fbFrame = 0 then Layers.empty else single (pageNumber fbVa) (frameByte vm.mem fbFrame)

/-- The pages of a program, with what was mapped after them laid over. -/
def HoldsProgram (roots : List (BitVec 64)) (root : BitVec 64) (vm : State A) (elf : File)
    (bias : BitVec 64) (later : HeaderTable → Nat → Option (Nat → BitVec 8)) : Prop :=
  ∃ table pages, headerTable elf = some table ∧ Holds (root :: roots) root vm pages ∧
    Laid (later table) (imagePages elf bias table table.phnum.toNat) pages

theorem ring3ElfSpace_spec (wf : WellFormed roots vm) {elf : File} {stackTop fbFrame : BitVec 64}
    {stackPages : Nat} (surface : fbFrame ≠ 0 → IsData roots vm fbFrame)
    (done : ring3ElfSpace elf stackTop stackPages fbFrame vm = some (some root, vm')) :
    HoldsProgram roots root vm' elf 0 fun _ => overlay (surfaceLayer vm fbFrame)
      (stackLayers (stackBottom stackTop stackPages) (stackCount stackTop stackPages)) := by
  rw [ring3ElfSpace] at done
  split at done
  · cases done
  rename_i root' vm₁ made
  split at done
  · cases done
  · cases done
  rename_i vm₂ loaded
  split at done
  · cases done
  rename_i frame vm₃ stack
  cases done
  have holds₁ := Holds.new wf made
  obtain ⟨table, isTable, keeps₂, holds₂⟩ := loadSegmentsInto_spec holds₁ loaded
  obtain ⟨keeps₃, pages₃, holds₃, laid₃⟩ := mapStack_spec holds₂ _ stack
  have image : overlay (imagePages elf 0 table table.phnum.toNat) (fun _ => none) =
      imagePages elf 0 table table.phnum.toNat := Layers.overlay_empty _
  rw [image] at laid₃
  refine ⟨table, ?_⟩
  by_cases none : fbFrame = 0
  · rw [if_pos none, surfaceLayer, if_pos none, Layers.empty_overlay]
    exact ⟨pages₃, isTable, holds₃, laid₃⟩
  · rw [if_neg none, surfaceLayer, if_neg none]
    obtain ⟨isData₁, same₁⟩ := (surface none).new wf made
    obtain ⟨isData₃, same₃⟩ := (Keeps.trans keeps₂ keeps₃) isData₁
    have bytes : ∀ off, off < 4096 → frameByte vm₃.mem fbFrame off = frameByte vm.mem fbFrame off :=
      fun off inside => frameByte_congr isData₃.isFrame (fun j => (same₃ j).trans (same₁ j)) inside
    have done : vm₃.mapPageIn root fbVa fbFrame pfw = ((vm₃.mapPageIn root fbVa fbFrame pfw).1,
        (vm₃.mapPageIn root fbVa fbFrame pfw).2) := rfl
    obtain ⟨-, succeeded, failed, always⟩ := holds₃.mapPageIn isData₃ bytes done
    cases ok : (vm₃.mapPageIn root fbVa fbFrame pfw).1 with
    | true =>
      refine ⟨_, isTable, succeeded ok, laid₃.trans ?_⟩
      rw [Layers.update_eq_overlay]
      exact Laid.of_overlay
    | false =>
      refine ⟨pages₃, isTable, failed ok, laid₃.trans fun page low mapped => ?_⟩
      have other : page ≠ pageNumber fbVa := by
        rintro rfl
        exact absurd (ok.symm.trans (always low mapped)) Bool.false_ne_true
      rw [Layers.overlay_of_none (Layers.single_eq_none.mpr other)]

theorem linuxStaticSpace_spec (wf : WellFormed roots vm) {elf : File} {ticks : BitVec 64}
    (done : linuxStaticSpace elf ticks vm = some (some root, vm')) :
    ∃ entry, rdU64 elf 24 = some entry ∧ HoldsProgram roots root vm' elf 0 fun table =>
      linuxLayers ticks (startWords elf table 0 0 entry) := by
  rw [linuxStaticSpace] at done
  split at done
  · cases done
  rename_i root' vm₁ made
  split at done
  · rename_i table entry vm₂ isTable isEntry loaded
    obtain ⟨table', isTable', -, holds₂⟩ := loadSegmentsInto_spec (Holds.new wf made) loaded
    cases isTable.symm.trans isTable'
    rw [show overlay (imagePages elf 0 table table.phnum.toNat) (fun _ => none) =
      imagePages elf 0 table table.phnum.toNat from Layers.overlay_empty _] at holds₂
    obtain ⟨rfl, pages', holds', laid⟩ :=
      linuxStack_spec holds₂ (length_startWords _ _ _ _ _) (Option.some.inj done)
    exact ⟨entry, isEntry, table, pages', isTable, holds', laid⟩
  · cases done
  · cases done

/-- What comes after the segments of a program that may have an interpreter. -/
def dynLayers (ramfs : File → Option File) (elf : File) (ticks entry : BitVec 64)
    (table : HeaderTable) : Nat → Option (Nat → BitVec 8) :=
  match interpreter ramfs elf table with
  | some (some (some interp)) =>
    overlay (linuxLayers ticks (startWords elf table (progBias elf) interpBase (entry + progBias elf)))
      (match headerTable interp with
      | some own => imagePages interp interpBase own own.phnum.toNat
      | none => Layers.empty)
  | _ => linuxLayers ticks (startWords elf table (progBias elf) 0 (entry + progBias elf))

theorem linuxDynSpace_spec (wf : WellFormed roots vm) {ramfs : File → Option File} {elf : File}
    {ticks : BitVec 64} (done : linuxDynSpace ramfs elf ticks vm = some (some root, vm')) :
    ∃ entry, rdU64 elf 24 = some entry ∧
      HoldsProgram roots root vm' elf (progBias elf) (dynLayers ramfs elf ticks entry) := by
  rw [linuxDynSpace] at done
  split at done
  · cases done
  rename_i root' vm₁ made
  split at done
  · rename_i table entry vm₂ isTable isEntry loaded
    obtain ⟨table', isTable', -, holds₂⟩ := loadSegmentsInto_spec (Holds.new wf made) loaded
    cases isTable.symm.trans isTable'
    rw [show overlay (imagePages elf (progBias elf) table table.phnum.toNat) (fun _ => none) =
      imagePages elf (progBias elf) table table.phnum.toNat from Layers.overlay_empty _] at holds₂
    refine ⟨entry, isEntry, table, ?_⟩
    simp only at done
    split at done
    · cases done
    · rename_i alone
      obtain ⟨rfl, pages', holds', laid⟩ :=
        linuxStack_spec holds₂ (length_startWords _ _ _ _ _) (Option.some.inj done)
      refine ⟨pages', isTable, holds', ?_⟩
      simp only [dynLayers, alone]
      exact laid
    · cases done
    · rename_i interp needs
      split at done
      · cases done
      · cases done
      · rename_i vm₃ loaded₃
        obtain ⟨own, isOwn, -, holds₃⟩ := loadSegmentsInto_spec holds₂ loaded₃
        obtain ⟨rfl, pages', holds', laid⟩ :=
          linuxStack_spec holds₃ (length_startWords _ _ _ _ _) (Option.some.inj done)
        refine ⟨pages', isTable, holds', ?_⟩
        simp only [dynLayers, needs, isOwn]
        exact Laid.of_overlay.trans laid
  · cases done
  · cases done

end RustyPenguin.Elf
