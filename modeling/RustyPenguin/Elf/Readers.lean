import RustyPenguin.Elf.Loaders
import RustyPenguin.Foundation.Checked

/-!
# The readers of the program headers

Every loader takes the table of program headers from a file it was handed, and computes with what
it finds there: where a header is, where a part of the file ends, where a segment ends in memory.
The readers here make the same accesses with these sums in words of 64 bits. A sum that leaves its
word, an access outside the file and a copy from outside of it fault. A reader's `None`, and a
spawn's slot 0, refuse the file.

A file is well formed when its headers are in it, and so are the parts of it that they name, and no
segment ends beyond the addresses (`WellFormedImage`). On those files no reader faults. The readers
are safe on no others (`readersSafe_iff`): `load_segments_into` refuses no file at all, and passes
over a header that it cannot read.

A reader that does not fault does what the loader does with wrapping sums (`loadBias_isSome_iff`,
`loadSegmentsInto_isSome`, `interpPath_of_find`).
-/

set_option autoImplicit false

namespace RustyPenguin.Elf

open Checked (Holds Answers addIn sub refuse fault expect)
open Vmm (State FrameAlloc)

/-! ## Headers -/

/-- The program header of an index, if it ends inside the file. -/
def headerAt (elf : File) (table : HeaderTable) (s : Nat) : Checked (Option Phdr) := do
  let off ← addIn 64 table.phoff.toNat (s * table.phent.toNat)
  let stop ← addIn 64 off 56
  if stop ≤ elf.length then
    let ph ← expect (phdrAt elf (BitVec.ofNat 64 off))
    return some ph
  else return none

/-- Where a segment ends in memory. -/
def Phdr.addrEnd (ph : Phdr) (bias : BitVec 64) : Checked Nat := do
  let vaddr ← addIn 64 ph.vaddr.toNat bias.toNat
  addIn 64 vaddr ph.memsz.toNat

/-! ## The readers -/

/-- One turn of the loop of `load_bias`. -/
def placeHeader (elf : File) (bias : BitVec 64) (table : HeaderTable) (s : Nat) :
    Checked Unit := do
  match ← headerAt elf table s with
  | none => refuse
  | some ph =>
    if ph.type ≠ ptLoad ∨ ph.memsz = 0 then return ()
    else
      let _ ← ph.addrEnd bias
      if ph.filesz ≠ 0 ∧ elf.length < ph.offset.toNat + ph.filesz.toNat then refuse
      else return ()

def readLoadBias (elf : File) (bias : BitVec 64) : Checked Unit := do
  if isElf elf ∧ rdU16 elf 18 = some 0x3E then
    let table ← expect (headerTable elf)
    if table.phnum = 0 then refuse
    else (List.range table.phnum.toNat).foldlM (fun _ s => placeHeader elf bias table s) ()
  else refuse

/-- The path of the interpreter, from the next `left` headers. -/
def findInterp (elf : File) (table : HeaderTable) : (left : Nat) → (i : Nat) → Checked File
  | 0, _ => refuse
  | left + 1, i => do
    match ← headerAt elf table i with
    | none => refuse
    | some ph =>
      if ph.type = ptInterp then
        let stop ← addIn 64 ph.offset.toNat ph.filesz.toNat
        if stop ≤ elf.length then
          let bytes ← sub elf ph.offset.toNat stop
          return bytes.takeWhile fun b => b ≠ 0
        else findInterp elf table left (i + 1)
      else findInterp elf table left (i + 1)

def readInterpPath (elf : File) : Checked File := do
  if isElf elf then
    let table ← expect (headerTable elf)
    findInterp elf table table.phnum.toNat 0
  else refuse

/-- Where the program headers are in the loaded image, from the next `left` headers. -/
def findPhdrs (elf : File) (table : HeaderTable) : (left : Nat) → (i : Nat) →
    Checked (BitVec 64 × BitVec 64 × BitVec 64)
  | 0, _ => refuse
  | left + 1, i => do
    match ← headerAt elf table i with
    | none => refuse
    | some ph =>
      if ph.type = ptLoad ∧ ph.offset ≤ table.phoff then
        let stop ← addIn 64 ph.offset.toNat ph.filesz.toNat
        if table.phoff.toNat < stop then
          return (ph.vaddr + (table.phoff - ph.offset), table.phent.setWidth 64,
            table.phnum.setWidth 64)
        else findPhdrs elf table left (i + 1)
      else findPhdrs elf table left (i + 1)

def readPhdrInfo (elf : File) : Checked (BitVec 64 × BitVec 64 × BitVec 64) := do
  if isElf elf then
    let table ← expect (headerTable elf)
    findPhdrs elf table table.phnum.toNat 0
  else refuse

/-- The bytes of the file for the addresses from `cs` on and before `ce` of a segment. -/
@[irreducible] def readPart (elf : File) (offset vaddr cs ce : Nat) : Checked File := do
  if cs < ce then
    let srcOff ← addIn 64 offset (cs - vaddr)
    let srcEnd ← addIn 64 srcOff (ce - cs)
    if srcEnd ≤ elf.length then sub elf srcOff srcEnd
    else return []
  else return []

/-- What is read for the page of a segment at `va`. -/
def Segment.readPage (seg : Segment) (va : BitVec 64) : Checked File :=
  readPart seg.elf seg.offset.toNat seg.vaddr.toNat (max va.toNat seg.vaddr.toNat)
    (min (va + 4096).toNat (seg.vaddr + seg.filesz).toNat)

/-- The pages of a segment, each given a frame. -/
def Segment.readPages (seg : Segment) (n : Nat) : Checked Unit :=
  (List.range n).foldlM (fun _ i => do
    let _ ← seg.readPage (seg.pageAt i)
    return ()) ()

/-- One turn of the loop over the headers of `load_segments_into`. -/
def readSegment (elf : File) (bias : BitVec 64) (table : HeaderTable) (s : Nat) :
    Checked Unit := do
  match ← headerAt elf table s with
  | none => return ()
  | some ph =>
    if ph.type = ptLoad then
      let _ ← ph.addrEnd bias
      (ph.segment elf bias).readPages (ph.segment elf bias).pageCount
    else return ()

def readLoadSegmentsInto (elf : File) (bias : BitVec 64) : Checked Unit := do
  let table ← expect (headerTable elf)
  (List.range table.phnum.toNat).foldlM (fun _ s => readSegment elf bias table s) ()

/-- The headers of a native program, after the spawn's own check. -/
def readSpawnRing3ElfCfg (elf : File) : Checked Unit :=
  if isElf elf then readLoadSegmentsInto elf 0 else refuse

/-- The headers of a static Linux program, after the spawn's own checks. -/
def readSpawnLinuxStaticElf (elf : File) : Checked Unit :=
  if isElf elf ∧ rdU16 elf 16 = some 2 then readLoadSegmentsInto elf 0 else refuse

/-- What reads the program headers of a file. -/
inductive Reader where
  | loadBias
  | interpPath
  | phdrInfo
  | spawnRing3ElfCfg
  | spawnLinuxStaticElf
  | loadSegmentsInto
  deriving DecidableEq, Repr

/-- A reader at a file and a bias, for how it ends. -/
def Reader.read (reader : Reader) (elf : File) (bias : BitVec 64) : Checked Unit :=
  match reader with
  | loadBias => readLoadBias elf bias
  | interpPath => do
    let _ ← readInterpPath elf
    return ()
  | phdrInfo => do
    let _ ← readPhdrInfo elf
    return ()
  | spawnRing3ElfCfg => readSpawnRing3ElfCfg elf
  | spawnLinuxStaticElf => readSpawnLinuxStaticElf elf
  | loadSegmentsInto => readLoadSegmentsInto elf bias

/-! ## Well-formed files -/

/-- A program header is in the file, and so is what it names, and its segment ends in memory. -/
structure HeaderOk (elf : File) (bias : BitVec 64) (table : HeaderTable) (s : Nat) : Prop where
  inside : table.phoff.toNat + s * table.phent.toNat + 56 ≤ elf.length
  part : ∀ ph, phdrAt elf (table.entry s) = some ph → ph.type = ptLoad ∨ ph.type = ptInterp →
    ph.offset.toNat + ph.filesz.toNat ≤ elf.length
  ends : ∀ ph, phdrAt elf (table.entry s) = some ph → ph.type = ptLoad →
    ph.vaddr.toNat + bias.toNat + ph.memsz.toNat < 2 ^ 64

/-- The file has the magic and all its program headers are in order. -/
structure WellFormedImage (elf : File) (bias : BitVec 64) : Prop where
  isElf : isElf elf
  headers : ∀ table, headerTable elf = some table → ∀ s, s < table.phnum.toNat →
    HeaderOk elf bias table s

/-- No reader faults on the file, and every reader refuses it when it is malformed. -/
structure ReadersSafe (elf : File) (bias : BitVec 64) : Prop where
  safe : ∀ reader : Reader, reader.read elf bias ≠ .error .fault
  rejects : ¬WellFormedImage elf bias → ∀ reader : Reader,
    reader.read elf bias = .error .refused

/-! ## Reading inside the file -/

theorem rdU16_of_le {b : File} {o : Nat} (inside : o + 2 ≤ b.length) : ∃ w, rdU16 b o = some w :=
  ⟨_, if_pos inside⟩

theorem rdU32_of_le {b : File} {o : Nat} (inside : o + 4 ≤ b.length) : ∃ w, rdU32 b o = some w :=
  ⟨_, if_pos inside⟩

theorem rdU64_of_le {b : File} {o : Nat} (inside : o + 8 ≤ b.length) :
    ∃ w, rdU64 b o = some w := by
  obtain ⟨low, isLow⟩ := rdU32_of_le (b := b) (o := o) (by omega)
  obtain ⟨high, isHigh⟩ := rdU32_of_le (b := b) (o := o + 4) (by omega)
  exact ⟨high ++ low, by rw [rdU64, isLow, isHigh]; rfl⟩

/-- The table of a file that passes the check can be read. -/
theorem headerTable_of_isElf {elf : File} (door : isElf elf) :
    ∃ table, headerTable elf = some table := by
  have long : 64 ≤ elf.length := (of_decide_eq_true door).1
  obtain ⟨phoff, isPhoff⟩ := rdU64_of_le (b := elf) (o := 32) (by omega)
  obtain ⟨phnum, isPhnum⟩ := rdU16_of_le (b := elf) (o := 56) (by omega)
  obtain ⟨phent, isPhent⟩ := rdU16_of_le (b := elf) (o := 54) (by omega)
  exact ⟨⟨phoff, phnum, phent⟩, by rw [headerTable, isPhoff, isPhnum, isPhent]; rfl⟩

theorem phdrAt_of_le {elf : File} {off : BitVec 64} (inside : off.toNat + 56 ≤ elf.length) :
    ∃ ph, phdrAt elf off = some ph := by
  obtain ⟨type, isType⟩ := rdU32_of_le (b := elf) (o := off.toNat) (by omega)
  obtain ⟨offset, isOffset⟩ := rdU64_of_le (b := elf) (o := off.toNat + 8) (by omega)
  obtain ⟨vaddr, isVaddr⟩ := rdU64_of_le (b := elf) (o := off.toNat + 16) (by omega)
  obtain ⟨filesz, isFilesz⟩ := rdU64_of_le (b := elf) (o := off.toNat + 32) (by omega)
  obtain ⟨memsz, isMemsz⟩ := rdU64_of_le (b := elf) (o := off.toNat + 40) (by omega)
  exact ⟨⟨type, offset, vaddr, filesz, memsz⟩,
    by rw [phdrAt, isType, isOffset, isVaddr, isFilesz, isMemsz]; rfl⟩

theorem entry_eq (table : HeaderTable) (s : Nat) :
    table.entry s = BitVec.ofNat 64 (table.phoff.toNat + s * table.phent.toNat) := by
  rw [HeaderTable.entry, BitVec.ofNat_add, BitVec.ofNat_toNat, BitVec.setWidth_eq]

variable {elf : File} {bias : BitVec 64} {table : HeaderTable} {s n : Nat}

/-- **A header in order is read.** -/
theorem HeaderOk.read (ok : HeaderOk elf bias table s) (inMemory : elf.length < 2 ^ 63) :
    Holds (headerAt elf table s) fun ph? =>
      ∃ ph, ph? = some ph ∧ phdrAt elf (table.entry s) = some ph := by
  have inside := ok.inside
  refine (Checked.holds_addIn (by omega)).bind fun off isOff => ?_
  refine (Checked.holds_addIn (by omega)).bind fun stop isStop => ?_
  have fits : stop ≤ elf.length := by omega
  have small : (BitVec.ofNat 64 off).toNat = off := by
    rw [BitVec.toNat_ofNat]
    exact Nat.mod_eq_of_lt (by omega)
  obtain ⟨ph, isPh⟩ := phdrAt_of_le (show (BitVec.ofNat 64 off).toNat + 56 ≤ elf.length by omega)
  rw [if_pos fits]
  refine (Checked.holds_expect isPh).bind fun b same => ?_
  refine ⟨b, rfl, ?_⟩
  rw [entry_eq, ← isOff, isPh, same]

/-! ## Well-formed files are read -/

theorem Phdr.holds_addrEnd {ph : Phdr}
    (ends : ph.vaddr.toNat + bias.toNat + ph.memsz.toNat < 2 ^ 64) :
    Holds (ph.addrEnd bias) fun _ => True := by
  refine (Checked.holds_addIn (by omega)).bind fun vaddr isVaddr => ?_
  rw [isVaddr]
  exact (Checked.holds_addIn ends).mono fun _ _ => trivial

/-- Following a header in order: what is done with it does not fault. -/
theorem HeaderOk.follow {α : Type} {P : α → Prop} {next : Option Phdr → Checked α}
    (ok : HeaderOk elf bias table s) (inMemory : elf.length < 2 ^ 63)
    (steps : ∀ ph, phdrAt elf (table.entry s) = some ph → Holds (next (some ph)) P) :
    Holds (headerAt elf table s >>= next) P := by
  refine (ok.read inMemory).bind fun ph? isPh => ?_
  obtain ⟨ph, rfl, here⟩ := isPh
  exact steps ph here

theorem HeaderOk.place (ok : HeaderOk elf bias table s) (inMemory : elf.length < 2 ^ 63) :
    Holds (placeHeader elf bias table s) fun _ => True := by
  refine ok.follow inMemory fun ph here => ?_
  refine Holds.ite (fun _ => trivial) fun loads => ?_
  have isLoad : ph.type = ptLoad := Decidable.not_not.mp (not_or.mp loads).1
  refine (Phdr.holds_addrEnd (ok.ends ph here isLoad)).bind fun _ _ => ?_
  exact Holds.ite (fun _ => trivial) fun _ => trivial

theorem findInterp_holds (inMemory : elf.length < 2 ^ 63) (left i : Nat)
    (ok : ∀ s, i ≤ s → s < i + left → HeaderOk elf bias table s) :
    Holds (findInterp elf table left i) fun _ => True := by
  induction left generalizing i with
  | zero => trivial
  | succ left rest =>
    have this := ok i (Nat.le_refl i) (by omega)
    have others := rest (i + 1) fun s above below => ok s (by omega) (by omega)
    refine this.follow inMemory fun ph here => ?_
    refine Holds.ite (fun isInterp => ?_) fun _ => others
    have part := this.part ph here (Or.inr isInterp)
    refine (Checked.holds_addIn (by omega)).bind fun stop isStop => ?_
    refine Holds.ite (fun fits => ?_) fun _ => others
    exact (Checked.holds_sub (by omega) fits).bind fun _ _ => trivial

theorem findPhdrs_holds (inMemory : elf.length < 2 ^ 63) (left i : Nat)
    (ok : ∀ s, i ≤ s → s < i + left → HeaderOk elf bias table s) :
    Holds (findPhdrs elf table left i) fun _ => True := by
  induction left generalizing i with
  | zero => trivial
  | succ left rest =>
    have this := ok i (Nat.le_refl i) (by omega)
    have others := rest (i + 1) fun s above below => ok s (by omega) (by omega)
    refine this.follow inMemory fun ph here => ?_
    refine Holds.ite (fun covers => ?_) fun _ => others
    have part := this.part ph here (Or.inl covers.1)
    refine (Checked.holds_addIn (by omega)).bind fun stop isStop => ?_
    exact Holds.ite (fun _ => trivial) fun _ => others

theorem readPart_holds {offset vaddr filesz cs ce : Nat} (inMemory : elf.length < 2 ^ 63)
    (part : offset + filesz ≤ elf.length) (above : vaddr ≤ cs) (below : ce ≤ vaddr + filesz) :
    Holds (readPart elf offset vaddr cs ce) fun _ => True := by
  rw [readPart]
  refine Holds.ite (fun copies => ?_) fun _ => trivial
  refine (Checked.holds_addIn (by omega)).bind fun srcOff isOff => ?_
  refine (Checked.holds_addIn (by omega)).bind fun srcEnd isEnd => ?_
  refine Holds.ite (fun fits => ?_) fun _ => trivial
  exact (Checked.holds_sub (by omega) fits).mono fun _ _ => trivial

/-- **A segment in its file is copied from inside of it**, whatever its addresses. -/
theorem Segment.readPage_holds (seg : Segment) (inMemory : seg.elf.length < 2 ^ 63)
    (part : seg.offset.toNat + seg.filesz.toNat ≤ seg.elf.length) (va : BitVec 64) :
    Holds (seg.readPage va) fun _ => True := by
  have ends : (seg.vaddr + seg.filesz).toNat ≤ seg.vaddr.toNat + seg.filesz.toNat := by
    rw [BitVec.toNat_add]
    exact Nat.mod_le _ _
  exact readPart_holds inMemory part (Nat.le_max_right _ _)
    ((Nat.min_le_right _ _).trans ends)

theorem Segment.readPages_holds (seg : Segment) (inMemory : seg.elf.length < 2 ^ 63)
    (part : seg.offset.toNat + seg.filesz.toNat ≤ seg.elf.length) (n : Nat) :
    Holds (seg.readPages n) fun _ => True :=
  Holds.foldlM trivial fun _ i _ _ =>
    (seg.readPage_holds inMemory part (seg.pageAt i)).bind fun _ _ => trivial

theorem HeaderOk.segment (ok : HeaderOk elf bias table s) (inMemory : elf.length < 2 ^ 63) :
    Holds (readSegment elf bias table s) fun _ => True := by
  refine ok.follow inMemory fun ph here => ?_
  refine Holds.ite (fun isLoad => ?_) fun _ => trivial
  refine (Phdr.holds_addrEnd (ok.ends ph here isLoad)).bind fun _ _ => ?_
  exact (ph.segment elf bias).readPages_holds inMemory (ok.part ph here (Or.inl isLoad)) _

theorem HeaderOk.unbiased (ok : HeaderOk elf bias table s) : HeaderOk elf 0 table s where
  inside := ok.inside
  part := ok.part
  ends ph here isLoad := by
    have ends := ok.ends ph here isLoad
    change ph.vaddr.toNat + 0 + ph.memsz.toNat < 2 ^ 64
    omega

namespace WellFormedImage

variable (wellFormed : WellFormedImage elf bias) (inMemory : elf.length < 2 ^ 63)

include wellFormed

theorem unbiased : WellFormedImage elf 0 where
  isElf := wellFormed.isElf
  headers table isTable s inside := (wellFormed.headers table isTable s inside).unbiased

include inMemory

theorem holds_loadSegmentsInto : Holds (readLoadSegmentsInto elf bias) fun _ => True := by
  obtain ⟨table, isTable⟩ := headerTable_of_isElf wellFormed.isElf
  refine (Checked.holds_expect isTable).bind fun t same => ?_
  rw [same]
  refine Holds.foldlM trivial fun _ s member _ => ?_
  exact (wellFormed.headers table isTable s (List.mem_range.mp member)).segment inMemory

theorem holds_loadBias : Holds (readLoadBias elf bias) fun _ => True := by
  obtain ⟨table, isTable⟩ := headerTable_of_isElf wellFormed.isElf
  refine Holds.ite (fun _ => ?_) fun _ => trivial
  refine (Checked.holds_expect isTable).bind fun t same => ?_
  rw [same]
  refine Holds.ite (fun _ => trivial) fun _ => ?_
  refine Holds.foldlM trivial fun _ s member _ => ?_
  exact (wellFormed.headers table isTable s (List.mem_range.mp member)).place inMemory

theorem holds_interpPath : Holds (readInterpPath elf) fun _ => True := by
  obtain ⟨table, isTable⟩ := headerTable_of_isElf wellFormed.isElf
  refine Holds.ite (fun _ => ?_) fun _ => trivial
  refine (Checked.holds_expect isTable).bind fun t same => ?_
  rw [same]
  exact findInterp_holds inMemory _ 0 fun s _ below =>
    wellFormed.headers table isTable s (by omega)

theorem holds_phdrInfo : Holds (readPhdrInfo elf) fun _ => True := by
  obtain ⟨table, isTable⟩ := headerTable_of_isElf wellFormed.isElf
  refine Holds.ite (fun _ => ?_) fun _ => trivial
  refine (Checked.holds_expect isTable).bind fun t same => ?_
  rw [same]
  exact findPhdrs_holds inMemory _ 0 fun s _ below =>
    wellFormed.headers table isTable s (by omega)

/-- **No reader faults on a well-formed file.** -/
theorem read_holds (reader : Reader) : Holds (reader.read elf bias) fun _ => True := by
  cases reader with
  | loadBias => exact wellFormed.holds_loadBias inMemory
  | interpPath => exact (wellFormed.holds_interpPath inMemory).bind fun _ _ => trivial
  | phdrInfo => exact (wellFormed.holds_phdrInfo inMemory).bind fun _ _ => trivial
  | spawnRing3ElfCfg =>
    exact Holds.ite (fun _ => wellFormed.unbiased.holds_loadSegmentsInto inMemory)
      fun _ => trivial
  | spawnLinuxStaticElf =>
    exact Holds.ite (fun _ => wellFormed.unbiased.holds_loadSegmentsInto inMemory)
      fun _ => trivial
  | loadSegmentsInto => exact wellFormed.holds_loadSegmentsInto inMemory

end WellFormedImage

/-! ## What is not refused -/

theorem headerAt_answers (elf : File) (table : HeaderTable) (s : Nat) :
    Answers (headerAt elf table s) := by
  refine Checked.answers_addIn.bind fun off => ?_
  refine Checked.answers_addIn.bind fun stop => ?_
  split
  · exact Checked.answers_expect.bind fun _ => Checked.answers_pure
  · exact Checked.answers_pure

theorem readPart_answers (elf : File) (offset vaddr cs ce : Nat) :
    Answers (readPart elf offset vaddr cs ce) := by
  rw [readPart]
  split
  · refine Checked.answers_addIn.bind fun srcOff => ?_
    refine Checked.answers_addIn.bind fun srcEnd => ?_
    split
    · exact Checked.answers_sub
    · exact Checked.answers_pure
  · exact Checked.answers_pure

theorem readSegment_answers (elf : File) (bias : BitVec 64) (table : HeaderTable) (s : Nat) :
    Answers (readSegment elf bias table s) := by
  refine (headerAt_answers elf table s).bind fun ph? => ?_
  cases ph? with
  | none => exact Checked.answers_pure
  | some ph =>
    dsimp only
    split
    · refine (Checked.answers_addIn.bind fun _ => Checked.answers_addIn).bind fun _ => ?_
      exact Answers.foldlM (fun _ i =>
        (readPart_answers _ _ _ _ _).bind fun _ => Checked.answers_pure) _ _
    · exact Checked.answers_pure

/-- **`load_segments_into` refuses no file.** -/
theorem readLoadSegmentsInto_answers (elf : File) (bias : BitVec 64) :
    Answers (readLoadSegmentsInto elf bias) :=
  Checked.answers_expect.bind fun table =>
    Answers.foldlM (fun _ s => readSegment_answers elf bias table s) _ _

/-! ## What the loaders do -/

theorem entry_end (small : table.phoff.toNat + s * table.phent.toNat + 56 < 2 ^ 64) :
    (table.entry s + 56).toNat = table.phoff.toNat + s * table.phent.toNat + 56 := by
  rw [entry_eq, BitVec.toNat_add, BitVec.toNat_ofNat]
  change (_ % 2 ^ 64 + 56) % 2 ^ 64 = _
  omega

/-- A header that is read is the one the loaders read, where they take it to be. -/
theorem headerAt_some {ph : Phdr} (read : headerAt elf table s = .ok (some ph)) :
    headerFits elf (table.entry s) ∧ phdrAt elf (table.entry s) = some ph := by
  obtain ⟨off, isOff, read⟩ := Checked.bind_eq_ok.mp read
  obtain ⟨stop, isStop, read⟩ := Checked.bind_eq_ok.mp read
  obtain ⟨-, rfl⟩ := Checked.addIn_eq_ok.mp isOff
  obtain ⟨small, rfl⟩ := Checked.addIn_eq_ok.mp isStop
  split at read
  · rename_i fits
    obtain ⟨found, isPh, same⟩ := Checked.bind_eq_ok.mp read
    cases same
    refine ⟨decide_eq_true ((entry_end small).trans_le fits), ?_⟩
    rw [entry_eq]
    exact Checked.expect_eq_ok.mp isPh
  · cases read

/-- A header that is passed over is not inside the file for the loaders either. -/
theorem headerAt_none (read : headerAt elf table s = .ok none) :
    ¬headerFits elf (table.entry s) := by
  obtain ⟨off, isOff, read⟩ := Checked.bind_eq_ok.mp read
  obtain ⟨stop, isStop, read⟩ := Checked.bind_eq_ok.mp read
  obtain ⟨-, rfl⟩ := Checked.addIn_eq_ok.mp isOff
  obtain ⟨small, rfl⟩ := Checked.addIn_eq_ok.mp isStop
  split at read
  · obtain ⟨found, -, same⟩ := Checked.bind_eq_ok.mp read
    cases same
  · rename_i beyond
    intro fits
    exact beyond ((entry_end small).symm.trans_le (of_decide_eq_true fits))

theorem interpPath_of_find {path : File} (left i : Nat)
    (read : findInterp elf table left i = .ok path) :
    interpPath elf table left i = some (some path) := by
  induction left generalizing i with
  | zero => cases read
  | succ left rest =>
    obtain ⟨ph?, isPh, read⟩ := Checked.bind_eq_ok.mp read
    cases ph? with
    | none => cases read
    | some ph =>
      obtain ⟨fits, here⟩ := headerAt_some isPh
      rw [interpPath, if_pos fits, here]
      dsimp only at read ⊢
      by_cases isInterp : ph.type = ptInterp
      · rw [if_pos isInterp] at read
        obtain ⟨stop, isStop, read⟩ := Checked.bind_eq_ok.mp read
        obtain ⟨small, rfl⟩ := Checked.addIn_eq_ok.mp isStop
        have sum : (ph.offset + ph.filesz).toNat = ph.offset.toNat + ph.filesz.toNat := by
          rw [BitVec.toNat_add]
          exact Nat.mod_eq_of_lt small
        have ordered : ph.offset ≤ ph.offset + ph.filesz := by
          rw [BitVec.le_def, sum]
          exact Nat.le_add_right _ _
        rw [sum]
        by_cases inside : ph.offset.toNat + ph.filesz.toNat ≤ elf.length
        · rw [if_pos inside] at read
          obtain ⟨bytes, isBytes, same⟩ := Checked.bind_eq_ok.mp read
          obtain ⟨-, -, rfl⟩ := Checked.sub_eq_ok.mp isBytes
          cases same
          rw [if_pos ⟨isInterp, inside⟩, if_pos ordered]
        · rw [if_neg inside] at read
          rw [if_neg fun both => inside both.2]
          exact rest (i + 1) read
      · rw [if_neg isInterp] at read
        rw [if_neg fun both => isInterp both.1]
        exact rest (i + 1) read

/-- What is read for a page is what the loaders copy into its frame. -/
theorem Segment.fill_of_read {seg : Segment} {va : BitVec 64} {bytes : File}
    (read : seg.readPage va = .ok bytes) : ∃ dstOff, seg.fill va = some (dstOff, bytes) := by
  rw [readPage, readPart] at read
  rw [fill]
  dsimp only
  split at read
  · rename_i copies
    obtain ⟨srcOff, isOff, read⟩ := Checked.bind_eq_ok.mp read
    obtain ⟨srcEnd, isEnd, read⟩ := Checked.bind_eq_ok.mp read
    obtain ⟨offFits, rfl⟩ := Checked.addIn_eq_ok.mp isOff
    obtain ⟨endFits, rfl⟩ := Checked.addIn_eq_ok.mp isEnd
    have src : (seg.offset + BitVec.ofNat 64 (max va.toNat seg.vaddr.toNat -
        seg.vaddr.toNat)).toNat =
        seg.offset.toNat + (max va.toNat seg.vaddr.toNat - seg.vaddr.toNat) := by
      rw [BitVec.toNat_add, BitVec.toNat_ofNat]
      omega
    have stop : (seg.offset + BitVec.ofNat 64 (max va.toNat seg.vaddr.toNat -
        seg.vaddr.toNat) + BitVec.ofNat 64 (min (va + 4096).toNat
          (seg.vaddr + seg.filesz).toNat - max va.toNat seg.vaddr.toNat)).toNat =
        seg.offset.toNat + (max va.toNat seg.vaddr.toNat - seg.vaddr.toNat) +
          (min (va + 4096).toNat (seg.vaddr + seg.filesz).toNat -
            max va.toNat seg.vaddr.toNat) := by
      rw [BitVec.toNat_add, src, BitVec.toNat_ofNat]
      omega
    rw [if_pos copies, stop, src]
    split at read
    · rename_i fits
      obtain ⟨-, -, rfl⟩ := Checked.sub_eq_ok.mp read
      rw [if_pos fits, if_pos fits, Nat.add_sub_cancel_left]
      exact ⟨_, rfl⟩
    · rename_i beyond
      cases read
      rw [if_neg beyond]
      exact ⟨0, rfl⟩
  · rename_i none
    cases read
    exact ⟨0, by rw [if_neg none]⟩

variable {A : Type} [FrameAlloc A]

theorem loadPages_isSome (vm : State A) (as_ : BitVec 64) {seg : Segment}
    (read : ∀ i, i < n → ∃ bytes, seg.readPage (seg.pageAt i) = .ok bytes) :
    (loadPages vm as_ seg n).isSome := by
  induction n with
  | zero => rfl
  | succ n rest =>
    have before := rest fun i inside => read i (Nat.lt_succ_of_lt inside)
    obtain ⟨bytes, isBytes⟩ := read n (Nat.lt_succ_self n)
    obtain ⟨dstOff, filled⟩ := Segment.fill_of_read isBytes
    rw [loadPages]
    obtain ⟨⟨done, later⟩, answer⟩ := Option.isSome_iff_exists.mp before
    rw [answer]
    cases done with
    | false => rfl
    | true =>
      change (loadPage later as_ seg (seg.pageAt n)).isSome
      rw [loadPage, filled]
      split
      · rfl
      · rfl

theorem segmentAt_of_read (read : readSegment elf bias table s = .ok ()) :
    ∃ seg?, segmentAt elf bias table s = some seg? ∧ ∀ seg, seg? = some seg →
      ∀ i, i < seg.pageCount → ∃ bytes, seg.readPage (seg.pageAt i) = .ok bytes := by
  obtain ⟨ph?, isPh, read⟩ := Checked.bind_eq_ok.mp read
  rw [segmentAt]
  cases ph? with
  | none =>
    exact ⟨none, if_neg (headerAt_none isPh), fun _ same => absurd same.symm (Option.some_ne_none _)⟩
  | some ph =>
    obtain ⟨fits, here⟩ := headerAt_some isPh
    dsimp only at read ⊢
    rw [if_pos fits, here]
    by_cases isLoad : ph.type = ptLoad
    · rw [if_pos isLoad] at read
      obtain ⟨_, -, read⟩ := Checked.bind_eq_ok.mp read
      refine ⟨some (ph.segment elf bias), congrArg some (if_pos isLoad), fun seg same i inside => ?_⟩
      cases same
      obtain ⟨bytes, isBytes, -⟩ := Checked.bind_eq_ok.mp (Checked.each_eq_ok.mp read i inside)
      exact ⟨bytes, isBytes⟩
    · exact ⟨none, congrArg some (if_neg isLoad), fun _ same => absurd same.symm (Option.some_ne_none _)⟩

/-- **Where the reader of the segments does not fault, the loader answers**, in any memory. -/
theorem loadSegmentsInto_isSome (vm : State A) (as_ : BitVec 64)
    (safe : readLoadSegmentsInto elf bias ≠ .error .fault) :
    (loadSegmentsInto vm as_ elf bias).isSome := by
  have done : readLoadSegmentsInto elf bias = .ok () := by
    match answer : readLoadSegmentsInto elf bias with
    | .ok () => rfl
    | .error .fault => exact absurd answer safe
    | .error .refused => exact absurd answer (readLoadSegmentsInto_answers elf bias)
  obtain ⟨table, isTable, read⟩ := Checked.bind_eq_ok.mp done
  have each := Checked.each_eq_ok.mp read
  rw [loadSegmentsInto, Checked.expect_eq_ok.mp isTable]
  dsimp only
  generalize table.phnum.toNat = n at each ⊢
  induction n with
  | zero => rfl
  | succ n rest =>
    have before := rest fun i inside => each i (Nat.lt_succ_of_lt inside)
    obtain ⟨seg?, isSeg, pages⟩ := segmentAt_of_read (each n (Nat.lt_succ_self n))
    rw [loadSegments]
    obtain ⟨⟨done, later⟩, answer⟩ := Option.isSome_iff_exists.mp before
    rw [answer]
    cases done with
    | false => rfl
    | true =>
      dsimp only
      rw [isSeg]
      cases seg? with
      | none => rfl
      | some seg => exact loadPages_isSome later as_ (pages seg rfl)

/-- A segment is placed unless its part of the file is not there. -/
theorem placeSegment_isSome_iff {seg : Segment} {mem : FlatMemory} :
    (placeSegment seg mem).isSome ↔
      ¬(seg.filesz ≠ 0 ∧ seg.elf.length < seg.offset.toNat + seg.filesz.toNat) := by
  rw [placeSegment]
  by_cases some : seg.filesz ≠ 0
  · rw [if_pos some]
    by_cases fits : seg.offset.toNat + seg.filesz.toNat ≤ seg.elf.length
    · rw [if_pos fits]
      exact iff_of_true rfl fun both => Nat.not_lt.mpr fits both.2
    · rw [if_neg fits]
      exact iff_of_false Bool.false_ne_true fun placed => placed ⟨some, Nat.lt_of_not_le fits⟩
  · rw [if_neg some]
    exact iff_of_true rfl fun both => some both.1

theorem placeSegments_succ {mem later : FlatMemory}
    (before : placeSegments elf bias table mem n = some later)
    (safe : placeHeader elf bias table n ≠ .error .fault) :
    (placeSegments elf bias table mem (n + 1)).isSome ↔
      placeHeader elf bias table n = .ok () := by
  rw [placeSegments, before]
  dsimp only
  rw [placeHeader] at safe ⊢
  match isPh : headerAt elf table n with
  | .error .refused => exact absurd isPh (headerAt_answers elf table n)
  | .error .fault =>
    rw [isPh] at safe
    exact absurd rfl safe
  | .ok none =>
    rw [if_neg (headerAt_none isPh)]
    exact iff_of_false Bool.false_ne_true fun same => nomatch same
  | .ok (some ph) =>
    obtain ⟨fits, here⟩ := headerAt_some isPh
    rw [isPh, Checked.bind_of_ok rfl] at safe
    rw [if_pos fits, here, Checked.bind_of_ok rfl]
    dsimp only at safe ⊢
    by_cases skipped : ph.type ≠ ptLoad ∨ ph.memsz = 0
    · rw [if_pos skipped, if_pos skipped]
      exact iff_of_true rfl rfl
    · rw [if_neg skipped] at safe
      rw [if_neg skipped, if_neg skipped, placeSegment_isSome_iff]
      match ends : ph.addrEnd bias with
      | .error .refused =>
        exact absurd ends (Checked.answers_addIn.bind fun _ => Checked.answers_addIn)
      | .error .fault =>
        rw [ends] at safe
        exact absurd rfl safe
      | .ok stop =>
        rw [Checked.bind_of_ok rfl]
        change ¬(ph.filesz ≠ 0 ∧ elf.length < ph.offset.toNat + ph.filesz.toNat) ↔ _
        by_cases short : ph.filesz ≠ 0 ∧ elf.length < ph.offset.toNat + ph.filesz.toNat
        · rw [if_pos short]
          exact iff_of_false (fun placed => placed short) fun same => nomatch same
        · rw [if_neg short]
          exact iff_of_true short rfl

theorem placeSegments_isSome_iff (mem : FlatMemory)
    (safe : (List.range n).foldlM (fun _ s => placeHeader elf bias table s) () ≠
      .error .fault) :
    (placeSegments elf bias table mem n).isSome ↔
      (List.range n).foldlM (fun _ s => placeHeader elf bias table s) () = .ok () := by
  induction n with
  | zero => exact iff_of_true rfl rfl
  | succ n rest =>
    rw [Checked.each_succ] at safe ⊢
    match turns : (List.range n).foldlM (fun _ s => placeHeader elf bias table s) () with
    | .error .fault =>
      rw [turns] at safe
      exact absurd rfl safe
    | .error .refused =>
      have before := rest fun same => nomatch turns.symm.trans same
      have none : placeSegments elf bias table mem n = none :=
        Option.not_isSome_iff_eq_none.mp fun placed =>
          nomatch turns.symm.trans (before.mp placed)
      rw [placeSegments, none]
      exact iff_of_false Bool.false_ne_true fun same => nomatch same
    | .ok () =>
      have before := rest fun same => nomatch turns.symm.trans same
      obtain ⟨later, placed⟩ := Option.isSome_iff_exists.mp (before.mpr turns)
      rw [turns] at safe
      exact placeSegments_succ placed safe

/-- **Where the reader of `load_bias` does not fault, `load_bias` answers as it does.** -/
theorem loadBias_isSome_iff (mem : FlatMemory)
    (safe : readLoadBias elf bias ≠ .error .fault) :
    (loadBias elf bias mem).isSome ↔ readLoadBias elf bias = .ok () := by
  rw [readLoadBias] at safe ⊢
  rw [loadBias]
  by_cases door : isElf elf ∧ rdU16 elf 18 = some 0x3E
  · obtain ⟨table, isTable⟩ := headerTable_of_isElf door.1
    obtain ⟨entry, isEntry⟩ := rdU64_of_le (b := elf) (o := 24)
      (by have := (of_decide_eq_true door.1).1; omega)
    rw [if_pos door, isTable] at safe
    rw [if_pos door, if_pos door, isTable, isEntry]
    change (if table.phnum = 0 then refuse else _) ≠ _ at safe
    change (if table.phnum = 0 then none else Option.map _ _).isSome ↔
      (if table.phnum = 0 then refuse else _) = _
    by_cases empty : table.phnum = 0
    · rw [if_pos empty, if_pos empty]
      exact iff_of_false Bool.false_ne_true fun same => nomatch same
    · rw [if_neg empty] at safe
      rw [if_neg empty, if_neg empty, Option.isSome_map]
      exact placeSegments_isSome_iff mem safe
  · rw [if_neg door, if_neg door]
    exact iff_of_false Bool.false_ne_true fun same => nomatch same

/-! ## Safety -/

/-- **The readers of program headers are safe on exactly the well-formed files.** On those none of
them faults. Any other file is one that `load_segments_into` does not refuse. -/
theorem readersSafe_iff (elf : File) (bias : BitVec 64) (inMemory : elf.length < 2 ^ 63) :
    ReadersSafe elf bias ↔ WellFormedImage elf bias := by
  constructor
  · intro readersSafe
    by_contra malformed
    exact readLoadSegmentsInto_answers elf bias
      (readersSafe.rejects malformed .loadSegmentsInto)
  · intro wellFormed
    exact ⟨fun reader => (wellFormed.read_holds inMemory reader).safe,
      fun malformed => absurd wellFormed malformed⟩

/-- The bytes of an executable with one program header, said to be at `phoff`, before `rest`. -/
def headered (phoff : BitVec 64) (rest : File) : File :=
  elfMagic ++ List.replicate 12 0 ++ [2, 0, 0x3E, 0] ++ List.replicate 12 0 ++ wordBytes phoff ++
    List.replicate 14 0 ++ [56, 0, 1, 0] ++ List.replicate 6 0 ++ rest

/-- A file whose segment is the file. -/
def oneSegment : File :=
  headered 64 ([1, 0, 0, 0, 5, 0, 0, 0] ++
    [0, 0x40_0000, 0, 120, 120, 4096].flatMap wordBytes)

/-- A file whose program header ends after the last address. -/
def wrapped : File := headered 0xFFFF_FFFF_FFFF_FFFF []

/-- The theorem at a well-formed file. -/
theorem readersSafe_iff_oneSegment : ReadersSafe oneSegment 0 := by
  refine (readersSafe_iff oneSegment 0 (by decide)).mpr ⟨by decide, ?_⟩
  intro table isTable s inside
  have reads : headerTable oneSegment = some ⟨64, 1, 56⟩ := by decide
  cases reads.symm.trans isTable
  have first : s = 0 := Nat.lt_one_iff.mp inside
  have header : phdrAt oneSegment (HeaderTable.entry ⟨64, 1, 56⟩ 0) =
      some ⟨1, 0, 0x40_0000, 120, 120⟩ := by decide
  subst first
  refine ⟨by decide, fun ph here _ => ?_, fun ph here _ => ?_⟩
  · cases header.symm.trans here
    decide
  · cases header.symm.trans here
    decide

/-- Every reader computes an offset that wraps around, and then reads outside the file. -/
theorem wrapped_header_faults : wrapped.length < 2 ^ 63 ∧
    (∀ reader : Reader, reader.read wrapped 0 = .error .fault) ∧ ¬ReadersSafe wrapped 0 := by
  have faults : ∀ reader : Reader, reader.read wrapped 0 = .error .fault := by
    intro reader
    cases reader <;> rfl
  exact ⟨by decide, faults, fun readersSafe => readersSafe.safe .loadBias (faults .loadBias)⟩

end RustyPenguin.Elf
