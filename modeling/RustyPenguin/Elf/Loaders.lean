import RustyPenguin.Elf.Segments
import RustyPenguin.Sched.Tasks

/-!
# The loaders

Three ways of spawning load an ELF file for the scheduler. Each makes a private address space, puts
the segments of the file into fresh frames mapped there, and maps the stack after them; a Linux
program gets its start block in the top page of the stack, and a dynamic one the segments of its
interpreter too. `loadBias` is the other loader: it writes the segments straight to their addresses.

A reading outside the file panics and a copy from outside of it has no defined effect; there is no
answer then.
-/

set_option autoImplicit false

namespace RustyPenguin.Elf

open Vmm (State FrameAlloc Memory pfw copyBytes frameByte pageNumber lane)
open Sched (Scheduler Slot)

variable {A : Type} [FrameAlloc A]

/-! ## Segments into an address space -/

/-- Put one page of a segment into a fresh frame and map it. False when there is no frame for it or
for its tables. -/
def loadPage (vm : State A) (as_ : BitVec 64) (seg : Segment) (va : BitVec 64) :
    Option (Bool × State A) :=
  match FrameAlloc.allocFrame vm.pmm with
  | none => some (false, vm)
  | some (frame, pmm) =>
    (seg.fill va).map fun (dstOff, bytes) =>
      let vm := vm.take frame pmm
      State.mapPageIn { vm with mem := copyBytes vm.mem (frame.toNat + dstOff) bytes } as_ va frame pfw

/-- The first `n` pages of a segment. -/
def loadPages (vm : State A) (as_ : BitVec 64) (seg : Segment) : Nat → Option (Bool × State A)
  | 0 => some (true, vm)
  | n + 1 =>
    match loadPages vm as_ seg n with
    | some (true, vm) => loadPage vm as_ seg (seg.pageAt n)
    | answer => answer

/-- The segments of the first `n` program headers. -/
def loadSegments (vm : State A) (as_ : BitVec 64) (elf : File) (bias : BitVec 64)
    (table : HeaderTable) : Nat → Option (Bool × State A)
  | 0 => some (true, vm)
  | n + 1 =>
    match loadSegments vm as_ elf bias table n with
    | some (true, vm) =>
      match segmentAt elf bias table n with
      | none => none
      | some none => some (true, vm)
      | some (some seg) => loadPages vm as_ seg seg.pageCount
    | answer => answer

/-- Copy an ELF's loadable segments into an address space at a bias. -/
def loadSegmentsInto (vm : State A) (as_ : BitVec 64) (elf : File) (bias : BitVec 64) :
    Option (Bool × State A) :=
  match headerTable elf with
  | none => none
  | some table => loadSegments vm as_ elf bias table table.phnum.toNat

/-! ## The stack -/

def stackPageAt (bottom : BitVec 64) (n : Nat) : BitVec 64 := bottom + BitVec.ofNat 64 (n * 4096)

/-- The first `n` pages of the stack: the frame of the last one, if there were frames for all. That a
page could not be mapped is not noticed. -/
def mapStack (vm : State A) (as_ bottom : BitVec 64) : Nat → Option (BitVec 64) × State A
  | 0 => (some 0, vm)
  | n + 1 =>
    match mapStack vm as_ bottom n with
    | (none, vm) => (none, vm)
    | (some _, vm) =>
      match FrameAlloc.allocFrame vm.pmm with
      | none => (none, vm)
      | some (frame, pmm) =>
        (some frame, (State.mapPageIn (vm.take frame pmm) as_ (stackPageAt bottom n) frame pfw).2)

def stackBottom (stackTop : BitVec 64) (stackPages : Nat) : BitVec 64 :=
  stackTop - BitVec.ofNat 64 (stackPages * 4096)

/-- How many pages the loop from the bottom to the top maps: none when the bottom wraps around. -/
def stackCount (stackTop : BitVec 64) (stackPages : Nat) : Nat :=
  if stackPages * 4096 ≤ stackTop.toNat then stackPages else 0

def userStackTop : BitVec 64 := 0x03F0_0000
def userStackPages : Nat := 16
def fbVa : BitVec 64 := 0x0080_0000

/-! ## The start block of a Linux program -/

/-- The bytes of a word, the lowest first. -/
def wordBytes (w : BitVec 64) : List (BitVec 8) := (List.range 8).map (lane w)

/-- The bytes of `/bin/linuxapp` and a zero. -/
def argv0 : List (BitVec 8) :=
  [0x2f, 0x62, 0x69, 0x6e, 0x2f, 0x6c, 0x69, 0x6e, 0x75, 0x78, 0x61, 0x70, 0x70, 0]

def argv0Ptr : BitVec 64 := userStackTop - BitVec.ofNat 64 argv0.length
def randPtr : BitVec 64 := (argv0Ptr - 16) &&& ~~~0xF
def userRsp : BitVec 64 := (randPtr - 160) &&& ~~~0xF

/-- The next bytes of the generator. -/
def randomBytes : Nat → BitVec 64 → List (BitVec 8)
  | 0, _ => []
  | n + 1, x =>
    let x := x * 6364136223846793005 + 1
    (x >>> 40).setWidth 8 :: randomBytes n x

/-- Where the program headers are in the loaded image, how long each is and how many there are: from
the first of the next `left` headers whose segment covers them. -/
def phdrInfo (elf : File) (table : HeaderTable) : (left : Nat) → (i : Nat) →
    Option (BitVec 64 × BitVec 64 × BitVec 64)
  | 0, _ => none
  | left + 1, i =>
    if headerFits elf (table.entry i) then
      match phdrAt elf (table.entry i) with
      | none => none
      | some ph =>
        if ph.type = ptLoad ∧ ph.offset ≤ table.phoff ∧ table.phoff < ph.offset + ph.filesz then
          some (ph.vaddr + (table.phoff - ph.offset), table.phent.setWidth 64,
            table.phnum.setWidth 64)
        else phdrInfo elf table left (i + 1)
    else none

/-- The words at the initial stack pointer. -/
def startWords (elf : File) (table : HeaderTable) (bias base entry : BitVec 64) :
    List (BitVec 64) :=
  let (phdr, phent, phnum) :=
    match phdrInfo elf table table.phnum.toNat 0 with
    | some (v, e, n) => (v + bias, e, n)
    | none => (0, 56, 0)
  [1, argv0Ptr, 0, 0, 3, phdr, 4, phent, 5, phnum, 6, 4096, 7, base, 9, entry, 25, randPtr, 0, 0]

/-- Write bytes at an address of the top page of the stack, whose frame is given. -/
def stage (frame uva : BitVec 64) (bytes : List (BitVec 8)) (mem : Memory) : Memory :=
  copyBytes mem (frame.toNat + (uva - (userStackTop - 4096)).toNat) bytes

/-- The start block: the name, the random bytes and the words. -/
def stageStart (frame ticks : BitVec 64) (words : List (BitVec 64)) (mem : Memory) : Memory :=
  stage frame userRsp (words.flatMap wordBytes)
    (stage frame randPtr (randomBytes 16 (ticks * 2862933555777941757 + 3037000493))
      (stage frame argv0Ptr argv0 mem))

/-! ## Address spaces of programs -/

/-- The space of a native program: its segments, its stack and the surface it may draw on. -/
def ring3ElfSpace (elf : File) (stackTop : BitVec 64) (stackPages : Nat) (fbFrame : BitVec 64)
    (vm : State A) : Option (Option (BitVec 64) × State A) :=
  match vm.newAddressSpacePrivate with
  | (none, vm) => some (none, vm)
  | (some as_, vm) =>
    match loadSegmentsInto vm as_ elf 0 with
    | none => none
    | some (false, vm) => some (none, vm)
    | some (true, vm) =>
      match mapStack vm as_ (stackBottom stackTop stackPages) (stackCount stackTop stackPages) with
      | (none, vm) => some (none, vm)
      | (some _, vm) =>
        some (some as_, if fbFrame = 0 then vm else (vm.mapPageIn as_ fbVa fbFrame pfw).2)

/-- Write the start block, if there were frames for the stack. -/
def finishStack (as_ ticks : BitVec 64) (words : List (BitVec 64)) :
    Option (BitVec 64) × State A → Option (BitVec 64) × State A
  | (none, vm) => (none, vm)
  | (some topFrame, vm) => (some as_, { vm with mem := stageStart topFrame ticks words vm.mem })

/-- The stack of a Linux program and its start block. -/
def linuxStack (as_ ticks : BitVec 64) (words : List (BitVec 64)) (vm : State A) :
    Option (BitVec 64) × State A :=
  finishStack as_ ticks words
    (mapStack vm as_ (stackBottom userStackTop userStackPages) userStackPages)

/-- The space of a static Linux program. -/
def linuxStaticSpace (elf : File) (ticks : BitVec 64) (vm : State A) :
    Option (Option (BitVec 64) × State A) :=
  match vm.newAddressSpacePrivate with
  | (none, vm) => some (none, vm)
  | (some as_, vm) =>
    match headerTable elf, rdU64 elf 24, loadSegmentsInto vm as_ elf 0 with
    | some table, some entry, some (true, vm) =>
      some (linuxStack as_ ticks (startWords elf table 0 0 entry) vm)
    | some _, some _, some (false, vm) => some (none, vm)
    | _, _, _ => none

def interpBase : BitVec 64 := 0x0080_0000
def progBase : BitVec 64 := 0x0100_0000

/-- The file is position independent. -/
def isDyn (elf : File) : Bool := isElf elf ∧ rdU16 elf 16 = some 3

def progBias (elf : File) : BitVec 64 := if isDyn elf then progBase else 0

/-- The path of the interpreter, if one of the next `left` headers names one. -/
def interpPath (elf : File) (table : HeaderTable) : (left : Nat) → (i : Nat) → Option (Option File)
  | 0, _ => some none
  | left + 1, i =>
    if headerFits elf (table.entry i) then
      match phdrAt elf (table.entry i) with
      | none => none
      | some ph =>
        if ph.type = ptInterp ∧ (ph.offset + ph.filesz).toNat ≤ elf.length then
          if ph.offset ≤ ph.offset + ph.filesz then
            some (some (((elf.drop ph.offset.toNat).take
              ((ph.offset + ph.filesz).toNat - ph.offset.toNat)).takeWhile fun b => b ≠ 0))
          else none
        else interpPath elf table left (i + 1)
    else some none

/-- A path without its leading slash. -/
def relative : File → File
  | 0x2f :: rest => rest
  | path => path

/-- The interpreter of a file: whether it needs one, and the file. -/
def interpreter (ramfs : File → Option File) (elf : File) (table : HeaderTable) :
    Option (Option (Option File)) :=
  (interpPath elf table table.phnum.toNat 0).map fun path => path.map fun path => ramfs (relative path)

/-- The space of a Linux program that may need an interpreter. -/
def linuxDynSpace (ramfs : File → Option File) (elf : File) (ticks : BitVec 64) (vm : State A) :
    Option (Option (BitVec 64) × State A) :=
  match vm.newAddressSpacePrivate with
  | (none, vm) => some (none, vm)
  | (some as_, vm) =>
    match headerTable elf, rdU64 elf 24, loadSegmentsInto vm as_ elf (progBias elf) with
    | some table, some entry, some (true, vm) =>
      let entry := entry + progBias elf
      match interpreter ramfs elf table with
      | none => none
      | some none =>
        some (linuxStack as_ ticks (startWords elf table (progBias elf) 0 entry) vm)
      | some (some none) => some (none, vm)
      | some (some (some interp)) =>
        match loadSegmentsInto vm as_ interp interpBase with
        | none => none
        | some (false, vm) => some (none, vm)
        | some (true, vm) =>
          some (linuxStack as_ ticks (startWords elf table (progBias elf) interpBase entry) vm)
    | some _, some _, some (false, vm) => some (none, vm)
    | _, _, _ => none

/-! ## Spawns -/

/-- Make the space and take a slot, if the file passes the first checks and there is a slot. -/
def spawnWith (accepts : Bool) (build : State A → Option (Option (BitVec 64) × State A))
    (take : Option UInt64 → Scheduler → Slot × Scheduler) (vm : State A) (s : Scheduler) :
    Option (Slot × Scheduler × State A) :=
  if accepts then
    match s.firstFree with
    | none => some (0, s, vm)
    | some _ =>
      (build vm).map fun (space, vm) =>
        let (i, s) := take (space.map UInt64.ofBitVec) s
        (i, s, vm)
  else some (0, s, vm)

def spawnRing3ElfCfg (elf : File) (stackTop : BitVec 64) (stackPages : Nat) (fbFrame : BitVec 64) :
    State A → Scheduler → Option (Slot × Scheduler × State A) :=
  spawnWith (isElf elf) (ring3ElfSpace elf stackTop stackPages fbFrame) Scheduler.spawnRing3ElfCfg

def spawnLinuxStaticElf (elf : File) (ticks : BitVec 64) :
    State A → Scheduler → Option (Slot × Scheduler × State A) :=
  spawnWith (isElf elf && rdU16 elf 16 = some 2) (linuxStaticSpace elf ticks)
    Scheduler.spawnLinuxStaticElf

def spawnLinuxDynElf (ramfs : File → Option File) (elf : File) (ticks : BitVec 64) :
    State A → Scheduler → Option (Slot × Scheduler × State A) :=
  spawnWith (isElf elf) (linuxDynSpace ramfs elf ticks) Scheduler.spawnLinuxDynElf

/-! ## The loader for identity-mapped memory -/

/-- Memory by the byte, at the addresses of the program. -/
abbrev FlatMemory : Type := Nat → BitVec 8

def zeroBytes (a n : Nat) (mem : FlatMemory) : FlatMemory := fun x =>
  if a ≤ x ∧ x < a + n then 0 else mem x

def putBytes (a : Nat) (bytes : List (BitVec 8)) (mem : FlatMemory) : FlatMemory := fun x =>
  if a ≤ x then bytes.getD (x - a) (mem x) else mem x

/-- Zero a segment up to the page boundary and copy its file part. -/
def placeSegment (seg : Segment) (mem : FlatMemory) : Option FlatMemory :=
  let zeroLen := seg.stop - seg.vaddr
  let mem := zeroBytes seg.vaddr.toNat zeroLen.toNat mem
  if seg.filesz ≠ 0 then
    if seg.offset.toNat + seg.filesz.toNat ≤ seg.elf.length then
      some (putBytes seg.vaddr.toNat ((seg.elf.drop seg.offset.toNat).take seg.filesz.toNat) mem)
    else none
  else some mem

/-- Place the segments of the first `n` program headers. -/
def placeSegments (elf : File) (bias : BitVec 64) (table : HeaderTable) (mem : FlatMemory) :
    Nat → Option FlatMemory
  | 0 => some mem
  | n + 1 =>
    match placeSegments elf bias table mem n with
    | none => none
    | some mem =>
      if headerFits elf (table.entry n) then
        match phdrAt elf (table.entry n) with
        | none => none
        | some ph =>
          if ph.type ≠ ptLoad ∨ ph.memsz = 0 then some mem
          else placeSegment (ph.segment elf bias) mem
      else none

/-- Load an ELF64 binary into the identity-mapped address space at a bias: the entry point, and the
memory, or nothing if the file is malformed. -/
def loadBias (elf : File) (bias : BitVec 64) (mem : FlatMemory) :
    Option (BitVec 64 × FlatMemory) :=
  if isElf elf ∧ rdU16 elf 18 = some 0x3E then
    match headerTable elf, rdU64 elf 24 with
    | some table, some entry =>
      if table.phnum = 0 then none
      else (placeSegments elf bias table mem table.phnum.toNat).map fun mem => (entry + bias, mem)
    | _, _ => none
  else none

end RustyPenguin.Elf
