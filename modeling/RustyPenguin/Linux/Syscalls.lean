import Mathlib.Algebra.Ring.Int.Defs
import Mathlib.Algebra.Ring.Nat
import Mathlib.Data.Fintype.Basic

/-!
# Linux system calls

The calls a scheduled Linux process makes for its break, its mappings and its files. The kernel
keeps one break, one arena for mappings, one table of open files and one ring of keys; the pages it
maps and the bytes it writes go to the address space of the caller.

What the frame allocator gives in a call is an input of the call. A call that would touch a page
which is not mapped, or which is outside the private half of the address space, has no answer: the
machine stops there, or the kernel's own memory is written.
-/

set_option autoImplicit false

namespace RustyPenguin.Linux

/-! ## Constants -/

def brkBase : UInt64 := 0x07000000
def brkCap : UInt64 := 0x08000000
def mmapBase : UInt64 := 0x0A000000
def mmapCap : UInt64 := 0x10000000

/-- Where the surface of the framebuffer is mapped, and how many pages it has. -/
def lfbVa : UInt64 := 0x09000000
def lfbPages : Nat := 250

/-- The descriptor of the framebuffer, which has no entry in the table. -/
def devFbFd : UInt64 := 200

def fdBase : Nat := 3
def maxOpen : Nat := 32

instance : NeZero maxOpen := ⟨by decide⟩

/-- A negative error number. -/
def errno (e : Int) : UInt64 := UInt64.ofInt e

def ebadf : UInt64 := errno (-9)
def eagain : UInt64 := errno (-11)
def enomem : UInt64 := errno (-12)
def emfile : UInt64 := errno (-24)
def enoent : UInt64 := errno (-2)

def pageUp (n : UInt64) : UInt64 := (n + 4095) &&& ~~~4095

/-! ## State -/

/-- An open file: its bytes and the offset. -/
structure OpenFile where
  used : Bool
  data : List UInt8
  off : UInt64
  deriving DecidableEq

namespace OpenFile

def size (file : OpenFile) : UInt64 := UInt64.ofNat file.data.length

/-- How many bytes there are from an offset on. -/
def rest (file : OpenFile) (off : UInt64) : UInt64 :=
  if off ≤ file.size then file.size - off else 0

def bytes (file : OpenFile) (off n : UInt64) : List UInt8 :=
  (file.data.drop off.toNat).take n.toNat

end OpenFile

/-- What the kernel keeps for Linux processes. -/
structure Globals where
  brkCur : UInt64
  brkMapped : UInt64
  mmapCur : UInt64
  lfbPhys : UInt64
  lfbWrOff : UInt64
  keys : List UInt8
  fds : Fin maxOpen → OpenFile

/-- At the start, with the surface of the framebuffer if the kernel made it. -/
def Globals.start (lfbPhys : UInt64) : Globals where
  brkCur := brkBase
  brkMapped := 0
  mmapCur := mmapBase
  lfbPhys := lfbPhys
  lfbWrOff := 0
  keys := []
  fds _ := ⟨false, [], 0⟩

/-- What the kernel does to an address space. -/
inductive Effect where
  | fresh (page : Nat)
  | surface (page : Nat) (phys : UInt64)
  | zero (addr : UInt64) (len : Nat)
  | write (addr : UInt64) (bytes : List UInt8)
  deriving DecidableEq

/-- An address space: the pages that are mapped, and what the kernel did to it. -/
structure Space where
  mapped : Nat → Bool
  effects : List Effect

/-- The page of an address. -/
def pageOf (addr : UInt64) : Nat := addr.toNat / 4096

/-- A page of the half that a process does not share. -/
def isPrivate (page : Nat) : Bool := page < 2 ^ 35

/-- The pages that `len` bytes touch. -/
def pagesOf (addr : UInt64) (len : Nat) : List Nat :=
  List.range' (pageOf addr) ((addr.toNat + len + 4095) / 4096 - pageOf addr)

namespace Space

/-- A page is mapped. -/
def map (page : Nat) (effect : Effect) (sp : Space) : Space where
  mapped := Function.update sp.mapped page true
  effects := sp.effects ++ [effect]

/-- Bytes are written, if their pages are there. -/
def touch (addr : UInt64) (len : Nat) (effect : Effect) (sp : Space) : Option Space :=
  if (pagesOf addr len).all fun page => isPrivate page && sp.mapped page then
    some { sp with effects := sp.effects ++ [effect] }
  else none

def zero (addr : UInt64) (len : Nat) (sp : Space) : Option Space :=
  sp.touch addr len (.zero addr len)

def write (addr : UInt64) (bytes : List UInt8) (sp : Space) : Option Space :=
  sp.touch addr bytes.length (.write addr bytes)

end Space

/-- What the allocator gives in a call: how many frames, whether the tables for a page can be had,
and the frames of the surface. -/
structure Supply where
  frames : Nat
  tables : Nat → Bool
  surface : Option UInt64

/-- Back pages with fresh frames, as long as there are frames: whether all were. -/
def backPages (tables : Nat → Bool) : Nat → List Nat → Space → Option (Bool × Space)
  | _, [], sp => some (true, sp)
  | 0, _ :: _, sp => some (false, sp)
  | frames + 1, page :: pages, sp =>
    if isPrivate page then
      backPages tables frames pages (if tables page then sp.map page (.fresh page) else sp)
    else none

/-- The pages from an address up to another, both at a page's start. -/
def pagesBetween (start stop : UInt64) : List Nat :=
  List.range' (pageOf start) (pageOf stop - pageOf start)

/-- The answer of a call, and the state after it. -/
abbrev Reply : Type := UInt64 × Globals × Space

/-! ## Files -/

structure Inode where
  name : List UInt8
  data : List UInt8

/-- A stored name without a leading `./`. -/
def storedName (name : List UInt8) : List UInt8 :=
  match name with
  | 46 :: 47 :: rest => rest
  | _ => name

/-- The file of a name. -/
def find (inodes : List Inode) (path : List UInt8) : Option (List UInt8) :=
  (inodes.find? fun ino => storedName ino.name = path).map Inode.data

/-- A path without its leading slash. -/
def relative (path : List UInt8) : List UInt8 :=
  match path with
  | 47 :: rest => rest
  | _ => path

/-- The bytes of `"dev/fb0"`. -/
def devFb0 : List UInt8 := [0x64, 0x65, 0x76, 0x2f, 0x66, 0x62, 0x30]

/-- The bytes of `"dev/tty"`. -/
def devTty : List UInt8 := [0x64, 0x65, 0x76, 0x2f, 0x74, 0x74, 0x79]

/-- The bytes of `"dev/tty0"`. -/
def devTty0 : List UInt8 := devTty ++ [0x30]

def isDevice (path : List UInt8) : Bool := path = devFb0 ∨ path = devTty ∨ path = devTty0

namespace Globals

def setFd (i : Fin maxOpen) (file : OpenFile) (g : Globals) : Globals :=
  { g with fds := Function.update g.fds i file }

/-- The entry that a descriptor stands for, open or not. -/
def entry (fd : UInt64) : Option (Fin maxOpen) :=
  if inside : fdBase ≤ fd.toNat ∧ fd.toNat < fdBase + maxOpen then
    some ⟨fd.toNat - fdBase, by omega⟩
  else none

/-- The entry of an open file. -/
def fdSlot (g : Globals) (fd : UInt64) : Option (Fin maxOpen) :=
  match entry fd with
  | some i => if (g.fds i).used then some i else none
  | none => none

/-- A key from the keyboard, unless the ring is full. -/
def pushKey (b : UInt8) (g : Globals) : Globals :=
  if b = 0 ∨ 63 ≤ g.keys.length then g else { g with keys := g.keys ++ [b] }

end Globals

def openPath (inodes : List Inode) (path : List UInt8) (g : Globals) (sp : Space) : Reply :=
  let p := relative path
  if isDevice p then (devFbFd, g, sp)
  else
    match find inodes p with
    | none => (enoent, g, sp)
    | some data =>
      match Fin.find? fun i => ¬ (g.fds i).used with
      | some i => (UInt64.ofNat (fdBase + i), g.setFd i ⟨true, data, 0⟩, sp)
      | none => (emfile, g, sp)

def read (fd buf len : UInt64) (g : Globals) (sp : Space) : Option Reply :=
  match g.fdSlot fd with
  | some i =>
    let file := g.fds i
    let n := min len (file.rest file.off)
    if 0 < n then do
      let sp ← sp.write buf (file.bytes file.off n)
      some (n, g.setFd i { file with off := file.off + n }, sp)
    else some (n, g, sp)
  | none =>
    if fd = 0 then
      let got := g.keys.take (min len.toNat 256)
      if got.isEmpty then some (eagain, g, sp)
      else do
        let sp ← sp.write buf got
        some (UInt64.ofNat got.length, { g with keys := g.keys.drop (min len.toNat 256) }, sp)
    else some (0, g, sp)

def lseek (fd off whence : UInt64) (g : Globals) (sp : Space) : Reply :=
  if fd = devFbFd then
    let no := if whence = 1 then g.lfbWrOff + off else off
    (no, { g with lfbWrOff := no }, sp)
  else
    match g.fdSlot fd with
    | some i =>
      let file := g.fds i
      let no :=
        if whence = 0 then off
        else if whence = 1 then file.off + off
        else if whence = 2 then file.size + off
        else file.off
      (min no file.size, g.setFd i { file with off := min no file.size }, sp)
    | none => (ebadf, g, sp)

def close (fd : UInt64) (g : Globals) (sp : Space) : Reply :=
  match g.fdSlot fd with
  | some i => (0, g.setFd i { g.fds i with used := false }, sp)
  | none => (0, g, sp)

/-! ## Memory -/

/-- Where the pages of a growing break begin that are not backed yet. -/
def Globals.brkStart (g : Globals) : UInt64 := if g.brkMapped = 0 then brkBase else g.brkMapped

/-- Move the break up. -/
def growBrk (supply : Supply) (addr : UInt64) (g : Globals) (sp : Space) : Option Reply := do
  let (backed, sp) ← backPages supply.tables supply.frames
    (pagesBetween g.brkStart (pageUp addr)) sp
  if backed then do
    let sp ← sp.zero g.brkCur (addr - g.brkCur).toNat
    some (addr, { g with brkMapped := pageUp addr, brkCur := addr }, sp)
  else some (g.brkCur, g, sp)

def brk (supply : Supply) (addr : UInt64) (g : Globals) (sp : Space) : Option Reply :=
  if brkBase ≤ addr ∧ addr ≤ brkCap then
    if g.brkCur < addr then growBrk supply addr g sp
    else some (addr, { g with brkCur := addr }, sp)
  else some (g.brkCur, g, sp)

/-- Map the surface of the framebuffer, and make it if there is none. -/
def mmapSurface (supply : Supply) (g : Globals) (sp : Space) : Reply :=
  let phys? := if g.lfbPhys = 0 then supply.surface else some g.lfbPhys
  match phys? with
  | none => (enomem, g, sp)
  | some phys =>
    let sp := (List.range lfbPages).foldl (fun sp p =>
      let page := pageOf lfbVa + p
      if supply.tables page then sp.map page (.surface page (phys + UInt64.ofNat (p * 4096)))
      else sp) sp
    (lfbVa, { g with lfbPhys := phys }, sp)

def isFixed (flags : UInt64) : Bool := flags &&& 0x10 != 0

/-- Not backed by a file. -/
def isAnon (flags fd : UInt64) : Bool := flags &&& 0x20 != 0 || fd == ~~~0

/-- Where a mapping goes, and the arena after it. -/
def place (addr len flags : UInt64) (g : Globals) : Option (UInt64 × Globals) :=
  if isFixed flags ∧ addr ≠ 0 then some (addr, g)
  else if g.mmapCur + len ≤ mmapCap then some (g.mmapCur, { g with mmapCur := g.mmapCur + len })
  else none

/-- Copy bytes of a file into a mapping. -/
def copyIn (p copy off : UInt64) (file : OpenFile) (sp : Space) : Option Space :=
  if 0 < copy then sp.write p (file.bytes off copy) else some sp

/-- Clear what is left of a mapping. -/
def zeroTail (p copy len : UInt64) (sp : Space) : Option Space :=
  if copy < len then sp.zero (p + copy) (len - copy).toNat else some sp

/-- Fill a mapping from an open file, or with zeros. -/
def fill (p askedLen len flags fd off : UInt64) (g : Globals) (sp : Space) : Option Space :=
  if isAnon flags fd then sp.zero p len.toNat
  else
    match g.fdSlot fd with
    | none => some sp
    | some i => do
      let copy := min ((g.fds i).rest off) askedLen
      let sp ← copyIn p copy off (g.fds i) sp
      zeroTail p copy len sp

def mmap (supply : Supply) (addr askedLen flags fd off : UInt64) (g : Globals) (sp : Space) :
    Option Reply :=
  if fd = devFbFd then some (mmapSurface supply g sp)
  else
    let len := pageUp askedLen
    match place addr len flags g with
    | none => some (enomem, g, sp)
    | some (p, g) => do
      let (backed, sp) ← backPages supply.tables supply.frames
        (pagesBetween (p &&& ~~~4095) (pageUp (p + len))) sp
      if backed then do
        let sp ← fill p askedLen len flags fd off g sp
        some (p, g, sp)
      else some (enomem, g, sp)

/-! ## Calls -/

inductive Call where
  | brk (addr : UInt64)
  | mmap (addr len flags fd off : UInt64)
  | openPath (path : List UInt8)
  | read (fd buf len : UInt64)
  | lseek (fd off whence : UInt64)
  | close (fd : UInt64)

/-- A call in its caller's address space. -/
def syscall (inodes : List Inode) (supply : Supply) (g : Globals) (sp : Space) :
    Call → Option Reply
  | .brk addr => brk supply addr g sp
  | .mmap addr len flags fd off => mmap supply addr len flags fd off g sp
  | .openPath path => some (openPath inodes path g sp)
  | .read fd buf len => read fd buf len g sp
  | .lseek fd off whence => some (lseek fd off whence g sp)
  | .close fd => some (close fd g sp)

section Machine

variable {Task : Type} [DecidableEq Task]

/-- What the kernel keeps, and the address spaces of the scheduled Linux tasks. -/
structure System (Task : Type) where
  globals : Globals
  spaces : Task → Space

/-- A task makes a call, or a key is pressed. -/
inductive Event (Task : Type) where
  | call (t : Task) (call : Call) (supply : Supply)
  | key (b : UInt8)

/-- One event, and the answer of a call. -/
def System.step (inodes : List Inode) (s : System Task) :
    Event Task → Option (Option UInt64 × System Task)
  | .call t call supply =>
    match syscall inodes supply s.globals (s.spaces t) call with
    | none => none
    | some (ret, globals, space) =>
      some (some ret, ⟨globals, Function.update s.spaces t space⟩)
  | .key b => some (none, { s with globals := s.globals.pushKey b })

end Machine

end RustyPenguin.Linux
