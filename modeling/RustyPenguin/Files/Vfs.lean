import RustyPenguin.Files.Store
import RustyPenguin.Foundation.Trace

/-!
# The desktop's files

A flat list of entries with full paths for names, mirrored to the store. The names of the files to
reload are kept in a manifest, written anew when a file is created, deleted or renamed. At start the
built-in files are written, then the files of the manifest are read back.
-/

set_option autoImplicit false

namespace RustyPenguin.Files

/-! ## Entries -/

structure VfsEntry where
  name : String
  data : Bytes
  isDir : Bool
  deriving DecidableEq

abbrev Entries := List VfsEntry

def manifest : String := ".vfsmanifest"

def settings : String := ".config/rusty-penguin/settings.ini"

def persistable (name : String) : Prop :=
  name ≠ "" ∧ (asBytes name).length ≤ 51 ∧ name ≠ manifest

instance (name : String) : Decidable (persistable name) := inferInstanceAs (Decidable (_ ∧ _ ∧ _))

section Entries

variable (entries : Entries)

/-- The first entry of a name. -/
def Entries.find (name : String) : Option VfsEntry :=
  List.find? (fun e => decide (e.name = name)) entries

/-- The first file of a name. -/
def Entries.findFile (name : String) : Option VfsEntry :=
  List.find? (fun e => decide (e.name = name) && !e.isDir) entries

/-- Changes the first entry that is as wanted. -/
def Entries.change (wanted : VfsEntry → Bool) (edit : VfsEntry → VfsEntry) : Entries → Entries
  | [] => []
  | e :: rest => if wanted e then edit e :: rest else e :: Entries.change wanted edit rest

def Entries.exists (name : String) : Prop := ∃ e ∈ entries, e.name = name

instance (name : String) : Decidable (entries.exists name) :=
  inferInstanceAs (Decidable (∃ e ∈ entries, e.name = name))

def Entries.read (name : String) : Option Bytes := (entries.findFile name).map VfsEntry.data

def Entries.writeMem (name : String) (data : Bytes) : Entries :=
  if (entries.findFile name).isSome then
    Entries.change (fun e => decide (e.name = name) && !e.isDir) (fun e => { e with data := data })
      entries
  else entries ++ [⟨name, data, false⟩]

def Entries.mkdir (name : String) : Entries :=
  if entries.exists name then entries else entries ++ [⟨name, [], true⟩]

/-- `retain` of the entries with another name. -/
def Entries.delete (name : String) : Entries := entries.filter fun e => decide (e.name ≠ name)

def Entries.rename (source target : String) : Entries :=
  Entries.change (fun e => decide (e.name = source)) (fun e => { e with name := target }) entries

/-- The names that go into the manifest. -/
def Entries.listed : List String :=
  (entries.filter fun e => !e.isDir && decide (persistable e.name)).map VfsEntry.name

end Entries

/-- `ensure_parent_dirs`, from a character of the path on. -/
def ensureDirs (entries : Entries) (before : List Char) : List Char → Entries
  | [] => entries
  | c :: rest =>
    let entries :=
      if c = '/' ∧ before ≠ [] ∧ ¬entries.exists (String.ofList before) then
        entries ++ [⟨String.ofList before, [], true⟩]
      else entries
    ensureDirs entries (before ++ [c]) rest

def ensureParentDirs (entries : Entries) (name : String) : Entries :=
  ensureDirs entries [] name.toList

/-! ## The manifest -/

def manifestLines (names : List String) : String :=
  names.foldl (fun list name => (list ++ name).push '\n') ""

/-- The text of the manifest: one line feed when there are no files. -/
def manifestText (names : List String) : String :=
  if manifestLines names = "" then "\n" else manifestLines names

/-- `split('\n')` without the empty parts. -/
def splitNames (text : String) : List String :=
  ((text.toList.splitOn '\n').filter fun line => line ≠ []).map String.ofList

/-! ## The file system and the disk -/

structure Vfs where
  entries : Entries
  persistOn : Bool
  disk : Disk

def Vfs.flushManifest (s : Vfs) : Vfs :=
  { s with disk := (persistWrite s.disk manifest (asBytes (manifestText s.entries.listed))).1 }

def Vfs.write (s : Vfs) (name : String) (data : Bytes) : Vfs :=
  let written := { s with entries := s.entries.writeMem name data }
  if s.persistOn ∧ persistable name then
    let mirrored := { written with disk := (persistWrite s.disk name data).1 }
    if s.entries.exists name then mirrored else mirrored.flushManifest
  else written

def Vfs.mkdir (s : Vfs) (name : String) : Vfs :=
  { s with entries := s.entries.mkdir name }

def Vfs.delete (s : Vfs) (name : String) : Vfs × Bool :=
  let removed := decide ((s.entries.delete name).length < s.entries.length)
  let deleted := { s with entries := s.entries.delete name }
  if removed ∧ s.persistOn ∧ persistable name then (deleted.flushManifest, removed)
  else (deleted, removed)

def Vfs.rename (s : Vfs) (source target : String) : Vfs × Bool :=
  match s.entries.find source with
  | none => (s, false)
  | some e =>
    let renamed := { s with entries := s.entries.rename source target }
    if s.persistOn ∧ e.isDir = false ∧ persistable target then
      ({ renamed with disk := (persistWrite s.disk target e.data).1 }.flushManifest, true)
    else (renamed, true)

/-! ## The start -/

def readme : String :=
  "Welcome to RustyPenguin OS.\nBare-metal Rust. Ternary mind.\n\nTry: nano readme.txt\n" ++
  "ls\nhelp\n"

def motd : String :=
  " _______________________________________________\n" ++
  "< Welcome to RustyPenguin 1.0.0 - bare metal! >\n" ++
  "-----------------------------------------------\n\\  ^___^\n\\ (o o)\n( =^= )\n" ++
  "(\"   \")\n"

def quickstart : String :=
  "RustyPenguin Quick Start\n=======================\n\n" ++
  "This is a bare-metal x86_64 OS written entirely in Rust.\n" ++
  "No kernel, no glibc - pure systems programming.\n\nKey Commands:\n" ++
  "- help           : show all available commands\n- ls             : list files\n" ++
  "- nano <file>    : edit files\n- demo.psh       : run full feature demo\n" ++
  "- sysinfo        : show system info\n- lsb_release -a : show distro info\n\nScripting:\n" ++
  "- psh script.psh : run shell script\n" ++
  "- Supports: for/do/done, if/then/else/fi, pipes (|), redirects (>, >>)\n\n" ++
  "For more info:\n- cat readme.txt\n- cat QUICKSTART.txt\n"

def demo : String :=
  "#!/bin/psh\n# RustyPenguin OS v1.0.0 - Full feature demonstration\n" ++
  "echo \"\x1b[1;32m=== RustyPenguin v1.0.0 - Bare Metal Rust OS ===\"\x1b[0m\n" ++
  "echo \"Kernel: $(uname) | CPU: x86_64 | Binary: bare-metal\"\nsysinfo\necho \"\"\n" ++
  "echo \"\x1b[1;36m-- Conditional Logic --\"\x1b[0m\nif test -f readme.txt\nthen\n" ++
  "echo \"  readme.txt exists - file I/O working\"\nfi\necho \"\"\n" ++
  "echo \"\x1b[1;36m-- Arithmetic --\"\x1b[0m\necho -n \"  (2 + 3) * 7 = \"\n" ++
  "calc (2 + 3) * 7\necho -n \"  1024 / 32 = \"\ncalc 1024 / 32\necho \"\"\n" ++
  "echo \"\x1b[1;36m-- Sequences and Loops --\"\x1b[0m\necho \"  Counting 1 to 5:\"\n" ++
  "for i in $(seq 1 5)\ndo\necho -n \"  $i\"\ndone\necho \"\"\necho \"\"\n" ++
  "echo \"\x1b[1;36m-- Files and Pipes --\"\x1b[0m\necho \"  Creating languages.txt...\"\n" ++
  "echo \"Rust\" > languages.txt\necho \"Python\" >> languages.txt\n" ++
  "echo \"Lisp\" >> languages.txt\necho \"Go\" >> languages.txt\n" ++
  "echo \"  Sorted output:\"\ncat languages.txt | sort\necho \"\"\n" ++
  "echo \"\x1b[1;36m-- Text Processing --\"\x1b[0m\n" ++
  "echo \"  Languages with 'u': $(cat languages.txt | grep u | wc -l) found\"\necho \"\"\n" ++
  "echo \"\x1b[1;36m-- System Introspection --\"\x1b[0m\necho \"  Hostname: $(hostname)\"\n" ++
  "echo \"  User ID: $(id)\"\nlsb_release\necho \"\"\n" ++
  "echo \"\x1b[1;36m-- Sparse Ternary Inference --\"\x1b[0m\nai 8\necho \"\"\n" ++
  "echo \"\x1b[1;32m=== Demo Complete ===\"\x1b[0m\n"

def defaultFiles : List (String × Bytes) :=
  [("readme.txt", asBytes readme), ("motd.txt", asBytes motd),
    ("QUICKSTART.txt", asBytes quickstart), ("demo.psh", asBytes demo)]

/-- Reads a file back from the disk. -/
def loadFile (disk : Disk) (entries : Entries) (name : String) : Entries :=
  let data := persistRead disk name 65535
  if data = [] then entries else (ensureParentDirs entries name).writeMem name data

/-- The names of the manifest on the disk. -/
def manifestNames (disk : Disk) : List String :=
  splitNames ((fromUtf8 (persistRead disk manifest 65535)).getD "")

def loadManifest (disk : Disk) (entries : Entries) : Entries :=
  if persistRead disk manifest 65535 = [] then entries
  else (manifestNames disk).foldl (loadFile disk) entries

def loadPersisted (disk : Disk) (entries : Entries) : Entries :=
  let loaded := loadManifest disk entries
  if loaded.exists settings then loaded else loadFile disk loaded settings

/-- `Vfs::new`. -/
def boot (disk : Disk) : Vfs :=
  let written := defaultFiles.foldl (fun s file => Vfs.write s file.1 file.2) ⟨[], false, disk⟩
  { written with entries := loadPersisted disk written.entries, persistOn := true }

/-! ## Operations -/

/-- The operations on the files. -/
inductive Op
  | write (name : String) (data : Bytes)
  | mkdir (name : String)
  | delete (name : String)
  | rename (source target : String)

def Vfs.apply (s : Vfs) : Op → Vfs
  | .write name data => s.write name data
  | .mkdir name => s.mkdir name
  | .delete name => (s.delete name).1
  | .rename source target => (s.rename source target).1

end RustyPenguin.Files
