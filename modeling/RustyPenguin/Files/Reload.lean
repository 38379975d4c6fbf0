import RustyPenguin.Files.Unique
import Mathlib.Algebra.Order.BigOperators.Group.List
import Mathlib.Algebra.Order.Group.Nat
import Mathlib.Data.List.Perm.Subperm

/-!
# What is read back

The files of an entry list as a map, what each operation does to it, the manifest there and back, and
the map that is there after a start (`read_boot`).
-/

set_option autoImplicit false

namespace RustyPenguin.Files

/-! ## The map of the files -/

section Reading

variable {entries front back : Entries} {e : VfsEntry} {name other source target : String}
  {data : Bytes}

theorem read_append : Entries.read (front ++ back) name =
    ((Entries.read front name).or (Entries.read back name)) := by
  rw [Entries.read, Entries.findFile, List.find?_append, Entries.read, Entries.read, Entries.findFile,
    Entries.findFile]
  exact Option.map_or

theorem read_cons_file (file : e.isDir = false) :
    Entries.read (e :: back) name = if e.name = name then some e.data else Entries.read back name := by
  rw [Entries.read, Entries.findFile, List.find?_cons]
  split_ifs with same
  · simp [same, file]
  · simp [same]
    rfl

theorem read_cons_dir (dir : e.isDir = true) : Entries.read (e :: back) name = Entries.read back name := by
  rw [Entries.read, Entries.findFile, List.find?_cons]
  simp [dir]
  rfl

@[simp] theorem read_nil : Entries.read [] name = none := rfl

theorem read_eq_none : entries.read name = none ↔ ∀ a ∈ entries, a.name = name → a.isDir = true := by
  rw [Entries.read, Option.map_eq_none_iff, findFile_eq_none]

theorem isSome_read : (entries.read name).isSome ↔ ∃ a ∈ entries, a.isDir = false ∧ a.name = name := by
  rw [Entries.read, Option.isSome_map, Entries.findFile, List.find?_isSome]
  simp [and_comm]

theorem read_concat_dir (dir : e.isDir = true) : Entries.read (entries ++ [e]) name = entries.read name := by
  rw [read_append, read_cons_dir dir, read_nil, Option.or_none]

theorem read_writeMem :
    (entries.writeMem name data).read other = if name = other then some data else entries.read other := by
  rcases found : entries.findFile name with _ | e
  · have none : entries.read name = none := by rw [Entries.read, found, Option.map_none]
    rw [writeMem_new found, read_append, read_cons_file rfl, read_nil]
    split_ifs with same
    · rw [← same, none, Option.none_or]
    · rw [Option.or_none]
  · obtain ⟨⟨rfl, file⟩, front, back, rfl, before⟩ := findFile_split.mp found
    have none : Entries.read front e.name = none := read_eq_none.2 before
    rw [writeMem_split before rfl file, read_append, read_append, read_cons_file file,
      read_cons_file (e := { e with data := data }) file]
    split_ifs with same
    · rw [← same, none, Option.none_or]
    · rfl

theorem read_mkdir : (entries.mkdir name).read other = entries.read other := by
  rw [Entries.mkdir]
  split
  · rfl
  · exact read_concat_dir rfl

theorem read_delete :
    (entries.delete name).read other = if name = other then none else entries.read other := by
  split_ifs with same
  · rw [read_eq_none]
    intro a inside here
    have kept := (List.mem_filter.mp inside).2
    exact absurd (here.trans same.symm) (by simpa using kept)
  · induction entries with
    | nil => rfl
    | cons a rest ih =>
      rw [Entries.delete] at ih ⊢
      rw [List.filter_cons]
      split_ifs with kept
      · rcases kind : a.isDir with _ | _
        · rw [read_cons_file kind, read_cons_file kind, ih]
        · rw [read_cons_dir kind, read_cons_dir kind, ih]
      · have named : a.name = name := by simpa using kept
        rcases kind : a.isDir with _ | _
        · rw [read_cons_file kind, if_neg (fun here => same (named.symm.trans here)), ih]
        · rw [read_cons_dir kind, ih]

/-- Renaming a directory changes no file. -/
theorem read_rename_dir (found : entries.find source = some e) (dir : e.isDir = true) :
    (entries.rename source target).read other = entries.read other := by
  obtain ⟨named, front, back, rfl, before⟩ := find_split.mp found
  rw [rename_split before named, read_append, read_append, read_cons_dir dir,
    read_cons_dir (e := { e with name := target }) dir]

/-- Directories that are added change no file. -/
theorem read_ensureDirs {before rest : List Char} :
    (ensureDirs entries before rest).read name = entries.read name := by
  induction rest generalizing entries before with
  | nil => rfl
  | cons c rest ih =>
    rw [ensureDirs, ih]
    split_ifs
    · exact read_concat_dir rfl
    · rfl

/-- What a file of the disk is reloaded to. -/
def content (disk : Disk) (name : String) : Bytes := persistRead disk name 65535

theorem read_loadFile {disk : Disk} : (loadFile disk entries name).read other =
    if name = other ∧ content disk other ≠ [] then some (content disk other) else entries.read other := by
  rw [loadFile, ← content]
  split_ifs with empty hit hit
  · exact absurd empty (hit.1 ▸ hit.2)
  · rfl
  · rw [read_writeMem, if_pos hit.1, hit.1]
  · rw [read_writeMem, if_neg (fun same => hit ⟨same, same ▸ empty⟩), ensureParentDirs, read_ensureDirs]

theorem read_loadFiles {disk : Disk} (names : List String) :
    (names.foldl (loadFile disk) entries).read other =
      if other ∈ names ∧ content disk other ≠ [] then some (content disk other)
      else entries.read other := by
  induction names generalizing entries with
  | nil => rw [List.foldl_nil, if_neg (fun hit => List.not_mem_nil hit.1)]
  | cons first names ih =>
    rw [List.foldl_cons, ih, read_loadFile]
    by_cases same : first = other
    · by_cases full : content disk other = [] <;> simp [same, full]
    · by_cases later : other ∈ names
      · simp [later, same]
      · simp [later, same, Ne.symm same]

end Reading

/-! ## The listed names -/

section Listed

variable {entries entries' front back : Entries} {e : VfsEntry} {name source target : String}
  {data : Bytes}

theorem mem_listed : name ∈ entries.listed ↔ persistable name ∧ (entries.read name).isSome := by
  rw [isSome_read, Entries.listed]
  constructor
  · intro inside
    obtain ⟨e, kept, rfl⟩ := List.mem_map.mp inside
    obtain ⟨there, file⟩ := List.mem_filter.mp kept
    simp only [Bool.and_eq_true, Bool.not_eq_true', decide_eq_true_eq] at file
    exact ⟨file.2, e, there, file.1, rfl⟩
  · rintro ⟨wanted, e, there, file, rfl⟩
    refine List.mem_map.mpr ⟨e, List.mem_filter.mpr ⟨there, ?_⟩, rfl⟩
    simp [file, wanted]

@[simp] theorem listed_append : Entries.listed (front ++ back) = Entries.listed front ++ Entries.listed back := by
  rw [Entries.listed, List.filter_append, List.map_append]
  rfl

theorem listed_cons_dir (dir : e.isDir = true) : Entries.listed (e :: back) = Entries.listed back := by
  rw [Entries.listed, List.filter_cons_of_neg (by simp [dir])]
  rfl

theorem listed_cons_file (file : e.isDir = false) : Entries.listed (e :: back) =
    if persistable e.name then e.name :: Entries.listed back else Entries.listed back := by
  rw [Entries.listed, List.filter_cons]
  simp only [file, Bool.not_false, Bool.true_and, decide_eq_true_eq]
  split_ifs <;> rfl

theorem listed_writeMem_old (data : Bytes) (old : (entries.read name).isSome) :
    (entries.writeMem name data).listed = entries.listed := by
  rw [Entries.read, Option.isSome_map] at old
  obtain ⟨e, found⟩ := Option.isSome_iff_exists.mp old
  obtain ⟨⟨rfl, file⟩, front, back, rfl, before⟩ := findFile_split.mp found
  rw [writeMem_split before rfl file, listed_append, listed_append, listed_cons_file file,
    listed_cons_file (e := { e with data := data }) file]

theorem listed_writeMem_new (new : entries.read name = none) : (entries.writeMem name data).listed =
    if persistable name then entries.listed ++ [name] else entries.listed := by
  rw [Entries.read, Option.map_eq_none_iff] at new
  rw [writeMem_new new, listed_append, listed_cons_file rfl]
  split_ifs
  · rfl
  · exact List.append_nil _

theorem nodup_writeMem (nodup : entries.listed.Nodup) :
    (entries.writeMem name data).listed.Nodup := by
  rcases there : entries.read name with _ | d
  · rw [listed_writeMem_new there]
    split_ifs
    · refine nodup.concat ?_ |> fun h => by rwa [List.concat_eq_append] at h
      intro inside
      have found := (mem_listed.1 inside).2
      rw [there] at found
      cases found
    · exact nodup
  · rw [listed_writeMem_old _ (by rw [there]; rfl)]
    exact nodup

theorem nodup_delete (name : String) (nodup : entries.listed.Nodup) : (entries.delete name).listed.Nodup :=
  nodup.sublist ((List.filter_sublist.filter _).map _)

theorem listed_concat_dir (dir : e.isDir = true) : Entries.listed (entries ++ [e]) = entries.listed := by
  rw [listed_append, listed_cons_dir dir]
  exact List.append_nil _

theorem listed_mkdir : (entries.mkdir name).listed = entries.listed := by
  rw [Entries.mkdir]
  split
  · rfl
  · exact listed_concat_dir rfl

theorem listed_rename_dir (found : entries.find source = some e) (dir : e.isDir = true) :
    (entries.rename source target).listed = entries.listed := by
  obtain ⟨named, front, back, rfl, before⟩ := find_split.mp found
  rw [rename_split before named, listed_append, listed_append, listed_cons_dir dir,
    listed_cons_dir (e := { e with name := target }) dir]

theorem listed_ensureDirs {before rest : List Char} :
    (ensureDirs entries before rest).listed = entries.listed := by
  induction rest generalizing entries before with
  | nil => rfl
  | cons c rest ih =>
    rw [ensureDirs, ih]
    split_ifs
    · exact listed_concat_dir rfl
    · rfl

theorem nodup_loadFile {disk : Disk} (nodup : entries.listed.Nodup) :
    (loadFile disk entries name).listed.Nodup := by
  rw [loadFile]
  split
  · exact nodup
  · refine nodup_writeMem ?_
    rw [ensureParentDirs, listed_ensureDirs]
    exact nodup

theorem nodup_loadFiles {disk : Disk} (names : List String) (nodup : entries.listed.Nodup) :
    (names.foldl (loadFile disk) entries).listed.Nodup := by
  induction names generalizing entries with
  | nil => exact nodup
  | cons first names ih => exact ih (nodup_loadFile nodup)

/-- Lists of the same files are the same but for the order. -/
theorem listed_perm (nodup : entries.listed.Nodup) (nodup' : entries'.listed.Nodup)
    (same : ∀ name, persistable name → entries'.read name = entries.read name) :
    entries'.listed.Perm entries.listed := by
  refine (List.perm_ext_iff_of_nodup nodup' nodup).mpr fun name => ?_
  rw [mem_listed, mem_listed]
  refine and_congr_right fun wanted => ?_
  rw [same name wanted]

/-- Files that are listed have distinct paths. -/
theorem file_eq {a b : VfsEntry} (nodup : entries.listed.Nodup) (first : a ∈ entries)
    (second : b ∈ entries) (file : a.isDir = false) (file' : b.isDir = false)
    (wanted : persistable a.name) (same : a.name = b.name) : a = b := by
  refine List.inj_on_of_nodup_map nodup (List.mem_filter.mpr ⟨first, ?_⟩)
    (List.mem_filter.mpr ⟨second, ?_⟩) same
  · simp [file, wanted]
  · simp [file', ← same, wanted]

/-- The file of a listed name is the one that is read. -/
theorem read_eq_some (nodup : entries.listed.Nodup) (wanted : persistable name) :
    entries.read name = some data ↔ ⟨name, data, false⟩ ∈ entries := by
  rw [Entries.read, Option.map_eq_some_iff]
  constructor
  · rintro ⟨e, found, rfl⟩
    obtain ⟨⟨rfl, file⟩, front, back, rfl, -⟩ := findFile_split.mp found
    rw [← file]
    exact List.mem_append_cons_self
  · intro there
    rcases found : entries.findFile name with _ | e
    · have dir := findFile_eq_none.mp found _ there rfl
      cases dir
    · obtain ⟨⟨named, file⟩, front, back, rfl, -⟩ := findFile_split.mp found
      have this := file_eq nodup List.mem_append_cons_self there file rfl (named ▸ wanted) named
      exact ⟨e, rfl, by rw [this]⟩

/-- Renaming changes nothing but the two names. -/
theorem read_rename_other {other : String} (found : entries.find source = some e)
    (away : target ≠ other) (apart : source ≠ other) :
    (entries.rename source target).read other = entries.read other := by
  rcases kind : e.isDir with _ | _
  · obtain ⟨named, front, back, rfl, before⟩ := find_split.mp found
    rw [rename_split before named, read_append, read_append, read_cons_file kind, named,
      read_cons_file (e := { e with name := target }) kind, if_neg away, if_neg apart]
  · exact read_rename_dir found kind

/-- What renaming a file does to the persistable files. -/
theorem read_rename_file (other : String) (nodup : entries.listed.Nodup)
    (found : entries.find source = some e) (file : e.isDir = false)
    (free : source = target ∨ entries.read target = none) (wanted : persistable other) :
    (entries.rename source target).read other =
      if target = other then some e.data else if source = other then none else entries.read other := by
  split_ifs with here away
  · obtain ⟨named, front, back, rfl, before⟩ := find_split.mp found
    have frontTarget : Entries.read front target = none := by
      rcases free with rfl | free
      · exact read_eq_none.2 fun a inside same => absurd same (before a inside)
      · rw [read_append] at free
        exact (Option.or_eq_none_iff.mp free).1
    rw [rename_split before named, read_append, ← here, frontTarget, Option.none_or,
      read_cons_file (e := { e with name := target }) file, if_pos rfl]
  · obtain ⟨named, front, back, rfl, before⟩ := find_split.mp found
    rw [rename_split before named, read_eq_none, ← away]
    intro a inside same
    rcases List.mem_append.mp inside with first | later
    · exact absurd same (before a first)
    · rcases List.mem_cons.mp later with rfl | later
      · exact absurd (same.trans away) here
      · by_contra notDir
        have aFile : a.isDir = false := eq_false_of_ne_true notDir
        rw [listed_append, listed_cons_file file, named, if_pos (away ▸ wanted), List.nodup_middle,
          List.nodup_cons] at nodup
        refine nodup.1 (List.mem_append_right _ (mem_listed.2 ⟨away ▸ wanted, ?_⟩))
        exact isSome_read.2 ⟨a, later, aFile, same⟩
  · exact read_rename_other found here away

theorem listed_rename_other (found : entries.find source = some e) (away : ¬persistable target)
    (apart : ¬persistable source) : (entries.rename source target).listed = entries.listed := by
  rcases kind : e.isDir with _ | _
  · obtain ⟨named, front, back, rfl, before⟩ := find_split.mp found
    rw [rename_split before named, listed_append, listed_append, listed_cons_file kind, named,
      listed_cons_file (e := { e with name := target }) kind, if_neg away, if_neg apart]
  · exact listed_rename_dir found kind

theorem nodup_rename (nodup : entries.listed.Nodup) (found : entries.find source = some e)
    (free : source = target ∨ entries.read target = none) :
    (entries.rename source target).listed.Nodup := by
  rcases kind : e.isDir with _ | _
  · rcases free with rfl | free
    · obtain ⟨named, front, back, rfl, before⟩ := find_split.mp found
      rwa [rename_split before named, ← named]
    · obtain ⟨named, front, back, rfl, before⟩ := find_split.mp found
      have new : target ∉ (front ++ back).listed := by
        intro inside
        have there := (mem_listed.1 inside).2
        rw [read_append] at there
        rw [read_append, read_cons_file kind] at free
        obtain ⟨first, second⟩ := Option.or_eq_none_iff.mp free
        rw [first, Option.none_or] at there
        split_ifs at second
        rw [second] at there
        cases there
      have rest : (front ++ back).listed.Nodup := by
        refine nodup.sublist ?_
        rw [listed_append, listed_append]
        refine (List.Sublist.refl _).append ?_
        rw [listed_cons_file kind]
        split_ifs
        · exact List.sublist_cons_self _ _
        · exact List.Sublist.refl _
      rw [rename_split before named, listed_append,
        listed_cons_file (e := { e with name := target }) kind]
      rw [listed_append] at new rest
      split_ifs
      · exact List.nodup_middle.mpr (List.nodup_cons.mpr ⟨new, rest⟩)
      · exact rest
  · rw [listed_rename_dir found kind]
    exact nodup

end Listed

/-! ## The manifest there and back -/

/-- The bytes that names take in the manifest. -/
def namesLength (names : List String) : Nat := (names.map fun name => name.utf8ByteSize + 1).sum

section Manifest

variable {names : List String} {name : String}

theorem manifestLines_append (list : String) :
    names.foldl (fun list name => (list ++ name).push '\n') list = list ++ manifestLines names := by
  induction names generalizing list with
  | nil => exact (String.append_empty).symm
  | cons name names ih =>
    rw [manifestLines, List.foldl_cons, List.foldl_cons, ih, ih (("" ++ name).push '\n'),
      String.empty_append, ← String.append_singleton, ← String.append_singleton]
    simp only [String.append_assoc]

theorem manifestLines_cons :
    manifestLines (name :: names) = name ++ "\n" ++ manifestLines names := by
  rw [manifestLines, List.foldl_cons, manifestLines_append, String.empty_append,
    ← String.append_singleton]
  rfl

theorem utf8ByteSize_manifestLines : (manifestLines names).utf8ByteSize = namesLength names := by
  induction names with
  | nil => rfl
  | cons name names ih =>
    rw [manifestLines_cons, String.utf8ByteSize_append, String.utf8ByteSize_append, ih, namesLength,
      namesLength, List.map_cons, List.sum_cons]
    rfl

theorem splitNames_lines (plain : ∀ name ∈ names, name ≠ "" ∧ '\n' ∉ name.toList) :
    splitNames (manifestLines names) = names := by
  induction names with
  | nil => decide
  | cons name names ih =>
    obtain ⟨full, line⟩ := plain name List.mem_cons_self
    have rest := ih fun n inside => plain n (List.mem_cons_of_mem name inside)
    have kept : name.toList ≠ [] := by simpa using full
    rw [splitNames] at rest ⊢
    rw [manifestLines_cons, String.toList_append, String.toList_append, List.append_assoc]
    show List.map _ (List.filter _ ((name.toList ++ '\n' :: (manifestLines names).toList).splitOn '\n')) = _
    rw [List.splitOn_append_cons_self_of_not_mem line, List.filter_cons_of_pos (by simpa using kept),
      List.map_cons, rest, String.ofList_toList]

/-- The names of a manifest are those it was written from. -/
theorem splitNames_text (plain : ∀ name ∈ names, name ≠ "" ∧ '\n' ∉ name.toList) :
    splitNames (manifestText names) = names := by
  rw [manifestText]
  split_ifs with empty
  · have lines := splitNames_lines plain
    rw [empty] at lines
    rw [← lines]
    decide
  · exact splitNames_lines plain

theorem manifestText_size (fits : namesLength names ≤ 65535) :
    asBytes (manifestText names) ≠ [] ∧ (asBytes (manifestText names)).length ≤ 65535 := by
  rw [manifestText]
  split_ifs with empty
  · decide
  · refine ⟨?_, ?_⟩
    · intro none
      exact empty (asBytes_injective (none.trans (by decide)))
    · rwa [length_asBytes, utf8ByteSize_manifestLines]

/-- Fewer names take less. -/
theorem namesLength_le {more : List String} (nodup : names.Nodup) (subset : names ⊆ more) :
    namesLength names ≤ namesLength more := by
  obtain ⟨middle, same, part⟩ := nodup.subperm subset
  rw [namesLength, namesLength, ← (same.map _).sum_eq]
  exact (part.map _).sum_le_sum fun _ _ => Nat.zero_le _

theorem namesLength_perm {other : List String} (same : names.Perm other) :
    namesLength names = namesLength other := (same.map _).sum_eq

end Manifest

/-! ## The start -/

theorem storable_manifest : Storable manifest := by decide

theorem persistable_settings : persistable settings := by decide

theorem persistable.storable {name : String} (wanted : persistable name) : Storable name :=
  ⟨wanted.1, wanted.2.1⟩

/-- The built-in files. -/
def builtIn : Entries := defaultFiles.foldl (fun entries file => entries.writeMem file.1 file.2) []

theorem nodup_builtIn : builtIn.listed.Nodup := by decide

/-- The names that a start reads. -/
def bootNames (disk : Disk) : List String :=
  if persistRead disk manifest 65535 = [] then [] else manifestNames disk

section Boot

variable {disk : Disk} {name : String}

theorem boot_written (files : List (String × Bytes)) (s : Vfs) (off : s.persistOn = false) :
    files.foldl (fun s file => Vfs.write s file.1 file.2) s =
      { s with entries := files.foldl (fun entries file => entries.writeMem file.1 file.2) s.entries } := by
  induction files generalizing s with
  | nil => rfl
  | cons file files ih =>
    have written : s.write file.1 file.2 = { s with entries := s.entries.writeMem file.1 file.2 } := by
      rw [Vfs.write, off, if_neg (fun armed => Bool.noConfusion armed.1)]
    rw [List.foldl_cons, written, ih { s with entries := s.entries.writeMem file.1 file.2 } off,
      List.foldl_cons]

theorem boot_eq : boot disk = ⟨loadPersisted disk builtIn, true, disk⟩ := by
  rw [boot, boot_written _ _ rfl]
  rfl

theorem loadManifest_eq (entries : Entries) :
    loadManifest disk entries = (bootNames disk).foldl (loadFile disk) entries := by
  rw [loadManifest, bootNames]
  split_ifs <;> rfl

/-- **What a start reads back**, when the settings are in the manifest or not on the disk. -/
theorem read_boot (known : settings ∈ bootNames disk ∨ content disk settings = []) :
    (boot disk).entries.read name =
      if name ∈ bootNames disk ∧ content disk name ≠ [] then some (content disk name)
      else builtIn.read name := by
  rw [boot_eq]
  show (loadPersisted disk builtIn).read name = _
  rw [loadPersisted, loadManifest_eq, ← read_loadFiles]
  split_ifs with present
  · rfl
  · rw [read_loadFile, if_neg]
    rintro ⟨rfl, full⟩
    rcases known with inside | empty
    · have loaded : (((bootNames disk).foldl (loadFile disk) builtIn).read settings).isSome := by
        rw [read_loadFiles, if_pos ⟨inside, full⟩]
        rfl
      obtain ⟨a, there, -, named⟩ := isSome_read.1 loaded
      exact present ⟨a, there, named⟩
    · exact full empty

theorem nodup_boot (disk : Disk) : (boot disk).entries.listed.Nodup := by
  rw [boot_eq]
  show (loadPersisted disk builtIn).listed.Nodup
  rw [loadPersisted, loadManifest_eq]
  split_ifs
  · exact nodup_loadFiles _ nodup_builtIn
  · exact nodup_loadFile (nodup_loadFiles _ nodup_builtIn)

theorem content_eq (storable : Storable name) :
    content disk name = ((disk (asBytes name)).map fun bytes => bytes.take 65535).getD [] :=
  persistRead_eq storable

/-- A file on the disk that fits is reloaded as it is. -/
theorem content_of_short {data : Bytes} (storable : Storable name) (there : disk (asBytes name) = some data)
    (short : data.length ≤ 65535) : content disk name = data := by
  rw [content_eq storable, there]
  exact List.take_of_length_le short

/-- The names that are read with a manifest of given names on the disk. -/
theorem bootNames_eq {names : List String} (plain : ∀ name ∈ names, name ≠ "" ∧ '\n' ∉ name.toList)
    (fits : namesLength names ≤ 65535)
    (there : disk (asBytes manifest) = some (asBytes (manifestText names))) : bootNames disk = names := by
  obtain ⟨full, short⟩ := manifestText_size fits
  have read : persistRead disk manifest 65535 = asBytes (manifestText names) :=
    content_of_short storable_manifest there short
  rw [bootNames, manifestNames, read, if_neg full, fromUtf8_asBytes, Option.getD_some,
    splitNames_text plain]

theorem bootNames_none (none : disk (asBytes manifest) = none) : bootNames disk = [] := by
  have read : persistRead disk manifest 65535 = [] := by
    rw [persistRead_eq storable_manifest, none]
    rfl
  rw [bootNames, if_pos read]

end Boot

end RustyPenguin.Files
