import RustyPenguin.Files.Vfs
import Mathlib.Data.List.Nodup

/-!
# One entry for each path

Each operation looks for clashes in its own way. `mkdir` looks at all entries; `write` looks for a
file only, so it adds a file beside a directory of the same path; `rename` does not look at the
target. The paths stay distinct exactly when no `write` names a directory and no `rename` of an entry
goes to the path of another (`unique_iff`). Then what was written or renamed is what is found.
-/

set_option autoImplicit false

namespace RustyPenguin.Files

open Trace (after Always Each always_iff always_nil)

/-- No two entries have the same path. -/
def Unique (entries : Entries) : Prop := (entries.map VfsEntry.name).Nodup

instance (entries : Entries) : Decidable (Unique entries) :=
  inferInstanceAs (Decidable (entries.map VfsEntry.name).Nodup)

/-! ## Entries in their places -/

section Places

variable {entries front back : Entries} {e : VfsEntry} {name : String}
  {wanted : VfsEntry → Bool} {edit : VfsEntry → VfsEntry}

theorem change_split (before : ∀ a ∈ front, wanted a = false) (here : wanted e = true) :
    Entries.change wanted edit (front ++ e :: back) = front ++ edit e :: back := by
  induction front with
  | nil => rw [List.nil_append, Entries.change, if_pos here, List.nil_append]
  | cons a front ih =>
    rw [List.cons_append, Entries.change, before a List.mem_cons_self, if_neg Bool.noConfusion,
      ih fun b inside => before b (List.mem_cons_of_mem a inside), List.cons_append]

theorem change_none (none : ∀ a ∈ entries, wanted a = false) :
    Entries.change wanted edit entries = entries := by
  induction entries with
  | nil => rfl
  | cons a rest ih =>
    rw [Entries.change, none a List.mem_cons_self, if_neg Bool.noConfusion,
      ih fun b inside => none b (List.mem_cons_of_mem a inside)]

/-- The place of the entry that is found. -/
theorem find_split : entries.find name = some e ↔ e.name = name ∧ ∃ front back,
    entries = front ++ e :: back ∧ ∀ a ∈ front, a.name ≠ name := by
  rw [Entries.find, List.find?_eq_some_iff_append]
  simp

theorem findFile_split : entries.findFile name = some e ↔ (e.name = name ∧ e.isDir = false) ∧
    ∃ front back, entries = front ++ e :: back ∧ ∀ a ∈ front, a.name = name → a.isDir = true := by
  rw [Entries.findFile, List.find?_eq_some_iff_append]
  simp [Decidable.imp_iff_not_or]

theorem find_eq_none : entries.find name = none ↔ ¬entries.exists name := by
  rw [Entries.find, List.find?_eq_none, Entries.exists]
  simp

theorem findFile_eq_none :
    entries.findFile name = none ↔ ∀ a ∈ entries, a.name = name → a.isDir = true := by
  rw [Entries.findFile, List.find?_eq_none]
  simp

theorem writeMem_split {data : Bytes} (before : ∀ a ∈ front, a.name = name → a.isDir = true)
    (named : e.name = name) (file : e.isDir = false) :
    Entries.writeMem (front ++ e :: back) name data = front ++ { e with data := data } :: back := by
  have found : (Entries.findFile (front ++ e :: back) name).isSome := by
    rw [findFile_split.2 ⟨⟨named, file⟩, front, back, rfl, before⟩]
    rfl
  rw [Entries.writeMem, if_pos found, change_split]
  · intro a inside
    simpa using before a inside
  · simp [named, file]

theorem writeMem_new {data : Bytes} (none : entries.findFile name = none) :
    entries.writeMem name data = entries ++ [⟨name, data, false⟩] := by
  rw [Entries.writeMem, none, if_neg (by simp)]

theorem rename_split {target : String} (before : ∀ a ∈ front, a.name ≠ name)
    (named : e.name = name) :
    Entries.rename (front ++ e :: back) name target = front ++ { e with name := target } :: back := by
  rw [Entries.rename, change_split]
  · intro a inside
    simpa using before a inside
  · simp [named]

end Places

/-! ## What each operation does to the paths -/

section Paths

variable {entries front back : Entries} {e : VfsEntry} {name source target : String} {data : Bytes}

theorem unique_middle : Unique (front ++ e :: back) ↔
    Unique (front ++ back) ∧ ¬Entries.exists (front ++ back) e.name := by
  rw [Unique, List.map_append, List.map_cons, List.nodup_middle, List.nodup_cons, ← List.map_append,
    and_comm]
  refine and_congr_right fun _ => not_congr ?_
  exact List.mem_map

theorem unique_concat : Unique (entries ++ [e]) ↔ Unique entries ∧ ¬entries.exists e.name := by
  rw [unique_middle, List.append_nil]

theorem exists_middle :
    Entries.exists (front ++ e :: back) name ↔ e.name = name ∨ Entries.exists (front ++ back) name := by
  simp only [Entries.exists, List.mem_append, List.mem_cons, or_and_right, exists_or, exists_eq_left]
  exact or_left_comm

/-- An entry is the only one with its path. -/
theorem Unique.eq {a b : VfsEntry} (unique : Unique entries) (first : a ∈ entries)
    (second : b ∈ entries) (same : a.name = b.name) : a = b :=
  List.inj_on_of_nodup_map unique first second same

theorem unique_mkdir (unique : Unique entries) : Unique (entries.mkdir name) := by
  rw [Entries.mkdir]
  split
  · exact unique
  · next new => exact unique_concat.2 ⟨unique, new⟩

theorem unique_delete (unique : Unique entries) : Unique (entries.delete name) :=
  unique.sublist (List.filter_sublist.map VfsEntry.name)

/-- A write keeps the paths distinct exactly when there is no directory at its path. -/
theorem unique_writeMem_iff (unique : Unique entries) :
    Unique (entries.writeMem name data) ↔ ¬∃ e ∈ entries, e.name = name ∧ e.isDir = true := by
  rcases found : entries.findFile name with _ | e
  · have none := findFile_eq_none.1 found
    rw [writeMem_new found, unique_concat]
    refine ⟨?_, ?_⟩
    · rintro ⟨-, new⟩ ⟨a, inside, named, -⟩
      exact new ⟨a, inside, named⟩
    · intro noDir
      refine ⟨unique, ?_⟩
      rintro ⟨a, inside, named⟩
      exact noDir ⟨a, inside, named, none a inside named⟩
  · obtain ⟨⟨named, file⟩, front, back, rfl, before⟩ := findFile_split.1 found
    rw [writeMem_split before named file]
    refine ⟨fun _ => ?_, fun _ => unique_middle.2 ?_⟩
    · rintro ⟨a, inside, same, dir⟩
      have this := unique.eq inside List.mem_append_cons_self (same.trans named.symm)
      rw [this, file] at dir
      cases dir
    · exact (unique_middle (e := e)).mp unique

/-- A rename of an entry keeps the paths distinct exactly when the target is free or its own. -/
theorem unique_rename_iff (unique : Unique entries) :
    Unique (entries.rename source target) ↔
      (entries.exists source → source = target ∨ ¬entries.exists target) := by
  rcases found : entries.find source with _ | e
  · have absent := find_eq_none.1 found
    have same : entries.rename source target = entries := by
      refine change_none fun a inside => ?_
      simpa using fun named => absent ⟨a, inside, named⟩
    rw [same]
    exact ⟨fun _ present => absurd present absent, fun _ => unique⟩
  · obtain ⟨named, front, back, rfl, before⟩ := find_split.1 found
    obtain ⟨rest, own⟩ := unique_middle.1 unique
    rw [rename_split before named, unique_middle, exists_middle, exists_middle, named]
    rw [named] at own
    refine ⟨?_, ?_⟩
    · rintro ⟨-, free⟩ -
      by_cases same : source = target
      · exact Or.inl same
      · exact Or.inr (not_or.mpr ⟨same, free⟩)
    · intro clear
      refine ⟨rest, ?_⟩
      rcases clear (Or.inl rfl) with same | free
      · rwa [← same]
      · exact (not_or.mp free).2

/-- In entries with distinct paths, each is what is found at its path. -/
theorem Unique.find (unique : Unique entries) (inside : e ∈ entries) :
    entries.find e.name = some e := by
  rcases found : entries.find e.name with _ | a
  · exact absurd ⟨e, inside, rfl⟩ (find_eq_none.1 found)
  · obtain ⟨named, front, back, rfl, -⟩ := find_split.1 found
    rw [unique.eq List.mem_append_cons_self inside named]

theorem find_writeMem (unique : Unique (entries.writeMem name data)) :
    (entries.writeMem name data).find name = some ⟨name, data, false⟩ := by
  refine unique.find (e := ⟨name, data, false⟩) ?_
  rcases found : entries.findFile name with _ | e
  · rw [writeMem_new found]
    exact List.mem_append_right entries (List.mem_singleton_self _)
  · obtain ⟨⟨rfl, file⟩, front, back, rfl, before⟩ := findFile_split.1 found
    rw [writeMem_split before rfl file, ← file]
    exact List.mem_append_cons_self

theorem find_rename (unique : Unique (entries.rename source target))
    (found : entries.find source = some e) :
    (entries.rename source target).find target = some { e with name := target } := by
  refine unique.find (e := { e with name := target }) ?_
  obtain ⟨named, front, back, rfl, before⟩ := find_split.1 found
  rw [rename_split before named]
  exact List.mem_append_cons_self

end Paths

/-! ## Runs -/

/-- The operation names no directory to write and no other entry to rename to. -/
def Op.Clear (s : Vfs) : Op → Prop
  | .write name _ => ¬∃ e ∈ s.entries, e.name = name ∧ e.isDir = true
  | .rename source target =>
    s.entries.exists source → source = target ∨ ¬s.entries.exists target
  | .mkdir _ => True
  | .delete _ => True

/-- A look-up after the operation finds the entry it named. -/
def Op.Found (s : Vfs) : Op → Prop
  | .write name data => (s.write name data).entries.find name = some ⟨name, data, false⟩
  | .rename source target => ∀ e, s.entries.find source = some e →
    (s.rename source target).1.entries.find target = some { e with name := target }
  | .mkdir _ => True
  | .delete _ => True

section Runs

variable {s : Vfs} {name source target : String} {data : Bytes}

@[simp] theorem entries_flushManifest : s.flushManifest.entries = s.entries := rfl

@[simp] theorem entries_write : (s.write name data).entries = s.entries.writeMem name data := by
  rw [Vfs.write]
  split
  · dsimp only
    split <;> rfl
  · rfl

@[simp] theorem entries_delete : (s.delete name).1.entries = s.entries.delete name := by
  rw [Vfs.delete]
  split <;> rfl

@[simp] theorem entries_rename :
    (s.rename source target).1.entries = s.entries.rename source target := by
  rw [Vfs.rename]
  rcases found : s.entries.find source with _ | e
  · have absent := find_eq_none.1 found
    refine (change_none fun a inside => ?_).symm
    simpa using fun named => absent ⟨a, inside, named⟩
  · dsimp only
    split <;> rfl

theorem unique_apply_iff {op : Op} (unique : Unique s.entries) :
    Unique (s.apply op).entries ↔ op.Clear s := by
  cases op with
  | write name data =>
    rw [Vfs.apply, entries_write]
    exact unique_writeMem_iff unique
  | mkdir name => exact ⟨fun _ => trivial, fun _ => unique_mkdir unique⟩
  | delete name =>
    rw [Vfs.apply, entries_delete]
    exact ⟨fun _ => trivial, fun _ => unique_delete unique⟩
  | rename source target =>
    rw [Vfs.apply, entries_rename]
    exact unique_rename_iff unique

theorem found_of_unique {op : Op} (unique : Unique (s.apply op).entries) : op.Found s := by
  cases op with
  | write name data =>
    rw [Vfs.apply, entries_write] at unique
    rw [Op.Found, entries_write]
    exact find_writeMem unique
  | mkdir name => trivial
  | delete name => trivial
  | rename source target =>
    rw [Vfs.apply, entries_rename] at unique
    intro e found
    rw [entries_rename]
    exact find_rename unique found

theorem always_unique_iff (start : Unique s.entries) (ops : List Op) :
    Always Vfs.apply s (fun s => Unique s.entries) ops ↔
      Each Vfs.apply s (fun s op => op.Clear s) ops :=
  always_iff (I := fun _ => True) (P := fun s : Vfs => Unique s.entries) trivial (fun _ _ _ => trivial) start
    (fun _ _ _ unique => unique_apply_iff unique) ops

/-- **The paths stay distinct, and look-ups find what was named, exactly when no operation clashes.**
For every list of operations on any entries. -/
theorem unique_iff (s : Vfs) (ops : List Op) :
    (Always Vfs.apply s (fun s => Unique s.entries) ops ∧ Each Vfs.apply s (fun s op => op.Found s) ops) ↔
      Unique s.entries ∧ Each Vfs.apply s (fun s op => op.Clear s) ops := by
  constructor
  · rintro ⟨always, -⟩
    have start := always [] List.nil_prefix
    exact ⟨start, (always_unique_iff start ops).mp always⟩
  · rintro ⟨start, clear⟩
    have always := (always_unique_iff start ops).mpr clear
    refine ⟨always, fun front op fits => found_of_unique ?_⟩
    have unique := always (front ++ [op]) fits
    rwa [Trace.after_concat] at unique

/-- **A rename onto another file leaves two entries of one path**, on a new desktop. -/
theorem rename_clash : Unique (boot fun _ => none).entries ∧
    ¬Unique ((boot fun _ => none).apply (.rename "readme.txt" "motd.txt")).entries := by
  decide

end Runs

end RustyPenguin.Files
