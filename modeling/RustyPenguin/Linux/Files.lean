import RustyPenguin.Foundation.Trace
import RustyPenguin.Linux.Contents

/-!
# Open files against a reference model

The reference model of an open file is its bytes and an offset that is inside the file or at its
end. Reading hands out the bytes at the offset and moves it past them, reading at a position leaves
it, and seeking puts it at the position that is asked for, or at the end where that is negative or
past the end.

The kernel's table follows the reference model in every run of opening, reading, seeking and closing
(`files_follow`). Seeking has no error for an open file, so a seek to before the start moves the
offset too (`seek_before_start`).
-/

set_option autoImplicit false

namespace RustyPenguin.Linux

open Function

/-! ## The calls -/

/-- Read at a position, wherever the offset is. -/
def pread (fd buf count pos : UInt64) (g : Globals) (sp : Space) : Option Reply :=
  match g.fdSlot fd with
  | some i =>
    let file := g.fds i
    let n := min count (file.rest pos)
    if 0 < n then do
      let sp ← sp.write buf (file.bytes pos n)
      some (n, g, sp)
    else some (n, g, sp)
  | none => some (ebadf, g, sp)

/-- A call about files. -/
inductive FileCall where
  | openPath (path : List UInt8)
  | read (fd buf count : UInt64)
  | pread (fd buf count pos : UInt64)
  | lseek (fd off whence : UInt64)
  | close (fd : UInt64)

def FileCall.run (inodes : List Inode) (g : Globals) (sp : Space) : FileCall → Option Reply
  | .openPath path => some (Linux.openPath inodes path g sp)
  | .read fd buf count => Linux.read fd buf count g sp
  | .pread fd buf count pos => Linux.pread fd buf count pos g sp
  | .lseek fd off whence => some (Linux.lseek fd off whence g sp)
  | .close fd => some (Linux.close fd g sp)

/-! ## The reference model -/

/-- An open file: its bytes, and an offset that does not leave them. -/
structure Opened where
  data : List UInt8
  off : Nat
  inside : off ≤ data.length

namespace Opened

/-- A file that was just opened. -/
def start (data : List UInt8) : Opened := ⟨data, 0, Nat.zero_le _⟩

/-- The bytes at a position, as many as there are. -/
def slice (file : Opened) (pos count : Nat) : List UInt8 := (file.data.drop pos).take count

/-- Past the bytes that are read at the offset. -/
def advance (file : Opened) (count : Nat) : Opened where
  data := file.data
  off := file.off + min count (file.data.length - file.off)
  inside := by
    have inside := file.inside
    omega

/-- Where a seek should go: from the start, from the offset or from the end. -/
def target (file : Opened) (off : Int) (whence : UInt64) : Int :=
  if whence = 0 then off
  else if whence = 1 then file.off + off
  else if whence = 2 then file.data.length + off
  else file.off

/-- At a position of the file, or at the end for any other position. -/
def seek (file : Opened) (position : Int) : Opened where
  data := file.data
  off := if 0 ≤ position then min position.toNat file.data.length else file.data.length
  inside := by
    split
    · exact Nat.min_le_right _ _
    · exact Nat.le_refl _

end Opened

/-- The open files. -/
abbrev Table := Fin maxOpen → Option Opened

/-- What a call answers, the bytes it hands out and where, and the open files after it. -/
structure Answer where
  ret : UInt64
  buf : UInt64
  bytes : List UInt8
  table : Table

namespace Table

/-- The open file of a descriptor. -/
def file (t : Table) (fd : UInt64) : Option (Fin maxOpen × Opened) :=
  (Globals.entry fd).bind fun i => (t i).map fun file => (i, file)

/-- What a call does; nothing is said of devices and of the keyboard. -/
def call (inodes : List Inode) (t : Table) : FileCall → Option Answer
  | .openPath path =>
    if isDevice (relative path) then none
    else
      match find inodes (relative path) with
      | none => some ⟨enoent, 0, [], t⟩
      | some data =>
        match Fin.find? fun i => (t i).isNone with
        | none => some ⟨emfile, 0, [], t⟩
        | some i => some ⟨UInt64.ofNat (fdBase + i), 0, [], update t i (some (.start data))⟩
  | .read fd buf count =>
    match t.file fd with
    | some (i, file) =>
      let bytes := file.slice file.off count.toNat
      some ⟨UInt64.ofNat bytes.length, buf, bytes, update t i (some (file.advance count.toNat))⟩
    | none => if fd = 0 then none else some ⟨0, buf, [], t⟩
  | .pread fd buf count pos =>
    match t.file fd with
    | some (_, file) =>
      let bytes := file.slice pos.toNat count.toNat
      some ⟨UInt64.ofNat bytes.length, buf, bytes, t⟩
    | none => some ⟨ebadf, buf, [], t⟩
  | .lseek fd off whence =>
    if fd = devFbFd then none
    else
      match t.file fd with
      | some (i, file) =>
        let file := file.seek (file.target off.toInt64.toInt whence)
        some ⟨UInt64.ofNat file.off, 0, [], update t i (some file)⟩
      | none => some ⟨ebadf, 0, [], t⟩
  | .close fd =>
    match t.file fd with
    | some (i, _) => some ⟨0, 0, [], update t i none⟩
    | none => some ⟨0, 0, [], t⟩

end Table

/-- Bytes are handed out, if there are any. -/
def Space.deliver (buf : UInt64) (bytes : List UInt8) (sp : Space) : Option Space :=
  if bytes = [] then some sp else sp.write buf bytes

/-! ## What it is to follow the model -/

/-- An entry of the kernel's table stands for an open file, or for none. -/
def Stands (entry : OpenFile) : Option Opened → Prop
  | none => entry.used = false
  | some file => entry.used = true ∧ entry.data = file.data ∧ entry.off.toNat = file.off ∧
      file.data.length < 2 ^ 63

def Refines (g : Globals) (t : Table) : Prop := ∀ i, Stands (g.fds i) (t i)

/-- A reply answers and hands out what the model says, where the caller's buffer is mapped, and both
stand for the same open files after it. A call that the model does not speak of leaves these. -/
def Matches (sp : Space) (t : Table) (answer : Option Answer) (reply : Option Reply) : Prop :=
  match answer with
  | some answer => ∃ g, Refines g answer.table ∧
      reply = (sp.deliver answer.buf answer.bytes).map fun sp => (answer.ret, g, sp)
  | none => ∀ ret g sp', reply = some (ret, g, sp') → Refines g t

/-- The kernel's state and the reference model's. -/
structure Session where
  globals : Globals
  space : Space
  table : Table

namespace Session

/-- Both take a call, unless it faults. -/
def step (inodes : List Inode) (s : Session) (c : FileCall) : Session :=
  match c.run inodes s.globals s.space with
  | none => s
  | some (_, g, sp) => ⟨g, sp, ((s.table.call inodes c).map Answer.table).getD s.table⟩

/-- A call follows the model. -/
def Follows (inodes : List Inode) (s : Session) (c : FileCall) : Prop :=
  Matches s.space s.table (s.table.call inodes c) (c.run inodes s.globals s.space)

end Session

/-- The files are no longer than a slice of memory can be. -/
def Fits (inodes : List Inode) : Prop := ∀ ino ∈ inodes, ino.data.length < 2 ^ 63

instance (inodes : List Inode) : Decidable (Fits inodes) :=
  inferInstanceAs (Decidable (∀ ino ∈ inodes, ino.data.length < 2 ^ 63))

/-! ## Numbers and bytes -/

section Numbers

variable {entry : OpenFile} {file : Opened}

theorem Stands.short (stands : Stands entry (some file)) : entry.data.length < 2 ^ 63 := by
  rw [stands.2.1]
  exact stands.2.2.2

theorem length_slice (file : Opened) (pos count : Nat) :
    (file.slice pos count).length = min count (file.data.length - pos) := by
  rw [Opened.slice, List.length_take, List.length_drop]

/-- How many bytes are read. -/
theorem toNat_count (stands : Stands entry (some file)) (pos count : UInt64) :
    (min count (entry.rest pos)).toNat = (file.slice pos.toNat count.toNat).length := by
  rw [toNat_min, toNat_rest stands.short, length_slice, stands.2.1]

theorem bytes_eq (stands : Stands entry (some file)) (pos count : UInt64) :
    entry.bytes pos (min count (entry.rest pos)) = file.slice pos.toNat count.toNat := by
  rw [OpenFile.bytes, toNat_count stands, length_slice, Opened.slice, stands.2.1,
    ← List.length_drop, ← List.take_eq_take_min]

theorem count_eq (stands : Stands entry (some file)) (pos count : UInt64) :
    min count (entry.rest pos) = UInt64.ofNat (file.slice pos.toNat count.toNat).length := by
  rw [← toNat_count stands, UInt64.ofNat_toNat]

/-- Reading hands out the bytes at the position, and moves the offset if there are any. -/
theorem deliver_eq (stands : Stands entry (some file)) (buf pos count : UInt64)
    (moved stayed : Globals) (sp : Space) :
    (if 0 < min count (entry.rest pos) then do
        let sp ← sp.write buf (entry.bytes pos (min count (entry.rest pos)))
        some (min count (entry.rest pos), moved, sp)
      else some (min count (entry.rest pos), stayed, sp)) =
      (sp.deliver buf (file.slice pos.toNat count.toNat)).map fun sp =>
        (UInt64.ofNat (file.slice pos.toNat count.toNat).length,
          if file.slice pos.toNat count.toNat = [] then stayed else moved, sp) := by
  have some_iff : 0 < min count (entry.rest pos) ↔ file.slice pos.toNat count.toNat ≠ [] := by
    rw [UInt64.lt_iff_toNat_lt, toNat_count stands, UInt64.toNat_zero, List.length_pos_iff]
  rw [bytes_eq stands, Space.deliver]
  by_cases none : file.slice pos.toNat count.toNat = []
  · rw [if_neg fun any => some_iff.mp any none, if_pos none, count_eq stands, if_pos none]
    rfl
  · rw [if_pos (some_iff.mpr none), if_neg none, count_eq stands, if_neg none, Option.map_eq_bind]
    rfl

/-- A register read as a signed number. -/
theorem signed_spec (x : UInt64) :
    x.toInt64.toInt = if 2 * x.toNat < 2 ^ 64 then (x.toNat : Int) else x.toNat - (2 ^ 64 : Nat) :=
  rfl

/-- **Seeking** wraps around, and what is out of the file goes to its end. -/
theorem toNat_clamp (start off : UInt64) {size : UInt64} (small : start.toNat < 2 ^ 63)
    (short : size.toNat < 2 ^ 63) :
    (min (start + off) size).toNat =
      if 0 ≤ (start.toNat : Int) + off.toInt64.toInt then
        min ((start.toNat : Int) + off.toInt64.toInt).toNat size.toNat
      else size.toNat := by
  have wide := off.toNat_lt
  rw [toNat_min, UInt64.toNat_add, signed_spec]
  split <;> split <;> omega

theorem off_seek (file : Opened) (position : Int) : (file.seek position).off =
    if 0 ≤ position then min position.toNat file.data.length else file.data.length := rfl

/-- The new offset of a seek. -/
def sought (entry : OpenFile) (off whence : UInt64) : UInt64 :=
  min (if whence = 0 then off else if whence = 1 then entry.off + off
    else if whence = 2 then entry.size + off else entry.off) entry.size

theorem toNat_sought (stands : Stands entry (some file)) (off whence : UInt64) :
    (sought entry off whence).toNat =
      (file.seek (file.target off.toInt64.toInt whence)).off := by
  obtain ⟨used, data, offset, short⟩ := id stands
  have size := toNat_size stands.short
  rw [data] at size
  have inside := file.inside
  rw [sought, off_seek, Opened.target, ← size, ← offset]
  rw [← size] at short inside
  by_cases set : whence = 0
  · have clamp := toNat_clamp 0 off (by decide) short
    rw [UInt64.zero_add, UInt64.toNat_zero, Nat.cast_zero, Int.zero_add] at clamp
    rw [if_pos set, if_pos set, clamp]
  · rw [if_neg set, if_neg set]
    by_cases cur : whence = 1
    · rw [if_pos cur, if_pos cur, toNat_clamp _ _ (by omega) short]
    · rw [if_neg cur, if_neg cur]
      by_cases fromEnd : whence = 2
      · rw [if_pos fromEnd, if_pos fromEnd, toNat_clamp _ _ short short]
      · rw [if_neg fromEnd, if_neg fromEnd, toNat_min, if_pos (Int.natCast_nonneg _),
          Int.toNat_natCast]

end Numbers

/-! ## One call -/

section Calls

variable {inodes : List Inode} {g : Globals} {t : Table} {sp : Space}

/-- A descriptor stands for the same open file in both. -/
theorem fdSlot_of_refines (refines : Refines g t) (fd : UInt64) :
    (t.file fd = none ∧ g.fdSlot fd = none) ∨
      ∃ i file, t i = some file ∧ t.file fd = some (i, file) ∧ g.fdSlot fd = some i := by
  rw [Table.file, Globals.fdSlot]
  cases Globals.entry fd with
  | none => exact .inl ⟨rfl, rfl⟩
  | some i =>
    have stands := refines i
    cases there : t i with
    | none =>
      rw [there] at stands
      refine .inl ⟨?_, ?_⟩
      · rw [Option.bind_some, there, Option.map_none]
      · have closed : (g.fds i).used = false := stands
        exact if_neg (by rw [closed]; exact Bool.false_ne_true)
    | some file =>
      rw [there] at stands
      refine .inr ⟨i, file, there, ?_, ?_⟩
      · rw [Option.bind_some, there, Option.map_some]
      · exact if_pos stands.1

theorem refines_setFd (refines : Refines g t) {i : Fin maxOpen} {entry : OpenFile}
    {file : Option Opened} (stands : Stands entry file) :
    Refines (g.setFd i entry) (update t i file) := by
  intro j
  change Stands (update g.fds i entry j) (update t i file j)
  by_cases same : j = i
  · rw [same, update_self, update_self]
    exact stands
  · rw [update_of_ne same, update_of_ne same]
    exact refines j

theorem refines_update (refines : Refines g t) {i : Fin maxOpen} {file : Option Opened}
    (stands : Stands (g.fds i) file) : Refines g (update t i file) := by
  intro j
  by_cases same : j = i
  · rw [same, update_self]
    exact stands
  · rw [update_of_ne same]
    exact refines j

/-- The first entry that is free is the same in both. -/
theorem find_free (refines : Refines g t) :
    (Fin.find? fun i => decide ¬ (g.fds i).used = true) = Fin.find? fun i => (t i).isNone := by
  have same : (fun i => decide ¬ (g.fds i).used = true) = fun i => (t i).isNone := by
    funext i
    have stands := refines i
    cases there : t i with
    | none =>
      rw [there] at stands
      rw [show (g.fds i).used = false from stands]
      rfl
    | some file =>
      rw [there] at stands
      rw [stands.1]
      rfl
  rw [same]

/-! ### The cases of a call -/

theorem Table.call_openPath (inodes : List Inode) (t : Table) (path : List UInt8) :
    t.call inodes (.openPath path) =
      if isDevice (relative path) then none
      else
        match find inodes (relative path) with
        | none => some ⟨enoent, 0, [], t⟩
        | some data =>
          match Fin.find? fun i => (t i).isNone with
          | none => some ⟨emfile, 0, [], t⟩
          | some i => some ⟨UInt64.ofNat (fdBase + i), 0, [], update t i (some (.start data))⟩ :=
  rfl

theorem Table.call_read (inodes : List Inode) (t : Table) (fd buf count : UInt64) :
    t.call inodes (.read fd buf count) =
      match t.file fd with
      | some (i, file) =>
        some ⟨UInt64.ofNat (file.slice file.off count.toNat).length, buf,
          file.slice file.off count.toNat, update t i (some (file.advance count.toNat))⟩
      | none => if fd = 0 then none else some ⟨0, buf, [], t⟩ := rfl

theorem Table.call_pread (inodes : List Inode) (t : Table) (fd buf count pos : UInt64) :
    t.call inodes (.pread fd buf count pos) =
      match t.file fd with
      | some (_, file) =>
        some ⟨UInt64.ofNat (file.slice pos.toNat count.toNat).length, buf,
          file.slice pos.toNat count.toNat, t⟩
      | none => some ⟨ebadf, buf, [], t⟩ := rfl

theorem Table.call_lseek (inodes : List Inode) (t : Table) (fd off whence : UInt64) :
    t.call inodes (.lseek fd off whence) =
      if fd = devFbFd then none
      else
        match t.file fd with
        | some (i, file) =>
          some ⟨UInt64.ofNat (file.seek (file.target off.toInt64.toInt whence)).off, 0, [],
            update t i (some (file.seek (file.target off.toInt64.toInt whence)))⟩
        | none => some ⟨ebadf, 0, [], t⟩ := rfl

theorem Table.call_close (inodes : List Inode) (t : Table) (fd : UInt64) :
    t.call inodes (.close fd) =
      match t.file fd with
      | some (i, _) => some ⟨0, 0, [], update t i none⟩
      | none => some ⟨0, 0, [], t⟩ := rfl

theorem matches_openPath (fits : Fits inodes) (refines : Refines g t) (path : List UInt8) :
    Matches sp t (t.call inodes (.openPath path)) (some (openPath inodes path g sp)) := by
  rw [Table.call_openPath, openPath, find_free refines]
  by_cases device : isDevice (relative path) = true
  · rw [if_pos device, if_pos device]
    intro ret g' sp' ran
    cases ran
    exact refines
  · rw [if_neg device, if_neg device]
    cases found : find inodes (relative path) with
    | none => exact ⟨g, refines, rfl⟩
    | some data =>
      cases free : Fin.find? fun i => (t i).isNone with
      | none => exact ⟨g, refines, rfl⟩
      | some i =>
        obtain ⟨ino, here, rfl⟩ := Option.map_eq_some_iff.mp found
        have short := fits ino (List.mem_of_find?_eq_some here)
        exact ⟨_, refines_setFd refines ⟨rfl, rfl, rfl, short⟩, rfl⟩

/-- Reading from the keyboard changes no file. -/
theorem fds_of_stdin {buf len ret : UInt64} {g' : Globals} {sp' : Space} (closed : g.fdSlot 0 = none)
    (ran : read 0 buf len g sp = some (ret, g', sp')) : g'.fds = g.fds := by
  rw [read, closed] at ran
  dsimp only at ran
  rw [if_pos rfl] at ran
  split at ran
  · cases ran
    rfl
  · obtain ⟨sp₁, -, ran⟩ := Option.bind_eq_some_iff.mp ran
    cases ran
    rfl

theorem matches_read (refines : Refines g t) (fd buf count : UInt64) :
    Matches sp t (t.call inodes (.read fd buf count)) (read fd buf count g sp) := by
  rw [Table.call_read]
  obtain ⟨absent, closed⟩ | ⟨i, file, there, here, slot⟩ := fdSlot_of_refines refines fd
  · rw [absent]
    dsimp only
    by_cases stdin : fd = 0
    · rw [if_pos stdin]
      intro ret g' sp' ran i
      rw [stdin] at ran closed
      rw [fds_of_stdin closed ran]
      exact refines i
    · rw [if_neg stdin, read, closed]
      dsimp only
      rw [if_neg stdin]
      exact ⟨g, refines, rfl⟩
  · have stands := refines i
    rw [there] at stands
    rw [here, read, slot]
    dsimp only
    rw [deliver_eq stands]
    have offset := stands.2.2.1
    rw [offset]
    refine ⟨_, ?_, rfl⟩
    have none_iff := List.length_eq_zero_iff (l := file.slice file.off count.toNat)
    rw [length_slice] at none_iff
    split
    · next none =>
      have stays : file.off + min count.toNat (file.data.length - file.off) = file.off := by
        rw [none_iff.mpr none, Nat.add_zero]
      exact refines_update refines
        ⟨stands.1, stands.2.1, offset.trans stays.symm, stands.2.2.2⟩
    · have inside := file.inside
      have short := stands.2.2.2
      have count' := toNat_count stands (g.fds i).off count
      rw [offset, length_slice] at count'
      refine refines_setFd refines ⟨stands.1, stands.2.1, ?_, short⟩
      rw [UInt64.toNat_add, count', offset, Nat.mod_eq_of_lt (by omega)]
      rfl

theorem matches_pread (refines : Refines g t) (fd buf count pos : UInt64) :
    Matches sp t (t.call inodes (.pread fd buf count pos)) (pread fd buf count pos g sp) := by
  rw [Table.call_pread, pread]
  obtain ⟨absent, closed⟩ | ⟨i, file, there, here, slot⟩ := fdSlot_of_refines refines fd
  · rw [absent, closed]
    exact ⟨g, refines, rfl⟩
  · have stands := refines i
    rw [there] at stands
    rw [here, slot]
    dsimp only
    rw [deliver_eq stands, ite_self]
    exact ⟨g, refines, rfl⟩

theorem lseek_of_slot {fd : UInt64} {i : Fin maxOpen} (device : fd ≠ devFbFd)
    (slot : g.fdSlot fd = some i) (off whence : UInt64) :
    lseek fd off whence g sp = (sought (g.fds i) off whence,
      g.setFd i { g.fds i with off := sought (g.fds i) off whence }, sp) := by
  rw [lseek, if_neg device, slot]
  rfl

theorem matches_lseek (refines : Refines g t) (fd off whence : UInt64) :
    Matches sp t (t.call inodes (.lseek fd off whence)) (some (lseek fd off whence g sp)) := by
  rw [Table.call_lseek]
  by_cases device : fd = devFbFd
  · rw [if_pos device, lseek, if_pos device]
    intro ret g' sp' ran i
    cases ran
    exact refines i
  · rw [if_neg device]
    obtain ⟨absent, closed⟩ | ⟨i, file, there, here, slot⟩ := fdSlot_of_refines refines fd
    · rw [absent, lseek, if_neg device, closed]
      exact ⟨g, refines, rfl⟩
    · have stands := refines i
      rw [there] at stands
      have place := toNat_sought stands off whence
      have moved : Stands { g.fds i with off := sought (g.fds i) off whence }
          (some (file.seek (file.target off.toInt64.toInt whence))) :=
        ⟨stands.1, stands.2.1, place, stands.2.2.2⟩
      rw [here, lseek_of_slot device slot]
      dsimp only
      rw [← place, UInt64.ofNat_toNat]
      exact ⟨_, refines_setFd refines moved, rfl⟩

theorem matches_close (refines : Refines g t) (fd : UInt64) :
    Matches sp t (t.call inodes (.close fd)) (some (close fd g sp)) := by
  rw [Table.call_close, close]
  obtain ⟨absent, closed⟩ | ⟨i, file, there, here, slot⟩ := fdSlot_of_refines refines fd
  · rw [absent, closed]
    exact ⟨g, refines, rfl⟩
  · have shut : Stands { g.fds i with used := false } none := rfl
    rw [here, slot]
    exact ⟨_, refines_setFd refines shut, rfl⟩

/-- **Every call follows the model.** -/
theorem matches_run (fits : Fits inodes) (refines : Refines g t) (c : FileCall) :
    Matches sp t (t.call inodes c) (c.run inodes g sp) := by
  cases c with
  | openPath path => exact matches_openPath fits refines path
  | read fd buf count => exact matches_read refines fd buf count
  | pread fd buf count pos => exact matches_pread refines fd buf count pos
  | lseek fd off whence => exact matches_lseek refines fd off whence
  | close fd => exact matches_close refines fd

/-- After a call both stand for the same open files. -/
theorem refines_step {s : Session} (fits : Fits inodes) (refines : Refines s.globals s.table)
    (c : FileCall) : Refines (s.step inodes c).globals (s.step inodes c).table := by
  have follows : Matches s.space s.table _ _ := matches_run fits refines c
  rw [Session.step]
  cases ran : c.run inodes s.globals s.space with
  | none => exact refines
  | some reply =>
    obtain ⟨ret, g, sp⟩ := reply
    rw [ran] at follows
    cases model : s.table.call inodes c with
    | none =>
      rw [model] at follows
      exact follows ret g sp rfl
    | some answer =>
      rw [model] at follows
      obtain ⟨g', refines', same⟩ := follows
      obtain ⟨sp', -, reply⟩ := Option.map_eq_some_iff.mp same.symm
      cases reply
      exact refines'

end Calls

/-! ## Runs -/

/-- **Open files follow the reference model**: in every run of calls from a table with no open file,
each call answers and hands out what the model says. -/
theorem files_follow (inodes : List Inode) (fits : Fits inodes) (g : Globals)
    (closed : ∀ i, (g.fds i).used = false) (sp : Space) (calls : List FileCall) :
    Trace.Each (Session.step inodes) ⟨g, sp, fun _ => none⟩ (Session.Follows inodes) calls := by
  intro front c _
  have start : Refines g fun _ => none := closed
  have refines := Trace.invariant (I := fun s : Session => Refines s.globals s.table)
    (s := ⟨g, sp, fun _ => none⟩) start (fun s c refines => refines_step fits refines c) front
  exact matches_run fits refines c

/-- A file of three bytes is opened, read, seeked in and closed. -/
theorem files_follow_sample : Trace.Each (Session.step sampleInodes)
    ⟨Globals.start 0, ⟨fun _ => true, []⟩, fun _ => none⟩ (Session.Follows sampleInodes)
    [.openPath [0x2f, 0x61], .read 3 0x1000 2, .pread 3 0x1000 9 1, .lseek 3 9 1, .read 3 0x1000 1,
      .close 3, .read 3 0x1000 1] :=
  files_follow sampleInodes (by decide) (Globals.start 0) (fun _ => rfl) ⟨fun _ => true, []⟩ _

/-- A seek of an open file to before its start is refused, and leaves the offset. -/
def RefusesNegative (s : Session) : FileCall → Prop
  | .lseek fd off whence =>
    match s.table.file fd with
    | none => True
    | some (i, file) => file.target off.toInt64.toInt whence < 0 →
        (lseek fd off whence s.globals s.space).1.toInt64.toInt < 0 ∧
          ((lseek fd off whence s.globals s.space).2.1.fds i).off = (s.globals.fds i).off
  | _ => True

/-- **A seek to before the start** is answered with the size of the file. -/
theorem seek_before_start : ¬ ∀ inodes, Fits inodes → ∀ (g : Globals) (sp : Space),
    (∀ i, (g.fds i).used = false) → ∀ calls : List FileCall,
      Trace.Each (Session.step inodes) ⟨g, sp, fun _ => none⟩ RefusesNegative calls := by
  intro refuses
  have refused := refuses sampleInodes (by decide) (Globals.start 0) ⟨fun _ => true, []⟩
    (fun _ => rfl) [.openPath [0x61], .lseek 3 (-1) 0] [.openPath [0x61]] (.lseek 3 (-1) 0)
    List.prefix_rfl
  have negative := (refused (by decide)).1
  revert negative
  decide

end RustyPenguin.Linux
