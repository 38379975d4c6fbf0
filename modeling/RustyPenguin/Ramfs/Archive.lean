import RustyPenguin.Foundation.Checked

/-!
# The files of the boot archive

The archive is a row of records, each a header of hexadecimal fields, a name and the data,
padded to four bytes. `init` walks the records once and enters the files that are not empty
in a table of fixed size, as pointers into the archive; `find` looks a path up in the table.

The walk reads inside the archive only, and every file it enters lies inside it but
possibly the last one, whose size nothing is compared with. Nor does the walk stop at the
trailer: it compares eleven bytes of a name that has ten. `archive_iff` says which archives
are read as they are meant.
-/

set_option autoImplicit false

namespace RustyPenguin.Ramfs

open Checked

abbrev Bytes : Type := List UInt8

/-! ## The table -/

/-- A file of the table: its name, as far as it is kept, and where its data is. -/
structure Inode where
  name : Bytes
  data : Nat
  size : Nat
  deriving DecidableEq, Repr

def maxInodes : Nat := 64

/-- The table, with the bitmap of the files deleted from it. -/
structure Table where
  inodes : List Inode
  deletedMask : Nat

/-- The value of a hexadecimal digit, and zero for any other byte. -/
def hexDigitValue (b : UInt8) : Nat :=
  if 0x30 ≤ b ∧ b ≤ 0x39 then b.toNat - 0x30
  else if 0x61 ≤ b ∧ b ≤ 0x66 then b.toNat - 0x61 + 10
  else if 0x41 ≤ b ∧ b ≤ 0x46 then b.toNat - 0x41 + 10
  else 0

def parseHex8 (s : Bytes) : Nat := (s.take 8).foldl (fun v b => v * 16 + hexDigitValue b) 0

/-- `(n + 3) & !3`. -/
def align4 (n : Nat) : Nat := (n + 3) / 4 * 4

/-- `070701`. -/
def magic : Bytes := [0x30, 0x37, 0x30, 0x37, 0x30, 0x31]

/-- `TRAILER!!!`. -/
def trailerName : Bytes := [0x54, 0x52, 0x41, 0x49, 0x4C, 0x45, 0x52, 0x21, 0x21, 0x21]

theorem le_align4 (n : Nat) : n ≤ align4 n := by
  rw [align4]
  omega

/-- Enter a file, if there is room and it is not empty. -/
def enter (inodes : List Inode) (name : Bytes) (data size : Nat) : List Inode :=
  if inodes.length < maxInodes ∧ 0 < size then inodes ++ [⟨name.take 63, data, size⟩] else inodes

/-- The test for the name that ends the archive. -/
def isTrailer (nameBytes : Bytes) (nameLen : Nat) : Checked Bool :=
  if nameLen = 11 then do
    let front ← sub nameBytes 0 11
    pure (front = trailerName ++ [0])
  else pure false

/-- The walk over the records, from an offset on. -/
def scan (archive : Bytes) (off : Nat) (inodes : List Inode) : Checked (List Inode) :=
  if off + 110 ≤ archive.length then do
    let hdr ← sub archive off (off + 110)
    let tag ← sub hdr 0 6
    if tag ≠ magic then pure inodes
    else do
      let namesizeField ← sub hdr 94 102
      let filesizeField ← sub hdr 54 62
      let namesize := parseHex8 namesizeField
      let filesize := parseHex8 filesizeField
      if off + 110 + namesize > archive.length then pure inodes
      else do
        let nameBytes ← sub archive (off + 110) (off + 110 + namesize)
        let name := nameBytes.takeWhile fun b => b ≠ 0
        let data := align4 (off + 110 + namesize)
        let stop ← isTrailer nameBytes name.length
        if stop then pure inodes
        else scan archive (align4 (data + filesize)) (enter inodes name data filesize)
  else pure inodes
termination_by archive.length - off
decreasing_by
  have toData := le_align4 (off + 110 + parseHex8 namesizeField)
  have toNext := le_align4 (align4 (off + 110 + parseHex8 namesizeField) + parseHex8 filesizeField)
  omega

/-- The table of an archive. -/
def init (archive : Bytes) : Checked Table := do
  let inodes ← scan archive 0 []
  pure ⟨inodes, 0⟩

/-- A name without the `./` in front. -/
def stored (name : Bytes) : Bytes :=
  if [0x2E, 0x2F].isPrefixOf name then name.drop 2 else name

/-- The file of a path: where its data is, and its size. -/
def find (t : Table) (path : Bytes) : Option (Nat × Nat) :=
  (List.range t.inodes.length).findSome? fun i =>
    if t.deletedMask.testBit i then none
    else match t.inodes[i]? with
      | some ino => if stored ino.name = path then some (ino.data, ino.size) else none
      | none => none

/-! ## The records of an archive -/

/-- The bytes from an offset on. -/
def slice (archive : Bytes) (off len : Nat) : Bytes := (archive.drop off).take len

/-- The bytes of the name of a record. -/
def nameSize (archive : Bytes) (off : Nat) : Nat := parseHex8 (slice archive (off + 94) 8)

def fileSize (archive : Bytes) (off : Nat) : Nat := parseHex8 (slice archive (off + 54) 8)

/-- A record starts at an offset: a whole header and a whole name. -/
def IsRecord (archive : Bytes) (off : Nat) : Prop :=
  off + 110 ≤ archive.length ∧ slice archive off 6 = magic ∧
    off + 110 + nameSize archive off ≤ archive.length

instance (archive : Bytes) (off : Nat) : Decidable (IsRecord archive off) :=
  inferInstanceAs (Decidable (_ ∧ _ ∧ _))

/-- The record at an offset. -/
def recordAt (archive : Bytes) (off : Nat) : Inode where
  name := (slice archive (off + 110) (nameSize archive off)).takeWhile fun b => b ≠ 0
  data := align4 (off + 110 + nameSize archive off)
  size := fileSize archive off

/-- Where the record behind it starts. -/
def Inode.next (record : Inode) : Nat := align4 (record.data + record.size)

/-- An offset is less than the next one. -/
theorem lt_next (archive : Bytes) (off : Nat) : off + 110 ≤ (recordAt archive off).next := by
  have toData := le_align4 (off + 110 + nameSize archive off)
  have toNext := le_align4 ((recordAt archive off).data + (recordAt archive off).size)
  have data : (recordAt archive off).data = align4 (off + 110 + nameSize archive off) := rfl
  rw [Inode.next]
  omega

/-- The records one behind the other, up to where there is none. -/
def records (archive : Bytes) (off : Nat) : List Inode :=
  if IsRecord archive off then
    recordAt archive off :: records archive (recordAt archive off).next
  else []
termination_by archive.length + 1 - off
decreasing_by
  have progress := lt_next archive off
  have inside : off + 110 ≤ archive.length := by
    rename_i isRecord
    exact isRecord.1
  omega

theorem records_cons {archive : Bytes} {off : Nat} (isRecord : IsRecord archive off) :
    records archive off = recordAt archive off :: records archive (recordAt archive off).next := by
  rw [records, if_pos isRecord]

theorem records_nil {archive : Bytes} {off : Nat} (none : ¬IsRecord archive off) :
    records archive off = [] := by
  rw [records, if_neg none]

/-- Enter records, with the part of their names that is kept. -/
def enterAll (inodes : List Inode) (found : List Inode) : List Inode :=
  found.foldl (fun inodes record => enter inodes record.name record.data record.size) inodes

theorem sub_slice {archive : Bytes} {lo hi : Nat} (ordered : lo ≤ hi) (inside : hi ≤ archive.length) :
    sub archive lo hi = .ok (slice archive lo (hi - lo)) := by
  rw [sub, if_pos ⟨ordered, inside⟩]
  rfl

theorem length_slice {archive : Bytes} {off len : Nat} (inside : off + len ≤ archive.length) :
    (slice archive off len).length = len := by
  rw [slice, List.length_take, List.length_drop]
  omega

theorem slice_slice {archive : Bytes} {off len lo n : Nat} (inside : lo + n ≤ len) :
    slice (slice archive off len) lo n = slice archive (off + lo) n := by
  rw [slice, slice, slice, List.drop_take, List.drop_drop, List.take_take,
    Nat.min_eq_left (by omega)]

/-- A name of eleven bytes has no zero among them, so the test never holds. -/
theorem isTrailer_eq (name : Bytes) :
    isTrailer name (name.takeWhile fun b => b ≠ 0).length = .ok false := by
  rw [isTrailer]
  by_cases size : (name.takeWhile fun b => b ≠ 0).length = 11
  · have front : name.takeWhile (fun b => b ≠ 0) = name.take 11 := by
      rw [← size]
      exact List.prefix_iff_eq_take.mp (List.takeWhile_prefix _)
    have inside : 11 ≤ name.length := size ▸ (List.takeWhile_sublist _).length_le
    have notThere : name.take 11 ≠ trailerName ++ [0] := by
      intro same
      have nonzero := List.all_takeWhile (p := fun b => decide (b ≠ 0)) (l := name)
      rw [front, same] at nonzero
      exact absurd nonzero (by decide)
    rw [if_pos size, sub_slice (Nat.zero_le 11) inside]
    exact congrArg Except.ok (decide_eq_false notThere)
  · rw [if_neg size]
    rfl

/-- **The walk enters the records of the archive, and reads inside it only.** -/
theorem scan_eq (archive : Bytes) (off : Nat) (inodes : List Inode) :
    scan archive off inodes = .ok (enterAll inodes (records archive off)) := by
  rw [scan, records]
  by_cases header : off + 110 ≤ archive.length
  · have hdr : sub archive off (off + 110) = .ok (slice archive off 110) := by
      rw [sub_slice (Nat.le_add_right _ _) header, Nat.add_sub_cancel_left]
    have size : (slice archive off 110).length = 110 := length_slice header
    have field (lo hi : Nat) (ordered : lo ≤ hi) (inside : hi ≤ 110) :
        sub (slice archive off 110) lo hi = .ok (slice archive (off + lo) (hi - lo)) := by
      rw [sub_slice ordered (by rw [size]; exact inside), slice_slice (by omega)]
    rw [if_pos header, bind_of_ok hdr, bind_of_ok (field 0 6 (by decide) (by decide))]
    by_cases tag : slice archive off 6 = magic
    · rw [if_neg (by simpa using tag), bind_of_ok (field 94 102 (by decide) (by decide)),
        bind_of_ok (field 54 62 (by decide) (by decide))]
      have names : parseHex8 (slice archive (off + 94) (102 - 94)) = nameSize archive off := rfl
      have sizes : parseHex8 (slice archive (off + 54) (62 - 54)) = fileSize archive off := rfl
      simp only [names, sizes]
      by_cases whole : off + 110 + nameSize archive off ≤ archive.length
      · have isRecord : IsRecord archive off := ⟨header, tag, whole⟩
        have name : sub archive (off + 110) (off + 110 + nameSize archive off) =
            .ok (slice archive (off + 110) (nameSize archive off)) := by
          rw [sub_slice (Nat.le_add_right _ _) whole, Nat.add_sub_cancel_left]
        have progress := lt_next archive off
        have rest := scan_eq archive (recordAt archive off).next (enter inodes
          (recordAt archive off).name (recordAt archive off).data (recordAt archive off).size)
        rw [if_neg (show ¬off + 110 + nameSize archive off > archive.length by omega),
          bind_of_ok name, bind_of_ok (isTrailer_eq _), if_neg Bool.false_ne_true, if_pos isRecord]
        exact rest
      · rw [if_pos (show off + 110 + nameSize archive off > archive.length by omega),
          if_neg fun isRecord => whole isRecord.2.2]
        rfl
    · rw [if_pos (by simpa using tag), if_neg fun isRecord => tag isRecord.2.1]
      rfl
  · rw [if_neg header, if_neg fun isRecord => header isRecord.1]
    rfl
termination_by archive.length + 1 - off

/-! ## What is entered -/

/-- The files that are not empty. -/
def files (found : List Inode) : List Inode := found.filter fun record => 0 < record.size

/-- A record as it is entered. -/
def kept (record : Inode) : Inode := ⟨record.name.take 63, record.data, record.size⟩

theorem enterAll_eq (inodes found : List Inode) (room : inodes.length ≤ maxInodes) :
    enterAll inodes found =
      inodes ++ ((files found).take (maxInodes - inodes.length)).map kept := by
  induction found generalizing inodes with
  | nil => rw [enterAll, List.foldl_nil, files, List.filter_nil, List.take_nil, List.map_nil,
      List.append_nil]
  | cons record found ih =>
    rw [enterAll, List.foldl_cons, ← enterAll, files, List.filter_cons, enter]
    by_cases file : 0 < record.size
    · rw [if_pos (decide_eq_true file)]
      by_cases free : inodes.length < maxInodes
      · obtain ⟨more, size⟩ : ∃ n, maxInodes - inodes.length = n + 1 :=
          ⟨maxInodes - inodes.length - 1, by omega⟩
        have length : (inodes ++ [(⟨record.name.take 63, record.data, record.size⟩ : Inode)]).length =
            inodes.length + 1 := by rw [List.length_append, List.length_singleton]
        rw [if_pos ⟨free, file⟩, ih _ (by omega), length, size, List.take_succ_cons, List.map_cons,
          List.append_assoc]
        have less : maxInodes - (inodes.length + 1) = more := by omega
        rw [less]
        rfl
      · have none : maxInodes - inodes.length = 0 := by omega
        rw [if_neg fun both => free both.1, ih inodes room, none, List.take_zero, List.take_zero]
    · have notEntered : ¬(inodes.length < maxInodes ∧ 0 < record.size) := fun both => file both.2
      rw [if_neg notEntered, if_neg (by simpa using file), ih inodes room]
      rfl

theorem init_eq (archive : Bytes) : init archive =
    .ok ⟨((files (records archive 0)).take maxInodes).map kept, 0⟩ := by
  rw [init, bind_of_ok (scan_eq archive 0 []), enterAll_eq [] _ (Nat.zero_le _)]
  rfl

/-- Every record but the last ends inside the archive. -/
theorem inside_of_not_last {archive : Bytes} {off : Nat} {front back : List Inode} {record : Inode}
    (found : records archive off = front ++ record :: back) (notLast : back ≠ []) :
    record.data + record.size ≤ archive.length := by
  rw [records] at found
  split at found
  · next isRecord =>
    cases front with
    | nil =>
      obtain ⟨rfl, rest⟩ := List.cons.inj found
      have next := le_align4 ((recordAt archive off).data + (recordAt archive off).size)
      have more : IsRecord archive (recordAt archive off).next := by
        by_contra none
        rw [records, if_neg none] at rest
        exact notLast rest.symm
      have header := more.1
      rw [Inode.next] at header
      omega
    | cons first front =>
      have progress := lt_next archive off
      have header := isRecord.1
      exact inside_of_not_last (List.cons.inj found).2 notLast
  · exact absurd found.symm (by simp)
termination_by archive.length + 1 - off

/-- Every file of a table lies inside the archive. -/
def Inside (archive : Bytes) (t : Table) : Prop :=
  ∀ ino ∈ t.inodes, ino.data + ino.size ≤ archive.length

/-- The data of the last record lies inside the archive, if the record is entered at all. -/
def LastInside (archive : Bytes) : Prop :=
  ∀ last, (records archive 0).getLast? = some last → 0 < last.size →
    (files (records archive 0)).length ≤ maxInodes → last.data + last.size ≤ archive.length

theorem inside_iff {archive : Bytes} {t : Table} (built : init archive = .ok t) :
    Inside archive t ↔ LastInside archive := by
  rw [init_eq] at built
  obtain rfl := Except.ok.inj built
  constructor
  · intro inside last isLast file few
    have member : last ∈ files (records archive 0) :=
      List.mem_filter.mpr ⟨List.mem_of_getLast? isLast, decide_eq_true file⟩
    have entered : kept last ∈ ((files (records archive 0)).take maxInodes).map kept := by
      rw [List.take_of_length_le few]
      exact List.mem_map_of_mem member
    exact inside (kept last) entered
  · intro lastInside ino member
    obtain ⟨record, entered, rfl⟩ := List.mem_map.mp member
    show record.data + record.size ≤ archive.length
    have isFile := List.mem_filter.mp (List.mem_of_mem_take entered)
    obtain ⟨front, back, split⟩ := List.append_of_mem isFile.1
    by_cases last : back = []
    · by_cases few : (files (records archive 0)).length ≤ maxInodes
      · refine lastInside record ?_ (of_decide_eq_true isFile.2) few
        rw [split, last]
        exact List.getLast?_concat
      · -- it is not among the files entered unless it is there once more before
        have tail : files (records archive 0) = files front ++ [record] := by
          rw [split, last, files, List.filter_append]
          exact congrArg (files front ++ ·) (List.filter_cons_of_pos isFile.2)
        have early : record ∈ files front := by
          rw [tail, List.length_append, List.length_singleton] at few
          rw [tail, List.take_append_of_le_length (by omega)] at entered
          exact List.mem_of_mem_take entered
        obtain ⟨front', back', split'⟩ := List.append_of_mem (List.mem_filter.mp early).1
        rw [split', List.append_assoc, List.cons_append] at split
        exact inside_of_not_last split (by simp)
    · exact inside_of_not_last split last

end RustyPenguin.Ramfs
