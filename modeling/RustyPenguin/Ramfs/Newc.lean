import Mathlib.Data.List.Forall2
import RustyPenguin.Ramfs.Archive

/-!
# Well-formed archives

A member of an archive is written as a header with the sizes of its name and its data, the
name with a zero behind it, and the data, each padded to four bytes. An archive is its
members, a trailer, and whatever else is in the file.

The table built from an archive serves the members, but for two things: members whose paths
agree once `./` is dropped are all answered with the first of them, and the records behind
the trailer are entered as well (`archive_iff`).
-/

set_option autoImplicit false

namespace RustyPenguin.Ramfs

open Checked

/-! ## Writing an archive -/

/-- A hexadecimal digit, with small or with capital letters. -/
def hexDigit (small : Bool) (n : Nat) : UInt8 :=
  if n < 10 then UInt8.ofNat (0x30 + n)
  else UInt8.ofNat ((if small then 0x61 else 0x41) + (n - 10))

/-- A number as eight hexadecimal digits. -/
def hex8 (small : Bool) (n : Nat) : Bytes :=
  [7, 6, 5, 4, 3, 2, 1, 0].map fun k => hexDigit small (n / 16 ^ k % 16)

/-- The bytes that pad `n` bytes to a multiple of four. -/
def pad (n : Nat) : Bytes := List.replicate (align4 n - n) 0

/-- A member of an archive, with the fields of its header that nothing reads. -/
structure Member where
  name : Bytes
  data : Bytes
  before : Bytes
  between : Bytes
  check : Bytes
  noZero : ∀ b ∈ name, b ≠ 0
  nameFits : name.length + 1 < 2 ^ 32
  dataFits : data.length < 2 ^ 32
  beforeSize : before.length = 48
  betweenSize : between.length = 32
  checkSize : check.length = 8

namespace Member

def header (small : Bool) (m : Member) : Bytes :=
  magic ++ m.before ++ hex8 small m.data.length ++ m.between ++ hex8 small (m.name.length + 1) ++
    m.check

def encode (small : Bool) (m : Member) : Bytes :=
  m.header small ++ (m.name ++ [0]) ++ pad (110 + (m.name.length + 1)) ++ m.data ++
    pad m.data.length

end Member

theorem hexDigit_table : ∀ small, ∀ n, n < 16 → hexDigitValue (hexDigit small n) = n := by
  decide

theorem parseHex8_hex8 (small : Bool) {n : Nat} (fits : n < 2 ^ 32) :
    parseHex8 (hex8 small n) = n := by
  have digit (k : Nat) : hexDigitValue (hexDigit small (n / 16 ^ k % 16)) = n / 16 ^ k % 16 :=
    hexDigit_table small _ (Nat.mod_lt _ (by decide))
  have whole : (hex8 small n).take 8 = hex8 small n := List.take_of_length_le (Nat.le_refl 8)
  rw [parseHex8, whole, hex8]
  simp only [List.map_cons, List.map_nil, List.foldl_cons, List.foldl_nil, digit]
  omega

theorem length_hex8 (small : Bool) (n : Nat) : (hex8 small n).length = 8 := rfl

theorem length_pad (n : Nat) : n + (pad n).length = align4 n := by
  rw [pad, List.length_replicate]
  have more := le_align4 n
  omega

theorem length_header (small : Bool) (m : Member) : (m.header small).length = 110 := by
  simp only [Member.header, List.length_append, length_hex8, m.beforeSize, m.betweenSize,
    m.checkSize]
  rfl

theorem length_encode (small : Bool) (m : Member) : (m.encode small).length =
    align4 (110 + (m.name.length + 1)) + align4 m.data.length := by
  have namePad := length_pad (110 + (m.name.length + 1))
  have dataPad := length_pad m.data.length
  simp only [Member.encode, List.length_append, length_header, List.length_singleton]
  omega

/-- Offsets of records are multiples of four, and alignment does not depend on them. -/
theorem align4_add {a : Nat} (aligned : 4 ∣ a) (n : Nat) : align4 (a + n) = a + align4 n := by
  obtain ⟨k, rfl⟩ := aligned
  rw [align4, align4]
  omega

theorem dvd_align4 (n : Nat) : 4 ∣ align4 n := ⟨(n + 3) / 4, Nat.mul_comm _ _⟩

theorem dvd_length_encode (small : Bool) (m : Member) : 4 ∣ (m.encode small).length := by
  rw [length_encode]
  exact Nat.dvd_add (dvd_align4 _) (dvd_align4 _)

/-- A part of a list, by what is in front of it. -/
theorem slice_part (front : Bytes) {archive part back : Bytes} {off n : Nat}
    (split : archive = front ++ (part ++ back)) (start : front.length = off)
    (size : part.length = n) : slice archive off n = part := by
  subst split start size
  rw [slice, List.drop_left, List.take_left]

/-- A record of the table is the member it was written for. -/
structure Describes (archive : Bytes) (m : Member) (record : Inode) : Prop where
  name : record.name = m.name
  size : record.size = m.data.length
  data : slice archive record.data record.size = m.data

/-- **The record at the offset of a member is that member.** -/
theorem recordAt_encode (small : Bool) (m : Member) {front : Bytes} (back : Bytes)
    (aligned : 4 ∣ front.length) :
    IsRecord (front ++ (m.encode small ++ back)) front.length ∧
      Describes (front ++ (m.encode small ++ back)) m
        (recordAt (front ++ (m.encode small ++ back)) front.length) ∧
      (recordAt (front ++ (m.encode small ++ back)) front.length).next =
        front.length + (m.encode small).length := by
  generalize whole : front ++ (m.encode small ++ back) = archive
  have total : archive.length = front.length + ((m.encode small).length + back.length) := by
    rw [← whole, List.length_append, List.length_append]
  have size := length_encode small m
  have namePad := length_pad (110 + (m.name.length + 1))
  have tag : slice archive front.length 6 = magic :=
    slice_part front (by
      rw [← whole, Member.encode, Member.header]
      simp only [List.append_assoc]
      rfl) rfl rfl
  have nameIs : nameSize archive front.length = m.name.length + 1 := by
    have field : slice archive (front.length + 94) 8 = hex8 small (m.name.length + 1) :=
      slice_part (front ++ magic ++ m.before ++ hex8 small m.data.length ++ m.between)
        (by
          rw [← whole, Member.encode, Member.header]
          simp only [List.append_assoc]
          rfl) (by
          simp only [List.length_append, length_hex8, m.beforeSize, m.betweenSize]
          rfl) rfl
    rw [nameSize, field, parseHex8_hex8 small m.nameFits]
  have sizeIs : fileSize archive front.length = m.data.length := by
    have field : slice archive (front.length + 54) 8 = hex8 small m.data.length :=
      slice_part (front ++ magic ++ m.before) (by
          rw [← whole, Member.encode, Member.header]
          simp only [List.append_assoc]
          rfl) (by
          simp only [List.length_append, m.beforeSize]
          rfl) rfl
    rw [fileSize, field, parseHex8_hex8 small m.dataFits]
  have nameBytes : slice archive (front.length + 110) (m.name.length + 1) = m.name ++ [0] :=
    slice_part (front ++ m.header small) (by
      rw [← whole, Member.encode]
      simp only [List.append_assoc]
      rfl) (by rw [List.length_append, length_header])
      (by rw [List.length_append]; rfl)
  have dataAt : align4 (front.length + 110 + (m.name.length + 1)) =
      front.length + align4 (110 + (m.name.length + 1)) := by
    rw [Nat.add_assoc, align4_add aligned]
  have dataBytes : slice archive (front.length + align4 (110 + (m.name.length + 1)))
      m.data.length = m.data :=
    slice_part (front ++ (m.header small ++ (m.name ++ [0]) ++
      pad (110 + (m.name.length + 1)))) (by
      rw [← whole, Member.encode]
      simp only [List.append_assoc]
      rfl) (by
      simp only [List.length_append, length_header, List.length_singleton]
      omega) rfl
  have record : recordAt archive front.length =
      ⟨m.name, front.length + align4 (110 + (m.name.length + 1)), m.data.length⟩ := by
    have cut : (m.name ++ [0]).takeWhile (fun b => b ≠ 0) = m.name := by
      rw [List.takeWhile_append_of_pos fun b member => decide_eq_true (m.noZero b member)]
      exact List.append_nil _
    rw [recordAt, nameIs, sizeIs, nameBytes, cut, dataAt]
  refine ⟨⟨by omega, tag, by rw [nameIs]; omega⟩, ?_, ?_⟩
  · rw [record]
    exact ⟨rfl, rfl, dataBytes⟩
  · rw [record]
    show align4 (front.length + align4 (110 + (m.name.length + 1)) + m.data.length) = _
    rw [Nat.add_assoc, align4_add aligned, align4_add (dvd_align4 _), size]

/-- A record moved behind other bytes. -/
def Inode.shift (n : Nat) (record : Inode) : Inode := { record with data := n + record.data }

theorem slice_append_right (front tail : Bytes) (k n : Nat) :
    slice (front ++ tail) (front.length + k) n = slice tail k n := by
  rw [slice, slice, List.drop_append, List.drop_eq_nil_of_le (Nat.le_add_right _ _),
    List.nil_append, Nat.add_sub_cancel_left]

/-- The records behind aligned bytes are those of the rest. -/
theorem records_append {front : Bytes} (aligned : 4 ∣ front.length) (tail : Bytes) (k : Nat) :
    records (front ++ tail) (front.length + k) =
      (records tail k).map (Inode.shift front.length) := by
  have names : nameSize (front ++ tail) (front.length + k) = nameSize tail k := by
    rw [nameSize, Nat.add_assoc, slice_append_right]
    rfl
  have sizes : fileSize (front ++ tail) (front.length + k) = fileSize tail k := by
    rw [fileSize, Nat.add_assoc, slice_append_right]
    rfl
  have isRecord : IsRecord (front ++ tail) (front.length + k) ↔ IsRecord tail k := by
    rw [IsRecord, IsRecord, names, slice_append_right, List.length_append]
    constructor
    · rintro ⟨header, tag, whole⟩
      exact ⟨by omega, tag, by omega⟩
    · rintro ⟨header, tag, whole⟩
      exact ⟨by omega, tag, by omega⟩
  have same : recordAt (front ++ tail) (front.length + k) =
      (recordAt tail k).shift front.length := by
    rw [recordAt, names, sizes, Nat.add_assoc, Nat.add_assoc, slice_append_right,
      align4_add aligned, recordAt]
    simp only [Inode.shift, Nat.add_assoc]
  have next : ((recordAt tail k).shift front.length).next =
      front.length + (recordAt tail k).next := by
    show align4 (front.length + (recordAt tail k).data + (recordAt tail k).size) = _
    rw [Nat.add_assoc, align4_add aligned]
    rfl
  by_cases record : IsRecord tail k
  · have progress := lt_next tail k
    have header := record.1
    rw [records_cons (isRecord.mpr record), records_cons record, same, next, List.map_cons,
      records_append aligned tail (recordAt tail k).next]
  · rw [records_nil fun there => record (isRecord.mp there), records_nil record]
    rfl
termination_by tail.length + 1 - k

/-- **The records of written members are the members, and behind them are those of the rest.** -/
theorem records_members (small : Bool) (members : List Member) (front tail : Bytes)
    (aligned : 4 ∣ front.length) :
    ∃ found, List.Forall₂ (Describes (front ++ (members.flatMap (Member.encode small) ++ tail)))
        members found ∧
      records (front ++ (members.flatMap (Member.encode small) ++ tail)) front.length =
        found ++ records (front ++ (members.flatMap (Member.encode small) ++ tail))
          (front.length + (members.flatMap (Member.encode small)).length) := by
  induction members generalizing front with
  | nil => exact ⟨[], .nil, by rw [List.nil_append]; rfl⟩
  | cons m members ih =>
    obtain ⟨isRecord, describes, next⟩ := recordAt_encode small m
      (members.flatMap (Member.encode small) ++ tail) aligned
    have alignedNext : 4 ∣ (front ++ m.encode small).length := by
      rw [List.length_append]
      exact Nat.dvd_add aligned (dvd_length_encode small m)
    obtain ⟨found, all, rest⟩ := ih (front ++ m.encode small) alignedNext
    rw [List.append_assoc, List.length_append] at rest
    rw [List.append_assoc] at all
    rw [List.flatMap_cons, List.append_assoc]
    refine ⟨recordAt _ front.length :: found, .cons describes all, ?_⟩
    rw [records_cons isRecord, next, rest, List.length_append, Nat.add_assoc]
    rfl

/-! ## The table of an archive -/

/-- A well-formed archive within the limits of the table, and whatever is behind its trailer. -/
structure Newc where
  small : Bool
  members : List Member
  trailer : Member
  tail : Bytes
  trailerNamed : trailer.name = trailerName
  trailerEmpty : trailer.data = []
  distinct : (members.map Member.name).Nodup
  short : ∀ m ∈ members, m.name.length ≤ 63
  few : (members.filter fun m => m.data ≠ []).length ≤ maxInodes

namespace Newc

def bytes (a : Newc) : Bytes :=
  a.members.flatMap (Member.encode a.small) ++ a.trailer.encode a.small ++ a.tail

/-- The members that are not empty. -/
def full (a : Newc) : List Member := a.members.filter fun m => m.data ≠ []

/-- The files found are the members that are not empty. -/
theorem files_describes {archive : Bytes} {members : List Member} {found : List Inode}
    (all : List.Forall₂ (Describes archive) members found) :
    List.Forall₂ (Describes archive) (members.filter fun m => m.data ≠ []) (files found) := by
  induction all with
  | nil => exact .nil
  | @cons m record members found describes _ ih =>
    have same : m.data ≠ [] ↔ 0 < record.size := by
      rw [describes.size, List.length_pos_iff]
    rw [files, List.filter_cons, List.filter_cons]
    by_cases file : m.data ≠ []
    · rw [if_pos (decide_eq_true file), if_pos (decide_eq_true (same.mp file))]
      exact .cons describes ih
    · rw [if_neg (by simpa using file), if_neg (by simpa using mt same.mpr file)]
      exact ih

theorem dvd_length_flatMap (small : Bool) (members : List Member) :
    4 ∣ (members.flatMap (Member.encode small)).length := by
  induction members with
  | nil => exact ⟨0, rfl⟩
  | cons m members ih =>
    rw [List.flatMap_cons, List.length_append]
    exact Nat.dvd_add (dvd_length_encode small m) ih

/-- The files of an archive are its members that are not empty, and then those of the rest. -/
theorem files_eq (a : Newc) : ∃ found, List.Forall₂ (Describes a.bytes) a.full found ∧
    ∃ n, files (records a.bytes 0) = found ++ (files (records a.tail 0)).map (Inode.shift n) := by
  obtain ⟨found, all, split⟩ :=
    records_members a.small (a.members ++ [a.trailer]) [] a.tail ⟨0, rfl⟩
  have aligned := dvd_length_flatMap a.small (a.members ++ [a.trailer])
  have rest := records_append aligned a.tail 0
  have whole : (a.members ++ [a.trailer]).flatMap (Member.encode a.small) ++ a.tail = a.bytes := by
    rw [List.flatMap_append, List.flatMap_singleton]
    rfl
  rw [List.nil_append, whole] at all split
  rw [whole, Nat.add_zero] at rest
  rw [List.length_nil, Nat.zero_add, rest] at split
  have members : (a.members ++ [a.trailer]).filter (fun m => m.data ≠ []) = a.full := by
    rw [List.filter_append, List.filter_singleton, a.trailerEmpty]
    exact List.append_nil _
  have described := files_describes all
  rw [members] at described
  refine ⟨files found, described,
    ((a.members ++ [a.trailer]).flatMap (Member.encode a.small)).length, ?_⟩
  rw [split, files, List.filter_append, List.filter_map]
  rfl

end Newc

/-- A table from which nothing is deleted is searched from the front. -/
theorem find_eq (inodes : List Inode) (path : Bytes) : find ⟨inodes, 0⟩ path =
    (inodes.find? fun ino => stored ino.name = path).map fun ino => (ino.data, ino.size) := by
  have present (i : Nat) : (0 : Nat).testBit i = false := Nat.zero_testBit i
  rw [find]
  simp only [present, if_neg Bool.false_ne_true]
  induction inodes with
  | nil => rfl
  | cons ino inodes ih =>
    rw [List.length_cons, List.range_succ_eq_map, List.findSome?_cons, List.findSome?_map,
      List.find?_cons]
    by_cases here : stored ino.name = path
    · simp [here]
    · simp only [List.getElem?_cons_zero, if_neg here, decide_eq_false here]
      exact ih

/-- The first file with a path, among the files of members. -/
theorem find_members {archive path : Bytes} {members : List Member} {found : List Inode}
    (all : List.Forall₂ (Describes archive) members found)
    (short : ∀ m ∈ members, m.name.length ≤ 63) (more : List Inode) {m : Member}
    (first : (members.find? fun m => stored m.name = path) = some m) :
    ∃ record, ((found.map kept ++ more).find? fun ino => stored ino.name = path) = some record ∧
      record.size = m.data.length ∧ slice archive record.data record.size = m.data := by
  induction all with
  | nil => exact nomatch first
  | @cons m' record members found describes _ ih =>
    have name : (kept record).name = m'.name := by
      rw [kept, describes.name, List.take_of_length_le (short m' List.mem_cons_self)]
    rw [List.find?_cons] at first
    rw [List.map_cons, List.cons_append, List.find?_cons, name]
    by_cases here : stored m'.name = path
    · simp only [here, decide_true] at first ⊢
      obtain rfl := Option.some.inj first
      exact ⟨kept record, rfl, describes.size, describes.data⟩
    · simp only [decide_eq_false here] at first ⊢
      exact ih (fun m member => short m (List.mem_cons_of_mem m' member)) first

/-- The archive is read to a table whose files lie inside it. -/
def ReadSafely (archive : Bytes) : Prop := ∃ t, init archive = .ok t ∧ Inside archive t

/-- The table holds the members that are not empty and nothing else, and each of them is found
by its path with exactly its data. -/
def Serves (a : Newc) : Prop :=
  ∃ t, init a.bytes = .ok t ∧ t.inodes.length = a.full.length ∧
    ∀ m ∈ a.full, ∃ data size, find t (stored m.name) = some (data, size) ∧
      size = m.data.length ∧ slice a.bytes data size = m.data

/-- Members of one path have the same data. -/
def PathsApart (a : Newc) : Prop :=
  ∀ m ∈ a.full, ∀ m' ∈ a.full, stored m.name = stored m'.name → m.data = m'.data

/-- No file is behind the trailer, or the table is full before it. -/
def NothingBehind (a : Newc) : Prop :=
  files (records a.tail 0) = [] ∨ a.full.length = maxInodes

theorem serves_iff (a : Newc) : Serves a ↔ PathsApart a ∧ NothingBehind a := by
  obtain ⟨found, described, n, split⟩ := a.files_eq
  have few : found.length ≤ maxInodes := described.length_eq ▸ a.few
  generalize more : (files (records a.tail 0)).map (Inode.shift n) = behind at split
  have none : behind = [] ↔ files (records a.tail 0) = [] := by
    rw [← more, List.map_eq_nil_iff]
  have short : ∀ m ∈ a.full, m.name.length ≤ 63 := fun m member =>
    a.short m (List.mem_of_mem_filter member)
  have table : init a.bytes = .ok ⟨found.map kept ++
      (behind.take (maxInodes - found.length)).map kept, 0⟩ := by
    rw [init_eq, split, List.take_append, List.take_of_length_le few, List.map_append]
  have lookup {m : Member} (member : m ∈ a.full) : ∃ first ∈ a.full,
      stored first.name = stored m.name ∧ ∃ data size,
        find ⟨found.map kept ++ (behind.take (maxInodes - found.length)).map kept, 0⟩
          (stored m.name) = some (data, size) ∧
        size = first.data.length ∧ slice a.bytes data size = first.data := by
    cases first : a.full.find? fun m' => stored m'.name = stored m.name with
    | none => exact absurd (List.find?_eq_none.mp first m member) (by simp)
    | some m' =>
      have path := List.find?_some first
      obtain ⟨record, isRecord, size, data⟩ := find_members described short
        ((behind.take (maxInodes - found.length)).map kept) first
      refine ⟨m', List.mem_of_find?_eq_some first, of_decide_eq_true path, record.data,
        record.size, ?_, size, data⟩
      rw [find_eq, isRecord]
      rfl
  have count : (found.map kept ++ (behind.take (maxInodes - found.length)).map kept).length =
      a.full.length + min (maxInodes - a.full.length) behind.length := by
    rw [List.length_append, List.length_map, List.length_map, List.length_take,
      described.length_eq]
  constructor
  · rintro ⟨t, built, same, serves⟩
    obtain rfl := Except.ok.inj (table.symm.trans built)
    constructor
    · intro m member m' member' path
      -- what is found for the one path is the data of either
      obtain ⟨data, size, isFound, length, content⟩ := serves m member
      obtain ⟨data', size', isFound', length', content'⟩ := serves m' member'
      rw [← path, isFound] at isFound'
      obtain ⟨rfl, rfl⟩ := Prod.mk.inj (Option.some.inj isFound')
      rw [← content, ← content']
    · rw [NothingBehind, ← none, ← List.length_eq_zero_iff]
      have limit := a.few
      rw [count] at same
      have full : a.full.length ≤ maxInodes := limit
      omega
  · rintro ⟨apart, nothing⟩
    refine ⟨_, table, ?_, fun m member => ?_⟩
    · rw [NothingBehind, ← none, ← List.length_eq_zero_iff] at nothing
      show (found.map kept ++ (behind.take (maxInodes - found.length)).map kept).length = _
      rw [count]
      omega
    · obtain ⟨first, isFirst, path, data, size, isFound, length, content⟩ := lookup member
      rw [apart m member first isFirst path.symm]
      exact ⟨data, size, isFound, length, content⟩

/-- **An archive is read to files inside it exactly when its last file ends inside it, and a
well-formed archive is served exactly when members of one path have the same data and no file
is behind the trailer.** -/
theorem archive_iff (archive : Bytes) (a : Newc) :
    ReadSafely archive ∧ Serves a ↔ LastInside archive ∧ PathsApart a ∧ NothingBehind a := by
  rw [serves_iff]
  refine and_congr ⟨?_, fun last => ?_⟩ Iff.rfl
  · rintro ⟨t, built, inside⟩
    exact (inside_iff built).mp inside
  · exact ⟨_, init_eq archive, (inside_iff (init_eq archive)).mpr last⟩

/-- A member with fields of zeros, of a name and data that are short. -/
def plain (name data : Bytes) (noZero : ∀ b ∈ name, b ≠ 0) (nameFits : name.length + 1 < 2 ^ 32)
    (dataFits : data.length < 2 ^ 32) : Member where
  name := name
  data := data
  before := List.replicate 48 0x30
  between := List.replicate 32 0x30
  check := List.replicate 8 0x30
  noZero := noZero
  nameFits := nameFits
  dataFits := dataFits
  beforeSize := List.length_replicate
  betweenSize := List.length_replicate
  checkSize := List.length_replicate

/-- An archive without members, and the file `a` of one byte behind its trailer. -/
def behindTrailer : Newc where
  small := true
  members := []
  trailer := plain trailerName [] (by simp [trailerName]) (by decide) (by decide)
  tail := (plain [0x61] [1] (by simp) (by decide) (by decide)).encode true
  trailerNamed := rfl
  trailerEmpty := rfl
  distinct := List.nodup_nil
  short := fun _ member => nomatch member
  few := Nat.zero_le _

/-- One record whose header claims more data than there are bytes. -/
def claimsMore : Bytes :=
  magic ++ List.replicate 48 0x30 ++ hex8 true 0xFFFFFFFF ++ List.replicate 32 0x30 ++
    hex8 true 2 ++ List.replicate 8 0x30 ++ [0x61, 0]

set_option maxRecDepth 16000 in
/-- The data of the one archive ends behind it, and the other's file behind the trailer is served. -/
theorem archive_unchecked : ¬ReadSafely claimsMore ∧ ¬Serves behindTrailer := by
  constructor
  · rintro ⟨t, built, inside⟩
    have last := (inside_iff built).mp inside
    have first : IsRecord claimsMore 0 := by decide
    have record : recordAt claimsMore 0 = ⟨[0x61], 112, 0xFFFFFFFF⟩ := by decide
    have found : records claimsMore 0 = [⟨[0x61], 112, 0xFFFFFFFF⟩] := by
      rw [records_cons first, record, records_nil (by decide)]
    rw [LastInside, found] at last
    exact absurd (last _ rfl (by decide) (by decide)) (by decide)
  · intro serves
    obtain nothing | full := ((serves_iff behindTrailer).mp serves).2
    · have first : IsRecord behindTrailer.tail 0 := by decide
      have record : recordAt behindTrailer.tail 0 = ⟨[0x61], 112, 1⟩ := by decide
      rw [records_cons first, record] at nothing
      exact nomatch nothing
    · exact absurd full (by decide)

end RustyPenguin.Ramfs
