import RustyPenguin.Pkg.Lossy
import RustyPenguin.Ramfs.Newc

/-!
# Listing a directory

The system call writes an entry for each file of a directory: the length of its name, the name,
and the size in eight bytes. An entry that no longer fits in 4096 bytes is left out. The file
manager and the kernel manager read the entries back with bounds of their own.

Neither side leaves the buffer, and the readers see the entries that were written
(`listing_reads`). They show the names as text, so a name that is not the encoding of a text
is not shown as it is.
-/

set_option autoImplicit false

namespace RustyPenguin.Ramfs

open Checked
open Foundation (Text)

/-! ## The files that are there -/

/-- `inode`: a file that is not deleted. -/
def inode (t : Table) (i : Nat) : Option Inode :=
  if maxInodes ≤ i then none
  else if t.deletedMask.testBit i then none
  else t.inodes[i]?

/-- `delete`: whether the file was there, too. -/
def delete (t : Table) (i : Nat) : Table × Bool :=
  if maxInodes ≤ i ∨ t.inodes[i]?.isNone then (t, false)
  else if t.deletedMask.testBit i then (t, false)
  else ({ t with deletedMask := t.deletedMask ||| 1 <<< i }, true)

/-- The tables there are: those of an archive, with files deleted. -/
inductive Reachable : Table → Prop where
  | init {archive : Bytes} {t : Table} (built : init archive = .ok t) : Reachable t
  | delete {t : Table} (reachable : Reachable t) (i : Nat) : Reachable (delete t i).1

/-- The files fit in their table. -/
structure Bounded (t : Table) : Prop where
  few : t.inodes.length ≤ maxInodes
  names : ∀ ino ∈ t.inodes, ino.name.length ≤ 63
  sizes : ∀ ino ∈ t.inodes, ino.size < 2 ^ 32

theorem hexDigitValue_lt (b : UInt8) : hexDigitValue b < 16 := by
  rw [hexDigitValue]
  simp only [UInt8.le_iff_toNat_le]
  split_ifs with decimal small large
  · have high : b.toNat ≤ 0x39 := decimal.2
    omega
  · have high : b.toNat ≤ 0x66 := small.2
    omega
  · have high : b.toNat ≤ 0x46 := large.2
    omega
  · omega

theorem parseHex8_lt (s : Bytes) : parseHex8 s < 2 ^ 32 := by
  have digits (ds : Bytes) (v : Nat) : ds.foldl (fun v b => v * 16 + hexDigitValue b) v <
      (v + 1) * 16 ^ ds.length := by
    induction ds generalizing v with
    | nil => rw [List.foldl_nil, List.length_nil]; omega
    | cons b ds ih =>
      have digit := hexDigitValue_lt b
      have more : (v * 16 + hexDigitValue b + 1) * 16 ^ ds.length ≤
          (v + 1) * 16 * 16 ^ ds.length := Nat.mul_le_mul_right _ (by omega)
      rw [List.foldl_cons, List.length_cons, Nat.pow_succ', ← Nat.mul_assoc]
      exact Nat.lt_of_lt_of_le (ih _) more
  have eight : (s.take 8).length ≤ 8 := List.length_take_le 8 s
  have power : 16 ^ (s.take 8).length ≤ 16 ^ 8 := Nat.pow_le_pow_right (by decide) eight
  have value := digits (s.take 8) 0
  rw [parseHex8]
  omega

theorem size_of_mem {archive : Bytes} {off : Nat} {record : Inode}
    (member : record ∈ records archive off) : record.size < 2 ^ 32 := by
  rw [records] at member
  split at member
  · next isRecord =>
    have progress := lt_next archive off
    have header := isRecord.1
    rcases List.mem_cons.mp member with rfl | member
    · exact parseHex8_lt _
    · exact size_of_mem member
  · exact absurd member List.not_mem_nil
termination_by archive.length + 1 - off

theorem delete_inodes (t : Table) (i : Nat) : (delete t i).1.inodes = t.inodes := by
  rw [delete]
  split_ifs <;> rfl

theorem Reachable.bounded {t : Table} (reachable : Reachable t) : Bounded t := by
  induction reachable with
  | @init archive t built =>
    rw [init_eq] at built
    obtain rfl := Except.ok.inj built
    refine ⟨?_, fun ino member => ?_, fun ino member => ?_⟩
    · show (((files (records archive 0)).take maxInodes).map kept).length ≤ maxInodes
      rw [List.length_map]
      exact List.length_take_le _ _
    · obtain ⟨record, _, rfl⟩ := List.mem_map.mp member
      exact List.length_take_le _ _
    · obtain ⟨record, entered, rfl⟩ := List.mem_map.mp member
      have small : record.size < 2 ^ 32 :=
        size_of_mem (List.mem_of_mem_filter (List.mem_of_mem_take entered))
      exact small
  | @delete t _ i ih =>
    have same := delete_inodes t i
    exact ⟨same ▸ ih.few, same ▸ ih.names, same ▸ ih.sizes⟩

/-! ## The system call -/

/-- Whether a file is directly in a directory. -/
def inDir (path stored : Bytes) : Checked Bool :=
  if path = [] then pure !stored.contains 0x2F
  else if path.isPrefixOf stored && stored[path.length]? == some 0x2F then do
    let rest ← sub stored (path.length + 1) stored.length
    pure !rest.contains 0x2F
  else pure false

def fileName (path stored : Bytes) : Checked Bytes :=
  if path = [] then pure stored else sub stored (path.length + 1) stored.length

/-- What is written so far. -/
structure Listing where
  buf : Bytes
  off : Nat
  count : Nat

/-- A size as it is written. -/
def sizeBytes (size : Nat) : Bytes := (List.range 8).map fun k => UInt8.ofNat (size / 256 ^ k)

/-- Write an entry, if it fits. -/
def report (l : Listing) (filename : Bytes) (size : Nat) : Checked Listing :=
  let nameLen := min filename.length 255
  if l.off + 1 + nameLen + 8 ≤ 4096 then do
    let buf ← setAt l.buf l.off (UInt8.ofNat nameLen)
    let off := l.off + 1
    let name ← sub filename 0 nameLen
    let buf ← copyTo buf off (off + nameLen) name
    let off := off + nameLen
    let buf ← copyTo buf off (off + 8) (sizeBytes size)
    pure ⟨buf, off + 8, l.count + 1⟩
  else pure l

def listEntry (t : Table) (path : Bytes) (l : Listing) (i : Nat) : Checked Listing :=
  match inode t i with
  | none => pure l
  | some ino => do
    let there ← inDir path (stored ino.name)
    if there then do
      let filename ← fileName path (stored ino.name)
      report l filename ino.size
    else pure l

/-- A path without the slash in front. -/
def directory (path : Bytes) : Bytes := if [0x2F].isPrefixOf path then path.drop 1 else path

/-- `sys_listdir`: the buffer, and how many entries are in it. -/
def sysListdir (t : Table) (path buf : Bytes) : Checked (Bytes × Nat) := do
  let l ← (List.range t.inodes.length).foldlM (listEntry t (directory (path.take 256))) ⟨buf, 0, 0⟩
  pure (l.buf, l.count)

/-! ## The readers -/

/-- `String::from_utf8_lossy`. -/
def lossy (name : Bytes) : Text := Pkg.fromUtf8Lossy name.length name

def fromLeBytes (bytes : Bytes) : Nat := bytes.foldr (fun b v => b.toNat + 256 * v) 0

structure FileEntry where
  name : Text
  size : Nat
  deriving DecidableEq

/-- The loop of the file manager over the entries of a buffer. -/
def readEntries (buf : Bytes) : Nat → Nat → Checked (List FileEntry)
  | 0, _ => pure []
  | count + 1, off =>
    if off ≥ buf.length then pure []
    else do
      let nameLen ← index buf off
      let off := off + 1
      if off + nameLen.toNat > buf.length then pure []
      else do
        let nameBytes ← sub buf off (off + nameLen.toNat)
        let off := off + nameLen.toNat
        if off + 8 > buf.length then pure []
        else do
          let size ← sub buf off (off + 8)
          let rest ← readEntries buf count (off + 8)
          pure (⟨lossy nameBytes, fromLeBytes size⟩ :: rest)

theorem readEntries_succ (buf : Bytes) (count off : Nat) :
    readEntries buf (count + 1) off =
      (if off ≥ buf.length then pure []
       else do
         let nameLen ← index buf off
         let off := off + 1
         if off + nameLen.toNat > buf.length then pure []
         else do
           let nameBytes ← sub buf off (off + nameLen.toNat)
           let off := off + nameLen.toNat
           if off + 8 > buf.length then pure []
           else do
             let size ← sub buf off (off + 8)
             let rest ← readEntries buf count (off + 8)
             pure (⟨lossy nameBytes, fromLeBytes size⟩ :: rest)) := rfl

/-- The order of two names, byte by byte. -/
def nameCmp (a b : Text) : Ordering :=
  compare (Files.asBytes (String.ofList a)) (Files.asBytes (String.ofList b))

/-- The order of entries of each way to sort. -/
def entryCmp (sortMode : Nat) (a b : FileEntry) : Ordering :=
  match sortMode with
  | 0 => nameCmp a.name b.name
  | 1 => nameCmp b.name a.name
  | 2 => (compare b.size a.size).then (nameCmp a.name b.name)
  | _ => (compare a.size b.size).then (nameCmp a.name b.name)

def applySort (sortMode : Nat) (entries : List FileEntry) : List FileEntry :=
  entries.mergeSort fun a b => entryCmp sortMode a b ≠ .gt

structure FileManager where
  cwd : String
  entries : List FileEntry
  selected : Nat
  sortMode : Nat

def FileManager.refresh (fm : FileManager) (t : Table) : Checked FileManager := do
  let (buf, count) ← sysListdir t (Files.asBytes fm.cwd) (List.replicate 4096 0)
  let entries ← readEntries buf count 0
  pure { fm with entries := applySort fm.sortMode entries, selected := 0 }

/-- `.elf`. -/
def elfSuffix : Text := ['.', 'e', 'l', 'f']

/-- The loop of the kernel manager. -/
def readCandidates (buf : Bytes) : Nat → Nat → Checked (List Text)
  | 0, _ => pure []
  | count + 1, off =>
    if off ≥ buf.length then pure []
    else do
      let nameLen ← index buf off
      let off := off + 1
      if off + nameLen.toNat > buf.length then pure []
      else do
        let nameBytes ← sub buf off (off + nameLen.toNat)
        let off := off + nameLen.toNat
        if off + 8 > buf.length then pure []
        else do
          let rest ← readCandidates buf count (off + 8)
          pure (if elfSuffix.isSuffixOf (lossy nameBytes) then lossy nameBytes :: rest else rest)

structure KernelManager where
  candidates : List Text
  selected : Nat

def KernelManager.scan (km : KernelManager) (t : Table) : Checked KernelManager := do
  let (buf, count) ← sysListdir t [0x2F] (List.replicate 4096 0)
  let candidates ← readCandidates buf count 0
  pure ⟨candidates, if km.selected ≥ candidates.length then 0 else km.selected⟩

/-! ## The entries of a directory -/

/-- What is in front of the names of the files of a directory. -/
def dirFront (dir : Bytes) : Bytes := if dir = [] then [] else dir ++ [0x2F]

/-- The name of a file in a directory, if it is directly in it. -/
def childName (dir stored : Bytes) : Option Bytes :=
  if dirFront dir <+: stored ∧ 0x2F ∉ stored.drop (dirFront dir).length then
    some (stored.drop (dirFront dir).length)
  else none

/-- The name and the size of a file that is not deleted, if it is directly in a directory. -/
def childEntry (t : Table) (dir : Bytes) (i : Nat) : Option (Bytes × Nat) := do
  let ino ← inode t i
  let name ← childName dir (stored ino.name)
  some (name, ino.size)

/-- The files of a directory that are not deleted, in the order of the table. -/
def children (t : Table) (dir : Bytes) : List (Bytes × Nat) :=
  (List.range t.inodes.length).filterMap (childEntry t dir)

/-- The entry of a file. -/
def encodeEntry (entry : Bytes × Nat) : Bytes :=
  UInt8.ofNat entry.1.length :: (entry.1 ++ sizeBytes entry.2)

/-- The entries that fit, from an offset on. -/
def reported : Nat → List (Bytes × Nat) → List (Bytes × Nat)
  | _, [] => []
  | off, entry :: entries =>
    if off + (encodeEntry entry).length ≤ 4096 then
      entry :: reported (off + (encodeEntry entry).length) entries
    else reported off entries

def shown (entry : Bytes × Nat) : FileEntry := ⟨lossy entry.1, entry.2⟩

/-! ## The writer -/

theorem prefix_slash_iff {dir stored : Bytes} : dir ++ [0x2F] <+: stored ↔
    (dir.isPrefixOf stored && stored[dir.length]? == some 0x2F) = true := by
  rw [Bool.and_eq_true, List.isPrefixOf_iff_prefix, beq_iff_eq]
  constructor
  · rintro ⟨rest, rfl⟩
    rw [List.append_assoc]
    refine ⟨List.prefix_append _ _, ?_⟩
    rw [List.getElem?_append_right (Nat.le_refl _), Nat.sub_self]
    rfl
  · rintro ⟨⟨rest, rfl⟩, slash⟩
    rw [List.getElem?_append_right (Nat.le_refl _), Nat.sub_self] at slash
    obtain ⟨rest, rfl⟩ : ∃ more, rest = 0x2F :: more := by
      cases rest with
      | nil => exact nomatch slash
      | cons b more => exact ⟨more, by rw [Option.some.inj slash]⟩
    exact ⟨rest, by rw [List.append_assoc]; rfl⟩

theorem sub_tail {stored : Bytes} {n : Nat} (inside : n ≤ stored.length) :
    sub stored n stored.length = .ok (stored.drop n) := by
  rw [sub_slice inside (Nat.le_refl _), slice, List.take_of_length_le]
  rw [List.length_drop]

theorem inDir_eq (dir stored : Bytes) :
    inDir dir stored = .ok (childName dir stored).isSome := by
  rw [inDir, childName]
  by_cases root : dir = []
  · rw [if_pos root, dirFront, if_pos root]
    by_cases slash : (0x2F : UInt8) ∈ stored <;> simp [slash] <;> rfl
  · rw [if_neg root, dirFront, if_neg root]
    by_cases inside : dir ++ [0x2F] <+: stored
    · have size := inside.length_le
      rw [List.length_append, List.length_singleton] at size
      rw [if_pos (prefix_slash_iff.1 inside), bind_of_ok (sub_tail size), List.length_append,
        List.length_singleton]
      by_cases slash : (0x2F : UInt8) ∈ stored.drop (dir.length + 1) <;>
        simp [slash, inside] <;> rfl
    · rw [if_neg (mt prefix_slash_iff.2 inside), if_neg fun both => inside both.1]
      rfl

theorem fileName_eq {dir stored name : Bytes} (child : childName dir stored = some name) :
    fileName dir stored = .ok name := by
  rw [childName] at child
  split at child
  · next there =>
    obtain rfl := Option.some.inj child
    rw [fileName]
    by_cases root : dir = []
    · rw [if_pos root, dirFront, if_pos root]
      rfl
    · rw [dirFront, if_neg root] at there
      have size := there.1.length_le
      rw [List.length_append, List.length_singleton] at size
      rw [if_neg root, dirFront, if_neg root, sub_tail size, List.length_append]
      rfl
  · exact nomatch child

/-- One turn of the loop writes the entry of the file, if it is in the directory. -/
theorem listEntry_eq (t : Table) (dir : Bytes) (l : Listing) (i : Nat) :
    listEntry t dir l i =
      match childEntry t dir i with
      | some entry => report l entry.1 entry.2
      | none => pure l := by
  rw [listEntry, childEntry]
  cases inode t i with
  | none => rfl
  | some ino =>
    simp only
    rw [bind_of_ok (inDir_eq dir (stored ino.name))]
    cases child : childName dir (stored ino.name) with
    | none => simp [child]
    | some name =>
      simp only [Option.isSome_some, if_true, bind_of_ok (fileName_eq child)]
      simp [child]

theorem listEntries_eq (t : Table) (dir : Bytes) (l : Listing) :
    (List.range t.inodes.length).foldlM (listEntry t dir) l =
      (children t dir).foldlM (fun l entry => report l entry.1 entry.2) l := by
  rw [children, List.foldlM_filterMap]
  congr
  funext l i
  rw [listEntry_eq]
  cases childEntry t dir i <;> rfl

theorem length_sizeBytes (size : Nat) : (sizeBytes size).length = 8 := rfl

theorem length_encodeEntry (entry : Bytes × Nat) :
    (encodeEntry entry).length = entry.1.length + 9 := by
  rw [encodeEntry, List.length_cons, List.length_append, length_sizeBytes]

/-- An entry is written behind what is written already, or not at all. -/
theorem report_eq {front rest : Bytes} {count : Nat} {entry : Bytes × Nat}
    (short : entry.1.length ≤ 255) (whole : front.length + rest.length = 4096) :
    report ⟨front ++ rest, front.length, count⟩ entry.1 entry.2 =
      .ok (if front.length + (encodeEntry entry).length ≤ 4096 then
        ⟨front ++ encodeEntry entry ++ rest.drop (encodeEntry entry).length,
          (front ++ encodeEntry entry).length, count + 1⟩
      else ⟨front ++ rest, front.length, count⟩) := by
  obtain ⟨name, size⟩ := entry
  have entryLength := length_encodeEntry (name, size)
  simp only at short entryLength
  rw [report, Nat.min_eq_left short, entryLength]
  by_cases fits : front.length + (name.length + 9) ≤ 4096
  · have put := setAt_append front rest rfl (by omega) (UInt8.ofNat name.length)
    have afterLength : (front ++ [UInt8.ofNat name.length]).length = front.length + 1 :=
      List.length_append
    have afterName : (front ++ [UInt8.ofNat name.length] ++ name).length =
        front.length + 1 + name.length := by rw [List.length_append, afterLength]
    have copied := copyTo_append _ (rest.drop 1) name afterLength rfl
      (by rw [List.length_drop]; omega)
    have afterSize : front.length + 1 + name.length + (sizeBytes size).length =
        front.length + 1 + name.length + 8 := rfl
    have sized := copyTo_append _ ((rest.drop 1).drop name.length) (sizeBytes size) afterName
      afterSize (by rw [List.length_drop, List.length_drop, length_sizeBytes]; omega)
    have part : sub name 0 name.length = .ok name := sub_tail (Nat.zero_le _)
    rw [if_pos (show front.length + 1 + name.length + 8 ≤ 4096 by omega), if_pos fits]
    simp only
    rw [bind_of_ok put, bind_of_ok part, bind_of_ok copied, bind_of_ok sized]
    have bytes : front ++ [UInt8.ofNat name.length] ++ name ++ sizeBytes size =
        front ++ encodeEntry (name, size) := by
      rw [encodeEntry, List.append_assoc, List.append_assoc]
      rfl
    have left : ((rest.drop 1).drop name.length).drop (sizeBytes size).length =
        rest.drop (name.length + 9) := by
      rw [List.drop_drop, List.drop_drop, length_sizeBytes]
      congr 1
      omega
    have stop : (front ++ encodeEntry (name, size)).length =
        front.length + 1 + name.length + 8 := by
      rw [List.length_append, entryLength]
      omega
    rw [bytes, left, stop]
    rfl
  · rw [if_neg (show ¬front.length + 1 + name.length + 8 ≤ 4096 by omega), if_neg fits]
    rfl

def encodeEntries (entries : List (Bytes × Nat)) : Bytes := entries.flatMap encodeEntry

theorem encodeEntries_cons (entry : Bytes × Nat) (entries : List (Bytes × Nat)) :
    encodeEntries (entry :: entries) = encodeEntry entry ++ encodeEntries entries :=
  List.flatMap_cons

/-- **The entries that fit are written one behind the other, and counted.** -/
theorem reportAll_eq (entries : List (Bytes × Nat)) (front rest : Bytes) (count : Nat)
    (short : ∀ entry ∈ entries, entry.1.length ≤ 255)
    (whole : front.length + rest.length = 4096) :
    entries.foldlM (fun l entry => report l entry.1 entry.2) ⟨front ++ rest, front.length, count⟩ =
      .ok ⟨front ++ encodeEntries (reported front.length entries) ++
          rest.drop (encodeEntries (reported front.length entries)).length,
        (front ++ encodeEntries (reported front.length entries)).length,
        count + (reported front.length entries).length⟩ := by
  induction entries generalizing front rest count with
  | nil =>
    rw [reported, encodeEntries, List.flatMap_nil, List.append_nil]
    rfl
  | cons entry entries ih =>
    have others : ∀ other ∈ entries, other.1.length ≤ 255 := fun other member =>
      short other (List.mem_cons_of_mem entry member)
    rw [List.foldlM_cons, bind_of_ok (report_eq (short entry List.mem_cons_self) whole), reported]
    by_cases fits : front.length + (encodeEntry entry).length ≤ 4096
    · have next := ih (front ++ encodeEntry entry) (rest.drop (encodeEntry entry).length)
        (count + 1) others (by rw [List.length_append, List.length_drop]; omega)
      generalize tail : reported (front ++ encodeEntry entry).length entries = back at next
      rw [List.length_append] at tail
      have bytes : front ++ encodeEntry entry ++ encodeEntries back =
          front ++ (encodeEntry entry ++ encodeEntries back) := List.append_assoc _ _ _
      have left : (rest.drop (encodeEntry entry).length).drop (encodeEntries back).length =
          rest.drop (encodeEntry entry ++ encodeEntries back).length := by
        rw [List.drop_drop, List.length_append]
      have counted : count + 1 + back.length = count + (entry :: back).length := by
        rw [List.length_cons]
        omega
      rw [if_pos fits, if_pos fits, next, tail, encodeEntries_cons, bytes, left, counted]
    · rw [if_neg fits, if_neg fits]
      exact ih front rest count others whole

/-! ## The entries are read back -/

theorem fromLeBytes_sizeBytes {size : Nat} (fits : size < 2 ^ 64) :
    fromLeBytes (sizeBytes size) = size := by
  rw [sizeBytes, fromLeBytes, List.foldr_map]
  simp only [List.range_succ, List.range_zero, List.nil_append, List.cons_append, List.foldr_cons,
    List.foldr_nil, UInt8.toNat_ofNat']
  omega

/-- What the checks of a reader meet at the start of an entry. -/
theorem entry_at {buf front back name : Bytes} {size : Nat} (short : name.length ≤ 255)
    (whole : buf = front ++ (encodeEntry (name, size) ++ back)) :
    index buf front.length = .ok (UInt8.ofNat name.length) ∧
      (UInt8.ofNat name.length).toNat = name.length ∧
      front.length + 1 + name.length + 8 ≤ buf.length ∧
      sub buf (front.length + 1) (front.length + 1 + name.length) = .ok name ∧
      sub buf (front.length + 1 + name.length) (front.length + 1 + name.length + 8) =
        .ok (sizeBytes size) := by
  have entryLength := length_encodeEntry (name, size)
  have total : buf.length = front.length + ((encodeEntry (name, size)).length + back.length) := by
    rw [whole, List.length_append, List.length_append]
  simp only at entryLength
  refine ⟨?_, ?_, by omega, ?_, ?_⟩
  · rw [index_eq_ok, whole, List.getElem?_append_right (Nat.le_refl _), Nat.sub_self]
    rfl
  · rw [UInt8.toNat_ofNat', Nat.mod_eq_of_lt (by omega)]
  · have split : buf = front ++ [UInt8.ofNat name.length] ++ (name ++ (sizeBytes size ++ back)) := by
      rw [whole, encodeEntry]
      simp only [List.append_assoc, List.cons_append, List.nil_append]
    have start : (front ++ [UInt8.ofNat name.length]).length = front.length + 1 :=
      List.length_append
    rw [sub_slice (by omega) (by omega), Nat.add_sub_cancel_left, slice_part _ split start rfl]
  · have split : buf = front ++ [UInt8.ofNat name.length] ++ name ++ (sizeBytes size ++ back) := by
      rw [whole, encodeEntry]
      simp only [List.append_assoc, List.cons_append, List.nil_append]
    have start : (front ++ [UInt8.ofNat name.length] ++ name).length =
        front.length + 1 + name.length := by
      rw [List.length_append, List.length_append]
      rfl
    rw [sub_slice (by omega) (by omega), Nat.add_sub_cancel_left,
      slice_part _ split start (length_sizeBytes size)]

/-- Entries that a reader can tell apart and add up. -/
def Fit (entries : List (Bytes × Nat)) : Prop :=
  ∀ entry ∈ entries, entry.1.length ≤ 255 ∧ entry.2 < 2 ^ 64

/-- **The file manager reads the entries that were written.** -/
theorem readEntries_eq {entries : List (Bytes × Nat)} (fit : Fit entries) {buf : Bytes}
    (front back : Bytes) (whole : buf = front ++ (encodeEntries entries ++ back)) :
    readEntries buf entries.length front.length = .ok (entries.map shown) := by
  induction entries generalizing front with
  | nil => rfl
  | cons entry entries ih =>
    obtain ⟨name, size⟩ := entry
    obtain ⟨short, fits⟩ : name.length ≤ 255 ∧ size < 2 ^ 64 :=
      fit (name, size) List.mem_cons_self
    have split : buf = front ++ (encodeEntry (name, size) ++ (encodeEntries entries ++ back)) := by
      rw [whole, encodeEntries_cons, List.append_assoc]
    obtain ⟨first, length, inside, isName, isSize⟩ := entry_at short split
    have rest := ih (fun other member => fit other (List.mem_cons_of_mem _ member))
      (front ++ encodeEntry (name, size)) (by rw [split, List.append_assoc])
    have next : (front ++ encodeEntry (name, size)).length =
        front.length + 1 + name.length + 8 := by
      rw [List.length_append, length_encodeEntry]
      simp only
      omega
    rw [next] at rest
    rw [List.length_cons, readEntries_succ, if_neg (by omega), bind_of_ok first]
    simp only [length]
    rw [if_neg (by omega), bind_of_ok isName, if_neg (by omega), bind_of_ok isSize,
      bind_of_ok rest, fromLeBytes_sizeBytes fits]
    rfl

/-- The file manager reads inside any buffer, whatever is in it and whatever the count. -/
theorem readEntries_inside (buf : Bytes) (count off : Nat) :
    ∃ entries, readEntries buf count off = .ok entries := by
  induction count generalizing off with
  | zero => exact ⟨[], rfl⟩
  | succ count ih =>
    rw [readEntries_succ]
    split_ifs with behind
    · exact ⟨[], rfl⟩
    · obtain ⟨nameLen, there⟩ : ∃ nameLen, index buf off = .ok nameLen :=
        ⟨buf.get ⟨off, by omega⟩, by rw [index_eq_ok]; exact List.getElem?_eq_getElem _⟩
      rw [bind_of_ok there]
      simp only
      split_ifs with long short
      · exact ⟨[], rfl⟩
      · rw [bind_of_ok (sub_slice (by omega) (by omega))]
        exact ⟨[], rfl⟩
      · rw [bind_of_ok (sub_slice (by omega) (by omega))]
        obtain ⟨entries, rest⟩ := ih (off + 1 + nameLen.toNat + 8)
        rw [bind_of_ok (sub_slice (by omega) (by omega)), bind_of_ok rest]
        exact ⟨_, rfl⟩

/-- The names among them that end in `.elf`. -/
def candidatesOf (entries : List FileEntry) : List Text :=
  (entries.map FileEntry.name).filter elfSuffix.isSuffixOf

/-- **The kernel manager reads the names that the file manager reads, those in `.elf`.** -/
theorem readCandidates_eq {buf : Bytes} {count off : Nat} {entries : List FileEntry}
    (read : readEntries buf count off = .ok entries) :
    readCandidates buf count off = .ok (candidatesOf entries) := by
  induction count generalizing off entries with
  | zero =>
    obtain rfl := Except.ok.inj read
    rfl
  | succ count ih =>
    rw [readEntries_succ] at read
    rw [readCandidates]
    split_ifs at read ⊢ with behind
    · obtain rfl := Except.ok.inj read
      rfl
    · obtain ⟨nameLen, there, read⟩ := bind_eq_ok.mp read
      rw [bind_of_ok there]
      simp only at read ⊢
      split_ifs at read ⊢ with long short
      · obtain rfl := Except.ok.inj read
        rfl
      · obtain ⟨name, isName, read⟩ := bind_eq_ok.mp read
        obtain rfl := Except.ok.inj read
        rw [bind_of_ok isName]
        rfl
      · obtain ⟨name, isName, read⟩ := bind_eq_ok.mp read
        obtain ⟨size, _, read⟩ := bind_eq_ok.mp read
        obtain ⟨rest, others, read⟩ := bind_eq_ok.mp read
        obtain rfl := Except.ok.inj read
        rw [bind_of_ok isName, bind_of_ok (ih others), candidatesOf, candidatesOf, List.map_cons,
          List.filter_cons]
        rfl

/-! ## What is listed -/

theorem reported_sublist (off : Nat) (entries : List (Bytes × Nat)) :
    (reported off entries).Sublist entries := by
  induction entries generalizing off with
  | nil => exact .slnil
  | cons entry entries ih =>
    rw [reported]
    split_ifs with fits
    · exact (ih _).cons_cons entry
    · exact (ih off).cons entry

theorem length_reported {off : Nat} (inside : off ≤ 4096) (entries : List (Bytes × Nat)) :
    off + (encodeEntries (reported off entries)).length ≤ 4096 := by
  induction entries generalizing off with
  | nil => exact inside
  | cons entry entries ih =>
    rw [reported]
    split_ifs with fits
    · rw [encodeEntries_cons, List.length_append, ← Nat.add_assoc]
      exact ih fits
    · exact ih inside

/-- Nothing is left out where all of it fits. -/
theorem reported_of_fits {off : Nat} {entries : List (Bytes × Nat)}
    (fits : off + (encodeEntries entries).length ≤ 4096) : reported off entries = entries := by
  induction entries generalizing off with
  | nil => rfl
  | cons entry entries ih =>
    rw [encodeEntries_cons, List.length_append] at fits
    rw [reported, if_pos (by omega), ih (by omega)]

theorem length_stored (name : Bytes) : (stored name).length ≤ name.length := by
  rw [stored]
  split_ifs
  · rw [List.length_drop]
    exact Nat.sub_le _ _
  · exact Nat.le_refl _

/-- A file is in a directory only if it is longer than the path of the directory. -/
theorem childName_eq_none {dir stored : Bytes} (long : stored.length ≤ dir.length)
    (below : dir ≠ []) : childName dir stored = none := by
  refine if_neg fun there => ?_
  have size := there.1.length_le
  rw [dirFront, if_neg below, List.length_append, List.length_singleton] at size
  omega

theorem mem_children {t : Table} {dir : Bytes} {entry : Bytes × Nat}
    (member : entry ∈ children t dir) :
    ∃ ino ∈ t.inodes, childName dir (stored ino.name) = some entry.1 ∧ entry.2 = ino.size := by
  obtain ⟨i, _, isEntry⟩ := List.mem_filterMap.mp member
  obtain ⟨ino, isInode, isEntry⟩ := Option.bind_eq_some_iff.mp isEntry
  obtain ⟨name, isName, isEntry⟩ := Option.bind_eq_some_iff.mp isEntry
  obtain rfl := Option.some.inj isEntry
  rw [inode] at isInode
  split_ifs at isInode
  exact ⟨ino, List.mem_of_getElem? isInode, isName, rfl⟩

theorem fit_children {t : Table} (bounded : Bounded t) (dir : Bytes) : Fit (children t dir) := by
  intro entry member
  obtain ⟨ino, isFile, isName, isSize⟩ := mem_children member
  have short := bounded.names ino isFile
  have small := bounded.sizes ino isFile
  have least := length_stored ino.name
  rw [childName] at isName
  split_ifs at isName
  have name : entry.1.length = (stored ino.name).length - (dirFront dir).length := by
    rw [← Option.some.inj isName, List.length_drop]
  omega

/-- Of a path that is too long nothing is listed, cut or not. -/
theorem children_take {t : Table} (bounded : Bounded t) (path : Bytes) :
    children t (directory (path.take 256)) = children t (directory path) := by
  have length (p : Bytes) : p.length ≤ (directory p).length + 1 := by
    rw [directory]
    split_ifs
    · rw [List.length_drop]
      omega
    · omega
  by_cases short : path.length ≤ 256
  · rw [List.take_of_length_le short]
  · have none (dir : Bytes) (long : 255 ≤ dir.length) : children t dir = [] := by
      refine List.eq_nil_iff_forall_not_mem.mpr fun entry member => ?_
      obtain ⟨ino, isFile, isName, _⟩ := mem_children member
      have bound := bounded.names ino isFile
      have least := length_stored ino.name
      have below : dir ≠ [] := by
        rintro rfl
        exact absurd long (by decide)
      rw [childName_eq_none (by omega) below] at isName
      exact nomatch isName
    have cut := length (path.take 256)
    have whole := length path
    rw [List.length_take] at cut
    rw [none _ (by omega), none _ (by omega)]

/-- The entries that a listing of a directory reports. -/
def listed (t : Table) (path : Bytes) : List (Bytes × Nat) :=
  reported 0 (children t (directory path))

theorem fit_listed {t : Table} (bounded : Bounded t) (path : Bytes) : Fit (listed t path) :=
  fun entry member => fit_children bounded _ entry ((reported_sublist 0 _).subset member)

/-- The system call writes the entries that are listed, and leaves the rest of the buffer. -/
theorem sysListdir_eq {t : Table} (bounded : Bounded t) (path : Bytes) {out : Bytes}
    (size : out.length = 4096) :
    sysListdir t path out = .ok (encodeEntries (listed t path) ++
      out.drop (encodeEntries (listed t path)).length, (listed t path).length) := by
  have short : ∀ entry ∈ children t (directory path), entry.1.length ≤ 255 := fun entry member =>
    (fit_children bounded _ entry member).1
  have run := reportAll_eq (children t (directory path)) [] out 0 short (by
    rw [List.length_nil, Nat.zero_add, size])
  rw [sysListdir, listEntries_eq, children_take bounded]
  rw [List.nil_append, List.nil_append, List.length_nil, Nat.zero_add] at run
  rw [bind_of_ok run]
  rfl

/-- The buffer has the entries that are listed and the count is theirs, and both readers meet
them. -/
def ReadBack (t : Table) (path out : Bytes) : Prop :=
  ∃ buf, sysListdir t path out = .ok (buf, (listed t path).length) ∧ buf.length = 4096 ∧
    encodeEntries (listed t path) <+: buf ∧
    readEntries buf (listed t path).length 0 = .ok ((listed t path).map shown) ∧
    readCandidates buf (listed t path).length 0 = .ok (candidatesOf ((listed t path).map shown))

theorem readBack {t : Table} (bounded : Bounded t) (path : Bytes) {out : Bytes}
    (size : out.length = 4096) : ReadBack t path out := by
  generalize back : out.drop (encodeEntries (listed t path)).length = rest
  have length : (encodeEntries (listed t path) ++ rest).length = 4096 := by
    have inside := length_reported (Nat.zero_le 4096) (children t (directory path))
    rw [listed] at back ⊢
    rw [← back, List.length_append, List.length_drop, size]
    omega
  have written := sysListdir_eq bounded path size
  rw [back] at written
  have read := readEntries_eq (fit_listed bounded path) [] rest (List.nil_append _).symm
  exact ⟨_, written, length, List.prefix_append _ _, read, readCandidates_eq read⟩

theorem refresh_eq {t : Table} (bounded : Bounded t) (fm : FileManager) :
    fm.refresh t = .ok { fm with
      entries := applySort fm.sortMode ((listed t (Files.asBytes fm.cwd)).map shown)
      selected := 0 } := by
  obtain ⟨buf, written, _, _, read, _⟩ := readBack bounded (Files.asBytes fm.cwd)
    (List.length_replicate (n := 4096) (a := (0 : UInt8)))
  rw [FileManager.refresh, bind_of_ok written]
  simp only
  rw [bind_of_ok read]
  rfl

/-- The names that the kernel manager offers. -/
def offered (t : Table) : List Text := candidatesOf ((listed t [0x2F]).map shown)

theorem scan_eq_offered {t : Table} (bounded : Bounded t) (km : KernelManager) :
    km.scan t = .ok
      ⟨offered t, if km.selected ≥ (offered t).length then 0 else km.selected⟩ := by
  obtain ⟨buf, written, _, _, _, read⟩ := readBack bounded [0x2F]
    (List.length_replicate (n := 4096) (a := (0 : UInt8)))
  rw [KernelManager.scan, bind_of_ok written]
  simp only
  rw [bind_of_ok read]
  rfl

theorem oneByte_fits : ([1] : Bytes).length < 2 ^ 32 := by decide

/-- An archive with one file of one byte. -/
def oneFile (name : Bytes) (noZero : ∀ b ∈ name, b ≠ 0) (nameFits : name.length + 1 < 2 ^ 32) :
    Bytes := (plain name [1] noZero nameFits oneByte_fits).encode true

theorem init_oneFile (name : Bytes) (noZero : ∀ b ∈ name, b ≠ 0)
    (nameFits : name.length + 1 < 2 ^ 32) (short : name.length ≤ 63) :
    ∃ data, init (oneFile name noZero nameFits) = .ok ⟨[⟨name, data, 1⟩], 0⟩ := by
  have none : 4 ∣ ([] : Bytes).length := ⟨0, rfl⟩
  obtain ⟨isRecord, describes, next⟩ := recordAt_encode true
    (plain name [1] noZero nameFits (by decide)) [] none
  rw [List.nil_append, List.append_nil, List.length_nil, ← oneFile] at isRecord describes next
  have ends : ¬IsRecord (oneFile name noZero nameFits) (0 + (oneFile name noZero nameFits).length) :=
    fun more => by
      have header := more.1
      omega
  have found := records_cons isRecord
  rw [next, records_nil ends] at found
  have isName : (recordAt (oneFile name noZero nameFits) 0).name = name := describes.name
  have isSize : (recordAt (oneFile name noZero nameFits) 0).size = 1 := describes.size
  refine ⟨(recordAt (oneFile name noZero nameFits) 0).data, ?_⟩
  generalize recordAt (oneFile name noZero nameFits) 0 = record at *
  have file : files [record] = [record] := by
    rw [files, List.filter_singleton, isSize]
    rfl
  have whole : kept record = ⟨name, record.data, 1⟩ := by
    rw [kept, isName, isSize, List.take_of_length_le short]
  rw [init_eq, found, file, ← whole]
  rfl

theorem children_single {b : UInt8} (noSlash : b ≠ 0x2F) (data : Nat) :
    children ⟨[⟨[b], data, 1⟩], 0⟩ [] = [([b], 1)] := by
  simp [children, childEntry, inode, stored, childName, dirFront, maxInodes, noSlash.symm]

theorem listed_single {b : UInt8} (noSlash : b ≠ 0x2F) (data : Nat) :
    listed ⟨[⟨[b], data, 1⟩], 0⟩ [0x2F] = [([b], 1)] := by
  have root : directory [0x2F] = [] := rfl
  rw [listed, root, children_single noSlash]
  rfl

/-- **The listing of any directory is read back as it was written.** The entries are those of the
files of the directory that still fit, in their order, and all of them if they fit together. The
readers have their sizes and the readings of their names as text, which are the names where these
are texts; the file manager sorts them, and the kernel manager keeps the names in `.elf`. Neither
leaves the buffer, whatever is in it. -/
theorem listing_reads {t : Table} (reachable : Reachable t) :
    (∀ path out, out.length = 4096 → ReadBack t path out ∧
      (listed t path).Sublist (children t (directory path)) ∧
      ((encodeEntries (children t (directory path))).length ≤ 4096 →
        listed t path = children t (directory path)) ∧
      ∀ entry ∈ listed t path, ∀ text : Text, entry.1 = Files.asBytes (String.ofList text) →
        shown entry = ⟨text, entry.2⟩) ∧
    (∀ fm : FileManager, fm.refresh t = .ok { fm with
      entries := applySort fm.sortMode ((listed t (Files.asBytes fm.cwd)).map shown)
      selected := 0 }) ∧
    (∀ km : KernelManager, km.scan t = .ok
      ⟨offered t, if km.selected ≥ (offered t).length then 0 else km.selected⟩) ∧
    ∀ buf count, (∃ entries, readEntries buf count 0 = .ok entries) ∧
      ∃ names, readCandidates buf count 0 = .ok names := by
  have bounded := reachable.bounded
  refine ⟨fun path out size => ⟨readBack bounded path size, reported_sublist 0 _, fun fits => ?_,
    fun entry _ text same => ?_⟩, refresh_eq bounded, scan_eq_offered bounded, fun buf count => ?_⟩
  · exact reported_of_fits (by rwa [Nat.zero_add])
  · rw [shown, lossy, same, Pkg.fromUtf8Lossy_asBytes text (Nat.le_refl _)]
  · obtain ⟨entries, read⟩ := readEntries_inside buf count 0
    exact ⟨⟨entries, read⟩, _, readCandidates_eq read⟩

/-- The file `a` of an archive is listed. -/
theorem listing_reads_oneFile : ∃ t, init (oneFile [0x61] (by decide) (by decide)) = .ok t ∧
    listed t [0x2F] = [([0x61], 1)] ∧ ReadBack t [0x2F] (List.replicate 4096 0) := by
  obtain ⟨data, built⟩ := init_oneFile [0x61] (by decide) (by decide) (by decide)
  exact ⟨_, built, listed_single (by decide) data,
    ((listing_reads (.init built)).1 [0x2F] _ List.length_replicate).1⟩

/-- A file whose name is the byte `0xFF` is listed with that name and read with another. -/
theorem listing_replaces : ∃ t buf entries, Reachable t ∧
    sysListdir t [0x2F] (List.replicate 4096 0) = .ok (buf, 1) ∧
    readEntries buf 1 0 = .ok entries ∧ children t [] = [([0xFF], 1)] ∧
    entries.map (fun e => (Files.asBytes (String.ofList e.name), e.size)) ≠ children t [] := by
  obtain ⟨data, built⟩ := init_oneFile [0xFF] (by decide) (by decide) (by decide)
  have found : children ⟨[⟨[0xFF], data, 1⟩], 0⟩ [] = [([0xFF], 1)] :=
    children_single (by decide) data
  obtain ⟨buf, written, _, _, read, _⟩ := readBack (Reachable.init built).bounded [0x2F]
    (List.length_replicate (n := 4096) (a := (0 : UInt8)))
  rw [listed_single (by decide) data] at written read
  refine ⟨_, buf, _, .init built, written, read, found, ?_⟩
  rw [found]
  have replaced : lossy [0xFF] = ['\uFFFD'] := rfl
  have first : Files.asBytes (String.ofList (lossy [0xFF])) ≠ [0xFF] := by
    rw [replaced, Pkg.asBytes_ofList]
    decide
  intro same
  exact first (congrArg Prod.fst (List.cons.inj same).1)

end RustyPenguin.Ramfs
