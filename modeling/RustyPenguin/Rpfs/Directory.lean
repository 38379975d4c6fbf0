import RustyPenguin.Rpfs.Device

/-!
# The directory table

The directory is one buffer of `dirEntries` slots of `entrySz` bytes. A slot holds a
NUL-padded path, a kind byte, a ternary state byte (`+1` active, `0` empty, `-1`
deleted) and three little-endian words: the first block of the file's extent, its
size in bytes and the number of blocks allocated to it.

`Directory.setEntry` rewrites a slot byte by byte; `Directory.entry` reads a slot
back as a record. The module's result is that the byte-level table behaves as a
table of records: setting a slot changes that record to what was given and no other
(`entry_setEntry`), and marking a slot deleted changes its state alone
(`entry_tombstone`). What later modules say about `find` and `freeSlot` goes through
these records.
-/

set_option autoImplicit false

namespace RustyPenguin.Rpfs

open Buffer

/-- Bytes in a directory slot. -/
def entrySz : Nat := 128
/-- Slots in the directory. -/
def dirEntries : Nat := 2048
/-- The longest path that fits an entry. -/
def maxName : Nat := 111
/-- The largest file, in bytes. -/
def maxFile : Nat := 2 ^ 20
/-- Sectors the staging buffer holds. -/
def scratchSectors : Nat := 64

def kFile : UInt8 := 0
def kDir : UInt8 := 1

/-- The path separator `/`. -/
def slash : UInt8 := 47

/-! ## Words -/

/-- The four little-endian bytes of a word. -/
def u32Bytes (v : Nat) : List UInt8 :=
  [UInt8.ofNat v, UInt8.ofNat (v / 2 ^ 8), UInt8.ofNat (v / 2 ^ 16), UInt8.ofNat (v / 2 ^ 24)]

def rdU32 (b : List UInt8) (o : Nat) : Nat :=
  (b.getD o 0).toNat + (b.getD (o + 1) 0).toNat * 2 ^ 8 + (b.getD (o + 2) 0).toNat * 2 ^ 16 +
    (b.getD (o + 3) 0).toNat * 2 ^ 24

def wrU32 (b : List UInt8) (o v : Nat) : List UInt8 := blit b o (u32Bytes v)

@[simp] theorem length_u32Bytes (v : Nat) : (u32Bytes v).length = 4 := rfl

theorem rdU32_lt (b : List UInt8) (o : Nat) : rdU32 b o < 2 ^ 32 := by
  have byte := fun k => UInt8.toNat_lt (b.getD k 0)
  have b0 := byte o
  have b1 := byte (o + 1)
  have b2 := byte (o + 2)
  have b3 := byte (o + 3)
  rw [rdU32]
  omega

/-- Reading a word where one was written gives it back, cut to 32 bits. -/
theorem rdU32_of_bytes {b : List UInt8} {o v : Nat}
    (written : ∀ k < 4, b[o + k]? = (u32Bytes v)[k]?) : rdU32 b o = v % 2 ^ 32 := by
  have byte : ∀ k < 4, b.getD (o + k) 0 = (u32Bytes v).getD k 0 := fun k small => by
    rw [List.getD_eq_getElem?_getD, List.getD_eq_getElem?_getD, written k small]
  have b0 := byte 0 (by decide)
  have b1 := byte 1 (by decide)
  have b2 := byte 2 (by decide)
  have b3 := byte 3 (by decide)
  rw [rdU32, b1, b2, b3, show b.getD o 0 = _ from b0]
  simp only [u32Bytes, List.getD_cons_zero, List.getD_cons_succ, UInt8.toNat_ofNat']
  omega

/-- A word is determined by its four bytes. -/
theorem rdU32_congr {b b' : List UInt8} {o o' : Nat} (same : ∀ k < 4, b'[o' + k]? = b[o + k]?) :
    rdU32 b' o' = rdU32 b o := by
  have byte : ∀ k < 4, b'.getD (o' + k) 0 = b.getD (o + k) 0 := fun k small => by
    rw [List.getD_eq_getElem?_getD, List.getD_eq_getElem?_getD, same k small]
  have b0 := byte 0 (by decide)
  rw [rdU32, rdU32, byte 1 (by decide), byte 2 (by decide), byte 3 (by decide),
    show b'.getD o' 0 = b.getD o 0 from b0]

/-! ## The table -/

/-- The in-RAM directory. Its length is that of the table and never changes. -/
structure Directory where
  bytes : List UInt8
  length_eq : bytes.length = dirEntries * entrySz

namespace Directory

/-- The table of empty slots. -/
def zero : Directory := ⟨List.replicate (dirEntries * entrySz) 0, List.length_replicate⟩

/-- The bytes of slot `i`. -/
def ent (dir : Directory) (i : Fin dirEntries) : List UInt8 := slice dir.bytes (i * entrySz) entrySz

def eTrit (dir : Directory) (i : Fin dirEntries) : Int8 := ((dir.ent i).getD 112 0).toInt8
def eKind (dir : Directory) (i : Fin dirEntries) : UInt8 := (dir.ent i).getD 111 0

/-- The path in slot `i`: its bytes up to the first NUL. -/
def eName (dir : Directory) (i : Fin dirEntries) : List UInt8 :=
  (slice (dir.ent i) 0 maxName).takeWhile (· != 0)

def eStart (dir : Directory) (i : Fin dirEntries) : Nat := rdU32 (dir.ent i) 116
def eSize (dir : Directory) (i : Fin dirEntries) : Nat := rdU32 (dir.ent i) 120
def eNblocks (dir : Directory) (i : Fin dirEntries) : Nat := rdU32 (dir.ent i) 124

end Directory

/-- A slot read as a record. -/
structure Entry where
  name : List UInt8
  kind : UInt8
  trit : Int8
  start : Nat
  size : Nat
  nblocks : Nat
  deriving DecidableEq

namespace Entry

/-- The slot is in use. -/
def Active (e : Entry) : Prop := e.trit = 1

/-- The slot is in use by a directory. -/
def IsDir (e : Entry) : Prop := e.Active ∧ e.kind = kDir

/-- The slot is in use by something other than a directory. -/
def IsFile (e : Entry) : Prop := e.Active ∧ e.kind ≠ kDir

/-- Block `b` belongs to the entry's extent. -/
def Owns (e : Entry) (b : Nat) : Prop := e.start ≤ b ∧ b < e.start + e.nblocks

instance (e : Entry) : Decidable e.Active := inferInstanceAs (Decidable (_ = _))
instance (e : Entry) : Decidable e.IsDir := inferInstanceAs (Decidable (_ ∧ _))
instance (e : Entry) : Decidable e.IsFile := inferInstanceAs (Decidable (_ ∧ _))
instance (e : Entry) (b : Nat) : Decidable (e.Owns b) := inferInstanceAs (Decidable (_ ∧ _))

end Entry

namespace Directory

/-- Slot `i` of the table as a record. -/
def entry (dir : Directory) (i : Fin dirEntries) : Entry :=
  ⟨dir.eName i, dir.eKind i, dir.eTrit i, dir.eStart i, dir.eSize i, dir.eNblocks i⟩

end Directory

/-! ## Setting an entry -/

/-- What `set_entry` does to the bytes of the table: zero the slot at `off`, then lay down
the name, the kind, the state and the three words. -/
def setEntryBytes (bytes : List UInt8) (off : Nat) (name : List UInt8) (kind : UInt8)
    (trit : Int8) (start size nblocks : Nat) : List UInt8 :=
  let d := blit bytes off (List.replicate entrySz 0)
  let n := min name.length maxName
  let d := blit d off (name.take n)
  let d := d.set (off + 111) kind
  let d := d.set (off + 112) trit.toUInt8
  let d := wrU32 d (off + 116) start
  let d := wrU32 d (off + 120) size
  wrU32 d (off + 124) nblocks

/-- The NUL-padded name field. -/
def nameField (name : List UInt8) : List UInt8 :=
  name.take maxName ++ List.replicate (maxName - name.length) 0

/-- The fields behind the name. -/
def tailFields (kind trit : UInt8) (start size nblocks : List UInt8) : List UInt8 :=
  [kind, trit, 0, 0, 0] ++ start ++ size ++ nblocks

/-- The bytes of a slot after `set_entry`. -/
def entryBytes (name : List UInt8) (kind : UInt8) (trit : Int8) (start size nblocks : Nat) :
    List UInt8 :=
  nameField name ++
    tailFields kind trit.toUInt8 (u32Bytes start) (u32Bytes size) (u32Bytes nblocks)

@[simp] theorem length_nameField (name : List UInt8) : (nameField name).length = 111 := by
  simp only [nameField, List.length_append, List.length_take, List.length_replicate, maxName]
  omega

@[simp] theorem length_entryBytes (name : List UInt8) (kind : UInt8) (trit : Int8)
    (start size nblocks : Nat) :
    (entryBytes name kind trit start size nblocks).length = entrySz := by
  rw [entryBytes, List.length_append, length_nameField]
  rfl

/-- A zeroed slot with the name laid down. -/
theorem blit_name (name : List UInt8) :
    blit (List.replicate entrySz 0) 0 (name.take (min name.length maxName)) =
      nameField name ++ List.replicate 17 0 := by
  have cut : name.take (min name.length maxName) = name.take maxName := by
    rw [Nat.min_comm, ← List.take_take, List.take_length]
  rw [cut, blit_zero, List.drop_replicate, nameField, List.append_assoc, ← List.replicate_add,
    List.length_take]
  congr 2
  simp only [entrySz, maxName]
  omega

/-- Writing behind the name field of a slot. -/
theorem blit_behind_name (name back src : List UInt8) (p : Nat) :
    blit (nameField name ++ back) (111 + p) src = nameField name ++ blit back p src := by
  have := blit_append_right (nameField name) back src p
  rwa [length_nameField] at this

/-- **`set_entry` writes one slot.** Its field-by-field writes amount to one copy of the
slot's new bytes. -/
theorem setEntryBytes_eq {bytes : List UInt8} {off : Nat} (fits : off + entrySz ≤ bytes.length)
    (name : List UInt8) (kind : UInt8) (trit : Int8) (start size nblocks : Nat) :
    setEntryBytes bytes off name kind trit start size nblocks =
      blit bytes off (entryBytes name kind trit start size nblocks) := by
  have slotLength : ∀ back : List UInt8, back.length = 17 →
      (nameField name ++ back).length = 128 := fun back size => by
    rw [List.length_append, length_nameField, size]
  -- a write of `src` behind the name of the slot just written
  have behind : ∀ (back src : List UInt8) (p : Nat), back.length = 17 → p + src.length ≤ 17 →
      blit (blit bytes off (nameField name ++ back)) (off + (111 + p)) src =
        blit bytes off (nameField name ++ blit back p src) := fun back src p size inside => by
    rw [blit_blit (by rw [slotLength back size]; exact fits) (by rw [slotLength back size]; omega),
      blit_behind_name]
  have setBehind : ∀ (back : List UInt8) (a : UInt8) (p : Nat), back.length = 17 → p < 17 →
      (blit bytes off (nameField name ++ back)).set (off + (111 + p)) a =
        blit bytes off (nameField name ++ blit back p [a]) := fun back a p size inside => by
    have inBuffer : off + (111 + p) < (blit bytes off (nameField name ++ back)).length := by
      rw [length_blit (by rw [slotLength back size]; exact fits)]
      simp only [entrySz] at fits
      omega
    rw [set_eq_blit inBuffer, behind back [a] p size (by simpa using inside)]
  have named : blit (blit bytes off (List.replicate entrySz 0)) off
      (name.take (min name.length maxName)) =
        blit bytes off (nameField name ++ List.replicate 17 0) := by
    have inner : 0 + (name.take (min name.length maxName)).length ≤
        (List.replicate entrySz (0 : UInt8)).length := by
      simp only [List.length_take, List.length_replicate, entrySz, maxName]
      omega
    have outer : off + (List.replicate entrySz (0 : UInt8)).length ≤ bytes.length := by
      rw [List.length_replicate]
      exact fits
    have merged := blit_blit outer inner
    rw [← blit_name, ← merged, Nat.add_zero]
  simp only [setEntryBytes, wrU32]
  rw [named, setBehind _ kind 0 rfl (by decide), setBehind _ trit.toUInt8 1 rfl (by decide),
    behind _ (u32Bytes start) 5 rfl (by simp), behind _ (u32Bytes size) 9 rfl (by simp),
    behind _ (u32Bytes nblocks) 13 rfl (by simp)]
  rfl

theorem slot_fits {i : Nat} (inside : i < dirEntries) :
    i * entrySz + entrySz ≤ dirEntries * entrySz := by
  simp only [entrySz, dirEntries] at inside ⊢
  omega

namespace Directory

def setEntry (dir : Directory) (i : Fin dirEntries) (name : List UInt8) (kind : UInt8)
    (trit : Int8) (start size nblocks : Nat) : Directory where
  bytes := setEntryBytes dir.bytes (i * entrySz) name kind trit start size nblocks
  length_eq := by
    have fits : i * entrySz + entrySz ≤ dir.bytes.length := dir.length_eq ▸ slot_fits i.isLt
    rw [setEntryBytes_eq fits, length_blit (by rw [length_entryBytes]; exact fits), dir.length_eq]

/-- Mark slot `i` deleted: its state byte becomes `-1`, everything else stays. -/
def tombstone (dir : Directory) (i : Fin dirEntries) : Directory where
  bytes := dir.bytes.set (i * entrySz + 112) (-1 : Int8).toUInt8
  length_eq := by rw [List.length_set, dir.length_eq]

theorem slot_fits (dir : Directory) (i : Fin dirEntries) :
    i * entrySz + entrySz ≤ dir.bytes.length :=
  dir.length_eq ▸ Rpfs.slot_fits i.isLt

/-- Different slots do not overlap. -/
theorem slots_apart {i j : Fin dirEntries} (different : j ≠ i) :
    (j : Nat) * entrySz + entrySz ≤ i * entrySz ∨ i * entrySz + entrySz ≤ j * entrySz := by
  have apart : (j : Nat) ≠ i := fun same => different (Fin.ext same)
  simp only [entrySz]
  omega

theorem bytes_setEntry (dir : Directory) (i : Fin dirEntries) (name : List UInt8)
    (kind : UInt8) (trit : Int8) (start size nblocks : Nat) :
    (dir.setEntry i name kind trit start size nblocks).bytes =
      blit dir.bytes (i * entrySz) (entryBytes name kind trit start size nblocks) :=
  setEntryBytes_eq (dir.slot_fits i) name kind trit start size nblocks

theorem ent_setEntry_self (dir : Directory) (i : Fin dirEntries) (name : List UInt8)
    (kind : UInt8) (trit : Int8) (start size nblocks : Nat) :
    (dir.setEntry i name kind trit start size nblocks).ent i =
      entryBytes name kind trit start size nblocks := by
  have fits : i * entrySz + (entryBytes name kind trit start size nblocks).length ≤
      dir.bytes.length := by
    rw [length_entryBytes]
    exact dir.slot_fits i
  have written := slice_blit_self fits
  rwa [length_entryBytes, ← bytes_setEntry] at written

theorem ent_setEntry_of_ne (dir : Directory) {i j : Fin dirEntries} (different : j ≠ i)
    (name : List UInt8) (kind : UInt8) (trit : Int8) (start size nblocks : Nat) :
    (dir.setEntry i name kind trit start size nblocks).ent j = dir.ent j := by
  rw [ent, ent, bytes_setEntry]
  refine slice_blit_of_disjoint ?_ ?_
  · rw [length_entryBytes]
    exact dir.slot_fits i
  · rw [length_entryBytes]
    exact slots_apart different

theorem length_ent (dir : Directory) (i : Fin dirEntries) : (dir.ent i).length = entrySz :=
  length_slice (dir.slot_fits i)

theorem ent_tombstone_self (dir : Directory) (i : Fin dirEntries) :
    (dir.tombstone i).ent i = (dir.ent i).set 112 (-1 : Int8).toUInt8 := by
  have fits := dir.slot_fits i
  apply List.ext_getElem?
  intro k
  have window : k < entrySz → i * entrySz + k < dir.bytes.length := fun inside => by omega
  rw [ent, ent, tombstone, getElem?_slice, List.getElem?_set, List.getElem?_set, getElem?_slice,
    length_slice fits]
  by_cases here : 112 = k
  · subst here
    have inside : 112 < entrySz := by decide
    rw [if_pos inside, if_pos rfl, if_pos (window inside), if_pos rfl, if_pos inside]
  · rw [if_neg here, if_neg (show ¬(i * entrySz + 112 = i * entrySz + k) by omega)]

theorem ent_tombstone_of_ne (dir : Directory) {i j : Fin dirEntries} (different : j ≠ i) :
    (dir.tombstone i).ent j = dir.ent j := by
  have apart := slots_apart different
  rw [ent, ent, tombstone]
  refine slice_congr fun k low high => ?_
  rw [List.getElem?_set_ne]
  simp only [entrySz] at apart low high ⊢
  omega

end Directory

/-! ## Reading an entry back -/

/-- A path without NUL bytes. -/
def NulFree (name : List UInt8) : Prop := ∀ c ∈ name, c ≠ 0

instance (name : List UInt8) : Decidable (NulFree name) :=
  inferInstanceAs (Decidable (∀ c ∈ name, c ≠ 0))

/-- The path a slot gives back after `name` was put in it: the part before the first NUL
among the bytes that fit. -/
def storedName (name : List UInt8) : List UInt8 := (name.take maxName).takeWhile (· != 0)

theorem takeWhile_nonzero_append_zeros (l : List UInt8) (n : Nat) :
    (l ++ List.replicate n 0).takeWhile (· != 0) = l.takeWhile (· != 0) := by
  induction l with
  | nil => cases n <;> rfl
  | cons c l ih =>
      by_cases nul : c = 0
      · subst nul
        rfl
      · have keep : (c != 0) = true := by simpa using nul
        simp only [List.cons_append, List.takeWhile_cons, keep, if_true, ih]

theorem nulFree_storedName (name : List UInt8) : NulFree (storedName name) := fun c member => by
  simpa using List.mem_takeWhile_imp member

theorem storedName_of_nulFree {name : List UInt8} (nulFree : NulFree name)
    (fits : name.length ≤ maxName) : storedName name = name := by
  rw [storedName, List.take_of_length_le fits]
  exact List.takeWhile_eq_self_iff.mpr fun c member => by simpa using nulFree c member

section Fields

variable (name : List UInt8) (kind : UInt8) (trit : Int8) (start size nblocks : Nat)

/-- A byte behind the name field. -/
theorem getElem?_entryBytes (p : Nat) :
    (entryBytes name kind trit start size nblocks)[111 + p]? =
      (tailFields kind trit.toUInt8 (u32Bytes start) (u32Bytes size) (u32Bytes nblocks))[p]? := by
  rw [entryBytes, List.getElem?_append_right (by rw [length_nameField]; omega), length_nameField,
    Nat.add_sub_cancel_left]

theorem name_entryBytes :
    (slice (entryBytes name kind trit start size nblocks) 0 maxName).takeWhile (· != 0) =
      storedName name := by
  have front : slice (entryBytes name kind trit start size nblocks) 0 maxName = nameField name := by
    have := length_nameField name
    rw [slice, List.drop_zero, entryBytes, show maxName = (nameField name).length from this.symm,
      List.take_left]
  rw [front, nameField, takeWhile_nonzero_append_zeros, storedName]

theorem kind_entryBytes : (entryBytes name kind trit start size nblocks).getD 111 0 = kind := by
  rw [List.getD_eq_getElem?_getD, getElem?_entryBytes (p := 0)]
  rfl

theorem trit_entryBytes :
    ((entryBytes name kind trit start size nblocks).getD 112 0).toInt8 = trit := by
  rw [List.getD_eq_getElem?_getD, getElem?_entryBytes (p := 1)]
  exact Int8.toInt8_toUInt8 trit

theorem start_entryBytes :
    rdU32 (entryBytes name kind trit start size nblocks) 116 = start % 2 ^ 32 :=
  rdU32_of_bytes fun k small => by
    rw [show 116 + k = 111 + (5 + k) by omega, getElem?_entryBytes]
    match k, small with
    | 0, _ | 1, _ | 2, _ | 3, _ => rfl

theorem size_entryBytes :
    rdU32 (entryBytes name kind trit start size nblocks) 120 = size % 2 ^ 32 :=
  rdU32_of_bytes fun k small => by
    rw [show 120 + k = 111 + (9 + k) by omega, getElem?_entryBytes]
    match k, small with
    | 0, _ | 1, _ | 2, _ | 3, _ => rfl

theorem nblocks_entryBytes :
    rdU32 (entryBytes name kind trit start size nblocks) 124 = nblocks % 2 ^ 32 :=
  rdU32_of_bytes fun k small => by
    rw [show 124 + k = 111 + (13 + k) by omega, getElem?_entryBytes]
    match k, small with
    | 0, _ | 1, _ | 2, _ | 3, _ => rfl

end Fields

namespace Directory

/-- A slot's record is determined by its bytes. -/
theorem entry_congr {dir dir' : Directory} {i j : Fin dirEntries} (same : dir'.ent j = dir.ent i) :
    dir'.entry j = dir.entry i := by
  simp only [entry, eName, eKind, eTrit, eStart, eSize, eNblocks, same]

/-- **Setting a slot sets its record** and leaves the others. -/
theorem entry_setEntry (dir : Directory) (i j : Fin dirEntries) (name : List UInt8) (kind : UInt8)
    (trit : Int8) (start size nblocks : Nat) :
    (dir.setEntry i name kind trit start size nblocks).entry j =
      if j = i then
        ⟨storedName name, kind, trit, start % 2 ^ 32, size % 2 ^ 32, nblocks % 2 ^ 32⟩
      else dir.entry j := by
  split
  · rename_i here
    subst here
    have written := ent_setEntry_self dir j name kind trit start size nblocks
    simp only [entry, eName, eKind, eTrit, eStart, eSize, eNblocks, written, name_entryBytes,
      kind_entryBytes, trit_entryBytes, start_entryBytes, size_entryBytes, nblocks_entryBytes]
  · rename_i elsewhere
    exact entry_congr (ent_setEntry_of_ne dir elsewhere name kind trit start size nblocks)

/-- Marking a slot deleted changes its state alone. -/
theorem entry_tombstone (dir : Directory) (i j : Fin dirEntries) :
    (dir.tombstone i).entry j =
      if j = i then { dir.entry i with trit := -1 } else dir.entry j := by
  split
  · rename_i here
    subst here
    have written := ent_tombstone_self dir j
    have inside : 112 < (dir.ent j).length := by
      rw [length_ent]
      decide
    have byteElse : ∀ k, k ≠ 112 →
        ((dir.tombstone j).ent j)[k]? = (dir.ent j)[k]? := fun k other => by
      rw [written, List.getElem?_set_ne (Ne.symm other)]
    have nameSame : slice ((dir.tombstone j).ent j) 0 maxName = slice (dir.ent j) 0 maxName := by
      refine slice_congr fun k _ high => byteElse k ?_
      simp only [maxName] at high
      omega
    have kindSame : ((dir.tombstone j).ent j).getD 111 0 = (dir.ent j).getD 111 0 := by
      rw [List.getD_eq_getElem?_getD, List.getD_eq_getElem?_getD, byteElse 111 (by decide)]
    have tritNow : ((dir.tombstone j).ent j).getD 112 0 = (-1 : Int8).toUInt8 := by
      rw [written, List.getD_eq_getElem?_getD, List.getElem?_set_self inside]
      rfl
    have wordSame : ∀ o, 112 < o →
        rdU32 ((dir.tombstone j).ent j) o = rdU32 (dir.ent j) o := fun o behind =>
      rdU32_congr fun k _ => byteElse (o + k) (by omega)
    simp only [entry, eName, eKind, eTrit, eStart, eSize, eNblocks, nameSame, kindSame, tritNow,
      wordSame 116 (by decide), wordSame 120 (by decide), wordSame 124 (by decide)]
    rfl
  · rename_i elsewhere
    exact entry_congr (ent_tombstone_of_ne dir elsewhere)

theorem nulFree_name (dir : Directory) (i : Fin dirEntries) : NulFree (dir.entry i).name :=
  fun c member => by simpa using List.mem_takeWhile_imp member

theorem start_lt (dir : Directory) (i : Fin dirEntries) : (dir.entry i).start < 2 ^ 32 :=
  rdU32_lt _ _

theorem nblocks_lt (dir : Directory) (i : Fin dirEntries) : (dir.entry i).nblocks < 2 ^ 32 :=
  rdU32_lt _ _

/-- Every slot of the zeroed table is empty. -/
theorem trit_zero (i : Fin dirEntries) : (zero.entry i).trit = 0 := by
  have fits := zero.slot_fits i
  have cleared : zero.ent i = List.replicate entrySz 0 :=
    slice_replicate (zero.length_eq ▸ fits)
  simp only [entry, eTrit, cleared]
  rw [List.getD_eq_getElem?_getD, List.getElem?_replicate_of_lt (by decide)]
  rfl

/-! ## Looking entries up -/

/-- The first active slot with exactly this path. -/
def find (dir : Directory) (name : List UInt8) : Option (Fin dirEntries) :=
  Fin.find? fun i => dir.eTrit i == 1 && dir.eName i == name

/-- The first empty or deleted slot. -/
def freeSlot (dir : Directory) : Option (Fin dirEntries) :=
  Fin.find? fun i => decide (dir.eTrit i ≤ 0)

theorem find_eq_some {dir : Directory} {name : List UInt8} {i : Fin dirEntries} :
    dir.find name = some i ↔
      ((dir.entry i).Active ∧ (dir.entry i).name = name) ∧
        ∀ j < i, ¬((dir.entry j).Active ∧ (dir.entry j).name = name) := by
  rw [find, Fin.find?_eq_some_iff]
  simp only [Bool.and_eq_true, beq_iff_eq, Bool.and_eq_false_imp, beq_eq_false_iff_ne, ne_eq,
    not_and]
  rfl

theorem find_eq_none {dir : Directory} {name : List UInt8} :
    dir.find name = none ↔ ∀ i, ¬((dir.entry i).Active ∧ (dir.entry i).name = name) := by
  rw [find, Fin.find?_eq_none_iff]
  simp only [Bool.and_eq_false_imp, beq_iff_eq, beq_eq_false_iff_ne, ne_eq, not_and]
  rfl

theorem freeSlot_eq_some {dir : Directory} {i : Fin dirEntries} :
    dir.freeSlot = some i ↔ (dir.entry i).trit ≤ 0 ∧ ∀ j < i, ¬(dir.entry j).trit ≤ 0 := by
  rw [freeSlot, Fin.find?_eq_some_iff]
  simp only [decide_eq_true_eq, decide_eq_false_iff_not]
  rfl

theorem freeSlot_eq_none {dir : Directory} :
    dir.freeSlot = none ↔ ∀ i, ¬(dir.entry i).trit ≤ 0 := by
  rw [freeSlot, Fin.find?_eq_none_iff]
  simp only [decide_eq_false_iff_not]
  rfl

-- Nothing is gained by running a lookup over all the slots or a write byte by byte.
attribute [irreducible] find freeSlot setEntry tombstone

/-- A name in use is found. -/
theorem exists_find {dir : Directory} {name : List UInt8} {i : Fin dirEntries}
    (active : (dir.entry i).Active) (named : (dir.entry i).name = name) :
    ∃ j, dir.find name = some j := by
  cases found : dir.find name with
  | none => exact absurd ⟨active, named⟩ (find_eq_none.1 found i)
  | some j => exact ⟨j, rfl⟩

end Directory

/-- A slot in use is not free. -/
theorem Entry.Active.not_free {e : Entry} (active : e.Active) : ¬e.trit ≤ 0 := by
  rw [Active] at active
  rw [active]
  decide

end RustyPenguin.Rpfs
