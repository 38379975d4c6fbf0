import Mathlib.Algebra.Ring.Int.Defs
import Mathlib.Algebra.Ring.Nat
import RustyPenguin.Foundation.Members
import Mathlib.Logic.Function.Basic

/-!
# The desktop's store

The two system calls by which the desktop keeps files on the disk, with the lengths packed into one
argument as both sides have them. The kernel's file system is a map from names to contents that
honours every write.

The field for the length of the data has sixteen bits, so what is stored of a file is its part below
its length modulo `65536` (`persistWrite_eq`).
-/

set_option autoImplicit false

namespace RustyPenguin.Files

abbrev Bytes := List UInt8

/-- `as_bytes`. -/
def asBytes (s : String) : Bytes := s.toByteArray.data.toList

/-- `core::str::from_utf8`. -/
def fromUtf8 (bytes : Bytes) : Option String := String.fromUTF8? ⟨bytes.toArray⟩

theorem asBytes_injective : Function.Injective asBytes := by
  intro s t same
  refine String.toByteArray_inj.mp (ByteArray.ext ?_)
  exact Array.toList_inj.mp same

@[simp] theorem asBytes_inj {s t : String} : asBytes s = asBytes t ↔ s = t :=
  Function.Injective.eq_iff asBytes_injective

@[simp] theorem length_asBytes (s : String) : (asBytes s).length = s.utf8ByteSize := rfl

@[simp] theorem fromUtf8_asBytes (s : String) : fromUtf8 (asBytes s) = some s := by
  rw [fromUtf8, asBytes, Array.toArray_toList, String.fromUTF8?, dif_pos s.isValidUTF8]
  rfl

/-! ## The system calls -/

/-- The kernel's files. -/
abbrev Disk := Bytes → Option Bytes

/-- `name_len | (data_len << 16)`. -/
def packLengths (nameLen dataLen : Nat) : BitVec 64 :=
  BitVec.ofNat 64 nameLen ||| BitVec.ofNat 64 dataLen <<< 16

def nameLength (packed : BitVec 64) : Nat := (packed &&& 0xFF).toNat

def dataLength (packed : BitVec 64) : Nat := (packed >>> 16 &&& 0xFFFF).toNat

/-- `sys_disk_write`. -/
def sysDiskWrite (disk : Disk) (name : Bytes) (packed : BitVec 64) (data : Bytes) :
    Option Disk :=
  if nameLength packed = 0 ∨ 51 < nameLength packed ∨ 65536 < dataLength packed then none
  else some (Function.update disk (name.take (nameLength packed))
    (some (data.take (dataLength packed))))

/-- `sys_disk_read`: what is copied out. -/
def sysDiskRead (disk : Disk) (name : Bytes) (packed : BitVec 64) : Option Bytes :=
  if nameLength packed = 0 ∨ 51 < nameLength packed ∨ dataLength packed = 0 then none
  else (disk (name.take (nameLength packed))).map fun content => content.take (dataLength packed)

/-- `persist_write`, with the disk after it. -/
def persistWrite (disk : Disk) (name : String) (data : Bytes) : Disk × Bool :=
  if name = "" ∨ 51 < (asBytes name).length ∨ data = [] then (disk, false)
  else
    match sysDiskWrite disk (asBytes name) (packLengths (asBytes name).length data.length) data with
    | some disk => (disk, true)
    | none => (disk, false)

/-- `persist_read`: the bytes that are there to use. -/
def persistRead (disk : Disk) (name : String) (outLen : Nat) : Bytes :=
  if name = "" ∨ 51 < (asBytes name).length ∨ outLen = 0 then []
  else (sysDiskRead disk (asBytes name) (packLengths (asBytes name).length outLen)).getD []

/-! ## What is stored -/

section Packing

variable {nameLen dataLen : Nat}

theorem toNat_packLengths (short : nameLen < 2 ^ 16) :
    (packLengths nameLen dataLen).toNat = dataLen % 2 ^ 48 * 2 ^ 16 + nameLen := by
  have low : nameLen < 2 ^ 64 := Nat.lt_of_lt_of_le short (Nat.pow_le_pow_right (by decide) (by decide))
  have whole : dataLen % 2 ^ 64 * 2 ^ 16 % 2 ^ 64 = dataLen % 2 ^ 48 * 2 ^ 16 := by
    omega
  have joined := Nat.shiftLeft_add_eq_or_of_lt short (dataLen % 2 ^ 48)
  rw [Nat.shiftLeft_eq] at joined
  rw [packLengths, BitVec.toNat_or, BitVec.toNat_shiftLeft, BitVec.toNat_ofNat, BitVec.toNat_ofNat,
    Nat.mod_eq_of_lt low, Nat.shiftLeft_eq, whole, Nat.or_comm]
  exact joined.symm

theorem nameLength_packLengths (short : nameLen < 256) :
    nameLength (packLengths nameLen dataLen) = nameLen := by
  rw [nameLength, BitVec.toNat_and, toNat_packLengths (by omega)]
  show (_ &&& (2 ^ 8 - 1)) = _
  rw [Nat.and_two_pow_sub_one_eq_mod]
  omega

theorem dataLength_packLengths (short : nameLen < 2 ^ 16) :
    dataLength (packLengths nameLen dataLen) = dataLen % 65536 := by
  rw [dataLength, BitVec.toNat_and, BitVec.toNat_ushiftRight, toNat_packLengths short,
    Nat.shiftRight_eq_div_pow]
  show (_ &&& (2 ^ 16 - 1)) = _
  rw [Nat.and_two_pow_sub_one_eq_mod]
  omega

end Packing

/-- A name that the store takes. -/
def Storable (name : String) : Prop := name ≠ "" ∧ (asBytes name).length ≤ 51

instance (name : String) : Decidable (Storable name) := inferInstanceAs (Decidable (_ ∧ _))

section Stored

variable {disk : Disk} {name other : String} {data : Bytes}

theorem length_asBytes_pos (storable : Storable name) : (asBytes name).length ≠ 0 := by
  intro none
  refine storable.1 (asBytes_injective ?_)
  rw [List.eq_nil_of_length_eq_zero none]
  rfl

theorem nameLength_of_storable (storable : Storable name) (dataLen : Nat) :
    nameLength (packLengths (asBytes name).length dataLen) = (asBytes name).length :=
  nameLength_packLengths (Nat.lt_of_le_of_lt storable.2 (by decide))

theorem dataLength_of_storable (storable : Storable name) (dataLen : Nat) :
    dataLength (packLengths (asBytes name).length dataLen) = dataLen % 65536 :=
  dataLength_packLengths (Nat.lt_of_le_of_lt storable.2 (by decide))

/-- **What a write stores**: the data below its length modulo `65536`. -/
theorem persistWrite_eq (storable : Storable name) (full : data ≠ []) :
    persistWrite disk name data =
      (Function.update disk (asBytes name) (some (data.take (data.length % 65536))), true) := by
  have fits : ¬65536 < data.length % 65536 := by omega
  have taken : ¬(name = "" ∨ 51 < (asBytes name).length ∨ data = []) := by
    rintro (empty | long | empty)
    · exact storable.1 empty
    · exact absurd storable.2 (Nat.not_le.mpr long)
    · exact full empty
  rw [persistWrite, if_neg taken, sysDiskWrite, nameLength_of_storable storable,
    dataLength_of_storable storable, if_neg ?_, List.take_length]
  rintro (empty | long | long)
  · exact length_asBytes_pos storable empty
  · exact absurd storable.2 (Nat.not_le.mpr long)
  · exact fits long

/-- The buffer of a reload holds `65535` bytes. -/
theorem persistRead_eq (storable : Storable name) :
    persistRead disk name 65535 =
      ((disk (asBytes name)).map fun content => content.take 65535).getD [] := by
  have taken : ¬(name = "" ∨ 51 < (asBytes name).length ∨ 65535 = 0) := by
    rintro (empty | long | empty)
    · exact storable.1 empty
    · exact absurd storable.2 (Nat.not_le.mpr long)
    · cases empty
  rw [persistRead, if_neg taken, sysDiskRead, nameLength_of_storable storable,
    dataLength_of_storable storable, if_neg ?_, List.take_length]
  rintro (empty | long | empty)
  · exact length_asBytes_pos storable empty
  · exact absurd storable.2 (Nat.not_le.mpr long)
  · cases empty

end Stored

end RustyPenguin.Files
