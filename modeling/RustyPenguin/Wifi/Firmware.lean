import RustyPenguin.Crypto.LittleEndian
import RustyPenguin.Foundation.Checked

/-!
# Firmware images

The parser of the images that an Intel card is started with. An image is a header of 88 bytes and
a stream of records, each with a type, a length and as many bytes, padded to a multiple of four.

The walk over the stream stops where fewer bytes are left than a record starts with, so a stream
that is cut inside the start of a record, or inside the padding of the last one, is not told from a
whole one: `parse_iff`.
-/

set_option autoImplicit false

namespace RustyPenguin.Wifi

open Checked
open Crypto (leBytes)

abbrev Bytes : Type := List UInt8

/-! ## The parser -/

/-- What is learned about an image. -/
structure FwInfo where
  magicOk : Bool
  ver : UInt32
  build : UInt32
  human : Bytes
  tlvCount : UInt32
  secCount : UInt32
  instBytes : UInt32
  dataBytes : UInt32
  largestSection : UInt32
  apiFlags : UInt32
  capaFlags : UInt32
  fwVersion : Bytes
  fwVersionLen : Nat
  truncated : Bool

def FwInfo.empty : FwInfo where
  magicOk := false
  ver := 0
  build := 0
  human := List.replicate 64 0
  tlvCount := 0
  secCount := 0
  instBytes := 0
  dataBytes := 0
  largestSection := 0
  apiFlags := 0
  capaFlags := 0
  fwVersion := List.replicate 48 0
  fwVersionLen := 0
  truncated := false

def ucodeMagic : UInt32 := 0x0a4c5749

def headerLen : Nat := 88

def rdU32 (b : Bytes) (off : Nat) : Checked UInt32 := do
  let b0 ← index b off
  let b1 ← index b (off + 1)
  let b2 ← index b (off + 2)
  let b3 ← index b (off + 3)
  pure (b0.toUInt32 ||| b1.toUInt32 <<< 8 ||| b2.toUInt32 <<< 16 ||| b3.toUInt32 <<< 24)

/-- The types of the records that are sections. -/
def IsSection (ttype : UInt32) : Prop := ttype = 19 ∨ ttype = 20 ∨ ttype = 21

instance (ttype : UInt32) : Decidable (IsSection ttype) :=
  inferInstanceAs (Decidable (_ ∨ _ ∨ _))

/-- A section, less the offset it starts with. -/
def addSection (fw : FwInfo) (ttype payload : UInt32) : FwInfo :=
  { fw with
    secCount := fw.secCount + 1
    instBytes := if ttype = 19 then fw.instBytes + payload else fw.instBytes
    largestSection := if payload > fw.largestSection then payload else fw.largestSection }

/-- What a record adds to what is known, by its type. -/
def tally (fw : FwInfo) (ttype : UInt32) (tlen : Nat) (data : Bytes) : Checked FwInfo :=
  if ttype = 1 ∨ ttype = 3 then
    pure { fw with instBytes := fw.instBytes + UInt32.ofNat tlen }
  else if ttype = 2 ∨ ttype = 4 then
    pure { fw with dataBytes := fw.dataBytes + UInt32.ofNat tlen }
  else if IsSection ttype then pure (addSection fw ttype (UInt32.ofNat (tlen - 4)))
  else if ttype = 29 then
    if tlen ≥ 4 then do
      let flags ← rdU32 data 0
      pure { fw with apiFlags := flags }
    else pure fw
  else if ttype = 30 then
    if tlen ≥ 4 then do
      let flags ← rdU32 data 0
      pure { fw with capaFlags := flags }
    else pure fw
  else if ttype = 36 then do
    let n := min tlen (fw.fwVersion.length - 1)
    let text ← sub data 0 n
    let fwVersion ← copyTo fw.fwVersion 0 n text
    pure { fw with fwVersion := fwVersion, fwVersionLen := n }
  else pure fw

/-- `(n + 3) & !3`. -/
def padded (n : Nat) : Nat := (n + 3) / 4 * 4

theorem le_padded (n : Nat) : n ≤ padded n := by
  rw [padded]
  omega

/-- The walk over the records, from an offset on. -/
def walk (blob : Bytes) (off : Nat) (fw : FwInfo) : Checked FwInfo :=
  if off + 8 ≤ blob.length then do
    let ttype ← rdU32 blob off
    let tlen ← rdU32 blob (off + 4)
    if off + 8 + tlen.toNat > blob.length then pure { fw with truncated := true }
    else do
      let data ← sub blob (off + 8) (off + 8 + tlen.toNat)
      let fw ← tally { fw with tlvCount := fw.tlvCount + 1 } ttype tlen.toNat data
      walk blob (off + 8 + padded tlen.toNat) fw
  else pure fw
termination_by blob.length - off
decreasing_by
  have _ := le_padded tlen.toNat
  omega

/-- An image without sections has its instructions and its data for them. -/
def countBlobs (fw : FwInfo) : FwInfo :=
  if fw.secCount = 0 then
    let fw := if fw.instBytes > 0 then { fw with secCount := fw.secCount + 1 } else fw
    if fw.dataBytes > 0 then { fw with secCount := fw.secCount + 1 } else fw
  else fw

def parse (blob : Bytes) : Checked (Option FwInfo) :=
  if blob.length < headerLen then pure none
  else do
    let zero ← rdU32 blob 0
    let magic ← rdU32 blob 4
    if ¬(zero = 0 ∧ magic = ucodeMagic) then pure (some .empty)
    else do
      let human ← sub blob 8 72
      let ver ← rdU32 blob 72
      let build ← rdU32 blob 76
      let fw ← walk blob headerLen
        { FwInfo.empty with magicOk := true, human := human, ver := ver, build := build }
      pure (some (countBlobs fw))

/-! ## Records and streams -/

/-- A record: its type and its bytes. -/
structure Tlv where
  ttype : UInt32
  data : Bytes

namespace Tlv

/-- The record without padding. -/
def bytes (t : Tlv) : Bytes :=
  leBytes t.ttype ++ (leBytes (UInt32.ofNat t.data.length) ++ t.data)

/-- Its bytes of instructions. -/
def inst (t : Tlv) : Nat :=
  if t.ttype = 1 ∨ t.ttype = 3 then t.data.length
  else if t.ttype = 19 then t.data.length - 4 else 0

/-- Its bytes of data. -/
def plain (t : Tlv) : Nat := if t.ttype = 2 ∨ t.ttype = 4 then t.data.length else 0

/-- Its size as a section. -/
def size (t : Tlv) : Nat := if IsSection t.ttype then t.data.length - 4 else 0

end Tlv

/-- A stream is a list of records, each padded. -/
inductive Padded : List Tlv → Bytes → Prop
  | nil : Padded [] []
  | cons {t : Tlv} {pad : Bytes} {ts : List Tlv} {rest : Bytes}
    (fits : t.data.length < 2 ^ 32) (aligned : t.data.length + pad.length = padded t.data.length)
    (more : Padded ts rest) : Padded (t :: ts) (t.bytes ++ (pad ++ rest))

/-- A record at the end of an image that has not all its padding. -/
def Unpadded (t : Tlv) (rest : Bytes) : Prop :=
  t.data.length < 2 ^ 32 ∧ ∃ pad, rest = t.bytes ++ pad ∧
    t.data.length + pad.length < padded t.data.length

/-- The records of a list lie in a stream, one behind the other. -/
def LieIn (ts : List Tlv) (stream : Bytes) : Prop :=
  ∃ front body rest, stream = body ++ rest ∧ Padded front body ∧
    (ts = front ∨ ∃ t, Unpadded t rest ∧ ts = front ++ [t])

/-- The number of sections, or of legacy blobs where there are none. -/
def sectionCount (ts : List Tlv) : UInt32 :=
  let modern := UInt32.ofNat (ts.countP fun t => IsSection t.ttype)
  if modern = 0 then
    (if UInt32.ofNat (ts.map Tlv.inst).sum > 0 then 1 else 0) +
      if UInt32.ofNat (ts.map Tlv.plain).sum > 0 then 1 else 0
  else modern

/-- The inventory of an image is that of a list of records. -/
structure Inventory (fw : FwInfo) (ts : List Tlv) : Prop where
  records : fw.tlvCount = UInt32.ofNat ts.length
  sections : fw.secCount = sectionCount ts
  inst : fw.instBytes = UInt32.ofNat (ts.map Tlv.inst).sum
  plain : fw.dataBytes = UInt32.ofNat (ts.map Tlv.plain).sum
  largest : fw.largestSection.toNat = (ts.map Tlv.size).foldl max 0

/-- An image with a header of its own. -/
def IsImage (blob : Bytes) : Prop :=
  headerLen ≤ blob.length ∧ Crypto.leWord blob 0 = 0 ∧ Crypto.leWord blob 4 = ucodeMagic

instance (blob : Bytes) : Decidable (IsImage blob) :=
  inferInstanceAs (Decidable (_ ∧ _ ∧ _))

/-- The records of an image. -/
def stream (blob : Bytes) : Bytes := blob.drop headerLen

/-- What is expected of the parser: it ends without a fault, what it counts lies in the image, the
inventory of a list of records is theirs, and anything else is flagged. -/
def Meets (blob : Bytes) : Prop :=
  (∃ answer, parse blob = .ok answer) ∧
    (IsImage blob → ∃ fw, parse blob = .ok (some fw) ∧
      (∃ ts, LieIn ts (stream blob) ∧ Inventory fw ts) ∧
      (∀ ts, Padded ts (stream blob) → Inventory fw ts) ∧
      (fw.truncated = true ↔ ¬∃ ts, Padded ts (stream blob)))

/-- Behind the records stands the start of another one, or the last one lacks padding. -/
def CutShort (blob : Bytes) : Prop :=
  IsImage blob ∧ ∃ ts body rest, stream blob = body ++ rest ∧ Padded ts body ∧
    (0 < rest.length ∧ rest.length < 8 ∨ ∃ t, Unpadded t rest)

/-! ## Words -/

theorem index_byte {b : Bytes} {i : Nat} (inside : i < b.length) :
    index b i = .ok (Crypto.byte b i) := by
  rw [index_eq_ok, Crypto.byte, List.getElem?_eq_getElem inside, List.getD_eq_getElem _ _ inside]

theorem rdU32_word {b : Bytes} {off : Nat} (inside : off + 4 ≤ b.length) :
    rdU32 b off = .ok (Crypto.leWord b off) := by
  rw [rdU32, bind_of_ok (index_byte (by omega)), bind_of_ok (index_byte (by omega)),
    bind_of_ok (index_byte (by omega)), bind_of_ok (index_byte (by omega))]
  rfl

theorem length_leBytes (x : UInt32) : (leBytes x).length = 4 := rfl

theorem leWord_leBytes (x : UInt32) (rest : Bytes) : Crypto.leWord (leBytes x ++ rest) 0 = x := by
  have word := Crypto.toNat_leWord (leBytes x ++ rest) 0
  have number := Crypto.leNumber_leBytes x
  simp only [leBytes, Crypto.leNumber_cons, Crypto.leNumber_nil] at number
  refine UInt32.toNat_inj.mp (word.trans ?_)
  rw [← number]
  show x.toUInt8.toNat + 2 ^ 8 * (x >>> 8).toUInt8.toNat + 2 ^ 16 * (x >>> 16).toUInt8.toNat +
    2 ^ 24 * (x >>> 24).toUInt8.toNat = _
  omega

theorem leWord_append (front back : Bytes) (i : Nat) :
    Crypto.leWord (front ++ back) (front.length + i) = Crypto.leWord back i := by
  rw [Crypto.leWord, Crypto.leWord, Nat.add_assoc, Nat.add_assoc, Nat.add_assoc,
    Crypto.byte_append_right, Crypto.byte_append_right, Crypto.byte_append_right,
    Crypto.byte_append_right]

theorem leBytes_leWord (b0 b1 b2 b3 : UInt8) :
    leBytes (Crypto.leWord [b0, b1, b2, b3] 0) = [b0, b1, b2, b3] := by
  have word : (Crypto.leWord [b0, b1, b2, b3] 0).toNat =
      b0.toNat + 2 ^ 8 * b1.toNat + 2 ^ 16 * b2.toNat + 2 ^ 24 * b3.toNat :=
    Crypto.toNat_leWord [b0, b1, b2, b3] 0
  generalize Crypto.leWord [b0, b1, b2, b3] 0 = x at word
  have n0 := b0.toNat_lt
  have n1 := b1.toNat_lt
  have n2 := b2.toNat_lt
  have n3 := b3.toNat_lt
  have t0 : x.toUInt8.toNat = x.toNat % 256 := UInt32.toNat_toUInt8 x
  have t1 : (x >>> 8).toUInt8.toNat = x.toNat / 2 ^ 8 % 256 :=
    Crypto.toNat_toUInt8_shr x 8 (by decide)
  have t2 : (x >>> 16).toUInt8.toNat = x.toNat / 2 ^ 16 % 256 :=
    Crypto.toNat_toUInt8_shr x 16 (by decide)
  have t3 : (x >>> 24).toUInt8.toNat = x.toNat / 2 ^ 24 % 256 :=
    Crypto.toNat_toUInt8_shr x 24 (by decide)
  have s0 : x.toUInt8 = b0 := UInt8.toNat_inj.mp (by omega)
  have s1 : (x >>> 8).toUInt8 = b1 := UInt8.toNat_inj.mp (by omega)
  have s2 : (x >>> 16).toUInt8 = b2 := UInt8.toNat_inj.mp (by omega)
  have s3 : (x >>> 24).toUInt8 = b3 := UInt8.toNat_inj.mp (by omega)
  rw [leBytes, s0, s1, s2, s3]

theorem leBytes_inj {x y : UInt32} (same : leBytes x = leBytes y) : x = y := by
  have number := Crypto.leNumber_leBytes x
  rw [same, Crypto.leNumber_leBytes] at number
  exact UInt32.toNat_inj.mp number.symm

/-- Eight bytes are a type and a length. -/
theorem exists_header {rest : Bytes} (long : 8 ≤ rest.length) :
    ∃ ttype len more, rest = leBytes ttype ++ (leBytes len ++ more) := by
  match rest, long with
  | b0 :: b1 :: b2 :: b3 :: b4 :: b5 :: b6 :: b7 :: more, _ =>
    refine ⟨Crypto.leWord [b0, b1, b2, b3] 0, Crypto.leWord [b4, b5, b6, b7] 0, more, ?_⟩
    rw [leBytes_leWord, leBytes_leWord]
    rfl

/-! ## One record -/

/-- What the parser knows behind some records. -/
structure Known (fw : FwInfo) (ts : List Tlv) : Prop where
  records : fw.tlvCount = UInt32.ofNat ts.length
  sections : fw.secCount = UInt32.ofNat (ts.countP fun t => IsSection t.ttype)
  inst : fw.instBytes = UInt32.ofNat (ts.map Tlv.inst).sum
  plain : fw.dataBytes = UInt32.ofNat (ts.map Tlv.plain).sum
  largest : fw.largestSection.toNat = (ts.map Tlv.size).foldl max 0
  version : fw.fwVersion.length = 48

section Record

variable {fw fw' : FwInfo} {seen : List Tlv} {t : Tlv}

theorem Known.push (known : Known fw seen) (records : fw'.tlvCount = fw.tlvCount + 1)
    (sections : fw'.secCount = fw.secCount + if IsSection t.ttype then 1 else 0)
    (inst : fw'.instBytes = fw.instBytes + UInt32.ofNat t.inst)
    (plain : fw'.dataBytes = fw.dataBytes + UInt32.ofNat t.plain)
    (largest : fw'.largestSection.toNat = max fw.largestSection.toNat t.size)
    (version : fw'.fwVersion.length = 48) : Known fw' (seen ++ [t]) where
  records := by
    rw [records, known.records, List.length_append]
    exact (UInt32.ofNat_add _ _).symm
  sections := by
    rw [sections, known.sections, List.countP_append, UInt32.ofNat_add, List.countP_singleton]
    by_cases isSection : IsSection t.ttype <;> simp [isSection]
  inst := by
    rw [inst, known.inst, List.map_append, List.sum_append, UInt32.ofNat_add, List.map_singleton,
      List.sum_singleton]
  plain := by
    rw [plain, known.plain, List.map_append, List.sum_append, UInt32.ofNat_add,
      List.map_singleton, List.sum_singleton]
  largest := by
    rw [largest, known.largest, List.map_append, List.foldl_append]
    rfl
  version := version

/-- A record of a type that adds nothing. -/
theorem Known.pass (known : Known fw seen) (notCode : ¬(t.ttype = 1 ∨ t.ttype = 3))
    (notData : ¬(t.ttype = 2 ∨ t.ttype = 4)) (notSection : ¬IsSection t.ttype)
    (records : fw'.tlvCount = fw.tlvCount + 1) (sections : fw'.secCount = fw.secCount)
    (inst : fw'.instBytes = fw.instBytes) (plain : fw'.dataBytes = fw.dataBytes)
    (largest : fw'.largestSection = fw.largestSection) (version : fw'.fwVersion.length = 48) :
    Known fw' (seen ++ [t]) := by
  have notRun : ¬t.ttype = 19 := fun is => notSection (.inl is)
  refine known.push records ?_ ?_ ?_ ?_ version
  · rw [if_neg notSection, sections]
    exact (UInt32.add_zero _).symm
  · rw [Tlv.inst, if_neg notCode, if_neg notRun, inst]
    exact (UInt32.add_zero _).symm
  · rw [Tlv.plain, if_neg notData, plain]
    exact (UInt32.add_zero _).symm
  · rw [Tlv.size, if_neg notSection, largest]
    exact (Nat.max_zero _).symm

theorem toNat_larger (a b : UInt32) : (if b > a then b else a).toNat = max a.toNat b.toNat := by
  by_cases larger : b > a
  · rw [if_pos larger, Nat.max_eq_right (Nat.le_of_lt (UInt32.lt_iff_toNat_lt.mp larger))]
  · rw [if_neg larger, Nat.max_eq_left]
    exact Nat.le_of_not_lt fun more => larger (UInt32.lt_iff_toNat_lt.mpr more)

/-- **One record is entered** into the inventory, without a fault. -/
theorem tally_known (known : Known fw seen) (fits : t.data.length < 2 ^ 32) :
    ∃ fw', tally { fw with tlvCount := fw.tlvCount + 1 } t.ttype t.data.length t.data = .ok fw' ∧
      Known fw' (seen ++ [t]) ∧ fw'.truncated = fw.truncated := by
  rw [tally]
  by_cases code : t.ttype = 1 ∨ t.ttype = 3
  · have notData : ¬(t.ttype = 2 ∨ t.ttype = 4) := by
      rcases code with is | is <;> rw [is] <;> decide
    have notSection : ¬IsSection t.ttype := by rcases code with is | is <;> rw [is] <;> decide
    refine ⟨_, if_pos code, known.push rfl ?_ ?_ ?_ ?_ known.version, rfl⟩
    · rw [if_neg notSection]
      exact (UInt32.add_zero _).symm
    · rw [Tlv.inst, if_pos code]
    · rw [Tlv.plain, if_neg notData]
      exact (UInt32.add_zero _).symm
    · rw [Tlv.size, if_neg notSection]
      exact (Nat.max_zero _).symm
  rw [if_neg code]
  by_cases data : t.ttype = 2 ∨ t.ttype = 4
  · have notRun : ¬t.ttype = 19 := by rcases data with is | is <;> rw [is] <;> decide
    have notSection : ¬IsSection t.ttype := by rcases data with is | is <;> rw [is] <;> decide
    refine ⟨_, if_pos data, known.push rfl ?_ ?_ ?_ ?_ known.version, rfl⟩
    · rw [if_neg notSection]
      exact (UInt32.add_zero _).symm
    · rw [Tlv.inst, if_neg code, if_neg notRun]
      exact (UInt32.add_zero _).symm
    · rw [Tlv.plain, if_pos data]
    · rw [Tlv.size, if_neg notSection]
      exact (Nat.max_zero _).symm
  rw [if_neg data]
  by_cases isSection : IsSection t.ttype
  · have payload : (UInt32.ofNat (t.data.length - 4)).toNat = t.data.length - 4 :=
      UInt32.toNat_ofNat_of_lt' (Nat.lt_of_le_of_lt (Nat.sub_le _ _) fits)
    refine ⟨_, if_pos isSection, known.push rfl ?_ ?_ ?_ ?_ known.version, rfl⟩
    · rw [if_pos isSection]
      rfl
    · rw [Tlv.inst, if_neg code, addSection]
      by_cases run : t.ttype = 19
      · rw [if_pos run, if_pos run]
      · rw [if_neg run, if_neg run]
        exact (UInt32.add_zero _).symm
    · rw [Tlv.plain, if_neg data]
      exact (UInt32.add_zero _).symm
    · rw [Tlv.size, if_pos isSection]
      exact (toNat_larger _ _).trans (congrArg (max _) payload)
  rw [if_neg isSection]
  by_cases api : t.ttype = 29
  · rw [if_pos api]
    by_cases long : t.data.length ≥ 4
    · rw [if_pos long, bind_of_ok (rdU32_word long)]
      exact ⟨_, rfl, known.pass code data isSection rfl rfl rfl rfl rfl known.version, rfl⟩
    · rw [if_neg long]
      exact ⟨_, rfl, known.pass code data isSection rfl rfl rfl rfl rfl known.version, rfl⟩
  rw [if_neg api]
  by_cases capa : t.ttype = 30
  · rw [if_pos capa]
    by_cases long : t.data.length ≥ 4
    · rw [if_pos long, bind_of_ok (rdU32_word long)]
      exact ⟨_, rfl, known.pass code data isSection rfl rfl rfl rfl rfl known.version, rfl⟩
    · rw [if_neg long]
      exact ⟨_, rfl, known.pass code data isSection rfl rfl rfl rfl rfl known.version, rfl⟩
  rw [if_neg capa]
  by_cases version : t.ttype = 36
  · rw [if_pos version]
    have size : fw.fwVersion.length = 48 := known.version
    have text : sub t.data 0 (min t.data.length (fw.fwVersion.length - 1)) =
        .ok (t.data.take (min t.data.length (fw.fwVersion.length - 1))) :=
      sub_eq_ok.mpr ⟨Nat.zero_le _, Nat.min_le_left _ _, rfl⟩
    have room : min t.data.length (fw.fwVersion.length - 1) ≤ fw.fwVersion.length := by omega
    have copied : copyTo fw.fwVersion 0 (min t.data.length (fw.fwVersion.length - 1))
        (t.data.take (min t.data.length (fw.fwVersion.length - 1))) = .ok _ :=
      if_pos ⟨Nat.zero_le _, room, by rw [List.length_take]; omega⟩
    dsimp only
    rw [bind_of_ok text, bind_of_ok copied]
    refine ⟨_, rfl, known.pass code data isSection rfl rfl rfl rfl rfl ?_, rfl⟩
    simp only [List.length_append, List.length_take, List.length_drop]
    omega
  · rw [if_neg version]
    exact ⟨_, rfl, known.pass code data isSection rfl rfl rfl rfl rfl known.version, rfl⟩

end Record

/-! ## The walk -/

section Walk

variable {fw : FwInfo} {seen ts : List Tlv} {blob front rest : Bytes}

theorem walk_short (short : blob.length < front.length + 8) :
    walk blob front.length fw = .ok fw := by
  rw [walk, if_neg (Nat.not_le.mpr short)]
  rfl

/-- What the walk does at a type and a length. -/
theorem walk_header {ttype len : UInt32} {more : Bytes}
    (whole : blob = front ++ (leBytes ttype ++ (leBytes len ++ more))) :
    walk blob front.length fw =
      if more.length < len.toNat then pure { fw with truncated := true }
      else tally { fw with tlvCount := fw.tlvCount + 1 } ttype len.toNat (more.take len.toNat) >>=
        walk blob (front.length + 8 + padded len.toNat) := by
  have size : blob.length = front.length + 8 + more.length := by
    rw [whole, List.length_append, List.length_append, List.length_append, length_leBytes,
      length_leBytes]
    omega
  have first : Crypto.leWord blob front.length = ttype := by
    rw [whole]
    exact (leWord_append front _ 0).trans (leWord_leBytes ttype _)
  have second : Crypto.leWord blob (front.length + 4) = len := by
    rw [whole, leWord_append]
    exact (leWord_append (leBytes ttype) _ 0).trans (leWord_leBytes len _)
  have behind : blob.drop (front.length + 8) = more := by
    have again : blob = (front ++ (leBytes ttype ++ leBytes len)) ++ more := by
      rw [whole, List.append_assoc, List.append_assoc]
    rw [again]
    exact List.drop_left' (List.length_append ..)
  rw [walk, if_pos (by omega), bind_of_ok (rdU32_word (by omega)),
    bind_of_ok (rdU32_word (by omega)), first, second]
  by_cases cut : more.length < len.toNat
  · rw [if_pos cut, if_pos (by omega)]
  · have data : sub blob (front.length + 8) (front.length + 8 + len.toNat) =
        .ok (more.take len.toNat) := by
      rw [sub_eq_ok, behind, Nat.add_sub_cancel_left]
      exact ⟨by omega, by omega, rfl⟩
    rw [if_neg cut, if_neg (by omega), bind_of_ok data]

/-- The walk enters a record and goes on behind it. -/
theorem walk_record {t : Tlv} {behind : Bytes} (fits : t.data.length < 2 ^ 32)
    (known : Known fw seen) (whole : blob = front ++ (t.bytes ++ behind)) :
    ∃ fw', walk blob front.length fw =
        walk blob (front.length + 8 + padded t.data.length) fw' ∧
      Known fw' (seen ++ [t]) ∧ fw'.truncated = fw.truncated := by
  obtain ⟨fw', entered, known', same⟩ := tally_known known fits
  have length : (UInt32.ofNat t.data.length).toNat = t.data.length :=
    UInt32.toNat_ofNat_of_lt' fits
  have split : blob = front ++ (leBytes t.ttype ++ (leBytes (UInt32.ofNat t.data.length) ++
      (t.data ++ behind))) := by
    rw [whole, Tlv.bytes, List.append_assoc, List.append_assoc]
  have inside : ¬(t.data ++ behind).length < t.data.length := by
    rw [List.length_append]
    omega
  refine ⟨fw', ?_, known', same⟩
  rw [walk_header split, length, if_neg inside, List.take_left, bind_of_ok entered]

/-- **The walk over padded records** enters them all. -/
theorem walk_padded (front : Bytes) {body : Bytes} (whole : Padded ts body) (known : Known fw seen) :
    ∃ fw', walk (front ++ (body ++ rest)) front.length fw =
        walk (front ++ (body ++ rest)) (front ++ body).length fw' ∧
      Known fw' (seen ++ ts) ∧ fw'.truncated = fw.truncated := by
  induction whole generalizing front fw seen with
  | nil =>
    rw [List.append_nil, List.append_nil]
    exact ⟨fw, rfl, known, rfl⟩
  | @cons t pad ts body fits aligned _ ih =>
    have split : front ++ (t.bytes ++ (pad ++ body) ++ rest) =
        front ++ (t.bytes ++ (pad ++ (body ++ rest))) := by
      rw [List.append_assoc, List.append_assoc]
    obtain ⟨mid, entered, known', same⟩ := walk_record fits known split
    have next : (front ++ (t.bytes ++ pad)).length = front.length + 8 + padded t.data.length := by
      rw [← aligned, List.length_append, List.length_append, Tlv.bytes, List.length_append,
        List.length_append, length_leBytes, length_leBytes]
      omega
    have again : front ++ (t.bytes ++ (pad ++ body) ++ rest) =
        (front ++ (t.bytes ++ pad)) ++ (body ++ rest) := by
      rw [List.append_assoc, List.append_assoc, List.append_assoc, List.append_assoc]
    have place : front ++ (t.bytes ++ (pad ++ body)) = front ++ (t.bytes ++ pad) ++ body := by
      rw [List.append_assoc, List.append_assoc]
    obtain ⟨last, ran, known'', same'⟩ := ih (front ++ (t.bytes ++ pad)) known'
    refine ⟨last, ?_, ?_, same'.trans same⟩
    · rw [entered, ← next, again, ran, place]
    · rwa [List.append_assoc] at known''

/-- Behind a record without all its padding the walk stops. -/
theorem walk_unpadded (front : Bytes) {t : Tlv} (last : Unpadded t rest) (known : Known fw seen) :
    ∃ fw', walk (front ++ rest) front.length fw = .ok fw' ∧ Known fw' (seen ++ [t]) ∧
      fw'.truncated = fw.truncated := by
  obtain ⟨fits, pad, rfl, lacking⟩ := last
  obtain ⟨fw', entered, known', same⟩ := walk_record fits known (rfl : front ++ (t.bytes ++ pad) = _)
  refine ⟨fw', ?_, known', same⟩
  rw [entered, walk, if_neg]
  · rfl
  · rw [List.length_append, List.length_append, Tlv.bytes, List.length_append,
      List.length_append, length_leBytes, length_leBytes]
    omega

end Walk

/-! ## Taking a stream apart -/

/-- What can stand behind padded records that is no padded record. -/
inductive Ending : Bytes → Prop
  | whole : Ending []
  | start {rest : Bytes} (some : 0 < rest.length) (short : rest.length < 8) : Ending rest
  | unpadded {t : Tlv} {rest : Bytes} (last : Unpadded t rest) : Ending rest
  | beyond {ttype len : UInt32} {more : Bytes} (cut : more.length < len.toNat) :
    Ending (leBytes ttype ++ (leBytes len ++ more))

/-- Every stream is a list of padded records and an ending. -/
theorem exists_ending (n : Nat) : ∀ {s : Bytes}, s.length ≤ n →
    ∃ ts body rest, s = body ++ rest ∧ Padded ts body ∧ Ending rest := by
  induction n with
  | zero =>
    intro s none
    refine ⟨[], [], [], List.eq_nil_of_length_eq_zero (by omega), .nil, .whole⟩
  | succ n ih =>
    intro s size
    by_cases long : 8 ≤ s.length
    · obtain ⟨ttype, len, more, rfl⟩ := exists_header long
      by_cases cut : more.length < len.toNat
      · exact ⟨[], [], _, rfl, .nil, .beyond cut⟩
      · have data : (more.take len.toNat).length = len.toNat := by
          rw [List.length_take]
          omega
        have fits : (more.take len.toNat).length < 2 ^ 32 := by
          rw [data]
          exact len.toNat_lt
        have record : leBytes ttype ++ (leBytes len ++ more) =
            (Tlv.mk ttype (more.take len.toNat)).bytes ++ more.drop len.toNat := by
          rw [Tlv.bytes, data, UInt32.ofNat_toNat, List.append_assoc, List.append_assoc,
            List.take_append_drop]
        have forward := le_padded len.toNat
        by_cases room : padded len.toNat ≤ more.length
        · have rest : (more.drop (padded len.toNat)).length ≤ n := by
            rw [List.length_append, List.length_append, length_leBytes, length_leBytes] at size
            rw [List.length_drop]
            omega
          obtain ⟨ts, body, rest, split, whole, ending⟩ := ih rest
          have pad : more.drop len.toNat =
              (more.drop len.toNat).take (padded len.toNat - len.toNat) ++ (body ++ rest) := by
            have behind := List.take_append_drop (padded len.toNat - len.toNat)
              (more.drop len.toNat)
            rw [List.drop_drop, Nat.add_sub_cancel' forward] at behind
            rw [← split]
            exact behind.symm
          have records := @Padded.cons ⟨ttype, more.take len.toNat⟩
            ((more.drop len.toNat).take (padded len.toNat - len.toNat)) ts body fits
          refine ⟨_, _, rest, ?_, records ?_ whole, ending⟩
          · rw [record]
            nth_rewrite 1 [pad]
            rw [List.append_assoc, List.append_assoc]
          · rw [data, List.length_take, List.length_drop]
            omega
        · refine ⟨[], [], _, rfl, .nil, .unpadded (t := ⟨ttype, more.take len.toNat⟩)
            ⟨fits, more.drop len.toNat, record, ?_⟩⟩
          rw [data, List.length_drop]
          omega
    · by_cases none : s = []
      · exact ⟨[], [], [], none, .nil, .whole⟩
      · exact ⟨[], [], s, rfl, .nil, .start (List.length_pos_iff.mpr none) (by omega)⟩

theorem bytes_inj {t t' : Tlv} {more more' : Bytes} (fits : t.data.length < 2 ^ 32)
    (fits' : t'.data.length < 2 ^ 32) (same : t.bytes ++ more = t'.bytes ++ more') :
    t.data.length = t'.data.length ∧ more = more' := by
  rw [Tlv.bytes, Tlv.bytes, List.append_assoc, List.append_assoc, List.append_assoc,
    List.append_assoc] at same
  obtain ⟨-, same⟩ := List.append_inj same rfl
  obtain ⟨length, same⟩ := List.append_inj same rfl
  have lengths := congrArg UInt32.toNat (leBytes_inj length)
  rw [UInt32.toNat_ofNat_of_lt' fits, UInt32.toNat_ofNat_of_lt' fits'] at lengths
  exact ⟨lengths, (List.append_inj same lengths).2⟩

/-- What is behind padded records of a padded stream is padded. -/
theorem Padded.behind {front ts : List Tlv} {body rest : Bytes} (first : Padded front body)
    (whole : Padded ts (body ++ rest)) : ∃ more, Padded more rest := by
  induction first generalizing ts with
  | nil => exact ⟨ts, whole⟩
  | @cons t pad front body fits aligned _ ih =>
    rw [List.append_assoc] at whole
    generalize same : t.bytes ++ (pad ++ body ++ rest) = s at whole
    cases whole with
    | nil =>
      have size := congrArg List.length same
      simp [Tlv.bytes, length_leBytes] at size
    | @cons t' pad' _ rest' fits' aligned' more =>
      obtain ⟨lengths, same⟩ := bytes_inj fits fits' same
      rw [List.append_assoc] at same
      obtain ⟨-, same⟩ := List.append_inj same (by rw [lengths] at aligned; omega)
      exact ih (same ▸ more)

/-- A padded stream that is not empty holds all the padding of its first record. -/
theorem not_padded_start {ts : List Tlv} {rest : Bytes} (some : 0 < rest.length)
    (short : rest.length < 8) : ¬Padded ts rest := by
  intro whole
  cases whole with
  | nil => exact absurd some (Nat.lt_irrefl 0)
  | cons =>
    rw [List.length_append, Tlv.bytes, List.length_append, List.length_append, length_leBytes,
      length_leBytes] at short
    omega

theorem not_padded_unpadded {ts : List Tlv} {t : Tlv} {rest : Bytes} (last : Unpadded t rest) :
    ¬Padded ts rest := by
  obtain ⟨fits, pad, same, lacking⟩ := last
  intro whole
  cases whole with
  | nil =>
    have size := congrArg List.length same
    simp [Tlv.bytes, length_leBytes] at size
    omega
  | cons fits' aligned' more =>
    obtain ⟨lengths, same⟩ := bytes_inj fits' fits same
    rw [← same, List.length_append, ← lengths] at lacking
    omega

theorem not_padded_beyond {ts : List Tlv} {ttype len : UInt32} {more : Bytes}
    (cut : more.length < len.toNat) : ¬Padded ts (leBytes ttype ++ (leBytes len ++ more)) := by
  intro whole
  generalize same : leBytes ttype ++ (leBytes len ++ more) = s at whole
  cases whole with
  | nil => cases same
  | @cons t pad _ rest fits aligned _ =>
    rw [Tlv.bytes, List.append_assoc, List.append_assoc] at same
    obtain ⟨-, same⟩ := List.append_inj same rfl
    obtain ⟨length, same⟩ := List.append_inj same rfl
    rw [leBytes_inj length, UInt32.toNat_ofNat_of_lt' fits, same, List.length_append] at cut
    omega

/-! ## The parser on an image -/

theorem countBlobs_inventory {fw : FwInfo} {ts : List Tlv} (known : Known fw ts) :
    Inventory (countBlobs fw) ts ∧ (countBlobs fw).truncated = fw.truncated := by
  by_cases modern : fw.secCount = 0
  · have count : sectionCount ts =
        (if fw.instBytes > 0 then 1 else 0) + if fw.dataBytes > 0 then 1 else 0 := by
      rw [sectionCount, known.inst, known.plain]
      exact if_pos (known.sections.symm.trans modern)
    rw [countBlobs, if_pos modern]
    by_cases code : fw.instBytes > 0
    · rw [if_pos code] at count
      by_cases data : fw.dataBytes > 0
      · rw [if_pos data] at count
        simp only [if_pos code, if_pos data]
        refine ⟨⟨known.records, ?_, known.inst, known.plain, known.largest⟩, trivial⟩
        rw [count, modern]
        rfl
      · rw [if_neg data] at count
        simp only [if_pos code, if_neg data]
        refine ⟨⟨known.records, ?_, known.inst, known.plain, known.largest⟩, trivial⟩
        rw [count, modern]
        rfl
    · rw [if_neg code] at count
      by_cases data : fw.dataBytes > 0
      · rw [if_pos data] at count
        simp only [if_neg code, if_pos data]
        refine ⟨⟨known.records, ?_, known.inst, known.plain, known.largest⟩, trivial⟩
        rw [count, modern]
      · rw [if_neg data] at count
        simp only [if_neg code, if_neg data]
        refine ⟨⟨known.records, ?_, known.inst, known.plain, known.largest⟩, trivial⟩
        rw [count, modern]
        rfl
  · rw [countBlobs, if_neg modern]
    refine ⟨⟨known.records, ?_, known.inst, known.plain, known.largest⟩, rfl⟩
    rw [sectionCount, ← known.sections]
    exact (if_neg modern).symm

/-- The parser on an image: the walk, and the legacy blobs. -/
theorem parse_image {blob : Bytes} (image : IsImage blob) :
    ∃ fw, Known fw [] ∧ fw.truncated = false ∧
      parse blob = (walk blob headerLen fw >>= fun fw => pure (some (countBlobs fw))) := by
  obtain ⟨long, zero, magic⟩ := image
  have room : 88 ≤ blob.length := long
  have human : sub blob 8 72 = .ok ((blob.drop 8).take 64) :=
    sub_eq_ok.mpr ⟨by decide, by omega, rfl⟩
  refine ⟨{ FwInfo.empty with
    magicOk := true, human := (blob.drop 8).take 64, ver := Crypto.leWord blob 72,
    build := Crypto.leWord blob 76 }, ⟨rfl, rfl, rfl, rfl, rfl, rfl⟩, rfl, ?_⟩
  rw [parse, if_neg (Nat.not_lt.mpr long), bind_of_ok (rdU32_word (by omega)),
    bind_of_ok (rdU32_word (by omega)), zero, magic, if_neg (not_not.mpr ⟨rfl, rfl⟩),
    bind_of_ok human, bind_of_ok (rdU32_word (by omega)), bind_of_ok (rdU32_word (by omega))]

theorem parse_other {blob : Bytes} (other : ¬IsImage blob) : ∃ answer, parse blob = .ok answer := by
  rw [parse]
  by_cases short : blob.length < headerLen
  · exact ⟨_, if_pos short⟩
  · have room : 88 ≤ blob.length := Nat.le_of_not_lt short
    have bad : ¬(Crypto.leWord blob 0 = 0 ∧ Crypto.leWord blob 4 = ucodeMagic) :=
      fun good => other ⟨room, good⟩
    rw [if_neg short, bind_of_ok (rdU32_word (by omega)), bind_of_ok (rdU32_word (by omega)),
      if_pos bad]
    exact ⟨_, rfl⟩

/-- Behind padded records the walk goes on with all of them entered. -/
theorem parse_behind {blob body rest : Bytes} {ts : List Tlv} (image : IsImage blob)
    (split : stream blob = body ++ rest) (records : Padded ts body) :
    ∃ front fw, Known fw ts ∧ fw.truncated = false ∧
      parse blob =
        (walk (front ++ rest) front.length fw >>= fun fw => pure (some (countBlobs fw))) := by
  obtain ⟨fw, known, clear, parsed⟩ := parse_image image
  have whole : blob = blob.take headerLen ++ (body ++ rest) := by
    rw [← split]
    exact (List.take_append_drop headerLen blob).symm
  have start : (blob.take headerLen).length = headerLen := by
    rw [List.length_take]
    exact Nat.min_eq_left image.1
  obtain ⟨mid, ran, known', same⟩ :=
    walk_padded (blob.take headerLen) records known
  rw [← whole, start] at ran
  refine ⟨blob.take headerLen ++ body, mid, known', same.trans clear, ?_⟩
  rw [parsed, ran, List.append_assoc, ← whole]

/-- Where the stream ends behind padded records, in the start of a record or in its padding, the
walk ends and flags nothing. -/
theorem parse_unflagged {blob body rest : Bytes} {ts : List Tlv} (image : IsImage blob)
    (split : stream blob = body ++ rest) (records : Padded ts body)
    (short : rest.length < 8 ∨ ∃ t, Unpadded t rest) :
    ∃ fw counted, parse blob = .ok (some (countBlobs fw)) ∧ Known fw counted ∧
      LieIn counted (stream blob) ∧ (rest.length < 8 → counted = ts) ∧ fw.truncated = false := by
  obtain ⟨front, mid, known, clear, parsed⟩ := parse_behind image split records
  by_cases few : rest.length < 8
  · have ends : walk (front ++ rest) front.length mid = .ok mid :=
      walk_short (by rw [List.length_append]; omega)
    refine ⟨mid, ts, ?_, known, ⟨ts, body, rest, split, records, .inl rfl⟩, fun _ => rfl, clear⟩
    rw [parsed, bind_of_ok ends]
    rfl
  · obtain ⟨t, last⟩ := short.resolve_left few
    obtain ⟨fw, ends, known', same⟩ := walk_unpadded front last known
    refine ⟨fw, ts ++ [t], ?_, known', ⟨ts, body, rest, split, records, .inr ⟨t, last, rfl⟩⟩,
      fun few' => absurd few' few, same.trans clear⟩
    rw [parsed, bind_of_ok ends]
    rfl

/-- The inventory of a padded stream. -/
theorem parse_padded {blob : Bytes} {ts : List Tlv} (image : IsImage blob)
    (whole : Padded ts (stream blob)) :
    ∃ fw, parse blob = .ok (some fw) ∧ Inventory fw ts ∧ fw.truncated = false := by
  obtain ⟨fw, counted, parsed, known, -, all, clear⟩ :=
    parse_unflagged image (List.append_nil _).symm whole (.inl (by decide))
  obtain rfl := all (by decide)
  obtain ⟨inventory, same⟩ := countBlobs_inventory known
  exact ⟨countBlobs fw, parsed, inventory, same.trans clear⟩

/-- **The inventory of a firmware image**: the parser always ends without a fault, it counts records
that lie in the image, and of a padded stream it reports the inventory; a stream that is none is
flagged exactly when it does not end in the start of a record or in the padding of the last. -/
theorem parse_iff (blob : Bytes) : Meets blob ↔ ¬CutShort blob := by
  by_cases image : IsImage blob
  · constructor
    · rintro ⟨-, meets⟩ ⟨-, ts, body, rest, split, records, cut⟩
      obtain ⟨fw, parsed, -, -, flagged⟩ := meets image
      have short : rest.length < 8 ∨ ∃ t, Unpadded t rest := cut.imp_left And.right
      obtain ⟨fw', counted, parsed', known, -, -, clear⟩ :=
        parse_unflagged image split records short
      obtain rfl := Option.some.inj (Except.ok.inj (parsed.symm.trans parsed'))
      rw [(countBlobs_inventory known).2, clear] at flagged
      refine absurd (flagged.mpr ?_) Bool.noConfusion
      rintro ⟨all, whole⟩
      rw [split] at whole
      obtain ⟨more, padded⟩ := records.behind whole
      rcases cut with ⟨some, few⟩ | ⟨t, last⟩
      · exact not_padded_start some few padded
      · exact not_padded_unpadded last padded
    · intro notCut
      obtain ⟨ts, body, rest, split, records, ending⟩ := exists_ending _ (Nat.le_refl _)
      have inventories : ∀ {fw}, parse blob = .ok (some fw) → ∀ ts, Padded ts (stream blob) →
          Inventory fw ts := by
        intro fw parsed ts whole
        obtain ⟨fw', parsed', inventory, -⟩ := parse_padded image whole
        obtain rfl := Option.some.inj (Except.ok.inj (parsed.symm.trans parsed'))
        exact inventory
      cases ending with
      | whole =>
        rw [List.append_nil] at split
        rw [← split] at records
        obtain ⟨fw, parsed, inventory, clear⟩ := parse_padded image records
        refine ⟨⟨_, parsed⟩, fun _ => ⟨fw, parsed, ⟨ts, ?_, inventory⟩, inventories parsed, ?_⟩⟩
        · exact ⟨ts, _, [], (List.append_nil _).symm, records, .inl rfl⟩
        · rw [clear]
          exact ⟨Bool.noConfusion, fun none => absurd ⟨ts, records⟩ none⟩
      | start some short =>
        exact absurd ⟨image, ts, body, rest, split, records, .inl ⟨some, short⟩⟩ notCut
      | unpadded last =>
        exact absurd ⟨image, ts, body, rest, split, records, .inr ⟨_, last⟩⟩ notCut
      | @beyond ttype len more cut =>
        obtain ⟨front, mid, known, -, parsed⟩ := parse_behind image split records
        rw [walk_header rfl, if_pos cut] at parsed
        have known' : Known { mid with truncated := true } ts :=
          ⟨known.records, known.sections, known.inst, known.plain, known.largest, known.version⟩
        obtain ⟨inventory, same⟩ := countBlobs_inventory known'
        refine ⟨⟨_, parsed⟩, fun _ => ⟨_, parsed, ⟨ts, ?_, inventory⟩, inventories parsed, ?_⟩⟩
        · exact ⟨ts, body, _, split, records, .inl rfl⟩
        · rw [same]
          refine ⟨fun _ => ?_, fun _ => rfl⟩
          rintro ⟨all, whole⟩
          rw [split] at whole
          obtain ⟨more, padded⟩ := records.behind whole
          exact not_padded_beyond cut padded
  · constructor
    · exact fun _ cut => image cut.1
    · exact fun _ => ⟨parse_other image, fun isImage => absurd isImage image⟩

/-- A header, and four bytes of the next record. -/
def cutImage : Bytes :=
  leBytes 0 ++ (leBytes ucodeMagic ++ (List.replicate 80 0 ++ leBytes 1))

/-- An image that is cut inside the start of a record is not flagged. -/
theorem parse_cutImage : ∃ fw, parse cutImage = .ok (some fw) ∧ fw.truncated = false ∧
    ¬∃ ts, Padded ts (stream cutImage) := by
  have image : IsImage cutImage := by decide
  have rest : stream cutImage = [] ++ leBytes 1 := rfl
  obtain ⟨fw, counted, parsed, known, -, -, clear⟩ :=
    parse_unflagged image rest .nil (.inl (by decide))
  refine ⟨countBlobs fw, parsed, (countBlobs_inventory known).2.trans clear, ?_⟩
  rintro ⟨ts, whole⟩
  exact not_padded_start (by decide) (by decide) whole

end RustyPenguin.Wifi
