import Mathlib.Data.List.DropRight
import RustyPenguin.Crypto.ChaCha20Poly1305

/-!
# Records

The bytes that arrive on the connection, the records they are cut into, and the protection
of a record.

A `Stream` holds the bytes received and not yet read, and what the next receives will
deliver: an empty delivery is a connection that closed or timed out. Where the segments are
cut does not matter: reading is reading from the bytes that arrive before that (`pending`),
and the records that can be read are the ones these bytes are cut into (`records`).

What a key, an initial vector and a number seal is opened by them (`openRecord_sealRecord`).
-/

set_option autoImplicit false

namespace RustyPenguin.Tls

open Crypto Positions

def ctChangeCipherSpec : UInt8 := 20
def ctAlert : UInt8 := 21
def ctHandshake : UInt8 := 22
def ctApplicationData : UInt8 := 23

/-! ## The stream -/

/-- A buffered connection: `buf` holds what was received and not read. -/
structure Stream where
  conn : List (List UInt8)
  buf : List UInt8

/-- A record: its five header bytes and its payload. -/
structure Record where
  hdr : Vector UInt8 5
  body : List UInt8

namespace Record

/-- The outer type. -/
def typ (r : Record) : UInt8 := getElem r.hdr 0 zero5

/-- The length that a header announces. -/
def announced (hdr : Vector UInt8 5) : Nat :=
  (getElem hdr 3 three5).toNat * 256 + (getElem hdr 4 four5).toNat

/-- The bytes of a record. -/
def bytes (r : Record) : List UInt8 := r.hdr.toList ++ r.body

end Record

namespace Stream

/-- Read `n` bytes, receiving as long as the buffer does not hold them. -/
def readFrom : List (List UInt8) → List UInt8 → Nat → Option (List UInt8 × Stream)
  | [], buf, n => if n ≤ buf.length then some (buf.take n, ⟨[], buf.drop n⟩) else none
  | chunk :: conn, buf, n =>
    if n ≤ buf.length then some (buf.take n, ⟨chunk :: conn, buf.drop n⟩)
    else if chunk = [] then none
    else
      match readFrom conn chunk (n - buf.length) with
      | none => none
      | some (more, s) => some (buf ++ more, s)

def readExact (s : Stream) (n : Nat) : Option (List UInt8 × Stream) := readFrom s.conn s.buf n

/-- Read one record. -/
def readRecord (s : Stream) : Option (Record × Stream) := do
  let (hdr, s) ← s.readExact 5
  let hdr := arrayAt 5 hdr 0
  let len := Record.announced hdr
  if len = 0 ∨ 18432 < len then none
  else do
    let (body, s) ← s.readExact len
    pure (⟨hdr, body⟩, s)

/-- The bytes that the next receives deliver before the connection ends. -/
def arriving (conn : List (List UInt8)) : List UInt8 := (conn.takeWhile (· ≠ [])).flatten

/-- The bytes that can still be read. -/
def pending (s : Stream) : List UInt8 := s.buf ++ arriving s.conn

end Stream

/-- The first record of a byte string, and what follows it. -/
def nextRecord (bytes : List UInt8) : Option (Record × List UInt8) :=
  let hdr := arrayAt 5 bytes 0
  let len := Record.announced hdr
  if bytes.length < 5 ∨ len = 0 ∨ 18432 < len ∨ bytes.length < 5 + len then none
  else some (⟨hdr, (bytes.drop 5).take len⟩, bytes.drop (5 + len))

theorem nextRecord_shorter {bytes rest : List UInt8} {r : Record}
    (next : nextRecord bytes = some (r, rest)) : rest.length < bytes.length := by
  simp only [nextRecord] at next
  split at next <;> cases next
  rw [List.length_drop]
  omega

/-- The records a byte string is cut into, up to the first that is not complete or has no
valid length. -/
def records (bytes : List UInt8) : List Record :=
  match _next : nextRecord bytes with
  | none => []
  | some (r, rest) => r :: records rest
termination_by bytes.length
decreasing_by exact nextRecord_shorter _next

theorem records_none {bytes : List UInt8} (next : nextRecord bytes = none) :
    records bytes = [] := by
  rw [records]
  split
  · rfl
  · rename_i same
    rw [next] at same
    cases same

theorem records_some {bytes rest : List UInt8} {r : Record}
    (next : nextRecord bytes = some (r, rest)) : records bytes = r :: records rest := by
  rw [records]
  split
  · rename_i same
    rw [next] at same
    cases same
  · rename_i same
    rw [next] at same
    cases same
    rfl

/-- A record whose header announces its length stands at the front of what is read. -/
theorem nextRecord_bytes {r : Record} (announces : Record.announced r.hdr = r.body.length)
    (some : 0 < r.body.length) (small : r.body.length ≤ 18432) (rest : List UInt8) :
    nextRecord (r.bytes ++ rest) = .some (r, rest) := by
  have split : r.bytes ++ rest = r.hdr.toList ++ (r.body ++ rest) := List.append_assoc _ _ _
  have hdrSize : r.hdr.toList.length = 5 := Vector.length_toList
  have hdr : arrayAt 5 (r.bytes ++ rest) 0 = r.hdr := by
    rw [split]
    exact arrayAt_append [] r.hdr (r.body ++ rest)
  have size : (r.bytes ++ rest).length = 5 + r.body.length + rest.length := by
    simp [Record.bytes]
    omega
  have after : (r.bytes ++ rest).drop 5 = r.body ++ rest := by
    rw [split, List.drop_left' hdrSize]
  simp only [nextRecord, hdr, announces]
  rw [if_neg (by omega), after, List.take_left, ← List.drop_drop, after, List.drop_left]

/-! ## Reading what arrives -/

theorem arriving_closed (conn : List (List UInt8)) : Stream.arriving ([] :: conn) = [] := by
  simp [Stream.arriving]

theorem arriving_chunk {chunk : List UInt8} (some : chunk ≠ []) (conn : List (List UInt8)) :
    Stream.arriving (chunk :: conn) = chunk ++ Stream.arriving conn := by
  simp [Stream.arriving, some]

/-- Reading takes the first bytes that arrive, wherever the segments are cut. -/
theorem readFrom_some {conn : List (List UInt8)} {buf : List UInt8} {n : Nat}
    (fits : n ≤ (buf ++ Stream.arriving conn).length) :
    ∃ s', Stream.readFrom conn buf n = some ((buf ++ Stream.arriving conn).take n, s') ∧
      s'.pending = (buf ++ Stream.arriving conn).drop n := by
  induction conn generalizing buf n with
  | nil =>
    have none : Stream.arriving [] = [] := rfl
    rw [none, List.append_nil] at fits ⊢
    rw [Stream.readFrom, if_pos fits]
    exact ⟨_, rfl, by rw [Stream.pending, none, List.append_nil]⟩
  | cons chunk conn ih =>
    rw [Stream.readFrom]
    by_cases buffered : n ≤ buf.length
    · rw [if_pos buffered, List.take_append_of_le_length buffered,
        List.drop_append_of_le_length buffered]
      exact ⟨_, rfl, rfl⟩
    rw [if_neg buffered]
    by_cases closed : chunk = []
    · rw [closed, arriving_closed, List.append_nil] at fits
      exact absurd fits buffered
    rw [arriving_chunk closed, List.length_append] at fits
    have fits' : n - buf.length ≤ (chunk ++ Stream.arriving conn).length := by omega
    obtain ⟨s', reads, left⟩ := ih fits'
    rw [if_neg closed, arriving_chunk closed, reads]
    generalize chunk ++ Stream.arriving conn = after at left ⊢
    have taken : buf.take n = buf := List.take_of_length_le (by omega)
    have dropped : buf.drop n = [] := List.drop_of_length_le (by omega)
    refine ⟨s', ?_, ?_⟩
    · rw [List.take_append, taken]
    · rw [left, List.drop_append, dropped, List.nil_append]

theorem readFrom_none {conn : List (List UInt8)} {buf : List UInt8} {n : Nat}
    (short : ¬ n ≤ (buf ++ Stream.arriving conn).length) : Stream.readFrom conn buf n = none := by
  induction conn generalizing buf n with
  | nil =>
    have none : Stream.arriving [] = [] := rfl
    rw [none, List.append_nil] at short
    rw [Stream.readFrom, if_neg short]
  | cons chunk conn ih =>
    have notBuffered : ¬ n ≤ buf.length := by
      intro buffered
      exact short (Nat.le_trans buffered (by simp))
    rw [Stream.readFrom, if_neg notBuffered]
    by_cases closed : chunk = []
    · rw [if_pos closed]
    · rw [arriving_chunk closed, List.length_append] at short
      rw [if_neg closed, ih (by omega)]

theorem readExact_some {s : Stream} {n : Nat} (fits : n ≤ s.pending.length) :
    ∃ s', s.readExact n = some (s.pending.take n, s') ∧ s'.pending = s.pending.drop n :=
  readFrom_some fits

theorem readExact_none {s : Stream} {n : Nat} (short : ¬ n ≤ s.pending.length) :
    s.readExact n = none :=
  readFrom_none short

theorem byte_take {bytes : List UInt8} {i n : Nat} (inside : i < n) :
    byte (bytes.take n) i = byte bytes i := by
  simp [byte, List.getD_eq_getElem?_getD, inside]

theorem arrayAt_take (k : Nat) (bytes : List UInt8) :
    arrayAt k (bytes.take k) 0 = arrayAt k bytes 0 := by
  refine Vector.ext fun i inside => ?_
  simp only [arrayAt, Vector.getElem_ofFn, Nat.zero_add]
  exact byte_take inside

/-- **Reading a record reads the next record of the bytes that arrive.** -/
theorem readRecord_spec (s : Stream) :
    match nextRecord s.pending with
    | none => s.readRecord = none
    | some (r, rest) => ∃ s', s.readRecord = some (r, s') ∧ s'.pending = rest := by
  rw [nextRecord]
  by_cases header : s.pending.length < 5
  · have short : ¬ 5 ≤ s.pending.length := Nat.not_le.mpr header
    rw [if_pos (.inl header)]
    simp only [Stream.readRecord, readExact_none short]
    rfl
  obtain ⟨s₁, reads, left⟩ := readExact_some (Nat.le_of_not_lt header)
  have hdr : arrayAt 5 (s.pending.take 5) 0 = arrayAt 5 s.pending 0 := arrayAt_take 5 _
  simp only [Stream.readRecord, reads, Option.bind_eq_bind, Option.bind_some, hdr]
  by_cases bad : Record.announced (arrayAt 5 s.pending 0) = 0 ∨
      18432 < Record.announced (arrayAt 5 s.pending 0)
  · rw [if_pos (.inr (bad.elim .inl fun long => .inr (.inl long))), if_pos bad]
  rw [if_neg bad]
  by_cases cut : s.pending.length < 5 + Record.announced (arrayAt 5 s.pending 0)
  · have short : ¬ Record.announced (arrayAt 5 s.pending 0) ≤ s₁.pending.length := by
      rw [left, List.length_drop]
      omega
    rw [if_pos (.inr (.inr (.inr cut))), readExact_none short]
    rfl
  · have fits : Record.announced (arrayAt 5 s.pending 0) ≤ s₁.pending.length := by
      rw [left, List.length_drop]
      omega
    obtain ⟨s₂, body, after⟩ := readExact_some fits
    rw [if_neg (by omega), body]
    refine ⟨s₂, ?_, ?_⟩
    · rw [left]
      rfl
    · rw [after, left, List.drop_drop]

theorem readRecord_none {s : Stream} (next : nextRecord s.pending = none) :
    s.readRecord = none := by
  have spec := readRecord_spec s
  rwa [next] at spec

theorem readRecord_some {s : Stream} {r : Record} {rest : List UInt8}
    (next : nextRecord s.pending = some (r, rest)) :
    ∃ s', s.readRecord = some (r, s') ∧ s'.pending = rest := by
  have spec := readRecord_spec s
  rwa [next] at spec

/-- What a record that was read says about the records that arrive. -/
theorem records_of_readRecord {s s' : Stream} {r : Record} (reads : s.readRecord = some (r, s')) :
    records s.pending = r :: records s'.pending ∧ s'.pending.length < s.pending.length := by
  cases next : nextRecord s.pending with
  | none =>
    rw [readRecord_none next] at reads
    cases reads
  | some found =>
    obtain ⟨s₁, reads', left⟩ := readRecord_some next
    rw [reads'] at reads
    cases reads
    rw [left]
    exact ⟨records_some next, nextRecord_shorter next⟩

theorem records_of_readRecord_none {s : Stream} (reads : s.readRecord = none) :
    records s.pending = [] := by
  cases next : nextRecord s.pending with
  | none => exact records_none next
  | some found =>
    obtain ⟨s', reads', _⟩ := readRecord_some next
    rw [reads] at reads'
    cases reads'

/-! ## Protection -/

def makeNonce (iv : Vector UInt8 12) (seq : UInt64) : Vector UInt8 12 :=
  Vector.ofFn fun i => if i.val < 4 then iv[i] else iv[i] ^^^ byte (beBytes64 seq) (i.val - 4)

/-- The keys of one direction. -/
structure Keys where
  key : Vector UInt8 32
  iv : Vector UInt8 12

/-- The header of a record with a sealed payload of `total` bytes. -/
def sealedHeader (total : Nat) : Vector UInt8 5 :=
  #v[ctApplicationData, 0x03, 0x03, UInt8.ofNat (total >>> 8), UInt8.ofNat total]

theorem announced_sealedHeader {total : Nat} (fits : total < 65536) :
    Record.announced (sealedHeader total) = total := by
  have high : total / 256 % 256 = total / 256 := Nat.mod_eq_of_lt (by omega)
  simp [Record.announced, sealedHeader, Nat.shiftRight_eq_div_pow, high]
  omega

/-- Encrypt content and its type into a record. -/
def sealRecord (keys : Keys) (seq : UInt64) (content : List UInt8) (innerType : UInt8) : Record :=
  let plain := content ++ [innerType]
  let hdr := sealedHeader (plain.length + 16)
  let (ct, tag) := aeadSeal keys.key (makeNonce keys.iv seq) hdr.toList plain
  ⟨hdr, ct ++ tag.toList⟩

/-- Split a plaintext into its type and content: the type is the last byte that is not zero. -/
def stripPadding (buf : List UInt8) : Option (UInt8 × List UInt8) :=
  let kept := buf.rdropWhile (· = 0)
  kept.getLast?.map fun innerType => (innerType, kept.dropLast)

/-- Decrypt a record: the type of its content, and the content. -/
def openRecord (keys : Keys) (seq : UInt64) (r : Record) : Option (UInt8 × List UInt8) :=
  if r.body.length < 16 then none
  else
    let ctLen := r.body.length - 16
    let tag := arrayAt 16 r.body ctLen
    (aeadOpen keys.key (makeNonce keys.iv seq) r.hdr.toList (r.body.take ctLen) tag).bind
      stripPadding

theorem stripPadding_typed {innerType : UInt8} (typed : innerType ≠ 0) (content : List UInt8) :
    stripPadding (content ++ [innerType]) = some (innerType, content) := by
  simp [stripPadding, typed]

theorem openRecord_of_aeadOpen {keys : Keys} {seq : UInt64} {hdr : Vector UInt8 5}
    {ct plain : List UInt8} {tag : Vector UInt8 16}
    (opens : aeadOpen keys.key (makeNonce keys.iv seq) hdr.toList ct tag = some plain) :
    openRecord keys seq ⟨hdr, ct ++ tag.toList⟩ = stripPadding plain := by
  have size : (ct ++ tag.toList).length = ct.length + 16 := by simp
  have tagRead : arrayAt 16 (ct ++ tag.toList) ct.length = tag := by
    have read := arrayAt_append ct tag []
    rwa [List.append_nil] at read
  simp only [openRecord]
  rw [size, Nat.add_sub_cancel, if_neg (by omega), List.take_left, tagRead, opens]
  rfl

/-- **What was sealed opens** under the key and number it was sealed with. -/
theorem openRecord_sealRecord (keys : Keys) (seq : UInt64) (content : List UInt8)
    {innerType : UInt8} (typed : innerType ≠ 0) :
    openRecord keys seq (sealRecord keys seq content innerType) = some (innerType, content) :=
  (openRecord_of_aeadOpen (aeadOpen_aeadSeal _ _ _ _)).trans (stripPadding_typed typed content)

theorem length_sealRecord (keys : Keys) (seq : UInt64) (content : List UInt8)
    (innerType : UInt8) :
    (sealRecord keys seq content innerType).body.length = content.length + 17 := by
  simp [sealRecord, length_aeadSeal]

/-- A sealed record stands at the front of what is read. -/
theorem nextRecord_sealRecord (keys : Keys) (seq : UInt64) (content : List UInt8)
    (innerType : UInt8) (fits : content.length + 17 ≤ 18432) (rest : List UInt8) :
    nextRecord ((sealRecord keys seq content innerType).bytes ++ rest) =
      some (sealRecord keys seq content innerType, rest) := by
  have size := length_sealRecord keys seq content innerType
  have hdr : (sealRecord keys seq content innerType).hdr = sealedHeader (content.length + 17) := by
    simp [sealRecord]
  refine nextRecord_bytes ?_ (by omega) (by omega) rest
  rw [hdr, size, announced_sealedHeader (by omega)]

end RustyPenguin.Tls
