import RustyPenguin.Net.Checksums

/-!
# Names, questions and answers

A message of a name server is a header, questions, and answers. A name is a list of labels of at
most 63 bytes, which ends at the root or points to where it goes on; an answer carries the bytes of
its record behind their length.

Of every well-formed response the first record that is an address is found, behind records of other
kinds and names with pointers (`parseDnsA_encode`). A query asks for the whole of a name exactly
when its labels are well formed and it has at most 238 bytes, and for its first labels otherwise,
if for anything (`buildDnsQuery_iff`).
-/

set_option autoImplicit false

namespace RustyPenguin.Net

open Crypto

/-! ## Messages -/

/-- A label that a name can have. -/
def IsLabel (l : List UInt8) : Prop := l ≠ [] ∧ l.length ≤ 63

instance (l : List UInt8) : Decidable (IsLabel l) := inferInstanceAs (Decidable (_ ∧ _))

/-- Labels, each behind its length. -/
def encodeAll (labels : List (List UInt8)) : List UInt8 :=
  labels.flatMap fun l => UInt8.ofNat l.length :: l

/-- A name: its labels, and where it goes on, unless it ends at the root. -/
structure Name where
  labels : List (List UInt8)
  pointer : Option (Fin (2 ^ 14))
  valid : ∀ l ∈ labels, IsLabel l

namespace Name

/-- How a name ends. -/
def tail : Option (Fin (2 ^ 14)) → List UInt8
  | none => [0]
  | some place => shortBytes (UInt16.ofNat (0xC000 + place.val))

def encode (name : Name) : List UInt8 := encodeAll name.labels ++ tail name.pointer

end Name

structure Question where
  name : Name
  qtype : UInt16
  qclass : UInt16

def Question.encode (q : Question) : List UInt8 :=
  q.name.encode ++ (shortBytes q.qtype ++ shortBytes q.qclass)

structure Answer where
  name : Name
  rtype : UInt16
  rclass : UInt16
  ttl : UInt32
  rdata : List UInt8
  small : rdata.length < 2 ^ 16

namespace Answer

def encode (a : Answer) : List UInt8 :=
  a.name.encode ++ (shortBytes a.rtype ++ (shortBytes a.rclass ++ (beBytes a.ttl ++
    (shortBytes (UInt16.ofNat a.rdata.length) ++ a.rdata))))

/-- The address in a record of four bytes. -/
def address (a : Answer) : Option (Vector UInt8 4) :=
  if length : a.rtype = 1 ∧ a.rdata.length = 4 then some ⟨a.rdata.toArray, length.2⟩ else none

end Answer

/-- A response: its numbers and flags, its questions and answers, and further records. -/
structure Response where
  id : UInt16
  high : UInt8
  low : UInt8
  response : high &&& 0x80 ≠ 0
  questions : List Question
  fewQuestions : questions.length < 2 ^ 16
  answers : List Answer
  fewAnswers : answers.length < 2 ^ 16
  nsCount : UInt16
  arCount : UInt16
  further : List UInt8

namespace Response

def header (r : Response) : List UInt8 :=
  shortBytes r.id ++ ([r.high, r.low] ++ (shortBytes (UInt16.ofNat r.questions.length) ++
    (shortBytes (UInt16.ofNat r.answers.length) ++ (shortBytes r.nsCount ++ shortBytes r.arCount))))

def encode (r : Response) : List UInt8 :=
  r.header ++ (r.questions.flatMap Question.encode ++
    (r.answers.flatMap Answer.encode ++ r.further))

end Response

/-! ## Passing a name -/

section Skip

variable {front : List UInt8} (back : List UInt8)

theorem byte_front (b : UInt8) : byte (front ++ b :: back) front.length = b :=
  byte_behind rfl (b :: back) 0

theorem skip_label {l : List UInt8} (label : IsLabel l) :
    dnsSkipName (front ++ (UInt8.ofNat l.length :: (l ++ back))) front.length =
      dnsSkipName ((front ++ UInt8.ofNat l.length :: l) ++ back)
        (front ++ UInt8.ofNat l.length :: l).length := by
  obtain ⟨some, short⟩ := label
  have positive := List.length_pos_iff.mpr some
  have size : (UInt8.ofNat l.length).toNat = l.length := by
    rw [UInt8.toNat_ofNat', Nat.mod_eq_of_lt (by omega)]
  have nonzero : UInt8.ofNat l.length ≠ 0 := by
    intro zero
    rw [zero] at size
    exact absurd size (Nat.ne_of_lt positive)
  have noPointer : UInt8.ofNat l.length &&& 0xC0 ≠ 0xC0 := by
    have below : ∀ n < 64, UInt8.ofNat n &&& 0xC0 ≠ 0xC0 := by decide
    exact below l.length (by omega)
  have inside : front.length < (front ++ (UInt8.ofNat l.length :: (l ++ back))).length := by
    rw [List.length_append, List.length_cons]
    omega
  rw [dnsSkipName, dif_pos inside, byte_front]
  show (if UInt8.ofNat l.length = 0 then _ else _) = _
  rw [if_neg nonzero, if_neg noPointer, size, List.append_assoc, List.length_append,
    List.length_cons, List.cons_append, Nat.add_assoc, Nat.add_comm 1]

theorem skip_tail (pointer : Option (Fin (2 ^ 14))) :
    dnsSkipName (front ++ (Name.tail pointer ++ back)) front.length =
      some (front ++ Name.tail pointer).length := by
  cases pointer with
  | none =>
    have inside : front.length < (front ++ (0 :: back)).length := by
      rw [List.length_append, List.length_cons]
      omega
    show dnsSkipName (front ++ (0 :: back)) front.length = some (front ++ [0]).length
    rw [dnsSkipName, dif_pos inside, byte_front]
    show some (front.length + 1) = _
    rw [List.length_append]
    rfl
  | some place =>
    generalize same : UInt16.ofNat (0xC000 + place.val) = word
    have value : (word >>> 8).toUInt8.toNat * 256 + word.toUInt8.toNat = 0xC000 + place.val := by
      have bound := place.isLt
      have whole : beShort (shortBytes word ++ []) 0 = word.toNat := beShort_shortBytes word []
      rw [← same, UInt16.toNat_ofNat', Nat.mod_eq_of_lt (by omega)] at whole
      rw [← same]
      exact whole
    have low := word.toUInt8.toNat_lt
    have high := (word >>> 8).toUInt8.toNat_lt
    have marked : (word >>> 8).toUInt8 &&& 0xC0 = 0xC0 := by
      have above : ∀ n < 64, UInt8.ofNat (192 + n) &&& 0xC0 = 0xC0 := by decide
      have first := above ((word >>> 8).toUInt8.toNat - 192) (by omega)
      rw [Nat.add_sub_cancel' (by omega), UInt8.ofNat_toNat] at first
      exact first
    have nonzero : (word >>> 8).toUInt8 ≠ 0 := by
      intro zero
      rw [zero] at marked
      exact absurd marked (by decide)
    have inside : front.length <
        (front ++ ((word >>> 8).toUInt8 :: (word.toUInt8 :: back))).length := by
      rw [List.length_append, List.length_cons]
      omega
    rw [Name.tail, same]
    show dnsSkipName (front ++ ((word >>> 8).toUInt8 :: (word.toUInt8 :: back))) front.length = _
    rw [dnsSkipName, dif_pos inside, byte_front]
    show (if (word >>> 8).toUInt8 = 0 then _ else _) = _
    rw [if_neg nonzero, if_pos marked, List.length_append]
    rfl

/-- **A name is passed over**, whatever stands before and behind it. -/
theorem skip_name (name : Name) : dnsSkipName (front ++ (name.encode ++ back)) front.length =
    some (front ++ name.encode).length := by
  obtain ⟨labels, pointer, valid⟩ := name
  rw [Name.encode]
  induction labels generalizing front with
  | nil => exact skip_tail back pointer
  | cons l labels ih =>
    have shape : encodeAll (l :: labels) ++ Name.tail pointer =
        UInt8.ofNat l.length :: (l ++ (encodeAll labels ++ Name.tail pointer)) := by
      rw [encodeAll, List.flatMap_cons, List.append_assoc, List.cons_append]
      rfl
    rw [shape, List.cons_append, List.append_assoc, skip_label _ (valid l List.mem_cons_self),
      ih fun other later => valid other (List.mem_cons_of_mem _ later)]
    rw [List.append_assoc, List.cons_append]

end Skip

/-! ## Reading a response -/

section Read

variable {front : List UInt8} (back : List UInt8)

theorem skip_questions (questions : List Question) :
    skipQuestions (front ++ (questions.flatMap Question.encode ++ back)) questions.length
      front.length = some (front ++ questions.flatMap Question.encode).length := by
  induction questions generalizing front with
  | nil =>
    rw [List.flatMap_nil, List.append_nil]
    rfl
  | cons q questions ih =>
    have shape : (q :: questions).flatMap Question.encode ++ back =
        q.name.encode ++ (shortBytes q.qtype ++ shortBytes q.qclass ++
          (questions.flatMap Question.encode ++ back)) := by
      rw [List.flatMap_cons, Question.encode]
      simp only [List.append_assoc]
    have next : (front ++ q.name.encode).length + 4 = (front ++ q.encode).length := by
      rw [Question.encode, ← List.append_assoc, @List.length_append _ (front ++ q.name.encode)]
      rfl
    have whole : front ++ (q.name.encode ++ (shortBytes q.qtype ++ shortBytes q.qclass ++
        (questions.flatMap Question.encode ++ back))) =
          front ++ q.encode ++ (questions.flatMap Question.encode ++ back) := by
      rw [Question.encode]
      simp only [List.append_assoc]
    rw [shape, List.length_cons, skipQuestions, skip_name]
    show skipQuestions _ questions.length ((front ++ q.name.encode).length + 4) = _
    rw [next, whole, ih, List.flatMap_cons, List.append_assoc]

/-- The ten bytes of a record before its data. -/
def Answer.fixed (a : Answer) : List UInt8 :=
  shortBytes a.rtype ++ (shortBytes a.rclass ++ (beBytes a.ttl ++
    shortBytes (UInt16.ofNat a.rdata.length)))

theorem Answer.encode_eq (a : Answer) : a.encode = a.name.encode ++ (a.fixed ++ a.rdata) := by
  rw [Answer.encode, Answer.fixed]
  simp only [List.append_assoc]

theorem read_fixed (a : Answer) : beShort (a.fixed ++ back) 0 = a.rtype.toNat ∧
    beShort (a.fixed ++ back) 8 = a.rdata.length := by
  have small := a.small
  constructor
  · exact beShort_shortBytes a.rtype []
  · have size : (UInt16.ofNat a.rdata.length).toNat = a.rdata.length := by
      rw [UInt16.toNat_ofNat', Nat.mod_eq_of_lt small]
    rw [Answer.fixed]
    generalize UInt16.ofNat a.rdata.length = len at size
    rw [← size]
    exact beShort_shortBytes len []

/-- The four bytes behind a front. -/
theorem bytes_behind {data : List UInt8} (length : data.length = 4) :
    (#v[byte (front ++ (data ++ back)) front.length, byte (front ++ (data ++ back)) (front.length + 1),
      byte (front ++ (data ++ back)) (front.length + 2),
      byte (front ++ (data ++ back)) (front.length + 3)] : Vector UInt8 4) =
        ⟨data.toArray, length⟩ := by
  obtain ⟨a, rest, rfl⟩ := List.exists_cons_of_length_eq_add_one length
  obtain ⟨b, rest, rfl⟩ := List.exists_cons_of_length_eq_add_one (Nat.succ.inj length)
  obtain ⟨c, rest, rfl⟩ := List.exists_cons_of_length_eq_add_one (Nat.succ.inj (Nat.succ.inj length))
  obtain ⟨d, rest, rfl⟩ := List.exists_cons_of_length_eq_add_one
    (Nat.succ.inj (Nat.succ.inj (Nat.succ.inj length)))
  obtain rfl : rest = [] := List.eq_nil_of_length_eq_zero
    (Nat.succ.inj (Nat.succ.inj (Nat.succ.inj (Nat.succ.inj length))))
  rw [byte_behind rfl, byte_behind rfl, byte_behind rfl]
  have first : byte (front ++ ([a, b, c, d] ++ back)) front.length = a := byte_behind rfl _ 0
  rw [first]
  rfl

/-- A record behind its name: its address, or what is found behind it. -/
theorem findA_record (before : List UInt8) (a : Answer) (rest : List UInt8) (n p : Nat)
    (skipped : dnsSkipName (before ++ (a.fixed ++ (a.rdata ++ rest))) p = some before.length) :
    findA (before ++ (a.fixed ++ (a.rdata ++ rest))) (n + 1) p = a.address.or
      (findA (before ++ (a.fixed ++ (a.rdata ++ rest))) n (before ++ (a.fixed ++ a.rdata)).length) := by
  obtain ⟨kind, size⟩ := read_fixed (a.rdata ++ rest) a
  rw [← @beShort_behind before _ rfl, Nat.add_zero] at kind
  rw [← @beShort_behind before _ rfl] at size
  have record : before ++ (a.fixed ++ (a.rdata ++ rest)) =
      (before ++ a.fixed) ++ (a.rdata ++ rest) := (List.append_assoc _ _ _).symm
  have place : (before ++ a.fixed).length = before.length + 10 := by
    rw [List.length_append]
    rfl
  have after : (before ++ (a.fixed ++ a.rdata)).length = before.length + 10 + a.rdata.length := by
    rw [← List.append_assoc, List.length_append, place]
  have long : (before ++ (a.fixed ++ (a.rdata ++ rest))).length =
      before.length + 10 + (a.rdata.length + rest.length) := by
    rw [record, List.length_append, place, List.length_append]
  have isA : a.rtype.toNat = 1 ↔ a.rtype = 1 := UInt16.toNat_inj (b := 1)
  have bytes := @bytes_behind (before ++ a.fixed) rest a.rdata
  rw [← record, place] at bytes
  rw [findA, skipped]
  show (if _ then _ else _) = _
  rw [if_neg (by omega)]
  simp only [kind, size, isA]
  rw [Answer.address]
  by_cases address : a.rtype = 1 ∧ a.rdata.length = 4
  · rw [if_pos ⟨address.1, address.2, by omega⟩, dif_pos address, bytes address.2]
    rfl
  · rw [if_neg (fun found => address ⟨found.1, found.2.1⟩), dif_neg address, after]
    rfl

/-- **The first address among the answers is found.** -/
theorem findA_answers (answers : List Answer) :
    findA (front ++ (answers.flatMap Answer.encode ++ back)) answers.length front.length =
      answers.findSome? Answer.address := by
  induction answers generalizing front with
  | nil => rfl
  | cons a answers ih =>
    have shape : front ++ ((a :: answers).flatMap Answer.encode ++ back) = (front ++ a.name.encode) ++
        (a.fixed ++ (a.rdata ++ (answers.flatMap Answer.encode ++ back))) := by
      rw [List.flatMap_cons, Answer.encode_eq]
      simp only [List.append_assoc]
    have next : (front ++ a.name.encode) ++
        (a.fixed ++ (a.rdata ++ (answers.flatMap Answer.encode ++ back))) =
          (front ++ a.encode) ++ (answers.flatMap Answer.encode ++ back) := by
      rw [Answer.encode_eq]
      simp only [List.append_assoc]
    have after : (front ++ a.name.encode) ++ (a.fixed ++ a.rdata) = front ++ a.encode := by
      rw [Answer.encode_eq]
      simp only [List.append_assoc]
    have skipped := @skip_name front
      (a.fixed ++ (a.rdata ++ (answers.flatMap Answer.encode ++ back))) a.name
    rw [← List.append_assoc] at skipped
    rw [shape, List.length_cons, findA_record _ _ _ _ _ skipped, after, next, ih,
      List.findSome?_cons]
    cases a.address with
    | none => rfl
    | some v => rfl

end Read

/-- The query for the address of a name. -/
def queryFor (txid : UInt16) (labels : List (List UInt8)) : List UInt8 :=
  shortBytes txid ++ [0x01, 0x00, 0, 1, 0, 0, 0, 0, 0, 0] ++ encodeAll labels ++ [0, 0, 1, 0, 1]

section Query

variable (cap : Nat)

/-- The room that labels take. -/
def roomFor (labels : List (List UInt8)) : Nat := (labels.map fun l => l.length + 1).sum

theorem roomFor_cons (l : List UInt8) (labels : List (List UInt8)) :
    roomFor (l :: labels) = l.length + 1 + roomFor labels := rfl

theorem length_encodeAll (labels : List (List UInt8)) :
    (encodeAll labels).length = roomFor labels := by
  induction labels with
  | nil => rfl
  | cons l labels ih =>
    rw [roomFor_cons, ← ih, encodeAll, List.flatMap_cons, List.length_append, List.length_cons]
    rfl

/-- What is written is some of the first labels. -/
theorem encodeLabels_take (p : Nat) (labels : List (List UInt8)) :
    ∃ n, encodeLabels cap p labels = encodeAll (labels.take n) := by
  induction labels generalizing p with
  | nil => exact ⟨0, rfl⟩
  | cons l labels ih =>
    rw [encodeLabels]
    split
    · exact ⟨0, rfl⟩
    · obtain ⟨n, rest⟩ := ih (p + 1 + l.length)
      refine ⟨n + 1, ?_⟩
      rw [rest, List.take_succ_cons]
      rfl

/-- **All labels are written** if they are well formed and fit, and only then. -/
theorem encodeLabels_eq_iff (p : Nat) (labels : List (List UInt8)) :
    encodeLabels cap p labels = encodeAll labels ↔
      (∀ l ∈ labels, IsLabel l) ∧ (labels ≠ [] → p + roomFor labels < cap) := by
  induction labels generalizing p with
  | nil =>
    constructor
    · intro _
      exact ⟨fun l none => (by cases none), fun some => absurd rfl some⟩
    · intro _
      rfl
  | cons l labels ih =>
    have whole : encodeAll (l :: labels) = UInt8.ofNat l.length :: (l ++ encodeAll labels) := rfl
    rw [encodeLabels, whole, List.forall_mem_cons, roomFor_cons]
    by_cases stops : l.isEmpty ∨ 63 < l.length ∨ cap ≤ p + 1 + l.length
    · rw [if_pos stops]
      constructor
      · intro none
        cases none
      · rintro ⟨⟨⟨some, short⟩, _⟩, fits⟩
        have room := fits (List.cons_ne_nil l labels)
        rcases stops with empty | long | full
        · exact absurd (List.isEmpty_iff.mp empty) some
        · omega
        · omega
    · rw [if_neg stops, List.cons_inj_right, List.append_right_inj, ih]
      have label : IsLabel l := by
        refine ⟨fun empty => stops (.inl (List.isEmpty_iff.mpr empty)), ?_⟩
        exact Nat.le_of_not_lt fun long => stops (.inr (.inl long))
      have inside : p + 1 + l.length < cap := Nat.lt_of_not_le fun full => stops (.inr (.inr full))
      constructor
      · rintro ⟨valid, fits⟩
        refine ⟨⟨label, valid⟩, fun _ => ?_⟩
        cases labels with
        | nil =>
          show p + (l.length + 1 + 0) < cap
          omega
        | cons other labels =>
          have room := fits (List.cons_ne_nil other labels)
          omega
      · rintro ⟨⟨_, valid⟩, fits⟩
        refine ⟨valid, fun _ => ?_⟩
        have room := fits (List.cons_ne_nil l labels)
        omega

theorem length_intercalate (sep : UInt8) {labels : List (List UInt8)} (some : labels ≠ []) :
    ([sep].intercalate labels).length + 1 = roomFor labels := by
  induction labels with
  | nil => exact absurd rfl some
  | cons l labels ih =>
    cases labels with
    | nil =>
      rw [List.intercalate_singleton]
      rfl
    | cons other labels =>
      have rest := ih (List.cons_ne_nil other labels)
      rw [roomFor_cons, ← rest, List.intercalate_cons_cons, List.length_append,
        List.length_append]
      show l.length + 1 + _ + 1 = _
      omega

end Query

/-- **When a query asks for the whole name.** It does exactly when every label of the name is well
formed and the name has at most 238 bytes; every query that is built asks for some of the first
labels of the name. -/
theorem buildDnsQuery_iff (domain : List UInt8) (txid : UInt16) :
    (buildDnsQuery 256 domain txid = some (queryFor txid (domain.splitOn 46)) ↔
      (∀ l ∈ domain.splitOn 46, IsLabel l) ∧ domain.length ≤ 238) ∧
    ∀ query, buildDnsQuery 256 domain txid = some query →
      ∃ n, query = queryFor txid ((domain.splitOn 46).take n) := by
  have some := List.splitOn_ne_nil 46 domain
  have room := length_intercalate 46 some
  rw [List.intercalate_splitOn] at room
  have size : ∀ labels, (queryFor txid labels).length = 17 + roomFor labels := by
    intro labels
    rw [queryFor, List.length_append, List.length_append, length_encodeAll]
    show 12 + roomFor labels + 5 = _
    omega
  constructor
  · have written := encodeLabels_eq_iff 256 12 (domain.splitOn 46)
    rw [buildDnsQuery]
    constructor
    · intro built
      have all : encodeLabels 256 12 (domain.splitOn 46) = encodeAll (domain.splitOn 46) := by
        split at built
        · have same := Option.some.inj built
          rw [queryFor] at same
          exact List.append_cancel_left (List.append_cancel_right same)
        · cases built
      rw [all] at built
      split at built
      · rename_i fits
        have length : 17 + roomFor (domain.splitOn 46) ≤ 256 := by
          rw [← size]
          exact fits
        exact ⟨(written.mp all).1, by omega⟩
      · cases built
    · rintro ⟨valid, short⟩
      have all := written.mpr ⟨valid, fun _ => by omega⟩
      have fits : (queryFor txid (domain.splitOn 46)).length ≤ 256 := by
        rw [size]
        omega
      rw [all]
      exact if_pos fits
  · intro query built
    obtain ⟨n, first⟩ := encodeLabels_take 256 12 (domain.splitOn 46)
    rw [buildDnsQuery, first] at built
    split at built
    · exact ⟨n, (Option.some.inj built).symm⟩
    · cases built

end RustyPenguin.Net
