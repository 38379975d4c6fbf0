import RustyPenguin.Crypto.Digests
import RustyPenguin.Foundation.Checked

/-!
# Key derivation

The expansion of RFC 5869 chains blocks of an HMAC, each over the block before, the info and
a counter; that of RFC 8446 puts a length, a label and a context into the info, each behind
its own length. The code lays both inputs out in buffers of fixed size, by running offsets.

The buffers hold what the pure functions of the TLS client concatenate, for inputs of every
length (`hkdfExpandInto_eq`, `hkdfExpandLabelInto_eq`), and those are the expansions of the
two documents (`hkdf_spec`).
-/

set_option autoImplicit false

namespace RustyPenguin

/-! ## The documents -/

namespace Rfc5869

/-- The blocks `T(0), T(1), …` of an expansion. -/
def T (mac : List UInt8 → List UInt8) (info : List UInt8) : Nat → List UInt8
  | 0 => []
  | n + 1 => mac (T mac info n ++ info ++ [UInt8.ofNat (n + 1)])

/-- The first `len` bytes of `T(1) | T(2) | …`. -/
def expand (mac : List UInt8 → List UInt8) (info : List UInt8) (len : Nat) : List UInt8 :=
  ((List.range ((len + 31) / 32)).flatMap fun i => T mac info (i + 1)).take len

end Rfc5869

namespace Rfc8446

/-- A vector behind its length, which is one byte. -/
def opaque8 (bytes : List UInt8) : List UInt8 := UInt8.ofNat bytes.length :: bytes

/-- The structure `HkdfLabel`. -/
def hkdfLabel (label context : List UInt8) (len : Nat) : List UInt8 :=
  [UInt8.ofNat (len / 256), UInt8.ofNat (len % 256)] ++ opaque8 (Crypto.tls13 ++ label) ++
    opaque8 context

/-- HKDF-Expand-Label, under the HMAC of a hash. -/
def expandLabel (hash : List UInt8 → List UInt8) (secret label context : List UInt8) (len : Nat) :
    List UInt8 :=
  Rfc5869.expand (Fips180.hmac hash secret) (hkdfLabel label context len) len

end Rfc8446

namespace Crypto

open Checked

/-! ## The code, with its buffers -/

/-- The scratch buffer with the block before in front, and how much of it is in use. -/
def scratchPrevious (t : List UInt8) (tLen : Nat) : Checked (List UInt8 × Nat) :=
  let scratch := List.replicate (32 + 600 + 1) (0 : UInt8)
  if 0 < tLen then do
    let previous ← sub t 0 tLen
    let scratch ← copyTo scratch 0 tLen previous
    pure (scratch, 0 + tLen)
  else pure (scratch, 0)

/-- The message of one block, laid out in the scratch buffer. -/
def scratchMessage (t : List UInt8) (tLen : Nat) (info : List UInt8) (counter : UInt8) :
    Checked (List UInt8) := do
  let (scratch, sl) ← scratchPrevious t tLen
  let il := min info.length 600
  let front ← sub info 0 il
  let scratch ← copyTo scratch sl (sl + il) front
  let sl := sl + il
  let scratch ← setAt scratch sl counter
  let sl := sl + 1
  sub scratch 0 sl

/-- The loop over the blocks: `filled` of the `len` bytes of the output are there. -/
def hkdfExpandLoop (prk info : List UInt8) (len : Nat) (t : List UInt8) (tLen filled : Nat)
    (counter : UInt8) (out : List UInt8) : Checked (List UInt8) :=
  if filled < len then do
    let message ← scratchMessage t tLen info counter
    let t := hmacSha256 prk message
    let take := min (len - filled) 32
    let part ← sub t 0 take
    let out ← copyTo out filled (filled + take) part
    hkdfExpandLoop prk info len t 32 (filled + min (len - filled) 32) (counter + 1) out
  else pure out
termination_by len - filled

/-- `hkdf_expand`, into a slice. -/
def hkdfExpandInto (prk info out : List UInt8) : Checked (List UInt8) :=
  hkdfExpandLoop prk info out.length (List.replicate 32 0) 0 0 1 out

/-- `hkdf_expand_label`, into a slice. -/
def hkdfExpandLabelInto (secret label context out : List UInt8) : Checked (List UInt8) := do
  let info := List.replicate 600 (0 : UInt8)
  let outlen := UInt16.ofNat out.length
  let info ← setAt info 0 (outlen >>> 8).toUInt8
  let info ← setAt info 1 outlen.toUInt8
  let n := 2
  let fullLabelLen := 6 + label.length
  let info ← setAt info n (UInt8.ofNat fullLabelLen)
  let n := n + 1
  let info ← copyTo info n (n + 6) tls13
  let n := n + 6
  let info ← copyTo info n (n + label.length) label
  let n := n + label.length
  let info ← setAt info n (UInt8.ofNat context.length)
  let n := n + 1
  let info ← copyTo info n (n + context.length) context
  let n := n + context.length
  let info ← sub info 0 n
  hkdfExpandInto secret info out

/-! ## The buffers hold what is concatenated -/

theorem scratchPrevious_eq {t : List UInt8} {tLen : Nat}
    (size : tLen = 0 ∨ tLen = 32 ∧ t.length = 32) : scratchPrevious t tLen =
      .ok (t.take tLen ++ List.replicate (32 + 600 + 1 - tLen) 0, tLen) := by
  rcases size with rfl | ⟨rfl, whole⟩
  · rfl
  · have all : sub t 0 32 = .ok t := by
      have part := sub_append t [] whole
      rwa [List.append_nil] at part
    have stop : 0 + t.length = 32 := by rw [whole]
    have copied := copyTo_append [] (List.replicate (32 + 600 + 1) (0 : UInt8)) t List.length_nil
      stop (by rw [List.length_replicate]; omega)
    rw [List.nil_append, List.nil_append, List.drop_replicate] at copied
    rw [scratchPrevious, if_pos (by decide), bind_of_ok all, bind_of_ok copied, whole,
      List.take_of_length_le (Nat.le_of_eq whole)]
    rfl

theorem scratchMessage_eq {t : List UInt8} {tLen : Nat} (info : List UInt8) (counter : UInt8)
    (size : tLen = 0 ∨ tLen = 32 ∧ t.length = 32) :
    scratchMessage t tLen info counter = .ok (t.take tLen ++ info.take 600 ++ [counter]) := by
  have il : (info.take 600).length = min info.length 600 := by
    rw [List.length_take, Nat.min_comm]
  have front : sub info 0 (min info.length 600) = .ok (info.take 600) := by
    have part := sub_append (info.take 600) (info.drop 600) il
    rwa [List.take_append_drop] at part
  have start : (t.take tLen).length = tLen := by
    rcases size with rfl | ⟨rfl, whole⟩
    · rfl
    · rw [List.length_take, whole, Nat.min_self]
  have most : tLen ≤ 32 := by
    rcases size with rfl | ⟨rfl, _⟩ <;> decide
  have stop : tLen + (info.take 600).length = tLen + min info.length 600 := by rw [il]
  have copied := copyTo_append (t.take tLen) (List.replicate (32 + 600 + 1 - tLen) (0 : UInt8))
    (info.take 600) start stop (by rw [il, List.length_replicate]; omega)
  have behind : (t.take tLen ++ info.take 600).length = tLen + min info.length 600 := by
    rw [List.length_append, start, il]
  have counted := setAt_append (t.take tLen ++ info.take 600)
    ((List.replicate (32 + 600 + 1 - tLen) (0 : UInt8)).drop (info.take 600).length) behind
    (by rw [List.length_drop, List.length_replicate, il]; omega) counter
  rw [scratchMessage, bind_of_ok (scratchPrevious_eq size)]
  simp only
  rw [bind_of_ok front, bind_of_ok copied, bind_of_ok counted]
  refine sub_append _ _ ?_
  rw [List.length_append, List.length_append, start, il, List.length_singleton]

/-- The loop fills the rest of the output with the blocks of the pure expansion. -/
theorem hkdfExpandLoop_eq (prk info : List UInt8) (steps : Nat) (t front rest : List UInt8)
    (tLen : Nat) (counter : UInt8) (size : tLen = 0 ∨ tLen = 32 ∧ t.length = 32)
    (enough : rest.length ≤ steps) :
    hkdfExpandLoop prk info (front.length + rest.length) t tLen front.length counter
        (front ++ rest) =
      .ok (front ++ hkdfBlocks prk info steps (t.take tLen) counter rest.length) := by
  induction steps generalizing t front rest tLen counter with
  | zero =>
    obtain rfl : rest = [] := List.eq_nil_of_length_eq_zero (Nat.le_zero.mp enough)
    rw [hkdfExpandLoop, if_neg (by rw [List.length_nil]; omega), hkdfBlocks]
    rfl
  | succ steps ih =>
    rw [hkdfBlocks]
    by_cases done : rest.length = 0
    · obtain rfl : rest = [] := List.eq_nil_of_length_eq_zero done
      rw [hkdfExpandLoop, if_neg (by rw [List.length_nil]; omega), if_pos done]
      rfl
    · rw [if_neg done]
      simp only
      generalize next : hmacSha256 prk (t.take tLen ++ info.take 600 ++ [counter]) = t'
      have whole : t'.length = 32 := next ▸ length_hmacSha256 _ _
      have left : front.length + rest.length - front.length = rest.length :=
        Nat.add_sub_cancel_left _ _
      have partSize : (t'.take (min rest.length 32)).length = min rest.length 32 := by
        rw [List.length_take, whole, Nat.min_assoc, Nat.min_self]
      have part : sub t' 0 (min rest.length 32) = .ok (t'.take (min rest.length 32)) := by
        have front := sub_append _ (t'.drop (min rest.length 32)) partSize
        rwa [List.take_append_drop] at front
      have stop : front.length + (t'.take (min rest.length 32)).length =
          front.length + min rest.length 32 := by rw [partSize]
      have copied := copyTo_append front rest (t'.take (min rest.length 32)) rfl stop
        (by rw [partSize]; exact Nat.min_le_left _ _)
      rw [hkdfExpandLoop, if_pos (by omega), bind_of_ok (scratchMessage_eq info counter size), next,
        left]
      simp only
      rw [bind_of_ok part, bind_of_ok copied, partSize]
      have shape : (front ++ t'.take (min rest.length 32)).length =
          front.length + min rest.length 32 := by rw [List.length_append, partSize]
      have restSize : (rest.drop (min rest.length 32)).length = rest.length - min rest.length 32 :=
        List.length_drop
      have goal := ih t' (front ++ t'.take (min rest.length 32))
        (rest.drop (min rest.length 32)) 32 (counter + 1) (.inr ⟨rfl, whole⟩)
        (by rw [restSize]; omega)
      rw [shape, restSize, List.take_of_length_le (Nat.le_of_eq whole)] at goal
      have total : front.length + min rest.length 32 + (rest.length - min rest.length 32) =
          front.length + rest.length := by omega
      rw [total] at goal
      rw [goal, List.append_assoc]

theorem hkdfExpandInto_eq (prk info out : List UInt8) :
    hkdfExpandInto prk info out = .ok (hkdfExpand prk info out.length) := by
  have loop := hkdfExpandLoop_eq prk info out.length (List.replicate 32 0) [] out 0 1 (.inl rfl)
    (Nat.le_refl _)
  rw [List.length_nil, Nat.zero_add, List.nil_append, List.nil_append] at loop
  exact loop

theorem setAt_zeros (front : List UInt8) {i k : Nat} (start : front.length = i) (room : 0 < k)
    (a : UInt8) : setAt (front ++ List.replicate k 0) i a =
      .ok (front ++ [a] ++ List.replicate (k - 1) 0) := by
  have put := setAt_append front (List.replicate k (0 : UInt8)) start
    (by rwa [List.length_replicate]) a
  rwa [List.drop_replicate] at put

theorem copyTo_zeros (front src : List UInt8) {lo hi k : Nat} (start : front.length = lo)
    (stop : lo + src.length = hi) (room : src.length ≤ k) :
    copyTo (front ++ List.replicate k 0) lo hi src =
      .ok (front ++ src ++ List.replicate (k - src.length) 0) := by
  have put := copyTo_append front (List.replicate k (0 : UInt8)) src start stop
    (by rwa [List.length_replicate])
  rwa [List.drop_replicate] at put

/-- The length of the output as two bytes. -/
theorem lengthBytes (len : Nat) : (UInt16.ofNat len >>> 8).toUInt8 = UInt8.ofNat (len >>> 8) ∧
    (UInt16.ofNat len).toUInt8 = UInt8.ofNat len := by
  constructor
  · apply UInt8.toNat_inj.mp
    rw [UInt16.toNat_toUInt8, UInt16.toNat_shiftRight, UInt16.toNat_ofNat', UInt8.toNat_ofNat']
    show (len % 2 ^ 16) >>> 8 % 2 ^ 8 = len >>> 8 % 2 ^ 8
    rw [Nat.shiftRight_eq_div_pow, Nat.shiftRight_eq_div_pow]
    omega
  · apply UInt8.toNat_inj.mp
    rw [UInt16.toNat_toUInt8, UInt16.toNat_ofNat', UInt8.toNat_ofNat']
    omega

/-- The label that the offsets lay out is the concatenation of its parts. -/
theorem hkdfExpandLabelInto_eq {label context : List UInt8}
    (fits : label.length + context.length ≤ 590) (secret out : List UInt8) :
    hkdfExpandLabelInto secret label context out =
      hkdfExpandLabel secret label context out.length := by
  obtain ⟨high, low⟩ := lengthBytes out.length
  generalize outLow : UInt8.ofNat out.length = b1 at low
  generalize outHigh : UInt8.ofNat (out.length >>> 8) = b0 at high
  generalize labelLen : UInt8.ofNat (6 + label.length) = b2
  generalize contextLen : UInt8.ofNat context.length = b3
  have size4 : ([b0, b1, b2] ++ tls13 ++ label).length = 9 + label.length := by
    rw [List.length_append]
    rfl
  have size5 : ([b0, b1, b2] ++ tls13 ++ label ++ [b3]).length = 9 + label.length + 1 := by
    rw [List.length_append, size4]
    rfl
  have size6 : ([b0, b1, b2] ++ tls13 ++ label ++ [b3] ++ context).length =
      9 + label.length + 1 + context.length := by
    rw [List.length_append, size5]
  have step0 : setAt (List.replicate 600 0) 0 b0 = .ok ([b0] ++ List.replicate 599 0) :=
    by simpa only [List.nil_append, Nat.reduceSub] using
      setAt_zeros [] (i := 0) (k := 600) rfl (by decide) b0
  have step1 : setAt ([b0] ++ List.replicate 599 0) 1 b1 = .ok ([b0, b1] ++ List.replicate 598 0) :=
    setAt_zeros [b0] rfl (by decide) b1
  have step2 : setAt ([b0, b1] ++ List.replicate 598 0) 2 b2 =
      .ok ([b0, b1, b2] ++ List.replicate 597 0) :=
    setAt_zeros [b0, b1] rfl (by decide) b2
  have step3 : copyTo ([b0, b1, b2] ++ List.replicate 597 0) 3 9 tls13 =
      .ok ([b0, b1, b2] ++ tls13 ++ List.replicate 591 0) :=
    copyTo_zeros [b0, b1, b2] tls13 rfl rfl (by decide)
  have size3 : ([b0, b1, b2] ++ tls13).length = 9 := rfl
  have step4 := copyTo_zeros _ label (k := 591) size3 rfl (by omega)
  have step5 := setAt_zeros _ (k := 591 - label.length) size4 (by omega) b3
  have step6 := copyTo_zeros _ context (k := 591 - label.length - 1) size5 rfl (by omega)
  have room : ([b0, b1, b2] ++ tls13 ++ label ++ [b3] ++ context).length ≤ 600 := by
    rw [size6]
    omega
  have laidOut : hkdfLabel label context out.length =
      .ok ([b0, b1, b2] ++ tls13 ++ label ++ [b3] ++ context) := by
    rw [hkdfLabel, outLow, outHigh, labelLen, contextLen]
    exact if_pos room
  rw [hkdfExpandLabel, bind_of_ok laidOut, hkdfExpandLabelInto]
  simp only [high, low, labelLen, contextLen]
  rw [bind_of_ok step0, bind_of_ok step1, bind_of_ok step2, bind_of_ok step3, bind_of_ok step4,
    bind_of_ok step5, bind_of_ok step6, bind_of_ok (sub_append _ _ size6), hkdfExpandInto_eq]
  rfl

/-! ## The pure functions are those of the documents -/

theorem hmacSha256_eq (key msg : List UInt8) :
    hmacSha256 key msg = Fips180.hmac Fips180.sha256 key msg := by
  have one : ∀ data, sha256 data = Fips180.sha256 data := by
    intro data
    have whole := sha256_pieces [data]
    rwa [List.flatten_cons, List.flatten_nil, List.append_nil] at whole
  have keys : hmacKey sha256 key = Fips180.hmacKey Fips180.sha256 key := by
    rw [hmacKey, Fips180.hmacKey]
    by_cases long : 64 < key.length
    · rw [if_pos long, if_neg (Nat.not_le.mpr long), one]
    · rw [if_neg long, if_pos (Nat.not_lt.mp long)]
  have inner := sha256_pieces [(hmacKey sha256 key).map (· ^^^ 0x36), msg]
  rw [List.flatten_cons, List.flatten_cons, List.flatten_nil, List.append_nil] at inner
  have outer := sha256_pieces [(hmacKey sha256 key).map (· ^^^ 0x5c),
    Fips180.sha256 ((hmacKey sha256 key).map (· ^^^ 0x36) ++ msg)]
  rw [List.flatten_cons, List.flatten_cons, List.flatten_nil, List.append_nil] at outer
  rw [Fips180.hmac, ← keys, ← outer, ← inner]
  rfl

/-- The blocks from `T(n + 1)` on, as many bytes of them as are left. -/
theorem hkdfBlocks_eq (prk : List UInt8) {info : List UInt8} (short : info.length ≤ 600)
    (steps n : Nat) {left : Nat} (enough : left ≤ steps) :
    hkdfBlocks prk info steps (Rfc5869.T (hmacSha256 prk) info n) (UInt8.ofNat (n + 1)) left =
      ((List.range ((left + 31) / 32)).flatMap fun i =>
        Rfc5869.T (hmacSha256 prk) info (n + i + 1)).take left := by
  induction steps generalizing n left with
  | zero =>
    obtain rfl : left = 0 := Nat.le_zero.mp enough
    rfl
  | succ steps ih =>
    rw [hkdfBlocks]
    by_cases done : left = 0
    · rw [if_pos done, done]
      rfl
    · have blockSize : (Rfc5869.T (hmacSha256 prk) info (n + 1)).length = 32 :=
        length_hmacSha256 _ _
      have blocks : (left + 31) / 32 = (left - min left 32 + 31) / 32 + 1 := by omega
      have counter : UInt8.ofNat (n + 1) + 1 = UInt8.ofNat (n + 1 + 1) :=
        (UInt8.ofNat_add (n + 1) 1).symm
      have this : hmacSha256 prk (Rfc5869.T (hmacSha256 prk) info n ++ info.take 600 ++
          [UInt8.ofNat (n + 1)]) = Rfc5869.T (hmacSha256 prk) info (n + 1) := by
        rw [List.take_of_length_le short, Rfc5869.T]
      rw [if_neg done]
      simp only
      rw [this, counter, ih (n + 1) (by omega), blocks, List.range_succ_eq_map, List.flatMap_cons,
        List.flatMap_map, List.take_append, blockSize]
      have order : ∀ i, n + 1 + i + 1 = n + (i + 1) + 1 := fun i => by omega
      rcases Nat.le_total left 32 with less | more
      · rw [Nat.min_eq_left less, Nat.sub_self, Nat.sub_eq_zero_of_le less]
        simp only [List.take_zero, List.append_nil, Nat.add_zero]
      · have all : (Rfc5869.T (hmacSha256 prk) info (n + 1)).take left =
            Rfc5869.T (hmacSha256 prk) info (n + 1) :=
          List.take_of_length_le (blockSize.trans_le more)
        rw [Nat.min_eq_right more, List.take_of_length_le (Nat.le_of_eq blockSize)]
        simp only [order, Nat.succ_eq_add_one, Nat.add_zero, all]

theorem hkdfExpand_eq (prk : List UInt8) {info : List UInt8} (short : info.length ≤ 600)
    (len : Nat) : hkdfExpand prk info len =
      Rfc5869.expand (Fips180.hmac Fips180.sha256 prk) info len := by
  have mac : hmacSha256 prk = Fips180.hmac Fips180.sha256 prk := funext (hmacSha256_eq prk)
  have blocks := hkdfBlocks_eq prk short len 0 (Nat.le_refl len)
  simp only [Nat.zero_add] at blocks
  rw [hkdfExpand, Rfc5869.expand, ← mac]
  exact blocks

theorem hkdfLabel_eq {label context : List UInt8} (shortLabel : label.length ≤ 249)
    (shortContext : context.length ≤ 255) (len : Nat) :
    hkdfLabel label context len = .ok (Rfc8446.hkdfLabel label context len) := by
  have highByte : len >>> 8 = len / 256 := Nat.shiftRight_eq_div_pow len 8
  have lowByte : UInt8.ofNat len = UInt8.ofNat (len % 256) := by
    apply UInt8.toNat_inj.mp
    rw [UInt8.toNat_ofNat', UInt8.toNat_ofNat']
    omega
  have same : [UInt8.ofNat (len >>> 8), UInt8.ofNat len] ++ [UInt8.ofNat (6 + label.length)] ++
      tls13 ++ label ++ [UInt8.ofNat context.length] ++ context =
      Rfc8446.hkdfLabel label context len := by
    have size : (tls13 ++ label).length = 6 + label.length := by
      rw [List.length_append]
      rfl
    rw [highByte, lowByte, Rfc8446.hkdfLabel, Rfc8446.opaque8, Rfc8446.opaque8, size]
    simp only [List.append_assoc, List.cons_append, List.nil_append]
  have room : (Rfc8446.hkdfLabel label context len).length ≤ 600 := by
    rw [← same]
    simp only [List.length_append, List.length_cons, List.length_nil, tls13]
    omega
  rw [hkdfLabel, same, if_pos room]
  rfl

/-- **Key derivation follows the documents**: for every key, every info that fits the buffer and
every output the expansion is that of RFC 5869, and for every secret, label and context of the
lengths that a byte can hold the labelled expansion is that of RFC 8446. -/
theorem hkdf_spec :
    (∀ prk info out : List UInt8, info.length ≤ 600 → out.length ≤ 255 * 32 →
      hkdfExpandInto prk info out =
        .ok (Rfc5869.expand (Fips180.hmac Fips180.sha256 prk) info out.length)) ∧
    ∀ secret label context out : List UInt8, label.length ≤ 249 → context.length ≤ 255 →
      out.length ≤ 255 * 32 →
      hkdfExpandLabelInto secret label context out =
        .ok (Rfc8446.expandLabel Fips180.sha256 secret label context out.length) := by
  refine ⟨fun prk info out short _ => ?_, fun secret label context out labelSize contextSize _ => ?_⟩
  · rw [hkdfExpandInto_eq, hkdfExpand_eq prk short]
  · have laidOut := hkdfLabel_eq labelSize contextSize out.length
    have infoSize : (Rfc8446.hkdfLabel label context out.length).length ≤ 600 := by
      simp only [Rfc8446.hkdfLabel, Rfc8446.opaque8, List.length_append, List.length_cons,
        List.length_nil, tls13]
      omega
    rw [hkdfExpandLabelInto_eq (by omega), hkdfExpandLabel, bind_of_ok laidOut, Rfc8446.expandLabel,
      ← hkdfExpand_eq secret infoSize]
    rfl

/-- A key of the record layer: an output of a block and eight bytes. -/
theorem hkdf_spec_used :
    hkdfExpandInto [1] [2] (List.replicate 40 0) =
      .ok (Rfc5869.expand (Fips180.hmac Fips180.sha256 [1]) [2] 40) ∧
    hkdfExpandLabelInto [1] [0x6b, 0x65, 0x79] [] (List.replicate 40 0) =
      .ok (Rfc8446.expandLabel Fips180.sha256 [1] [0x6b, 0x65, 0x79] [] 40) :=
  ⟨hkdf_spec.1 [1] [2] (List.replicate 40 0) (by decide) (by decide),
    hkdf_spec.2 [1] [0x6b, 0x65, 0x79] [] (List.replicate 40 0) (by decide) (by decide) (by decide)⟩

end Crypto

end RustyPenguin
