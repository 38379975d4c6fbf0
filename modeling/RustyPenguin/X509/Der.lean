import RustyPenguin.Foundation.Checked

/-!
# Walking DER

`tlv` reads one tag-length-value record at the front of a byte string, `Seq.next`
steps over it, and every loop of the certificate parser is a walk over such steps
(`eachTlv`). All three are written with bounds-checked access and machine-word
arithmetic, so that a slice or a sum out of range would show up as a fault.

`Reads` says what a record read from a buffer is: its encoding is a prefix of the
buffer of at least two bytes, and its content is the tail of that encoding. A step
therefore always consumes bytes, which is why a walk that is given one more step than
there are bytes never runs out of them.
-/

set_option autoImplicit false

namespace RustyPenguin.X509

open Checked

/-- One parsed TLV: tag byte, the content bytes, and the total encoded length. -/
structure Tlv where
  tag : UInt8
  content : List UInt8
  total : Nat
  deriving DecidableEq, Repr

/-- Shift in a `usize`, which drops the bits shifted out. -/
def shl64 (a k : Nat) : Nat := (a <<< k) % 2 ^ 64

/-- The length in the `n` octets from position 2 on. -/
def lengthOctets (buf : List UInt8) : Nat → Checked Nat
  | 0 => pure 0
  | n + 1 => do
    let l ← lengthOctets buf n
    let i ← addIn 64 2 n
    let b ← index buf i
    pure (shl64 l 8 ||| b.toNat)

/-- The content length and the header length. -/
def tlvLength (buf : List UInt8) (b1 : Nat) : Checked (Nat × Nat) :=
  if b1 < 0x80 then pure (b1, 2)
  else do
    let n := b1 &&& 0x7f
    let hdr ← addIn 64 2 n
    if n = 0 ∨ n > 3 ∨ buf.length < hdr then refuse
    else do
      let l ← lengthOctets buf n
      pure (l, hdr)

/-- Read a single DER TLV at the front of `buf`. -/
def tlv (buf : List UInt8) : Checked Tlv :=
  if buf.length < 2 then refuse
  else do
    let tag ← index buf 0
    let b1 ← index buf 1
    let (len, hdr) ← tlvLength buf b1.toNat
    let total ← addIn 64 hdr len
    if buf.length < total then refuse
    else do
      let content ← sub buf hdr total
      pure ⟨tag, content, total⟩

/-- The next record of a sequence, and what follows it. -/
def Seq.next (rest : List UInt8) : Checked (Tlv × List UInt8) := do
  let t ← tlv rest
  let rest' ← sub rest t.total rest.length
  pure (t, rest')

/-- Run `body` on the records of a sequence until it is done or no record is left. -/
def walk {σ : Type} (body : σ → Tlv → Checked (ForInStep σ)) :
    Nat → List UInt8 → σ → Checked σ
  | 0, _, _ => fault
  | steps + 1, rest, s => do
    match ← attempt (Seq.next rest) with
    | none => pure s
    | some (t, rest') =>
      match ← body s t with
      | .done s' => pure s'
      | .yield s' => walk body steps rest' s'

/-- A loop over the records of a sequence. -/
def eachTlv {σ : Type} (body : σ → Tlv → Checked (ForInStep σ)) (rest : List UInt8) (s : σ) :
    Checked σ :=
  walk body (rest.length + 1) rest s

/-! ## One record -/

/-- `t` is the record at the front of `buf`. -/
structure Reads (buf : List UInt8) (t : Tlv) : Prop where
  two_le : 2 ≤ t.total
  total_le : t.total ≤ buf.length
  encoded : ∃ header, buf.take t.total = header ++ t.content
  tag : buf[0]? = some t.tag

theorem Reads.content_infix {buf : List UInt8} {t : Tlv} (reads : Reads buf t) :
    t.content <:+: buf := by
  obtain ⟨header, encoded⟩ := reads.encoded
  have tail : t.content <:+ buf.take t.total := ⟨header, encoded.symm⟩
  exact tail.isInfix.trans (List.take_prefix _ _).isInfix

theorem lengthOctets_holds {buf : List UInt8} (n : Nat) (small : n ≤ 3)
    (inside : 2 + n ≤ buf.length) : Holds (lengthOctets buf n) fun l => l < 2 ^ (8 * n) := by
  induction n with
  | zero => exact Nat.one_pos
  | succ n ih =>
    rw [lengthOctets]
    refine (ih (by omega) (by omega)).bind fun l bound => ?_
    have fits : 2 + n < 2 ^ 64 := by omega
    refine (holds_addIn fits).bind ?_
    rintro i rfl
    refine (holds_index (by omega)).bind fun b _ => ?_
    have shifted : shl64 l 8 < 2 ^ (8 * (n + 1)) := by
      refine Nat.lt_of_le_of_lt (Nat.mod_le _ _) ?_
      rw [Nat.shiftLeft_eq, Nat.mul_add, Nat.pow_add]
      exact Nat.mul_lt_mul_of_pos_right bound (Nat.two_pow_pos 8)
    have byte : b.toNat < 2 ^ (8 * (n + 1)) :=
      Nat.lt_of_lt_of_le b.toNat_lt (Nat.pow_le_pow_right Nat.two_pos (by omega))
    exact Nat.or_lt_two_pow shifted byte

theorem tlvLength_holds {buf : List UInt8} {b1 : Nat} (byte : b1 < 256) (two : 2 ≤ buf.length) :
    Holds (tlvLength buf b1) fun p => 2 ≤ p.2 ∧ p.2 ≤ buf.length ∧ p.2 + p.1 < 2 ^ 64 := by
  rw [tlvLength]
  refine Holds.ite (fun short => ?_) fun _ => ?_
  · have fits : 2 + b1 < 2 ^ 64 := by omega
    exact ⟨Nat.le_refl 2, two, fits⟩
  · have count : b1 &&& 0x7f ≤ 0x7f := Nat.and_le_right
    refine (holds_addIn (by omega)).bind ?_
    rintro hdr rfl
    refine Holds.ite (fun _ => trivial) fun accepted => ?_
    refine (lengthOctets_holds _ (by omega) (by omega)).bind fun l bound => ?_
    have small : 2 ^ (8 * (b1 &&& 0x7f)) ≤ 2 ^ 24 :=
      Nat.pow_le_pow_right Nat.two_pos (by omega)
    have fits : 2 + (b1 &&& 0x7f) + l < 2 ^ 64 := by omega
    exact ⟨Nat.le_add_right 2 _, by omega, fits⟩

/-- Reading a record never leaves the buffer. -/
theorem tlv_holds (buf : List UInt8) : Holds (tlv buf) (Reads buf) := by
  rw [tlv]
  refine Holds.ite (fun _ => trivial) fun two => ?_
  refine (holds_index (by omega)).bind fun tag isTag => ?_
  refine (holds_index (by omega)).bind fun b1 _ => ?_
  refine (tlvLength_holds b1.toNat_lt (by omega)).bind ?_
  rintro ⟨len, hdr⟩ ⟨header, inside, fits⟩
  refine (holds_addIn fits).bind ?_
  rintro total rfl
  refine Holds.ite (fun _ => trivial) fun whole => ?_
  refine (holds_sub (Nat.le_add_right hdr len) (by omega)).bind ?_
  rintro content rfl
  refine ⟨by simp only; omega, by simp only; omega, ⟨buf.take hdr, ?_⟩, isTag⟩
  simp only [Nat.add_sub_cancel_left]
  exact List.take_add

/-- The parts of a record that was read. -/
theorem tlv_eq_ok {buf : List UInt8} {t : Tlv} :
    tlv buf = .ok t ↔ 2 ≤ buf.length ∧ index buf 0 = .ok t.tag ∧
      ∃ b1 len hdr, index buf 1 = .ok b1 ∧ tlvLength buf b1.toNat = .ok (len, hdr) ∧
        addIn 64 hdr len = .ok t.total ∧ t.total ≤ buf.length ∧
          sub buf hdr t.total = .ok t.content := by
  rw [tlv]
  constructor
  · intro read
    by_cases short : buf.length < 2
    · rw [if_pos short] at read
      cases read
    · rw [if_neg short] at read
      obtain ⟨tag, isTag, read⟩ := bind_eq_ok.mp read
      obtain ⟨b1, isLength, read⟩ := bind_eq_ok.mp read
      obtain ⟨⟨len, hdr⟩, lengths, read⟩ := bind_eq_ok.mp read
      obtain ⟨total, sum, read⟩ := bind_eq_ok.mp read
      by_cases cut : buf.length < total
      · rw [if_pos cut] at read
        cases read
      · rw [if_neg cut] at read
        obtain ⟨content, isContent, read⟩ := bind_eq_ok.mp read
        cases read
        exact ⟨Nat.le_of_not_lt short, isTag, b1, len, hdr, isLength, lengths, sum,
          Nat.le_of_not_lt cut, isContent⟩
  · rintro ⟨two, isTag, b1, len, hdr, isLength, lengths, sum, whole, isContent⟩
    rw [if_neg (Nat.not_lt.mpr two)]
    refine bind_eq_ok.mpr ⟨t.tag, isTag, bind_eq_ok.mpr ⟨b1, isLength,
      bind_eq_ok.mpr ⟨(len, hdr), lengths, bind_eq_ok.mpr ⟨t.total, sum, ?_⟩⟩⟩⟩
    rw [if_neg (Nat.not_lt.mpr whole)]
    exact bind_eq_ok.mpr ⟨t.content, isContent, rfl⟩

theorem index_take {buf : List UInt8} {i k : Nat} (before : i < k) :
    index (buf.take k) i = index buf i := by
  rw [index, index, List.getElem?_take_of_lt before]

theorem lengthOctets_take {buf : List UInt8} {k : Nat} (n : Nat) (inside : 2 + n ≤ k) :
    lengthOctets (buf.take k) n = lengthOctets buf n := by
  induction n with
  | zero => rfl
  | succ n ih =>
    rw [lengthOctets, lengthOctets, ih (by omega)]
    refine congrArg (lengthOctets buf n >>= ·) (funext fun l => ?_)
    by_cases fits : 2 + n < 2 ^ 64
    · have sum : addIn 64 2 n = .ok (2 + n) := if_pos fits
      have same : index (buf.take k) (2 + n) = index buf (2 + n) := index_take (by omega)
      rw [sum]
      exact congrArg (· >>= fun b => pure (shl64 l 8 ||| b.toNat)) same
    · have sum : addIn 64 2 n = .error .fault := if_neg fits
      rw [sum]
      rfl

theorem tlvLength_take {buf : List UInt8} {b1 len hdr k : Nat}
    (lengths : tlvLength buf b1 = .ok (len, hdr)) (inside : hdr ≤ k) (fits : k ≤ buf.length) :
    tlvLength (buf.take k) b1 = .ok (len, hdr) := by
  rw [tlvLength] at lengths ⊢
  by_cases short : b1 < 0x80
  · rw [if_pos short] at lengths ⊢
    exact lengths
  · rw [if_neg short] at lengths ⊢
    obtain ⟨hdr', sum, lengths⟩ := bind_eq_ok.mp lengths
    refine bind_eq_ok.mpr ⟨hdr', sum, ?_⟩
    by_cases refused : b1 &&& 0x7f = 0 ∨ b1 &&& 0x7f > 3 ∨ buf.length < hdr'
    · rw [if_pos refused] at lengths
      cases lengths
    · rw [if_neg refused] at lengths
      obtain ⟨l, octets, result⟩ := bind_eq_ok.mp lengths
      cases result
      have header : hdr = 2 + (b1 &&& 0x7f) := by
        rw [addIn] at sum
        split at sum
        · exact (Except.ok.inj sum).symm
        · cases sum
      have size : (buf.take k).length = k := List.length_take_of_le fits
      have accepted : ¬ (b1 &&& 0x7f = 0 ∨ b1 &&& 0x7f > 3 ∨ (buf.take k).length < hdr) := by
        rw [size]
        omega
      rw [if_neg accepted]
      exact bind_eq_ok.mpr ⟨len, (lengthOctets_take _ (by omega)).trans octets, rfl⟩

/-- A record is read from its encoding alone. -/
theorem tlv_take {buf : List UInt8} {t : Tlv} (read : tlv buf = .ok t) :
    tlv (buf.take t.total) = .ok t := by
  have reads := (tlv_holds buf).of_ok read
  obtain ⟨two, isTag, b1, len, hdr, isLength, lengths, sum, whole, isContent⟩ := tlv_eq_ok.1 read
  have size : (buf.take t.total).length = t.total := List.length_take_of_le whole
  obtain ⟨ordered, _, content⟩ := sub_eq_ok.mp isContent
  refine tlv_eq_ok.2 ⟨size.symm ▸ reads.two_le, ?_, b1, len, hdr, ?_, ?_, sum, size.ge, ?_⟩
  · rw [index_take (by have := reads.two_le; omega), isTag]
  · rw [index_take reads.two_le, isLength]
  · exact tlvLength_take lengths ordered whole
  · refine sub_eq_ok.mpr ⟨ordered, size.ge, ?_⟩
    rw [content, List.drop_take, List.take_take, Nat.min_self]

/-! ## A step of a walk -/

/-- What one step over a sequence does: it consumes the record it returns. -/
structure Steps (rest : List UInt8) (t : Tlv) (rest' : List UInt8) : Prop where
  reads : Reads rest t
  split : rest = rest.take t.total ++ rest'
  shorter : rest'.length < rest.length

theorem next_holds (rest : List UInt8) :
    Holds (Seq.next rest) fun p => tlv rest = .ok p.1 ∧ Steps rest p.1 p.2 := by
  rw [Seq.next]
  refine (tlv_holds rest).returned.bind fun t reads => ?_
  refine (holds_sub reads.2.total_le (Nat.le_refl _)).bind ?_
  rintro rest' rfl
  have left : ((rest.drop t.total).take (rest.length - t.total)) = rest.drop t.total := by
    rw [← List.length_drop, List.take_length]
  have two := reads.2.two_le
  have inside := reads.2.total_le
  refine ⟨reads.1, reads.2, ?_, ?_⟩
  · rw [left, List.take_append_drop]
  · rw [left, List.length_drop]
    omega

/-- **Walks are safe**: a walk does not fault, nor run out of steps, when its body keeps
`Inv` without faulting on records whose content lies in the walked sequence. -/
theorem walk_holds {σ : Type} {body : σ → Tlv → Checked (ForInStep σ)} {Inv : σ → Prop}
    {source : List UInt8}
    (kept : ∀ s t, Inv s → t.content <:+: source → Holds (body s t) fun r => Inv r.value)
    (steps : Nat) (rest : List UInt8) (s : σ) (enough : rest.length < steps)
    (inside : rest <:+ source) (holds : Inv s) : Holds (walk body steps rest s) Inv := by
  induction steps generalizing rest s with
  | zero => exact absurd enough (Nat.not_lt_zero _)
  | succ steps ih =>
    rw [walk]
    refine (next_holds rest).attempt.bind fun step? step => ?_
    cases step? with
    | none => exact holds
    | some pair =>
      obtain ⟨t, rest'⟩ := pair
      have made := (step (t, rest') rfl).2
      have content : t.content <:+: source := made.reads.content_infix.trans inside.isInfix
      refine (kept s t holds content).bind fun r holds' => ?_
      have suffix : rest' <:+ rest := ⟨rest.take t.total, made.split.symm⟩
      cases r with
      | done s' => exact holds'
      | yield s' =>
        have shorter : rest'.length < rest.length := made.shorter
        exact ih rest' s' (by omega) (suffix.trans inside) holds'

theorem eachTlv_holds {σ : Type} {body : σ → Tlv → Checked (ForInStep σ)} {Inv : σ → Prop}
    {source : List UInt8} {s : σ}
    (kept : ∀ s t, Inv s → t.content <:+: source → Holds (body s t) fun r => Inv r.value)
    (holds : Inv s) : Holds (eachTlv body source s) Inv :=
  walk_holds kept _ source s (Nat.lt_succ_self _) (List.suffix_refl _) holds

/-- `t` is one of the records a walk over a sequence meets. -/
inductive Listed : List UInt8 → Tlv → Prop where
  | here {rest rest' : List UInt8} {t : Tlv} : Seq.next rest = .ok (t, rest') → Listed rest t
  | there {rest rest' : List UInt8} {t' t : Tlv} : Seq.next rest = .ok (t', rest') →
      Listed rest' t → Listed rest t

/-- A walk that ends outside `Inv` met a record whose body left `Inv`. -/
theorem walk_visits {σ : Type} {body : σ → Tlv → Checked (ForInStep σ)} (Inv : σ → Prop)
    {steps : Nat} {rest : List UInt8} {s s' : σ} (ends : walk body steps rest s = .ok s')
    (starts : Inv s) (left : ¬ Inv s') :
    ∃ s₀ t r, Listed rest t ∧ Inv s₀ ∧ body s₀ t = .ok r ∧ ¬ Inv r.value := by
  induction steps generalizing rest s with
  | zero => cases ends
  | succ steps ih =>
    rw [walk] at ends
    obtain ⟨step?, stepped, ends⟩ := bind_eq_ok.mp ends
    cases step? with
    | none =>
      cases ends
      exact absurd starts left
    | some pair =>
      obtain ⟨t, rest'⟩ := pair
      have next : Seq.next rest = .ok (t, rest') := attempt_eq_some stepped
      obtain ⟨r, ran, ends⟩ := bind_eq_ok.mp ends
      cases r with
      | done s₁ =>
        cases ends
        exact ⟨s, t, .done s', .here next, starts, ran, left⟩
      | yield s₁ =>
        by_cases kept : Inv s₁
        · obtain ⟨s₀, t₀, r, listed, holds, ran, out⟩ := ih ends kept
          exact ⟨s₀, t₀, r, .there next listed, holds, ran, out⟩
        · exact ⟨s, t, .yield s₁, .here next, starts, ran, kept⟩

end RustyPenguin.X509
