import RustyPenguin.Browser.Reading
import RustyPenguin.Foundation.Unsigned

/-!
# Colours of style sheets

`parse_hex` reads `#rgb` and `#rrggbb`. It works on the bytes of the trimmed text: three of them are
read one by one, six go to the integer parser of the standard library, which also takes a sign.

A byte that is a digit is a character of its own, so the bytes of a text are digits exactly when its
characters are (`digits_utf8`).
-/

set_option autoImplicit false

namespace RustyPenguin.Css

open Files (Bytes)
open Foundation
open Browser (utf8)

/-! ## The parser -/

/-- `hex_digit`. -/
def hexDigit (c : UInt8) : Option UInt8 :=
  if 0x30 ≤ c ∧ c ≤ 0x39 then some (c - 0x30)
  else if 0x61 ≤ c ∧ c ≤ 0x66 then some (c - 0x61 + 10)
  else if 0x41 ≤ c ∧ c ≤ 0x46 then some (c - 0x41 + 10)
  else none

/-- `char::to_digit` in base sixteen. -/
def toDigit (c : Char) : Option Nat :=
  if '0' ≤ c ∧ c ≤ '9' then some (c.toNat - 48)
  else if 'a' ≤ c ∧ c ≤ 'f' then some (c.toNat - 87)
  else if 'A' ≤ c ∧ c ≤ 'F' then some (c.toNat - 55)
  else none

/-- The digit that a byte is as a character. -/
def byteDigit (b : UInt8) : Option Nat := toDigit (Char.ofNat b.toNat)

/-- One more digit of a number of 32 bits. -/
def radixStep (value : Nat) (b : UInt8) : Option Nat := do
  let d ← byteDigit b
  if value * 16 + d < 2 ^ 32 then some (value * 16 + d) else none

/-- `u32::from_str_radix` in base sixteen. -/
def fromStrRadix (src : Bytes) : Option Nat :=
  match src with
  | [] => none
  | [0x2b] => none
  | [0x2d] => none
  | 0x2b :: digits => digits.foldlM radixStep 0
  | digits => digits.foldlM radixStep 0

/-- A digit of the short form stands for two. -/
def expandStep (v : UInt32) (ch : UInt8) : Option UInt32 := do
  let d ← hexDigit ch
  some ((v <<< 8) ||| ((d.toUInt32 <<< 4) ||| d.toUInt32))

/-- `parse_hex`. -/
def parseHex (s : Text) : Option UInt32 :=
  match trim s with
  | '#' :: s =>
    if (utf8 s).length = 3 then (utf8 s).foldlM expandStep 0
    else if (utf8 s).length = 6 then (fromStrRadix (utf8 s)).map UInt32.ofNat
    else none
  | _ => none

/-! ## What a colour is -/

/-- The number a list of digits stands for. -/
def number (digits : List Nat) : Nat := digits.foldl (fun n d => n * 16 + d) 0

/-- A text notates a colour: three digits, each for two, or six. -/
def Notates (s : Text) (colour : Nat) : Prop :=
  ∃ cs ds, s = '#' :: cs ∧ cs.mapM toDigit = some ds ∧
    (cs.length = 3 ∧ colour = number (ds.flatMap fun d => [d, d]) ∨
      cs.length = 6 ∧ colour = number ds)

/-- A sign and five digits. -/
def Signed (s : Text) : Prop :=
  ∃ cs ds, s = '#' :: '+' :: cs ∧ cs.mapM toDigit = some ds ∧ cs.length = 5

/-! ## Digits and bytes -/

theorem toDigit_wide {c : Char} (wide : 128 ≤ c.toNat) : toDigit c = none := by
  have above (d : Char) (ascii : d.toNat < 128) : ¬c ≤ d := fun below =>
    absurd (UInt32.le_iff_toNat_le.mp below) (Nat.not_le.mpr (Nat.lt_of_lt_of_le ascii wide))
  rw [toDigit, if_neg fun range => above '9' (by decide) range.2,
    if_neg fun range => above 'f' (by decide) range.2,
    if_neg fun range => above 'F' (by decide) range.2]

theorem toDigit_lt {c : Char} {d : Nat} (digit : toDigit c = some d) : d < 16 := by
  rw [toDigit] at digit
  split_ifs at digit with low small large
  · have top : c.toNat ≤ 57 := UInt32.le_iff_toNat_le.mp low.2
    have value := Option.some.inj digit
    omega
  · have top : c.toNat ≤ 102 := UInt32.le_iff_toNat_le.mp small.2
    have value := Option.some.inj digit
    omega
  · have top : c.toNat ≤ 70 := UInt32.le_iff_toNat_le.mp large.2
    have value := Option.some.inj digit
    omega

set_option maxRecDepth 16000 in
theorem hexDigit_table : ∀ n, n < 256 →
    (hexDigit (UInt8.ofNat n)).map UInt8.toNat = toDigit (Char.ofNat n) := by
  decide

theorem hexDigit_byteDigit (b : UInt8) : (hexDigit b).map UInt8.toNat = byteDigit b := by
  have entry := hexDigit_table b.toNat b.toNat_lt
  rwa [UInt8.ofNat_toNat] at entry

/-- The bytes of a text are digits when its characters are. -/
theorem digits_utf8 (cs : Text) : (utf8 cs).mapM byteDigit = cs.mapM toDigit := by
  induction cs with
  | nil => rfl
  | cons c cs ih =>
    rw [← List.singleton_append, Browser.utf8_append, Browser.utf8_singleton]
    by_cases ascii : c.toNat < 128
    · have own : byteDigit (UInt8.ofNat c.toNat) = toDigit c := by
        rw [byteDigit, UInt8.toNat_ofNat_of_lt' (ascii.trans (by decide)), Char.ofNat_toNat]
      rw [Browser.utf8EncodeChar_of_ascii ascii, List.singleton_append, List.singleton_append,
        List.mapM_cons, List.mapM_cons, own, ih]
    · have wide : 128 ≤ c.toNat := Nat.le_of_not_lt ascii
      obtain ⟨b, bytes, encoded⟩ := List.exists_cons_of_ne_nil (String.utf8EncodeChar_ne_nil (c := c))
      have high : 0x80 ≤ b :=
        Browser.le_of_mem_utf8EncodeChar wide b (encoded ▸ List.mem_cons_self)
      have none : byteDigit b = none := by
        have above := UInt8.le_iff_toNat_le.mp high
        have below := b.toNat_lt
        refine toDigit_wide ?_
        rw [Char.ofNat, dif_pos (.inl (by omega))]
        exact above
      rw [encoded, List.cons_append, List.singleton_append, List.mapM_cons, List.mapM_cons, none,
        toDigit_wide wide]
      rfl

theorem digits_cons {α : Type} {digit : α → Option Nat} {a : α} {l : List α} {ds : List Nat} :
    (a :: l).mapM digit = some ds ↔
      ∃ d rest, digit a = some d ∧ l.mapM digit = some rest ∧ ds = d :: rest := by
  rw [List.mapM_cons]
  constructor
  · intro digits
    obtain ⟨d, first, digits⟩ := Option.bind_eq_some_iff.mp digits
    obtain ⟨rest, more, same⟩ := Option.bind_eq_some_iff.mp digits
    exact ⟨d, rest, first, more, (Option.some.inj same).symm⟩
  · rintro ⟨d, rest, first, more, rfl⟩
    rw [first, more]
    rfl

theorem length_of_digits {α : Type} {digit : α → Option Nat} {l : List α} {ds : List Nat}
    (digits : l.mapM digit = some ds) : ds.length = l.length := by
  induction l generalizing ds with
  | nil =>
    obtain rfl := Option.some.inj digits
    rfl
  | cons a l ih =>
    obtain ⟨d, rest, _, more, rfl⟩ := digits_cons.1 digits
    rw [List.length_cons, List.length_cons, ih more]

/-! ## The two forms -/

theorem expandStep_none {v : UInt32} {b : UInt8} (other : byteDigit b = none) :
    expandStep v b = none := by
  rw [← hexDigit_byteDigit, Option.map_eq_none_iff] at other
  rw [expandStep, other]
  rfl

/-- A digit of the short form is read twice. -/
theorem expandStep_some {v : UInt32} {b : UInt8} {d : Nat} (digit : byteDigit b = some d)
    (room : v.toNat < 2 ^ 24) :
    ∃ w, expandStep v b = some w ∧ w.toNat = (v.toNat * 16 + d) * 16 + d := by
  have small : d < 16 := toDigit_lt digit
  rw [← hexDigit_byteDigit] at digit
  obtain ⟨u, isDigit, rfl⟩ := Option.map_eq_some_iff.mp digit
  refine ⟨_, by rw [expandStep, isDigit]; rfl, ?_⟩
  have value : u.toUInt32.toNat = u.toNat := UInt8.toNat_toUInt32 u
  have both : (u.toUInt32 <<< 4 ||| u.toUInt32).toNat = u.toNat * 16 + u.toNat := by
    rw [UInt32.or_comm, Unsigned.toNat_or_shl (k := 4) rfl (by decide) (by omega), value]
    omega
  rw [UInt32.or_comm, Unsigned.toNat_or_shl (k := 8) rfl (by decide) (by omega), both]
  omega

/-- A loop over bytes that needs digits ends without a value at any other byte. -/
theorem foldlM_none {σ : Type} {step : σ → UInt8 → Option σ}
    (stops : ∀ v b, byteDigit b = none → step v b = none) {bs : Bytes}
    (other : bs.mapM byteDigit = none) (v : σ) : bs.foldlM step v = none := by
  induction bs generalizing v with
  | nil => cases other
  | cons b bs ih =>
    rw [List.foldlM_cons]
    cases first : byteDigit b with
    | none =>
      rw [stops v b first]
      rfl
    | some d =>
      cases stepped : step v b with
      | none => rfl
      | some w =>
        refine ih ?_ w
        cases more : bs.mapM byteDigit with
        | none => rfl
        | some ds =>
          rw [digits_cons.2 ⟨d, ds, first, more, rfl⟩] at other
          cases other

/-- The short form has each of its digits twice. -/
theorem expand_run {bs : Bytes} {ds : List Nat} (digits : bs.mapM byteDigit = some ds) {k : Nat}
    (room : k + bs.length ≤ 4) {v : UInt32} (held : v.toNat < 2 ^ (8 * k)) :
    ∃ w, bs.foldlM expandStep v = some w ∧
      w.toNat = (ds.flatMap fun d => [d, d]).foldl (fun n d => n * 16 + d) v.toNat := by
  induction bs generalizing ds k v with
  | nil =>
    obtain rfl := Option.some.inj digits
    exact ⟨v, rfl, rfl⟩
  | cons b bs ih =>
    obtain ⟨d, rest, first, more, rfl⟩ := digits_cons.1 digits
    rw [List.length_cons] at room
    have inside : v.toNat < 2 ^ 24 :=
      held.trans_le (Nat.pow_le_pow_right (by decide) (by omega))
    obtain ⟨w, stepped, value⟩ := expandStep_some first inside
    have small : d < 16 := toDigit_lt first
    have next : w.toNat < 2 ^ (8 * (k + 1)) := by
      have wider : 2 ^ (8 * (k + 1)) = 2 ^ (8 * k) * 256 := by
        rw [Nat.mul_succ, Nat.pow_add]
      rw [value, wider]
      omega
    obtain ⟨last, ran, same⟩ := ih more (k := k + 1) (by omega) next
    refine ⟨last, ?_, ?_⟩
    · rw [List.foldlM_cons, stepped]
      exact ran
    · rw [same, value]
      rfl

/-- Eight digits and fewer are a number of 32 bits. -/
theorem radix_run {bs : Bytes} {ds : List Nat} (digits : bs.mapM byteDigit = some ds) {k : Nat}
    (room : k + bs.length ≤ 8) (value : Nat) (held : value < 16 ^ k) :
    bs.foldlM radixStep value = some (ds.foldl (fun n d => n * 16 + d) value) ∧
      ds.foldl (fun n d => n * 16 + d) value < 2 ^ 32 := by
  induction bs generalizing ds k value with
  | nil =>
    obtain rfl := Option.some.inj digits
    exact ⟨rfl, held.trans_le ((Nat.pow_le_pow_right (by decide) room).trans (by decide))⟩
  | cons b bs ih =>
    obtain ⟨d, rest, first, more, rfl⟩ := digits_cons.1 digits
    rw [List.length_cons] at room
    have small : d < 16 := toDigit_lt first
    have next : value * 16 + d < 16 ^ (k + 1) := by
      rw [Nat.pow_succ]
      omega
    have inside : value * 16 + d < 2 ^ 32 :=
      next.trans_le ((Nat.pow_le_pow_right (by decide) (by omega : k + 1 ≤ 8)).trans (by decide))
    have stepped : radixStep value b = some (value * 16 + d) := by
      rw [radixStep, first]
      exact if_pos inside
    rw [List.foldlM_cons, stepped]
    exact ih more (k := k + 1) (by omega) _ next

theorem radixStep_none (value : Nat) (b : UInt8) (other : byteDigit b = none) :
    radixStep value b = none := by
  rw [radixStep, other]
  rfl

theorem fromStrRadix_cons (b b' : UInt8) (rest : Bytes) :
    fromStrRadix (b :: b' :: rest) =
      if b = 0x2b then (b' :: rest).foldlM radixStep 0
      else (b :: b' :: rest).foldlM radixStep 0 := by
  by_cases plus : b = 0x2b
  · rw [if_pos plus, plus]
    rfl
  · rw [if_neg plus, fromStrRadix]
    · exact (nomatch ·)
    · exact (nomatch ·)
    · exact (nomatch ·)
    · intro rest' same
      exact plus (List.cons.inj same).1

/-- A text whose bytes begin with a plus begins with one. -/
theorem utf8_plus {cs : Text} {rest : Bytes} (bytes : utf8 cs = 0x2b :: rest) :
    ∃ cs', cs = '+' :: cs' ∧ rest = utf8 cs' := by
  cases cs with
  | nil => cases bytes
  | cons c cs =>
    rw [← List.singleton_append, Browser.utf8_append, Browser.utf8_singleton] at bytes
    by_cases ascii : c.toNat < 128
    · rw [Browser.utf8EncodeChar_of_ascii ascii, List.singleton_append] at bytes
      obtain ⟨first, rfl⟩ := List.cons.inj bytes
      refine ⟨cs, ?_, rfl⟩
      by_contra other
      exact Browser.byte_ne (d := '+') ascii (by decide)
        (fun same => other (congrArg (· :: cs) same)) first
    · obtain ⟨b, more, encoded⟩ := List.exists_cons_of_ne_nil (String.utf8EncodeChar_ne_nil (c := c))
      have high : 0x80 ≤ b := Browser.le_of_mem_utf8EncodeChar (Nat.le_of_not_lt ascii) b
        (encoded ▸ List.mem_cons_self)
      rw [encoded, List.cons_append] at bytes
      rw [(List.cons.inj bytes).1] at high
      exact absurd high (by decide)

/-! ## What the parser accepts -/

/-- What stands behind the hash. -/
theorem notates_hash {cs : Text} {colour : Nat} :
    Notates ('#' :: cs) colour ↔ ∃ ds, cs.mapM toDigit = some ds ∧
      (cs.length = 3 ∧ colour = number (ds.flatMap fun d => [d, d]) ∨
        cs.length = 6 ∧ colour = number ds) := by
  constructor
  · rintro ⟨_, ds, same, digits, forms⟩
    obtain rfl := (List.cons.inj same).2
    exact ⟨ds, digits, forms⟩
  · rintro ⟨ds, digits, forms⟩
    exact ⟨cs, ds, rfl, digits, forms⟩

/-- Six digits and more are no sign. -/
theorem fromStrRadix_digits {bs : Bytes} {ds : List Nat} (digits : bs.mapM byteDigit = some ds)
    (two : 2 ≤ bs.length) (room : bs.length ≤ 8) :
    fromStrRadix bs = some (number ds) ∧ number ds < 2 ^ 32 := by
  obtain ⟨ran, inside⟩ := radix_run digits (k := 0) (by omega) 0 (by decide)
  refine ⟨?_, inside⟩
  match bs, two with
  | b :: b' :: rest, _ =>
    have first : b ≠ 0x2b := by
      rintro rfl
      obtain ⟨d, _, impossible, _⟩ := digits_cons.1 digits
      cases impossible
    rw [fromStrRadix_cons, if_neg first]
    exact ran

/-- What `parse_hex` does behind the hash. -/
theorem parseHex_hash {s cs : Text} (hash : trim s = '#' :: cs) :
    parseHex s =
      if (utf8 cs).length = 3 then (utf8 cs).foldlM expandStep 0
      else if (utf8 cs).length = 6 then (fromStrRadix (utf8 cs)).map UInt32.ofNat
      else none := by
  rw [parseHex, hash]
  rfl

/-- Digits behind the hash are read. -/
theorem parseHex_digits {s cs : Text} (hash : trim s = '#' :: cs) {ds : List Nat}
    (digits : cs.mapM toDigit = some ds) (v : UInt32) :
    parseHex s = some v ↔ cs.length = 3 ∧ v.toNat = number (ds.flatMap fun d => [d, d]) ∨
      cs.length = 6 ∧ v.toNat = number ds := by
  have own : (utf8 cs).mapM byteDigit = some ds := (digits_utf8 cs).trans digits
  have size : (utf8 cs).length = cs.length :=
    (length_of_digits own).symm.trans (length_of_digits digits)
  rw [parseHex_hash hash]
  by_cases three : cs.length = 3
  · obtain ⟨w, ran, value⟩ := expand_run own (k := 0) (by omega) (v := 0) (by decide)
    rw [if_pos (size.trans three), ran]
    constructor
    · intro read
      obtain rfl := Option.some.inj read
      exact .inl ⟨three, value⟩
    · rintro (⟨_, colour⟩ | ⟨six, _⟩)
      · exact congrArg some (UInt32.toNat_inj.mp (value.trans colour.symm))
      · omega
  · rw [if_neg fun short => three (size.symm.trans short)]
    by_cases six : cs.length = 6
    · obtain ⟨read, inside⟩ := fromStrRadix_digits own (by omega) (by omega)
      have value : (UInt32.ofNat (number ds)).toNat = number ds := UInt32.toNat_ofNat_of_lt' inside
      rw [if_pos (size.trans six), read, Option.map_some]
      constructor
      · intro same
        obtain rfl := Option.some.inj same
        exact .inr ⟨six, value⟩
      · rintro (⟨short, _⟩ | ⟨_, colour⟩)
        · exact absurd short three
        · exact congrArg some (UInt32.toNat_inj.mp (value.trans colour.symm))
    · rw [if_neg fun long => six (size.symm.trans long)]
      constructor
      · exact nofun
      · rintro (⟨short, _⟩ | ⟨long, _⟩)
        · exact absurd short three
        · exact absurd long six

/-- Anything else behind the hash is refused, but for a sign and five digits. -/
theorem parseHex_other {s cs : Text} (hash : trim s = '#' :: cs)
    (other : cs.mapM toDigit = none) (unsigned : ¬Signed (trim s)) : parseHex s = none := by
  have own : (utf8 cs).mapM byteDigit = none := (digits_utf8 cs).trans other
  have refused : (utf8 cs).length = 6 → fromStrRadix (utf8 cs) = none := by
    intro six
    match bytes : utf8 cs with
    | [] | [_] =>
      rw [bytes] at six
      cases six
    | b :: b' :: rest =>
      rw [bytes] at own six
      rw [fromStrRadix_cons]
      split_ifs with plus
      · rw [plus] at bytes
        obtain ⟨cs', rfl, same⟩ := utf8_plus bytes
        cases digits : (b' :: rest).mapM byteDigit with
        | none => exact foldlM_none radixStep_none digits 0
        | some ds =>
          rw [List.length_cons] at six
          rw [same] at digits six
          have inner := (digits_utf8 cs').symm.trans digits
          refine absurd ⟨cs', ds, hash, inner, ?_⟩ unsigned
          rw [← length_of_digits inner, length_of_digits digits]
          omega
      · exact foldlM_none radixStep_none own 0
  rw [parseHex_hash hash]
  split_ifs with three six
  · exact foldlM_none (fun _ _ => expandStep_none) own 0
  · rw [refused six]
    rfl
  · rfl

/-- **Hexadecimal colours**: without the space around it, a text is a colour exactly when it is a
hash and three or six digits, and the colour is theirs; nothing is said of a sign and five
digits. -/
theorem parseHex_iff (s : Text) (unsigned : ¬Signed (trim s)) (v : UInt32) :
    parseHex s = some v ↔ Notates (trim s) v.toNat := by
  by_cases hash : ∃ cs, trim s = '#' :: cs
  · obtain ⟨cs, hash⟩ := hash
    rw [hash, notates_hash]
    cases digits : cs.mapM toDigit with
    | none =>
      rw [parseHex_other hash digits unsigned]
      exact ⟨nofun, fun ⟨_, impossible, _⟩ => nomatch impossible⟩
    | some ds =>
      rw [parseHex_digits hash digits]
      constructor
      · exact fun forms => ⟨ds, rfl, forms⟩
      · rintro ⟨_, same, forms⟩
        rwa [← Option.some.inj same] at forms
  · have none : parseHex s = none := by
      rw [parseHex]
      split
      · next cs same => exact absurd ⟨cs, same⟩ hash
      · rfl
    rw [none]
    exact ⟨nofun, fun ⟨cs, _, same, _⟩ => absurd ⟨cs, same⟩ hash⟩

/-- A colour in three digits. -/
theorem parseHex_iff_short :
    parseHex ['#', 'f', '0', '8'] = some 0xff0088 ↔
      Notates (trim ['#', 'f', '0', '8']) 0xff0088 := by
  refine parseHex_iff ['#', 'f', '0', '8'] ?_ 0xff0088
  rintro ⟨cs, ds, same, _⟩
  have trimmed : trim ['#', 'f', '0', '8'] = ['#', 'f', '0', '8'] := by decide
  rw [trimmed] at same
  exact absurd (List.cons.inj (List.cons.inj same).2).1 (by decide)

/-- Space around a colour is no part of it, and six bytes that begin with a plus are a number. -/
theorem parseHex_lenient :
    parseHex [' ', '#', 'f', 'f', 'f'] = some 0xffffff ∧
      parseHex ['#', '+', '1', '2', '3', '4', '5'] = some 0x12345 ∧
      (∀ colour, ¬Notates [' ', '#', 'f', 'f', 'f'] colour) ∧
      ∀ colour, ¬Notates ['#', '+', '1', '2', '3', '4', '5'] colour := by
  refine ⟨by decide, by decide, ?_, ?_⟩
  · rintro colour ⟨cs, ds, same, _⟩
    exact absurd (List.cons.inj same).1 (by decide)
  · rintro colour ⟨cs, ds, same, digits, _⟩
    obtain rfl := (List.cons.inj same).2
    cases digits

end RustyPenguin.Css
