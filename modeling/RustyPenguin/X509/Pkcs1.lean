import RustyPenguin.Crypto.ModExp
import RustyPenguin.X509.Signature

/-!
# Which RSA signatures are accepted

A PKCS #1 v1.5 signature is valid when it has exactly the bytes of the modulus, is below the
modulus, and its power is the padded message: `00 01`, bytes `ff` that fill the length, `00`,
and the digest information with the hash (`emsa`).

The padded message is checked exactly (`checkPadding_eq`). The range of the signature is not:
a shorter signature is read as the same number, a signature above the modulus is reduced, and
an even modulus is turned away. `verifyExact_iff` says for which signatures the answer is the
right one.
-/

set_option autoImplicit false

namespace RustyPenguin.X509

open Checked Crypto Limbs

/-! ## The padded message -/

/-- The digest information of a hash. -/
def digestInfo (hash : List UInt8) : List UInt8 := sha256DigestPrefix ++ hash

/-- The padded message of `k` bytes for a hash. -/
def emsa (k : Nat) (hash : List UInt8) : List UInt8 :=
  0x00 :: 0x01 :: (List.replicate (k - 54) 0xff ++ 0x00 :: digestInfo hash)

theorem length_digestInfo {hash : List UInt8} (size : hash.length = 32) :
    (digestInfo hash).length = 51 := by
  rw [digestInfo, List.length_append, size]
  rfl

theorem length_emsa {k : Nat} {hash : List UInt8} (size : hash.length = 32) (room : 62 ≤ k) :
    (emsa k hash).length = k := by
  rw [emsa, List.length_cons, List.length_cons, List.length_append, List.length_replicate,
    List.length_cons, length_digestInfo size]
  omega

/-- A run of bytes `ff` and what stands after it, in one way only. -/
theorem replicate_append_unique {m m' : Nat} {rest rest' : List UInt8}
    (stops : rest.head? ≠ some 0xff) (stops' : rest'.head? ≠ some 0xff)
    (same : List.replicate m 0xff ++ rest = List.replicate m' 0xff ++ rest') :
    m = m' ∧ rest = rest' := by
  induction m generalizing m' with
  | zero =>
    match m' with
    | 0 => exact ⟨rfl, same⟩
    | m' + 1 =>
      refine absurd ?_ stops
      rw [List.replicate_zero, List.nil_append] at same
      rw [same, List.replicate_succ]
      rfl
  | succ m fewer =>
    match m' with
    | 0 =>
      refine absurd ?_ stops'
      rw [List.replicate_zero, List.nil_append] at same
      rw [← same, List.replicate_succ]
      rfl
    | m' + 1 =>
      rw [List.replicate_succ, List.replicate_succ] at same
      obtain ⟨rfl, tails⟩ := fewer (List.cons.inj same).2
      exact ⟨rfl, tails⟩

/-- Every string is a run of bytes `ff` and what stands after it. -/
theorem exists_run (bytes : List UInt8) :
    ∃ m rest, bytes = List.replicate m 0xff ++ rest ∧ rest.head? ≠ some 0xff := by
  induction bytes with
  | nil => exact ⟨0, [], rfl, nofun⟩
  | cons b bytes later =>
    by_cases ff : b = 0xff
    · obtain ⟨m, rest, split, stops⟩ := later
      refine ⟨m + 1, rest, ?_, stops⟩
      rw [List.replicate_succ, List.cons_append, ff, split]
    · exact ⟨0, b :: bytes, rfl, fun same => ff (Option.some.inj same)⟩

/-- The scan over the padding stops where the run of bytes `ff` ends. -/
theorem skipPadding_ok {em : List UInt8} (bounded : em.length < 2 ^ 63) {rest : List UInt8}
    (stops : rest.head? ≠ some 0xff) : ∀ {m steps i : Nat},
      em.drop i = List.replicate m 0xff ++ rest → i ≤ em.length → em.length < i + steps →
        skipPadding em em.length steps i = .ok (i + m) := by
  intro m
  induction m with
  | zero =>
    intro steps i here inside enough
    obtain ⟨steps, rfl⟩ := Nat.exists_eq_succ_of_ne_zero (by omega : steps ≠ 0)
    rw [List.replicate_zero, List.nil_append] at here
    rw [skipPadding]
    match left : rest with
    | [] =>
      have size := congrArg List.length here
      rw [List.length_drop, List.length_nil] at size
      rw [if_neg (by omega)]
      rfl
    | b :: tail =>
      have size := congrArg List.length here
      rw [List.length_drop, List.length_cons] at size
      have read : index em i = .ok b := by
        rw [index_eq_ok, ← Nat.add_zero i, ← List.getElem?_drop, here]
        rfl
      rw [if_pos (by omega), bind_of_ok read, if_neg fun same => stops (congrArg some same)]
      rfl
  | succ m fewer =>
    intro steps i here inside enough
    obtain ⟨steps, rfl⟩ := Nat.exists_eq_succ_of_ne_zero (by omega : steps ≠ 0)
    have size := congrArg List.length here
    rw [List.length_drop, List.length_append, List.length_replicate] at size
    rw [List.replicate_succ, List.cons_append] at here
    have read : index em i = .ok 0xff := by
      rw [index_eq_ok, ← Nat.add_zero i, ← List.getElem?_drop, here]
      rfl
    have next : addIn 64 i 1 = .ok (i + 1) := if_pos (by omega)
    have beyond : em.drop (i + 1) = List.replicate m 0xff ++ rest := by
      rw [← List.drop_drop, here]
      rfl
    rw [skipPadding, if_pos (by omega), bind_of_ok read, if_pos rfl, bind_of_ok next,
      fewer beyond (by omega) (by omega)]
    exact congrArg Except.ok (by omega)

/-- **The padding check is exact**: among strings of `k` bytes, with 62 bytes or more, only the
padded message passes. -/
theorem checkPadding_eq {em hash : List UInt8} (size : hash.length = 32) (room : 62 ≤ em.length)
    (bounded : em.length < 2 ^ 63) :
    checkPadding em hash em.length = .ok (decide (em = emsa em.length hash)) := by
  match em, room, bounded with
  | x0 :: x1 :: bytes, room, bounded =>
    have first : index (x0 :: x1 :: bytes) 0 = .ok x0 := rfl
    have second : index (x0 :: x1 :: bytes) 1 = .ok x1 := rfl
    rw [checkPadding, bind_of_ok first, bind_of_ok second]
    by_cases head : x0 ≠ 0x00 ∨ x1 ≠ 0x01
    · have differs : x0 :: x1 :: bytes ≠ emsa (x0 :: x1 :: bytes).length hash := by
        intro same
        obtain ⟨same0, tails⟩ := List.cons.inj same
        obtain ⟨same1, _⟩ := List.cons.inj tails
        rcases head with other | other
        · exact other same0
        · exact other same1
      rw [if_pos head, decide_eq_false differs]
      rfl
    rw [if_neg head]
    obtain ⟨zero, one⟩ := not_or.mp head
    obtain rfl := not_not.mp zero
    obtain rfl := not_not.mp one
    obtain ⟨m, rest, split, stops⟩ := exists_run bytes
    have sizeBytes := congrArg List.length split
    rw [List.length_append, List.length_replicate] at sizeBytes
    have sizeEm : ((0 : UInt8) :: 1 :: bytes).length = 2 + m + rest.length := by
      rw [List.length_cons, List.length_cons, sizeBytes]
      omega
    have cut : ((0 : UInt8) :: 1 :: bytes).drop 2 = List.replicate m 0xff ++ rest := split
    have scan := @skipPadding_ok _ bounded _ stops m (((0 : UInt8) :: 1 :: bytes).length + 1) 2 cut
      (by omega) (by omega)
    have padded : (0 : UInt8) :: 1 :: bytes = emsa ((0 : UInt8) :: 1 :: bytes).length hash ↔
        rest = 0x00 :: digestInfo hash := by
      constructor
      · intro same
        have tails := (List.cons.inj (List.cons.inj same).2).2
        exact (replicate_append_unique stops (by simp) (split.symm.trans tails)).2
      · intro tail
        have sizeRest := congrArg List.length tail
        rw [List.length_cons, length_digestInfo size] at sizeRest
        have run : m = ((0 : UInt8) :: 1 :: bytes).length - 54 := by omega
        rw [emsa, ← run, split, tail]
    rw [bind_of_ok scan]
    by_cases short : 2 + m < 10 ∨ ((0 : UInt8) :: 1 :: bytes).length ≤ 2 + m
    · rw [if_pos short]
      have differs : (0 : UInt8) :: 1 :: bytes ≠ emsa ((0 : UInt8) :: 1 :: bytes).length hash := by
        intro same
        have sizeRest := congrArg List.length (padded.mp same)
        rw [List.length_cons, length_digestInfo size] at sizeRest
        omega
      rw [decide_eq_false differs]
      rfl
    rw [if_neg short]
    match rest, sizeEm with
    | [], sizeEm =>
      rw [List.length_nil] at sizeEm
      omega
    | y :: t, sizeEm =>
      have sizeT : ((0 : UInt8) :: 1 :: bytes).length = 2 + m + (t.length + 1) := sizeEm
      have far : ((0 : UInt8) :: 1 :: bytes).drop (2 + m) = y :: t := by
        rw [← List.drop_drop, cut, List.drop_left' List.length_replicate]
      have read : index ((0 : UInt8) :: 1 :: bytes) (2 + m) = .ok y := by
        rw [index_eq_ok, ← Nat.add_zero (2 + m), ← List.getElem?_drop, far]
        rfl
      rw [bind_of_ok read]
      by_cases separator : y ≠ 0x00
      · have differs : (0 : UInt8) :: 1 :: bytes ≠ emsa ((0 : UInt8) :: 1 :: bytes).length hash :=
          fun same => separator (List.cons.inj (padded.mp same)).1
        rw [if_pos separator, decide_eq_false differs]
        rfl
      obtain rfl := not_not.mp separator
      have next : addIn 64 (2 + m) 1 = .ok (2 + m + 1) := if_pos (by omega)
      have body : sub ((0 : UInt8) :: 1 :: bytes) (2 + m + 1) ((0 : UInt8) :: 1 :: bytes).length =
          .ok t := by
        refine sub_eq_ok.mpr ⟨by omega, Nat.le_refl _, ?_⟩
        rw [← List.drop_drop, far, List.drop_one, List.tail_cons]
        exact (List.take_of_length_le (by omega)).symm
      rw [if_neg separator, bind_of_ok next, bind_of_ok body]
      refine congrArg Except.ok (decide_eq_decide.mpr ?_)
      rw [padded]
      constructor
      · rintro ⟨_, front, back⟩
        rw [digestInfo, ← front, ← back, List.take_append_drop]
      · intro same
        obtain ⟨_, rfl⟩ := List.cons.inj same
        refine ⟨length_digestInfo size, List.take_left, List.drop_left⟩

/-! ## The power as bytes -/

theorem trimTo_spec (k : Nat) (b : List UInt8) : ofBytes (trimTo k b) = ofBytes b ∧
    ((trimTo k b).length ≤ k ∨ 256 ^ k ≤ ofBytes (trimTo k b)) := by
  induction b with
  | nil => exact ⟨rfl, Or.inl (Nat.zero_le k)⟩
  | cons x s shorter =>
    rw [trimTo]
    split
    · rename_i leading
      rw [leading.2, ofBytes_zero_cons]
      exact shorter
    · rename_i stays
      refine ⟨rfl, ?_⟩
      by_cases long : k < s.length + 1
      · right
        have nonzero : 0 < x.toNat := by
          refine Nat.pos_of_ne_zero fun zero => stays ⟨long, UInt8.toNat_inj.mp ?_⟩
          rw [zero, UInt8.toNat_zero]
        have high : 256 ^ s.length * 1 ≤ 256 ^ s.length * x.toNat := Nat.mul_le_mul_left _ nonzero
        have width : (256 : Nat) ^ k ≤ 256 ^ s.length :=
          Nat.pow_le_pow_right (by decide) (Nat.le_of_lt_succ long)
        rw [ofBytes_cons]
        omega
      · exact Or.inl (Nat.not_lt.mp long)

/-- A number that fits `k` bytes is padded to its `k` bytes. -/
theorem leftPad_eq {m : List UInt8} {k : Nat} (fits : ofBytes m < 256 ^ k) :
    leftPad m k = bytesOf k (ofBytes m) := by
  obtain ⟨same, short⟩ := trimTo_spec k m
  have size : (trimTo k m).length ≤ k := by
    rcases short with short | high
    · exact short
    · rw [same] at high
      exact absurd fits (Nat.not_lt.mpr high)
  rw [leftPad, if_neg (Nat.not_lt.mpr size)]
  refine ofBytes_inj ?_ ?_
  · rw [List.length_append, List.length_replicate, length_bytesOf]
    omega
  · rw [ofBytes_zeros_append, same, ofBytes_bytesOf, Nat.mod_eq_of_lt fits]

/-- A padded message is a large number: its second byte is one. -/
theorem le_ofBytes_emsa {k : Nat} {hash : List UInt8} (size : hash.length = 32) (room : 62 ≤ k) :
    256 ^ (k - 2) ≤ ofBytes (emsa k hash) := by
  have whole := length_emsa size room
  rw [emsa, List.length_cons, List.length_cons] at whole
  rw [emsa, ofBytes_zero_cons, ofBytes_cons]
  have width : (List.replicate (k - 54) 0xff ++ 0x00 :: digestInfo hash).length = k - 2 := by
    omega
  rw [width]
  have one : (0x01 : UInt8).toNat = 1 := rfl
  rw [one]
  omega

theorem bytesOf_ne_emsa {k v : Nat} {hash : List UInt8} (size : hash.length = 32) (room : 62 ≤ k)
    (small : v < 256 ^ (k - 2)) : bytesOf k v ≠ emsa k hash := by
  intro same
  have high := le_ofBytes_emsa size room
  rw [← same, ofBytes_bytesOf] at high
  exact absurd (Nat.mod_le v (256 ^ k)) (by omega)

/-! ## What is accepted -/

/-- The bytes of a modulus without its sign byte. -/
def modulusBytes (n : List UInt8) : List UInt8 :=
  if 1 < n.length ∧ n.head? = some 0x00 then n.tail else n

theorem stripInt_eq (n : List UInt8) : stripInt n = .ok (modulusBytes n) := by
  rw [stripInt, modulusBytes]
  rcases n with _ | ⟨x, _ | ⟨y, rest⟩⟩
  · rfl
  · rfl
  · have first : index (x :: y :: rest) 0 = .ok x := rfl
    have long : 1 < (x :: y :: rest).length := by
      rw [List.length_cons, List.length_cons]
      omega
    rw [if_pos long, bind_of_ok first]
    by_cases zero : x = 0x00
    · have body : sub (x :: y :: rest) 1 (x :: y :: rest).length = .ok (y :: rest) := by
        refine sub_eq_ok.mpr ⟨Nat.le_of_lt long, Nat.le_refl _, ?_⟩
        exact (List.take_of_length_le (Nat.le_refl _)).symm
      rw [if_pos zero, body, if_pos ⟨long, congrArg some zero⟩]
      rfl
    · rw [if_neg zero, if_neg fun both => zero (Option.some.inj both.2)]
      rfl

variable (n e sig hash : List UInt8)

/-- The length of the modulus. -/
def modulusLength : Nat := (modulusBytes n).length

/-- The number of the modulus. -/
def modulusValue : Nat := ofBytes (modulusBytes n)

/-- The signature has the bytes of the modulus, and is below it. -/
def InRange : Prop := sig.length = modulusLength n ∧ ofBytes sig < modulusValue n

/-- The signature is valid: it is in range, and its power is the padded message. -/
def ValidSignature : Prop :=
  62 ≤ modulusLength n ∧ InRange n sig ∧
    bytesOf (modulusLength n) (ofBytes sig ^ ofBytes e % modulusValue n) =
      emsa (modulusLength n) hash

/-- The power of the bytes of the signature that the modulus' limbs hold is the padded
message, for a signature no longer than the modulus. -/
def PowerIsPadded : Prop :=
  62 ≤ modulusLength n ∧ sig.length ≤ modulusLength n ∧
    bytesOf (modulusLength n)
        ((ofBytes sig % 2 ^ (64 * modulusLimbs (modulusBytes n))) ^ ofBytes e % modulusValue n) =
      emsa (modulusLength n) hash

variable {n e sig hash}

theorem modulusValue_lt (n : List UInt8) : modulusValue n < 256 ^ modulusLength n :=
  ofBytes_lt (modulusBytes n)

/-- Only the padded message passes, once the exponentiation has returned. -/
theorem verify_of_modExp {m : List UInt8} (size : hash.length = 32)
    (bounded : modulusLength n < 2 ^ 63) (room : 62 ≤ modulusLength n)
    (short : sig.length ≤ modulusLength n) (power : modExp sig e (modulusBytes n) = .ok m)
    (fits : ofBytes m < 256 ^ modulusLength n) :
    rsaPkcs1Sha256Verify n e sig hash =
      .ok (decide (bytesOf (modulusLength n) (ofBytes m) = emsa (modulusLength n) hash)) := by
  have width : (bytesOf (modulusLength n) (ofBytes m)).length = modulusLength n :=
    length_bytesOf _ _
  have early : ¬ ((modulusBytes n).length < sig.length ∨
      (modulusBytes n).length < sha256DigestPrefix.length + 32 + 11) := by
    rintro (long | small)
    · exact absurd short (Nat.not_le.mpr long)
    · exact absurd room (Nat.not_le.mpr small)
  have checks := @checkPadding_eq (bytesOf (modulusLength n) (ofBytes m)) hash size
    (by rw [width]; exact room) (by rw [width]; exact bounded)
  rw [width] at checks
  rw [rsaPkcs1Sha256Verify, bind_of_ok (stripInt_eq n)]
  dsimp only
  rw [if_neg early, bind_of_ok power]
  have padded : leftPad m (modulusBytes n).length = bytesOf (modulusLength n) (ofBytes m) :=
    leftPad_eq fits
  have whole : ¬ (bytesOf (modulusLength n) (ofBytes m)).length ≠ (modulusBytes n).length :=
    not_not.mpr width
  rw [padded, if_neg whole]
  exact checks

theorem modExp_even {n : List UInt8} (even : ofBytes n % 2 = 0) (base exp : List UInt8) :
    modExp base exp n = .ok [] := by
  rw [modExp]
  dsimp only
  by_cases none_left : ((trimZeros n).length + 7) / 8 = 0
  · rw [if_pos none_left]
    rfl
  rw [if_neg none_left]
  have held := value_modulusBuffer n
  have size := length_modulusBuffer n
  cases buffer : modulusBuffer n with
  | nil =>
    rw [buffer] at size
    exact absurd size.symm none_left
  | cons n0 nrest =>
    have first : index (fromBe (trimZeros n) (((trimZeros n).length + 7) / 8)) 0 = .ok n0 := by
      refine index_eq_ok.mpr ?_
      show (modulusBuffer n)[0]? = some n0
      rw [buffer]
      rfl
    have low : n0 &&& 1 = 0 := by
      have mask : n0.toNat &&& (1 : UInt64).toNat = n0.toNat % 2 := Nat.and_one_is_mod _
      rw [buffer, value_cons] at held
      refine UInt64.toNat_inj.mp ?_
      rw [UInt64.toNat_and, mask, UInt64.toNat_zero]
      omega
    rw [bind_of_ok first, if_pos low]
    rfl

/-- The number one has one limb, whatever zeroes stand before it. -/
theorem modulusLimbs_one {n : List UInt8} (one : ofBytes n = 1) : modulusLimbs n = 1 := by
  have trimmed : ∀ l : List UInt8, (trimZeros l).length ≤ 1 ∨
      256 ^ ((trimZeros l).length - 1) ≤ ofBytes (trimZeros l) := by
    intro l
    induction l with
    | nil => exact Or.inl (Nat.zero_le 1)
    | cons x rest shorter =>
      match rest with
      | [] => exact Or.inl (Nat.le_refl 1)
      | y :: rest =>
        rw [trimZeros]
        split
        · exact shorter
        · rename_i nonzero
          right
          have positive : 0 < x.toNat := by
            refine Nat.pos_of_ne_zero fun zero => nonzero (UInt8.toNat_inj.mp ?_)
            rw [zero, UInt8.toNat_zero]
          have high : 256 ^ (y :: rest).length * 1 ≤ 256 ^ (y :: rest).length * x.toNat :=
            Nat.mul_le_mul_left _ positive
          rw [ofBytes_cons, List.length_cons (a := x), Nat.add_sub_cancel]
          omega
  have same : ofBytes (trimZeros n) = 1 := (ofBytes_trimZeros n).trans one
  have atMost : (trimZeros n).length ≤ 1 := by
    rcases trimmed n with short | high
    · exact short
    · by_contra long
      have width : 256 ^ 1 ≤ 256 ^ ((trimZeros n).length - 1) :=
        Nat.pow_le_pow_right (by decide) (by omega)
      omega
  have atLeast : 0 < (trimZeros n).length := by
    refine List.length_pos_iff.mpr fun empty => ?_
    rw [empty, ofBytes_nil] at same
    omega
  rw [modulusLimbs]
  omega

/-- **What is accepted**: an odd modulus and a signature no longer than it, whose power is the
padded message. -/
theorem verify_eq_true_iff (size : hash.length = 32) (bounded : n.length < 2 ^ 63) :
    rsaPkcs1Sha256Verify n e sig hash = .ok true ↔
      PowerIsPadded n e sig hash ∧ modulusValue n % 2 = 1 := by
  have shorter : modulusLength n ≤ n.length := by
    rw [modulusLength, modulusBytes]
    split
    · rw [List.length_tail]
      exact Nat.sub_le _ _
    · exact Nat.le_refl _
  by_cases early : (modulusBytes n).length < sig.length ∨
      (modulusBytes n).length < sha256DigestPrefix.length + 32 + 11
  · refine iff_of_false ?_ ?_
    · rw [rsaPkcs1Sha256Verify, bind_of_ok (stripInt_eq n)]
      dsimp only
      rw [if_pos early]
      exact nofun
    · rintro ⟨⟨room, short, _⟩, _⟩
      rcases early with long | small
      · exact absurd short (Nat.not_le.mpr long)
      · exact absurd room (Nat.not_le.mpr small)
  obtain ⟨long, small⟩ := not_or.mp early
  have short : sig.length ≤ modulusLength n := Nat.not_lt.mp long
  have room : 62 ≤ modulusLength n := Nat.not_lt.mp small
  have below : modulusLength n < 2 ^ 63 := by omega
  by_cases odd : modulusValue n % 2 = 1
  · by_cases one : modulusValue n = 1
    · obtain ⟨out, power, sizeOut⟩ := modExp_total odd sig e
      have limbs : modulusLimbs (modulusBytes n) = 1 := modulusLimbs_one one
      have tiny : ofBytes out < 256 ^ (modulusLength n - 2) := by
        refine Nat.lt_of_lt_of_le (ofBytes_lt out) (Nat.pow_le_pow_right (by decide) ?_)
        rw [sizeOut, limbs]
        omega
      have fits : ofBytes out < 256 ^ modulusLength n :=
        Nat.lt_of_lt_of_le tiny (Nat.pow_le_pow_right (by decide) (Nat.sub_le _ _))
      rw [verify_of_modExp size below room short power fits,
        decide_eq_false (bytesOf_ne_emsa size room tiny)]
      refine iff_of_false nofun ?_
      rintro ⟨⟨_, _, padded⟩, _⟩
      rw [one, Nat.mod_one] at padded
      exact bytesOf_ne_emsa size room (Nat.pow_pos (by decide)) padded
    · obtain ⟨out, power, _, valueOut⟩ := modExp_ok odd (by
        show 1 < modulusValue n
        omega) sig e
      have fits : ofBytes out < 256 ^ modulusLength n := by
        rw [valueOut]
        exact Nat.lt_trans (Nat.mod_lt _ (by show 0 < modulusValue n; omega)) (modulusValue_lt n)
      rw [verify_of_modExp size below room short power fits, valueOut]
      constructor
      · intro accepted
        exact ⟨⟨room, short, of_decide_eq_true (Except.ok.inj accepted)⟩, odd⟩
      · rintro ⟨⟨_, _, padded⟩, _⟩
        exact congrArg Except.ok (decide_eq_true padded)
  · have even : ofBytes (modulusBytes n) % 2 = 0 := by
      have parity : modulusValue n % 2 ≠ 1 := odd
      rw [modulusValue] at parity
      omega
    have zero : ofBytes [] < 256 ^ (modulusLength n - 2) := Nat.pow_pos (by decide)
    have fits : ofBytes [] < 256 ^ modulusLength n := Nat.pow_pos (by decide)
    rw [verify_of_modExp size below room short (modExp_even even sig e) fits,
      decide_eq_false (bytesOf_ne_emsa size room zero)]
    exact iff_of_false nofun fun both => odd both.2

/-! ## Whether that is what should be -/

/-- A signature in range is below the width of the modulus' limbs. -/
theorem validSignature_iff :
    ValidSignature n e sig hash ↔ PowerIsPadded n e sig hash ∧ InRange n sig := by
  have uncut : InRange n sig →
      ofBytes sig % 2 ^ (64 * modulusLimbs (modulusBytes n)) = ofBytes sig := by
    intro inRange
    have held := value_modulusBuffer (modulusBytes n)
    have limit := value_lt (modulusBuffer (modulusBytes n))
    rw [held, length_modulusBuffer] at limit
    exact Nat.mod_eq_of_lt (Nat.lt_trans inRange.2 limit)
  constructor
  · rintro ⟨room, inRange, padded⟩
    refine ⟨⟨room, Nat.le_of_eq inRange.1, ?_⟩, inRange⟩
    rw [uncut inRange]
    exact padded
  · rintro ⟨⟨room, _, padded⟩, inRange⟩
    rw [uncut inRange] at padded
    exact ⟨room, inRange, padded⟩

/-- **When the answer is right**: a signature is accepted exactly when it is valid if and only
if its power is not the padded message, or the modulus is odd just when the signature is in
range: with an odd modulus, exactly as long as the modulus and below it. -/
theorem verifyExact_iff (size : hash.length = 32) (bounded : n.length < 2 ^ 63) :
    (rsaPkcs1Sha256Verify n e sig hash = .ok true ↔ ValidSignature n e sig hash) ↔
      (PowerIsPadded n e sig hash → (modulusValue n % 2 = 1 ↔ InRange n sig)) := by
  rw [verify_eq_true_iff size bounded, validSignature_iff]
  exact and_congr_right_iff

/-- A modulus of 62 bytes, and a hash. -/
def sampleModulus : List UInt8 := 0x01 :: (List.replicate 60 0x00 ++ [0x01])

def sampleHash : List UInt8 := List.replicate 32 0x00

/-- A signature in range whose power is the padded message, and one without its leading zero. -/
theorem verifyExact_sample : (rsaPkcs1Sha256Verify sampleModulus [1] (emsa 62 sampleHash) sampleHash =
      .ok true ↔ ValidSignature sampleModulus [1] (emsa 62 sampleHash) sampleHash) ↔
    (PowerIsPadded sampleModulus [1] (emsa 62 sampleHash) sampleHash →
      (modulusValue sampleModulus % 2 = 1 ↔ InRange sampleModulus (emsa 62 sampleHash))) :=
  verifyExact_iff (by decide) (by decide)

/-- The padded message without its first byte, with exponent one: a signature one byte short is
accepted. -/
theorem accepts_short_signature :
    rsaPkcs1Sha256Verify sampleModulus [1] (emsa 62 sampleHash).tail sampleHash = .ok true ∧
      ¬ ValidSignature sampleModulus [1] (emsa 62 sampleHash).tail sampleHash := by
  refine ⟨?_, ?_⟩
  · refine (verify_eq_true_iff (by decide) (by decide)).mpr ⟨⟨by decide, by decide, ?_⟩, by decide⟩
    decide +kernel
  · rintro ⟨_, ⟨short, _⟩, _⟩
    exact absurd short (by decide)

end RustyPenguin.X509
