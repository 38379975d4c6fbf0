import Mathlib.Analysis.SpecialFunctions.Pow.NthRootLemmas
import RustyPenguin.Crypto.Fips180
import RustyPenguin.Crypto.LittleEndian
import RustyPenguin.Crypto.ModExp
import RustyPenguin.Crypto.Sha1
import RustyPenguin.Crypto.Sha256
import RustyPenguin.Foundation.Folds
import RustyPenguin.Foundation.Streams

/-!
# The hashes are those of the standard

A hasher that was handed a message in pieces has folded the whole blocks of the message and keeps
the rest; finalisation folds what the padding of the standard makes of the rest, which is one block
or two (`finalize_pieces`). The compression functions compute the schedule and the rounds of the
standard, so the digests are the standard's, and so is the HMAC (`streaming_spec`).
-/

set_option autoImplicit false

namespace RustyPenguin.Crypto

open Positions

/-! ## Words in big-endian order -/

theorem beWord_eq_leWord (bytes : List UInt8) (i : Nat) : beWord bytes i =
    leWord [byte bytes (i + 3), byte bytes (i + 2), byte bytes (i + 1), byte bytes i] 0 := by
  have turned : ∀ a b c d : UInt32, a ||| b ||| c ||| d = d ||| c ||| b ||| a := by
    intro a b c d
    ac_rfl
  exact turned _ _ _ _

/-- A word is the number of its four bytes. -/
theorem beWord_eq_word {block : List UInt8} {t : Nat} (inside : 4 * t + 4 ≤ block.length) :
    beWord block (4 * t) = Fips180.word block t := by
  have four : (block.drop (4 * t)).take 4 = [byte block (4 * t), byte block (4 * t + 1),
      byte block (4 * t + 2), byte block (4 * t + 3)] := by
    refine ext_byte ?_ fun i small => ?_
    · rw [List.length_take, List.length_drop]
      simp only [List.length_cons, List.length_nil]
      omega
    · rw [List.length_take, List.length_drop] at small
      have below : i < 4 := by omega
      have read : byte ((block.drop (4 * t)).take 4) i = byte block (4 * t + i) := by
        simp [byte, List.getD_eq_getElem?_getD, List.getElem?_take_of_lt below]
      rw [read]
      obtain rfl | rfl | rfl | rfl : i = 0 ∨ i = 1 ∨ i = 2 ∨ i = 3 := by omega
      all_goals rfl
  rw [beWord_eq_leWord, Fips180.word, four, ← UInt32.toNat_inj, toNat_leWord, UInt32.toNat_ofNat']
  have small : Limbs.ofBytes [byte block (4 * t), byte block (4 * t + 1), byte block (4 * t + 2),
      byte block (4 * t + 3)] < 256 ^ 4 := Limbs.ofBytes_lt _
  rw [Nat.mod_eq_of_lt (Nat.lt_of_lt_of_le small (by decide))]
  simp only [Limbs.ofBytes_cons, Limbs.ofBytes_nil, byte, List.length_cons, List.length_nil,
    List.getD_cons_zero, List.getD_cons_succ]
  omega

theorem beBytes_eq_bytesOf (x : UInt32) : beBytes x = Limbs.bytesOf 4 x.toNat := by
  have reversed : Limbs.ofBytes (beBytes x) = leNumber (leBytes x) := rfl
  have number : Limbs.ofBytes (beBytes x) = x.toNat := by
    rw [reversed, leNumber_leBytes]
  have back := Limbs.bytesOf_ofBytes (beBytes x)
  rw [number] at back
  exact back.symm

theorem beBytes64_eq_bytesOf (x : UInt64) : beBytes64 x = Limbs.bytesOf 8 x.toNat := by
  have back := Limbs.bytesOf_ofBytes (beBytes64 x)
  rw [ofBytes_beBytes64] at back
  exact back.symm

/-! ## Streaming -/

namespace Hasher

variable {H : Type} (block : H → List UInt8 → H)

theorem blocks_eq_fold (n : Nat) (h : H) (data : List UInt8) :
    blocks block n h data = Streams.fold 64 block n h data := by
  induction n generalizing h data with
  | zero => rfl
  | succ n ih => rw [blocks, Streams.fold, ih]

/-- The chaining value and the pending bytes. -/
def held (self : Hasher H) : H × List UInt8 := (self.h, self.buf)

theorem held_absorb (h : H) (total : UInt64) (data : List UInt8) :
    held (absorb block h total data) = Streams.absorb 64 block h data := by
  rw [held, absorb, Streams.absorb, ← blocks_eq_fold]

theorem held_update (self : Hasher H) (data : List UInt8) :
    held (update block self data) = Streams.feed 64 block (held self) data := by
  have room := self.room
  by_cases empty : self.buf = []
  · have none : (held self).2 = [] := empty
    rw [update, if_pos empty, Streams.feed, if_pos none]
    exact held_absorb block self.h _ data
  · have some : (held self).2 ≠ [] := empty
    rw [update, if_neg empty, Streams.feed, if_neg some]
    dsimp only [held]
    have size : (self.buf ++ data.take (min (64 - self.buf.length) data.length)).length =
        self.buf.length + min (64 - self.buf.length) data.length := by
      rw [List.length_append, List.length_take]
      omega
    by_cases full : (self.buf ++ data.take (min (64 - self.buf.length) data.length)).length = 64
    · rw [dif_pos full, if_neg (by omega)]
      exact held_absorb block _ _ _
    · rw [dif_neg full, if_pos (by omega)]

theorem total_update (self : Hasher H) (data : List UInt8) :
    (update block self data).total = self.total + UInt64.ofNat data.length := by
  rw [update]
  split
  · rfl
  · dsimp only
    split <;> rfl

theorem held_updates (self : Hasher H) (pieces : List (List UInt8)) :
    held (pieces.foldl (update block) self) =
      pieces.foldl (Streams.feed 64 block) (held self) := by
  induction pieces generalizing self with
  | nil => rfl
  | cons piece pieces ih => rw [List.foldl_cons, List.foldl_cons, ih, held_update]

theorem total_updates (self : Hasher H) (pieces : List (List UInt8)) :
    (pieces.foldl (update block) self).total =
      self.total + UInt64.ofNat pieces.flatten.length := by
  induction pieces generalizing self with
  | nil => exact (UInt64.add_zero _).symm
  | cons piece pieces ih =>
    rw [List.foldl_cons, ih, total_update, List.flatten_cons, List.length_append,
      UInt64.ofNat_add, UInt64.add_assoc]

/-! ## Finalisation -/

/-- What finalisation adds to the pending bytes. -/
def tail (length : Nat) : List UInt8 :=
  0x80 :: List.replicate (Fips180.zeroes length) 0 ++ Limbs.bytesOf 8 (8 * length)

theorem absorb_block (h : H) {data : List UInt8} (one : data.length = 64) :
    (Streams.absorb 64 block h data).1 = block h data := by
  rw [Streams.absorb, one]
  show Streams.fold 64 block 1 h data = block h data
  rw [Streams.fold, Streams.fold, List.take_of_length_le (Nat.le_of_eq one)]

theorem absorb_two (h : H) {front back : List UInt8} (one : front.length = 64)
    (two : back.length = 64) :
    (Streams.absorb 64 block h (front ++ back)).1 = block (block h front) back := by
  have first := absorb_block block h one
  have all := Streams.absorb_append 64 block (by decide) (q := 1) h back one
  have step : Streams.fold 64 block 1 h front = block h front := by
    rw [Streams.fold, Streams.fold, List.take_of_length_le (Nat.le_of_eq one)]
  rw [all, step, absorb_block block _ two]

/-- The last one or two blocks, after a rest of any length. -/
theorem finalize_spec (self : Hasher H) {length : Nat} (rest : self.buf.length = length % 64)
    (counted : self.total = UInt64.ofNat length) :
    finalize block self = (Streams.absorb 64 block self.h (self.buf ++ tail length)).1 := by
  have room := self.room
  have bits : beBytes64 (self.total * 8) = Limbs.bytesOf 8 (8 * length) := by
    rw [beBytes64_eq_bytesOf, counted]
    refine Limbs.ofBytes_inj (by rw [Limbs.length_bytesOf, Limbs.length_bytesOf]) ?_
    rw [Limbs.ofBytes_bytesOf, Limbs.ofBytes_bytesOf, UInt64.toNat_mul, UInt64.toNat_ofNat']
    show length % 2 ^ 64 * 8 % 2 ^ 64 % 256 ^ 8 = 8 * length % 256 ^ 8
    omega
  have size : (self.buf ++ [0x80]).length = self.buf.length + 1 := by
    rw [List.length_append, List.length_singleton]
  have sizeBits : (Limbs.bytesOf 8 (8 * length)).length = 8 := Limbs.length_bytesOf _ _
  rw [finalize, bits]
  dsimp only
  rw [size]
  split
  · rename_i long
    have zeroes : Fips180.zeroes length = (64 - (self.buf.length + 1)) + 56 := by
      rw [Fips180.zeroes]
      omega
    have parts : self.buf ++ tail length =
        (self.buf ++ [0x80] ++ List.replicate (64 - (self.buf.length + 1)) 0) ++
          ([] ++ List.replicate 56 0 ++ Limbs.bytesOf 8 (8 * length)) := by
      rw [tail, zeroes, List.replicate_add]
      simp only [List.append_assoc, List.cons_append, List.nil_append]
    rw [parts, absorb_two]
    · rfl
    · rw [List.length_append, size, List.length_replicate]
      omega
    · rw [List.length_append, List.length_append, sizeBits, List.length_replicate]
      rfl
  · rename_i short
    have zeroes : Fips180.zeroes length = 56 - (self.buf.length + 1) := by
      rw [Fips180.zeroes]
      omega
    have parts : self.buf ++ tail length =
        self.buf ++ [0x80] ++ List.replicate (56 - (self.buf.length + 1)) 0 ++
          Limbs.bytesOf 8 (8 * length) := by
      rw [tail, zeroes]
      simp only [List.append_assoc, List.cons_append, List.nil_append]
    rw [parts, absorb_block, size]
    rw [List.length_append, List.length_append, size, sizeBits, List.length_replicate]
    omega

/-- **The pieces of a message are hashed as the padded message**, for every length. -/
theorem finalize_pieces (h : H) (pieces : List (List UInt8)) :
    finalize block (pieces.foldl (update block) (new h)) =
      Fips180.digest block h pieces.flatten := by
  have all := (held_updates block (new h) pieces).trans
    (Streams.foldl_feed 64 block (by decide) h pieces)
  have counted := total_updates block (new h) pieces
  generalize pieces.foldl (update block) (new h) = state at *
  generalize pieces.flatten = message at *
  have value : state.h = (Streams.absorb 64 block h message).1 := congrArg Prod.fst all
  have rest : state.buf = (Streams.absorb 64 block h message).2 := congrArg Prod.snd all
  have left : state.buf.length = message.length % 64 := by
    rw [rest, Streams.absorb, List.length_drop]
    omega
  have count : state.total = UInt64.ofNat message.length := by
    rw [counted]
    exact UInt64.zero_add _
  rw [finalize_spec block state left count, value, rest,
    Streams.absorb_absorb 64 block (by decide), Fips180.digest, Fips180.blocksOf,
    Streams.foldl_blocks, Streams.absorb]
  rfl

end Hasher

/-! ## Schedules and rounds -/

/-- The first words of a schedule are in place. -/
def ScheduledUpTo {n : Nat} (W : Nat → UInt32) (m : Nat) (w : Vector UInt32 n) : Prop :=
  ∀ i (inside : i < n), i < m + 16 → w[i] = W i

theorem scheduledUpTo_zero {n : Nat} {W : Nat → UInt32} {blk : List UInt8}
    (whole : 64 ≤ blk.length) (words : ∀ t < 16, W t = Fips180.word blk t) :
    ScheduledUpTo W 0
      (Vector.ofFn fun i : Fin n => if i.val < 16 then beWord blk (4 * i.val) else 0) := by
  intro i inside first
  have small : i < 16 := by omega
  rw [Vector.getElem_ofFn]
  show (if i < 16 then beWord blk (4 * i) else 0) = _
  rw [if_pos small, words i small, beWord_eq_word (by omega)]

theorem ScheduledUpTo.set {n m : Nat} {W : Nat → UInt32} {w : Vector UInt32 n}
    (upTo : ScheduledUpTo W m w) (room : m + 16 < n) {x : UInt32} (next : x = W (m + 16)) :
    ScheduledUpTo W (m + 1) (w.set (m + 16) x) := by
  intro i inside below
  by_cases last : m + 16 = i
  · subst last
    rw [Vector.getElem_set_self, next]
  · rw [Vector.getElem_set_ne _ _ last]
    exact upTo i inside (by omega)

/-- The view of a hash value after the first rounds. -/
def RoundsUpTo {V : Type} {n : Nat} (view : V → Vector UInt32 n) (round : V → Nat → V) (v : V)
    (m : Nat) (s : Vector UInt32 n) : Prop :=
  s = view ((List.range m).foldl round v)

theorem RoundsUpTo.next {V : Type} {n m : Nat} {view : V → Vector UInt32 n}
    {round : V → Nat → V} {v : V} {s s₁ : Vector UInt32 n} (upTo : RoundsUpTo view round v m s)
    (step : ∀ v, s = view v → s₁ = view (round v m)) : RoundsUpTo view round v (m + 1) s₁ := by
  rw [RoundsUpTo, List.range_succ, List.foldl_append, List.foldl_cons, List.foldl_nil]
  exact step _ upTo

/-! ## SHA-256 -/

section Sha256

open Fips180.Sha256 (Vars)

/-- The cube roots of the primes: their whole part, and the constants of the program. -/
theorem sha256K_root : ∀ i : Fin 64,
    let p := Fips180.Sha256.primes.getD i 0
    let r := ([1, 2, 3, 4, 5, 6].countP fun c => c ^ 3 ≤ p) * 2 ^ 32 +
      (getElem sha256K i (fin64 i)).toNat
    r ^ 3 ≤ p * 2 ^ 96 ∧ p * 2 ^ 96 < (r + 1) ^ 3 := by
  decide

theorem sha256K_eq (i : Fin 64) : getElem sha256K i (fin64 i) = Fips180.Sha256.k i := by
  obtain ⟨low, high⟩ := sha256K_root i
  rw [Fips180.Sha256.k, Nat.nthRoot_eq_of_le_of_lt low high, ← UInt32.toNat_inj, UInt32.toNat_ofNat']
  have small := sha256K[i].toNat_lt
  omega

/-- The hash value of the program. -/
def sha256View (v : Vars) : Vector UInt32 8 := #v[v.a, v.b, v.c, v.d, v.e, v.f, v.g, v.h]

theorem sha256_initial : Sha256.new = Hasher.new (sha256View Fips180.Sha256.initial) := by
  have values : sha256View Fips180.Sha256.initial = #v[0x6a09e667, 0xbb67ae85, 0x3c6ef372,
      0xa54ff53a, 0x510e527f, 0x9b05688c, 0x1f83d9ab, 0x5be0cd19] := by decide
  rw [values]
  rfl

theorem sha256_schedule {blk : List UInt8} (whole : 64 ≤ blk.length) {i : Nat} (inside : i < 64) :
    (schedule blk)[i] = Fips180.Sha256.schedule blk i := by
  have start : ScheduledUpTo (Fips180.Sha256.schedule blk) 0
      (Vector.ofFn fun i : Fin 64 => if i.val < 16 then beWord blk (4 * i.val) else 0) :=
    scheduledUpTo_zero whole fun t below => Fips180.Sha256.schedule_word below
  refine foldl_finRange (n := 48) start (fun k w upTo => upTo.set (by omega) ?_) i inside
    (by omega)
  have w16 := upTo k.val (by omega) (by omega)
  have w15 := upTo (k.val + 1) (by omega) (by omega)
  have w7 := upTo (k.val + 9) (by omega) (by omega)
  have w2 := upTo (k.val + 14) (by omega) (by omega)
  rw [w16, w15, w7, w2, Fips180.Sha256.schedule_step]
  show Fips180.Sha256.schedule blk k.val +
    Fips180.Sha256.smallSigma0 (Fips180.Sha256.schedule blk (k.val + 1)) +
    Fips180.Sha256.schedule blk (k.val + 9) +
    Fips180.Sha256.smallSigma1 (Fips180.Sha256.schedule blk (k.val + 14)) = _
  ac_rfl

theorem sha256Mix_view (k w : UInt32) (v : Vars) :
    sha256Mix k w (sha256View v) = sha256View (Fips180.Sha256.mix k w v) := rfl

theorem sha256_round {w : Vector UInt32 64} {W : Nat → UInt32} (i : Fin 64)
    (known : getElem w i (fin64 i) = W i) (v : Vars) : round w (sha256View v) i = sha256View (Fips180.Sha256.round W v i) :=
  calc round w (sha256View v) i
    _ = sha256Mix sha256K[i] w[i] (sha256View v) := rfl
    _ = sha256Mix (Fips180.Sha256.k i) (W i) (sha256View v) :=
      congrArg₂ (fun k x => sha256Mix k x (sha256View v)) (sha256K_eq i) known
    _ = sha256View (Fips180.Sha256.mix (Fips180.Sha256.k i) (W i) v) := sha256Mix_view _ _ v

/-- **A block is compressed as the standard says.** -/
theorem sha256_block (v : Vars) (blk : List UInt8) (size : blk.length = 64) :
    block (sha256View v) blk = sha256View (Fips180.Sha256.compress v blk) := by
  have start : RoundsUpTo sha256View (Fips180.Sha256.round (Fips180.Sha256.schedule blk)) v 0
      (sha256View v) := rfl
  have rounds := foldl_finRange (n := 64) start fun k s upTo => upTo.next fun v' same => by
    rw [same]
    exact sha256_round k (sha256_schedule (Nat.le_of_eq size.symm) k.isLt) v'
  rw [block, rounds, Fips180.Sha256.compress]
  refine Vector.ext fun i inside => ?_
  rw [Vector.getElem_ofFn]
  match i, inside with
  | 0, _ => exact UInt32.add_comm _ _
  | 1, _ => exact UInt32.add_comm _ _
  | 2, _ => exact UInt32.add_comm _ _
  | 3, _ => exact UInt32.add_comm _ _
  | 4, _ => exact UInt32.add_comm _ _
  | 5, _ => exact UInt32.add_comm _ _
  | 6, _ => exact UInt32.add_comm _ _
  | 7, _ => exact UInt32.add_comm _ _

end Sha256

/-! ## SHA-1 -/

section Sha1

open Fips180.Sha1 (Vars)

/-- The hash value of the program. -/
def sha1View (v : Vars) : Vector UInt32 5 := #v[v.a, v.b, v.c, v.d, v.e]

theorem sha1_schedule {blk : List UInt8} (whole : 64 ≤ blk.length) {i : Nat} (inside : i < 80) :
    (Sha1.schedule blk)[i] = Fips180.Sha1.schedule blk i := by
  have start : ScheduledUpTo (Fips180.Sha1.schedule blk) 0
      (Vector.ofFn fun i : Fin 80 => if i.val < 16 then beWord blk (4 * i.val) else 0) :=
    scheduledUpTo_zero whole fun t below => Fips180.Sha1.schedule_word below
  refine foldl_finRange (n := 64) start (fun k w upTo => upTo.set (by omega) ?_) i inside
    (by omega)
  have w16 := upTo k.val (by omega) (by omega)
  have w14 := upTo (k.val + 2) (by omega) (by omega)
  have w8 := upTo (k.val + 8) (by omega) (by omega)
  have w3 := upTo (k.val + 13) (by omega) (by omega)
  rw [w16, w14, w8, w3, Fips180.Sha1.schedule_step]
  rfl

/-- The parts of a choice and of a majority are disjoint, or agree. -/
theorem or_eq_xor_ch (b c d : UInt32) : (b &&& c) ||| (~~~b &&& d) = Fips180.ch b c d := by
  rw [Fips180.ch, ← UInt32.toBitVec_inj]
  refine BitVec.eq_of_getLsbD_eq fun i _ => ?_
  simp only [UInt32.toBitVec_or, UInt32.toBitVec_and, UInt32.toBitVec_not, UInt32.toBitVec_xor,
    BitVec.getLsbD_or, BitVec.getLsbD_and, BitVec.getLsbD_xor, BitVec.getLsbD_not]
  cases b.toBitVec.getLsbD i <;> simp

theorem or_eq_xor_maj (b c d : UInt32) :
    (b &&& c) ||| (b &&& d) ||| (c &&& d) = Fips180.maj b c d := by
  rw [Fips180.maj, ← UInt32.toBitVec_inj]
  refine BitVec.eq_of_getLsbD_eq fun i _ => ?_
  simp only [UInt32.toBitVec_or, UInt32.toBitVec_and, UInt32.toBitVec_xor, BitVec.getLsbD_or,
    BitVec.getLsbD_and, BitVec.getLsbD_xor]
  cases b.toBitVec.getLsbD i <;> cases c.toBitVec.getLsbD i <;> simp

theorem sha1_roundFunction (t : Nat) (b c d : UInt32) :
    Sha1.roundFunction t b c d = (Fips180.Sha1.f t b c d, Fips180.Sha1.k t) := by
  rw [Sha1.roundFunction, Fips180.Sha1.f, Fips180.Sha1.k, or_eq_xor_ch, or_eq_xor_maj]
  by_cases first : t < 20
  · rw [if_pos first, if_pos first, if_pos first]
  by_cases second : t < 40
  · rw [if_neg first, if_neg first, if_neg first, if_pos second, if_pos second, if_pos second,
      Fips180.parity]
  by_cases third : t < 60
  · rw [if_neg first, if_neg first, if_neg first, if_neg second, if_neg second, if_neg second,
      if_pos third, if_pos third, if_pos third]
  · rw [if_neg first, if_neg first, if_neg first, if_neg second, if_neg second, if_neg second,
      if_neg third, if_neg third, if_neg third, Fips180.parity]

/-- A round of the program with the value of its function, a constant and a word. -/
def sha1Mix (f k w : UInt32) (s : Vector UInt32 5) : Vector UInt32 5 :=
  let a := getElem s 0 zero5
  let b := getElem s 1 one5
  let c := getElem s 2 two5
  let d := getElem s 3 three5
  let e := getElem s 4 four5
  #v[rotateLeft a 5 + f + e + k + w, a, rotateLeft b 30, c, d]

theorem sha1_round {w : Vector UInt32 80} {W : Nat → UInt32} (i : Fin 80)
    (known : getElem w i (fin80 i) = W i) (v : Vars) : Sha1.round w (sha1View v) i = sha1View (Fips180.Sha1.round W v i) :=
  calc Sha1.round w (sha1View v) i
    _ = sha1Mix (Sha1.roundFunction i v.b v.c v.d).1 (Sha1.roundFunction i v.b v.c v.d).2 w[i]
        (sha1View v) := rfl
    _ = sha1Mix (Fips180.Sha1.f i v.b v.c v.d) (Fips180.Sha1.k i) (W i) (sha1View v) := by
      rw [sha1_roundFunction, known]
    _ = sha1View (Fips180.Sha1.round W v i) := rfl

/-- **A block is compressed as the standard says.** -/
theorem sha1_block (v : Vars) (blk : List UInt8) (size : blk.length = 64) :
    Sha1.block (sha1View v) blk = sha1View (Fips180.Sha1.compress v blk) := by
  have start : RoundsUpTo sha1View (Fips180.Sha1.round (Fips180.Sha1.schedule blk)) v 0
      (sha1View v) := rfl
  have rounds := foldl_finRange (n := 80) start fun k s upTo => upTo.next fun v' same => by
    rw [same]
    exact sha1_round k (sha1_schedule (Nat.le_of_eq size.symm) k.isLt) v'
  rw [Sha1.block, rounds, Fips180.Sha1.compress]
  refine Vector.ext fun i inside => ?_
  rw [Vector.getElem_ofFn]
  match i, inside with
  | 0, _ => exact UInt32.add_comm _ _
  | 1, _ => exact UInt32.add_comm _ _
  | 2, _ => exact UInt32.add_comm _ _
  | 3, _ => exact UInt32.add_comm _ _
  | 4, _ => exact UInt32.add_comm _ _

end Sha1

/-! ## The digests -/

/-- A compression function that corresponds to one of the standard gives its hash value. -/
theorem digest_map {H H' : Type} {block : H → List UInt8 → H} {block' : H' → List UInt8 → H'}
    {view : H' → H}
    (corresponds : ∀ h' blk, blk.length = 64 → block (view h') blk = view (block' h' blk))
    (initial : H') (message : List UInt8) :
    Fips180.digest block (view initial) message = view (Fips180.digest block' initial message) := by
  rw [Fips180.digest, Fips180.digest, Fips180.blocksOf, Streams.foldl_blocks,
    Streams.foldl_blocks, Streams.fold_map 64 block corresponds initial (Nat.mul_div_le _ _)]

theorem output_eq (words : List UInt32) : words.flatMap beBytes = Fips180.output words := by
  rw [Fips180.output]
  exact congrArg (fun f => List.flatMap f words) (funext beBytes_eq_bytesOf)

theorem sha256_pieces (pieces : List (List UInt8)) :
    Sha256.finalize (pieces.foldl Sha256.update Sha256.new) = Fips180.sha256 pieces.flatten := by
  rw [Sha256.finalize, sha256_initial, Fips180.sha256]
  show (Hasher.finalize block (pieces.foldl (Hasher.update block)
    (Hasher.new (sha256View Fips180.Sha256.initial)))).toList.flatMap beBytes = _
  rw [Hasher.finalize_pieces, digest_map sha256_block, output_eq]
  rfl

theorem sha1_pieces (pieces : List (List UInt8)) :
    Sha1.finalize (pieces.foldl Sha1.update Sha1.new) = Fips180.sha1 pieces.flatten := by
  rw [Sha1.finalize, Fips180.sha1]
  show (Hasher.finalize Sha1.block (pieces.foldl (Hasher.update Sha1.block)
    (Hasher.new (sha1View Fips180.Sha1.initial)))).toList.flatMap beBytes = _
  rw [Hasher.finalize_pieces, digest_map sha1_block, output_eq]
  rfl

theorem sha1_eq (data : List UInt8) : sha1 data = Fips180.sha1 data := by
  have one := sha1_pieces [data]
  rwa [List.flatten_cons, List.flatten_nil, List.append_nil] at one

/-! ## The HMAC -/

theorem hmacKey_eq (key : List UInt8) : hmacKey sha1 key = Fips180.hmacKey Fips180.sha1 key := by
  rw [hmacKey, Fips180.hmacKey]
  by_cases long : 64 < key.length
  · rw [if_pos long, if_neg (by omega), sha1_eq]
  · rw [if_neg long, if_pos (by omega)]

theorem hmac_pieces (key : List UInt8) (pieces : List (List UInt8)) :
    (pieces.foldl HmacSha1.update (HmacSha1.new key)).finalize =
      Fips180.hmac Fips180.sha1 key pieces.flatten := by
  have parts : ∀ (pieces : List (List UInt8)) (state : HmacSha1),
      pieces.foldl HmacSha1.update state =
        ⟨pieces.foldl Sha1.update state.inner, state.opad⟩ := by
    intro pieces
    induction pieces with
    | nil => exact fun _ => rfl
    | cons piece pieces ih => exact fun state => ih _
  have inner := sha1_pieces ((hmacKey sha1 key).map (· ^^^ 0x36) :: pieces)
  have outer := sha1_pieces [(hmacKey sha1 key).map (· ^^^ 0x5c), Fips180.sha1
    ((hmacKey sha1 key).map (· ^^^ 0x36) ++ pieces.flatten)]
  rw [List.foldl_cons, List.flatten_cons] at inner
  rw [List.flatten_cons, List.flatten_cons, List.flatten_nil, List.append_nil] at outer
  rw [parts, HmacSha1.finalize, Fips180.hmac, ← hmacKey_eq]
  dsimp only [HmacSha1.new]
  rw [inner]
  exact outer

/-- **Hashing in pieces is hashing the whole**: for every message in any pieces the digests are
those of the standard, and the HMAC is that of the whole message. -/
theorem streaming_spec :
    (∀ pieces : List (List UInt8), Sha256.finalize (pieces.foldl Sha256.update Sha256.new) =
      Fips180.sha256 pieces.flatten) ∧
    (∀ pieces : List (List UInt8), Sha1.finalize (pieces.foldl Sha1.update Sha1.new) =
      Fips180.sha1 pieces.flatten) ∧
    ∀ (key : List UInt8) (pieces : List (List UInt8)),
      (pieces.foldl HmacSha1.update (HmacSha1.new key)).finalize =
        hmacSha1 key pieces.flatten ∧
      hmacSha1 key pieces.flatten = Fips180.hmac Fips180.sha1 key pieces.flatten := by
  refine ⟨sha256_pieces, sha1_pieces, fun key pieces => ?_⟩
  have one := hmac_pieces key [pieces.flatten]
  rw [List.flatten_cons, List.flatten_nil, List.append_nil] at one
  exact ⟨(hmac_pieces key pieces).trans one.symm, one⟩

end RustyPenguin.Crypto
