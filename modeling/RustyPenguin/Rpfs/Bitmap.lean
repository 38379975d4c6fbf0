import RustyPenguin.Rpfs.Directory

/-!
# The block bitmap

One bit for each data block, set when the block is used. The operations index the
byte vector and fail when the byte is not there; sums of 32-bit words fail when they
overflow. Both failures stand for a panic of the program, and are values (`none`) so
that their absence can be proved rather than assumed.

`bitAt` is what a bitmap says of a block. `Filled bm bm' lo hi v` says that `bm'` is
`bm` with the blocks from `lo` to `hi` given the bit `v`, and with every byte that
holds none of them untouched. The loops are described by it: `setRun_filled`,
`freeRun_filled`, and for the first-fit search `allocRun_some` (the run it returns
was free and is now used) and `allocRun_none` (it gives up only when no free run of
that length is left).
-/

set_option autoImplicit false

namespace RustyPenguin.Rpfs

open Buffer

/-! ## Machine words -/

/-- The sum of two 32-bit words, or a failure when it overflows. -/
def addU32 (a b : Nat) : Option Nat := if a + b < 2 ^ 32 then some (a + b) else none

/-- The sum of two 64-bit words, or a failure when it overflows. -/
def addU64 (a b : Nat) : Option Nat := if a + b < 2 ^ 64 then some (a + b) else none

theorem addU32_eq_some {a b c : Nat} : addU32 a b = some c ↔ a + b < 2 ^ 32 ∧ c = a + b := by
  rw [addU32]
  by_cases fits : a + b < 2 ^ 32
  · rw [if_pos fits, Option.some.injEq]
    exact ⟨fun same => ⟨fits, same.symm⟩, fun same => same.2.symm⟩
  · rw [if_neg fits]
    exact ⟨fun none => (Option.some_ne_none _ none.symm).elim, fun same => absurd same.1 fits⟩

theorem addU64_eq_some {a b c : Nat} : addU64 a b = some c ↔ a + b < 2 ^ 64 ∧ c = a + b := by
  rw [addU64]
  by_cases fits : a + b < 2 ^ 64
  · rw [if_pos fits, Option.some.injEq]
    exact ⟨fun same => ⟨fits, same.symm⟩, fun same => same.2.symm⟩
  · rw [if_neg fits]
    exact ⟨fun none => (Option.some_ne_none _ none.symm).elim, fun same => absurd same.1 fits⟩

theorem addU32_of_lt {a b : Nat} (fits : a + b < 2 ^ 32) : addU32 a b = some (a + b) := if_pos fits

theorem addU64_of_lt {a b : Nat} (fits : a + b < 2 ^ 64) : addU64 a b = some (a + b) := if_pos fits

/-! ## One bit -/

/-- The bit of block `b`; a block the bitmap does not cover reads as free. -/
def bitAt (bm : List UInt8) (b : Nat) : Bool := (bm.getD (b / 8) 0).toNat.testBit (b % 8)

/-- Every block of a zeroed bitmap is free. -/
theorem bitAt_replicate (n b : Nat) : bitAt (List.replicate n 0) b = false := by
  have zero : (List.replicate n (0 : UInt8)).getD (b / 8) 0 = 0 := by
    rw [List.getD_eq_getElem?_getD, List.getElem?_replicate]
    split <;> rfl
  rw [bitAt, zero]
  exact Nat.zero_testBit _

def bitGet (bm : List UInt8) (b : Nat) : Option Bool := do
  let x ← bm[b / 8]?
  return (x >>> UInt8.ofNat (b % 8)) &&& 1 != 0

def bitSet (bm : List UInt8) (b : Nat) (v : Bool) : Option (List UInt8) := do
  let byte := b / 8
  let mask := (1 : UInt8) <<< UInt8.ofNat (b % 8)
  let x ← bm[byte]?
  return bm.set byte (if v then x ||| mask else x &&& ~~~mask)

/-- `bm'` is `bm` with the bits from `lo` to `hi` set to `v`. -/
structure Filled (bm bm' : List UInt8) (lo hi : Nat) (v : Bool) : Prop where
  length_eq : bm'.length = bm.length
  inside : ∀ c, lo ≤ c → c < hi → bitAt bm' c = v
  outside : ∀ c, c < lo ∨ hi ≤ c → bitAt bm' c = bitAt bm c
  bytes : ∀ k, (∀ c, lo ≤ c → c < hi → c / 8 ≠ k) → bm'[k]? = bm[k]?

section Byte

theorem toNat_mask {s : Nat} (small : s < 8) :
    ((1 : UInt8) <<< UInt8.ofNat s).toNat = 2 ^ s := by
  have : ∀ s < 8, ((1 : UInt8) <<< UInt8.ofNat s).toNat = 2 ^ s := by decide
  exact this s small

theorem shifted_bit {x : UInt8} {s : Nat} (small : s < 8) :
    ((x >>> UInt8.ofNat s) &&& 1 != 0) = x.toNat.testBit s := by
  have shift : (UInt8.ofNat s).toNat % 8 = s := by
    rw [UInt8.toNat_ofNat']
    omega
  have low : ((x >>> UInt8.ofNat s) &&& 1).toNat = x.toNat / 2 ^ s % 2 := by
    rw [UInt8.toNat_and, UInt8.toNat_shiftRight, shift, Nat.shiftRight_eq_div_pow]
    exact Nat.and_one_is_mod _
  rw [Nat.testBit_eq_decide_div_mod_eq, Bool.eq_iff_iff, bne_iff_ne, decide_eq_true_eq, ← low,
    ne_eq, ← UInt8.toNat_inj]
  have bound : ((x >>> UInt8.ofNat s) &&& 1).toNat < 2 := by
    rw [low]
    omega
  rw [show (0 : UInt8).toNat = 0 from rfl]
  omega

theorem testBit_or_mask {x : UInt8} {s : Nat} (small : s < 8) (k : Nat) :
    (x ||| (1 : UInt8) <<< UInt8.ofNat s).toNat.testBit k =
      if k = s then true else x.toNat.testBit k := by
  rw [UInt8.toNat_or, Nat.testBit_or, toNat_mask small, Nat.testBit_two_pow]
  by_cases here : k = s
  · simp [here]
  · simp [here, Ne.symm here]

theorem testBit_and_not_mask {x : UInt8} {s : Nat} (small : s < 8) {k : Nat} (inByte : k < 8) :
    (x &&& ~~~((1 : UInt8) <<< UInt8.ofNat s)).toNat.testBit k =
      if k = s then false else x.toNat.testBit k := by
  have inRange : 2 ^ s < 2 ^ 8 := Nat.pow_lt_pow_right (by decide) small
  have complement : (~~~((1 : UInt8) <<< UInt8.ofNat s)).toNat = 2 ^ 8 - (2 ^ s + 1) := by
    rw [UInt8.toNat_not, toNat_mask small, UInt8.size]
    omega
  rw [UInt8.toNat_and, Nat.testBit_and, complement, Nat.testBit_two_pow_sub_succ inRange,
    Nat.testBit_two_pow]
  by_cases here : k = s
  · simp [here]
  · simp [here, Ne.symm here, inByte]

end Byte

theorem bitGet_of_lt {bm : List UInt8} {b : Nat} (covered : b / 8 < bm.length) :
    bitGet bm b = some (bitAt bm b) := by
  have small : b % 8 < 8 := Nat.mod_lt _ (by decide)
  rw [bitGet, bitAt, List.getElem?_eq_getElem covered, List.getD_eq_getElem _ _ covered]
  exact congrArg some (shifted_bit small)

theorem bitGet_eq_some {bm : List UInt8} {b : Nat} {u : Bool} (got : bitGet bm b = some u) :
    u = bitAt bm b := by
  by_cases covered : b / 8 < bm.length
  · rw [bitGet_of_lt covered] at got
    exact (Option.some.inj got).symm
  · rw [bitGet, List.getElem?_eq_none (by omega)] at got
    cases got

theorem bitSet_isSome {bm : List UInt8} {b : Nat} (covered : b / 8 < bm.length) (v : Bool) :
    ∃ bm', bitSet bm b v = some bm' := by
  rw [bitSet, List.getElem?_eq_getElem covered]
  exact ⟨_, rfl⟩

/-- **Setting one bit** sets that bit, and touches no byte but its own. -/
theorem bitSet_filled {bm bm' : List UInt8} {b : Nat} {v : Bool}
    (done : bitSet bm b v = some bm') : Filled bm bm' b (b + 1) v := by
  have small : b % 8 < 8 := Nat.mod_lt _ (by decide)
  by_cases covered : b / 8 < bm.length
  · rw [bitSet, List.getElem?_eq_getElem covered] at done
    have result := (Option.some.inj done).symm
    subst result
    have bitNow : ∀ c, bitAt
        (bm.set (b / 8) (if v then bm[b / 8] ||| (1 : UInt8) <<< UInt8.ofNat (b % 8)
          else bm[b / 8] &&& ~~~((1 : UInt8) <<< UInt8.ofNat (b % 8)))) c =
        if c = b then v else bitAt bm c := by
      intro c
      have inByte : c % 8 < 8 := Nat.mod_lt _ (by decide)
      rw [bitAt, bitAt]
      by_cases sameByte : c / 8 = b / 8
      · rw [sameByte, List.getD_eq_getElem?_getD, List.getElem?_set_self covered,
          List.getD_eq_getElem _ _ covered, Option.getD_some]
        have which : (c % 8 = b % 8) = (c = b) := propext ⟨fun _ => by omega, fun _ => by omega⟩
        cases v with
        | true => simp only [if_true, testBit_or_mask small, which]
        | false =>
            simp only [Bool.false_eq_true, if_false, testBit_and_not_mask small inByte, which]
      · have other : c ≠ b := fun same => sameByte (by rw [same])
        rw [if_neg other, List.getD_eq_getElem?_getD, List.getElem?_set_ne (Ne.symm sameByte),
          ← List.getD_eq_getElem?_getD]
    refine ⟨List.length_set, fun c low high => ?_, fun c apart => ?_, fun k missed => ?_⟩
    · rw [bitNow, if_pos (by omega)]
    · rw [bitNow, if_neg (by omega)]
    · exact List.getElem?_set_ne (missed b (Nat.le_refl _) (Nat.lt_succ_self _))
  · rw [bitSet, List.getElem?_eq_none (by omega)] at done
    cases done

namespace Filled

variable {bm bm' bm'' : List UInt8} {lo mid hi : Nat} {v : Bool}

theorem refl (bm : List UInt8) (lo : Nat) (v : Bool) : Filled bm bm lo lo v :=
  ⟨rfl, fun _ _ _ => by omega, fun _ _ => rfl, fun _ _ => rfl⟩

/-- Filling two adjacent stretches, one after the other. -/
theorem append (first : Filled bm bm' lo mid v) (second : Filled bm' bm'' mid hi v)
    (ordered : lo ≤ mid) (ordered' : mid ≤ hi) : Filled bm bm'' lo hi v where
  length_eq := second.length_eq.trans first.length_eq
  inside := fun c low high => by
    by_cases early : c < mid
    · rw [second.outside c (Or.inl early), first.inside c low early]
    · exact second.inside c (by omega) high
  outside := fun c apart => by
    rw [second.outside c (by omega), first.outside c (by omega)]
  bytes := fun k missed => by
    rw [second.bytes k fun c low high => missed c (by omega) high,
      first.bytes k fun c low high => missed c low (by omega)]

end Filled

/-! ## Runs of bits -/

/-- `for k in start..start + n { bit_set(k, true) }`. -/
def setRun (bm : List UInt8) (start : Nat) : Nat → Option (List UInt8)
  | 0 => some bm
  | n + 1 => do
      let bm ← bitSet bm start true
      setRun bm (start + 1) n

/-- `if k < total { bit_set(k, false) }`. -/
def freeBit (total : Nat) (bm : List UInt8) (k : Nat) : Option (List UInt8) :=
  if k < total then bitSet bm k false else some bm

/-- `for k in start..start + n { if k < total { bit_set(k, false) } }`. -/
def freeLoop (total : Nat) (bm : List UInt8) (start : Nat) : Nat → Option (List UInt8)
  | 0 => some bm
  | n + 1 => do
      let bm ← freeBit total bm start
      freeLoop total bm (start + 1) n

def freeRun (total : Nat) (bm : List UInt8) (start n : Nat) : Option (List UInt8) := do
  let _ ← addU32 start n
  freeLoop total bm start n

theorem setRun_filled : ∀ {n start : Nat} {bm bm' : List UInt8}, setRun bm start n = some bm' →
    Filled bm bm' start (start + n) true
  | 0, start, bm, _, done => by
      cases done
      exact Filled.refl bm start true
  | n + 1, start, bm, bm', done => by
      rw [setRun, Option.bind_eq_bind, Option.bind_eq_some_iff] at done
      obtain ⟨mid, one, rest⟩ := done
      have tail := setRun_filled rest
      rw [show start + 1 + n = start + (n + 1) by omega] at tail
      exact (bitSet_filled one).append tail (by omega) (by omega)

theorem setRun_isSome : ∀ {n start : Nat} {bm : List UInt8}, start + n ≤ 8 * bm.length →
    ∃ bm', setRun bm start n = some bm'
  | 0, _, bm, _ => ⟨bm, rfl⟩
  | n + 1, start, bm, covered => by
      have first : start / 8 < bm.length := by omega
      obtain ⟨mid, one⟩ := bitSet_isSome first true
      have sameLength := (bitSet_filled one).length_eq
      have inside : start + 1 + n ≤ 8 * mid.length := by omega
      obtain ⟨bm', rest⟩ := setRun_isSome inside
      exact ⟨bm', by rw [setRun, one]; exact rest⟩

theorem freeLoop_filled {total : Nat} : ∀ {n start : Nat} {bm bm' : List UInt8},
    freeLoop total bm start n = some bm' →
      Filled bm bm' (min start total) (min (start + n) total) false
  | 0, start, bm, _, done => by
      cases done
      exact Filled.refl bm _ false
  | n + 1, start, bm, bm', done => by
      rw [freeLoop, Option.bind_eq_bind, Option.bind_eq_some_iff] at done
      obtain ⟨mid, one, rest⟩ := done
      have tail := freeLoop_filled rest
      rw [show start + 1 + n = start + (n + 1) by omega] at tail
      by_cases below : start < total
      · rw [freeBit, if_pos below] at one
        have head := bitSet_filled one
        rw [show min (start + 1) total = start + 1 by omega] at tail
        rw [show min start total = start by omega]
        exact head.append tail (by omega) (by omega)
      · rw [freeBit, if_neg below] at one
        cases one
        rw [show min (start + 1) total = min start total by omega] at tail
        exact tail

theorem freeRun_filled {total start n : Nat} {bm bm' : List UInt8}
    (done : freeRun total bm start n = some bm') :
    Filled bm bm' (min start total) (min (start + n) total) false := by
  rw [freeRun, Option.bind_eq_bind, Option.bind_eq_some_iff] at done
  obtain ⟨_, _, loop⟩ := done
  exact freeLoop_filled loop

theorem freeLoop_isSome {total : Nat} : ∀ {n start : Nat} {bm : List UInt8},
    total ≤ 8 * bm.length → ∃ bm', freeLoop total bm start n = some bm'
  | 0, _, bm, _ => ⟨bm, rfl⟩
  | n + 1, start, bm, covered => by
      by_cases below : start < total
      · have first : start / 8 < bm.length := by omega
        obtain ⟨mid, one⟩ := bitSet_isSome first false
        have sameLength := (bitSet_filled one).length_eq
        have covered' : total ≤ 8 * mid.length := by omega
        obtain ⟨bm', rest⟩ := freeLoop_isSome covered'
        exact ⟨bm', by rw [freeLoop, freeBit, if_pos below, one]; exact rest⟩
      · obtain ⟨bm', rest⟩ := freeLoop_isSome covered
        exact ⟨bm', by rw [freeLoop, freeBit, if_neg below]; exact rest⟩

theorem freeRun_isSome {total start n : Nat} {bm : List UInt8} (covered : total ≤ 8 * bm.length)
    (fits : start + n < 2 ^ 32) : ∃ bm', freeRun total bm start n = some bm' := by
  rw [freeRun, addU32_of_lt fits]
  exact freeLoop_isSome covered

/-! ## First-fit allocation -/

/-- The `n` blocks from `start` on are all free. -/
def FreeRun (bm : List UInt8) (start n : Nat) : Prop :=
  ∀ c, start ≤ c → c < start + n → bitAt bm c = false

/-- The scan of `alloc_run` over the `left` blocks from `b` on, `run` free blocks having been
seen since `start`. The run it finds is marked used. -/
def allocLoop (bm : List UInt8) (n : Nat) :
    (left b start run : Nat) → Option (Option Nat × List UInt8)
  | 0, _, _, _ => some (none, bm)
  | left + 1, b, start, run => do
      let u ← bitGet bm b
      if u then allocLoop bm n left (b + 1) start 0
      else do
        let start := if run = 0 then b else start
        let run ← addU32 run 1
        if run = n then do
          let _ ← addU32 start n
          let bm ← setRun bm start n
          return (some start, bm)
        else allocLoop bm n left (b + 1) start run

def allocRun (total : Nat) (bm : List UInt8) (n : Nat) : Option (Option Nat × List UInt8) :=
  if n = 0 then some (none, bm) else allocLoop bm n total 0 0 0

/-- What the scan knows at block `b`: the last `run` blocks are free, the block before them is
not, and no long enough run of free blocks ends by `b`. -/
structure Scanned (bm : List UInt8) (n b start run : Nat) : Prop where
  short : run < n
  behind : run ≤ b
  start_eq : 0 < run → start = b - run
  free : ∀ c, b - run ≤ c → c < b → bitAt bm c = false
  edge : b - run = 0 ∨ bitAt bm (b - run - 1) = true
  blocked : ∀ s, s + n ≤ b → ¬FreeRun bm s n

theorem Scanned.initial {bm : List UInt8} {n : Nat} (positive : 0 < n) : Scanned bm n 0 0 0 where
  short := positive
  behind := Nat.le_refl 0
  start_eq := fun impossible => by omega
  free := fun c _ high => by omega
  edge := Or.inl rfl
  blocked := fun s fits => by omega

/-- A used block ends the current run. -/
theorem Scanned.used {bm : List UInt8} {n b start run : Nat} (scan : Scanned bm n b start run)
    (used : bitAt bm b = true) : Scanned bm n (b + 1) start 0 where
  short := Nat.lt_of_le_of_lt (Nat.zero_le _) scan.short
  behind := Nat.zero_le _
  start_eq := fun impossible => by omega
  free := fun c low high => by omega
  edge := Or.inr used
  blocked := fun s fits isFree => by
    by_cases old : s + n ≤ b
    · exact scan.blocked s old isFree
    · have inside := isFree b (by have := scan.short; omega) (by omega)
      rw [used] at inside
      cases inside

/-- A free block that does not complete a run extends it. -/
theorem Scanned.extend {bm : List UInt8} {n b start run : Nat} (scan : Scanned bm n b start run)
    (free : bitAt bm b = false) (short : run + 1 ≠ n) :
    Scanned bm n (b + 1) (if run = 0 then b else start) (run + 1) where
  short := by have := scan.short; omega
  behind := by have := scan.behind; omega
  start_eq := fun _ => by
    split
    · rename_i none
      omega
    · rename_i some
      rw [scan.start_eq (Nat.pos_of_ne_zero some)]
      omega
  free := fun c low high => by
    by_cases last : c = b
    · rw [last]
      exact free
    · exact scan.free c (by omega) (by omega)
  edge := by
    rw [Nat.add_sub_add_right]
    exact scan.edge
  blocked := fun s fits isFree => by
    by_cases old : s + n ≤ b
    · exact scan.blocked s old isFree
    · -- the run would reach back over the used block at the edge
      have tooLong := scan.short
      have reach := scan.behind
      rcases scan.edge with atStart | used
      · omega
      · have inside := isFree (b - run - 1) (by omega) (by omega)
        rw [used] at inside
        cases inside

/-- The free block that completes a run. -/
theorem Scanned.complete {bm : List UInt8} {n b start run : Nat}
    (scan : Scanned bm n b start run) (free : bitAt bm b = false) (whole : run + 1 = n) :
    (if run = 0 then b else start) + n = b + 1 ∧ FreeRun bm (if run = 0 then b else start) n := by
  have reach := scan.behind
  have place : (if run = 0 then b else start) = b - run := by
    split
    · rename_i none
      omega
    · rename_i some
      exact scan.start_eq (Nat.pos_of_ne_zero some)
  rw [place]
  refine ⟨by omega, fun c low high => ?_⟩
  by_cases last : c = b
  · rw [last]
    exact free
  · exact scan.free c low (by omega)

/-- What the scan returns, from any point it can be at. -/
theorem allocLoop_spec {bm : List UInt8} {n : Nat} :
    ∀ {left b start run : Nat} {r : Option Nat} {bm' : List UInt8},
      Scanned bm n b start run → allocLoop bm n left b start run = some (r, bm') →
        (r = none ∧ bm' = bm ∧ ∀ s, s + n ≤ b + left → ¬FreeRun bm s n) ∨
        (∃ s, r = some s ∧ s + n ≤ b + left ∧ FreeRun bm s n ∧ Filled bm bm' s (s + n) true)
  | 0, b, start, run, r, bm', scan, done => by
      cases done
      exact Or.inl ⟨rfl, rfl, scan.blocked⟩
  | left + 1, b, start, run, r, bm', scan, done => by
      rw [allocLoop, Option.bind_eq_bind, Option.bind_eq_some_iff] at done
      obtain ⟨u, got, rest⟩ := done
      have bit := bitGet_eq_some got
      cases u with
      | true =>
          have tail := allocLoop_spec (scan.used bit.symm) rest
          rwa [show b + 1 + left = b + (left + 1) by omega] at tail
      | false =>
          simp only [Bool.false_eq_true, if_false, Option.bind_eq_bind,
            Option.bind_eq_some_iff] at rest
          obtain ⟨run', count, rest⟩ := rest
          obtain ⟨-, rfl⟩ := addU32_eq_some.1 count
          by_cases whole : run + 1 = n
          · rw [if_pos whole, Option.bind_eq_some_iff] at rest
            obtain ⟨_, -, rest⟩ := rest
            obtain ⟨bm₁, marked, result⟩ := Option.bind_eq_some_iff.mp rest
            cases result
            obtain ⟨ends, isFree⟩ := scan.complete bit.symm whole
            exact Or.inr ⟨_, rfl, by omega, isFree, setRun_filled marked⟩
          · rw [if_neg whole] at rest
            have tail := allocLoop_spec (scan.extend bit.symm whole) rest
            rwa [show b + 1 + left = b + (left + 1) by omega] at tail

/-- **Soundness of allocation**: the run returned lies in the volume, was free and is now
used, and nothing else changed. -/
theorem allocRun_some {total n s : Nat} {bm bm' : List UInt8}
    (done : allocRun total bm n = some (some s, bm')) :
    s + n ≤ total ∧ FreeRun bm s n ∧ Filled bm bm' s (s + n) true := by
  rw [allocRun] at done
  split at done
  · cases done
  · rename_i positive
    rcases allocLoop_spec (Scanned.initial (Nat.pos_of_ne_zero positive)) done with
      ⟨nothing, -, -⟩ | ⟨s', same, fits, isFree, filled⟩
    · cases nothing
    · cases same
      exact ⟨by omega, isFree, filled⟩

/-- **Completeness of allocation**: it gives up only when no free run is long enough, and then
changes nothing. -/
theorem allocRun_none {total n : Nat} {bm bm' : List UInt8} (positive : 0 < n)
    (done : allocRun total bm n = some (none, bm')) :
    bm' = bm ∧ ∀ s, s + n ≤ total → ¬FreeRun bm s n := by
  rw [allocRun, if_neg (by omega)] at done
  rcases allocLoop_spec (Scanned.initial positive) done with ⟨-, same, blocked⟩ | ⟨_, found, -⟩
  · refine ⟨same, ?_⟩
    simpa using blocked
  · cases found

theorem allocLoop_isSome {bm : List UInt8} {n : Nat} :
    ∀ {left b start run : Nat}, Scanned bm n b start run → b + left ≤ 8 * bm.length →
      b + left < 2 ^ 32 → ∃ r, allocLoop bm n left b start run = some r
  | 0, _, _, _, _, _, _ => ⟨_, rfl⟩
  | left + 1, b, start, run, scan, covered, small => by
      have got := bitGet_of_lt (show b / 8 < bm.length by omega)
      have reach := scan.behind
      rw [allocLoop, got, Option.bind_eq_bind, Option.bind_some]
      cases bit : bitAt bm b with
      | true => exact allocLoop_isSome (scan.used bit) (by omega) (by omega)
      | false =>
          have count : addU32 run 1 = some (run + 1) := addU32_of_lt (by omega)
          simp only [Bool.false_eq_true, if_false, count, Option.bind_eq_bind, Option.bind_some]
          by_cases whole : run + 1 = n
          · obtain ⟨ends, -⟩ := scan.complete bit whole
            have word : addU32 (if run = 0 then b else start) n =
                some ((if run = 0 then b else start) + n) := addU32_of_lt (by omega)
            have inside : (if run = 0 then b else start) + n ≤ 8 * bm.length := by omega
            obtain ⟨bm₁, marked⟩ := setRun_isSome inside
            rw [if_pos whole, word, Option.bind_some, marked]
            exact ⟨_, rfl⟩
          · rw [if_neg whole]
            exact allocLoop_isSome (scan.extend bit whole) (by omega) (by omega)

theorem allocRun_isSome {total n : Nat} {bm : List UInt8} (covered : total ≤ 8 * bm.length)
    (small : total < 2 ^ 32) : ∃ r, allocRun total bm n = some r := by
  rw [allocRun]
  split
  · exact ⟨_, rfl⟩
  · rename_i positive
    exact allocLoop_isSome (Scanned.initial (Nat.pos_of_ne_zero positive)) (by omega) (by omega)

/-! ## Counting free blocks -/

/-- `for b in b..b + left { if !bit_get(b) { c += 1 } }`. -/
def freeCount (bm : List UInt8) : (left b c : Nat) → Option Nat
  | 0, _, c => some c
  | left + 1, b, c => do
      let u ← bitGet bm b
      let c ← if u then some c else addU32 c 1
      freeCount bm left (b + 1) c

def freeBlocks (total : Nat) (bm : List UInt8) : Option Nat := freeCount bm total 0 0

theorem freeCount_isSome {bm : List UInt8} :
    ∀ {left b c : Nat}, b + left ≤ 8 * bm.length → c + left < 2 ^ 32 →
      ∃ r, freeCount bm left b c = some r
  | 0, _, c, _, _ => ⟨c, rfl⟩
  | left + 1, b, c, covered, small => by
      have got := bitGet_of_lt (show b / 8 < bm.length by omega)
      rw [freeCount, got, Option.bind_eq_bind, Option.bind_some]
      cases bitAt bm b with
      | true => exact freeCount_isSome (by omega) (by omega)
      | false =>
          have count : addU32 c 1 = some (c + 1) := addU32_of_lt (by omega)
          simp only [Bool.false_eq_true, if_false, count]
          exact freeCount_isSome (by omega) (by omega)

theorem freeBlocks_isSome {total : Nat} {bm : List UInt8} (covered : total ≤ 8 * bm.length)
    (small : total < 2 ^ 32) : ∃ r, freeBlocks total bm = some r :=
  freeCount_isSome (by omega) (by omega)

end RustyPenguin.Rpfs
