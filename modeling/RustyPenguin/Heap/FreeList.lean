import RustyPenguin.Foundation.Extents
import RustyPenguin.Foundation.Unsigned

/-!
# The free list of the desktop's heap

The heap hands out parts of one arena. Its free blocks form a list that lies in the arena
itself: the first word of a free block is its size and the second the address of the next
block, with zero behind the last. `alloc` takes the first block with room and leaves what it
does not need, `dealloc` puts a block back in address order and joins it with its neighbours.

Addresses and sizes are words of 64 bits, and sums that leave the word wrap, as they do in the
build that ships. A search that looks at more blocks than there are addresses never ends; it
has no answer here.
-/

set_option autoImplicit false

namespace RustyPenguin

/-- Header bytes that must fit in any free block. -/
def HDR : UInt64 := 16

/-- All allocations are at least 16-aligned. -/
def ALIGN : UInt64 := 16

def alignUp (x a : UInt64) : UInt64 := (x + a - 1) &&& ~~~(a - 1)

def roundBlock (size : UInt64) : UInt64 := alignUp (if size < HDR then HDR else size) ALIGN

/-- A heap, with the words of the memory it lies in. -/
structure Heap where
  head : UInt64
  base : UInt64
  limit : UInt64
  live : UInt64
  mem : UInt64 → UInt64

namespace Heap

/-- A heap before `init`. -/
def new (mem : UInt64 → UInt64) : Heap where
  head := 0
  base := 0
  limit := 0
  live := 0
  mem := mem

def poke (h : Heap) (addr value : UInt64) : Heap :=
  { h with mem := fun a => if a = addr then value else h.mem a }

def sizeOf (h : Heap) (addr : UInt64) : UInt64 := h.mem addr

def nextOf (h : Heap) (addr : UInt64) : UInt64 := h.mem (addr + 8)

def setSize (h : Heap) (addr size : UInt64) : Heap := h.poke addr size

def setNext (h : Heap) (addr next : UInt64) : Heap := h.poke (addr + 8) next

def write (h : Heap) (addr size next : UInt64) : Heap := (h.setSize addr size).setNext addr next

/-- One free block that spans the whole arena. -/
def init (h : Heap) (base size : UInt64) : Heap :=
  let size := size &&& ~~~(ALIGN - 1)
  write { h with base := base, limit := base + size, live := 0, head := base } base size 0

/-- As many steps as there are addresses. -/
@[irreducible] def allSteps : Nat := 2 ^ 64

/-- A gap kept as a block in front of `chain`, if a header fits. -/
def leave (h : Heap) (addr len chain : UInt64) : Heap × UInt64 :=
  if HDR ≤ len then (h.write addr len chain, addr) else (h, chain)

/-- Let the block before, or the head, lead to `chain`. -/
def relink (h : Heap) (prev chain : UInt64) : Heap :=
  if prev = 0 then { h with head := chain } else h.setNext prev chain

/-- Take `need` bytes at `payload` out of the block `cur`. -/
def split (h : Heap) (prev cur cnext cend payload need : UInt64) : Heap :=
  let pre := payload - cur
  let post := cend - (payload + need)
  let behind := h.leave (payload + need) post cnext
  let before := behind.1.leave cur pre behind.2
  let linked := before.1.relink prev before.2
  { linked with live := linked.live + need }

/-- The search for the first block with room. -/
def allocFrom (h : Heap) (need align : UInt64) : Nat → UInt64 → UInt64 → Option (UInt64 × Heap)
  | 0, _, _ => none
  | fuel + 1, prev, cur =>
    if cur = 0 then some (0, h)
    else
      let csz := h.sizeOf cur
      let cnext := h.nextOf cur
      let payload := alignUp cur align
      let cend := cur + csz
      if payload + need ≤ cend then some (payload, h.split prev cur cnext cend payload need)
      else h.allocFrom need align fuel cur cnext

theorem allocFrom_end (h : Heap) (need align : UInt64) (fuel : Nat) {prev cur : UInt64}
    (last : cur = 0) : h.allocFrom need align (fuel + 1) prev cur = some (0, h) := if_pos last

theorem allocFrom_step (h : Heap) (need align : UInt64) (fuel : Nat) (prev : UInt64) {cur : UInt64}
    (nonzero : cur ≠ 0) : h.allocFrom need align (fuel + 1) prev cur =
      if alignUp cur align + need ≤ cur + h.sizeOf cur then
        some (alignUp cur align, h.split prev cur (h.nextOf cur) (cur + h.sizeOf cur)
          (alignUp cur align) need)
      else h.allocFrom need align fuel cur (h.nextOf cur) := if_neg nonzero

def alloc (h : Heap) (size align : UInt64) : Option (UInt64 × Heap) :=
  let align := if align < ALIGN then ALIGN else align
  h.allocFrom (roundBlock size) align allSteps 0 h.head

/-- The last free block below `ptr` and the one behind it. -/
def findFrom (h : Heap) (ptr : UInt64) : Nat → UInt64 → UInt64 → Option (UInt64 × UInt64)
  | 0, _, _ => none
  | fuel + 1, prev, cur =>
    if cur ≠ 0 ∧ cur < ptr then h.findFrom ptr fuel cur (h.nextOf cur) else some (prev, cur)

/-- Put the block at `ptr` between `prev` and `cur`. -/
def insert (h : Heap) (ptr need prev cur : UInt64) : Heap :=
  let prevAdj := prev ≠ 0 ∧ prev + h.sizeOf prev = ptr
  let curAdj := cur ≠ 0 ∧ ptr + need = cur
  if prevAdj then
    if curAdj then h.write prev (h.sizeOf prev + need + h.sizeOf cur) (h.nextOf cur)
    else h.setSize prev (h.sizeOf prev + need)
  else
    if curAdj then (h.write ptr (need + h.sizeOf cur) (h.nextOf cur)).relink prev ptr
    else (h.write ptr need cur).relink prev ptr

def dealloc (h : Heap) (ptr size : UInt64) : Option Heap :=
  if ptr = 0 then some h
  else
    let need := roundBlock size
    let h := { h with live := h.live - need }
    (h.findFrom ptr allSteps 0 h.head).map fun (prev, cur) => h.insert ptr need prev cur

/-! ## Rounding -/

/-- The least multiple of `a` that is not below `x`. -/
def roundUp (a x : Nat) : Nat := (x + a - 1) / a * a

theorem le_roundUp {a : Nat} (positive : 0 < a) (x : Nat) : x ≤ roundUp a x := by
  have split := Nat.div_add_mod (x + a - 1) a
  have rest := Nat.mod_lt (x + a - 1) positive
  rw [roundUp, Nat.mul_comm]
  omega

theorem roundUp_lt {a : Nat} (positive : 0 < a) (x : Nat) : roundUp a x < x + a := by
  have most := Nat.div_mul_le_self (x + a - 1) a
  rw [roundUp]
  omega

theorem dvd_roundUp (a x : Nat) : a ∣ roundUp a x := Nat.dvd_mul_left a _

theorem toNat_alignUp {x a : UInt64} {k : Nat} (power : a.toNat = 2 ^ k)
    (fits : roundUp a.toNat x.toNat < 2 ^ 64) :
    (alignUp x a).toNat = roundUp a.toNat x.toNat := by
  have small : a.toNat < 2 ^ 64 := a.toNat_lt
  have positive : 0 < a.toNat := power ▸ Nat.two_pow_pos k
  have one : (1 : UInt64) ≤ a := UInt64.le_iff_toNat_le.mpr positive
  have bits : k < 64 := (Nat.pow_lt_pow_iff_right (by decide : 1 < 2)).mp (power ▸ small)
  have sumFits : x.toNat + a.toNat - 1 < 2 ^ 64 := by
    by_contra big
    have reaches : 2 ^ (64 - k) ≤ (x.toNat + a.toNat - 1) / a.toNat := by
      rw [Nat.le_div_iff_mul_le positive, power, ← Nat.pow_add, Nat.sub_add_cancel bits.le]
      rw [power] at big
      exact Nat.not_lt.mp big
    have most := Nat.mul_le_mul_right a.toNat reaches
    rw [power, ← Nat.pow_add, Nat.sub_add_cancel bits.le] at most
    rw [roundUp, power] at fits
    exact Nat.not_lt.mpr most fits
  have less : (a - 1).toNat = a.toNat - 1 := UInt64.toNat_sub_of_le _ _ one
  have sum : (x + a - 1).toNat = x.toNat + a.toNat - 1 := by
    rw [UInt64.toNat_sub, UInt64.toNat_add, UInt64.toNat_one]
    omega
  rw [alignUp, UInt64.toNat_and, UInt64.toNat_not, less, sum, roundUp, power]
  exact Unsigned.and_not_low (power ▸ sumFits)

/-- The bytes a request of `size` takes. -/
def blockSize (size : Nat) : Nat := roundUp 16 (max size 16)

theorem blockSize_pos (size : Nat) : 0 < blockSize size :=
  Nat.lt_of_lt_of_le (by omega : 0 < max size 16) (le_roundUp (by decide) _)

theorem dvd_blockSize (size : Nat) : 16 ∣ blockSize size := dvd_roundUp 16 _

theorem toNat_roundBlock {size : UInt64} (small : size.toNat < 2 ^ 63) :
    (roundBlock size).toNat = blockSize size.toNat := by
  have larger : (if size < HDR then HDR else size).toNat = max size.toNat 16 := by
    split
    · rename_i below
      have low : size.toNat < 16 := UInt64.lt_iff_toNat_lt.mp below
      rw [Nat.max_eq_right low.le]
      rfl
    · rename_i above
      have high : 16 ≤ size.toNat := Nat.not_lt.mp fun low => above (UInt64.lt_iff_toNat_lt.mpr low)
      rw [Nat.max_eq_left high]
  have fits := roundUp_lt (by decide : 0 < 16) (max size.toNat 16)
  have sixteen : ALIGN.toNat = 2 ^ 4 := by decide
  rw [roundBlock, toNat_alignUp sixteen, larger]
  · rfl
  · rw [larger]
    exact Nat.lt_trans fits (by omega)

/-! ## Lists in memory -/

/-- The free blocks from `a` on and up to `z`, as the headers in memory say. -/
def Seg (mem : UInt64 → UInt64) : UInt64 → List Extent → UInt64 → Prop
  | a, [], z => a = z
  | a, e :: es, z =>
    a ≠ 0 ∧ e.start = a.toNat ∧ e.len = (mem a).toNat ∧ Seg mem (mem (a + 8)) es z

/-- The free list. -/
def FreeList (h : Heap) (free : List Extent) : Prop := Seg h.mem h.head free 0

/-- A block that has room for a header and ends inside the address space. -/
def Sound (e : Extent) : Prop := Extent.Grained 16 e ∧ e.stop < 2 ^ 64

theorem Sound.room {e : Extent} (sound : Sound e) : 16 ≤ e.len :=
  Nat.le_of_dvd sound.1.2.2 sound.1.2.1

theorem seg_append {mem : UInt64 → UInt64} {es fs : List Extent} {a z : UInt64} :
    Seg mem a (es ++ fs) z ↔ ∃ m, Seg mem a es m ∧ Seg mem m fs z := by
  induction es generalizing a with
  | nil => exact ⟨fun seg => ⟨a, rfl, seg⟩, fun ⟨_, same, seg⟩ => same ▸ seg⟩
  | cons e es ih =>
    constructor
    · intro ⟨nonzero, start, len, rest⟩
      obtain ⟨m, front, back⟩ := ih.mp rest
      exact ⟨m, ⟨nonzero, start, len, front⟩, back⟩
    · intro ⟨m, ⟨nonzero, start, len, front⟩, back⟩
      exact ⟨nonzero, start, len, ih.mpr ⟨m, front, back⟩⟩

/-- Two memories agree outside of a range. -/
def Untouched (lo hi : Nat) (mem mem' : UInt64 → UInt64) : Prop :=
  ∀ x, x.toNat < lo ∨ hi ≤ x.toNat → mem' x = mem x

theorem Untouched.trans {lo hi : Nat} {mem mem' mem'' : UInt64 → UInt64}
    (first : Untouched lo hi mem mem') (second : Untouched lo hi mem' mem'') :
    Untouched lo hi mem mem'' := by
  intro x outside
  rw [second x outside, first x outside]

theorem Untouched.mono {lo hi lo' hi' : Nat} {mem mem' : UInt64 → UInt64}
    (same : Untouched lo hi mem mem') (low : lo' ≤ lo) (high : hi ≤ hi') :
    Untouched lo' hi' mem mem' := by
  intro x outside
  refine same x ?_
  omega

theorem Untouched.refl (lo hi : Nat) (mem : UInt64 → UInt64) : Untouched lo hi mem mem :=
  fun _ _ => rfl

theorem toNat_next {a : UInt64} (fits : a.toNat + 8 < 2 ^ 64) : (a + 8).toNat = a.toNat + 8 := by
  rw [UInt64.toNat_add]
  exact Nat.mod_eq_of_lt fits

/-- A list is the same in a memory that agrees on its blocks. -/
theorem Seg.untouched {mem mem' : UInt64 → UInt64} {lo hi : Nat}
    (same : Untouched lo hi mem mem') {es : List Extent} {a z : UInt64} (seg : Seg mem a es z)
    (sound : ∀ e ∈ es, Sound e) (apart : ∀ e ∈ es, e.stop ≤ lo ∨ hi ≤ e.start) :
    Seg mem' a es z := by
  induction es generalizing a with
  | nil => exact seg
  | cons e es ih =>
    obtain ⟨nonzero, start, len, rest⟩ := seg
    have eSound := sound e List.mem_cons_self
    have eRoom := eSound.room
    have eBelow := eSound.2
    have eApart := apart e List.mem_cons_self
    simp only [Extent.stop] at eApart eBelow
    have second := toNat_next (a := a) (by omega)
    have sizeSame : mem' a = mem a := same a (by omega)
    have nextSame : mem' (a + 8) = mem (a + 8) := same (a + 8) (by omega)
    refine ⟨nonzero, start, sizeSame ▸ len, ?_⟩
    rw [nextSame]
    exact ih rest (fun c later => sound c (List.mem_cons_of_mem _ later))
      fun c later => apart c (List.mem_cons_of_mem _ later)

/-- The block in front of a place in the list: the last of `front`, or none. -/
def Behind (front : List Extent) (prev : UInt64) : Prop :=
  (front = [] ∧ prev = 0) ∨ ∃ f b, front = f ++ [b] ∧ b.start = prev.toNat ∧ prev ≠ 0

@[simp] theorem poke_self (h : Heap) (addr value : UInt64) : (h.poke addr value).mem addr = value :=
  if_pos rfl

theorem poke_of_ne {h : Heap} {addr x : UInt64} (other : x ≠ addr) (value : UInt64) :
    (h.poke addr value).mem x = h.mem x :=
  if_neg other

theorem untouched_poke {h : Heap} {addr : UInt64} {lo hi : Nat} (low : lo ≤ addr.toNat)
    (high : addr.toNat < hi) (value : UInt64) :
    Untouched lo hi h.mem (h.poke addr value).mem := by
  intro x outside
  refine poke_of_ne ?_ value
  rintro rfl
  omega

/-- A header written into a block: the block leads to the list behind it. -/
theorem write_spec (h : Heap) {addr : UInt64} (size next : UInt64)
    (fits : addr.toNat + 16 < 2 ^ 64) :
    Untouched addr.toNat (addr.toNat + 16) h.mem (h.write addr size next).mem ∧
      (h.write addr size next).mem addr = size ∧ (h.write addr size next).mem (addr + 8) = next := by
  have second := toNat_next (a := addr) (by omega)
  have other : addr ≠ addr + 8 := by
    intro same
    have eq := congrArg UInt64.toNat same
    omega
  refine ⟨?_, ?_, poke_self _ _ _⟩
  · have first : Untouched addr.toNat (addr.toNat + 16) h.mem (h.setSize addr size).mem :=
      untouched_poke (Nat.le_refl _) (by omega) size
    exact first.trans (untouched_poke (by omega) (by omega) next)
  · exact (poke_of_ne other _).trans (poke_self _ _ _)

/-- Leading the block before to `chain` makes the list in front end there, and changes no list
behind it. -/
theorem relink_spec {h : Heap} {front : List Extent} {cur prev : UInt64} (chain : UInt64)
    (toFront : Seg h.mem h.head front cur) (behind : Behind front prev)
    (spaced : Extent.Spaced front) (sound : ∀ e ∈ front, Sound e) :
    Seg (h.relink prev chain).mem (h.relink prev chain).head front chain ∧
      ∀ es a z, Seg h.mem a es z → (∀ e ∈ es, Sound e) → (∀ f ∈ front, ∀ e ∈ es, f.stop ≤ e.start) →
        Seg (h.relink prev chain).mem a es z := by
  rcases behind with ⟨rfl, rfl⟩ | ⟨f, b, rfl, start, nonzero⟩
  · exact ⟨rfl, fun es a z seg _ _ => seg⟩
  · have linked : h.relink prev chain = h.setNext prev chain := if_neg nonzero
    rw [linked]
    have bSound := sound b (List.mem_append_right _ List.mem_cons_self)
    have bRoom := bSound.room
    have bBelow := bSound.2
    simp only [Extent.stop] at bBelow
    have second := toNat_next (a := prev) (by omega)
    have same : Untouched b.start b.stop h.mem (h.setNext prev chain).mem :=
      untouched_poke (by omega) (by simp only [Extent.stop]; omega) chain
    obtain ⟨m, toF, bNonzero, bStart, bLen, _⟩ := seg_append.1 toFront
    have here : m = prev := UInt64.toNat_inj.mp (bStart.symm.trans start)
    rw [here] at toF bLen bNonzero bStart
    have other : prev ≠ prev + 8 := by
      intro eq
      have eq := congrArg UInt64.toNat eq
      omega
    constructor
    · refine seg_append.2 ⟨prev, ?_, bNonzero, bStart, ?_, poke_self _ _ _⟩
      · refine toF.untouched same (fun e isMember => sound e (List.mem_append_left _ isMember)) ?_
        intro e isMember
        have before := (List.pairwise_append.mp spaced).2.2 e isMember b List.mem_cons_self
        exact .inl before.le
      · rw [bLen]
        exact congrArg UInt64.toNat (poke_of_ne other chain).symm
    · intro es a z seg esSound after
      refine seg.untouched same esSound fun e isMember => .inr ?_
      exact after b (List.mem_append_right _ List.mem_cons_self) e isMember

@[simp] theorem live_relink (h : Heap) (prev chain : UInt64) :
    (h.relink prev chain).live = h.live := by
  rw [relink]
  split
  · rfl
  · rfl

@[simp] theorem live_leave (h : Heap) (addr len chain : UInt64) :
    (h.leave addr len chain).1.live = h.live := by
  rw [leave]
  split
  · rfl
  · rfl

@[simp] theorem head_leave (h : Heap) (addr len chain : UInt64) :
    (h.leave addr len chain).1.head = h.head := by
  rw [leave]
  split
  · rfl
  · rfl

/-- A gap kept is a block in front of the list behind it, unless it is empty. -/
theorem leave_spec {h : Heap} (addr len : UInt64) {chain : UInt64} {back : List Extent}
    (seg : Seg h.mem chain back 0) (sound : ∀ e ∈ back, Sound e)
    (after : ∀ e ∈ back, addr.toNat + len.toNat ≤ e.start) (whole : 16 ∣ len.toNat)
    (nonzero : addr ≠ 0) (fits : addr.toNat + len.toNat < 2 ^ 64) :
    Seg (h.leave addr len chain).1.mem (h.leave addr len chain).2
        (Extent.piece addr.toNat len.toNat ++ back) 0 ∧
      Untouched addr.toNat (addr.toNat + len.toNat) h.mem (h.leave addr len chain).1.mem := by
  have header : HDR.toNat = 16 := rfl
  by_cases some : HDR ≤ len
  · have long : 16 ≤ len.toNat := UInt64.le_iff_toNat_le.mp some
    have kept : h.leave addr len chain = (h.write addr len chain, addr) := if_pos some
    have block : Extent.piece addr.toNat len.toNat = [⟨addr.toNat, len.toNat⟩] :=
      if_neg (by omega)
    obtain ⟨same, size, next⟩ := write_spec h len chain
      (show addr.toNat + 16 < 2 ^ 64 by omega)
    have same := same.mono (Nat.le_refl _) (by omega : _ ≤ addr.toNat + len.toNat)
    rw [kept, block]
    refine ⟨⟨nonzero, rfl, congrArg UInt64.toNat size.symm, ?_⟩, same⟩
    rw [next]
    exact seg.untouched same sound fun e isMember => .inr (after e isMember)
  · have short : len.toNat < 16 := Nat.not_le.mp fun long => some (UInt64.le_iff_toNat_le.mpr long)
    have empty : len.toNat = 0 := Nat.eq_zero_of_dvd_of_lt whole short
    have dropped : h.leave addr len chain = (h, chain) := if_neg some
    have block : Extent.piece addr.toNat len.toNat = [] := if_pos empty
    rw [dropped, block]
    exact ⟨seg, Untouched.refl _ _ _⟩

/-- **A block taken apart leaves its gaps in the list.** -/
theorem split_spec {h : Heap} {front back : List Extent} {b : Extent}
    {prev cur payload need : UInt64} (toFront : Seg h.mem h.head front cur)
    (behind : Behind front prev) (toBack : Seg h.mem cur (b :: back) 0)
    (spaced : Extent.Spaced (front ++ b :: back)) (sound : ∀ e ∈ front ++ b :: back, Sound e)
    (inside : b.start ≤ payload.toNat) (room : payload.toNat + need.toNat ≤ b.stop)
    (at_ : 16 ∣ payload.toNat) (whole : 16 ∣ need.toNat) :
    FreeList (h.split prev cur (h.nextOf cur) (cur + h.sizeOf cur) payload need)
      (front ++ (Extent.gaps b payload.toNat need.toNat ++ back)) := by
  obtain ⟨nonzero, start, len, toBack⟩ := toBack
  obtain ⟨frontSpaced, restSpaced, apart⟩ := List.pairwise_append.mp spaced
  have backAfter := (List.pairwise_cons.mp restSpaced).1
  have bSound := sound b (List.mem_append_right _ List.mem_cons_self)
  have bBelow := bSound.2
  have bStops : 16 ∣ b.stop := Nat.dvd_add bSound.1.1 bSound.1.2.1
  have bStart : 16 ∣ b.start := bSound.1.1
  have frontSound : ∀ e ∈ front, Sound e := fun e isMember =>
    sound e (List.mem_append_left _ isMember)
  have backSound : ∀ e ∈ back, Sound e := fun e isMember =>
    sound e (List.mem_append_right _ (List.mem_cons_of_mem _ isMember))
  have curStop : (cur + h.sizeOf cur).toNat = b.stop := by
    rw [UInt64.toNat_add, sizeOf, ← len, ← start]
    exact Nat.mod_eq_of_lt bBelow
  have payloadStop : (payload + need).toNat = payload.toNat + need.toNat := by
    rw [UInt64.toNat_add]
    exact Nat.mod_eq_of_lt (Nat.lt_of_le_of_lt room bBelow)
  have preLen : (payload - cur).toNat = payload.toNat - b.start := by
    rw [UInt64.toNat_sub_of_le _ _ (UInt64.le_iff_toNat_le.mpr (start ▸ inside)), start]
  have postLen : (cur + h.sizeOf cur - (payload + need)).toNat =
      b.stop - (payload.toNat + need.toNat) := by
    rw [UInt64.toNat_sub_of_le _ _ (UInt64.le_iff_toNat_le.mpr (by omega)), curStop, payloadStop]
  have curPositive : 0 < cur.toNat := Nat.pos_of_ne_zero fun zero =>
    nonzero (UInt64.toNat_inj.mp zero)
  have behindNonzero : payload + need ≠ 0 := by
    intro zero
    have zero := congrArg UInt64.toNat zero
    rw [payloadStop, UInt64.toNat_zero] at zero
    omega
  have stopsAt : 16 ∣ payload.toNat + need.toNat := Nat.dvd_add at_ whole
  -- the gap behind the piece
  obtain ⟨postSeg, postSame⟩ := leave_spec (payload + need)
    (cur + h.sizeOf cur - (payload + need)) toBack backSound
    (fun e isMember => by
      have later := backAfter e isMember
      omega)
    (postLen ▸ Nat.dvd_sub bStops stopsAt) behindNonzero (by omega)
  rw [payloadStop, postLen] at postSeg postSame
  have postSound : ∀ e ∈ Extent.piece (payload.toNat + need.toNat)
      (b.stop - (payload.toNat + need.toNat)) ++ back, Sound e := by
    intro e isMember
    rcases List.mem_append.mp isMember with isPost | isBack
    · have isGap : e ∈ Extent.gaps b payload.toNat need.toNat := List.mem_append_right _ isPost
      have within := Extent.gaps_within room inside isGap
      exact ⟨Extent.grained_gaps bSound.1 at_ whole e isGap, by omega⟩
    · exact backSound e isBack
  have postAfter : ∀ e ∈ Extent.piece (payload.toNat + need.toNat)
      (b.stop - (payload.toNat + need.toNat)) ++ back, payload.toNat ≤ e.start := by
    intro e isMember
    rcases List.mem_append.mp isMember with isPost | isBack
    · rw [Extent.piece] at isPost
      split at isPost
      · cases isPost
      · rw [List.mem_singleton] at isPost
        rw [isPost]
        exact Nat.le_add_right _ _
    · have later := backAfter e isBack
      omega
  -- the gap before it
  obtain ⟨preSeg, preSame⟩ := leave_spec cur (payload - cur) postSeg postSound
    (fun e isMember => by
      have later := postAfter e isMember
      omega)
    (preLen ▸ Nat.dvd_sub at_ bStart) nonzero (by omega)
  rw [preLen, ← start] at preSeg preSame
  -- both gaps lie inside the block
  have same : Untouched b.start b.stop h.mem _ :=
    (postSame.mono (by omega) (by omega)).trans
      (preSame.mono (Nat.le_refl _) (by omega))
  have gapsSound : ∀ e ∈ Extent.gaps b payload.toNat need.toNat ++ back, Sound e := by
    intro e isMember
    rcases List.mem_append.mp isMember with isGap | isBack
    · have within := Extent.gaps_within room inside isGap
      exact ⟨Extent.grained_gaps bSound.1 at_ whole e isGap, by omega⟩
    · exact backSound e isBack
  have gapsAfter : ∀ f ∈ front, ∀ e ∈ Extent.gaps b payload.toNat need.toNat ++ back,
      f.stop ≤ e.start := by
    intro f isFront e isMember
    have before := apart f isFront b List.mem_cons_self
    rcases List.mem_append.mp isMember with isGap | isBack
    · have within := Extent.gaps_within room inside isGap
      omega
    · exact (apart f isFront e (List.mem_cons_of_mem _ isBack)).le
  have frontSeg := toFront.untouched same frontSound fun e isMember =>
    .inl (apart e isMember b List.mem_cons_self).le
  rw [← head_leave h (payload + need) (cur + h.sizeOf cur - (payload + need)) (h.nextOf cur),
    ← head_leave _ cur (payload - cur)] at frontSeg
  obtain ⟨linked, keeps⟩ := relink_spec _ frontSeg behind frontSpaced frontSound
  refine seg_append.2 ⟨_, linked, ?_⟩
  refine keeps _ _ _ ?_ gapsSound gapsAfter
  rw [Extent.gaps, List.append_assoc]
  exact preSeg

end Heap

end RustyPenguin
