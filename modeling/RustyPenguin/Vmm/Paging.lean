import RustyPenguin.Foundation.Radix
import Mathlib.Data.Nat.Bitwise
import Mathlib.Tactic.Ring

/-!
# Page tables in memory

Four levels of tables, 512 entries of 64 bits each, in physical memory. The kernel reads
and writes an entry by the physical base of its table and its index; the processor walks
the tables of a root to translate an address. A page of 4 KiB is given by the four indices
of its addresses, and the walk says which physical frame it is mapped to, with which flags
in the last entry, and with which rights: an access is allowed when the entry of every
level allows it.
-/

set_option autoImplicit false

namespace RustyPenguin.Vmm

/-! ## Entries -/

def ptePresent : BitVec 64 := 1
def pteWritable : BitVec 64 := 2
def pteUser : BitVec 64 := 4
/-- In a page directory: a page of 2 MiB. -/
def pteHuge : BitVec 64 := 128

/-- The physical address in an entry, as the processor reads it. -/
def addressMask : BitVec 64 := 0x000F_FFFF_FFFF_F000

/-- Nothing but flags. -/
def IsFlags (flags : BitVec 64) : Prop :=
  ∀ i, flags.getLsbD i = true → i < 12 ∨ 52 ≤ i

/-- The base of a physical frame of 4 KiB. -/
def IsFrame (phys : BitVec 64) : Prop :=
  ∀ i, phys.getLsbD i = true → 12 ≤ i ∧ i < 52

theorem isFrame_iff {phys : BitVec 64} :
    IsFrame phys ↔ phys.toNat % 4096 = 0 ∧ phys.toNat < 2 ^ 52 := by
  constructor
  · intro frame
    constructor
    · refine Nat.eq_of_testBit_eq fun i => ?_
      rw [show 4096 = 2 ^ 12 from rfl, Nat.testBit_mod_two_pow, Nat.zero_testBit]
      by_contra bit
      simp only [Bool.and_eq_false_iff, not_or, Bool.not_eq_false, decide_eq_true_eq] at bit
      have := frame i bit.2
      omega
    · refine Nat.lt_pow_two_of_testBit _ fun i high => ?_
      by_contra bit
      have := frame i (Bool.not_eq_false _ ▸ bit)
      omega
  · rintro ⟨aligned, small⟩ i bit
    change phys.toNat.testBit i = true at bit
    constructor
    · by_contra low
      have zero : (phys.toNat % 2 ^ 12).testBit i = false := by
        rw [show (2 : Nat) ^ 12 = 4096 from rfl, aligned, Nat.zero_testBit]
      rw [Nat.testBit_mod_two_pow, bit, Bool.and_true, decide_eq_false_iff_not] at zero
      omega
    · by_contra high
      have above : phys.toNat < 2 ^ i :=
        Nat.lt_of_lt_of_le small (Nat.pow_le_pow_right (by decide) (Nat.le_of_not_lt high))
      rw [Nat.testBit_lt_two_pow above] at bit
      exact absurd bit Bool.false_ne_true

/-- The rights an entry gives. -/
structure Rights where
  write : Bool
  user : Bool
  exec : Bool
deriving DecidableEq, Repr

namespace Rights

def of (entry : BitVec 64) : Rights :=
  ⟨entry.getLsbD 1, entry.getLsbD 2, !entry.getLsbD 63⟩

/-- What both give. -/
def meet (a b : Rights) : Rights :=
  ⟨a.write && b.write, a.user && b.user, a.exec && b.exec⟩

/-- `b` gives everything `a` does. -/
def Within (a b : Rights) : Prop :=
  (a.write = true → b.write = true) ∧ (a.user = true → b.user = true) ∧
    (a.exec = true → b.exec = true)

theorem meet_eq_left {a b : Rights} : a.meet b = a ↔ a.Within b := by
  obtain ⟨aw, au, ax⟩ := a
  obtain ⟨bw, bu, bx⟩ := b
  simp only [meet, Within, mk.injEq, Bool.and_eq_left_iff_imp]

theorem meet_assoc (a b c : Rights) : (a.meet b).meet c = a.meet (b.meet c) := by
  simp only [meet, Bool.and_assoc]

theorem within_meet {a b c : Rights} : a.Within (b.meet c) ↔ a.Within b ∧ a.Within c := by
  simp only [Within, meet, Bool.and_eq_true]
  tauto

end Rights

/-! ## Memory -/

/-- Physical memory, by the byte address of each 64-bit word. -/
abbrev Memory := Nat → BitVec 64

def read64 (mem : Memory) (phys : BitVec 64) (idx : Fin 512) : BitVec 64 :=
  mem (phys.toNat + idx * 8)

def write64 (mem : Memory) (phys : BitVec 64) (idx : Fin 512) (val : BitVec 64) : Memory :=
  fun a => if a = phys.toNat + idx * 8 then val else mem a

/-- Zero a freshly allocated frame. -/
def zeroFrame (mem : Memory) (phys : BitVec 64) : Memory :=
  fun a => if phys.toNat ≤ a ∧ a < phys.toNat + 4096 then 0 else mem a

section Memory

variable {mem : Memory} {t u : BitVec 64} {i j : Fin 512} {val : BitVec 64}

/-- The words of different slots of frames are different. -/
theorem slot_inj (first : IsFrame t) (second : IsFrame u)
    (same : t.toNat + i * 8 = u.toNat + j * 8) : t = u ∧ i = j := by
  obtain ⟨alignedT, -⟩ := isFrame_iff.1 first
  obtain ⟨alignedU, -⟩ := isFrame_iff.1 second
  have smallI := i.isLt
  have smallJ := j.isLt
  exact ⟨BitVec.eq_of_toNat_eq (by omega), Fin.ext (by omega)⟩

@[simp] theorem read64_write64_self : read64 (write64 mem t i val) t i = val := by
  simp only [read64, write64, if_true]

theorem read64_write64_of_ne (first : IsFrame t) (second : IsFrame u) (other : u ≠ t ∨ j ≠ i) :
    read64 (write64 mem t i val) u j = read64 mem u j := by
  refine if_neg fun same => ?_
  obtain ⟨rfl, rfl⟩ := slot_inj second first same
  exact other.elim (· rfl) (· rfl)

theorem read64_zeroFrame_self : read64 (zeroFrame mem t) t i = 0 := by
  have small := i.isLt
  exact if_pos ⟨Nat.le_add_right _ _, by omega⟩

theorem read64_zeroFrame_of_ne (first : IsFrame t) (second : IsFrame u) (other : u ≠ t) :
    read64 (zeroFrame mem t) u j = read64 mem u j := by
  refine if_neg fun inside => other ?_
  obtain ⟨alignedT, -⟩ := isFrame_iff.1 first
  obtain ⟨alignedU, -⟩ := isFrame_iff.1 second
  have small := j.isLt
  exact BitVec.eq_of_toNat_eq (by omega)

end Memory

/-! ## Addresses -/

/-- Nine bits of an address. -/
def nineBits (v : BitVec 64) : Fin 512 :=
  ⟨(v &&& 0x1FF).toNat, by
    rw [BitVec.toNat_and]
    exact Nat.and_lt_two_pow _ (n := 9) (by decide)⟩

def pml4Idx (v : BitVec 64) : Fin 512 := nineBits (v >>> 39)
def pdptIdx (v : BitVec 64) : Fin 512 := nineBits (v >>> 30)
def pdIdx (v : BitVec 64) : Fin 512 := nineBits (v >>> 21)
def ptIdx (v : BitVec 64) : Fin 512 := nineBits (v >>> 12)

/-- The index of an address in the table of a level. -/
def index (v : BitVec 64) : Nat → Fin 512
  | 4 => pml4Idx v
  | 3 => pdptIdx v
  | 2 => pdIdx v
  | _ => ptIdx v

/-- Two addresses of one page have the same four indices. -/
def SamePage (v w : BitVec 64) : Prop :=
  pml4Idx v = pml4Idx w ∧ pdptIdx v = pdptIdx w ∧ pdIdx v = pdIdx w ∧ ptIdx v = ptIdx w

instance (v w : BitVec 64) : Decidable (SamePage v w) :=
  inferInstanceAs (Decidable (_ ∧ _))

theorem samePage_of_index {v w : BitVec 64}
    (same : ∀ l, 0 < l → l ≤ 4 → index v l = index w l) : SamePage v w :=
  ⟨same 4 (by decide) (by decide), same 3 (by decide) (by decide), same 2 (by decide) (by decide),
    same 1 (by decide) (by decide)⟩

theorem SamePage.index_eq {v w : BitVec 64} (same : SamePage v w) (l : Nat) :
    index v l = index w l := by
  obtain ⟨first, second, third, fourth⟩ := same
  unfold index
  split <;> assumption

/-- An address the processor accepts: the upper bits repeat bit 47. -/
def Canonical (v : BitVec 64) : Prop :=
  ∀ i, 48 ≤ i → i < 64 → v.getLsbD i = v.getLsbD 47

theorem nineBits_eq {v w : BitVec 64} (same : nineBits v = nineBits w) (i : Nat) (low : i < 9) :
    v.getLsbD i = w.getLsbD i := by
  have values : (nineBits v).val = (nineBits w).val := by rw [same]
  have words : v &&& 0x1FF = w &&& 0x1FF := BitVec.eq_of_toNat_eq values
  have bits := congrArg (fun x : BitVec 64 => x.getLsbD i) words
  have mask : ∀ k, k < 9 → (0x1FF : BitVec 64).getLsbD k = true := by decide
  simpa only [BitVec.getLsbD_and, mask i low, Bool.and_true] using bits

/-- **Page-aligned addresses the processor accepts are of one page only when they are equal.** -/
theorem samePage_iff_eq {v w : BitVec 64} (first : Canonical v) (second : Canonical w)
    (alignedV : ∀ i, i < 12 → v.getLsbD i = false) (alignedW : ∀ i, i < 12 → w.getLsbD i = false) :
    SamePage v w ↔ v = w := by
  constructor
  · rintro ⟨pml4, pdpt, pd, pt⟩
    have middle : ∀ i, 12 ≤ i → i < 48 → v.getLsbD i = w.getLsbD i := by
      intro i above below
      have part : ∀ s, nineBits (v >>> s) = nineBits (w >>> s) → s ≤ i → i < s + 9 →
          v.getLsbD i = w.getLsbD i := by
        intro s same low high
        have bit := nineBits_eq same (i - s) (by omega)
        simpa only [BitVec.getLsbD_ushiftRight, Nat.add_sub_cancel' low] using bit
      by_cases h39 : 39 ≤ i
      · exact part 39 pml4 h39 (by omega)
      by_cases h30 : 30 ≤ i
      · exact part 30 pdpt h30 (by omega)
      by_cases h21 : 21 ≤ i
      · exact part 21 pd h21 (by omega)
      · exact part 12 pt above (by omega)
    refine BitVec.eq_of_getLsbD_eq fun i inside => ?_
    by_cases low : i < 12
    · rw [alignedV i low, alignedW i low]
    by_cases high : i < 48
    · exact middle i (Nat.le_of_not_lt low) high
    · have upper := Nat.le_of_not_lt high
      rw [first i upper inside, second i upper inside]
      exact middle 47 (by decide) (by decide)
  · rintro rfl
    exact ⟨rfl, rfl, rfl, rfl⟩

/-! ## Translation -/

/-- What a page is mapped to. -/
structure Translation where
  frame : BitVec 64
  flags : BitVec 64
  rights : Rights
deriving DecidableEq

/-- The base of the table an entry points to, as the kernel reads it. -/
def tableOf (entry : BitVec 64) : BitVec 64 := entry &&& ~~~0xFFF

/-- A page whose last entry is `entry`, the entry standing `below` levels above the last one:
4 KiB, 2 MiB or 1 GiB. -/
def leaf (v entry : BitVec 64) (below : Nat) : Translation where
  frame := (entry &&& addressMask) >>> (12 + 9 * below) <<< (12 + 9 * below) |||
    (v >>> 12 <<< 12 &&& ~~~(BitVec.allOnes 64 <<< (12 + 9 * below)))
  flags := entry &&& ~~~addressMask
  rights := Rights.of entry

/-- **The walk of the processor** through the tables of a level and below. An entry that is not
present ends it, and so does a page size bit at the top level, which is reserved there. -/
def walk (mem : Memory) (v : BitVec 64) : Nat → BitVec 64 → Option Translation
  | 0, _ => none
  | below + 1, table =>
    let entry := read64 mem table (index v (below + 1))
    if entry &&& ptePresent = 0 then none
    else if below = 0 then some (leaf v entry 0)
    else if entry &&& pteHuge ≠ 0 then
      if below = 3 then none else some (leaf v entry below)
    else (walk mem v below (entry &&& addressMask)).map fun found =>
      { found with rights := found.rights.meet (Rights.of entry) }

/-- The translation of an address under a root. -/
def translate (mem : Memory) (root v : BitVec 64) : Option Translation := walk mem v 4 root

end RustyPenguin.Vmm
