import RustyPenguin.Acpi.Tables
import RustyPenguin.Foundation.Unsigned

/-!
# What the walks look at

A walk keeps to a table when it looks at no offset from the declared length on. For the root table
that is so exactly when the length covers the header, for the FADT when it covers the fields up to
the flags, and for the scans of the DSDT when what is decoded behind a name lies inside as well.
The sleep types of a package come out as they are encoded exactly when neither is `Ones` or a
double word, up to the double words that are read as the prefix they start with.
-/

set_option autoImplicit false

namespace RustyPenguin.Acpi

open Reads

variable {t : Table} {len : Nat}

/-! ## Single reads -/

@[simp] theorem value_rd8 (t : Table) (o : Nat) : (rd8 t o).value = t o := rfl

theorem within_rd8 {o : Nat} : (rd8 t o).Within (· < len) ↔ o < len := within_look t o

theorem within_rd32 {o : Nat} : (rd32 t o).Within (· < len) ↔ o + 4 ≤ len := by
  simp only [rd32, within_bind, within_rd8, within_pure, and_true]
  omega

theorem within_rd64 {o : Nat} : (rd64 t o).Within (· < len) ↔ o + 8 ≤ len := by
  simp only [rd64, within_bind, within_rd32, within_pure, and_true]
  omega

theorem rd32_toNat (t : Table) (o : Nat) : (rd32 t o).value.toNat =
    (t o).toNat + (t (o + 1)).toNat * 2 ^ 8 + (t (o + 2)).toNat * 2 ^ 16 +
      (t (o + 3)).toNat * 2 ^ 24 := by
  have b0 := (t o).toNat_lt
  have b1 := (t (o + 1)).toNat_lt
  have b2 := (t (o + 2)).toNat_lt
  have b3 := (t (o + 3)).toNat_lt
  have n : ∀ x : UInt8, x.toUInt32.toNat = x.toNat := fun x => UInt8.toNat_toUInt32 x
  have low := Unsigned.toNat_or_shl (w := (t o).toUInt32) (a := (t (o + 1)).toUInt32) (s := 8)
    (k := 8) rfl (by decide) ((n _).trans_lt b0)
  rw [n, n, Nat.mod_eq_of_lt (by omega)] at low
  have mid := Unsigned.toNat_or_shl (a := (t (o + 2)).toUInt32) (s := 16) (k := 16) rfl
    (by decide) (low.trans_lt (by omega))
  rw [low, n, Nat.mod_eq_of_lt (by omega)] at mid
  have all := Unsigned.toNat_or_shl (a := (t (o + 3)).toUInt32) (s := 24) (k := 24) rfl
    (by decide) (mid.trans_lt (by omega))
  rw [mid, n, Nat.mod_eq_of_lt (by omega)] at all
  exact all

/-! ## The root table -/

theorem within_entryAt {xsdt : Bool} {o : Nat} :
    (entryAt t xsdt o).Within (· < len) ↔ o + entrySize xsdt ≤ len := by
  cases xsdt with
  | false =>
    rw [entryAt, if_neg Bool.false_ne_true, within_bind, within_rd32]
    exact and_iff_left (within_pure _)
  | true => exact within_rd64

theorem toNat_entryCount (t : Table) (xsdt : Bool) : (entryCount t xsdt).toNat =
    (2 ^ 64 - 36 + (declared t).toNat) % 2 ^ 64 / entrySize xsdt := by
  have word : ((declared t).toUInt64 - 36).toNat = (2 ^ 64 - 36 + (declared t).toNat) % 2 ^ 64 := by
    rw [UInt64.toNat_sub, UInt32.toNat_toUInt64]
    rfl
  rw [entryCount, UInt64.toNat_div, word]
  cases xsdt <;> rfl

theorem entrySize_pos (xsdt : Bool) : 0 < entrySize xsdt ∧ entrySize xsdt ≤ 8 := by
  cases xsdt <;> decide

theorem entryCount_of_short (xsdt : Bool) (short : (declared t).toNat < 36) :
    0 < (entryCount t xsdt).toNat := by
  obtain ⟨positive, small⟩ := entrySize_pos xsdt
  rw [toNat_entryCount]
  exact Nat.div_pos (by omega) positive

theorem entryCount_of_long (xsdt : Bool) (long : 36 ≤ (declared t).toNat) :
    36 + (entryCount t xsdt).toNat * entrySize xsdt ≤ (declared t).toNat := by
  have word := (declared t).toNat_lt
  have most := Nat.div_mul_le_self ((2 ^ 64 - 36 + (declared t).toNat) % 2 ^ 64) (entrySize xsdt)
  rw [toNat_entryCount]
  omega

/-- **The walk over the root table** keeps to it exactly when the length covers the header. -/
theorem within_findTable (mem : UInt64 → UInt8) (sdt : UInt64) (xsdt : Bool) (want : List UInt8) :
    (findTable mem sdt xsdt want).Within (· < (declared (tableAt mem sdt)).toNat) ↔
      36 ≤ (declared (tableAt mem sdt)).toNat := by
  rw [findTable, within_search]
  constructor
  · intro each
    by_contra short
    have first := each 0 (Nat.le_refl 0)
      ((Nat.zero_add _).symm ▸ entryCount_of_short xsdt (Nat.not_le.mp short)) (missed_self 0)
    rw [within_bind, within_entryAt] at first
    omega
  · intro long j _ below _
    have inside := entryCount_of_long xsdt long
    have before := Nat.mul_le_mul_right (entrySize xsdt) (Nat.succ_le_of_lt ((Nat.zero_add _) ▸ below))
    have word := (declared (tableAt mem sdt)).toNat_lt
    rw [Nat.succ_mul] at before
    rw [within_bind, within_entryAt, Nat.mod_eq_of_lt (by omega)]
    exact ⟨by omega, within_pure _⟩

/-! ## The FADT -/

theorem within_extended {longer o : Nat} {field : UInt64} (inside : o + 8 ≤ longer + 1) :
    (extended t longer o field).Within (· < (declared t).toNat) := by
  rw [extended, within_ite]
  refine ⟨fun long => ?_, fun _ => within_pure _⟩
  rw [within_bind, within_rd64]
  exact ⟨by omega, within_pure _⟩

theorem within_readReset {flags : UInt32} :
    (readReset t flags).Within (· < (declared t).toNat) := by
  rw [readReset, within_ite]
  refine ⟨fun ⟨long, _⟩ => ?_, fun _ => within_pure _⟩
  simp only [within_bind, within_rd8, within_rd64, within_pure, and_true]
  omega

/-- **The fields of the FADT** are inside exactly when the flags are. -/
theorem within_readFadt (t : Table) :
    (readFadt t).Within (· < (declared t).toNat) ↔ 116 ≤ (declared t).toNat := by
  have facs : ∀ field, (extended t 140 132 field).Within (· < (declared t).toNat) :=
    fun _ => within_extended (by decide)
  have dsdt : ∀ field, (extended t 148 140 field).Within (· < (declared t).toNat) :=
    fun _ => within_extended (by decide)
  simp only [readFadt, within_bind, within_rd32, within_readReset, within_pure, facs, dsdt, and_true,
    true_and]
  omega

/-! ## Names -/

/-- The table has these bytes from an offset on. -/
def Holds (t : Table) : Nat → List UInt8 → Prop
  | _, [] => True
  | i, b :: bytes => t i = b ∧ Holds t (i + 1) bytes

theorem value_nameAt {i : Nat} {name : List UInt8} :
    (nameAt t i name).value = true ↔ Holds t i name := by
  induction name generalizing i with
  | nil => exact iff_of_true rfl trivial
  | cons c name ih =>
    rw [nameAt, value_bind, value_ite, value_rd8, Holds, ← ih]
    by_cases same : t i = c
    · rw [if_pos same, and_iff_right same]
    · rw [if_neg same]
      exact iff_of_false Bool.false_ne_true fun both => same both.1

theorem within_nameAt {i : Nat} {name : List UInt8} (inside : i + name.length ≤ len) :
    (nameAt t i name).Within (· < len) := by
  induction name generalizing i with
  | nil => exact within_pure true
  | cons c name ih =>
    rw [List.length_cons] at inside
    rw [nameAt, within_bind, within_rd8, within_ite]
    exact ⟨by omega, fun _ => ih (by omega), fun _ => within_pure false⟩

/-- The first offset from `i` on at which a name stands. -/
def First (t : Table) (name : List UInt8) (i j : Nat) : Prop :=
  i ≤ j ∧ Holds t j name ∧ ∀ k, i ≤ k → k < j → ¬Holds t k name

variable {α : Type} {name : List UInt8} {behind : Nat → Reads (Option α)}

theorem value_namedStep {i : Nat} (holds : Holds t i name) :
    (namedStep t name behind i).value = some (behind (i + 4)).value := by
  rw [namedStep, value_bind, if_pos (value_nameAt.2 holds)]
  rfl

theorem namedStep_eq_none {i : Nat} :
    (namedStep t name behind i).value = none ↔ ¬Holds t i name := by
  by_cases holds : Holds t i name
  · rw [value_namedStep holds]
    exact iff_of_false (Option.some_ne_none _) (not_not_intro holds)
  · refine iff_of_true ?_ holds
    rw [namedStep, value_bind, if_neg (mt value_nameAt.1 holds)]
    rfl

theorem missed_iff {i j : Nat} : Missed (namedStep t name behind) i j ↔
    ∀ k, i ≤ k → k < j → ¬Holds t k name :=
  forall_congr' fun _ => forall_congr' fun _ => forall_congr' fun _ => namedStep_eq_none

/-- **A scan for a name** keeps to the table exactly when what is done behind the name does. -/
theorem within_scan {start turns : Nat}
    (inside : ∀ j, start ≤ j → j < start + turns → j + name.length ≤ len) :
    (search (namedStep t name behind) turns start).Within (· < len) ↔
      ∀ j, First t name start j → j < start + turns → (behind (j + 4)).Within (· < len) := by
  rw [within_search]
  constructor
  · rintro each j ⟨low, holds, first⟩ high
    have step := each j low high (missed_iff.2 first)
    rw [namedStep, within_bind, if_pos (value_nameAt.2 holds), within_bind] at step
    exact step.2.1
  · intro each j low high missed
    rw [namedStep, within_bind, within_ite]
    refine ⟨within_nameAt (inside j low high), fun found => ?_, fun _ => within_pure none⟩
    rw [within_bind]
    exact ⟨each j ⟨low, value_nameAt.1 found, missed_iff.1 missed⟩ high, within_pure _⟩

/-! ## Integers -/

/-- How many bytes the decoding of an integer looks at. -/
def intReach (b : UInt8) : Nat := if b = 0x0A then 2 else if b = 0x0B then 5 else 1

/-- How many bytes an integer takes. -/
def intSize (b : UInt8) : Nat := if b = 0x0A then 2 else if b = 0x0B then 3 else 1

/-- The decoding, with what it looks at. -/
theorem amlInt_eq (t : Table) (p : Nat) : amlInt t p =
    if t p = 0x00 then ⟨(0, 1), [p]⟩
    else if t p = 0x01 then ⟨(1, 1), [p]⟩
    else if t p = 0x0A then ⟨((t (p + 1)).toUInt16, 2), [p, p + 1]⟩
    else if t p = 0x0B then
      ⟨((rd32 t (p + 1)).value.toUInt16 &&& 0xffff, 3), [p, p + 1, p + 2, p + 3, p + 4]⟩
    else ⟨((t p).toUInt16, 1), [p]⟩ := by
  rw [amlInt]
  change Reads.mk _ _ = _
  dsimp only [value_rd8]
  split_ifs <;> rfl

theorem amlInt_size (t : Table) (p : Nat) : (amlInt t p).value.2 = intSize (t p) := by
  rw [amlInt_eq, intSize]
  split_ifs <;> simp_all

theorem within_amlInt {p : Nat} : (amlInt t p).Within (· < len) ↔ p + intReach (t p) ≤ len := by
  rw [amlInt_eq, intReach, Within]
  split_ifs <;> simp_all <;> omega

/-- So many integers lie inside, with what their decoding looks at. -/
def IntsInside (t : Table) (len : Nat) : (count p : Nat) → Prop
  | 0, _ => True
  | count + 1, p => p + intReach (t p) ≤ len ∧ IntsInside t len count (p + intSize (t p))

/-! ## Packages -/

/-- The first place from `p` on with the byte, or the end of the guard. -/
def place (t : Table) (want : UInt8) : (guard p : Nat) → Nat
  | 0, p => p
  | guard + 1, p => if t p = want then p else place t want guard (p + 1)

theorem value_seek (t : Table) (want : UInt8) (guard p : Nat) :
    (seek t want guard p).value = place t want guard p := by
  induction guard generalizing p with
  | zero => rfl
  | succ guard ih =>
    rw [seek, value_bind, value_ite, value_rd8, ih]
    rfl

theorem le_place (t : Table) (want : UInt8) (guard p : Nat) : p ≤ place t want guard p := by
  induction guard generalizing p with
  | zero => exact Nat.le_refl p
  | succ guard ih =>
    rw [place]
    split
    · exact Nat.le_refl p
    · exact Nat.le_of_succ_le (ih (p + 1))

theorem within_seek {want : UInt8} {guard p : Nat} (inside : place t want guard p < len) :
    (seek t want guard p).Within (· < len) := by
  induction guard generalizing p with
  | zero => exact within_pure p
  | succ guard ih =>
    have below := Nat.lt_of_le_of_lt (le_place t want (guard + 1) p) inside
    rw [place] at inside
    rw [seek, within_bind, within_rd8, value_rd8, within_ite]
    refine ⟨below, fun _ => within_pure p, fun differs => ih ?_⟩
    rwa [if_neg differs] at inside

/-- The package behind a sleep name lies inside: its first byte, or the place where the search for
it ends, and its two integers. -/
def PackageInside (t : Table) (len p : Nat) : Prop :=
  place t 0x12 4 p < len ∧ (t (place t 0x12 4 p) = 0x12 →
    IntsInside t len 2 (place t 0x12 4 p + 3 + (t (place t 0x12 4 p + 1) >>> 6).toNat))

theorem within_sleepPackage {p : Nat} :
    (sleepPackage t p).Within (· < len) ↔ PackageInside t len p := by
  rw [sleepPackage, within_bind, value_seek, PackageInside]
  generalize isPlace : place t 0x12 4 p = q
  have reads : q < len → (seek t 0x12 4 p).Within (· < len) := fun below =>
    within_seek (isPlace ▸ below)
  simp only [within_bind, within_ite, within_pure, implies_true, true_and]
  simp only [within_rd8, value_rd8, within_amlInt, amlInt_size, IntsInside, ne_eq, not_not, and_true]
  have first : ∀ b : UInt8, 1 ≤ intReach b := fun b => by
    rw [intReach]
    split_ifs <;> decide
  have start : q + 1 + (1 + (t (q + 1) >>> 6).toNat) + 1 = q + 3 + (t (q + 1) >>> 6).toNat := by
    omega
  rw [start]
  constructor
  · rintro ⟨-, below, more⟩
    exact ⟨below, fun op => (more op).2⟩
  · rintro ⟨below, more⟩
    refine ⟨reads below, below, fun op => ⟨?_, more op⟩⟩
    have least := first (t (q + 3 + (t (q + 1) >>> 6).toNat))
    have reach := (more op).1
    omega

/-- The package behind the first sleep name that the scan comes to lies inside. -/
def SleepInside (t : Table) (len : Nat) (state : UInt8) : Prop :=
  ∀ j, First t (sleepName state) 36 j → j + 5 < len → PackageInside t len (j + 4)

/-- **The scans for the sleep types** keep to the table exactly when the package behind the first
name does. -/
theorem within_parseSleep (t : Table) (state : UInt8) :
    (parseSleep t state).Within (· < (declared t).toNat) ↔
      SleepInside t (declared t).toNat state := by
  have letters : (sleepName state).length = 4 := rfl
  rw [parseSleep, within_bind, within_scan (by rw [letters]; omega), and_iff_left (within_pure _)]
  refine forall_congr' fun j => forall_congr' fun first => ?_
  have low := first.1
  rw [within_sleepPackage]
  exact ⟨fun each high => each (by omega), fun each high => each (by omega)⟩

/-! ## The battery -/

/-- The place of the number of elements in a package that is returned at `q`. -/
def elementsAt (t : Table) (q : Nat) : Nat := q + 3 + (t (q + 2) >>> 6).toNat

/-- The package returned behind a name lies inside as far as it is looked at: where it has at least
`least` elements, so many integers are. -/
def ReturnInside (t : Table) (len : Nat) (least : UInt8) (count p : Nat) : Prop :=
  place t 0xA4 16 p < len ∧ (t (place t 0xA4 16 p) = 0xA4 →
    place t 0xA4 16 p + 1 < len ∧ (t (place t 0xA4 16 p + 1) = 0x12 →
      elementsAt t (place t 0xA4 16 p) < len ∧
        (¬t (elementsAt t (place t 0xA4 16 p)) < least →
          IntsInside t len count (elementsAt t (place t 0xA4 16 p) + 1))))

theorem elements_eq (t : Table) (q : Nat) :
    q + 2 + (1 + (t (q + 2) >>> 6).toNat) = elementsAt t q := by
  rw [elementsAt]
  omega

theorem value_returnedPackage (t : Table) (least : UInt8) (p : Nat) :
    (returnedPackage t least p).value =
      if t (place t 0xA4 16 p) ≠ 0xA4 then none
      else if t (place t 0xA4 16 p + 1) ≠ 0x12 then none
      else if t (elementsAt t (place t 0xA4 16 p)) < least then none
      else some (elementsAt t (place t 0xA4 16 p) + 1) := by
  rw [returnedPackage, value_bind, value_seek]
  simp only [value_bind, value_ite, value_pure]
  simp only [value_rd8, elements_eq]

theorem within_returnedPackage {least : UInt8} {p : Nat} :
    (returnedPackage t least p).Within (· < len) ↔
      place t 0xA4 16 p < len ∧ (t (place t 0xA4 16 p) = 0xA4 →
        place t 0xA4 16 p + 1 < len ∧ (t (place t 0xA4 16 p + 1) = 0x12 →
          elementsAt t (place t 0xA4 16 p) < len)) := by
  rw [returnedPackage, within_bind, value_seek]
  generalize isPlace : place t 0xA4 16 p = q
  have reads : q < len → (seek t 0xA4 16 p).Within (· < len) := fun below =>
    within_seek (isPlace ▸ below)
  have behind : q + 3 ≤ elementsAt t q := Nat.le_add_right _ _
  simp only [within_bind, within_ite, within_pure, implies_true, true_and]
  simp only [within_rd8, value_rd8, elements_eq, ne_eq, not_not, and_true]
  constructor
  · rintro ⟨-, below, more⟩
    exact ⟨below, fun returns => ⟨(more returns).1, fun op => ((more returns).2 op).2⟩⟩
  · rintro ⟨below, more⟩
    refine ⟨reads below, below, fun returns => ⟨(more returns).1, fun op => ⟨?_, ?_⟩⟩⟩
    · have inside := (more returns).2 op
      omega
    · exact (more returns).2 op

theorem within_inReturned {ints : Nat → Reads (Option α)} {least : UInt8} {count p : Nat}
    (each : ∀ r, (ints r).Within (· < len) ↔ IntsInside t len count r) :
    (inReturned t least p ints).Within (· < len) ↔ ReturnInside t len least count p := by
  rw [inReturned, within_bind, within_returnedPackage, value_returnedPackage, ReturnInside]
  generalize place t 0xA4 16 p = q
  by_cases returns : t q = 0xA4
  · rw [if_neg (not_not_intro returns)]
    by_cases package : t (q + 1) = 0x12
    · rw [if_neg (not_not_intro package)]
      by_cases few : t (elementsAt t q) < least
      · rw [if_pos few]
        simp [returns, package, few]
      · rw [if_neg few]
        simp [returns, package, few, each, and_assoc]
    · rw [if_pos package]
      simp [returns, package]
  · rw [if_pos returns]
    simp [returns]

theorem within_bifPackage {p : Nat} :
    (bifPackage t p).Within (· < len) ↔ ReturnInside t len 2 2 p := by
  refine within_inReturned fun r => ?_
  simp only [within_bind, within_amlInt, amlInt_size, within_pure, IntsInside, and_true]

theorem within_bstPackage {p : Nat} :
    (bstPackage t p).Within (· < len) ↔ ReturnInside t len 4 4 p := by
  refine within_inReturned fun r => ?_
  simp only [within_bind, within_amlInt, amlInt_size, within_pure, IntsInside, and_true]

/-- What is returned behind the first name in the scope of a device lies inside. -/
def ScopeInside (t : Table) (len : Nat) (name : List UInt8) (least : UInt8) (count start : Nat) :
    Prop :=
  ∀ j, First t name start j → j + 6 < min (start + 4096) len →
    ReturnInside t len least count (j + 4)

theorem within_parseNamed {least : UInt8} {count start : Nat} (letters : name.length = 4)
    (each : ∀ p, (behind p).Within (· < (declared t).toNat) ↔
      ReturnInside t (declared t).toNat least count p) :
    (parseNamed t name behind start).Within (· < (declared t).toNat) ↔
      ScopeInside t (declared t).toNat name least count start := by
  rw [parseNamed, within_bind, within_scan (by rw [letters]; omega), and_iff_left (within_pure _)]
  refine forall_congr' fun j => forall_congr' fun first => ?_
  have low := first.1
  rw [each]
  exact ⟨fun each high => each (by omega), fun each high => each (by omega)⟩

/-- A battery device stands at an offset. -/
def IsBattery (t : Table) (i : Nat) : Prop :=
  [t i, t (i + 1), t (i + 2), t (i + 3)] ∈ batteryNames

/-- What is decoded of the first battery that the scan comes to lies inside. -/
def BatteryInside (t : Table) (len : Nat) : Prop :=
  ∀ j, 36 ≤ j → j + 8 < len → IsBattery t j → (∀ k, 36 ≤ k → k < j → ¬IsBattery t k) →
    ScopeInside t len bifName 2 2 j ∧ ScopeInside t len bstName 4 4 j

instance (t : Table) (i : Nat) : Decidable (IsBattery t i) :=
  inferInstanceAs (Decidable (_ ∈ batteryNames))

theorem batteryStep_eq_none {i : Nat} : (batteryStep t i).value = none ↔ ¬IsBattery t i := by
  have value : (batteryStep t i).value = if IsBattery t i then
      some ⟨(parseBif t i).value, (parseBst t i).value⟩ else none := value_ite
  rw [value]
  by_cases here : IsBattery t i
  · rw [if_pos here]
    exact iff_of_false (Option.some_ne_none _) (not_not_intro here)
  · rw [if_neg here]
    exact iff_of_true rfl here

theorem within_batteryStep {i : Nat} (inside : i + 4 ≤ (declared t).toNat) :
    (batteryStep t i).Within (· < (declared t).toNat) ↔ (IsBattery t i →
      ScopeInside t (declared t).toNat bifName 2 2 i ∧
        ScopeInside t (declared t).toNat bstName 4 4 i) := by
  have info : (parseBif t i).Within (· < (declared t).toNat) ↔
      ScopeInside t (declared t).toNat bifName 2 2 i :=
    within_parseNamed rfl fun _ => within_bifPackage
  have status : (parseBst t i).Within (· < (declared t).toNat) ↔
      ScopeInside t (declared t).toNat bstName 4 4 i :=
    within_parseNamed rfl fun _ => within_bstPackage
  simp only [batteryStep, within_bind, within_ite, within_pure, implies_true, and_true, info, status]
  simp only [within_rd8, value_rd8]
  constructor
  · rintro ⟨-, -, -, -, scopes⟩
    exact scopes
  · intro scopes
    exact ⟨by omega, by omega, by omega, by omega, scopes⟩

/-- **The scan for a battery** keeps to the table exactly when what it decodes of the first one
does. -/
theorem within_parseBattery (t : Table) :
    (parseBattery t).Within (· < (declared t).toNat) ↔ BatteryInside t (declared t).toNat := by
  rw [parseBattery, within_search, BatteryInside]
  constructor
  · intro each j low high here first
    have step := each j low (by omega) fun k above below => batteryStep_eq_none.2 (first k above below)
    exact (within_batteryStep (by omega)).mp step here
  · intro each j low high missed
    refine (within_batteryStep (by omega)).mpr fun here => each j low (by omega) here ?_
    exact fun k above below => batteryStep_eq_none.1 (missed k above below)

/-! ## The sleep types -/

/-- The integers of AML that a sleep package may hold. -/
inductive AmlInt where
  | zero
  | one
  | ones
  | byte (x : UInt8)
  | word (low high : UInt8)
  | dword (b0 b1 b2 b3 : UInt8)

namespace AmlInt

def bytes : AmlInt → List UInt8
  | zero => [0x00]
  | one => [0x01]
  | ones => [0xFF]
  | byte x => [0x0A, x]
  | word low high => [0x0B, low, high]
  | dword b0 b1 b2 b3 => [0x0C, b0, b1, b2, b3]

/-- The number encoded. All 64 bits of `Ones` are set. -/
def number : AmlInt → Nat
  | zero => 0
  | one => 1
  | ones => 2 ^ 64 - 1
  | byte x => x.toNat
  | word low high => low.toNat + 2 ^ 8 * high.toNat
  | dword b0 b1 b2 b3 => b0.toNat + 2 ^ 8 * b1.toNat + 2 ^ 16 * b2.toNat + 2 ^ 24 * b3.toNat

/-- An integer whose prefix the decoding knows. -/
def Known : AmlInt → Prop
  | zero | one | byte _ | word _ _ => True
  | ones | dword _ _ _ _ => False

end AmlInt

/-- What is behind the name of a sleep package: up to four bytes, the operator, the length of the
package with as many more bytes as its first two bits say, the number of elements, and the two
integers. -/
structure SleepPackage where
  gap : List UInt8
  lead : UInt8
  extra : List UInt8
  count : UInt8
  first : AmlInt
  second : AmlInt
  near : gap.length ≤ 4
  clear : 0x12 ∉ gap
  length : extra.length = (lead >>> 6).toNat

namespace SleepPackage

def bytes (package : SleepPackage) : List UInt8 :=
  package.gap ++ 0x12 :: package.lead :: package.extra ++ package.count ::
    (package.first.bytes ++ package.second.bytes)

/-- The two integers come out as they are encoded: the decoding knows both, or takes the prefix of
a double word for the number twelve that it encodes. -/
def Readable (package : SleepPackage) : Prop :=
  (package.first.Known ∧ (package.second.Known ∨ package.second = .dword 12 0 0 0)) ∨
    (package.first = .dword 12 0 0 0 ∧ package.second.number = 12)

end SleepPackage

/-! ## Decoding -/

theorem Holds.append {i : Nat} {front back : List UInt8} :
    Holds t i (front ++ back) ↔ Holds t i front ∧ Holds t (i + front.length) back := by
  induction front generalizing i with
  | nil => exact (and_iff_right trivial).symm
  | cons b front ih =>
    rw [List.cons_append, Holds, Holds, ih, List.length_cons, and_assoc, Nat.add_assoc,
      Nat.add_comm 1]

/-- A gap without the byte is passed. -/
theorem place_gap {want : UInt8} {gap : List UInt8} {guard p : Nat} (near : gap.length ≤ guard)
    (clear : want ∉ gap) (holds : Holds t p gap) (found : t (p + gap.length) = want) :
    place t want guard p = p + gap.length := by
  induction gap generalizing guard p with
  | nil =>
    cases guard with
    | zero => rfl
    | succ guard => exact if_pos found
  | cons b gap ih =>
    obtain ⟨guard, rfl⟩ := Nat.exists_eq_succ_of_ne_zero (Nat.ne_of_gt (Nat.zero_lt_of_lt near))
    obtain ⟨here, more⟩ := holds
    have differs : t p ≠ want := fun same => clear (same ▸ here ▸ List.mem_cons_self)
    rw [List.length_cons, ← Nat.add_assoc, Nat.add_right_comm] at found
    rw [place, if_neg differs, ih (Nat.le_of_succ_le_succ near)
      (fun more => clear (List.mem_cons_of_mem b more)) more found, List.length_cons]
    omega

/-- What the decoding makes of an integer: the value, and the bytes it takes. -/
def AmlInt.decoded : AmlInt → Nat × Nat
  | zero => (0, 1)
  | one => (1, 1)
  | ones => (255, 1)
  | byte x => (x.toNat, 2)
  | word low high => (low.toNat + 2 ^ 8 * high.toNat, 3)
  | dword _ _ _ _ => (12, 1)

theorem amlInt_bytes {p : Nat} (x : AmlInt) (holds : Holds t p x.bytes) :
    (amlInt t p).value.1.toNat = x.decoded.1 ∧ (amlInt t p).value.2 = x.decoded.2 := by
  rw [amlInt_eq]
  cases x with
  | zero => simp [show t p = 0 from holds.1, AmlInt.decoded]
  | one => simp [show t p = 1 from holds.1, AmlInt.decoded]
  | ones => simp [show t p = 0xFF from holds.1, AmlInt.decoded]
  | byte x => simp [show t p = 0x0A from holds.1, show t (p + 1) = x from holds.2.1, AmlInt.decoded]
  | word low high =>
    obtain ⟨op, first, second, -⟩ := holds
    have small := low.toNat_lt
    have small' := high.toNat_lt
    have mask : (0xffff : UInt16).toNat = 2 ^ 16 - 1 := rfl
    rw [if_neg (by rw [op]; decide), if_neg (by rw [op]; decide), if_neg (by rw [op]; decide),
      if_pos op]
    refine ⟨?_, rfl⟩
    rw [UInt16.toNat_and, UInt32.toNat_toUInt16, mask, Nat.and_two_pow_sub_one_eq_mod, rd32_toNat,
      first, second, AmlInt.decoded]
    omega
  | dword b0 b1 b2 b3 => simp [show t p = 0x0C from holds.1, AmlInt.decoded]

/-- The decoding is right for the integers it knows, and for one double word. -/
theorem AmlInt.decoded_eq_number (x : AmlInt) :
    x.decoded.1 = x.number ↔ x.Known ∨ x = .dword 12 0 0 0 := by
  cases x with
  | zero => exact iff_of_true rfl (.inl trivial)
  | one => exact iff_of_true rfl (.inl trivial)
  | ones => exact iff_of_false (by decide) fun either => either.elim id (fun same => nomatch same)
  | byte x => exact iff_of_true rfl (.inl trivial)
  | word low high => exact iff_of_true rfl (.inl trivial)
  | dword b0 b1 b2 b3 =>
    have unknown : ¬(dword b0 b1 b2 b3).Known := id
    rw [decoded, number, or_iff_right unknown, AmlInt.dword.injEq, ← UInt8.toNat_inj,
      ← UInt8.toNat_inj, ← UInt8.toNat_inj, ← UInt8.toNat_inj]
    have twelve : (12 : UInt8).toNat = 12 := rfl
    have zero : (0 : UInt8).toNat = 0 := rfl
    rw [twelve, zero]
    omega

theorem AmlInt.Known.decoded_size {x : AmlInt} (known : x.Known) :
    x.decoded.2 = x.bytes.length := by
  cases x with
  | ones | dword => cases known
  | zero | one | byte | word => rfl

namespace SleepPackage

variable {package : SleepPackage} {state : UInt8} {j : Nat}

/-- The package stands behind the name that the scan for a state comes to, at `j`. -/
structure LiesAt (package : SleepPackage) (t : Table) (state : UInt8) (j : Nat) : Prop where
  first : First t (sleepName state) 36 j
  reached : j + 5 < (declared t).toNat
  holds : Holds t (j + 4) package.bytes

/-- The scan finds the two integers of the package. -/
def Found (package : SleepPackage) (t : Table) (state : UInt8) : Prop :=
  ∃ types, (parseSleep t state).value = some types ∧ types.1.toNat = package.first.number ∧
    types.2.toNat = package.second.number

/-- The scan decodes two integers where the first one of the package is. -/
theorem LiesAt.value (lies : package.LiesAt t state j) :
    ∃ r, Holds t r (package.first.bytes ++ package.second.bytes) ∧
      (parseSleep t state).value = some ((amlInt t r).value.1,
        (amlInt t (r + (amlInt t r).value.2)).value.1) := by
  have reached := lies.reached
  obtain ⟨low, holds, earlier⟩ := lies.first
  obtain ⟨gap, op, lead, -⟩ := Holds.append.mp (Holds.append.mp lies.holds).1
  have ints := (Holds.append.mp lies.holds).2.2
  have isPlace : place t 0x12 4 (j + 4) = j + 4 + package.gap.length :=
    place_gap package.near package.clear gap op
  have hit : (search (namedStep t (sleepName state) (sleepPackage t))
      ((declared t).toNat - 5 - 36) 36).value = some (sleepPackage t (j + 4)).value :=
    value_search low (by omega) (missed_iff.mpr earlier) (value_namedStep holds)
  rw [List.length_append, List.length_cons, List.length_cons] at ints
  refine ⟨_, ints, ?_⟩
  rw [parseSleep, value_bind, hit, sleepPackage, value_bind, value_seek, isPlace]
  generalize package.gap.length = k at op lead
  have start : j + 4 + k + 1 + (1 + (t (j + 4 + k + 1) >>> 6).toNat) + 1 =
      j + 4 + (k + (package.extra.length + 1 + 1)) + 1 := by
    rw [lead, package.length]
    omega
  have isOp : ¬(rd8 t (j + 4 + k)).value ≠ 0x12 := not_not_intro op
  rw [value_bind, if_neg isOp, value_bind, value_rd8, start]
  rfl

/-- **The sleep types found** are the encoded ones exactly for packages that are readable. -/
theorem LiesAt.found_iff (lies : package.LiesAt t state j) :
    package.Found t state ↔ package.Readable := by
  obtain ⟨r, holds, value⟩ := lies.value
  obtain ⟨holds, holds'⟩ := Holds.append.mp holds
  obtain ⟨a, size⟩ := amlInt_bytes package.first holds
  rw [size] at value
  have found : package.Found t state ↔ package.first.decoded.1 = package.first.number ∧
      (amlInt t (r + package.first.decoded.2)).value.1.toNat = package.second.number := by
    rw [← a]
    constructor
    · rintro ⟨types, isSome, first, second⟩
      obtain rfl := Option.some.inj (value.symm.trans isSome)
      exact ⟨first, second⟩
    · rintro ⟨first, second⟩
      exact ⟨_, value, first, second⟩
  rw [found, AmlInt.decoded_eq_number, Readable]
  by_cases known : package.first.Known
  · have plain : package.first ≠ .dword 12 0 0 0 := by
      intro same
      rw [same] at known
      exact known
    rw [← known.decoded_size] at holds'
    rw [(amlInt_bytes package.second holds').1, AmlInt.decoded_eq_number]
    simp only [plain, or_false, false_and]
  · rw [or_iff_right known, or_iff_right fun both => known both.1]
    refine and_congr_right fun twelve => ?_
    rw [twelve] at holds ⊢
    have isPrefix : t (r + 1) = 0x0C := holds.2.1
    have second : (amlInt t (r + 1)).value.1.toNat = 12 := by
      simp [amlInt_eq, isPrefix]
    rw [AmlInt.decoded, second, eq_comm]

end SleepPackage

/-! ## The tables -/

/-- **The walks over the firmware's tables** keep to the declared length exactly when the root table
covers its header, the FADT its flags, and the DSDT what is decoded behind the names found; and the
sleep types found are the encoded ones exactly for packages that are readable. -/
theorem walks_iff (mem : UInt64 → UInt8) (phys : UInt64) (t : Table) :
    (∀ xsdt want, (findTable mem phys xsdt want).Within (· < (declared (tableAt mem phys)).toNat) ↔
      36 ≤ (declared (tableAt mem phys)).toNat) ∧
    ((readFadt t).Within (· < (declared t).toNat) ↔ 116 ≤ (declared t).toNat) ∧
    ((parseS5 t).Within (· < (declared t).toNat) ↔ SleepInside t (declared t).toNat 0x35) ∧
    ((parseS3 t).Within (· < (declared t).toNat) ↔ SleepInside t (declared t).toNat 0x33) ∧
    ((parseBattery t).Within (· < (declared t).toNat) ↔ BatteryInside t (declared t).toNat) ∧
    ∀ (package : SleepPackage) j, package.LiesAt t 0x35 j →
      (package.Found t 0x35 ↔ package.Readable) :=
  ⟨within_findTable mem phys, within_readFadt t, within_parseSleep t 0x35,
    within_parseSleep t 0x33, within_parseBattery t, fun _ _ lies => lies.found_iff⟩

/-- A table of sixty bytes with a sleep package of `Ones` and `Zero` behind its header. -/
def onesTable : Table := fun o =>
  (List.replicate 4 0 ++ [60, 0, 0, 0] ++ List.replicate 28 0 ++
    [0x5F, 0x53, 0x35, 0x5F, 0x12, 0x04, 0x02, 0xFF, 0x00] : List UInt8).getD o 0

def onesPackage : SleepPackage where
  gap := []
  lead := 0x04
  extra := []
  count := 2
  first := .ones
  second := .zero
  near := by decide
  clear := by decide
  length := rfl

/-- A root table of length zero is read behind its end, and `Ones` is not found. -/
theorem tables_misread :
    ¬(findTable (fun _ => 0) 0 false [0x46, 0x41, 0x43, 0x50]).Within
      (· < (declared (tableAt (fun _ => 0) 0)).toNat) ∧
    onesPackage.LiesAt onesTable 0x35 36 ∧ ¬onesPackage.Found onesTable 0x35 := by
  have lies : onesPackage.LiesAt onesTable 0x35 36 := by
    refine ⟨⟨Nat.le_refl 36, ⟨rfl, rfl, rfl, rfl, trivial⟩, ?_⟩, by decide,
      ⟨rfl, rfl, rfl, rfl, rfl, trivial⟩⟩
    exact fun k low high => absurd low (Nat.not_le.mpr high)
  refine ⟨fun inside => ?_, lies, fun found => ?_⟩
  · exact absurd ((within_findTable _ _ _ _).mp inside) (by decide)
  · rcases lies.found_iff.mp found with ⟨known, -⟩ | ⟨same, -⟩
    · exact known
    · cases same

end RustyPenguin.Acpi
