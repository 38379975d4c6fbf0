import RustyPenguin.Foundation.Unsigned
import RustyPenguin.Linux.Alone

/-!
# The bytes of an address space

What the kernel does to an address space in a call says which bytes a process reads afterwards: a
fresh frame reads as zeros, and writing changes the bytes that are written. Backing pages takes a
frame for each page while there are frames, and maps the frame where the tables for the page can be
had.
-/

set_option autoImplicit false

namespace RustyPenguin.Linux

open Function

/-! ## Bytes -/

/-- The bytes after an effect; `surface` is what the frames of the framebuffer's surface hold. -/
def Effect.apply (surface : UInt64 → UInt8) (effect : Effect) (bytes : UInt64 → UInt8)
    (x : UInt64) : UInt8 :=
  match effect with
  | .fresh page => if pageOf x = page then 0 else bytes x
  | .surface page phys => if pageOf x = page then surface (phys + x % 4096) else bytes x
  | .zero addr len => if addr.toNat ≤ x.toNat ∧ x.toNat < addr.toNat + len then 0 else bytes x
  | .write addr written =>
    if addr.toNat ≤ x.toNat ∧ x.toNat < addr.toNat + written.length then
      written.getD (x.toNat - addr.toNat) 0
    else bytes x

/-- The bytes after all that was done to an address space, over what was there before. -/
def Space.bytes (surface before : UInt64 → UInt8) (sp : Space) : UInt64 → UInt8 :=
  sp.effects.foldl (fun bytes effect => effect.apply surface bytes) before

section Bytes

variable {surface before : UInt64 → UInt8} {sp : Space}

theorem bytes_append {sp' : Space} {effects : List Effect}
    (grown : sp'.effects = sp.effects ++ effects) : sp'.bytes surface before =
      effects.foldl (fun bytes effect => effect.apply surface bytes) (sp.bytes surface before) := by
  rw [Space.bytes, grown, List.foldl_append]
  rfl

theorem bytes_zero (addr : UInt64) (len : Nat) (x : UInt64) :
    Space.bytes surface before { sp with effects := sp.effects ++ [.zero addr len] } x =
      if addr.toNat ≤ x.toNat ∧ x.toNat < addr.toNat + len then 0
      else sp.bytes surface before x := by
  rw [Space.bytes, List.foldl_append]
  rfl

theorem bytes_write (addr : UInt64) (written : List UInt8) (x : UInt64) :
    Space.bytes surface before { sp with effects := sp.effects ++ [.write addr written] } x =
      if addr.toNat ≤ x.toNat ∧ x.toNat < addr.toNat + written.length then
        written.getD (x.toNat - addr.toNat) 0
      else sp.bytes surface before x := by
  rw [Space.bytes, List.foldl_append]
  rfl

/-- Fresh frames read as zeros, and other pages as before. -/
theorem foldl_fresh (pages : List Nat) (bytes : UInt64 → UInt8) (x : UInt64) :
    (pages.map Effect.fresh).foldl (fun bytes effect => effect.apply surface bytes) bytes x =
      if pageOf x ∈ pages then 0 else bytes x := by
  induction pages generalizing bytes with
  | nil => rw [List.map_nil, List.foldl_nil, if_neg List.not_mem_nil]
  | cons page pages ih =>
    rw [List.map_cons, List.foldl_cons, ih]
    by_cases later : pageOf x ∈ pages
    · rw [if_pos later, if_pos (List.mem_cons_of_mem _ later)]
    · rw [if_neg later, Effect.apply]
      by_cases here : pageOf x = page
      · rw [if_pos here, if_pos (List.mem_cons.mpr (.inl here))]
      · rw [if_neg here, if_neg fun member => (List.mem_cons.mp member).elim here later]

end Bytes

/-! ## Touching pages -/

section Touch

variable {sp sp' : Space} {addr : UInt64} {len : Nat} {effect : Effect}

theorem touch_of_mapped (effect : Effect)
    (there : ∀ page ∈ pagesOf addr len, isPrivate page = true ∧ sp.mapped page = true) :
    sp.touch addr len effect = some { sp with effects := sp.effects ++ [effect] } := by
  rw [Space.touch, if_pos]
  exact List.all_eq_true.mpr fun page here => Bool.and_eq_true_iff.mpr (there page here)

/-- Parts of a range touch no other pages. -/
theorem pagesOf_subset {part : UInt64} {n : Nat} (low : addr.toNat ≤ part.toNat)
    (high : part.toNat + n ≤ addr.toNat + len) : ∀ page ∈ pagesOf part n, page ∈ pagesOf addr len := by
  intro page here
  rw [pagesOf, List.mem_range'_1, pageOf] at here ⊢
  omega

/-- Bytes that were written lie in mapped pages, and the write is all that was done. -/
theorem touch_some (touched : sp.touch addr len effect = some sp') :
    sp' = { sp with effects := sp.effects ++ [effect] } ∧
      ∀ page ∈ pagesOf addr len, isPrivate page = true ∧ sp.mapped page = true := by
  rw [Space.touch] at touched
  split at touched
  · next all =>
    cases touched
    exact ⟨rfl, fun page here => Bool.and_eq_true_iff.mp (List.all_eq_true.mp all page here)⟩
  · cases touched

end Touch

/-! ## Backing pages -/

/-- The pages that get a frame, which are the first ones. -/
def reached (supply : Supply) (pages : List Nat) : List Nat := pages.take supply.frames

/-- **Backing pages** takes a frame for each page it reaches, and maps those with tables. -/
theorem backPages_spec (tables : Nat → Bool) (frames : Nat) {pages : List Nat} (sp : Space)
    (inside : ∀ page ∈ pages, isPrivate page = true) :
    ∃ sp', backPages tables frames pages sp = some (decide (pages.length ≤ frames), sp') ∧
      sp'.effects = sp.effects ++ ((pages.take frames).filter tables).map Effect.fresh ∧
      ∀ page, sp'.mapped page = true ↔
        sp.mapped page = true ∨ page ∈ pages.take frames ∧ tables page = true := by
  induction pages generalizing frames sp with
  | nil =>
    refine ⟨sp, ?_, ?_, fun page => ?_⟩
    · cases frames <;> rfl
    · rw [List.take_nil, List.filter_nil, List.map_nil, List.append_nil]
    · rw [List.take_nil]
      simp
  | cons first pages ih =>
    cases frames with
    | zero =>
      refine ⟨sp, rfl, ?_, fun page => ?_⟩
      · rw [List.take_zero, List.filter_nil, List.map_nil, List.append_nil]
      · rw [List.take_zero]
        simp
    | succ frames =>
      obtain ⟨sp', runs, effects, mapped⟩ := ih frames
        (if tables first then sp.map first (.fresh first) else sp)
        fun page here => inside page (List.mem_cons_of_mem _ here)
      refine ⟨sp', ?_, ?_, fun page => ?_⟩
      · rw [backPages, if_pos (inside first List.mem_cons_self), runs, List.length_cons]
        simp
      · rw [effects, List.take_succ_cons, List.filter_cons]
        split
        · rw [Space.map, List.map_cons, List.append_assoc, List.singleton_append]
        · rfl
      · rw [mapped, List.take_succ_cons, List.mem_cons]
        split
        · next here =>
          rw [Space.map]
          dsimp only
          rw [update_apply]
          by_cases same : page = first
          · rw [if_pos same, same]
            simp [here]
          · rw [if_neg same]
            simp [same]
        · next missing =>
          by_cases same : page = first
          · rw [same]
            simp [missing]
          · simp [same]

/-! ## Rounding -/

theorem toNat_pageUp (n : UInt64) :
    (pageUp n).toNat = (n.toNat + 4095) % 2 ^ 64 / 4096 * 4096 := by
  have low : (4095 : UInt64).toNat = 2 ^ 12 - 1 := rfl
  have size : (n + 4095).toNat = (n.toNat + 4095) % 2 ^ 64 := UInt64.toNat_add n 4095
  have small : (n.toNat + 4095) % 2 ^ 64 < 2 ^ 64 := Nat.mod_lt _ (Nat.two_pow_pos 64)
  rw [pageUp, UInt64.toNat_and, UInt64.toNat_not, low, size]
  exact Unsigned.and_not_low small

/-- The pages up to the end of a range that starts and ends at a page. -/
theorem mem_pagesBetween {start stop : UInt64} {page : Nat} :
    page ∈ pagesBetween start stop ↔ pageOf start ≤ page ∧ page < pageOf stop := by
  rw [pagesBetween, List.mem_range'_1]
  omega

/-! ## Open files -/

section Files

variable {entry : OpenFile}

theorem toNat_min (x y : UInt64) : (min x y).toNat = min x.toNat y.toNat := by
  change (if x ≤ y then x else y).toNat = _
  rw [Nat.min_def]
  by_cases le : x ≤ y
  · rw [if_pos le, if_pos (UInt64.le_iff_toNat_le.mp le)]
  · rw [if_neg le, if_neg fun le' => le (UInt64.le_iff_toNat_le.mpr le')]

theorem toNat_size (short : entry.data.length < 2 ^ 63) : entry.size.toNat = entry.data.length := by
  have fits : entry.data.length < 2 ^ 64 := by omega
  rw [OpenFile.size, UInt64.toNat_ofNat_of_lt' fits]

theorem toNat_rest (short : entry.data.length < 2 ^ 63) (pos : UInt64) :
    (entry.rest pos).toNat = entry.data.length - pos.toNat := by
  have size := toNat_size short
  rw [OpenFile.rest]
  split
  · next le => rw [UInt64.toNat_sub_of_le _ _ le, size]
  · next past =>
    rw [UInt64.le_iff_toNat_le, size] at past
    rw [UInt64.toNat_zero]
    omega

end Files

end RustyPenguin.Linux
