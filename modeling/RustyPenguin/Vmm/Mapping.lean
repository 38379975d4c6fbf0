import RustyPenguin.Vmm.Descend

/-!
# Storing the last entry

Once the tables have grown, mapping a page stores one entry of a last table. The walks that
use this entry are those that come down to this table and choose the same slot; under one
root they are the walks of the addresses of one page.
-/

set_option autoImplicit false

namespace RustyPenguin.Vmm

open LawfulFrameAlloc (InUse)

/-! ## The entry -/

section Entry

variable {phys flags : BitVec 64}

/-- The entry stored for a frame and flags. -/
def pageEntry (phys flags : BitVec 64) : BitVec 64 := phys ||| flags ||| ptePresent

theorem presentBit (k : Nat) : ptePresent.getLsbD k = decide (k = 0) := by
  by_cases inside : k < 64
  · exact (by decide : ∀ k, k < 64 → ptePresent.getLsbD k = decide (k = 0)) k inside
  · rw [BitVec.getLsbD_of_ge _ _ (Nat.le_of_not_lt inside)]
    exact (decide_eq_false (by omega)).symm

theorem IsFrame.bit {k : Nat} (frame : IsFrame phys) (outside : k < 12 ∨ 52 ≤ k) :
    phys.getLsbD k = false := by
  by_contra bit
  have := frame k (Bool.not_eq_false _ ▸ bit)
  omega

theorem IsFlags.bit {k : Nat} (isFlags : IsFlags flags) (inside : 12 ≤ k ∧ k < 52) :
    flags.getLsbD k = false := by
  by_contra bit
  have := isFlags k (Bool.not_eq_false _ ▸ bit)
  omega

theorem pageEntry_present : pageEntry phys flags &&& ptePresent ≠ 0 := by
  intro zero
  have bit := congrArg (fun x : BitVec 64 => x.getLsbD 0) zero
  simp only [pageEntry, BitVec.getLsbD_and, BitVec.getLsbD_or, presentBit, decide_true,
    Bool.or_true, Bool.and_true] at bit
  cases bit

theorem frame_pageEntry (frame : IsFrame phys) (isFlags : IsFlags flags) :
    pageEntry phys flags &&& addressMask = phys := by
  refine BitVec.eq_of_getLsbD_eq fun k _ => ?_
  simp only [pageEntry, BitVec.getLsbD_and, BitVec.getLsbD_or, addressBit, presentBit]
  by_cases inside : 12 ≤ k ∧ k < 52
  · have upper : k ≠ 0 := by omega
    simp [inside, upper, isFlags.bit inside]
  · simp [inside, frame.bit (k := k) (by omega)]

theorem flags_pageEntry (frame : IsFrame phys) (isFlags : IsFlags flags) :
    pageEntry phys flags &&& ~~~addressMask = flags ||| ptePresent := by
  refine BitVec.eq_of_getLsbD_eq fun k inside64 => ?_
  simp only [pageEntry, BitVec.getLsbD_and, BitVec.getLsbD_or, BitVec.getLsbD_not, addressBit,
    presentBit, inside64, decide_true, Bool.true_and]
  by_cases inside : 12 ≤ k ∧ k < 52
  · have upper : k ≠ 0 := by omega
    simp [inside, upper, isFlags.bit inside]
  · simp [inside, frame.bit (k := k) (by omega)]

theorem rights_pageEntry (frame : IsFrame phys) :
    Rights.of (pageEntry phys flags) = Rights.of flags := by
  simp only [Rights.of, pageEntry, BitVec.getLsbD_or, presentBit, frame.bit (k := 1) (by decide),
    frame.bit (k := 2) (by decide), frame.bit (k := 63) (by decide), Bool.false_or]
  simp only [show decide (1 = 0) = false from rfl, show decide (2 = 0) = false from rfl,
    show decide (63 = 0) = false from rfl, Bool.or_false]

/-- **The page of the entry**: the frame, the flags and the rights asked for. -/
theorem leaf_pageEntry (frame : IsFrame phys) (isFlags : IsFlags flags) (v : BitVec 64) :
    leaf v (pageEntry phys flags) 0 = ⟨phys, flags ||| ptePresent, Rights.of flags⟩ := by
  rw [leaf, frame_pageEntry frame isFlags, flags_pageEntry frame isFlags, rights_pageEntry frame]
  simp only [Translation.mk.injEq, and_true]
  refine BitVec.eq_of_getLsbD_eq fun k inside => ?_
  simp only [Nat.mul_zero, Nat.add_zero, BitVec.getLsbD_or, BitVec.getLsbD_shiftLeft,
    BitVec.getLsbD_ushiftRight, BitVec.getLsbD_and, BitVec.getLsbD_not, BitVec.getLsbD_allOnes]
  by_cases low : k < 12
  · rw [frame.bit (Or.inl low)]
    simp [inside, low]
  · have back : 12 + (k - 12) = k := by omega
    simp [inside, low, back, show k - 12 < 64 by omega]

end Entry

/-! ## The last table -/

variable {A : Type} [LawfulFrameAlloc A] {roots : List (BitVec 64)} {vm : State A}
  {root pt virt entry : BitVec 64}

section Store

variable (wf : WellFormed roots vm) (isRoot : root ∈ roots)
  (path : Radix.Path (child vm.mem) (index virt) 4 root 1 pt)

omit [LawfulFrameAlloc A] in
include isRoot path in
theorem lastTable : IsTable vm.mem roots 1 pt := path.table (.root isRoot)

include wf isRoot path

theorem WellFormed.storeLeaf : WellFormed roots (vm.store pt (ptIdx virt) entry) where
  forest := (wf.forest.store (lastTable isRoot path) (Or.inl (pointsTo_one entry))).1
  active := wf.active

/-- A last table holds no pointers, so the stored entry leaves the tables above as they are. -/
theorem read64_storeLeaf {l : Nat} {t : BitVec 64} {i : Fin 512} (table : IsTable vm.mem roots l t)
    (other : l ≠ 1 ∨ t ≠ pt ∨ i ≠ ptIdx virt) :
    read64 (vm.store pt (ptIdx virt) entry).mem t i = read64 vm.mem t i := by
  have last := lastTable isRoot path
  refine read64_write64_of_ne (wf.forest.isFrame last) (wf.forest.isFrame table) ?_
  rcases other with level | different
  · refine Or.inl fun same => level ?_
    exact wf.forest.slot_unique table (same ▸ last)
  · exact different

theorem child_storeLeaf {l : Nat} {t : BitVec 64} {i : Fin 512}
    (table : IsTable vm.mem roots l t) :
    child (vm.store pt (ptIdx virt) entry).mem l t i = child vm.mem l t i := by
  by_cases last : l = 1
  · rw [child, child, last, pointsTo_one, pointsTo_one]
  · rw [child, child, read64_storeLeaf wf isRoot path table (Or.inl last)]

theorem isTable_storeLeaf {l : Nat} {t : BitVec 64} :
    IsTable (vm.store pt (ptIdx virt) entry).mem roots l t ↔ IsTable vm.mem roots l t := by
  constructor
  · intro table
    refine table.rule (P := IsTable vm.mem roots) .root fun {l u i c} _ above points => ?_
    exact above.hung ((child_storeLeaf wf isRoot path above).symm.trans points)
  · intro table
    refine table.mono id fun above points => ?_
    exact (child_storeLeaf wf isRoot path above).trans points

theorem rights_storeLeaf {l : Nat} {t v : BitVec 64} (table : IsTable vm.mem roots l t) :
    tableRights (vm.store pt (ptIdx virt) entry).mem v l t = tableRights vm.mem v l t := by
  induction l generalizing t with
  | zero => rfl
  | succ l ih =>
    by_cases last : l = 0
    · subst last
      have nowhere : ∀ e, pointsTo (0 + 1) e = none := pointsTo_one
      simp only [tableRights, nowhere]
    · simp only [tableRights, read64_storeLeaf wf isRoot path table (Or.inl (by omega : l + 1 ≠ 1))]
      cases points : pointsTo (l + 1) (read64 vm.mem t (index v (l + 1))) with
      | none => rfl
      | some c => simp only [ih (table.hung points)]

/-- **Only walks through the stored entry see it.** -/
theorem translate_storeLeaf_of_ne {r v : BitVec 64} (other : r ∈ roots)
    (away : ¬(Radix.Path (child vm.mem) (index v) 4 r 1 pt ∧ ptIdx v = ptIdx virt)) :
    translate (vm.store pt (ptIdx virt) entry).mem r v = translate vm.mem r v := by
  refine wf.forest.walk_congr (.root other) fun l u way => ?_
  refine read64_storeLeaf wf isRoot path (way.table (.root other)) ?_
  by_cases last : l = 1
  · subst last
    refine Or.inr (not_and_or.mp fun ⟨table, slot⟩ => away ?_)
    subst table
    exact ⟨way, slot⟩
  · exact Or.inl last

/-- Under the root of the mapped page, these are the walks of the addresses of the page. -/
theorem samePage_of_path {v : BitVec 64} (way : Radix.Path (child vm.mem) (index v) 4 root 1 pt)
    (slot : ptIdx v = ptIdx virt) : SamePage v virt := by
  obtain ⟨same, -⟩ := way.agree wf.forest.separate path (.root isRoot) (.root isRoot)
  refine samePage_of_index fun l above below => ?_
  by_cases last : l = 1
  · subst last
    exact slot
  · exact same l (by omega) below

/-- **The mapped page**: the stored frame and flags, with the rights the tables above leave. -/
theorem translate_storeLeaf_self {phys flags : BitVec 64} (frame : IsFrame phys)
    (isFlags : IsFlags flags) :
    translate (vm.store pt (ptIdx virt) (pageEntry phys flags)).mem root virt =
      some ⟨phys, flags ||| ptePresent,
        (Rights.of flags).meet (tableRights vm.mem virt 4 root)⟩ := by
  have wf' : WellFormed roots (vm.store pt (ptIdx virt) (pageEntry phys flags)) :=
    wf.storeLeaf isRoot path
  have top : Radix.Table (child vm.mem) (· ∈ roots) 4 4 root := .root isRoot
  have path' : Radix.Path (child (vm.store pt (ptIdx virt) (pageEntry phys flags)).mem)
      (index virt) 4 root 1 pt :=
    path.mono (fun table points => (child_storeLeaf wf isRoot path table).trans points) top
  have last : walk (vm.store pt (ptIdx virt) (pageEntry phys flags)).mem virt 1 pt =
      some ⟨phys, flags ||| ptePresent, Rights.of flags⟩ := by
    have entry : read64 (vm.store pt (ptIdx virt) (pageEntry phys flags)).mem pt (index virt 1) =
        pageEntry phys flags := read64_write64_self
    rw [walk, entry]
    simp only [pageEntry_present, if_false, if_true, leaf_pageEntry frame isFlags]
  rw [translate, wf'.forest.walk_of_path path' (.root isRoot), last,
    rights_storeLeaf wf isRoot path (.root isRoot)]
  rfl

end Store

end RustyPenguin.Vmm
