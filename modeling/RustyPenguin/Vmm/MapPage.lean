import RustyPenguin.Vmm.Kernel
import RustyPenguin.Vmm.Pmm

/-!
# Mapping a page

In every state the kernel's operations lead to, a call of `mapPageIn` that fails changes no
translation. One that succeeds maps the page to the frame with the flags asked for in the
last entry, changes no other page under the root, and takes only frames that were in no
table. The rights of the page are those asked for exactly when the tables that were already
on the way allow them: a step down gives the user and the write bit to the tables it adds,
and leaves those it finds as they are.
-/

set_option autoImplicit false

namespace RustyPenguin.Vmm

open LawfulFrameAlloc (InUse)

variable {A : Type} [LawfulFrameAlloc A] {roots : List (BitVec 64)} {vm vm' : State A}
  {root virt phys flags : BitVec 64} {ok : Bool}

/-- A page was mapped to a frame with flags, and nothing else under its root changed. -/
structure PageMapped (roots : List (BitVec 64)) (vm vm' : State A)
    (root virt phys flags : BitVec 64) : Prop where
  mapped : translate vm'.mem root virt = some ⟨phys, flags ||| ptePresent, Rights.of flags⟩
  others : ∀ v, ¬SamePage v virt → translate vm'.mem root v = translate vm.mem root v
  taken : ∀ {l t}, IsTable vm'.mem roots l t → IsTable vm.mem roots l t ∨
    (¬InUse vm.pmm t ∧ (∀ l', ¬IsTable vm.mem roots l' t) ∧
      ∀ i, i ≠ index virt l → read64 vm'.mem t i = 0)

/-- No translation changed. -/
def Untouched (roots : List (BitVec 64)) (vm vm' : State A) : Prop :=
  ∀ r ∈ roots, ∀ v, translate vm'.mem r v = translate vm.mem r v

/-- The tables already on the way to an address allow what the flags ask for. -/
def TablesAllow (vm : State A) (root virt flags : BitVec 64) : Prop :=
  ((Rights.of flags).write = true → (tableRights vm.mem virt 4 root).write = true) ∧
    ((Rights.of flags).user = true → (tableRights vm.mem virt 4 root).user = true)

/-- Tables leave the right to execute alone. -/
theorem Forest.rights_exec {mem : Memory} {used : BitVec 64 → Prop} {v : BitVec 64}
    (forest : Forest mem used roots) {l : Nat} {t : BitVec 64} (table : IsTable mem roots l t) :
    (tableRights mem v l t).exec = true := by
  induction l generalizing t with
  | zero => rfl
  | succ l ih =>
    rw [tableRights]
    cases points : pointsTo (l + 1) (read64 mem t (index v (l + 1))) with
    | none => rfl
    | some c =>
      have upper : (read64 mem t (index v (l + 1))).getLsbD 63 = false := by
        by_contra bit
        exact absurd (forest.narrow table points 63 (Bool.not_eq_false _ ▸ bit)) (by decide)
      have below := ih (table.hung points)
      simp only [Rights.meet, below, Rights.of, upper, Bool.not_false, Bool.and_self]

theorem tablesAllow_iff (wf : WellFormed roots vm) (isRoot : root ∈ roots) :
    TablesAllow vm root virt flags ↔
      (Rights.of flags).Within (tableRights vm.mem virt 4 root) := by
  have exec := wf.forest.rights_exec (v := virt) (.root isRoot)
  simp only [TablesAllow, Rights.Within, exec, implies_true, and_true]

/-- **Mapping a page is right when the tables on the way allow it**, and only then: a failed call
changes no translation, and a successful one maps the page as asked for if and only if the
tables already there allow the rights. -/
theorem mapPageIn_of_built (built : Built roots vm) (isRoot : root ∈ roots)
    (frame : IsFrame phys) (isFlags : IsFlags flags)
    (done : vm.mapPageIn root virt phys flags = (ok, vm')) :
    (ok = false → Untouched roots vm vm') ∧
      (ok = true → (PageMapped roots vm vm' root virt phys flags ↔
        TablesAllow vm root virt flags)) := by
  have wf := built.wellFormed
  obtain ⟨vm₁, under, ⟨failed, same⟩ | ⟨succeeded, pt, path, stored⟩⟩ := mapPageIn_spec wf isRoot done
  · subst failed same
    exact ⟨fun _ r other v => under.grown.walks (.root other), fun succeeded => (nomatch succeeded)⟩
  · subst succeeded stored
    refine ⟨fun failed => (nomatch failed), fun _ => ?_⟩
    have wf₁ := under.grown.wf
    have found := translate_storeLeaf_self wf₁ isRoot path frame isFlags
    rw [under.rights (.root isRoot)] at found
    change translate (vm₁.store pt (ptIdx virt) (pageEntry phys flags)).mem root virt = _ at found
    rw [tablesAllow_iff wf isRoot, ← Rights.meet_eq_left]
    constructor
    · intro mapped
      have both := found.symm.trans mapped.mapped
      simp only [Option.some.injEq, Translation.mk.injEq, true_and] at both
      exact both
    · intro allowed
      refine ⟨found.trans (by rw [allowed]), fun v other => ?_, fun {l t} table => ?_⟩
      · refine (translate_storeLeaf_of_ne wf₁ isRoot path isRoot ?_).trans
          (under.grown.walks (.root isRoot))
        rintro ⟨way, slot⟩
        exact other (samePage_of_path wf₁ isRoot path way slot)
      · have table₁ := (isTable_storeLeaf wf₁ isRoot path).mp table
        obtain old | ⟨unused, blank⟩ := under.grown.fresh table₁
        · exact Or.inl old
        · refine Or.inr ⟨unused, wf.forest.foreign unused, fun i other => ?_⟩
          refine (read64_storeLeaf wf₁ isRoot path table₁ ?_).trans (blank i other)
          by_cases last : l = 1
          · subst last
            exact Or.inr (Or.inr other)
          · exact Or.inl last

/-! ## A machine after boot -/

/-- Five frames of the kernel image. -/
def smallTables : BootTables := ⟨0x10000, 0x11000, 0x12000, 0x13000, 0x14000⟩

/-- The frames from 256 KiB to 512 KiB are free. -/
def smallPmm : Pmm := ⟨fun i => if i = 1 then BitVec.allOnes 64 else 0, 64, true⟩

/-- The machine as the boot stub leaves it. -/
def small : State Pmm := ⟨bootMemory (fun _ => 0) smallTables, smallPmm, smallTables.pml4, false⟩

theorem smallTables_ok : smallTables.Ok (fun _ => 0) (InUse smallPmm) where
  different := by decide
  reserved t member := by
    simp only [smallTables, List.mem_cons, List.not_mem_nil, or_false] at member
    rcases member with rfl | rfl | rfl | rfl | rfl <;>
      exact ⟨isFrame_iff.mpr (by decide), (by decide : Pmm.InUse smallPmm _)⟩
  zero _ _ _ := rfl

theorem small_built : Built [smallTables.pml4] small := .boot smallTables_ok

/-- What happens to two pages that ring 3 asks for. -/
theorem small_maps :
    ((small.mapPageIn smallTables.pml4 0x80_0000_0000 0x50000 intermediateFlags).1 = true ∧
      tableRights small.mem 0x80_0000_0000 4 smallTables.pml4 = ⟨true, true, true⟩) ∧
    (small.mapPageIn smallTables.pml4 0xFFFF_FFFF_8400_0000 0x50000 intermediateFlags).1 = true ∧
      translate (small.mapPageIn smallTables.pml4 0xFFFF_FFFF_8400_0000 0x50000
        intermediateFlags).2.mem smallTables.pml4 0xFFFF_FFFF_8400_0000 =
          some ⟨0x50000, intermediateFlags ||| ptePresent, ⟨true, false, true⟩⟩ := by
  decide +kernel

/-- The theorem at a page of the free upper part of the low half, mapped for writing by ring 3. -/
theorem mapPageIn_of_built_small :
    PageMapped [smallTables.pml4] small (small.mapPageIn smallTables.pml4 0x80_0000_0000 0x50000
      intermediateFlags).2 smallTables.pml4 0x80_0000_0000 0x50000 intermediateFlags := by
  obtain ⟨⟨succeeded, rights⟩, -⟩ := small_maps
  have flags : IsFlags intermediateFlags := fun i bit => Or.inl (tableFlags_intermediate.low i bit)
  have frame : IsFrame 0x50000 := isFrame_iff.mpr (by decide)
  have allowed : TablesAllow small smallTables.pml4 0x80_0000_0000 intermediateFlags := by
    rw [TablesAllow, rights]
    exact ⟨fun _ => rfl, fun _ => rfl⟩
  exact ((mapPageIn_of_built small_built List.mem_cons_self frame flags
    (Prod.ext succeeded rfl)).2 rfl).mpr allowed

/-- **A page mapped for ring 3 above the kernel's window** gets a frame and no user right: the
call succeeds, but the boot stub's entries on the way lack the user bit. -/
theorem kernel_window_denies_user :
    (small.mapPageIn smallTables.pml4 0xFFFF_FFFF_8400_0000 0x50000 intermediateFlags).1 = true ∧
      translate (small.mapPageIn smallTables.pml4 0xFFFF_FFFF_8400_0000 0x50000
        intermediateFlags).2.mem smallTables.pml4 0xFFFF_FFFF_8400_0000 =
          some ⟨0x50000, intermediateFlags ||| ptePresent, ⟨true, false, true⟩⟩ ∧
      ¬PageMapped [smallTables.pml4] small (small.mapPageIn smallTables.pml4
        0xFFFF_FFFF_8400_0000 0x50000 intermediateFlags).2 smallTables.pml4
          0xFFFF_FFFF_8400_0000 0x50000 intermediateFlags := by
  obtain ⟨-, succeeded, found⟩ := small_maps
  refine ⟨succeeded, found, fun mapped => ?_⟩
  have both := found.symm.trans mapped.mapped
  simp only [Option.some.injEq, Translation.mk.injEq, true_and] at both
  exact absurd both (by decide)

end RustyPenguin.Vmm
