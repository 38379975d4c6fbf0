import RustyPenguin.Vmm.MapPage

/-!
# Isolation of private address spaces

A private address space starts with the kernel's top entries 256 and 511 and nothing else.
Starting from any state the kernel builds, address spaces are made and pages are mapped in
any of them in any order; then the tables a private root reaches through its other entries
are reached from no other root, so a page mapped there changes no translation elsewhere.
-/

set_option autoImplicit false

namespace RustyPenguin.Vmm

open LawfulFrameAlloc (InUse)

variable {A : Type} [LawfulFrameAlloc A] {priv roots : List (BitVec 64)} {vm vm' : State A}

/-- The states that making private address spaces and mapping pages leads to, from a state the
kernel built, with the private roots and all roots. -/
inductive Spaces : List (BitVec 64) → List (BitVec 64) → State A → Prop where
  | start {roots : List (BitVec 64)} {vm : State A} (built : Built roots vm) : Spaces [] roots vm
  | newAddressSpacePrivate {priv roots : List (BitVec 64)} {vm vm' : State A} {root : BitVec 64}
      (before : Spaces priv roots vm) (done : vm.newAddressSpacePrivate = (some root, vm')) :
      Spaces (root :: priv) (root :: roots) vm'
  | mapPageIn {priv roots : List (BitVec 64)} {vm : State A} {root : BitVec 64}
      (before : Spaces priv roots vm) (isRoot : root ∈ roots) (virt phys flags : BitVec 64) :
      Spaces priv roots (vm.mapPageIn root virt phys flags).2
  | switchAddressSpace {priv roots : List (BitVec 64)} {vm : State A} {root : BitVec 64}
      (before : Spaces priv roots vm) (isRoot : root ∈ roots) :
      Spaces priv roots (vm.switchAddressSpace root)
  | elsewhere {priv roots : List (BitVec 64)} {vm vm' : State A} (before : Spaces priv roots vm)
      (other : Elsewhere roots vm vm') : Spaces priv roots vm'

/-- **Isolated**: an entry of a private root outside the shared ones points to a table that no
other root points to. -/
structure Isolated (priv roots : List (BitVec 64)) (mem : Memory) : Prop where
  isRoot : ∀ {r}, r ∈ priv → r ∈ roots
  alone : ∀ {r r' slot c}, r ∈ priv → r' ∈ roots → r' ≠ r → ¬Shared slot →
    child mem 4 r slot = some c → child mem 4 r' slot ≠ some c

/-- Roots that read the same are as isolated. -/
theorem Isolated.congr {mem mem' : Memory} (isolated : Isolated priv roots mem)
    (same : ∀ {r j}, r ∈ roots → read64 mem' r j = read64 mem r j) : Isolated priv roots mem' where
  isRoot := isolated.isRoot
  alone {r r' slot c} isPrivate isRoot other outside points := by
    rw [child, same (isolated.isRoot isPrivate)] at points
    rw [child, same isRoot]
    exact isolated.alone isPrivate isRoot other outside points

/-- Tables added under one root are fresh, so roots stay isolated. -/
theorem Isolated.grow (isolated : Isolated priv roots vm.mem) (wf : WellFormed roots vm)
    {root virt : BitVec 64} (under : GrownUnder root virt roots vm vm') :
    Isolated priv roots vm'.mem where
  isRoot := isolated.isRoot
  alone {r r' slot c} isPrivate isRoot other outside points points' := by
    have wasRoot := isolated.isRoot isPrivate
    have top : IsTable vm.mem roots (3 + 1) r := .root wasRoot
    have top' : IsTable vm.mem roots (3 + 1) r' := .root isRoot
    have used : ∀ {t}, IsTable vm.mem roots (3 + 1) t → child vm.mem 4 t slot = some c →
        InUse vm.pmm c := fun table before => (wf.forest.frame (table.hung before)).2
    -- an entry that is new points to a frame not in use before, one that is old to one in use
    rcases under.grown.new top points with before | unused
    · rcases under.grown.new top' points' with before' | unused
      · exact isolated.alone isPrivate isRoot other outside before before'
      · exact unused (used top before)
    · rcases under.grown.new top' points' with before' | unused'
      · exact unused (used top' before')
      · by_cases mine : r = root
        · have same := under.others (j := slot) isRoot (mine ▸ other)
          rw [child, same] at points'
          exact unused (used top' points')
        · have same := under.others (j := slot) wasRoot mine
          rw [child, same] at points
          exact unused (used top points)

/-- **Every state of the spaces is well formed and isolated.** -/
theorem Spaces.isolated (spaces : Spaces priv roots vm) :
    WellFormed roots vm ∧ Isolated priv roots vm.mem := by
  induction spaces with
  | start built => exact ⟨built.wellFormed, fun isPrivate => (nomatch isPrivate),
      fun isPrivate => (nomatch isPrivate)⟩
  | newAddressSpacePrivate _ done ih =>
    obtain ⟨wf, isolated⟩ := ih
    obtain ⟨wf', reads, blank⟩ := newAddressSpacePrivate_spec wf done
    refine ⟨wf', fun isPrivate => ?_, fun {r r' slot c} isPrivate isRoot other away points => ?_⟩
    · rcases List.mem_cons.mp isPrivate with rfl | was
      · exact List.mem_cons_self
      · exact List.mem_cons_of_mem _ (isolated.isRoot was)
    · have empty := blank slot (fun same => away (Or.inl same)) fun same => away (Or.inr same)
      rcases List.mem_cons.mp isPrivate with rfl | was
      · rw [child, empty, pointsTo_zero] at points
        cases points
      rcases List.mem_cons.mp isRoot with rfl | wasRoot
      · rw [child, empty, pointsTo_zero]
        exact Option.some_ne_none c |>.symm
      · rw [child, reads (.root (isolated.isRoot was))] at points
        rw [child, reads (.root wasRoot)]
        exact isolated.alone was wasRoot other away points
  | @mapPageIn priv roots vm root _ isRoot virt phys flags ih =>
    obtain ⟨wf, isolated⟩ := ih
    refine ⟨wf.mapPageIn isRoot virt phys flags, ?_⟩
    have done : vm.mapPageIn root virt phys flags =
        ((vm.mapPageIn root virt phys flags).1, (vm.mapPageIn root virt phys flags).2) := rfl
    obtain ⟨vm₁, under, ⟨-, same⟩ | ⟨-, pt, path, stored⟩⟩ := mapPageIn_spec wf isRoot done
    · rw [same]
      exact isolated.grow wf under
    · rw [stored]
      refine (isolated.grow wf under).congr fun {r j} other => ?_
      exact read64_storeLeaf under.grown.wf isRoot path (.root other) (Or.inl (by decide))
  | switchAddressSpace _ isRoot ih => exact ⟨ih.1.switchAddressSpace isRoot, ih.2⟩
  | elsewhere _ other ih =>
    exact ⟨ih.1.elsewhere other, ih.2.congr fun isRoot => other.reads (.root isRoot) _⟩

/-- **No table below a private entry is shared**: what a private root reaches through an entry
outside the shared ones, no other root reaches. -/
theorem Isolated.unshared (isolated : Isolated priv roots vm.mem) (wf : WellFormed roots vm)
    {r r' t : BitVec 64} {choose choose' : Nat → Fin 512} {level level' : Nat}
    (isPrivate : r ∈ priv) (isRoot : r' ∈ roots) (other : r' ≠ r) (outside : ¬Shared (choose 4))
    (below : level < 4) (path : Radix.Path (child vm.mem) choose 4 r level t) :
    ¬Radix.Path (child vm.mem) choose' 4 r' level' t := by
  intro path'
  have top : IsTable vm.mem roots (3 + 1) r := .root (isolated.isRoot isPrivate)
  have top' : IsTable vm.mem roots (3 + 1) r' := .root isRoot
  obtain rfl := wf.forest.slot_unique (path.table top) (path'.table top')
  obtain ⟨same, -⟩ := path.agree wf.forest.separate path' top top'
  have slot : choose 4 = choose' 4 := same 4 below (Nat.le_refl 4)
  cases path with
  | here => exact absurd below (Nat.lt_irrefl 4)
  | down points rest =>
    cases path' with
    | here => exact absurd below (Nat.lt_irrefl 4)
    | down points' rest' =>
      obtain ⟨-, joined⟩ := rest.agree wf.forest.separate rest' (top.hung points) (top'.hung points')
      have children := joined.resolve_right (by decide)
      refine isolated.alone isPrivate isRoot other outside points ?_
      have target : child vm.mem 4 r' (choose' 4) = _ := points'
      rw [slot, target, children]

/-- **A page mapped in a private address space is seen in no other one.** Whatever address spaces
were made and whatever was mapped in them before, in any order: mapping an address outside
the shared top entries in a private root changes no translation under any other root, and
the tables the private root reaches for it are reached from no other root. -/
theorem isolation_of_spaces (spaces : Spaces priv roots vm) {r r' virt phys flags : BitVec 64}
    (isPrivate : r ∈ priv) (isRoot : r' ∈ roots) (other : r' ≠ r)
    (outside : ¬Shared (pml4Idx virt)) :
    (∀ v, translate (vm.mapPageIn r virt phys flags).2.mem r' v = translate vm.mem r' v) ∧
      ∀ level t, level < 4 →
        Radix.Path (child (vm.mapPageIn r virt phys flags).2.mem) (index virt) 4 r level t →
        ∀ choose level', ¬Radix.Path (child (vm.mapPageIn r virt phys flags).2.mem) choose 4 r'
          level' t := by
  obtain ⟨wf, isolated⟩ := spaces.isolated
  have wasRoot := isolated.isRoot isPrivate
  have after := (spaces.mapPageIn wasRoot virt phys flags).isolated
  refine ⟨fun v => ?_, fun level t below path choose level' => ?_⟩
  · have done : vm.mapPageIn r virt phys flags =
        ((vm.mapPageIn r virt phys flags).1, (vm.mapPageIn r virt phys flags).2) := rfl
    obtain ⟨vm₁, under, ⟨-, same⟩ | ⟨-, pt, path, stored⟩⟩ := mapPageIn_spec wf wasRoot done
    · rw [same]
      exact under.grown.walks (.root isRoot)
    · rw [stored]
      refine (translate_storeLeaf_of_ne under.grown.wf wasRoot path isRoot ?_).trans
        (under.grown.walks (.root isRoot))
      rintro ⟨way, -⟩
      exact (isolated.grow wf under).unshared under.grown.wf isPrivate isRoot other outside
        (by decide) path way
  · exact after.2.unshared after.1 isPrivate isRoot other outside below path

/-- The theorem at the first private address space after boot and the kernel's own. -/
theorem isolation_of_spaces_small : ∃ (r : BitVec 64) (vm : State Pmm),
    small.newAddressSpacePrivate = (some r, vm) ∧
      (vm.mapPageIn r 0x40_0000 0x60000 intermediateFlags).1 = true ∧
      ∀ v, translate (vm.mapPageIn r 0x40_0000 0x60000 intermediateFlags).2.mem smallTables.pml4 v =
        translate vm.mem smallTables.pml4 v := by
  have made : (small.newAddressSpacePrivate).1 = some 0x40000 := by decide
  have done : small.newAddressSpacePrivate = (some 0x40000, (small.newAddressSpacePrivate).2) :=
    Prod.ext made rfl
  have spaces := (Spaces.start small_built).newAddressSpacePrivate done
  have outside : ¬Shared (pml4Idx 0x40_0000) := by
    rw [Shared]
    decide
  refine ⟨_, _, done, by decide, ?_⟩
  exact (isolation_of_spaces spaces List.mem_cons_self (List.mem_cons_of_mem _ List.mem_cons_self)
    (by decide) outside).1

end RustyPenguin.Vmm
