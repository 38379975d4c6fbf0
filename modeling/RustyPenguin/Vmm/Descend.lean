import RustyPenguin.Vmm.Tables

/-!
# Going down the tables

The kernel reaches the table below an entry with `descend`, which takes a fresh zeroed frame
from the frame allocator when the entry is not present. What a step down, or several, can do
to the tables is `Grown`: tables and what they point to stay, the frames taken were not in
use and are blank away from the slots of the address, and no translation changes.
-/

set_option autoImplicit false

namespace RustyPenguin.Vmm

/-! ## The frame allocator -/

/-- The physical memory manager, as far as the tables need it. -/
class FrameAlloc (A : Type) where
  allocFrame : A → Option (BitVec 64 × A)

/-- An allocator that hands out frames not in use, and keeps account of them. -/
class LawfulFrameAlloc (A : Type) extends FrameAlloc A where
  InUse : A → BitVec 64 → Prop
  isFrame : ∀ {a a' : A} {f : BitVec 64}, allocFrame a = some (f, a') → IsFrame f
  unused : ∀ {a a' : A} {f : BitVec 64}, allocFrame a = some (f, a') → ¬InUse a f
  inUse_iff : ∀ {a a' : A} {f : BitVec 64}, allocFrame a = some (f, a') →
    ∀ g, InUse a' g ↔ g = f ∨ InUse a g

open LawfulFrameAlloc (InUse)

/-- Physical memory, the frame allocator, the root of the active address space and whether the
direct map of memory is up. -/
structure State (A : Type) where
  mem : Memory
  pmm : A
  cr3 : BitVec 64
  physmapReady : Bool

variable {A : Type}

section Operations

variable [FrameAlloc A]

/-- Store an entry. -/
def State.store (vm : State A) (table : BitVec 64) (idx : Fin 512) (entry : BitVec 64) : State A :=
  { vm with mem := write64 vm.mem table idx entry }

/-- Zero a frame the allocator handed out. -/
def State.take (vm : State A) (frame : BitVec 64) (pmm : A) : State A :=
  { vm with mem := zeroFrame vm.mem frame, pmm := pmm }

/-- Walk one table level, allocating a new frame if the entry is absent. -/
def State.descend (vm : State A) (table : BitVec 64) (idx : Fin 512) (flags : BitVec 64) :
    Option (BitVec 64) × State A :=
  let entry := read64 vm.mem table idx
  if entry &&& ptePresent ≠ 0 then
    if entry &&& pteHuge ≠ 0 then (none, vm) else (some (entry &&& ~~~0xFFF), vm)
  else
    match FrameAlloc.allocFrame vm.pmm with
    | none => (none, vm)
    | some (frame, pmm) => (some frame, (vm.take frame pmm).store table idx (frame ||| flags))

/-- The flags of the tables on the way to a mapped page. -/
def intermediateFlags : BitVec 64 := ptePresent ||| pteWritable ||| pteUser

/-- Map one 4 KiB page into a specific address space. -/
def State.mapPageIn (vm : State A) (pml4Phys virt phys flags : BitVec 64) : Bool × State A :=
  match vm.descend pml4Phys (pml4Idx virt) intermediateFlags with
  | (none, vm) => (false, vm)
  | (some pdpt, vm) =>
    match vm.descend pdpt (pdptIdx virt) intermediateFlags with
    | (none, vm) => (false, vm)
    | (some pd, vm) =>
      match vm.descend pd (pdIdx virt) intermediateFlags with
      | (none, vm) => (false, vm)
      | (some pt, vm) => (true, vm.store pt (ptIdx virt) (phys ||| flags ||| ptePresent))

/-- Map one 4 KiB page into the active address space. -/
def State.mapPage (vm : State A) (virt phys flags : BitVec 64) : Bool × State A :=
  vm.mapPageIn vm.cr3 virt phys flags

end Operations

/-! ## What a step down does -/

variable [LawfulFrameAlloc A] {roots : List (BitVec 64)} {vm vm' vm'' : State A}
  {virt : BitVec 64} {level : Nat} {t : BitVec 64}

/-- The tables of the roots are a forest of frames in use, and the active root is one of them. -/
structure WellFormed (roots : List (BitVec 64)) (vm : State A) : Prop where
  forest : Forest vm.mem (InUse vm.pmm) roots
  active : vm.cr3 ∈ roots

/-- Tables were added on the way of an address, and nothing else happened. -/
structure Grown (virt : BitVec 64) (roots : List (BitVec 64)) (vm vm' : State A) : Prop where
  wf : WellFormed roots vm'
  kept : ∀ {l t}, IsTable vm.mem roots l t → IsTable vm'.mem roots l t
  points : ∀ {l t i c}, IsTable vm.mem roots (l + 1) t → child vm.mem (l + 1) t i = some c →
    child vm'.mem (l + 1) t i = some c
  new : ∀ {l t i c}, IsTable vm.mem roots (l + 1) t → child vm'.mem (l + 1) t i = some c →
    child vm.mem (l + 1) t i = some c ∨ ¬InUse vm.pmm c
  frame : ∀ {l t i}, IsTable vm.mem roots l t → i ≠ index virt l →
    read64 vm'.mem t i = read64 vm.mem t i
  used : ∀ {g}, InUse vm.pmm g → InUse vm'.pmm g
  fresh : ∀ {l t}, IsTable vm'.mem roots l t → IsTable vm.mem roots l t ∨
    (¬InUse vm.pmm t ∧ ∀ i, i ≠ index virt l → read64 vm'.mem t i = 0)
  walks : ∀ {l t v}, IsTable vm.mem roots l t → walk vm'.mem v l t = walk vm.mem v l t

/-- What the tables allow is what they allowed. -/
def SameRights (virt : BitVec 64) (roots : List (BitVec 64)) (vm vm' : State A) : Prop :=
  ∀ {l t}, IsTable vm.mem roots l t → tableRights vm'.mem virt l t = tableRights vm.mem virt l t

/-- Nothing was stored in a table other than `t`. -/
def SameAway (t : BitVec 64) (roots : List (BitVec 64)) (vm vm' : State A) : Prop :=
  ∀ {l u j}, IsTable vm.mem roots l u → u ≠ t → read64 vm'.mem u j = read64 vm.mem u j

namespace Grown

theorem refl (wf : WellFormed roots vm) : Grown virt roots vm vm where
  wf := wf
  kept := id
  points _ := id
  new _ := Or.inl
  frame _ _ := rfl
  used := id
  fresh := Or.inl
  walks _ := rfl

theorem trans (first : Grown virt roots vm vm') (second : Grown virt roots vm' vm'') :
    Grown virt roots vm vm'' where
  wf := second.wf
  kept table := second.kept (first.kept table)
  points table points := second.points (first.kept table) (first.points table points)
  new table points := by
    rcases second.new (first.kept table) points with before | unused
    · exact first.new table before
    · exact Or.inr fun inUse => unused (first.used inUse)
  frame table other := (second.frame (first.kept table) other).trans (first.frame table other)
  used inUse := second.used (first.used inUse)
  fresh {l t} table := by
    obtain middle | ⟨unused, blank⟩ := second.fresh table
    · obtain old | ⟨unused, blank⟩ := first.fresh middle
      · exact Or.inl old
      · refine Or.inr ⟨unused, fun i other => ?_⟩
        rw [second.frame middle other]
        exact blank i other
    · exact Or.inr ⟨fun inUse => unused (first.used inUse), blank⟩
  walks table := (second.walks (first.kept table)).trans (first.walks table)

end Grown

/-- **Taking a frame** zeroes it, and it is in no tree. -/
structure Taken (roots : List (BitVec 64)) (vm vm' : State A) (frame : BitVec 64) : Prop where
  wf : WellFormed roots vm'
  isFrame : IsFrame frame
  unused : ¬InUse vm.pmm frame
  foreign : ∀ l, ¬IsTable vm'.mem roots l frame
  blank : ∀ j, read64 vm'.mem frame j = 0
  taken : InUse vm'.pmm frame
  used : ∀ {g}, InUse vm.pmm g → InUse vm'.pmm g
  tables : ∀ {l t}, IsTable vm'.mem roots l t ↔ IsTable vm.mem roots l t
  reads : ∀ {l t}, IsTable vm.mem roots l t → ∀ j, read64 vm'.mem t j = read64 vm.mem t j

theorem WellFormed.take (wf : WellFormed roots vm) {frame : BitVec 64} {pmm : A}
    (alloc : FrameAlloc.allocFrame vm.pmm = some (frame, pmm)) :
    Taken roots vm (vm.take frame pmm) frame := by
  have isFrame := LawfulFrameAlloc.isFrame alloc
  have unused := LawfulFrameAlloc.unused alloc
  have foreign := wf.forest.foreign unused
  have more : ∀ {g}, InUse vm.pmm g → InUse pmm g := fun inUse =>
    (LawfulFrameAlloc.inUse_iff alloc _).mpr (Or.inr inUse)
  have reads : ∀ {l u}, IsTable vm.mem roots l u → ∀ j,
      read64 (zeroFrame vm.mem frame) u j = read64 vm.mem u j := fun {l u} old j =>
    read64_zeroFrame_of_ne isFrame (wf.forest.isFrame old) fun same => foreign l (same ▸ old)
  have kept : Forest (zeroFrame vm.mem frame) (InUse pmm) roots ∧ _ := wf.forest.congr reads more
  obtain ⟨zeroed, tables⟩ := kept
  exact
    { wf := ⟨zeroed, wf.active⟩
      isFrame := isFrame
      unused := unused
      foreign := fun l isTable => foreign l ((tables l frame).mp isTable)
      blank := fun j => read64_zeroFrame_self
      taken := (LawfulFrameAlloc.inUse_iff alloc frame).mpr (Or.inl rfl)
      used := more
      tables := tables _ _
      reads := reads }

/-- Taking a frame and hanging it, zeroed, into a slot on the way of an address. -/
theorem grown_of_alloc (wf : WellFormed roots vm) (table : IsTable vm.mem roots (level + 1) t)
    (above : 0 < level) {flags frame : BitVec 64} (ok : TableFlags flags) {pmm : A}
    (absent : read64 vm.mem t (index virt (level + 1)) &&& ptePresent = 0)
    (alloc : FrameAlloc.allocFrame vm.pmm = some (frame, pmm)) :
    Grown virt roots vm ((vm.take frame pmm).store t (index virt (level + 1)) (frame ||| flags)) ∧
    child ((vm.take frame pmm).store t (index virt (level + 1)) (frame ||| flags)).mem (level + 1)
      t (index virt (level + 1)) = some frame ∧
    (Rights.of (frame ||| flags) = ⟨true, true, true⟩ →
      SameRights virt roots vm
        ((vm.take frame pmm).store t (index virt (level + 1)) (frame ||| flags))) ∧
    SameAway t roots vm ((vm.take frame pmm).store t (index virt (level + 1)) (frame ||| flags)) := by
  have taken := wf.take alloc
  have isFrame := taken.isFrame
  have zeroed := taken.wf.forest
  have table' := taken.tables.mpr table
  have absent' : read64 (vm.take frame pmm).mem t (index virt (level + 1)) &&& ptePresent = 0 := by
    rw [taken.reads table]
    exact absent
  have hangs := zeroed.hangs (i := index virt (level + 1)) table' above isFrame taken.foreign
    taken.blank ok
  have hung := zeroed.hang (i := index virt (level + 1)) table' above isFrame taken.foreign
    taken.blank ok id taken.taken
  have different : frame ≠ t := fun same => taken.foreign (level + 1) (same ▸ table')
  have elsewhere : ∀ {l u j}, IsTable vm.mem roots l u → u ≠ t ∨ j ≠ index virt (level + 1) →
      read64 ((vm.take frame pmm).store t (index virt (level + 1)) (frame ||| flags)).mem u j =
        read64 vm.mem u j := fun {l u j} old other =>
    (read64_write64_of_ne (wf.forest.isFrame table) (wf.forest.isFrame old) other).trans
      (taken.reads old j)
  have points : ∀ {l u j c}, IsTable vm.mem roots (l + 1) u → child vm.mem (l + 1) u j = some c →
      child ((vm.take frame pmm).store t (index virt (level + 1)) (frame ||| flags)).mem (l + 1)
        u j = some c := by
    intro l u j c old before
    by_cases here : u = t ∧ j = index virt (level + 1)
    · obtain ⟨rfl, rfl⟩ := here
      exact absurd absent (pointsTo_some.mp before).2.1
    · rw [child, elsewhere old (not_and_or.mp here)]
      exact before
  refine ⟨?_, hangs.points, fun full l u old => ?_, fun old other => elsewhere old (Or.inl other)⟩
  swap
  · exact (zeroed.rights_hang table' above isFrame taken.foreign taken.blank ok absent' full
      (taken.tables.mpr old)).trans (Forest.rights_congr old taken.reads)
  exact
    { wf := ⟨hung, wf.active⟩
      kept := fun old => old.mono id points
      points := points
      new := fun {l u i c} old after => by
        by_cases here : u = t ∧ i = index virt (level + 1)
        · obtain ⟨rfl, rfl⟩ := here
          have levels := wf.forest.slot_unique old table
          rw [levels] at after
          have same : frame = c := Option.some.inj (hangs.points.symm.trans after)
          exact Or.inr (same ▸ taken.unused)
        · rw [child, elsewhere old (not_and_or.mp here)] at after
          exact Or.inl after
      frame := fun {l u i} old other => by
        refine elsewhere old ?_
        by_cases same : u = t
        · subst same
          exact Or.inr (wf.forest.slot_unique old table ▸ other)
        · exact Or.inl same
      used := taken.used
      fresh := fun {l u} new => by
        obtain old | ⟨-, rfl⟩ := hangs.tables zeroed.separate new
        · exact Or.inl (taken.tables.mp old)
        · refine Or.inr ⟨taken.unused, fun i _ => ?_⟩
          exact (read64_write64_of_ne (wf.forest.isFrame table) isFrame (Or.inl different)).trans
            (taken.blank i)
      walks := fun {l u v} old => by
        refine (zeroed.walk_hang table' above isFrame taken.foreign taken.blank ok absent'
          (taken.tables.mpr old)).trans ?_
        exact wf.forest.walk_congr old fun l' u' path => taken.reads (path.table old) _ }

/-- Frames and the flags of the tables on the way give all rights. -/
theorem rights_intermediate {frame : BitVec 64} (isFrame : IsFrame frame) :
    Rights.of (frame ||| intermediateFlags) = ⟨true, true, true⟩ := by
  have upper : frame.getLsbD 63 = false := by
    by_contra bit
    exact absurd (isFrame 63 (Bool.not_eq_false _ ▸ bit)).2 (by decide)
  simp only [Rights.of, BitVec.getLsbD_or, upper]
  simp only [show intermediateFlags.getLsbD 1 = true from rfl,
    show intermediateFlags.getLsbD 2 = true from rfl,
    show intermediateFlags.getLsbD 63 = false from rfl, Bool.or_true, Bool.or_false, Bool.not_false]

theorem tableFlags_intermediate : TableFlags intermediateFlags :=
  .of_low (by decide) (by decide) (by decide)

/-- **A step down**: whether it finds the table, takes a frame or fails, the tables have only
grown, and a table found is the one the entry now points to. -/
theorem descend_spec (wf : WellFormed roots vm) (table : IsTable vm.mem roots (level + 1) t)
    (above : 0 < level) {flags : BitVec 64} (ok : TableFlags flags) {answer : Option (BitVec 64)}
    (done : vm.descend t (index virt (level + 1)) flags = (answer, vm')) :
    Grown virt roots vm vm' ∧ (∀ c, answer = some c →
      child vm'.mem (level + 1) t (index virt (level + 1)) = some c) ∧
    (flags = intermediateFlags → SameRights virt roots vm vm') ∧ SameAway t roots vm vm' := by
  rw [State.descend] at done
  by_cases present : read64 vm.mem t (index virt (level + 1)) &&& ptePresent ≠ 0
  · simp only [if_pos present] at done
    by_cases small : read64 vm.mem t (index virt (level + 1)) &&& pteHuge = 0
    · simp only [small, ne_eq, not_true_eq_false, if_false] at done
      cases done
      refine ⟨.refl wf, fun c found => ?_, fun _ _ _ _ => rfl, fun _ _ => rfl⟩
      cases found
      exact if_pos ⟨Nat.succ_le_succ above, present, small⟩
    · simp only [if_pos small] at done
      cases done
      exact ⟨.refl wf, fun c found => (nomatch found), fun _ _ _ _ => rfl, fun _ _ => rfl⟩
  · simp only [if_neg present] at done
    split at done
    · cases done
      exact ⟨.refl wf, fun c found => (nomatch found), fun _ _ _ _ => rfl, fun _ _ => rfl⟩
    · rename_i frame pmm alloc
      cases done
      obtain ⟨grown, points, rights, away⟩ :=
        grown_of_alloc wf table above ok (not_not.mp present) alloc
      refine ⟨grown, fun c found => ?_, fun flags => rights ?_, away⟩
      · cases found
        exact points
      · exact flags ▸ rights_intermediate (LawfulFrameAlloc.isFrame alloc)

/-- Tables were added on the way of an address under a root: the tables have grown, they allow
what they allowed, and the other roots are as they were. -/
structure GrownUnder (root virt : BitVec 64) (roots : List (BitVec 64)) (vm vm' : State A) :
    Prop where
  grown : Grown virt roots vm vm'
  rights : SameRights virt roots vm vm'
  others : ∀ {r j}, r ∈ roots → r ≠ root → read64 vm'.mem r j = read64 vm.mem r j

theorem GrownUnder.trans {root : BitVec 64} (first : GrownUnder root virt roots vm vm')
    (second : GrownUnder root virt roots vm' vm'') : GrownUnder root virt roots vm vm'' where
  grown := first.grown.trans second.grown
  rights table := (second.rights (first.grown.kept table)).trans (first.rights table)
  others isRoot other := (second.others isRoot other).trans (first.others isRoot other)

/-- A step down on the way of a page that is mapped, from the root or from a table below it. -/
theorem descend_step (wf : WellFormed roots vm) (table : IsTable vm.mem roots (level + 1) t)
    (above : 0 < level) (root : BitVec 64) (under : t = root ∨ level + 1 ≠ 4)
    {answer : Option (BitVec 64)}
    (done : vm.descend t (index virt (level + 1)) intermediateFlags = (answer, vm')) :
    GrownUnder root virt roots vm vm' ∧ ∀ c, answer = some c →
      child vm'.mem (level + 1) t (index virt (level + 1)) = some c := by
  obtain ⟨grown, points, rights, away⟩ := descend_spec wf table above tableFlags_intermediate done
  refine ⟨⟨grown, rights rfl, fun {r j} isRoot other => away (.root isRoot) ?_⟩, points⟩
  rcases under with rfl | lower
  · exact other
  · rintro rfl
    exact lower (wf.forest.slot_unique table (.root isRoot))

/-- **What mapping a page does**: the tables grow on the way of the address, and then, if there
is a way down to a last table, one entry of it is stored. What every step down does and what
can be put together is done to the tables before the entry is stored. -/
theorem mapPageIn_rule (wf : WellFormed roots vm) {R : State A → State A → Prop}
    (trans : ∀ {vm₁ vm₂ vm₃}, R vm₁ vm₂ → R vm₂ vm₃ → R vm₁ vm₃)
    (step : ∀ {vm₁ vm₂ : State A} {level : Nat} {t : BitVec 64} {answer : Option (BitVec 64)},
      WellFormed roots vm₁ → IsTable vm₁.mem roots (level + 1) t → 0 < level →
      vm₁.descend t (index virt (level + 1)) intermediateFlags = (answer, vm₂) → R vm₁ vm₂)
    {root phys flags : BitVec 64} (isRoot : root ∈ roots) {ok : Bool}
    (done : vm.mapPageIn root virt phys flags = (ok, vm')) :
    ∃ vm₁, R vm vm₁ ∧ GrownUnder root virt roots vm vm₁ ∧
      ((ok = false ∧ vm' = vm₁) ∨ (ok = true ∧ ∃ pt,
        Radix.Path (child vm₁.mem) (index virt) 4 root 1 pt ∧
          vm' = vm₁.store pt (ptIdx virt) (phys ||| flags ||| ptePresent))) := by
  have top : IsTable vm.mem roots (3 + 1) root := .root isRoot
  rw [State.mapPageIn] at done
  split at done
  · rename_i vm₁ first
    cases done
    have under₁ := (descend_step wf top (by decide) root (Or.inl rfl) first).1
    exact ⟨_, step wf top (by decide) first, under₁, Or.inl ⟨rfl, rfl⟩⟩
  rename_i pdpt vm₁ first
  obtain ⟨under₁, points₁⟩ := descend_step wf top (by decide) root (Or.inl rfl) first
  have step₁ := step wf top (by decide) first
  have points₁ := points₁ pdpt rfl
  have top₁ := under₁.grown.kept top
  have table₁ : IsTable vm₁.mem roots (2 + 1) pdpt := top₁.hung points₁
  split at done
  · rename_i vm₂ second
    cases done
    obtain ⟨under₂, -⟩ :=
      descend_step under₁.grown.wf table₁ (by decide) root (Or.inr (by decide)) second
    have step₂ := step under₁.grown.wf table₁ (by decide) second
    exact ⟨_, trans step₁ step₂, under₁.trans under₂, Or.inl ⟨rfl, rfl⟩⟩
  rename_i pd vm₂ second
  obtain ⟨under₂, points₂⟩ :=
    descend_step under₁.grown.wf table₁ (by decide) root (Or.inr (by decide)) second
  have step₂ := trans step₁ (step under₁.grown.wf table₁ (by decide) second)
  have points₂ := points₂ pd rfl
  have table₂ : IsTable vm₂.mem roots (1 + 1) pd := (under₂.grown.kept table₁).hung points₂
  have under := under₁.trans under₂
  split at done
  · rename_i vm₃ third
    cases done
    obtain ⟨under₃, -⟩ :=
      descend_step under₂.grown.wf table₂ (by decide) root (Or.inr (by decide)) third
    have step₃ := trans step₂ (step under₂.grown.wf table₂ (by decide) third)
    exact ⟨_, step₃, under.trans under₃, Or.inl ⟨rfl, rfl⟩⟩
  rename_i pt vm₃ third
  cases done
  obtain ⟨under₃, points₃⟩ :=
    descend_step under₂.grown.wf table₂ (by decide) root (Or.inr (by decide)) third
  have step₃ := trans step₂ (step under₂.grown.wf table₂ (by decide) third)
  have points₃ := points₃ pt rfl
  refine ⟨vm₃, step₃, under.trans under₃, Or.inr ⟨rfl, pt, ?_, rfl⟩⟩
  -- what was found on the way is still there
  have way₁ := under₃.grown.points (under₂.grown.kept top₁) (under₂.grown.points top₁ points₁)
  have way₂ := under₃.grown.points (under₂.grown.kept table₁) points₂
  exact .down way₁ (.down way₂ (.down points₃ .here))

theorem mapPageIn_spec (wf : WellFormed roots vm) {root phys flags : BitVec 64}
    (isRoot : root ∈ roots) {ok : Bool} (done : vm.mapPageIn root virt phys flags = (ok, vm')) :
    ∃ vm₁, GrownUnder root virt roots vm vm₁ ∧
      ((ok = false ∧ vm' = vm₁) ∨ (ok = true ∧ ∃ pt,
        Radix.Path (child vm₁.mem) (index virt) 4 root 1 pt ∧
          vm' = vm₁.store pt (ptIdx virt) (phys ||| flags ||| ptePresent))) := by
  obtain ⟨vm₁, -, mapped⟩ := mapPageIn_rule (R := fun _ _ => True) wf (fun _ _ => trivial)
    (fun _ _ _ _ => trivial) isRoot done
  exact ⟨vm₁, mapped⟩

end RustyPenguin.Vmm
