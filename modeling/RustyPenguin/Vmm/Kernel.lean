import RustyPenguin.Vmm.Mapping

/-!
# The kernel's operations on page tables

The boot stub lays out two windows, the low identity map and the kernel's own, each of 32
large pages. Afterwards the kernel extends the identity map, builds the direct map of
memory, maps pages and device memory, and makes address spaces that share top entries of
the active one. `Built` are the states and roots these operations lead to, in any order,
with whatever else the kernel does to memory and frames that belong to no table; in each of
them the tables are a forest.
-/

set_option autoImplicit false

namespace RustyPenguin.Vmm

open LawfulFrameAlloc (InUse)

variable {A : Type}

/-! ## Boot -/

/-- The tables of the boot stub. -/
structure BootTables where
  pml4 : BitVec 64
  pdpt : BitVec 64
  pd : BitVec 64
  pdptHigh : BitVec 64
  pdHigh : BitVec 64

/-- Large pages from physical address 0 on, one for each of the slots. -/
def mapWindow (mem : Memory) (pd : BitVec 64) (slots : List (Fin 512)) : Memory :=
  slots.foldl (fun mem ecx => write64 mem pd ecx (BitVec.ofNat 64 ecx <<< 21 ||| 0x83)) mem

/-- The first 32 slots of a table. -/
@[irreducible] def firstSlots : List (Fin 512) := (List.finRange 512).take 32

/-- The tables as the boot stub fills them. -/
def bootMemory (mem : Memory) (b : BootTables) : Memory :=
  let mem := write64 mem b.pml4 0 (b.pdpt ||| 0x3)
  let mem := write64 mem b.pdpt 0 (b.pd ||| 0x3)
  let mem := mapWindow mem b.pd firstSlots
  let mem := write64 mem b.pml4 511 (b.pdptHigh ||| 0x3)
  let mem := write64 mem b.pdptHigh 510 (b.pdHigh ||| 0x3)
  mapWindow mem b.pdHigh firstSlots

/-- The top entries every address space shares with the kernel. -/
def Shared (slot : Fin 512) : Prop := slot = 256 ∨ slot = 511

/-- The tables of the boot stub are different frames of the kernel image, zero at first. -/
structure BootTables.Ok (b : BootTables) (mem : Memory) (used : BitVec 64 → Prop) : Prop where
  different : [b.pml4, b.pdpt, b.pd, b.pdptHigh, b.pdHigh].Nodup
  reserved : ∀ t ∈ [b.pml4, b.pdpt, b.pd, b.pdptHigh, b.pdHigh], IsFrame t ∧ used t
  zero : ∀ t ∈ [b.pml4, b.pdpt, b.pd, b.pdptHigh, b.pdHigh], ∀ j, read64 mem t j = 0

namespace State

variable [FrameAlloc A]

/-! ## The identity map -/

/-- The low half of the active address space reaches a page directory. -/
def IdentityReady (vm : State A) : Prop :=
  ∃ pdpt pd, child vm.mem 4 vm.cr3 0 = some pdpt ∧ child vm.mem 3 pdpt 0 = some pd

/-- Add the user bit to an entry. -/
def addUser (vm : State A) (table : BitVec 64) (idx : Fin 512) : State A :=
  vm.store table idx (read64 vm.mem table idx ||| pteUser)

def extendEntries (pd : BitVec 64) : List (Fin 512) → State A → State A
  | [], vm => vm
  | i :: rest, vm =>
    if read64 vm.mem pd i &&& ptePresent ≠ 0 then extendEntries pd rest (vm.addUser pd i)
    else
      let phys := BitVec.ofNat 64 i * 2 * 1024 * 1024
      extendEntries pd rest
        (vm.store pd i (phys ||| pteHuge ||| pteWritable ||| pteUser ||| ptePresent))

/-- Extend the boot identity map up to `limitMib` MiB. -/
def extendIdentityMap (vm : State A) (limitMib : Nat) : State A :=
  let pml4 := vm.cr3
  let pdpt := tableOf (read64 vm.mem pml4 0)
  let vm := vm.addUser pml4 0
  let pd := tableOf (read64 vm.mem pdpt 0)
  let vm := vm.addUser pdpt 0
  let entries := min (limitMib / 2) 511
  extendEntries pd ((List.finRange 512).take (entries + 1)) vm

/-! ## The direct map -/

def physmapBase : BitVec 64 := 0xFFFF_8000_0000_0000

def physToVirt (phys : BitVec 64) : BitVec 64 := physmapBase + phys

/-- Fill a page directory with the next large pages, up to `total`. -/
def fillPd (pd : BitVec 64) (total : Nat) : List (Fin 512) → Nat → State A → Nat × State A
  | [], mapped, vm => (mapped, vm)
  | i :: rest, mapped, vm =>
    if mapped < total then
      let phys := BitVec.ofNat 64 mapped * 0x20_0000
      fillPd pd total rest (mapped + 1)
        (vm.store pd i (phys ||| pteHuge ||| ptePresent ||| pteWritable))
    else (mapped, vm)

/-- Add page directories until `total` large pages are mapped. False when frames run out. -/
def fillPdpt (pdpt : BitVec 64) (total : Nat) : List (Fin 512) → Nat → State A → Bool × State A
  | [], _, vm => (true, vm)
  | i :: rest, mapped, vm =>
    if mapped < total then
      match FrameAlloc.allocFrame vm.pmm with
      | none => (false, vm)
      | some (pd, pmm) =>
        let (mapped, vm) := fillPd pd total (List.finRange 512) mapped
          ((vm.take pd pmm).store pdpt i (pd ||| ptePresent ||| pteWritable))
        fillPdpt pdpt total rest mapped vm
    else (true, vm)

/-- Build the direct map of `limitMib` MiB of memory, once. -/
def buildPhysmap (vm : State A) (limitMib : Nat) : State A :=
  if vm.physmapReady then vm
  else
    match FrameAlloc.allocFrame vm.pmm with
    | none => vm
    | some (pdpt, pmm) =>
      let vm := (vm.take pdpt pmm).store vm.cr3 (pml4Idx physmapBase)
        (pdpt ||| ptePresent ||| pteWritable)
      match fillPdpt pdpt (limitMib / 2) (List.finRange 512) 0 vm with
      | (false, vm) => vm
      | (true, vm) => { vm with physmapReady := true }

/-! ## Device memory -/

/-- Map `count` large pages from physical address `p` on into the higher half. -/
def mapMmioLoop (u : BitVec 64) (user : Bool) : (count : Nat) → BitVec 64 → State A → State A
  | 0, _, vm => vm
  | count + 1, p, vm =>
    let v := physToVirt p
    let pml4 := vm.cr3
    match vm.descend pml4 (pml4Idx v) (ptePresent ||| pteWritable ||| u) with
    | (none, vm) => vm
    | (some pdpt, vm) =>
      let vm := if user then vm.addUser pml4 (pml4Idx v) else vm
      match vm.descend pdpt (pdptIdx v) (ptePresent ||| pteWritable ||| u) with
      | (none, vm) => vm
      | (some pd, vm) =>
        mapMmioLoop u user count (p + 0x20_0000)
          (vm.store pd (pdIdx v) (p ||| pteHuge ||| ptePresent ||| pteWritable ||| u))

/-- Map a physical range of device memory into the higher half, with large pages. -/
def mapMmioHigh (vm : State A) (phys size : BitVec 64) (user : Bool) : State A :=
  let huge : BitVec 64 := 0x20_0000
  let u := if user then pteUser else 0
  let start := phys &&& ~~~(huge - 1)
  let stop := (phys + size + huge - 1) &&& ~~~(huge - 1)
  mapMmioLoop u user ((stop.toNat - start.toNat) / huge.toNat) start vm

/-! ## Address spaces -/

/-- Copy an entry of the active root into a new one. -/
def shareEntry (vm : State A) (pml4 : BitVec 64) (idx : Fin 512) : State A :=
  vm.store pml4 idx (read64 vm.mem vm.cr3 idx)

/-- A root for a new process that shares the kernel's entries and the low identity map. -/
def newAddressSpace (vm : State A) : Option (BitVec 64) × State A :=
  match FrameAlloc.allocFrame vm.pmm with
  | none => (none, vm)
  | some (pml4, pmm) =>
    (some pml4,
      (((vm.take pml4 pmm).shareEntry pml4 0).shareEntry pml4 256).shareEntry pml4 511)

/-- A root for a new process with a private low half: it shares the kernel's entries only. -/
def newAddressSpacePrivate (vm : State A) : Option (BitVec 64) × State A :=
  match FrameAlloc.allocFrame vm.pmm with
  | none => (none, vm)
  | some (pml4, pmm) =>
    (some pml4, ((vm.take pml4 pmm).shareEntry pml4 256).shareEntry pml4 511)

/-- Make a root the active one. -/
def switchAddressSpace (vm : State A) (pml4Phys : BitVec 64) : State A :=
  { vm with cr3 := pml4Phys &&& ~~~0xFFF }

end State

/-! ## The states the operations lead to -/

section Built

variable [LawfulFrameAlloc A]

/-- What the rest of the kernel may do: anything that leaves the words of the tables alone and
does not give the frames of tables away. -/
structure Elsewhere (roots : List (BitVec 64)) (vm vm' : State A) : Prop where
  reads : ∀ {l t}, IsTable vm.mem roots l t → ∀ j, read64 vm'.mem t j = read64 vm.mem t j
  used : ∀ {l t}, IsTable vm.mem roots l t → InUse vm'.pmm t
  active : vm'.cr3 = vm.cr3

/-- States and the roots in them, as the kernel's operations build them from boot. -/
inductive Built : List (BitVec 64) → State A → Prop where
  | boot {b : BootTables} {mem : Memory} {pmm : A} (ok : b.Ok mem (InUse pmm)) :
      Built [b.pml4] ⟨bootMemory mem b, pmm, b.pml4, false⟩
  | extendIdentityMap {roots vm} (built : Built roots vm) (ready : vm.IdentityReady)
      (limitMib : Nat) : Built roots (vm.extendIdentityMap limitMib)
  | buildPhysmap {roots vm} (built : Built roots vm) (limitMib : Nat) :
      Built roots (vm.buildPhysmap limitMib)
  | mapMmioHigh {roots vm} (built : Built roots vm) (phys size : BitVec 64) (user : Bool) :
      Built roots (vm.mapMmioHigh phys size user)
  | mapPageIn {roots vm root} (built : Built roots vm) (isRoot : root ∈ roots)
      (virt phys flags : BitVec 64) : Built roots (vm.mapPageIn root virt phys flags).2
  | newAddressSpace {roots vm root vm'} (built : Built roots vm)
      (done : vm.newAddressSpace = (some root, vm')) : Built (root :: roots) vm'
  | newAddressSpacePrivate {roots vm root vm'} (built : Built roots vm)
      (done : vm.newAddressSpacePrivate = (some root, vm')) : Built (root :: roots) vm'
  | switchAddressSpace {roots vm root} (built : Built roots vm) (isRoot : root ∈ roots) :
      Built roots (vm.switchAddressSpace root)
  | elsewhere {roots vm vm'} (built : Built roots vm) (other : Elsewhere roots vm vm') :
      Built roots vm'

/-- Mapping a page in the active address space is one of them. -/
theorem Built.mapPage {roots : List (BitVec 64)} {vm : State A} (built : Built roots vm)
    (active : vm.cr3 ∈ roots) (virt phys flags : BitVec 64) :
    Built roots (vm.mapPage virt phys flags).2 :=
  built.mapPageIn active virt phys flags

end Built

/-! ## Each keeps the forest -/

section Keeps

variable [LawfulFrameAlloc A] {roots : List (BitVec 64)} {vm vm' : State A} {level : Nat}
  {t : BitVec 64} {i : Fin 512}

/-- The tables of a level and above are still tables. -/
def KeepsFrom (level : Nat) (roots : List (BitVec 64)) (vm vm' : State A) : Prop :=
  ∀ {l t}, level ≤ l → IsTable vm.mem roots l t → IsTable vm'.mem roots l t

theorem WellFormed.store (wf : WellFormed roots vm) (table : IsTable vm.mem roots level t)
    {entry : BitVec 64} (same : pointsTo level entry = none ∨
      pointsTo level entry = pointsTo level (read64 vm.mem t i) ∧ Narrow entry) :
    WellFormed roots (vm.store t i entry) ∧ KeepsFrom level roots vm (vm.store t i entry) := by
  refine ⟨⟨(wf.forest.store table same).1, wf.active⟩, fun {l u} high old => ?_⟩
  refine Radix.Table.mono_above (fun {l u j c} high above points => ?_) high old
  have levels : u ≠ t := by
    rintro rfl
    have := wf.forest.slot_unique above table
    omega
  rw [child, State.store, read64_write64_of_ne (wf.forest.isFrame table)
    (wf.forest.isFrame above) (Or.inl levels)]
  exact points

theorem userBit (k : Nat) : pteUser.getLsbD k = decide (k = 2) := by
  by_cases inside : k < 64
  · exact (by decide : ∀ k, k < 64 → pteUser.getLsbD k = decide (k = 2)) k inside
  · rw [BitVec.getLsbD_of_ge _ _ (Nat.le_of_not_lt inside)]
    exact (decide_eq_false (by omega)).symm

/-- The user bit has no part in where an entry points. -/
theorem or_user_and {entry mask : BitVec 64} (clear : mask.getLsbD 2 = false) :
    (entry ||| pteUser) &&& mask = entry &&& mask := by
  refine BitVec.eq_of_getLsbD_eq fun k _ => ?_
  simp only [BitVec.getLsbD_and, BitVec.getLsbD_or, userBit]
  by_cases second : k = 2
  · subst second
    simp only [clear, Bool.and_false]
  · simp only [decide_eq_false second, Bool.or_false]

theorem pointsTo_or_user (entry : BitVec 64) :
    pointsTo level (entry ||| pteUser) = pointsTo level entry := by
  rw [pointsTo, pointsTo, or_user_and (by decide), or_user_and (by decide), tableOf, tableOf,
    or_user_and (by decide)]

theorem WellFormed.addUser (wf : WellFormed roots vm) (table : IsTable vm.mem roots level t) :
    WellFormed roots (vm.addUser t i) ∧
      (∀ {l u}, IsTable vm.mem roots l u → IsTable (vm.addUser t i).mem roots l u) ∧
      ∀ {l u j}, IsTable vm.mem roots l u →
        child (vm.addUser t i).mem l u j = child vm.mem l u j := by
  have children : ∀ {l u j}, IsTable vm.mem roots l u →
      child (vm.addUser t i).mem l u j = child vm.mem l u j := by
    intro l u j other
    by_cases here : u = t ∧ j = i
    · obtain ⟨rfl, rfl⟩ := here
      rw [child, State.addUser, State.store, read64_write64_self, pointsTo_or_user]
      rfl
    · rw [child, State.addUser, State.store, read64_write64_of_ne (wf.forest.isFrame table)
        (wf.forest.isFrame other) (not_and_or.mp here)]
      rfl
  refine ⟨?_, fun other => other.mono id fun above points => (children above).trans points, children⟩
  refine (wf.store table ?_).1
  cases points : pointsTo level (read64 vm.mem t i) with
  | none => exact Or.inl ((pointsTo_or_user _).trans points)
  | some c =>
    have upper : 2 ≤ level := (pointsTo_some.mp points).1
    obtain ⟨below, rfl⟩ : ∃ below, level = below + 1 := ⟨level - 1, by omega⟩
    refine Or.inr ⟨(pointsTo_or_user _).trans points, fun k bit => ?_⟩
    rw [BitVec.getLsbD_or, userBit, Bool.or_eq_true, decide_eq_true_eq] at bit
    rcases bit with bit | rfl
    · exact wf.forest.narrow table points k bit
    · decide

/-- A fresh table in a slot. -/
theorem WellFormed.hang (wf : WellFormed roots vm) (table : IsTable vm.mem roots (level + 1) t)
    (above : 0 < level) {frame : BitVec 64} {pmm : A}
    (alloc : FrameAlloc.allocFrame vm.pmm = some (frame, pmm)) {flags : BitVec 64}
    (ok : TableFlags flags) :
    WellFormed roots ((vm.take frame pmm).store t i (frame ||| flags)) ∧
      IsTable ((vm.take frame pmm).store t i (frame ||| flags)).mem roots level frame ∧
      KeepsFrom (level + 1) roots vm ((vm.take frame pmm).store t i (frame ||| flags)) := by
  have taken := wf.take alloc
  have table' := taken.tables.mpr table
  have kept : KeepsFrom (level + 1) roots vm ((vm.take frame pmm).store t i (frame ||| flags)) := by
    intro l u high old
    refine Radix.Table.mono_above (fun {l u j c} high above points => ?_) high
      (taken.tables.mpr old)
    have levels : u ≠ t := by
      rintro rfl
      have := taken.wf.forest.slot_unique above table'
      omega
    rw [child, State.store, read64_write64_of_ne (wf.forest.isFrame table)
      (taken.wf.forest.isFrame above) (Or.inl levels)]
    exact points
  have hangs := taken.wf.forest.hangs (i := i) table' above taken.isFrame taken.foreign taken.blank ok
  refine ⟨⟨?_, wf.active⟩, (kept (Nat.le_refl _) table).hung hangs.points, kept⟩
  exact taken.wf.forest.hang table' above taken.isFrame taken.foreign taken.blank ok id taken.taken

theorem tableFlags_kernel : TableFlags (ptePresent ||| pteWritable) :=
  .of_low (by decide) (by decide) (by decide)

/-- A large page points to no table. -/
theorem pointsTo_huge {entry : BitVec 64} (huge : entry.getLsbD 7 = true) :
    pointsTo level entry = none := by
  refine if_neg fun ⟨_, _, small⟩ => ?_
  have bit := congrArg (fun x : BitVec 64 => x.getLsbD 7) small
  rw [BitVec.getLsbD_and, huge] at bit
  exact absurd bit (by decide)

theorem extendEntries_keeps {pd : BitVec 64} : ∀ (slots : List (Fin 512)) {vm : State A},
    WellFormed roots vm → IsTable vm.mem roots 2 pd →
      WellFormed roots (State.extendEntries pd slots vm)
  | [], _, wf, _ => wf
  | i :: rest, vm, wf, table => by
      rw [State.extendEntries]
      split
      · obtain ⟨wf', kept, -⟩ := wf.addUser (i := i) table
        exact extendEntries_keeps rest wf' (kept table)
      · have nowhere : pointsTo 2 (BitVec.ofNat 64 i * 2 * 1024 * 1024 ||| pteHuge ||| pteWritable |||
            pteUser ||| ptePresent) = none := pointsTo_huge (by
          simp only [BitVec.getLsbD_or, show pteHuge.getLsbD 7 = true from rfl, Bool.or_true,
            Bool.true_or])
        obtain ⟨wf', kept⟩ := wf.store (i := i) table (Or.inl nowhere)
        exact extendEntries_keeps rest wf' (kept (Nat.le_refl 2) table)

theorem WellFormed.extendIdentityMap (wf : WellFormed roots vm) (ready : vm.IdentityReady)
    (limitMib : Nat) : WellFormed roots (vm.extendIdentityMap limitMib) := by
  obtain ⟨pdpt, pd, first, second⟩ := ready
  have top : IsTable vm.mem roots (3 + 1) vm.cr3 := .root wf.active
  have table₁ := top.hung first
  obtain ⟨wf₁, kept₁, same₁⟩ := wf.addUser (i := 0) top
  have second' := (same₁ (j := 0) table₁).trans second
  have table₂ := (kept₁ table₁).hung second'
  obtain ⟨wf₂, kept₂, -⟩ := wf₁.addUser (i := 0) (kept₁ table₁)
  obtain ⟨-, -, -, target₁⟩ := pointsTo_some.mp first
  obtain ⟨-, -, -, target₂⟩ := pointsTo_some.mp second'
  rw [State.extendIdentityMap]
  simp only [target₁, target₂]
  exact extendEntries_keeps _ wf₂ (kept₂ table₂)

theorem fillPd_keeps {pd : BitVec 64} (total : Nat) : ∀ (slots : List (Fin 512)) (mapped : Nat)
    {vm : State A}, WellFormed roots vm → IsTable vm.mem roots 2 pd →
      WellFormed roots (State.fillPd pd total slots mapped vm).2 ∧
        KeepsFrom 2 roots vm (State.fillPd pd total slots mapped vm).2
  | [], _, _, wf, _ => ⟨wf, fun _ old => old⟩
  | i :: rest, mapped, vm, wf, table => by
      rw [State.fillPd]
      split
      · have nowhere : pointsTo 2 (BitVec.ofNat 64 mapped * 0x20_0000 ||| pteHuge ||| ptePresent |||
            pteWritable) = none := pointsTo_huge (by
          simp only [BitVec.getLsbD_or, show pteHuge.getLsbD 7 = true from rfl, Bool.or_true,
            Bool.true_or])
        obtain ⟨wf₁, kept₁⟩ := wf.store (i := i) table (Or.inl nowhere)
        have later := fillPd_keeps total rest (mapped + 1) wf₁ (kept₁ (Nat.le_refl 2) table)
        exact ⟨later.1, fun high old => later.2 high (kept₁ high old)⟩
      · exact ⟨wf, fun _ old => old⟩

theorem fillPdpt_keeps {pdpt : BitVec 64} {total : Nat} : ∀ (slots : List (Fin 512)) {mapped : Nat}
    {vm : State A}, WellFormed roots vm → IsTable vm.mem roots 3 pdpt →
      WellFormed roots (State.fillPdpt pdpt total slots mapped vm).2
  | [], _, _, wf, _ => wf
  | i :: rest, mapped, vm, wf, table => by
      rw [State.fillPdpt]
      split
      · split
        · exact wf
        · rename_i pd pmm alloc
          have hung := wf.hang (i := i) table (by decide) alloc tableFlags_kernel
          rw [← BitVec.or_assoc] at hung
          obtain ⟨wf₁, table₁, kept₁⟩ := hung
          have filled := fillPd_keeps total (List.finRange 512) mapped wf₁ table₁
          have here := filled.2 (by decide) (kept₁ (by decide) table)
          generalize State.fillPd pd total (List.finRange 512) mapped _ = result at filled here ⊢
          obtain ⟨mapped', vm'⟩ := result
          exact fillPdpt_keeps rest filled.1 here
      · exact wf

theorem WellFormed.buildPhysmap (wf : WellFormed roots vm) (limitMib : Nat) :
    WellFormed roots (vm.buildPhysmap limitMib) := by
  rw [State.buildPhysmap]
  split
  · exact wf
  split
  · exact wf
  rename_i pdpt pmm alloc
  have hung := wf.hang (i := pml4Idx State.physmapBase) (.root wf.active) (by decide) alloc
    tableFlags_kernel
  rw [← BitVec.or_assoc] at hung
  have filled : WellFormed roots (State.fillPdpt pdpt (limitMib / 2) (List.finRange 512) 0
      ((vm.take pdpt pmm).store vm.cr3 (pml4Idx State.physmapBase)
        (pdpt ||| ptePresent ||| pteWritable))).2 :=
    fillPdpt_keeps _ hung.1 hung.2.1
  dsimp only
  split
  · rename_i result
    rw [result] at filled
    exact filled
  · rename_i result
    rw [result] at filled
    exact ⟨filled.forest, filled.active⟩

theorem tableFlags_mmio (user : Bool) :
    TableFlags (ptePresent ||| pteWritable ||| if user then pteUser else 0) := by
  cases user with
  | true => exact tableFlags_intermediate
  | false => exact .of_low (by decide) (by decide) (by decide)

theorem mapMmioLoop_keeps {user : Bool} : ∀ (count : Nat) {p : BitVec 64} {vm : State A},
    WellFormed roots vm →
      WellFormed roots (State.mapMmioLoop (if user then pteUser else 0) user count p vm)
  | 0, _, _, wf => wf
  | count + 1, p, vm, wf => by
      have top : IsTable vm.mem roots (3 + 1) vm.cr3 := .root wf.active
      rw [State.mapMmioLoop]
      dsimp only
      split
      · rename_i vm₁ first
        exact (descend_spec wf top (by decide) (tableFlags_mmio user) first).1.wf
      rename_i pdpt vm₁ first
      obtain ⟨grown₁, points₁, -, -⟩ := descend_spec wf top (by decide) (tableFlags_mmio user) first
      have top₁ := grown₁.kept top
      have table₁ : IsTable vm₁.mem roots (2 + 1) pdpt := top₁.hung (points₁ pdpt rfl)
      -- the entry of the root gets the user bit, which moves no table
      obtain ⟨wf₂, table₂⟩ : WellFormed roots (if user then
            vm₁.addUser vm.cr3 (pml4Idx (State.physToVirt p)) else vm₁) ∧
          IsTable (if user then vm₁.addUser vm.cr3 (pml4Idx (State.physToVirt p)) else vm₁).mem
            roots (2 + 1) pdpt := by
        cases user with
        | true =>
          obtain ⟨wf₂, kept₂, -⟩ := grown₁.wf.addUser (i := pml4Idx (State.physToVirt p)) top₁
          exact ⟨wf₂, kept₂ table₁⟩
        | false => exact ⟨grown₁.wf, table₁⟩
      generalize (if user = true then vm₁.addUser vm.cr3 (pml4Idx (State.physToVirt p)) else vm₁) =
        vm₂ at wf₂ table₂
      split
      · rename_i vm₃ second
        exact (descend_spec wf₂ table₂ (by decide) (tableFlags_mmio user) second).1.wf
      rename_i pd vm₃ second
      obtain ⟨grown₃, points₃, -, -⟩ :=
        descend_spec wf₂ table₂ (by decide) (tableFlags_mmio user) second
      have table₃ : IsTable vm₃.mem roots 2 pd := (grown₃.kept table₂).hung (points₃ pd rfl)
      have nowhere : pointsTo 2 (p ||| pteHuge ||| ptePresent ||| pteWritable |||
          if user then pteUser else 0) = none := pointsTo_huge (by
        simp only [BitVec.getLsbD_or, show pteHuge.getLsbD 7 = true from rfl, Bool.or_true,
          Bool.true_or])
      exact mapMmioLoop_keeps count
        (grown₃.wf.store (i := pdIdx (State.physToVirt p)) table₃ (Or.inl nowhere)).1

theorem WellFormed.mapMmioHigh (wf : WellFormed roots vm) (phys size : BitVec 64) (user : Bool) :
    WellFormed roots (vm.mapMmioHigh phys size user) :=
  mapMmioLoop_keeps _ wf

theorem WellFormed.mapPageIn (wf : WellFormed roots vm) {root : BitVec 64} (isRoot : root ∈ roots)
    (virt phys flags : BitVec 64) : WellFormed roots (vm.mapPageIn root virt phys flags).2 := by
  have done : vm.mapPageIn root virt phys flags =
      ((vm.mapPageIn root virt phys flags).1, (vm.mapPageIn root virt phys flags).2) := rfl
  obtain ⟨vm₁, under, ⟨-, same⟩ | ⟨-, pt, path, stored⟩⟩ := mapPageIn_spec wf isRoot done
  · rw [same]
    exact under.grown.wf
  · rw [stored]
    exact under.grown.wf.storeLeaf isRoot path

/-- A root made of a fresh frame and copies of entries of the active root. -/
theorem WellFormed.plant (wf : WellFormed roots vm) {frame : BitVec 64} {pmm : A}
    (alloc : FrameAlloc.allocFrame vm.pmm = some (frame, pmm)) (shared : List (Fin 512)) :
    WellFormed (frame :: roots)
      (shared.foldl (fun vm idx => vm.shareEntry frame idx) (vm.take frame pmm)) ∧
    (∀ {l t}, IsTable vm.mem roots l t → ∀ j, read64
      (shared.foldl (fun vm idx => vm.shareEntry frame idx) (vm.take frame pmm)).mem t j =
        read64 vm.mem t j) ∧
    ∀ j,
      j ∈ shared ∧ read64 (shared.foldl (fun vm idx => vm.shareEntry frame idx)
          (vm.take frame pmm)).mem frame j = read64 vm.mem vm.cr3 j ∨
        j ∉ shared ∧ read64 (shared.foldl (fun vm idx => vm.shareEntry frame idx)
          (vm.take frame pmm)).mem frame j = 0 := by
  have taken := wf.take alloc
  have active : IsTable vm.mem roots 4 vm.cr3 := .root wf.active
  have different : ∀ {l t}, IsTable vm.mem roots l t → t ≠ frame := fun {l t} table same =>
    taken.foreign l (taken.tables.mpr (same ▸ table))
  -- what sharing entries one after another leaves
  have shares : ∀ (shared : List (Fin 512)) (vm' : State A), vm'.cr3 = vm.cr3 →
      (∀ {l t}, IsTable vm.mem roots l t → ∀ j, read64 vm'.mem t j = read64 vm.mem t j) →
      (shared.foldl (fun vm idx => vm.shareEntry frame idx) vm').cr3 = vm.cr3 ∧
      (shared.foldl (fun vm idx => vm.shareEntry frame idx) vm').pmm = vm'.pmm ∧
      (∀ {l t}, IsTable vm.mem roots l t → ∀ j, read64
        (shared.foldl (fun vm idx => vm.shareEntry frame idx) vm').mem t j = read64 vm.mem t j) ∧
      ∀ j, read64 (shared.foldl (fun vm idx => vm.shareEntry frame idx) vm').mem frame j =
        if j ∈ shared then read64 vm.mem vm.cr3 j else read64 vm'.mem frame j := by
    intro shared
    induction shared with
    | nil => exact fun vm' cr3 reads => ⟨cr3, rfl, reads, fun j => by simp only [List.foldl_nil,
        List.not_mem_nil, if_false]⟩
    | cons idx rest ih =>
      intro vm' cr3 reads
      have entry : read64 vm'.mem vm'.cr3 idx = read64 vm.mem vm.cr3 idx := by
        rw [cr3]
        exact reads active idx
      have step : ∀ {l t}, IsTable vm.mem roots l t → ∀ j,
          read64 (vm'.shareEntry frame idx).mem t j = read64 vm.mem t j := fun {l t} table j =>
        (read64_write64_of_ne taken.isFrame (wf.forest.isFrame table)
          (Or.inl (different table))).trans (reads table j)
      obtain ⟨cr3', pmm', reads', frame'⟩ := ih (vm'.shareEntry frame idx) cr3 step
      refine ⟨cr3', pmm', reads', fun j => ?_⟩
      rw [List.foldl_cons, frame']
      by_cases later : j ∈ rest
      · rw [if_pos later, if_pos (List.mem_cons_of_mem _ later)]
      · rw [if_neg later]
        by_cases here : j = idx
        · rw [here, if_pos List.mem_cons_self, State.shareEntry, State.store,
            read64_write64_self, entry]
        · rw [if_neg (by simp [here, later]), State.shareEntry, State.store,
            read64_write64_of_ne taken.isFrame taken.isFrame (Or.inr here)]
  obtain ⟨cr3, same, reads, copies⟩ := shares shared (vm.take frame pmm) rfl taken.reads
  refine ⟨⟨?_, by rw [cr3]; exact List.mem_cons_of_mem _ wf.active⟩, reads, fun j => ?_⟩
  · rw [same]
    refine wf.forest.plant taken.isFrame (wf.forest.foreign taken.unused) reads (fun j => ?_)
      taken.used taken.taken
    rw [copies, taken.blank]
    split
    · exact Or.inr ⟨vm.cr3, wf.active, rfl⟩
    · exact Or.inl rfl
  · rw [copies, taken.blank]
    by_cases member : j ∈ shared
    · exact Or.inl ⟨member, if_pos member⟩
    · exact Or.inr ⟨member, if_neg member⟩

theorem WellFormed.newAddressSpace (wf : WellFormed roots vm) {root : BitVec 64}
    (done : vm.newAddressSpace = (some root, vm')) : WellFormed (root :: roots) vm' := by
  rw [State.newAddressSpace] at done
  split at done
  · cases done
  · rename_i frame pmm alloc
    cases done
    exact (wf.plant alloc [0, 256, 511]).1

/-- A private address space holds the shared entries of the active root and nothing else. -/
theorem newAddressSpacePrivate_spec (wf : WellFormed roots vm) {root : BitVec 64}
    (done : vm.newAddressSpacePrivate = (some root, vm')) :
    WellFormed (root :: roots) vm' ∧
      (∀ {l t}, IsTable vm.mem roots l t → ∀ j, read64 vm'.mem t j = read64 vm.mem t j) ∧
      ∀ j, j ≠ 256 → j ≠ 511 → read64 vm'.mem root j = 0 := by
  rw [State.newAddressSpacePrivate] at done
  split at done
  · cases done
  · rename_i frame pmm alloc
    cases done
    obtain ⟨wf', reads, copies⟩ := wf.plant alloc [256, 511]
    refine ⟨wf', reads, fun j first second => ?_⟩
    rcases copies j with ⟨member, _⟩ | ⟨_, zero⟩
    · simp only [List.mem_cons, List.not_mem_nil, or_false] at member
      exact absurd member (not_or.mpr ⟨first, second⟩)
    · exact zero

theorem tableOf_frame {frame : BitVec 64} (isFrame : IsFrame frame) : tableOf frame = frame := by
  have clear : ∀ k, (0#64).getLsbD k = true → k < 12 := fun k bit => by
    rw [BitVec.getLsbD_zero] at bit
    cases bit
  have entry := tableOf_entry isFrame clear
  rwa [BitVec.or_zero] at entry

theorem WellFormed.switchAddressSpace (wf : WellFormed roots vm) {root : BitVec 64}
    (isRoot : root ∈ roots) : WellFormed roots (vm.switchAddressSpace root) where
  forest := wf.forest
  active := by
    have same : (vm.switchAddressSpace root).cr3 = root :=
      tableOf_frame (wf.forest.isFrame (.root isRoot))
    rw [same]
    exact isRoot

theorem WellFormed.elsewhere (wf : WellFormed roots vm) (other : Elsewhere roots vm vm') :
    WellFormed roots vm' := by
  obtain ⟨forest, tables⟩ := wf.forest.congr other.reads id
  refine ⟨⟨forest.separate, fun table => ?_, forest.narrow⟩, other.active ▸ wf.active⟩
  exact ⟨forest.isFrame table, other.used ((tables _ _).mp table)⟩

end Keeps

/-! ## The tables of the boot stub -/

section Boot

variable {mem : Memory} {used : BitVec 64 → Prop} {roots laid : List (BitVec 64)} {level : Nat}
  {t f : BitVec 64} {i : Fin 512}

/-- Every table is one of those laid out. -/
def Only (laid : List (BitVec 64)) (mem : Memory) (roots : List (BitVec 64)) : Prop :=
  ∀ {l t}, IsTable mem roots l t → t ∈ laid

theorem forest_root (isFrame : IsFrame t) (inUse : used t) (blank : ∀ j, read64 mem t j = 0) :
    Forest mem used [t] ∧ Only [t] mem [t] := by
  have nowhere : ∀ l j, child mem l t j = none := fun l j => by rw [child, blank, pointsTo_zero]
  have only : ∀ {l u}, IsTable mem [t] l u → u = t := fun table =>
    table.rule (P := fun _ u => u = t) List.mem_singleton.mp fun _ same points => by
      rw [same, nowhere] at points
      cases points
  have nothing : ∀ {l u j c}, IsTable mem [t] l u → child mem l u j ≠ some c := by
    intro l u j c table points
    rw [only table, nowhere] at points
    cases points
  refine ⟨⟨⟨fun table points => absurd points (nothing table),
    fun table _ points => absurd points (nothing table)⟩, fun table => ?_,
    fun table points => absurd points (nothing table)⟩, fun table => List.mem_singleton.mpr (only table)⟩
  rw [only table]
  exact ⟨isFrame, inUse⟩

theorem tableFlags_boot : TableFlags 0x3 :=
  .of_low (by decide) (by decide) (by decide)

/-- Hanging a table that was not laid out yet. -/
theorem Forest.hangBoot (forest : Forest mem used roots) (only : Only laid mem roots)
    (table : IsTable mem roots (level + 1) t) (above : 0 < level) (isFrame : IsFrame f)
    (inUse : used f) (new : f ∉ laid) (blank : ∀ j, read64 mem f j = 0) :
    Forest (write64 mem t i (f ||| 0x3)) used roots ∧
      Only (f :: laid) (write64 mem t i (f ||| 0x3)) roots ∧
      IsTable (write64 mem t i (f ||| 0x3)) roots level f := by
  have foreign : ∀ l, ¬IsTable mem roots l f := fun l isTable => new (only isTable)
  have hangs := forest.hangs (i := i) table above isFrame foreign blank tableFlags_boot
  refine ⟨forest.hang table above isFrame foreign blank tableFlags_boot id inUse, ?_, ?_⟩
  · intro l u other
    obtain old | ⟨-, rfl⟩ := hangs.tables forest.separate other
    · exact List.mem_cons_of_mem _ (only old)
    · exact List.mem_cons_self
  · refine Radix.Table.hung ?_ hangs.points
    refine Radix.Table.mono_above (fun {l u j c} high above points => ?_) (Nat.le_refl _) table
    have levels : u ≠ t := by
      rintro rfl
      have := forest.slot_unique above table
      omega
    rw [child, read64_write64_of_ne (forest.isFrame table) (forest.isFrame above) (Or.inl levels)]
    exact points

/-- Filling a page directory with large pages. -/
theorem Forest.mapWindow : ∀ (slots : List (Fin 512)) {mem : Memory}, Forest mem used roots →
    Only laid mem roots → IsTable mem roots 2 t →
      Forest (mapWindow mem t slots) used roots ∧ Only laid (mapWindow mem t slots) roots
  | [], _, forest, only, _ => ⟨forest, only⟩
  | ecx :: rest, mem, forest, only, table => by
      have nowhere : pointsTo 2 (BitVec.ofNat 64 ecx <<< 21 ||| 0x83) = none := pointsTo_huge (by
        rw [BitVec.getLsbD_or, show (0x83 : BitVec 64).getLsbD 7 = true from rfl, Bool.or_true])
      obtain ⟨forest', old⟩ := forest.store (i := ecx) table (Or.inl nowhere)
      refine Forest.mapWindow rest forest' (fun other => only (old other)) ?_
      refine Radix.Table.mono_above (fun {l u j c} high above points => ?_) (Nat.le_refl 2) table
      have levels : u ≠ t := by
        rintro rfl
        have := forest.slot_unique above table
        omega
      rw [child, read64_write64_of_ne (forest.isFrame table) (forest.isFrame above) (Or.inl levels)]
      exact points

theorem read64_mapWindow (first : IsFrame t) (second : IsFrame f) (other : f ≠ t) :
    ∀ (slots : List (Fin 512)) (mem : Memory) (j : Fin 512),
      read64 (mapWindow mem t slots) f j = read64 mem f j
  | [], _, _ => rfl
  | ecx :: rest, mem, j => by
      refine (read64_mapWindow first second other rest _ j).trans ?_
      exact read64_write64_of_ne first second (Or.inl other)

/-- **The tables of the boot stub are a forest.** -/
theorem BootTables.Ok.forest {b : BootTables} (ok : b.Ok mem used) :
    Forest (bootMemory mem b) used [b.pml4] := by
  obtain ⟨different, reserved, zero⟩ := ok
  simp only [List.nodup_cons, List.mem_cons, List.not_mem_nil, or_false, not_or,
    not_false_eq_true, List.nodup_nil, and_true] at different
  obtain ⟨⟨d12, d13, d14, d15⟩, ⟨d23, d24, d25⟩, ⟨d34, d35⟩, d45⟩ := different
  simp only [List.forall_mem_cons, List.not_mem_nil, false_imp_iff, implies_true, and_true]
    at reserved zero
  obtain ⟨⟨f1, u1⟩, ⟨f2, u2⟩, ⟨f3, u3⟩, ⟨f4, u4⟩, ⟨f5, u5⟩⟩ := reserved
  obtain ⟨z1, z2, z3, z4, z5⟩ := zero
  -- the frames not hung yet stay blank
  have stays : ∀ {m : Memory} {t f e : BitVec 64} {i : Fin 512}, IsFrame t → IsFrame f → f ≠ t →
      (∀ j, read64 m f j = 0) → ∀ j, read64 (write64 m t i e) f j = 0 :=
    fun first second other blank j =>
      (read64_write64_of_ne first second (Or.inl other)).trans (blank j)
  obtain ⟨forest₀, only₀⟩ := forest_root f1 u1 z1
  obtain ⟨forest₁, only₁, table₁⟩ := forest₀.hangBoot (i := 0) only₀ (.root List.mem_cons_self)
    (by decide) f2 u2 (by simp [Ne.symm d12]) z2
  obtain ⟨forest₂, only₂, table₂⟩ := forest₁.hangBoot (i := 0) only₁ table₁ (by decide) f3 u3
    (by simp [Ne.symm d13, Ne.symm d23]) (stays f1 f3 (Ne.symm d13) z3)
  obtain ⟨forest₃, only₃⟩ := Forest.mapWindow firstSlots forest₂ only₂ table₂
  have blank : ∀ {f}, IsFrame f → f ≠ b.pml4 → f ≠ b.pdpt → f ≠ b.pd →
      (∀ j, read64 mem f j = 0) → ∀ j, read64 (mapWindow (write64 (write64 mem b.pml4 0
        (b.pdpt ||| 0x3)) b.pdpt 0 (b.pd ||| 0x3)) b.pd firstSlots) f j = 0 :=
    fun isFrame other₁ other₂ other₃ zero j =>
      (read64_mapWindow f3 isFrame other₃ firstSlots _ j).trans
        (stays f2 isFrame other₂ (stays f1 isFrame other₁ zero) j)
  have blank₄ := blank f4 (Ne.symm d14) (Ne.symm d24) (Ne.symm d34) z4
  have blank₅ := blank f5 (Ne.symm d15) (Ne.symm d25) (Ne.symm d35) z5
  obtain ⟨forest₄, only₄, table₄⟩ := forest₃.hangBoot (i := 511) only₃ (.root List.mem_cons_self)
    (by decide) f4 u4 (by simp [Ne.symm d14, Ne.symm d24, Ne.symm d34]) blank₄
  obtain ⟨forest₅, only₅, table₅⟩ := forest₄.hangBoot (i := 510) only₄ table₄ (by decide) f5 u5
    (by simp [Ne.symm d15, Ne.symm d25, Ne.symm d35, Ne.symm d45])
    (stays f1 f5 (Ne.symm d15) blank₅)
  exact (Forest.mapWindow firstSlots forest₅ only₅ table₅).1

end Boot

/-- **In every state the operations lead to, the tables are a forest of frames in use.** -/
theorem Built.wellFormed [LawfulFrameAlloc A] {roots : List (BitVec 64)} {vm : State A}
    (built : Built roots vm) : WellFormed roots vm := by
  induction built with
  | boot ok => exact ⟨ok.forest, List.mem_cons_self⟩
  | extendIdentityMap _ ready limitMib ih => exact ih.extendIdentityMap ready limitMib
  | buildPhysmap _ limitMib ih => exact ih.buildPhysmap limitMib
  | mapMmioHigh _ phys size user ih => exact ih.mapMmioHigh phys size user
  | mapPageIn _ isRoot virt phys flags ih => exact ih.mapPageIn isRoot virt phys flags
  | newAddressSpace _ done ih => exact ih.newAddressSpace done
  | newAddressSpacePrivate _ done ih => exact (newAddressSpacePrivate_spec ih done).1
  | switchAddressSpace _ isRoot ih => exact ih.switchAddressSpace isRoot
  | elsewhere _ other ih => exact ih.elsewhere other

end RustyPenguin.Vmm
