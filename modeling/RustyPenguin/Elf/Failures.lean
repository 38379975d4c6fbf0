import RustyPenguin.Elf.Faithful
import RustyPenguin.Vmm.Frames

/-!
# Spawns that fail

A spawn that fails returns slot 0 and leaves the scheduler as it was. The frames it took it does not
give back: the root of the new address space is taken first, and no later exit undoes that. So a
failed spawn leaves the frames as they were exactly when it failed before the first frame
(`failed_spawn_iff`).
-/

set_option autoImplicit false

namespace RustyPenguin.Elf

open Vmm (State FrameAlloc Pmm pfw Frames)
open Sched (Scheduler Slot)

/-! ## Counting frames -/

section Count

variable {A : Type} [FrameAlloc A]

/-- A count of free frames: every frame handed out is one fewer. -/
def Counts (free : A → Nat) : Prop :=
  ∀ a frame a', FrameAlloc.allocFrame a = some (frame, a') → free a' + 1 = free a

variable {free : A → Nat} {vm vm' : State A} {as_ : BitVec 64}

theorem Counts.take_le (counts : Counts free) {frame : BitVec 64} {pmm : A}
    (alloc : FrameAlloc.allocFrame vm.pmm = some (frame, pmm)) : free pmm ≤ free vm.pmm := by
  have one := counts _ _ _ alloc
  omega

theorem descend_le (counts : Counts free) (vm : State A) (table : BitVec 64) (idx : Fin 512)
    (flags : BitVec 64) : free (vm.descend table idx flags).2.pmm ≤ free vm.pmm := by
  rw [State.descend]
  split
  · split
    · exact Nat.le_refl _
    · exact Nat.le_refl _
  · split
    · exact Nat.le_refl _
    · next alloc => exact counts.take_le alloc

theorem mapPageIn_le (counts : Counts free) (vm : State A) (root virt phys flags : BitVec 64) :
    free (vm.mapPageIn root virt phys flags).2.pmm ≤ free vm.pmm := by
  rw [State.mapPageIn]
  have first := descend_le counts vm root (Vmm.pml4Idx virt) Vmm.intermediateFlags
  split
  · next vm₁ gone =>
    rw [gone] at first
    exact first
  · next pdpt vm₁ down =>
    rw [down] at first
    have second := descend_le counts vm₁ pdpt (Vmm.pdptIdx virt) Vmm.intermediateFlags
    refine Nat.le_trans ?_ first
    split
    · next vm₂ gone =>
      rw [gone] at second
      exact second
    · next pd vm₂ down =>
      rw [down] at second
      have third := descend_le counts vm₂ pd (Vmm.pdIdx virt) Vmm.intermediateFlags
      refine Nat.le_trans ?_ second
      split
      · next vm₃ gone =>
        rw [gone] at third
        exact third
      · next pt vm₃ down =>
        rw [down] at third
        exact third

theorem loadPage_le (counts : Counts free) {seg : Segment} {va : BitVec 64} {ok : Bool}
    (done : loadPage vm as_ seg va = some (ok, vm')) : free vm'.pmm ≤ free vm.pmm := by
  rw [loadPage] at done
  split at done
  · cases done
    exact Nat.le_refl _
  · next frame pmm alloc =>
    obtain ⟨⟨dstOff, bytes⟩, -, mapped⟩ := Option.map_eq_some_iff.mp done
    have same := congrArg (fun r : Bool × State A => free r.2.pmm) mapped
    refine Nat.le_trans ?_ (counts.take_le alloc)
    exact Nat.le_trans (Nat.le_of_eq same.symm) (mapPageIn_le counts _ _ _ _ _)

theorem loadPages_le (counts : Counts free) {seg : Segment} (n : Nat) :
    ∀ {vm' : State A} {ok : Bool}, loadPages vm as_ seg n = some (ok, vm') →
      free vm'.pmm ≤ free vm.pmm := by
  induction n with
  | zero =>
    intro vm' ok done
    cases done
    exact Nat.le_refl _
  | succ n ih =>
    intro vm' ok done
    rw [loadPages] at done
    split at done
    · next vm₁ before => exact Nat.le_trans (loadPage_le counts done) (ih before)
    · exact ih done

theorem loadSegments_le (counts : Counts free) {elf : File} {bias : BitVec 64}
    {table : HeaderTable} (n : Nat) : ∀ {vm' : State A} {ok : Bool},
      loadSegments vm as_ elf bias table n = some (ok, vm') → free vm'.pmm ≤ free vm.pmm := by
  induction n with
  | zero =>
    intro vm' ok done
    cases done
    exact Nat.le_refl _
  | succ n ih =>
    intro vm' ok done
    rw [loadSegments] at done
    split at done
    · next vm₁ before =>
      split at done
      · cases done
      · cases done
        exact ih before
      · exact Nat.le_trans (loadPages_le counts _ done) (ih before)
    · exact ih done

theorem loadSegmentsInto_le (counts : Counts free) {elf : File} {bias : BitVec 64} {ok : Bool}
    (done : loadSegmentsInto vm as_ elf bias = some (ok, vm')) : free vm'.pmm ≤ free vm.pmm := by
  rw [loadSegmentsInto] at done
  split at done
  · cases done
  · exact loadSegments_le counts _ done

theorem mapStack_le (counts : Counts free) (vm : State A) (as_ bottom : BitVec 64) (n : Nat) :
    free (mapStack vm as_ bottom n).2.pmm ≤ free vm.pmm := by
  induction n with
  | zero => exact Nat.le_refl _
  | succ n ih =>
    rw [mapStack]
    split
    · next vm₁ before =>
      rw [before] at ih
      exact ih
    · next vm₁ before =>
      rw [before] at ih
      refine Nat.le_trans ?_ ih
      split
      · exact Nat.le_refl _
      · next alloc =>
        exact Nat.le_trans (mapPageIn_le counts _ _ _ _ _) (counts.take_le alloc)

theorem linuxStack_le (counts : Counts free) (vm : State A) (ticks : BitVec 64)
    (words : List (BitVec 64)) : free (linuxStack as_ ticks words vm).2.pmm ≤ free vm.pmm := by
  have stack := mapStack_le counts vm as_ (stackBottom userStackTop userStackPages)
    userStackPages
  rw [linuxStack]
  cases result : mapStack vm as_ (stackBottom userStackTop userStackPages) userStackPages with
  | mk top vm₁ =>
    rw [result] at stack
    cases top with
    | none => exact stack
    | some frame => exact stack

/-! ## The spaces of programs -/

/-- Making a space takes a frame before anything else, and ends there if there is none. -/
def TakesRoot (free : A → Nat) (build : State A → Option (Option (BitVec 64) × State A)) : Prop :=
  ∀ vm space vm', build vm = some (space, vm') →
    (FrameAlloc.allocFrame vm.pmm = none ∧ vm' = vm) ∨
      (FrameAlloc.allocFrame vm.pmm ≠ none ∧ free vm'.pmm < free vm.pmm)

/-- What is done in a new space comes after the frame of its root. -/
theorem takesRoot_of_rest (counts : Counts free)
    {build : State A → Option (Option (BitVec 64) × State A)}
    (none : ∀ vm vm₁, vm.newAddressSpacePrivate = (.none, vm₁) → build vm = some (.none, vm₁))
    (fewer : ∀ vm as_ vm₁, vm.newAddressSpacePrivate = (some as_, vm₁) → ∀ space vm',
      build vm = some (space, vm') → free vm'.pmm ≤ free vm₁.pmm) : TakesRoot free build := by
  intro vm space vm' done
  cases alloc : FrameAlloc.allocFrame vm.pmm with
  | none =>
    have made : vm.newAddressSpacePrivate = (.none, vm) := by rw [State.newAddressSpacePrivate, alloc]
    rw [none vm vm made] at done
    cases done
    exact .inl ⟨rfl, rfl⟩
  | some taken =>
    obtain ⟨pml4, pmm⟩ := taken
    have made : vm.newAddressSpacePrivate =
        (some pml4, ((vm.take pml4 pmm).shareEntry pml4 256).shareEntry pml4 511) := by
      rw [State.newAddressSpacePrivate, alloc]
    have one := counts _ _ _ alloc
    have after : free vm'.pmm ≤ free pmm := fewer _ _ _ made _ _ done
    exact .inr ⟨Option.some_ne_none _, by omega⟩

theorem takesRoot_ring3 (counts : Counts free) (elf : File) (stackTop : BitVec 64)
    (stackPages : Nat) (fbFrame : BitVec 64) :
    TakesRoot free (ring3ElfSpace elf stackTop stackPages fbFrame) := by
  refine takesRoot_of_rest counts ?_ ?_
  · intro vm vm₁ made
    rw [ring3ElfSpace, made]
  · intro vm as_ vm₁ made space vm' done
    rw [ring3ElfSpace, made] at done
    dsimp only at done
    split at done
    · cases done
    · next vm₂ loaded =>
      cases done
      exact loadSegmentsInto_le counts loaded
    · next vm₂ loaded =>
      refine Nat.le_trans ?_ (loadSegmentsInto_le counts loaded)
      have stack := mapStack_le counts vm₂ as_ (stackBottom stackTop stackPages)
        (stackCount stackTop stackPages)
      split at done
      · next vm₃ result =>
        rw [result] at stack
        cases done
        exact stack
      · next top vm₃ result =>
        rw [result] at stack
        cases done
        refine Nat.le_trans ?_ stack
        split
        · exact Nat.le_refl _
        · exact mapPageIn_le counts _ _ _ _ _

theorem takesRoot_linuxStatic (counts : Counts free) (elf : File) (ticks : BitVec 64) :
    TakesRoot free (linuxStaticSpace elf ticks) := by
  refine takesRoot_of_rest counts ?_ ?_
  · intro vm vm₁ made
    rw [linuxStaticSpace, made]
  · intro vm as_ vm₁ made space vm' done
    rw [linuxStaticSpace, made] at done
    dsimp only at done
    split at done
    · next vm₂ loaded =>
      refine Nat.le_trans ?_ (loadSegmentsInto_le counts loaded)
      have result := Option.some.inj done
      have same := congrArg (fun r : Option (BitVec 64) × State A => free r.2.pmm) result
      exact Nat.le_trans (Nat.le_of_eq same.symm) (linuxStack_le counts _ _ _)
    · next vm₂ loaded =>
      cases done
      exact loadSegmentsInto_le counts loaded
    · cases done

theorem takesRoot_linuxDyn (counts : Counts free) (ramfs : File → Option File) (elf : File)
    (ticks : BitVec 64) : TakesRoot free (linuxDynSpace ramfs elf ticks) := by
  refine takesRoot_of_rest counts ?_ ?_
  · intro vm vm₁ made
    rw [linuxDynSpace, made]
  · intro vm as_ vm₁ made space vm' done
    have stack : ∀ {vm₂ : State A} {words : List (BitVec 64)},
        some (linuxStack as_ ticks words vm₂) = some (space, vm') →
          free vm'.pmm ≤ free vm₂.pmm := by
      intro vm₂ words result
      have same := congrArg (fun r : Option (BitVec 64) × State A => free r.2.pmm)
        (Option.some.inj result)
      exact Nat.le_trans (Nat.le_of_eq same.symm) (linuxStack_le counts _ _ _)
    rw [linuxDynSpace, made] at done
    dsimp only at done
    split at done
    · next vm₂ loaded =>
      refine Nat.le_trans ?_ (loadSegmentsInto_le counts loaded)
      split at done
      · cases done
      · exact stack done
      · cases done
        exact Nat.le_refl _
      · split at done
        · cases done
        · next vm₃ interp =>
          cases done
          exact loadSegmentsInto_le counts interp
        · next vm₃ interp => exact Nat.le_trans (stack done) (loadSegmentsInto_le counts interp)
    · next vm₂ loaded =>
      cases done
      exact loadSegmentsInto_le counts loaded
    · cases done

end Count

/-! ## Spawns -/

namespace Call

/-- The file passes the first checks. -/
def accepts (elf : File) : Call → Bool
  | ring3 _ _ _ | linuxDyn _ => isElf elf
  | linuxStatic _ => isElf elf && rdU16 elf 16 = some 2

end Call

/-- A spawn that cannot work is found out before a frame is taken: the file fails the first checks, no
slot is free, or there is no frame. -/
def FailsEarly {A : Type} [FrameAlloc A] (call : Call) (elf : File) (vm : State A)
    (s : Scheduler) : Prop :=
  call.accepts elf = false ∨ s.firstFree = none ∨ FrameAlloc.allocFrame vm.pmm = none

section Spawn

variable {A : Type} [FrameAlloc A] {free : A → Nat} {vm vm' : State A} {s s' : Scheduler}

/-- A scheduler that gives no slot had none, or was given no space, and is as it was. -/
theorem spawnWith_zero {words gsBase : UInt64} {space : Option UInt64}
    {mark : Slot → Scheduler → Scheduler}
    (failed : s.spawnWith words space gsBase mark = (0, s')) (slot : s.firstFree ≠ none) :
    space = none ∧ s' = s := by
  obtain ⟨i, found⟩ := Option.ne_none_iff_exists'.mp slot
  unfold Scheduler.spawnWith at failed
  rw [found] at failed
  cases space with
  | none =>
    cases failed
    exact ⟨rfl, rfl⟩
  | some cr3 =>
    have zero : i = 0 := congrArg Prod.fst failed
    have nonzero := of_decide_eq_true (Fin.find?_eq_some_iff.mp found).1
    exact absurd zero nonzero.1

/-- A failed spawn leaves the scheduler, and the frames exactly when it failed early. -/
theorem failed_of_takesRoot {build : State A → Option (Option (BitVec 64) × State A)}
    (root : TakesRoot free build) {accepts : Bool} {take : Option UInt64 → Scheduler → Slot × Scheduler}
    (zero : ∀ {space s'}, take space s = (0, s') → s.firstFree ≠ none → space = none ∧ s' = s)
    (failed : spawnWith accepts build take vm s = some (0, s', vm')) :
    s' = s ∧ (free vm'.pmm = free vm.pmm ↔
      accepts = false ∨ s.firstFree = none ∨ FrameAlloc.allocFrame vm.pmm = none) := by
  rw [spawnWith] at failed
  cases accepts with
  | false =>
    cases failed
    exact ⟨rfl, iff_of_true rfl (.inl rfl)⟩
  | true =>
    rw [if_pos rfl] at failed
    cases slot : s.firstFree with
    | none =>
      rw [slot] at failed
      cases failed
      exact ⟨rfl, iff_of_true rfl (.inr (.inl rfl))⟩
    | some i =>
      rw [slot] at failed
      obtain ⟨⟨space, vm₁⟩, built, result⟩ := Option.map_eq_some_iff.mp failed
      have taken : take (space.map UInt64.ofBitVec) s = (0, s') := by
        have first := congrArg Prod.fst result
        have second := congrArg (fun r : Slot × Scheduler × State A => r.2.1) result
        exact Prod.ext first second
      have same : vm₁ = vm' := congrArg (fun r : Slot × Scheduler × State A => r.2.2) result
      subst same
      obtain ⟨-, unchanged⟩ := zero taken (by rw [slot]; exact Option.some_ne_none i)
      refine ⟨unchanged, ?_⟩
      rcases root _ _ _ built with ⟨missing, same⟩ | ⟨present, fewer⟩
      · exact iff_of_true (by rw [same]) (.inr (.inr missing))
      · refine iff_of_false (Nat.ne_of_lt fewer) ?_
        rintro (none | none | none)
        · cases none
        · cases none
        · exact present none

end Spawn

/-- A file that fails the first checks is refused. -/
theorem run_of_refused {A : Type} [Vmm.LawfulFrameAlloc A] {ramfs : File → Option File}
    {elf : File} {call : Call} (refused : call.accepts elf = false) (vm : State A) (s : Scheduler) :
    call.run ramfs elf vm s = some (0, s, vm) := by
  cases call with
  | ring3 stackTop stackPages fbFrame => exact if_neg (Bool.eq_false_iff.mp refused)
  | linuxStatic ticks => exact if_neg (Bool.eq_false_iff.mp refused)
  | linuxDyn ticks => exact if_neg (Bool.eq_false_iff.mp refused)

/-- **A failed spawn** leaves the scheduler, and the frames exactly when it failed early. -/
theorem failed_spawn {A : Type} [Vmm.LawfulFrameAlloc A] {free : A → Nat} {vm vm' : State A}
    {s s' : Scheduler} (counts : Counts free) {ramfs : File → Option File} {elf : File} {call : Call}
    (failed : call.run ramfs elf vm s = some (0, s', vm')) :
    s' = s ∧ (free vm'.pmm = free vm.pmm ↔ FailsEarly call elf vm s) := by
  cases call with
  | ring3 stackTop stackPages fbFrame =>
    have zero : ∀ {space s'}, Scheduler.spawnRing3ElfCfg space s = (0, s') → s.firstFree ≠ none →
      space = none ∧ s' = s := spawnWith_zero
    exact failed_of_takesRoot (takesRoot_ring3 counts elf stackTop stackPages fbFrame) zero failed
  | linuxStatic ticks =>
    have zero : ∀ {space s'}, Scheduler.spawnLinuxStaticElf space s = (0, s') →
      s.firstFree ≠ none → space = none ∧ s' = s := spawnWith_zero
    exact failed_of_takesRoot (takesRoot_linuxStatic counts elf ticks) zero failed
  | linuxDyn ticks =>
    have zero : ∀ {space s'}, Scheduler.spawnLinuxDynElf space s = (0, s') →
      s.firstFree ≠ none → space = none ∧ s' = s := spawnWith_zero
    exact failed_of_takesRoot (takesRoot_linuxDyn counts ramfs elf ticks) zero failed

/-! ## The kernel's allocator -/

/-- How many frames are marked free. -/
def freeCount (pmm : Pmm) : Nat := (Frames.mk pmm 0).freePages.card

theorem counts_freeCount : Counts freeCount := by
  intro pmm frame pmm' alloc
  have alloc' : Pmm.allocFrame pmm = some (frame, pmm') := alloc
  have taken : (Frames.mk pmm 0).allocFrame = some (frame, ⟨pmm', 0⟩) := by
    rw [Frames.allocFrame, alloc']
    rfl
  obtain ⟨page, -, -, isFree, pages, -⟩ := Frames.allocFrame_spec taken
  rw [freeCount, freeCount, pages]
  exact Finset.card_erase_add_one (Frames.mem_freePages.mpr isFree)

/-- **A failed spawn leaves everything as it was exactly when it failed early**: as many frames are
free as before, and the tasks and their flags are the same. -/
theorem failed_spawn_iff {ramfs : File → Option File} {elf : File} {call : Call}
    {vm vm' : State Pmm} {s s' : Scheduler}
    (failed : call.run ramfs elf vm s = some (0, s', vm')) :
    (freeCount vm'.pmm = freeCount vm.pmm ∧ s' = s) ↔ FailsEarly call elf vm s := by
  obtain ⟨same, frames⟩ := failed_spawn counts_freeCount failed
  rw [and_iff_left same]
  exact frames

/-- A file of no bytes is refused. -/
theorem failed_spawn_iff_empty : ∃ s vm,
    smallCall.run (fun _ => none) [] Vmm.small (Scheduler.boot 0 0) = some (0, s, vm) ∧
      freeCount vm.pmm = freeCount Vmm.small.pmm ∧ s = Scheduler.boot 0 0 := by
  have failed : smallCall.run (fun _ => none) [] Vmm.small (Scheduler.boot 0 0) = some (0, _, _) :=
    run_of_refused (by decide) Vmm.small (Scheduler.boot 0 0)
  exact ⟨_, _, failed, (failed_spawn_iff failed).mpr (.inl (by decide))⟩

/-- The machine after boot with one frame left. -/
def oneFrame : State Pmm :=
  { Vmm.small with pmm := ⟨fun i => if i = 1 then 1 else 0, 1, true⟩ }

theorem firstWord_zero {bitmap : Nat → BitVec 64} (zero : ∀ i, bitmap i = 0) :
    ∀ left i, Pmm.firstWord bitmap left i = none
  | 0, _ => rfl
  | left + 1, i => by
    rw [Pmm.firstWord, if_neg (not_not.mpr (zero i))]
    exact firstWord_zero zero left (i + 1)

/-- The machine when that frame has become a root. -/
theorem oneFrame_root : ∃ root vm, oneFrame.newAddressSpacePrivate = (some root, vm) ∧
    FrameAlloc.allocFrame vm.pmm = none := by
  obtain ⟨frame, pmm, taken, zero⟩ : ∃ frame pmm, Pmm.allocFrame oneFrame.pmm = some (frame, pmm) ∧
      ∀ i, pmm.bitmap i = 0 := by
    refine ⟨_, _, rfl, fun i => ?_⟩
    change (Pmm.markUsed oneFrame.pmm 64).bitmap i = 0
    rw [Pmm.markUsed, if_pos (by decide)]
    change (if i = 1 then oneFrame.pmm.bitmap i &&& ~~~Pmm.pageBit 64 else oneFrame.pmm.bitmap i) = 0
    by_cases one : i = 1
    · rw [one]
      rfl
    · exact (if_neg one).trans (if_neg one)
  have alloc : FrameAlloc.allocFrame oneFrame.pmm = some (frame, pmm) := taken
  have made : oneFrame.newAddressSpacePrivate =
      (some frame, ((oneFrame.take frame pmm).shareEntry frame 256).shareEntry frame 511) := by
    rw [State.newAddressSpacePrivate, alloc]
  refine ⟨_, _, made, ?_⟩
  change Pmm.allocFrame pmm = none
  rw [Pmm.allocFrame, firstWord_zero zero, Option.map_none, ite_self]

/-- Without a frame the first of two segments is not loaded. -/
theorem ListsTwo.loadSegmentsInto_none {A : Type} [FrameAlloc A] {vm : State A} {root : BitVec 64}
    {elf : File} {first second : BitVec 64} (lists : ListsTwo elf first second)
    (page : (oneByte elf 176 first).pageCount = 1) (gone : FrameAlloc.allocFrame vm.pmm = none) :
    loadSegmentsInto vm root elf 0 = some (false, vm) := by
  have none : loadPages vm root (oneByte elf 176 first) 1 = some (false, vm) := by
    rw [loadPages, loadPages]
    change loadPage vm root _ _ = _
    rw [loadPage, gone]
  have before : loadSegments vm root elf 0 ⟨64, 2, 56⟩ 1 = some (false, vm) := by
    rw [loadSegments, loadSegments]
    dsimp only
    rw [lists.first]
    change loadPages vm root _ (oneByte elf 176 first).pageCount = _
    rw [page, none]
  rw [loadSegmentsInto, lists.table]
  change loadSegments vm root elf 0 ⟨64, 2, 56⟩ 2 = _
  rw [loadSegments, before]

/-- Nothing is spawned when the segments could not be loaded. -/
theorem spawnRing3ElfCfg_unloaded {A : Type} [FrameAlloc A] {vm vm₁ vm' : State A} {root : BitVec 64}
    {elf : File} {stackTop : BitVec 64} {stackPages : Nat} {fbFrame : BitVec 64} {s : Scheduler}
    {i : Slot} (accepted : isElf elf = true) (slot : s.firstFree = some i)
    (made : vm.newAddressSpacePrivate = (some root, vm₁))
    (unloaded : loadSegmentsInto vm₁ root elf 0 = some (false, vm')) :
    spawnRing3ElfCfg elf stackTop stackPages fbFrame vm s = some (0, s, vm') := by
  have built : ring3ElfSpace elf stackTop stackPages fbFrame vm = some (none, vm') := by
    rw [ring3ElfSpace, made]
    dsimp only
    rw [unloaded]
  rw [spawnRing3ElfCfg, spawnWith, if_pos accepted, slot]
  dsimp only
  rw [built, Option.map_some]
  dsimp only
  rw [Option.map_none, Scheduler.spawnRing3ElfCfg, Scheduler.spawnWith]
  intro _ _ _ absent
  cases absent

set_option maxRecDepth 16000 in
/-- **The last frame is lost**: a spawn takes it for the root of its space, finds no frame for the
first segment, and returns without giving it back. -/
theorem last_frame_lost : ¬ ∀ (ramfs : File → Option File) (elf : File) (call : Call)
    (vm vm' : State Pmm) (s s' : Scheduler), call.run ramfs elf vm s = some (0, s', vm') →
      freeCount vm'.pmm = freeCount vm.pmm ∧ s' = s := by
  intro atomic
  obtain ⟨root, vm, made, gone⟩ := oneFrame_root
  have page : (oneByte twoPages 176 0x40_0000).pageCount = 1 := rfl
  have run : smallCall.run (fun _ => none) twoPages oneFrame (Scheduler.boot 0 0) =
      some (0, Scheduler.boot 0 0, vm) :=
    spawnRing3ElfCfg_unloaded (i := 1) (by decide) (by decide) made
      (twoPages_lists.loadSegmentsInto_none page gone)
  have same := (atomic _ _ _ _ _ _ _ run).1
  rcases (failed_spawn counts_freeCount run).2.mp same with refused | full | none
  · revert refused
    decide
  · revert full
    decide
  · have frame : (FrameAlloc.allocFrame oneFrame.pmm).isSome = true := by decide
    rw [none] at frame
    cases frame

end RustyPenguin.Elf
