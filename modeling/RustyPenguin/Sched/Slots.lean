import RustyPenguin.Foundation.Trace
import RustyPenguin.Sched.Tasks
import Mathlib.Data.Fintype.Card

/-!
# Reusing a slot

What is to hold of the slots, whatever is spawned, exits and is killed in them: a live task makes
the system calls its spawn gave it, and the slot of a task that has gone can be taken again.

Neither holds. A spawn that does not set a flag takes over what the last task of the slot left
there, and a task that exits by itself leaves its slot used. Both hold all along a sequence of
events exactly when every spawn finds the flags it does not set as it needs them, and no task that
has a slot exits by itself (`slots_iff`).
-/

set_option autoImplicit false

namespace RustyPenguin.Sched

open Function

/-! ## One spawn -/

namespace Scheduler

variable {s : Scheduler} {i j : Slot}

theorem firstFree_eq_some :
    s.firstFree = some i ↔
      (i ≠ 0 ∧ (s.tasks i).used = false) ∧ ∀ j < i, j ≠ 0 → (s.tasks j).used = true := by
  rw [firstFree, Fin.find?_eq_some_iff]
  simp

theorem firstFree_isSome (other : i ≠ 0) (free : (s.tasks i).used = false) :
    ∃ j ≤ i, s.firstFree = some j := by
  have found : s.firstFree.isSome := by
    rw [firstFree, Fin.isSome_find?_iff]
    exact ⟨i, by simp [other, free]⟩
  obtain ⟨j, here⟩ := Option.isSome_iff_exists.mp found
  refine ⟨j, ?_, here⟩
  by_contra later
  have taken := (firstFree_eq_some.1 here).2 i (not_le.mp later) other
  rw [free] at taken
  cases taken

/-- The system calls that the flags of a slot stand for. -/
def abi (s : Scheduler) (i : Slot) : Abi := ⟨s.taskLinux i, s.taskWine i⟩

/-- A task that is scheduled. -/
def Live (s : Scheduler) (i : Slot) : Prop := (s.tasks i).used = true ∧ (s.tasks i).alive = true

end Scheduler

/-- A call has taken slot `i`: there is a live task now, nothing else is touched, and the flags
that the call sets are set. -/
structure Took (call : SpawnCall) (i : Slot) (s s' : Scheduler) : Prop where
  first : s.firstFree = some i
  used : (s'.tasks i).used = true
  alive : (s'.tasks i).alive = true
  others : ∀ j ≠ i, s'.tasks j = s.tasks j
  curTask : s'.curTask = s.curTask
  linux : s'.taskLinux = if call.setsLinux then update s.taskLinux i call.abi.linux else s.taskLinux
  wine : s'.taskWine = if call.setsWine then update s.taskWine i call.abi.wine else s.taskWine

/-- What a call does: it takes the first free slot if there is one and the task can be made, and
otherwise nothing. -/
def Outcome (call : SpawnCall) (s : Scheduler) : Prop :=
  (s.firstFree = none ∨ call.builds = false) ∧ call.run s = (0, s) ∨
    call.builds = true ∧ ∃ i s', call.run s = (i, s') ∧ Took call i s s'

section Spawn

variable {s : Scheduler} {i : Slot} {words gsBase : UInt64} {space : Option UInt64}
  {mark : Slot → Scheduler → Scheduler}

theorem spawnWith_eq_of_some {cr3 : UInt64} (first : s.firstFree = some i) :
    s.spawnWith words (some cr3) gsBase mark =
      (i, mark i (s.setTask i ⟨s.kstackTop i - words * 8, true, true, cr3, gsBase⟩)) := by
  simp only [Scheduler.spawnWith, first]

theorem spawnWith_eq_of_none (full : s.firstFree = none ∨ space = none) :
    s.spawnWith words space gsBase mark = (0, s) := by
  rcases full with none | none
  · simp only [Scheduler.spawnWith, none]
  · subst none
    cases first : s.firstFree with
    | none => simp only [Scheduler.spawnWith, first]
    | some i => simp only [Scheduler.spawnWith, first]

theorem took_setTask {call : SpawnCall} {s' : Scheduler} (task : Task)
    (first : s.firstFree = some i) (used : task.used = true) (alive : task.alive = true)
    (tasks : s'.tasks = update s.tasks i task) (curTask : s'.curTask = s.curTask)
    (linux : s'.taskLinux =
      if call.setsLinux then update s.taskLinux i call.abi.linux else s.taskLinux)
    (wine : s'.taskWine = if call.setsWine then update s.taskWine i call.abi.wine else s.taskWine) :
    Took call i s s' where
  first := first
  used := by rw [tasks, update_self, used]
  alive := by rw [tasks, update_self, alive]
  others j other := by rw [tasks, update_of_ne other]
  curTask := curTask
  linux := linux
  wine := wine

/-- A call that spawns with a mark. -/
theorem outcome_spawnWith {call : SpawnCall}
    (runs : ∀ s : Scheduler, call.run s = s.spawnWith words space gsBase mark)
    (builds : call.builds = space.isSome)
    (tasks : ∀ s, (mark i s).tasks = s.tasks) (curTask : ∀ s, (mark i s).curTask = s.curTask)
    (linux : ∀ s, (mark i s).taskLinux =
      if call.setsLinux then update s.taskLinux i call.abi.linux else s.taskLinux)
    (wine : ∀ s, (mark i s).taskWine =
      if call.setsWine then update s.taskWine i call.abi.wine else s.taskWine)
    (first : s.firstFree = some i) : Outcome call s := by
  cases space with
  | none => exact .inl ⟨.inr builds, (runs s).trans (spawnWith_eq_of_none (.inr rfl))⟩
  | some cr3 =>
    refine .inr ⟨builds, i, _, (runs s).trans (spawnWith_eq_of_some first), ?_⟩
    exact took_setTask _ first rfl rfl (tasks _) (curTask _) (linux _) (wine _)

/-- A kernel task that then gets an address space of its own. -/
theorem outcome_preemptAs (space : Option UInt64) (first : s.firstFree = some i) :
    Outcome (.preemptAs space) s := by
  obtain ⟨task, used, alive, ran⟩ : ∃ task : Task, task.used = true ∧ task.alive = true ∧
      s.spawnPreempt = (i, s.setTask i task) := ⟨_, rfl, rfl, spawnWith_eq_of_some first⟩
  have inside : i ≠ 0 := (Scheduler.firstFree_eq_some.mp first).1.1
  have run : (SpawnCall.preemptAs space).run s = s.spawnPreemptAs space := rfl
  rw [Outcome, run, Scheduler.spawnPreemptAs, ran]
  simp only [if_pos inside]
  refine .inr ⟨rfl, i, ?_⟩
  cases space with
  | none => exact ⟨_, rfl, took_setTask task first used alive rfl rfl rfl rfl⟩
  | some cr3 =>
    rw [Scheduler.setTask_self]
    refine ⟨_, rfl, took_setTask { task with cr3 := cr3 } first used alive ?_ rfl rfl rfl⟩
    exact update_idem _ _ _

/-- A program that is marked after it was spawned. -/
theorem outcome_ring3ElfMarked (space : Option UInt64) (first : s.firstFree = some i) :
    Outcome (.ring3ElfMarked space) s := by
  have inside : i ≠ 0 := (Scheduler.firstFree_eq_some.mp first).1.1
  have run : (SpawnCall.ring3ElfMarked space).run s = s.spawnRing3ElfMarked space := rfl
  rw [Outcome, run, Scheduler.spawnRing3ElfMarked]
  cases space with
  | none =>
    have ran : s.spawnRing3ElfCfg none = (0, s) := spawnWith_eq_of_none (.inr rfl)
    rw [ran]
    exact .inl ⟨.inr rfl, rfl⟩
  | some cr3 =>
    obtain ⟨task, used, alive, ran⟩ : ∃ task : Task, task.used = true ∧ task.alive = true ∧
        s.spawnRing3ElfCfg (some cr3) = (i, (s.setTask i task).setLinux i false) :=
      ⟨_, rfl, rfl, spawnWith_eq_of_some first⟩
    rw [ran]
    simp only [if_pos inside]
    refine .inr ⟨rfl, i, _, rfl, took_setTask task first used alive rfl rfl ?_ rfl⟩
    exact update_idem _ _ _

/-- When no slot is free, no call changes anything. -/
theorem run_of_full (call : SpawnCall) (full : s.firstFree = none) : call.run s = (0, s) := by
  have fails : ∀ {words gsBase space mark}, s.spawnWith words space gsBase mark = (0, s) :=
    spawnWith_eq_of_none (.inl full)
  cases call with
  | preemptAs space =>
    show s.spawnPreemptAs space = _
    simp only [Scheduler.spawnPreemptAs, Scheduler.spawnPreempt, fails]
    rfl
  | ring3ElfMarked space =>
    show s.spawnRing3ElfMarked space = _
    simp only [Scheduler.spawnRing3ElfMarked, Scheduler.spawnRing3ElfCfg, fails]
    rfl
  | _ => exact fails

/-- Every way to spawn a task takes the first free slot, or nothing. -/
theorem outcome (call : SpawnCall) (s : Scheduler) : Outcome call s := by
  cases first : s.firstFree with
  | none => exact .inl ⟨.inl first, run_of_full call first⟩
  | some i =>
    cases call with
    | preemptAs space => exact outcome_preemptAs space first
    | ring3ElfMarked space => exact outcome_ring3ElfMarked space first
    | _ =>
      exact outcome_spawnWith (fun _ => rfl) rfl (fun _ => rfl) (fun _ => rfl) (fun _ => rfl)
        (fun _ => rfl) first

end Spawn

/-! ## What can be taken -/

/-- The scheduler after some spawns. -/
def spawnAll (calls : List SpawnCall) (s : Scheduler) : Scheduler :=
  calls.foldl (fun s call => (call.run s).2) s

/-- A later spawn takes the slot. -/
def Takeable (s : Scheduler) (i : Slot) : Prop :=
  ∃ (calls : List SpawnCall) (call : SpawnCall), (call.run (spawnAll calls s)).1 = i

/-- The free slots below a slot. -/
def freeBelow (s : Scheduler) (i : Slot) : Finset Slot :=
  Finset.univ.filter fun j => j < i ∧ j ≠ 0 ∧ (s.tasks j).used = false

section Takeable

variable {s : Scheduler} {i : Slot}

/-- A spawn does not free a slot. -/
theorem used_of_run (call : SpawnCall) (used : (s.tasks i).used = true) :
    ((call.run s).2.tasks i).used = true := by
  rcases outcome call s with ⟨_, ran⟩ | ⟨_, j, s', ran, took⟩
  · rw [ran]
    exact used
  · rw [ran]
    by_cases same : i = j
    · rw [same]
      exact took.used
    · rw [took.others i same]
      exact used

theorem used_of_spawnAll (calls : List SpawnCall) (used : (s.tasks i).used = true) :
    ((spawnAll calls s).tasks i).used = true := by
  induction calls generalizing s with
  | nil => exact used
  | cons call calls ih => exact ih (used_of_run call used)

/-- When a slot is free, a kernel task takes the first one. -/
theorem took_kernel {j : Slot} (first : s.firstFree = some j) :
    ∃ s', SpawnCall.kernel.run s = (j, s') ∧ Took .kernel j s s' := by
  rcases outcome .kernel s with ⟨full | fails, _⟩ | ⟨_, k, s', ran, took⟩
  · rw [first] at full
    cases full
  · cases fails
  · have same := took.first
    rw [first] at same
    cases same
    exact ⟨s', ran, took⟩

/-- A taken slot leaves fewer free slots below the others. -/
theorem freeBelow_ssubset {call : SpawnCall} {j : Slot} {s' : Scheduler} (took : Took call j s s')
    (before : j < i) : freeBelow s' i ⊂ freeBelow s i := by
  obtain ⟨inside, free⟩ := (Scheduler.firstFree_eq_some.mp took.first).1
  refine Finset.ssubset_iff_of_subset ?_ |>.mpr ⟨j, ?_, ?_⟩
  · intro k here
    obtain ⟨_, lower, inner, freeK⟩ := Finset.mem_filter.mp here
    refine Finset.mem_filter.mpr ⟨Finset.mem_univ k, lower, inner, ?_⟩
    by_cases same : k = j
    · rw [same]
      exact free
    · rw [← took.others k same]
      exact freeK
  · exact Finset.mem_filter.mpr ⟨Finset.mem_univ j, before, inside, free⟩
  · intro here
    obtain ⟨_, _, _, freeJ⟩ := Finset.mem_filter.mp here
    rw [took.used] at freeJ
    cases freeJ

/-- A free slot is reached once the free slots below it are taken. -/
theorem takeable_of_free (other : i ≠ 0) (free : (s.tasks i).used = false) : Takeable s i := by
  induction below : (freeBelow s i).card using Nat.strong_induction_on generalizing s with
  | _ n ih =>
    obtain ⟨j, notAfter, first⟩ := Scheduler.firstFree_isSome other free
    obtain ⟨s', ran, took⟩ := took_kernel first
    by_cases same : i = j
    · refine ⟨[], .kernel, ?_⟩
      rw [same]
      exact congrArg Prod.fst ran
    · have before : j < i := lt_of_le_of_ne notAfter (Ne.symm same)
      have fewer : (freeBelow s' i).card < n :=
        below ▸ Finset.card_lt_card (freeBelow_ssubset took before)
      have still : (s'.tasks i).used = false := by
        rw [took.others i same]
        exact free
      obtain ⟨calls, call, taken⟩ := ih _ fewer still rfl
      refine ⟨.kernel :: calls, call, ?_⟩
      rw [spawnAll, List.foldl_cons, ran]
      exact taken

/-- A slot can be taken exactly when it is not used. -/
theorem takeable_iff (other : i ≠ 0) : Takeable s i ↔ (s.tasks i).used = false := by
  constructor
  · rintro ⟨calls, call, taken⟩
    by_contra used
    have still := used_of_spawnAll calls (Bool.eq_true_of_not_eq_false used)
    rcases outcome call (spawnAll calls s) with ⟨_, ran⟩ | ⟨_, j, s', ran, took⟩
    · rw [ran] at taken
      exact other taken.symm
    · rw [ran] at taken
      have free := (Scheduler.firstFree_eq_some.mp took.first).1.2
      rw [show j = i from taken, still] at free
      cases free
  · exact takeable_of_free other

end Takeable

/-! ## Events -/

/-- What happens to the scheduler. -/
inductive Event where
  | spawn (call : SpawnCall)
  | kill (idx : Nat)
  | taskExit
  | exitCurrentScheduled
  | yieldCpu (rsp : UInt64)
  | preemptTick (curRsp gsBase : UInt64)

/-- The scheduler, and the system calls that the last spawn into each slot gave its task. -/
structure World where
  sched : Scheduler
  made : Slot → Option Abi

namespace World

def boot (kstacks cr3 : UInt64) : World := ⟨.boot kstacks cr3, fun _ => none⟩

def step (w : World) : Event → World
  | .spawn call =>
    let (i, s) := call.run w.sched
    ⟨s, if i = 0 then w.made else update w.made i (some call.abi)⟩
  | .kill idx => ⟨w.sched.killTask idx, w.made⟩
  | .taskExit => ⟨w.sched.taskExit, w.made⟩
  | .exitCurrentScheduled => ⟨w.sched.exitCurrentScheduled, w.made⟩
  | .yieldCpu rsp => ⟨w.sched.yieldCpu rsp, w.made⟩
  | .preemptTick curRsp gsBase => ⟨(w.sched.preemptTick curRsp gsBase).2, w.made⟩

end World

/-- **Good**: a live task makes the system calls its spawn gave it, and the slot of a task that is
gone can be taken. -/
structure Good (w : World) : Prop where
  flags : ∀ i abi, w.sched.Live i → w.made i = some abi → w.sched.abi i = abi
  reusable : ∀ i ≠ 0, w.made i ≠ none → (w.sched.tasks i).alive = false → Takeable w.sched i

/-- The flags that a call does not set are in slot `i` as its task needs them. -/
def Fits (call : SpawnCall) (s : Scheduler) (i : Slot) : Prop :=
  (call.setsLinux = false → s.taskLinux i = call.abi.linux) ∧
    (call.setsWine = false → s.taskWine i = call.abi.wine)

/-- A spawn that succeeds finds the flags it does not set as its task needs them, and no task with
a slot exits by itself. -/
def Allowed (w : World) : Event → Prop
  | .spawn call => call.builds = true → ∀ i, w.sched.firstFree = some i → Fits call w.sched i
  | .taskExit | .exitCurrentScheduled =>
    w.sched.curTask = 0 ∨ (w.sched.tasks w.sched.curTask).used = false
  | .kill _ | .yieldCpu _ | .preemptTick _ _ => True

/-- A slot in use was taken by a spawn. -/
def Recorded (w : World) : Prop := ∀ i ≠ 0, (w.sched.tasks i).used = true → w.made i ≠ none

/-! ## What each event keeps -/

/-- Which tasks are used and alive, the flags and the spawns are the same. -/
structure Alike (w w' : World) : Prop where
  used : ∀ i, (w'.sched.tasks i).used = (w.sched.tasks i).used
  alive : ∀ i, (w'.sched.tasks i).alive = (w.sched.tasks i).alive
  abi : ∀ i, w'.sched.abi i = w.sched.abi i
  made : w'.made = w.made

/-- One task has gone, and its slot is free unless it is still used. -/
structure Gone (i : Slot) (w w' : World) : Prop where
  alive : (w'.sched.tasks i).alive = false
  used : (w'.sched.tasks i).used = true → (w.sched.tasks i).used = true
  others : ∀ j ≠ i, w'.sched.tasks j = w.sched.tasks j
  abi : ∀ j, w'.sched.abi j = w.sched.abi j
  made : w'.made = w.made

section Steps

variable {w w' : World} {i : Slot}

theorem good_boot (kstacks cr3 : UInt64) : Good (.boot kstacks cr3) where
  flags i abi _ made := by cases made
  reusable i _ made _ := absurd rfl made

theorem recorded_boot (kstacks cr3 : UInt64) : Recorded (.boot kstacks cr3) := by
  intro i other used
  have unused : ((World.boot kstacks cr3).sched.tasks i).used = false := by
    simp [World.boot, Scheduler.boot, other]
  rw [unused] at used
  cases used

theorem Alike.good (alike : Alike w w') (good : Good w) : Good w' where
  flags i abi live made := by
    rw [alike.made] at made
    rw [alike.abi]
    refine good.flags i abi ?_ made
    exact ⟨(alike.used i).symm.trans live.1, (alike.alive i).symm.trans live.2⟩
  reusable i other made gone := by
    rw [alike.made] at made
    rw [alike.alive] at gone
    rw [takeable_iff other, alike.used]
    exact (takeable_iff other).mp (good.reusable i other made gone)

theorem Alike.recorded (alike : Alike w w') (recorded : Recorded w) : Recorded w' := by
  intro i other used
  rw [alike.made]
  rw [alike.used] at used
  exact recorded i other used

theorem Gone.recorded (gone : Gone i w w') (recorded : Recorded w) : Recorded w' := by
  intro j other used
  rw [gone.made]
  refine recorded j other ?_
  by_cases same : j = i
  · subst same
    exact gone.used used
  · rw [← gone.others j same]
    exact used

/-- A task may go exactly when its slot is free then. -/
theorem Gone.good_iff (gone : Gone i w w') (recorded : Recorded w) (good : Good w) :
    Good w' ↔ i = 0 ∨ (w'.sched.tasks i).used = false := by
  constructor
  · intro good'
    by_cases zero : i = 0
    · exact .inl zero
    · by_contra still
      have used := Bool.eq_true_of_not_eq_false fun free => still (.inr free)
      have made := recorded i zero (gone.used used)
      rw [← gone.made] at made
      have free := (takeable_iff zero).mp (good'.reusable i zero made gone.alive)
      exact still (.inr free)
  · intro free
    refine ⟨?_, ?_⟩
    · intro j abi live made
      by_cases same : j = i
      · subst same
        rw [Scheduler.Live, gone.alive] at live
        cases live.2
      · rw [gone.abi]
        rw [gone.made] at made
        rw [Scheduler.Live, gone.others j same] at live
        exact good.flags j abi live made
    · intro j other made dead
      rw [takeable_iff other]
      by_cases same : j = i
      · subst same
        exact free.resolve_left other
      · rw [gone.others j same] at dead ⊢
        rw [gone.made] at made
        exact (takeable_iff other).mp (good.reusable j other made dead)

/-! ### Spawns -/

theorem step_of_fails {call : SpawnCall} (ran : call.run w.sched = (0, w.sched)) :
    w.step (.spawn call) = w := by
  simp only [World.step, ran]
  rfl

theorem step_of_took {call : SpawnCall} {s' : Scheduler} (ran : call.run w.sched = (i, s'))
    (took : Took call i w.sched s') :
    w.step (.spawn call) = ⟨s', update w.made i (some call.abi)⟩ := by
  have inside : i ≠ 0 := (Scheduler.firstFree_eq_some.mp took.first).1.1
  simp only [World.step, ran, if_neg inside]

/-- The flags of a taken slot are those of the call exactly when those it does not set were. -/
theorem Took.abi_iff {call : SpawnCall} {s s' : Scheduler} (took : Took call i s s') :
    s'.abi i = call.abi ↔ Fits call s i := by
  have linux : s'.taskLinux i = call.abi.linux ↔
      (call.setsLinux = false → s.taskLinux i = call.abi.linux) := by
    rw [took.linux]
    cases call.setsLinux with
    | false => simp
    | true => simp
  have wine : s'.taskWine i = call.abi.wine ↔
      (call.setsWine = false → s.taskWine i = call.abi.wine) := by
    rw [took.wine]
    cases call.setsWine with
    | false => simp
    | true => simp
  rw [Fits, ← linux, ← wine, Scheduler.abi]
  constructor
  · intro same
    exact ⟨congrArg Abi.linux same, congrArg Abi.wine same⟩
  · rintro ⟨sameLinux, sameWine⟩
    rw [sameLinux, sameWine]

/-- The flags of the other slots stay. -/
theorem Took.abi_of_ne {call : SpawnCall} {s s' : Scheduler} {j : Slot} (took : Took call i s s')
    (other : j ≠ i) : s'.abi j = s.abi j := by
  rw [Scheduler.abi, Scheduler.abi, took.linux, took.wine]
  cases call.setsLinux with
  | false =>
    cases call.setsWine with
    | false => rfl
    | true => simp [other]
  | true =>
    cases call.setsWine with
    | false => simp [other]
    | true => simp [other]

theorem good_spawn_iff (call : SpawnCall) (good : Good w) :
    Good (w.step (.spawn call)) ↔ Allowed w (.spawn call) := by
  rcases outcome call w.sched with ⟨fails, ran⟩ | ⟨builds, i, s', ran, took⟩
  · rw [step_of_fails ran]
    refine iff_of_true good ?_
    intro builds i first
    rcases fails with full | fails
    · rw [full] at first
      cases first
    · rw [fails] at builds
      cases builds
  · rw [step_of_took ran took]
    constructor
    · intro good' _ j first
      rw [took.first] at first
      cases first
      exact took.abi_iff.mp (good'.flags i call.abi ⟨took.used, took.alive⟩ (update_self _ _ _))
    · intro allowed
      refine ⟨?_, ?_⟩
      · intro j abi live made
        by_cases same : j = i
        · subst same
          cases (update_self j (some call.abi) w.made).symm.trans made
          exact took.abi_iff.mpr (allowed builds j took.first)
        · rw [took.abi_of_ne same]
          rw [Scheduler.Live, took.others j same] at live
          exact good.flags j abi live ((update_of_ne same _ _).symm.trans made)
      · intro j other made dead
        rw [takeable_iff other]
        by_cases same : j = i
        · subst same
          rw [took.alive] at dead
          cases dead
        · rw [took.others j same] at dead ⊢
          have before : w.made j ≠ none := by
            rw [← update_of_ne same (some call.abi) w.made]
            exact made
          exact (takeable_iff other).mp (good.reusable j other before dead)

theorem recorded_spawn (call : SpawnCall) (recorded : Recorded w) :
    Recorded (w.step (.spawn call)) := by
  rcases outcome call w.sched with ⟨_, ran⟩ | ⟨_, i, s', ran, took⟩
  · rw [step_of_fails ran]
    exact recorded
  · rw [step_of_took ran took]
    intro j other used
    dsimp only at used ⊢
    by_cases same : j = i
    · subst same
      rw [update_self]
      exact Option.some_ne_none _
    · rw [update_of_ne same]
      rw [took.others j same] at used
      exact recorded j other used

/-! ### The other events -/

/-- A task is saved: it stays as used and as alive as it was. -/
theorem alike_save (w : World) (rsp gsBase : UInt64) {s' : Scheduler}
    (tasks : s'.tasks = (w.sched.setTask w.sched.curTask
      { w.sched.tasks w.sched.curTask with rsp := rsp, gsBase := gsBase }).tasks)
    (linux : s'.taskLinux = w.sched.taskLinux) (wine : s'.taskWine = w.sched.taskWine) :
    Alike w ⟨s', w.made⟩ where
  used i := by
    dsimp only
    rw [tasks]
    by_cases same : i = w.sched.curTask
    · rw [same, Scheduler.setTask_self]
    · rw [Scheduler.setTask_of_ne _ _ same]
  alive i := by
    dsimp only
    rw [tasks]
    by_cases same : i = w.sched.curTask
    · rw [same, Scheduler.setTask_self]
    · rw [Scheduler.setTask_of_ne _ _ same]
  abi i := by
    dsimp only
    rw [Scheduler.abi, linux, wine, Scheduler.abi]
  made := rfl

theorem alike_yieldCpu (w : World) (rsp : UInt64) : Alike w (w.step (.yieldCpu rsp)) := by
  by_cases stays : w.sched.nextAlive w.sched.curTask = w.sched.curTask
  · have same : w.step (.yieldCpu rsp) = w := by
      simp only [World.step, Scheduler.yieldCpu, if_pos stays]
    rw [same]
    exact ⟨fun _ => rfl, fun _ => rfl, fun _ => rfl, rfl⟩
  · have next : w.step (.yieldCpu rsp) = ⟨{ w.sched.setTask w.sched.curTask
          { w.sched.tasks w.sched.curTask with rsp := rsp } with
          curTask := w.sched.nextAlive w.sched.curTask }, w.made⟩ := by
      simp only [World.step, Scheduler.yieldCpu, if_neg stays]
    rw [next]
    exact alike_save w rsp (w.sched.tasks w.sched.curTask).gsBase rfl rfl rfl

theorem alike_preemptTick (w : World) (curRsp gsBase : UInt64) :
    Alike w (w.step (.preemptTick curRsp gsBase)) := alike_save w curRsp gsBase rfl rfl rfl

/-- An exit leaves the slot as used as it was. -/
theorem gone_bury (w : World) {s' : Scheduler} (tasks : s'.tasks = w.sched.bury.tasks)
    (linux : s'.taskLinux = w.sched.taskLinux) (wine : s'.taskWine = w.sched.taskWine) :
    Gone w.sched.curTask w ⟨s', w.made⟩ ∧
      (s'.tasks w.sched.curTask).used = (w.sched.tasks w.sched.curTask).used := by
  have here : s'.tasks w.sched.curTask =
      { w.sched.tasks w.sched.curTask with alive := false } := by
    rw [tasks, Scheduler.bury, Scheduler.setTask_self]
  refine ⟨⟨?_, ?_, ?_, ?_, rfl⟩, ?_⟩
  · dsimp only
    rw [here]
  · intro used
    dsimp only at used
    rw [here] at used
    exact used
  · intro j other
    dsimp only
    rw [tasks, Scheduler.bury, Scheduler.setTask_of_ne _ _ other]
  · intro j
    dsimp only
    rw [Scheduler.abi, linux, wine, Scheduler.abi]
  · rw [here]

theorem gone_taskExit (w : World) : Gone w.sched.curTask w (w.step .taskExit) ∧
    ((w.step .taskExit).sched.tasks w.sched.curTask).used =
      (w.sched.tasks w.sched.curTask).used := gone_bury w rfl rfl rfl

theorem gone_exitCurrentScheduled (w : World) :
    Gone w.sched.curTask w (w.step .exitCurrentScheduled) ∧
      ((w.step .exitCurrentScheduled).sched.tasks w.sched.curTask).used =
        (w.sched.tasks w.sched.curTask).used := gone_bury w rfl rfl rfl

/-- A kill frees the slot, or is not for a slot. -/
theorem gone_kill (w : World) (idx : Nat) : w.step (.kill idx) = w ∨
    ∃ i, Gone i w (w.step (.kill idx)) ∧ ((w.step (.kill idx)).sched.tasks i).used = false := by
  by_cases inside : idx < maxTasks ∧ idx ≠ 0
  · refine .inr ⟨⟨idx, inside.1⟩, ?_⟩
    have next : w.step (.kill idx) = ⟨w.sched.setTask ⟨idx, inside.1⟩
        { w.sched.tasks ⟨idx, inside.1⟩ with alive := false, used := false }, w.made⟩ := by
      simp only [World.step, Scheduler.killTask, dif_pos inside]
    rw [next]
    refine ⟨⟨?_, ?_, ?_, fun j => rfl, rfl⟩, ?_⟩
    · simp
    · simp
    · intro j other
      simp [other]
    · simp
  · refine .inl ?_
    simp only [World.step, Scheduler.killTask, dif_neg inside]

theorem recorded_step (w : World) (e : Event) (recorded : Recorded w) : Recorded (w.step e) := by
  cases e with
  | spawn call => exact recorded_spawn call recorded
  | kill idx =>
    rcases gone_kill w idx with same | ⟨i, gone, _⟩
    · rw [same]
      exact recorded
    · exact gone.recorded recorded
  | taskExit => exact (gone_taskExit w).1.recorded recorded
  | exitCurrentScheduled => exact (gone_exitCurrentScheduled w).1.recorded recorded
  | yieldCpu rsp => exact (alike_yieldCpu w rsp).recorded recorded
  | preemptTick curRsp gsBase => exact (alike_preemptTick w curRsp gsBase).recorded recorded

/-- From a good scheduler, exactly the allowed events lead to a good one. -/
theorem good_step_iff (w : World) (e : Event) (recorded : Recorded w) (good : Good w) :
    Good (w.step e) ↔ Allowed w e := by
  cases e with
  | spawn call => exact good_spawn_iff call good
  | kill idx =>
    refine iff_of_true ?_ trivial
    rcases gone_kill w idx with same | ⟨i, gone, free⟩
    · rw [same]
      exact good
    · exact (gone.good_iff recorded good).mpr (.inr free)
  | taskExit =>
    obtain ⟨gone, used⟩ := gone_taskExit w
    rw [gone.good_iff recorded good, used]
    rfl
  | exitCurrentScheduled =>
    obtain ⟨gone, used⟩ := gone_exitCurrentScheduled w
    rw [gone.good_iff recorded good, used]
    rfl
  | yieldCpu rsp => exact iff_of_true ((alike_yieldCpu w rsp).good good) trivial
  | preemptTick curRsp gsBase =>
    exact iff_of_true ((alike_preemptTick w curRsp gsBase).good good) trivial

/-- The timer routes the system calls of a live task as its spawn says. -/
theorem routing_of_good (good : Good w) (curRsp gsBase : UInt64) {abi : Abi}
    (live : (w.step (.preemptTick curRsp gsBase)).sched.Live
      (w.step (.preemptTick curRsp gsBase)).sched.curTask)
    (made : w.made (w.step (.preemptTick curRsp gsBase)).sched.curTask = some abi) :
    (⟨(w.step (.preemptTick curRsp gsBase)).sched.linuxAbi,
      (w.step (.preemptTick curRsp gsBase)).sched.wineAbi⟩ : Abi) = abi :=
  ((alike_preemptTick w curRsp gsBase).good good).flags _ abi live made

end Steps

/-! ## Runs -/

/-- **When slots are reused well**: all along a sequence of events every live task makes the system
calls its spawn gave it, and the slot of every task that is gone can be taken, exactly when each
spawn that succeeds finds the flags it does not set as its task needs them, and no task with a slot
exits by itself. -/
theorem slots_iff (kstacks cr3 : UInt64) (events : List Event) :
    Trace.Always World.step (.boot kstacks cr3) Good events ↔
      Trace.Each World.step (.boot kstacks cr3) Allowed events :=
  Trace.always_iff (recorded_boot kstacks cr3) recorded_step (good_boot kstacks cr3) good_step_iff
    events

/-- A kernel task in the slot of a killed Linux process makes the system calls of Linux, and the
slot of a kernel task that exits is not taken again. -/
theorem slots_not_reused :
    (let w := Trace.after World.step (.boot 0 0)
        [.spawn (.linuxStatic (some 4096)), .kill 1, .spawn .kernel];
      w.sched.Live 1 ∧ w.made 1 = some .native ∧ w.sched.abi 1 = ⟨true, false⟩) ∧
    (let w := Trace.after World.step (.boot 0 0) [.spawn .kernel, .preemptTick 0 0, .taskExit];
      w.made 1 = some .native ∧ (w.sched.tasks 1).alive = false ∧ ¬ Takeable w.sched 1) := by
  refine ⟨⟨⟨?_, ?_⟩, ?_, ?_⟩, ?_, ?_, ?_⟩
  · decide
  · decide
  · decide
  · decide
  · decide
  · decide
  · rw [takeable_iff (by decide)]
    decide

end RustyPenguin.Sched
