import Mathlib.Algebra.Ring.Int.Defs
import Mathlib.Algebra.Ring.Nat
import Mathlib.Data.Fintype.Basic

/-!
# Task slots

The scheduler has four slots. Slot 0 is the boot thread; the others are taken by spawning and given
back by killing. Beside the tasks stand two tables that say which system calls a slot's task makes,
those of Linux or those of Wine, and the timer sets the routing from them at every switch.

There are several ways to spawn a task. They take the first free slot alike, and differ in the
frame they prepare on the kernel stack, in the address space, and in which flags they set.
-/

set_option autoImplicit false

namespace RustyPenguin.Sched

def maxTasks : Nat := 4

instance : NeZero maxTasks := ⟨by decide⟩

def kstackSize : UInt64 := 32 * 1024

abbrev Slot : Type := Fin maxTasks

structure Task where
  rsp : UInt64
  used : Bool
  alive : Bool
  cr3 : UInt64
  gsBase : UInt64

/-- The scheduler: the tasks, where their kernel stacks are, the current task, the flags of the
tasks, whether a Linux process is scheduled, and the routing of system calls. -/
structure Scheduler where
  tasks : Slot → Task
  kstacks : UInt64
  curTask : Slot
  taskLinux : Slot → Bool
  taskWine : Slot → Bool
  preemptiveLinux : Bool
  linuxAbi : Bool
  wineAbi : Bool

namespace Scheduler

/-- The scheduler as it starts, with the boot thread in slot 0. -/
def boot (kstacks cr3 : UInt64) : Scheduler where
  tasks i := if i = 0 then ⟨0, true, true, cr3, 0⟩ else ⟨0, false, false, 0, 0⟩
  kstacks := kstacks
  curTask := 0
  taskLinux _ := false
  taskWine _ := false
  preemptiveLinux := false
  linuxAbi := false
  wineAbi := false

def setTask (i : Slot) (task : Task) (s : Scheduler) : Scheduler :=
  { s with tasks := Function.update s.tasks i task }

@[simp] theorem setTask_self (s : Scheduler) (i : Slot) (task : Task) :
    (s.setTask i task).tasks i = task := by
  simp [setTask]

@[simp] theorem setTask_of_ne (s : Scheduler) {i j : Slot} (task : Task) (other : j ≠ i) :
    (s.setTask i task).tasks j = s.tasks j := by
  simp [setTask, other]

def setLinux (i : Slot) (v : Bool) (s : Scheduler) : Scheduler :=
  { s with taskLinux := Function.update s.taskLinux i v }

def setWine (i : Slot) (v : Bool) (s : Scheduler) : Scheduler :=
  { s with taskWine := Function.update s.taskWine i v }

def markTaskLinux (i : Slot) (s : Scheduler) : Scheduler := s.setLinux i true

/-- The top of a kernel stack. -/
def kstackTop (s : Scheduler) (i : Slot) : UInt64 :=
  (s.kstacks + UInt64.ofNat i * kstackSize + kstackSize) &&& ~~~0xF

/-! ## Switching -/

/-- The boot thread is always considered alive. -/
def runnable (s : Scheduler) (i : Slot) : Bool := i = 0 ∨ (s.tasks i).used ∧ (s.tasks i).alive

/-- The next task that can run, from a slot on. -/
def nextAlive (s : Scheduler) (start : Slot) : Slot :=
  (((List.range maxTasks).map fun off => Fin.ofNat maxTasks (start + (off + 1))).find?
    s.runnable).getD 0

/-- Switch to the next task that can run; `rsp` is where the current one is saved. -/
def yieldCpu (rsp : UInt64) (s : Scheduler) : Scheduler :=
  let cur := s.curTask
  let nxt := s.nextAlive cur
  if nxt = cur then s
  else { s.setTask cur { s.tasks cur with rsp := rsp } with curTask := nxt }

/-- The timer switches: the stack pointer of the next task, whose flags become the routing. -/
def preemptTick (curRsp gsBase : UInt64) (s : Scheduler) : UInt64 × Scheduler :=
  let s := s.setTask s.curTask { s.tasks s.curTask with rsp := curRsp, gsBase := gsBase }
  let nxt := s.nextAlive s.curTask
  ((s.tasks nxt).rsp,
    { s with curTask := nxt, linuxAbi := s.taskLinux nxt, wineAbi := s.taskWine nxt })

/-! ## Exits and kills -/

/-- The current task is dead. -/
def bury (s : Scheduler) : Scheduler :=
  s.setTask s.curTask { s.tasks s.curTask with alive := false }

/-- The current task ends and switches away. -/
def taskExit (s : Scheduler) : Scheduler :=
  let s := s.bury
  { s with curTask := s.nextAlive s.curTask }

/-- A scheduled Linux task ends, and waits for the timer. -/
def exitCurrentScheduled (s : Scheduler) : Scheduler := s.bury

/-- Drop a task from the schedule, and free its slot. -/
def killTask (idx : Nat) (s : Scheduler) : Scheduler :=
  if inside : idx < maxTasks ∧ idx ≠ 0 then
    let i : Slot := ⟨idx, inside.1⟩
    s.setTask i { s.tasks i with alive := false, used := false }
  else s

/-! ## Spawns -/

/-- The first slot that is not used. -/
def firstFree (s : Scheduler) : Option Slot := Fin.find? fun i => i ≠ 0 ∧ ¬ (s.tasks i).used

/-- Take the first free slot, if the address space could be built, and mark it. The task's frame of
`words` words is on its kernel stack. Slot 0 stands for a failure. -/
def spawnWith (words : UInt64) (space : Option UInt64) (gsBase : UInt64)
    (mark : Slot → Scheduler → Scheduler) (s : Scheduler) : Slot × Scheduler :=
  match s.firstFree, space with
  | some i, some cr3 =>
    (i, mark i (s.setTask i ⟨s.kstackTop i - words * 8, true, true, cr3, gsBase⟩))
  | _, _ => (0, s)

/-- Leave the flags as they are. -/
def unmarked (_ : Slot) (s : Scheduler) : Scheduler := s

def spawn (s : Scheduler) : Slot × Scheduler := s.spawnWith 7 (some 0) 0 unmarked

def spawnWineThread (cr3 gsBase : UInt64) (s : Scheduler) : Slot × Scheduler :=
  s.spawnWith 20 (some cr3) gsBase fun i s => s.setWine i true

def spawnPreempt (s : Scheduler) : Slot × Scheduler := s.spawnWith 20 (some 0) 0 unmarked

/-- A kernel task in its own address space, if there is one. -/
def spawnPreemptAs (space : Option UInt64) (s : Scheduler) : Slot × Scheduler :=
  let (i, s) := s.spawnPreempt
  if i ≠ 0 then
    match space with
    | some cr3 => (i, s.setTask i { s.tasks i with cr3 := cr3 })
    | none => (i, s)
  else (i, s)

def spawnRing3 (space : Option UInt64) (s : Scheduler) : Slot × Scheduler :=
  s.spawnWith 20 space 0 unmarked

def spawnRing3LowWith (space : Option UInt64) (s : Scheduler) : Slot × Scheduler :=
  s.spawnWith 20 space 0 unmarked

def spawnRing3ElfCfg (space : Option UInt64) (s : Scheduler) : Slot × Scheduler :=
  s.spawnWith 20 space 0 fun i s => s.setLinux i false

/-- Spawn an ELF program, and mark it as a Linux process. -/
def spawnRing3ElfMarked (space : Option UInt64) (s : Scheduler) : Slot × Scheduler :=
  let (i, s) := s.spawnRing3ElfCfg space
  if i ≠ 0 then (i, s.markTaskLinux i) else (i, s)

/-- Mark a Linux process, whose exit is to end the task only. -/
def markScheduledLinux (i : Slot) (s : Scheduler) : Scheduler :=
  { s.setLinux i true with preemptiveLinux := true }

def spawnLinuxStaticElf (space : Option UInt64) (s : Scheduler) : Slot × Scheduler :=
  s.spawnWith 20 space 0 markScheduledLinux

def spawnLinuxDynElf (space : Option UInt64) (s : Scheduler) : Slot × Scheduler :=
  s.spawnWith 20 space 0 markScheduledLinux

end Scheduler

/-- The system calls a task makes: those of Linux, those of Wine, or its own. -/
structure Abi where
  linux : Bool
  wine : Bool
  deriving DecidableEq

def Abi.native : Abi := ⟨false, false⟩

/-- The ways to spawn a task, with the address space that was built for it, if one was. -/
inductive SpawnCall where
  | kernel
  | preempt
  | preemptAs (space : Option UInt64)
  | ring3 (space : Option UInt64)
  | ring3Low (space : Option UInt64)
  | ring3Elf (space : Option UInt64)
  | ring3ElfMarked (space : Option UInt64)
  | linuxStatic (space : Option UInt64)
  | linuxDyn (space : Option UInt64)
  | wineThread (cr3 gsBase : UInt64)

namespace SpawnCall

def run : SpawnCall → Scheduler → Slot × Scheduler
  | kernel => Scheduler.spawn
  | preempt => Scheduler.spawnPreempt
  | preemptAs space => Scheduler.spawnPreemptAs space
  | ring3 space => Scheduler.spawnRing3 space
  | ring3Low space => Scheduler.spawnRing3LowWith space
  | ring3Elf space => Scheduler.spawnRing3ElfCfg space
  | ring3ElfMarked space => Scheduler.spawnRing3ElfMarked space
  | linuxStatic space => Scheduler.spawnLinuxStaticElf space
  | linuxDyn space => Scheduler.spawnLinuxDynElf space
  | wineThread cr3 gsBase => Scheduler.spawnWineThread cr3 gsBase

/-- The system calls of the task. -/
def abi : SpawnCall → Abi
  | ring3ElfMarked _ | linuxStatic _ | linuxDyn _ => ⟨true, false⟩
  | wineThread _ _ => ⟨false, true⟩
  | _ => .native

/-- The task can be made. -/
def builds : SpawnCall → Bool
  | ring3 space | ring3Low space | ring3Elf space | ring3ElfMarked space | linuxStatic space
  | linuxDyn space => space.isSome
  | kernel | preempt | preemptAs _ | wineThread _ _ => true

/-- The call sets the flag for Linux. -/
def setsLinux : SpawnCall → Bool
  | ring3Elf _ | ring3ElfMarked _ | linuxStatic _ | linuxDyn _ => true
  | _ => false

/-- The call sets the flag for Wine. -/
def setsWine : SpawnCall → Bool
  | wineThread _ _ => true
  | _ => false

end SpawnCall

end RustyPenguin.Sched
