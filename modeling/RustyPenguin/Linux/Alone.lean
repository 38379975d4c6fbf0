import RustyPenguin.Foundation.Run
import RustyPenguin.Linux.Syscalls
import Mathlib.Data.List.Basic

/-!
# Linux tasks side by side

What the kernel keeps for Linux processes it keeps once, for all tasks that are scheduled. A task's
calls should be answered as if it ran alone, and every address below the break it was told should be
mapped in its own address space.

They are answered so for as long as every call finds what it consults as the caller's own calls have
left it (`alone_of_run`). For this each task has a view of the globals, in which only its own calls
and the keyboard count; the view is what the globals are when the task runs alone. When another task
has moved the break, has open files or has seeked, the answers are wrong (`not_alone`).
-/

set_option autoImplicit false

namespace RustyPenguin.Linux

open Function

/-! ## What a call leaves -/

/-- A value as the change from `before` to `after` leaves it in a view. -/
def pick {α : Type} [DecidableEq α] (before after view : α) : α :=
  if after = before then view else after

section Pick

variable {α : Type} [DecidableEq α]

@[simp] theorem pick_self (before view : α) : pick before before view = view := if_pos rfl

@[simp] theorem pick_of_agree (before after : α) : pick before after before = after := by
  rw [pick]
  split
  · next same => exact same.symm
  · rfl

theorem pick_of_ne {before after : α} (view : α) (changed : after ≠ before) :
    pick before after view = after := if_neg changed

end Pick

namespace Globals

/-- A view of the globals, once a call of its task has changed them. -/
def left (before after view : Globals) : Globals where
  brkCur := pick before.brkCur after.brkCur view.brkCur
  brkMapped := pick before.brkMapped after.brkMapped view.brkMapped
  mmapCur := pick before.mmapCur after.mmapCur view.mmapCur
  lfbPhys := pick before.lfbPhys after.lfbPhys view.lfbPhys
  lfbWrOff := pick before.lfbWrOff after.lfbWrOff view.lfbWrOff
  keys := pick before.keys after.keys view.keys
  fds i := pick (before.fds i) (after.fds i) (view.fds i)

@[simp] theorem left_self (g v : Globals) : g.left g v = v := by
  simp [left]

/-- An entry that is the same in the view, or that changes, is left as it becomes. -/
theorem left_setFd {g v : Globals} {i : Fin maxOpen} {file : OpenFile}
    (known : g.fds i = v.fds i ∨ file ≠ g.fds i) : g.left (g.setFd i file) v = v.setFd i file := by
  have entries : (fun j => pick (g.fds j) ((g.setFd i file).fds j) (v.fds j)) =
      update v.fds i file := by
    funext j
    by_cases same : j = i
    · subst same
      rcases known with agree | changed
      · simp [setFd, agree]
      · simp [setFd, pick_of_ne _ changed]
    · simp [setFd, same]
  simp only [left, setFd, pick_self] at entries ⊢
  rw [entries]

end Globals

/-! ## What a call consults -/

/-- The entry of a descriptor is open in both or in neither, and the same if it is open. -/
def SameEntry (fd : UInt64) (g v : Globals) : Prop :=
  ∀ i, Globals.entry fd = some i →
    (g.fds i).used = (v.fds i).used ∧ ((g.fds i).used = true → g.fds i = v.fds i)

/-- What a call consults is the same. -/
def Agree (inodes : List Inode) (g v : Globals) : Call → Prop
  | .brk addr => g.brkCur = v.brkCur ∧
    (brkBase ≤ addr ∧ addr ≤ brkCap ∧ g.brkCur < addr → g.brkMapped = v.brkMapped)
  | .mmap addr _ flags fd _ =>
    if fd = devFbFd then g.lfbPhys = v.lfbPhys
    else
      (¬ (isFixed flags = true ∧ addr ≠ 0) → g.mmapCur = v.mmapCur) ∧
        (isAnon flags fd = false → SameEntry fd g v)
  | .openPath path =>
    isDevice (relative path) = false → (find inodes (relative path)).isSome →
      ∀ i, (g.fds i).used = (v.fds i).used
  | .read fd _ _ => SameEntry fd g v ∧ (fd = 0 → g.keys = v.keys)
  | .lseek fd _ _ => if fd = devFbFd then g.lfbWrOff = v.lfbWrOff else SameEntry fd g v
  | .close fd => SameEntry fd g v

/-- Two replies that a task cannot tell apart, the second of them on its view. -/
def SameReply (g v : Globals) (reply alone : Option Reply) : Prop :=
  match reply, alone with
  | none, none => True
  | some (ret, g', sp'), some (ret', v', sp'') => ret' = ret ∧ v' = g.left g' v ∧ sp'' = sp'
  | _, _ => False

section Calls

variable {inodes : List Inode} {supply : Supply} {g v : Globals} {sp : Space}

theorem sameReply_same (ret : UInt64) : SameReply g v (some (ret, g, sp)) (some (ret, v, sp)) :=
  ⟨rfl, (Globals.left_self g v).symm, rfl⟩

/-- Descriptors that are the same stand for the same files. -/
theorem fdSlot_of_sameEntry {fd : UInt64} (same : SameEntry fd g v) :
    g.fdSlot fd = v.fdSlot fd ∧ ∀ i, g.fdSlot fd = some i → g.fds i = v.fds i := by
  rw [Globals.fdSlot, Globals.fdSlot]
  cases here : Globals.entry fd with
  | none => exact ⟨rfl, fun i none => by cases none⟩
  | some i =>
    obtain ⟨used, whole⟩ := same i here
    simp only [← used]
    refine ⟨trivial, ?_⟩
    intro j found
    by_cases isOpen : (g.fds i).used = true
    · rw [if_pos isOpen] at found
      cases found
      exact whole isOpen
    · rw [if_neg isOpen] at found
      cases found

theorem sameReply_close (fd : UInt64) (same : SameEntry fd g v) :
    SameReply g v (some (close fd g sp)) (some (close fd v sp)) := by
  obtain ⟨slots, files⟩ := fdSlot_of_sameEntry same
  rw [close, close, ← slots]
  cases found : g.fdSlot fd with
  | none => exact sameReply_same 0
  | some i =>
    have agree := files i found
    refine ⟨rfl, ?_, rfl⟩
    rw [← agree]
    exact (Globals.left_setFd (.inl agree)).symm

theorem sameReply_lseek (fd off whence : UInt64) (agree : Agree inodes g v (.lseek fd off whence)) :
    SameReply g v (some (lseek fd off whence g sp)) (some (lseek fd off whence v sp)) := by
  rw [Agree] at agree
  rw [lseek, lseek]
  by_cases device : fd = devFbFd
  · rw [if_pos device] at agree ⊢
    rw [if_pos device]
    refine ⟨?_, ?_, rfl⟩
    · rw [agree]
    · simp [Globals.left, agree]
  · rw [if_neg device] at agree ⊢
    rw [if_neg device]
    obtain ⟨slots, files⟩ := fdSlot_of_sameEntry agree
    rw [← slots]
    cases found : g.fdSlot fd with
    | none => exact sameReply_same ebadf
    | some i =>
      have same := files i found
      refine ⟨?_, ?_, rfl⟩
      · rw [← same]
      · rw [← same]
        exact (Globals.left_setFd (.inl same)).symm

theorem sameReply_openPath (path : List UInt8) (agree : Agree inodes g v (.openPath path)) :
    SameReply g v (some (openPath inodes path g sp)) (some (openPath inodes path v sp)) := by
  rw [openPath, openPath]
  cases device : isDevice (relative path) with
  | true => exact sameReply_same devFbFd
  | false =>
    cases file : find inodes (relative path) with
    | none => exact sameReply_same enoent
    | some data =>
      have used := agree device (by rw [file]; rfl)
      simp only [← used]
      cases free : Fin.find? fun i => decide ¬ (g.fds i).used = true with
      | none => exact sameReply_same emfile
      | some i =>
        have unused : ¬ (g.fds i).used = true := of_decide_eq_true (Fin.find?_eq_some_iff.mp free).1
        refine ⟨rfl, (Globals.left_setFd (.inr ?_)).symm, rfl⟩
        intro same
        rw [← same] at unused
        exact unused rfl

theorem sameReply_read (fd buf len : UInt64) (agree : Agree inodes g v (.read fd buf len)) :
    SameReply g v (read fd buf len g sp) (read fd buf len v sp) := by
  obtain ⟨entry, keys⟩ := agree
  obtain ⟨slots, files⟩ := fdSlot_of_sameEntry entry
  rw [read, read, ← slots]
  cases found : g.fdSlot fd with
  | none =>
    dsimp only
    by_cases stdin : fd = 0
    · rw [if_pos stdin, if_pos stdin, ← keys stdin]
      by_cases empty : (g.keys.take (min len.toNat 256)).isEmpty = true
      · rw [if_pos empty, if_pos empty]
        exact sameReply_same eagain
      · rw [if_neg empty, if_neg empty]
        cases sp.write buf (g.keys.take (min len.toNat 256)) with
        | none => trivial
        | some sp' =>
          refine ⟨rfl, ?_, rfl⟩
          simp [Globals.left, keys stdin]
    · rw [if_neg stdin, if_neg stdin]
      exact sameReply_same 0
  | some i =>
    have same := files i found
    dsimp only
    rw [← same]
    by_cases some : 0 < min len ((g.fds i).rest (g.fds i).off)
    · rw [if_pos some, if_pos some]
      cases sp.write buf ((g.fds i).bytes (g.fds i).off (min len ((g.fds i).rest (g.fds i).off))) with
      | none => trivial
      | some sp' => exact ⟨rfl, (Globals.left_setFd (.inl same)).symm, rfl⟩
    · rw [if_neg some, if_neg some]
      exact sameReply_same _

theorem sameReply_growBrk (addr : UInt64) (cur : g.brkCur = v.brkCur)
    (mapped : g.brkMapped = v.brkMapped) :
    SameReply g v (growBrk supply addr g sp) (growBrk supply addr v sp) := by
  have start : g.brkStart = v.brkStart := by rw [Globals.brkStart, mapped, Globals.brkStart]
  rw [growBrk, growBrk, ← start, ← cur]
  cases backPages supply.tables supply.frames (pagesBetween g.brkStart (pageUp addr)) sp with
  | none => trivial
  | some backed =>
    obtain ⟨all, sp'⟩ := backed
    cases all with
    | false => exact ⟨rfl, (Globals.left_self g v).symm, rfl⟩
    | true =>
      dsimp only [Option.bind_eq_bind, Option.bind_some, if_true]
      cases sp'.zero g.brkCur (addr - g.brkCur).toNat with
      | none => trivial
      | some sp'' =>
        refine ⟨rfl, ?_, rfl⟩
        simp [Globals.left, cur, mapped]

theorem sameReply_brk (addr : UInt64) (agree : Agree inodes g v (.brk addr)) :
    SameReply g v (brk supply addr g sp) (brk supply addr v sp) := by
  obtain ⟨cur, mapped⟩ := agree
  rw [brk, brk, ← cur]
  by_cases inside : brkBase ≤ addr ∧ addr ≤ brkCap
  · rw [if_pos inside, if_pos inside]
    by_cases grows : g.brkCur < addr
    · rw [if_pos grows, if_pos grows]
      exact sameReply_growBrk addr cur (mapped ⟨inside.1, inside.2, grows⟩)
    · rw [if_neg grows, if_neg grows]
      refine ⟨rfl, ?_, rfl⟩
      simp [Globals.left, cur]
  · rw [if_neg inside, if_neg inside]
    exact sameReply_same _

theorem sameReply_mmapSurface (agree : g.lfbPhys = v.lfbPhys) :
    SameReply g v (some (mmapSurface supply g sp)) (some (mmapSurface supply v sp)) := by
  rw [mmapSurface, mmapSurface, ← agree]
  cases if g.lfbPhys = 0 then supply.surface else some g.lfbPhys with
  | none => exact sameReply_same enomem
  | some phys =>
    refine ⟨rfl, ?_, rfl⟩
    simp [Globals.left, agree]

/-- A mapping goes to the same place, and leaves the arena as the other does. -/
theorem place_same {addr len flags : UInt64}
    (arena : ¬ (isFixed flags = true ∧ addr ≠ 0) → g.mmapCur = v.mmapCur) :
    (place addr len flags g = none ∧ place addr len flags v = none) ∨
      ∃ p g', place addr len flags g = some (p, g') ∧
        place addr len flags v = some (p, g.left g' v) ∧ g'.fds = g.fds := by
  rw [place, place]
  by_cases fixed : isFixed flags = true ∧ addr ≠ 0
  · rw [if_pos fixed, if_pos fixed]
    refine .inr ⟨addr, g, rfl, ?_, rfl⟩
    rw [Globals.left_self]
  · rw [if_neg fixed, if_neg fixed, ← arena fixed]
    by_cases fits : g.mmapCur + len ≤ mmapCap
    · rw [if_pos fits, if_pos fits]
      refine .inr ⟨_, _, rfl, ?_, rfl⟩
      simp [Globals.left, arena fixed]
    · rw [if_neg fits, if_neg fits]
      exact .inl ⟨rfl, rfl⟩

theorem fill_same {p askedLen len flags fd off : UInt64} {g' v' : Globals}
    (entry : isAnon flags fd = false → SameEntry fd g' v') :
    fill p askedLen len flags fd off g' sp = fill p askedLen len flags fd off v' sp := by
  rw [fill, fill]
  cases anon : isAnon flags fd with
  | true => rfl
  | false =>
    obtain ⟨slots, files⟩ := fdSlot_of_sameEntry (entry anon)
    rw [← slots]
    cases found : g'.fdSlot fd with
    | none => rfl
    | some i =>
      simp only [files i found]

theorem sameReply_mmap (addr askedLen flags fd off : UInt64)
    (agree : Agree inodes g v (.mmap addr askedLen flags fd off)) :
    SameReply g v (mmap supply addr askedLen flags fd off g sp)
      (mmap supply addr askedLen flags fd off v sp) := by
  rw [Agree] at agree
  rw [mmap, mmap]
  by_cases device : fd = devFbFd
  · rw [if_pos device] at agree ⊢
    rw [if_pos device]
    exact sameReply_mmapSurface agree
  · rw [if_neg device] at agree ⊢
    rw [if_neg device]
    obtain ⟨arena, entry⟩ := agree
    rcases @place_same g v addr (pageUp askedLen) flags arena with ⟨here, there⟩ | ⟨p, g', here, there, fds⟩
    · simp only [here, there]
      exact sameReply_same enomem
    · simp only [here, there]
      cases backPages supply.tables supply.frames
        (pagesBetween (p &&& ~~~4095) (pageUp (p + pageUp askedLen))) sp with
      | none => trivial
      | some backed =>
        obtain ⟨all, sp'⟩ := backed
        cases all with
        | false => exact ⟨rfl, rfl, rfl⟩
        | true =>
          have entry' : isAnon flags fd = false → SameEntry fd g' (g.left g' v) := by
            intro anon i slot
            obtain ⟨used, whole⟩ := entry anon i slot
            have same : (g.left g' v).fds i = v.fds i := by
              simp [Globals.left, fds]
            rw [same, fds]
            exact ⟨used, whole⟩
          dsimp only [Option.bind_eq_bind, Option.bind_some, if_true]
          rw [← fill_same entry']
          cases fill p askedLen (pageUp askedLen) flags fd off g' sp' with
          | none => trivial
          | some sp'' => exact ⟨rfl, rfl, rfl⟩

/-- A call that finds what it consults as in the view is answered as on the view. -/
theorem sameReply_syscall (call : Call) (agree : Agree inodes g v call) :
    SameReply g v (syscall inodes supply g sp call) (syscall inodes supply v sp call) := by
  cases call with
  | brk addr => exact sameReply_brk addr agree
  | mmap addr len flags fd off => exact sameReply_mmap addr len flags fd off agree
  | openPath path => exact sameReply_openPath path agree
  | read fd buf len => exact sameReply_read fd buf len agree
  | lseek fd off whence => exact sameReply_lseek fd off whence agree
  | close fd => exact sameReply_close fd agree

end Calls

/-! ## The heap -/

/-- Every address of the heap below an address is mapped. -/
def Backed (sp : Space) (top : UInt64) : Prop :=
  ∀ x, brkBase ≤ x → x < top → sp.mapped (pageOf x) = true

section Heap

variable {inodes : List Inode} {supply : Supply} {g g' : Globals} {sp sp' : Space} {ret : UInt64}

/-- Pages are only added to an address space. -/
def Space.Grows (sp sp' : Space) : Prop := ∀ page, sp.mapped page = true → sp'.mapped page = true

theorem Space.Grows.refl (sp : Space) : sp.Grows sp := fun _ here => here

theorem Space.Grows.trans {sp sp' sp'' : Space} (first : sp.Grows sp') (next : sp'.Grows sp'') :
    sp.Grows sp'' := fun page here => next page (first page here)

theorem Space.grows_map (sp : Space) (page : Nat) (effect : Effect) :
    sp.Grows (sp.map page effect) := by
  intro other here
  rw [Space.map]
  dsimp only
  rw [update_apply]
  split
  · rfl
  · exact here

theorem Space.touch_eq_some {addr : UInt64} {len : Nat} {effect : Effect}
    (touched : sp.touch addr len effect = some sp') :
    sp'.mapped = sp.mapped ∧ ∀ page ∈ pagesOf addr len, sp.mapped page = true := by
  rw [Space.touch] at touched
  split at touched
  · next all =>
    cases touched
    refine ⟨rfl, ?_⟩
    intro page here
    have both := List.all_eq_true.mp all page here
    exact (Bool.and_eq_true_iff.mp both).2
  · cases touched

theorem Space.grows_touch {addr : UInt64} {len : Nat} {effect : Effect}
    (touched : sp.touch addr len effect = some sp') : sp.Grows sp' := by
  intro page here
  rw [(Space.touch_eq_some touched).1]
  exact here

theorem grows_backPages {tables : Nat → Bool} {all : Bool} (frames : Nat) (pages : List Nat)
    (backed : backPages tables frames pages sp = some (all, sp')) : sp.Grows sp' := by
  induction pages generalizing frames sp with
  | nil =>
    rw [backPages] at backed
    cases backed
    exact .refl _
  | cons page pages ih =>
    cases frames with
    | zero =>
      rw [backPages] at backed
      cases backed
      exact .refl _
    | succ frames =>
      rw [backPages] at backed
      split at backed
      · refine Space.Grows.trans ?_ (ih frames backed)
        split
        · exact sp.grows_map page _
        · exact .refl _
      · cases backed

theorem mem_pagesOf {addr x : UInt64} {len : Nat} (low : addr ≤ x) (high : x.toNat < addr.toNat + len) :
    pageOf x ∈ pagesOf addr len := by
  rw [pagesOf, List.mem_range'_1, pageOf, pageOf]
  have lowNat : addr.toNat ≤ x.toNat := UInt64.le_iff_toNat_le.mp low
  omega

theorem Backed.grows {top : UInt64} (backed : Backed sp top) (grows : sp.Grows sp') :
    Backed sp' top := fun x low high => grows _ (backed x low high)

theorem Backed.lower {top top' : UInt64} (backed : Backed sp top) (lower : top' ≤ top) :
    Backed sp top' := fun x low high => backed x low (UInt64.lt_of_lt_of_le high lower)

/-- What a call does to the caller's heap: only `brk` moves the break, and answers with it. -/
structure HeapStep (call : Call) (ret : UInt64) (g g' : Globals) (sp sp' : Space) : Prop where
  backed : Backed sp g.brkCur → Backed sp' g'.brkCur
  told : ∀ addr, call = .brk addr → ret = g'.brkCur
  stays : (∀ addr, call ≠ .brk addr) → g'.brkCur = g.brkCur

theorem heapStep_growBrk {addr : UInt64} (grows : g.brkCur < addr)
    (ran : growBrk supply addr g sp = some (ret, g', sp')) :
    HeapStep (.brk addr) ret g g' sp sp' := by
  rw [growBrk] at ran
  obtain ⟨⟨all, sp₁⟩, backs, ran⟩ := Option.bind_eq_some_iff.mp ran
  have more := grows_backPages _ _ backs
  cases all with
  | false =>
    cases ran
    refine ⟨fun backed => backed.grows more, fun _ _ => rfl, fun other => ?_⟩
    exact absurd rfl (other addr)
  | true =>
    obtain ⟨sp₂, zeroed, ran⟩ := Option.bind_eq_some_iff.mp ran
    cases ran
    obtain ⟨same, touched⟩ := Space.touch_eq_some zeroed
    refine ⟨?_, fun _ _ => rfl, fun other => absurd rfl (other _)⟩
    intro backed x low high
    dsimp only at high
    rw [same]
    by_cases old : x < g.brkCur
    · exact more _ (backed x low old)
    · have above : g.brkCur ≤ x := UInt64.not_lt.mp old
      refine touched _ (mem_pagesOf above ?_)
      have upTo := UInt64.lt_iff_toNat_lt.mp high
      have notAbove := UInt64.le_of_lt grows
      have cur := UInt64.le_iff_toNat_le.mp notAbove
      rw [UInt64.toNat_sub_of_le _ _ notAbove]
      omega

theorem heapStep_brk {addr : UInt64} (ran : brk supply addr g sp = some (ret, g', sp')) :
    HeapStep (.brk addr) ret g g' sp sp' := by
  rw [brk] at ran
  split at ran
  · split at ran
    · next grows => exact heapStep_growBrk grows ran
    · next stays =>
      cases ran
      refine ⟨?_, fun _ _ => rfl, fun other => absurd rfl (other _)⟩
      intro backed
      exact backed.lower (UInt64.not_lt.mp stays)
  · cases ran
    exact ⟨id, fun _ _ => rfl, fun _ => rfl⟩

/-- A call other than `brk` that adds pages at most. -/
theorem heapStep_other {call : Call} (other : ∀ addr, call ≠ .brk addr)
    (stays : g'.brkCur = g.brkCur) (grows : sp.Grows sp') : HeapStep call ret g g' sp sp' where
  backed backed := by
    rw [stays]
    exact backed.grows grows
  told addr same := absurd same (other addr)
  stays _ := stays

theorem openPath_frame (path : List UInt8) (ran : openPath inodes path g sp = (ret, g', sp')) :
    g'.brkCur = g.brkCur ∧ sp.Grows sp' := by
  rw [openPath] at ran
  split at ran
  · cases ran
    exact ⟨rfl, .refl _⟩
  · split at ran
    · cases ran
      exact ⟨rfl, .refl _⟩
    · split at ran
      · cases ran
        exact ⟨rfl, .refl _⟩
      · cases ran
        exact ⟨rfl, .refl _⟩

theorem read_frame {fd buf len : UInt64} (ran : read fd buf len g sp = some (ret, g', sp')) :
    g'.brkCur = g.brkCur ∧ sp.Grows sp' := by
  rw [read] at ran
  split at ran
  · dsimp only at ran
    split at ran
    · obtain ⟨sp₁, wrote, ran⟩ := Option.bind_eq_some_iff.mp ran
      cases ran
      exact ⟨rfl, Space.grows_touch wrote⟩
    · cases ran
      exact ⟨rfl, .refl _⟩
  · split at ran
    · dsimp only at ran
      split at ran
      · cases ran
        exact ⟨rfl, .refl _⟩
      · obtain ⟨sp₁, wrote, ran⟩ := Option.bind_eq_some_iff.mp ran
        cases ran
        exact ⟨rfl, Space.grows_touch wrote⟩
    · cases ran
      exact ⟨rfl, .refl _⟩

theorem lseek_frame {fd off whence : UInt64} (ran : lseek fd off whence g sp = (ret, g', sp')) :
    g'.brkCur = g.brkCur ∧ sp.Grows sp' := by
  rw [lseek] at ran
  split at ran
  · cases ran
    exact ⟨rfl, .refl _⟩
  · split at ran
    · cases ran
      exact ⟨rfl, .refl _⟩
    · cases ran
      exact ⟨rfl, .refl _⟩

theorem close_frame {fd : UInt64} (ran : close fd g sp = (ret, g', sp')) :
    g'.brkCur = g.brkCur ∧ sp.Grows sp' := by
  rw [close] at ran
  split at ran
  · cases ran
    exact ⟨rfl, .refl _⟩
  · cases ran
    exact ⟨rfl, .refl _⟩

theorem grows_surface (tables : Nat → Bool) (phys : UInt64) (pages : List Nat) (sp : Space) :
    sp.Grows (pages.foldl (fun sp p =>
      if tables (pageOf lfbVa + p) then
        sp.map (pageOf lfbVa + p) (.surface (pageOf lfbVa + p) (phys + UInt64.ofNat (p * 4096)))
      else sp) sp) := by
  induction pages generalizing sp with
  | nil => exact .refl sp
  | cons page pages ih =>
    refine Space.Grows.trans ?_ (ih _)
    dsimp only
    split
    · exact sp.grows_map _ _
    · exact .refl sp

theorem fill_frame {p askedLen len flags fd off : UInt64}
    (ran : fill p askedLen len flags fd off g sp = some sp') : sp.Grows sp' := by
  rw [fill] at ran
  split at ran
  · exact Space.grows_touch ran
  · split at ran
    · cases ran
      exact .refl _
    · obtain ⟨sp₁, copied, ran⟩ := Option.bind_eq_some_iff.mp ran
      have first : sp.Grows sp₁ := by
        rw [copyIn] at copied
        split at copied
        · exact Space.grows_touch copied
        · cases copied
          exact .refl _
      refine first.trans ?_
      rw [zeroTail] at ran
      split at ran
      · exact Space.grows_touch ran
      · cases ran
        exact .refl _

theorem mmap_frame {addr askedLen flags fd off : UInt64}
    (ran : mmap supply addr askedLen flags fd off g sp = some (ret, g', sp')) :
    g'.brkCur = g.brkCur ∧ sp.Grows sp' := by
  rw [mmap] at ran
  split at ran
  · rw [mmapSurface] at ran
    dsimp only at ran
    generalize (if g.lfbPhys = 0 then supply.surface else some g.lfbPhys) = phys? at ran
    cases phys? with
    | none =>
      cases ran
      exact ⟨rfl, .refl _⟩
    | some phys =>
      cases ran
      exact ⟨rfl, grows_surface _ _ _ _⟩
  · dsimp only at ran
    split at ran
    · cases ran
      exact ⟨rfl, .refl _⟩
    · next p g₁ placed =>
      have cur : g₁.brkCur = g.brkCur := by
        rw [place] at placed
        split at placed
        · cases placed
          rfl
        · split at placed
          · cases placed
            rfl
          · cases placed
      obtain ⟨⟨all, sp₁⟩, backs, ran⟩ := Option.bind_eq_some_iff.mp ran
      have more := grows_backPages _ _ backs
      cases all with
      | false =>
        cases ran
        exact ⟨cur, more⟩
      | true =>
        obtain ⟨sp₂, filled, ran⟩ := Option.bind_eq_some_iff.mp ran
        cases ran
        exact ⟨cur, more.trans (fill_frame filled)⟩

/-- What every call does to the caller's heap. -/
theorem heapStep_syscall {call : Call}
    (ran : syscall inodes supply g sp call = some (ret, g', sp')) :
    HeapStep call ret g g' sp sp' := by
  cases call with
  | brk addr => exact heapStep_brk ran
  | mmap addr len flags fd off =>
    exact heapStep_other (fun _ same => by cases same) (mmap_frame ran).1 (mmap_frame ran).2
  | openPath path =>
    have frame := openPath_frame path (Option.some.inj ran)
    exact heapStep_other (fun _ same => by cases same) frame.1 frame.2
  | read fd buf len =>
    exact heapStep_other (fun _ same => by cases same) (read_frame ran).1 (read_frame ran).2
  | lseek fd off whence =>
    have frame := lseek_frame (Option.some.inj ran)
    exact heapStep_other (fun _ same => by cases same) frame.1 frame.2
  | close fd =>
    have frame := close_frame (Option.some.inj ran)
    exact heapStep_other (fun _ same => by cases same) frame.1 frame.2

end Heap

/-! ## Runs -/

section Runs

variable {Task : Type} [DecidableEq Task]

/-- The machine, with each task's view of the globals: as its own calls and the keyboard have left
them. -/
structure Watched (Task : Type) where
  system : System Task
  views : Task → Globals

def Watched.start (lfbPhys : UInt64) (spaces : Task → Space) : Watched Task :=
  ⟨⟨.start lfbPhys, spaces⟩, fun _ => .start lfbPhys⟩

def Watched.step (inodes : List Inode) (w : Watched Task) :
    Event Task → Option (Option UInt64 × Watched Task)
  | .call t call supply =>
    match w.system.step inodes (.call t call supply) with
    | none => none
    | some (answer, system) =>
      some (answer, ⟨system,
        update w.views t (w.system.globals.left system.globals (w.views t))⟩)
  | .key b =>
    some (none, ⟨⟨w.system.globals.pushKey b, w.system.spaces⟩, fun t => (w.views t).pushKey b⟩)

/-- A call finds what it consults as in its caller's view. -/
def Undisturbed (inodes : List Inode) (w : Watched Task) : Event Task → Prop
  | .call t call _ => Agree inodes w.system.globals (w.views t) call
  | .key _ => True

/-- The event is one that a task takes part in when it runs alone. -/
def concerns (t : Task) (entry : Event Task × Option UInt64) : Bool :=
  match entry.1 with
  | .call u _ _ => u = t
  | .key _ => true

/-- The break that a task was told last. -/
def lastBreak (t : Task) : List (Event Task × Option UInt64) → Option UInt64
  | [] => none
  | (.call u (.brk _) _, answer) :: history => if u = t then answer else lastBreak t history
  | _ :: history => lastBreak t history

variable {inodes : List Inode} {w w' : Watched Task} {t u : Task} {call : Call} {supply : Supply}
  {answer : Option UInt64} {history : List (Event Task × Option UInt64)} {lfbPhys : UInt64}
  {spaces : Task → Space}

theorem step_call_eq (s : System Task) (t : Task) (call : Call) (supply : Supply) :
    s.step inodes (.call t call supply) =
      (syscall inodes supply s.globals (s.spaces t) call).map fun (ret, globals, space) =>
        (some ret, ⟨globals, update s.spaces t space⟩) := by
  rw [System.step]
  cases syscall inodes supply s.globals (s.spaces t) call with
  | none => rfl
  | some reply => rfl

theorem watched_call_eq_some
    (done : w.step inodes (.call t call supply) = some (answer, w')) :
    ∃ ret globals space, syscall inodes supply w.system.globals (w.system.spaces t) call =
        some (ret, globals, space) ∧ answer = some ret ∧
      w' = ⟨⟨globals, update w.system.spaces t space⟩,
        update w.views t (w.system.globals.left globals (w.views t))⟩ := by
  rw [Watched.step, step_call_eq] at done
  cases ran : syscall inodes supply w.system.globals (w.system.spaces t) call with
  | none =>
    rw [ran] at done
    cases done
  | some reply =>
    obtain ⟨ret, globals, space⟩ := reply
    rw [ran] at done
    cases done
    exact ⟨ret, globals, space, rfl, rfl, rfl⟩

/-- An undisturbed call is answered on its caller's view as it is in the machine, and leaves the
caller's view and address space the same. -/
theorem view_of_call (allowed : Undisturbed inodes w (.call t call supply))
    (done : w.step inodes (.call t call supply) = some (answer, w')) :
    ∃ ret, answer = some ret ∧
      syscall inodes supply (w.views t) (w.system.spaces t) call =
        some (ret, w'.views t, w'.system.spaces t) := by
  obtain ⟨ret, globals, space, ran, rfl, rfl⟩ := watched_call_eq_some done
  refine ⟨ret, rfl, ?_⟩
  have same := @sameReply_syscall inodes supply _ _ (w.system.spaces t) call allowed
  rw [ran] at same
  cases alone : syscall inodes supply (w.views t) (w.system.spaces t) call with
  | none =>
    rw [alone] at same
    exact same.elim
  | some reply =>
    obtain ⟨ret', v', space'⟩ := reply
    rw [alone] at same
    obtain ⟨rfl, rfl, rfl⟩ := same
    simp

/-- A call leaves the other tasks' views and address spaces alone. -/
theorem other_of_call (other : u ≠ t)
    (done : w.step inodes (.call t call supply) = some (answer, w')) :
    w'.views u = w.views u ∧ w'.system.spaces u = w.system.spaces u := by
  obtain ⟨ret, globals, space, ran, rfl, rfl⟩ := watched_call_eq_some done
  simp [other]

/-- The machine in which a task runs alone, beside the machine in which all run. -/
structure Beside (inodes : List Inode) (t : Task) (start : System Task)
    (history : List (Event Task × Option UInt64)) (w : Watched Task) (solo : System Task) :
    Prop where
  run : Run (System.step inodes) (fun _ _ => True) start (history.filter (concerns t)) solo
  globals : solo.globals = w.views t
  space : solo.spaces t = w.system.spaces t

theorem beside_call {start : System Task} {solo : System Task}
    (beside : Beside inodes t start history w solo)
    (allowed : Undisturbed inodes w (.call u call supply))
    (done : w.step inodes (.call u call supply) = some (answer, w')) :
    ∃ solo', Beside inodes t start ((.call u call supply, answer) :: history) w' solo' := by
  by_cases mine : u = t
  · subst mine
    obtain ⟨ret, rfl, alone⟩ := view_of_call allowed done
    have next : solo.step inodes (.call u call supply) =
        some (some ret, ⟨w'.views u, update solo.spaces u (w'.system.spaces u)⟩) := by
      rw [step_call_eq, beside.globals, beside.space, alone]
      rfl
    have kept : concerns u (Event.call u call supply, some ret) = true := decide_eq_true rfl
    refine ⟨⟨w'.views u, update solo.spaces u (w'.system.spaces u)⟩, ⟨?_, rfl, ?_⟩⟩
    · rw [List.filter_cons_of_pos kept]
      exact beside.run.next trivial next
    · exact update_self u (w'.system.spaces u) solo.spaces
  · obtain ⟨view, space⟩ := other_of_call (Ne.symm mine) done
    have dropped : ¬ concerns t (Event.call u call supply, answer) = true := by
      simpa [concerns] using mine
    refine ⟨solo, ?_, ?_, ?_⟩
    · rw [List.filter_cons_of_neg dropped]
      exact beside.run
    · rw [view]
      exact beside.globals
    · rw [space]
      exact beside.space

/-- The calls of one task with the answers they got are a run of the task alone. -/
theorem exists_beside
    (run : Run (Watched.step inodes) (Undisturbed inodes) (.start lfbPhys spaces) history w)
    (t : Task) : ∃ solo, Beside inodes t ⟨.start lfbPhys, spaces⟩ history w solo := by
  induction run with
  | start => exact ⟨_, .start, rfl, rfl⟩
  | @next history w w' op answer before allowed done ih =>
    obtain ⟨solo, beside⟩ := ih
    cases op with
    | call u call supply => exact beside_call beside allowed done
    | key b =>
      cases done
      refine ⟨⟨solo.globals.pushKey b, solo.spaces⟩, ?_, ?_, beside.space⟩
      · rw [List.filter_cons_of_pos rfl]
        exact beside.run.next trivial rfl
      · rw [beside.globals]

/-- A task's heap is backed up to the break in its view, which is the break it was told. -/
structure Heap (t : Task) (history : List (Event Task × Option UInt64)) (w : Watched Task) :
    Prop where
  backed : Backed (w.system.spaces t) (w.views t).brkCur
  told : ∀ b, lastBreak t history = some b → b = (w.views t).brkCur

theorem brkCur_pushKey (g : Globals) (b : UInt8) : (g.pushKey b).brkCur = g.brkCur := by
  rw [Globals.pushKey]
  split
  · rfl
  · rfl

theorem lastBreak_of_ne (other : u ≠ t) :
    lastBreak t ((.call u call supply, answer) :: history) = lastBreak t history := by
  cases call with
  | brk addr => exact if_neg other
  | _ => rfl

theorem heap_call (heap : Heap t history w) (allowed : Undisturbed inodes w (.call u call supply))
    (done : w.step inodes (.call u call supply) = some (answer, w')) :
    Heap t ((.call u call supply, answer) :: history) w' := by
  by_cases mine : u = t
  · subst mine
    obtain ⟨ret, rfl, alone⟩ := view_of_call allowed done
    have step := heapStep_syscall alone
    refine ⟨step.backed heap.backed, ?_⟩
    intro b told
    cases call with
    | brk addr =>
      have answered : some ret = some b := (if_pos rfl).symm.trans told
      cases answered
      exact step.told addr rfl
    | _ => exact (heap.told b told).trans (step.stays fun _ same => by cases same).symm
  · obtain ⟨view, space⟩ := other_of_call (Ne.symm mine) done
    refine ⟨?_, ?_⟩
    · rw [view, space]
      exact heap.backed
    · rw [view, lastBreak_of_ne mine]
      exact heap.told

theorem heap_of_run
    (run : Run (Watched.step inodes) (Undisturbed inodes) (.start lfbPhys spaces) history w)
    (t : Task) : Heap t history w := by
  induction run with
  | start =>
    refine ⟨?_, fun b none => by cases none⟩
    intro x low high
    exact absurd low (UInt64.not_le.mpr high)
  | @next history w w' op answer before allowed done ih =>
    cases op with
    | call u call supply => exact heap_call ih allowed done
    | key b =>
      cases done
      refine ⟨?_, ?_⟩
      · rw [brkCur_pushKey]
        exact ih.backed
      · rw [brkCur_pushKey]
        exact ih.told

/-- **Tasks that do not disturb each other**: in every run in which each call finds what it consults
as its caller's own calls have left it, the calls of a task with the answers they got, and the keys,
are a run of the task alone, in which the kernel has done the same to its address space; the next
undisturbed call is answered as it is there; and every address of the heap below the break that the
task was told last is mapped in its address space. -/
theorem alone_of_run
    (run : Run (Watched.step inodes) (Undisturbed inodes) (.start lfbPhys spaces) history w)
    (t : Task) :
    (∃ solo, Run (System.step inodes) (fun _ _ => True) ⟨.start lfbPhys, spaces⟩
        (history.filter (concerns t)) solo ∧ solo.spaces t = w.system.spaces t ∧
      ∀ call supply, Undisturbed inodes w (.call t call supply) →
        (w.step inodes (.call t call supply)).map Prod.fst =
          (solo.step inodes (.call t call supply)).map Prod.fst) ∧
      ∀ b, lastBreak t history = some b → Backed (w.system.spaces t) b := by
  constructor
  · obtain ⟨solo, beside⟩ := exists_beside run t
    refine ⟨solo, beside.run, beside.space, ?_⟩
    intro call supply allowed
    have same := @sameReply_syscall inodes supply _ _ (w.system.spaces t) call allowed
    rw [Watched.step, step_call_eq, step_call_eq, beside.globals, beside.space]
    cases here : syscall inodes supply w.system.globals (w.system.spaces t) call with
    | none =>
      cases there : syscall inodes supply (w.views t) (w.system.spaces t) call with
      | none => rfl
      | some reply =>
        rw [here, there] at same
        exact same.elim
    | some reply =>
      cases there : syscall inodes supply (w.views t) (w.system.spaces t) call with
      | none =>
        rw [here, there] at same
        exact same.elim
      | some reply' =>
        rw [here, there] at same
        exact congrArg (fun ret => some (some ret)) same.1.symm
  · intro b told
    have heap := heap_of_run run t
    rw [heap.told b told]
    exact heap.backed

/-! ### Samples -/

/-- A file of three bytes. -/
def sampleInodes : List Inode := [⟨[0x61], [1, 2, 3]⟩]

/-- Address spaces in which nothing is mapped. -/
def bare : Nat → Space := fun _ => ⟨fun _ => false, []⟩

/-- An allocator with frames enough. -/
def plenty : Supply := ⟨16, fun _ => true, none⟩

/-- A break of two pages. -/
def twoPages : UInt64 := brkBase + 8192

theorem alone_of_run_sample : ∃ (history : List (Event Nat × Option UInt64)) (w : Watched Nat),
    lastBreak 0 history = some twoPages ∧ Backed (w.system.spaces 0) twoPages ∧
      ∃ solo, Run (System.step sampleInodes) (fun _ _ => True) ⟨.start 0, bare⟩
        (history.filter (concerns 1)) solo ∧ solo.spaces 1 = w.system.spaces 1 := by
  have first : Run (Watched.step sampleInodes) (Undisturbed sampleInodes) (.start 0 bare)
      [(.call 0 (.brk twoPages) plenty, some twoPages)] _ := .next .start ⟨rfl, fun _ => rfl⟩ rfl
  have second : Run (Watched.step sampleInodes) (Undisturbed sampleInodes) (.start 0 bare)
      [(.call 1 (.openPath [0x61]) plenty, some 3),
        (.call 0 (.brk twoPages) plenty, some twoPages)] _ :=
    .next first (fun _ _ _ => rfl) rfl
  obtain ⟨⟨solo, alone, space, _⟩, _⟩ := alone_of_run second 1
  exact ⟨_, _, rfl, (alone_of_run second 0).2 twoPages rfl, solo, alone, space⟩

/-- A task moves the break, and another is told so: nothing below it is mapped in its address space.
A task opens a file, and another seeks in it. -/
theorem not_alone :
    (∃ s₁ s₂ : System Nat,
      System.step [] ⟨.start 0, bare⟩ (.call 0 (.brk twoPages) plenty) =
        some (some twoPages, s₁) ∧
      System.step [] s₁ (.call 1 (.brk 0) plenty) = some (some twoPages, s₂) ∧
      (System.step [] ⟨.start 0, bare⟩ (.call 1 (.brk 0) plenty)).map Prod.fst =
        some (some brkBase) ∧
      ¬ Backed (s₂.spaces 1) twoPages) ∧
    ∃ s₁ s₂ s₃ : System Nat,
      System.step sampleInodes ⟨.start 0, bare⟩ (.call 0 (.openPath [0x61]) plenty) =
        some (some 3, s₁) ∧
      System.step sampleInodes s₁ (.call 1 (.lseek 3 2 0) plenty) = some (some 2, s₂) ∧
      System.step sampleInodes s₂ (.call 0 (.lseek 3 0 1) plenty) = some (some 2, s₃) ∧
      (System.step sampleInodes s₁ (.call 0 (.lseek 3 0 1) plenty)).map Prod.fst =
        some (some 0) := by
  refine ⟨⟨_, _, rfl, rfl, rfl, ?_⟩, _, _, _, rfl, rfl, rfl, rfl⟩
  intro backed
  have here := backed brkBase (by decide) (by decide)
  cases here

end Runs

end RustyPenguin.Linux
