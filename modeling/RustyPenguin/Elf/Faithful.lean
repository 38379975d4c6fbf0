import RustyPenguin.Elf.Spaces

/-!
# Faithful images

An image is faithful when every byte of every segment is what the file says, the file was long
enough, and the two kinds of loader agree on it. The scheduled loaders give each page of each
segment a frame of its own, full of zeros at first, and map it in place of what was there. So where
two segments share a page the bytes of the first are lost, and a file that is too short is loaded
with zeros.

A spawn is faithful exactly when this does not happen (`image_iff`): no page that holds a byte of a
segment other than zero is a page of a later segment, nothing that is mapped after the segments
changes a byte of theirs, and the file is long enough.
-/

set_option autoImplicit false

namespace RustyPenguin.Elf

open Vmm
open Layers (overlay single top)
open Sched (Scheduler Slot)

/-! ## The flat image -/

/-- What `loadBias` writes for a segment: the bytes of the file part, and zeros up to the page
boundary. -/
def Segment.flat (seg : Segment) (a : Nat) : Option (BitVec 8) :=
  if seg.vaddr.toNat ≤ a ∧ a < seg.vaddr.toNat + seg.filesz.toNat then some (seg.byteAt a)
  else if seg.vaddr.toNat ≤ a ∧ a < seg.vaddr.toNat + (seg.stop - seg.vaddr).toNat then some 0
  else none

def flatLayers (elf : File) (bias : BitVec 64) (table : HeaderTable) (s : Nat) :
    Nat → Option (BitVec 8) :=
  match segmentAt elf bias table s with
  | some (some seg) => if seg.memsz = 0 then Layers.empty else seg.flat
  | _ => Layers.empty

theorem placeSegment_spec {seg : Segment} {mem mem' : FlatMemory}
    (done : placeSegment seg mem = some mem') (a : Nat) : mem' a = (seg.flat a).getD (mem a) := by
  simp only [placeSegment] at done
  split at done
  · split at done
    · rename_i fits
      cases done
      rw [putBytes, zeroBytes, Segment.flat, Segment.byteAt]
      by_cases file : seg.vaddr.toNat ≤ a ∧ a < seg.vaddr.toNat + seg.filesz.toNat
      · have inside : a - seg.vaddr.toNat < seg.filesz.toNat := by omega
        rw [if_pos file, if_pos file, if_pos file.1, Option.getD_some, List.getD_eq_getElem?_getD,
          List.getElem?_take_of_lt inside, List.getElem?_drop, byteOf, List.getD_eq_getElem?_getD,
          List.getElem?_eq_getElem (by omega), Option.getD_some, Option.getD_some]
      · rw [if_neg file]
        by_cases after : seg.vaddr.toNat ≤ a
        · rw [if_pos after, List.getD_eq_default]
          · split
            · rfl
            · rfl
          · rw [List.length_take]
            omega
        · have low : ¬(seg.vaddr.toNat ≤ a ∧ a < seg.vaddr.toNat + (seg.stop - seg.vaddr).toNat) :=
            fun inside => after inside.1
          rw [if_neg after, if_neg low, if_neg low, Option.getD_none]
    · cases done
  · rename_i none
    cases done
    have zero : seg.filesz.toNat = 0 := congrArg BitVec.toNat (not_not.mp none)
    have noFile : ¬(seg.vaddr.toNat ≤ a ∧ a < seg.vaddr.toNat + seg.filesz.toNat) := by omega
    rw [zeroBytes, Segment.flat, if_neg noFile]
    split
    · rfl
    · rfl

/-- **The last segment that writes to an address counts.** -/
theorem placeSegments_spec {elf : File} {bias : BitVec 64} {table : HeaderTable} {mem : FlatMemory}
    (n : Nat) : ∀ {mem' : FlatMemory}, placeSegments elf bias table mem n = some mem' → ∀ a,
      mem' a = (top (flatLayers elf bias table) n a).getD (mem a) := by
  induction n with
  | zero =>
    rintro mem' ⟨⟩ a
    rfl
  | succ n ih =>
    intro mem' done a
    rw [placeSegments] at done
    split at done
    · cases done
    rename_i mem₁ before
    have below := ih before a
    split at done
    · rename_i fits
      split at done
      · cases done
      rename_i ph read
      have header : segmentAt elf bias table n =
          some (if ph.type = ptLoad then some (ph.segment elf bias) else none) := by
        simp only [segmentAt, fits, if_true, read, Option.map_some]
      rw [top, overlay, flatLayers, header]
      split at done
      · rename_i skipped
        cases done
        by_cases isLoad : ph.type = ptLoad
        · have none : (ph.segment elf bias).memsz = 0 := skipped.resolve_left (not_not.mpr isLoad)
          simp only [isLoad, if_true, none]
          exact below
        · simp only [isLoad, if_false]
          exact below
      · rename_i loads
        obtain ⟨isLoad, some⟩ := not_or.mp loads
        have isLoad := not_not.mp isLoad
        have some : (ph.segment elf bias).memsz ≠ 0 := some
        simp only [isLoad, if_true, some, if_false]
        rw [placeSegment_spec done a, below]
        cases (ph.segment elf bias).flat a with
        | some b => rfl
        | none => rfl
    · cases done

/-! ## Faithful images -/

variable {A : Type} [LawfulFrameAlloc A]

/-- **The image of a file is faithful**: the file was long enough, the address space maps every byte
of every segment to what the file says, and so does the memory that `loadBias` leaves. -/
structure Faithful (elf : File) (bias : BitVec 64) (vm : State A) (root : BitVec 64) : Prop where
  fits : ∀ s seg, IsSegment elf bias s seg → seg.InFile
  mapped : ∀ s seg a, IsSegment elf bias s seg → seg.Has a → vm.byteAt root a = some (seg.byteAt a)
  agrees : ∀ mem entry mem', loadBias elf bias mem = some (entry, mem') →
    ∀ s seg a, IsSegment elf bias s seg → seg.Has a → mem' a = seg.byteAt a

/-- The addresses that `loadBias` zeroes for a segment. -/
def Segment.Clears (seg : Segment) (a : Nat) : Prop :=
  seg.memsz ≠ 0 ∧ seg.vaddr.toNat ≤ a ∧ a < seg.vaddr.toNat + (seg.stop - seg.vaddr).toNat

/-- **Nothing of the image is lost**: the file is long enough, the segments are in the lower half, no
page with a byte other than zero is taken by a later segment, and what is mapped after the
segments has their bytes. Where `loadBias` takes the file, no later segment zeroes such a byte. -/
structure Kept (elf : File) (bias : BitVec 64)
    (later : HeaderTable → Nat → Option (Nat → BitVec 8)) : Prop where
  fits : ∀ s seg, IsSegment elf bias s seg → seg.InFile
  low : ∀ s seg, IsSegment elf bias s seg → seg.Low
  pages : ∀ table s seg a, headerTable elf = some table → IsSegment elf bias s seg → seg.Has a →
    seg.byteAt a ≠ 0 → later table (a / 4096) = none →
    ∀ s' seg', s < s' → IsSegment elf bias s' seg' → ¬seg'.Takes (a / 4096)
  after : ∀ table s seg a contents, headerTable elf = some table → IsSegment elf bias s seg →
    seg.Has a → later table (a / 4096) = some contents → contents (a % 4096) = seg.byteAt a
  flat : ∀ mem, (loadBias elf bias mem).isSome → ∀ s seg a, IsSegment elf bias s seg → seg.Has a →
    seg.byteAt a ≠ 0 → ∀ s' seg', s < s' → IsSegment elf bias s' seg' → ¬seg'.Clears a

section Image

variable {elf : File} {bias : BitVec 64} {table : HeaderTable} {a s s' : Nat} {seg seg' : Segment}

theorem IsSegment.loadable (isElf : IsElf64 elf bias) (isSegment : IsSegment elf bias s seg)
    (fits : seg.InFile) (low : seg.Low) : seg.Loadable where
  proper := isElf.proper s seg isSegment
  inFile := fits
  low := low
  length := by
    obtain ⟨table, -, -, here⟩ := isSegment
    rw [elf_of_segmentAt here]
    exact isElf.length

/-- Away from its own bytes a proper segment asks for zeros. -/
theorem Segment.byteAt_of_not_has (away : ¬seg.Has a) : seg.byteAt a = 0 := by
  refine if_neg fun inside => away ⟨inside.1, ?_⟩
  exact Nat.lt_of_lt_of_le inside.2 (Nat.add_le_add_left (Nat.le_max_left _ _) _)

/-- **The page of a byte after all segments**: the last segment that takes it says what it holds. -/
theorem image_page (isTable : headerTable elf = some table)
    (loadable : ∀ s seg, IsSegment elf bias s seg → seg.Loadable)
    (isSegment : IsSegment elf bias s seg) (has : seg.Has a) :
    ∃ last final contents, IsSegment elf bias last final ∧ final.Takes (a / 4096) ∧
      (∀ s' seg', last < s' → IsSegment elf bias s' seg' → ¬seg'.Takes (a / 4096)) ∧
      imagePages elf bias table table.phnum.toNat (a / 4096) = some contents ∧
      contents (a % 4096) = final.byteAt a := by
  have low : a / 4096 < lowPages := by
    have := (loadable s seg isSegment).low a has
    rw [lowPages]
    omega
  have pagesOf : ∀ {s seg}, IsSegment elf bias s seg →
      s < table.phnum.toNat ∧ segmentPages elf bias table s = seg.pages := by
    rintro s seg ⟨table', isTable', inside, here⟩
    cases isTable.symm.trans isTable'
    exact ⟨inside, by rw [segmentPages, here]⟩
  have taken := (loadable s seg isSegment).takes has
  have isMapped : imagePages elf bias table table.phnum.toNat (a / 4096) ≠ none := by
    intro none
    obtain ⟨inside, same⟩ := pagesOf isSegment
    have untaken := Layers.top_eq_none.mp none s inside
    rw [same] at untaken
    exact Segment.pages_eq_none.mp untaken taken
  obtain ⟨contents, found⟩ := Option.ne_none_iff_exists'.mp isMapped
  obtain ⟨last, inside, here, after⟩ := Layers.top_eq_some.mp found
  rw [segmentPages] at here
  rcases isFinal : segmentAt elf bias table last with _ | _ | final
  · rw [isFinal] at here
    cases here
  · rw [isFinal] at here
    cases here
  rw [isFinal] at here
  have here : final.pages (a / 4096) = some contents := here
  have isLast : IsSegment elf bias last final := ⟨table, isTable, inside, isFinal⟩
  have takes : final.Takes (a / 4096) := by
    by_contra untaken
    rw [Segment.pages_eq_none.mpr untaken] at here
    cases here
  refine ⟨last, final, contents, isLast, takes, fun s' seg' above isSegment' => ?_, found, ?_⟩
  · obtain ⟨inside', same⟩ := pagesOf isSegment'
    have untaken := after s' above inside'
    rw [same] at untaken
    exact Segment.pages_eq_none.mp untaken
  · rw [(loadable last final isLast).pages_eq_some low here (Nat.mod_lt _ (by decide)),
      Nat.div_add_mod' a 4096]

/-- A byte of a loadable segment is among those `loadBias` writes for it. -/
theorem Segment.Loadable.flat_eq (loadable : seg.Loadable) (has : seg.Has a) :
    seg.memsz ≠ 0 ∧ seg.flat a = some (seg.byteAt a) := by
  obtain ⟨above, below⟩ := has
  have size := Segment.size_of_proper loadable.proper
  have ends := loadable.low.end_le (by omega)
  have memory : seg.memsz ≠ 0 := by
    intro none
    have zero : seg.memsz.toNat = 0 := congrArg BitVec.toNat none
    omega
  refine ⟨memory, ?_⟩
  rw [Segment.flat]
  by_cases file : a < seg.vaddr.toNat + seg.filesz.toNat
  · rw [if_pos ⟨above, file⟩]
  · have zero : seg.byteAt a = 0 := if_neg fun inside => file inside.2
    have zeroed : a < seg.vaddr.toNat + (seg.stop - seg.vaddr).toNat := by
      rw [BitVec.toNat_sub, Segment.stop_toNat]
      omega
    rw [if_neg fun inside => file inside.2, if_pos ⟨above, zeroed⟩, zero]

/-- **The byte of an address after `loadBias`**: the last segment that writes there says what it is. -/
theorem flat_byte {mem mem' : FlatMemory} {entry : BitVec 64}
    (loadable : ∀ s seg, IsSegment elf bias s seg → seg.Loadable)
    (loaded : loadBias elf bias mem = some (entry, mem')) (isSegment : IsSegment elf bias s seg)
    (has : seg.Has a) :
    ∃ last final, s ≤ last ∧ IsSegment elf bias last final ∧ final.memsz ≠ 0 ∧
      final.flat a = some (mem' a) ∧
      ∀ s' seg', last < s' → IsSegment elf bias s' seg' → ¬seg'.Clears a := by
  obtain ⟨table, isTable, inside, here⟩ := isSegment
  have placed : placeSegments elf bias table mem table.phnum.toNat = some mem' := by
    rw [loadBias] at loaded
    split at loaded
    · split at loaded
      · rename_i table' entry' isTable' _
        cases isTable.symm.trans isTable'
        split at loaded
        · cases loaded
        · obtain ⟨mem₁, placed, same⟩ := Option.map_eq_some_iff.mp loaded
          cases same
          exact placed
      · cases loaded
    · cases loaded
  obtain ⟨memory, flat⟩ := (loadable s seg ⟨table, isTable, inside, here⟩).flat_eq has
  have written : flatLayers elf bias table s a = some (seg.byteAt a) := by
    rw [flatLayers, here]
    simp only [memory, if_false]
    exact flat
  have isWritten : top (flatLayers elf bias table) table.phnum.toNat a ≠ none := by
    intro none
    rw [Layers.top_eq_none.mp none s inside] at written
    cases written
  obtain ⟨b, found⟩ := Option.ne_none_iff_exists'.mp isWritten
  have byte := placeSegments_spec _ placed a
  rw [found, Option.getD_some] at byte
  obtain ⟨last, lastInside, lastHere, after⟩ := Layers.top_eq_some.mp found
  have above : s ≤ last := by
    by_contra below
    rw [after s (by omega) inside] at written
    cases written
  rw [flatLayers] at lastHere
  rcases isFinal : segmentAt elf bias table last with _ | _ | final
  · rw [isFinal] at lastHere
    cases lastHere
  · rw [isFinal] at lastHere
    cases lastHere
  rw [isFinal] at lastHere
  have lastHere : (if final.memsz = 0 then Layers.empty else final.flat) a = some b := lastHere
  by_cases none : final.memsz = 0
  · rw [if_pos none] at lastHere
    cases lastHere
  rw [if_neg none] at lastHere
  refine ⟨last, final, above, ⟨table, isTable, lastInside, isFinal⟩, none, byte ▸ lastHere, ?_⟩
  rintro s' seg' later ⟨table', isTable', inside', here'⟩ ⟨memory', start, zeroed⟩
  cases isTable.symm.trans isTable'
  have unwritten := after s' later inside'
  rw [flatLayers, here'] at unwritten
  simp only [memory', if_false, Segment.flat] at unwritten
  split at unwritten
  · cases unwritten
  · rw [if_pos ⟨start, zeroed⟩] at unwritten
    cases unwritten

/-- What a segment writes to an address that is not one of its bytes is zero, in an address it
clears. -/
theorem Segment.flat_away {b : BitVec 8} (memory : seg.memsz ≠ 0) (away : ¬seg.Has a)
    (written : seg.flat a = some b) : b = 0 ∧ seg.Clears a := by
  rw [Segment.flat] at written
  split at written
  · rename_i file
    refine absurd ⟨file.1, ?_⟩ away
    exact Nat.lt_of_lt_of_le file.2 (Nat.add_le_add_left (Nat.le_max_left _ _) _)
  · split at written
    · rename_i zeroed
      cases written
      exact ⟨rfl, memory, zeroed⟩
    · cases written

/-- **Faithful exactly when nothing is lost**: in a space that holds the pages of the program with
later ones laid over. -/
theorem faithful_iff {roots : List (BitVec 64)} {root : BitVec 64} {vm : State A}
    {later : HeaderTable → Nat → Option (Nat → BitVec 8)} (isElf : IsElf64 elf bias)
    (disjoint : DisjointSegments elf bias) (holds : HoldsProgram roots root vm elf bias later) :
    Faithful elf bias vm root ↔ Kept elf bias later := by
  obtain ⟨table, pages, isTable, holds, laid⟩ := holds
  constructor
  · intro faithful
    have low : ∀ s seg, IsSegment elf bias s seg → seg.Low := by
      intro s seg isSegment a has
      have mapped := faithful.mapped s seg a isSegment has
      rw [State.byteAt] at mapped
      split at mapped
      · assumption
      · cases mapped
    have loadable : ∀ s seg, IsSegment elf bias s seg → seg.Loadable := fun s seg isSegment =>
      isSegment.loadable isElf (faithful.fits s seg isSegment) (low s seg isSegment)
    -- what the page of a byte of a segment holds in the end
    have pageOf : ∀ {s seg a}, IsSegment elf bias s seg → seg.Has a →
        (pages (a / 4096)).map (fun contents => contents (a % 4096)) = some (seg.byteAt a) ∧
        a / 4096 < lowPages := by
      intro s seg a isSegment has
      have small := low s seg isSegment a has
      refine ⟨(holds.byteAt small).symm.trans (faithful.mapped s seg a isSegment has), ?_⟩
      rw [lowPages]
      omega
    refine ⟨faithful.fits, low, ?_, ?_, ?_⟩
    · intro table' s seg a isTable' isSegment has byte untouched s' seg' above isSegment' takes
      cases isTable.symm.trans isTable'
      obtain ⟨last, final, contents, isFinal, -, after, image, value⟩ :=
        image_page isTable loadable isSegment has
      obtain ⟨held, lowPage⟩ := pageOf isSegment has
      have mapped : imagePages elf bias table table.phnum.toNat (a / 4096) ≠ none := by
        rw [image]
        exact Option.some_ne_none _
      rw [laid _ lowPage mapped, Layers.overlay_of_none untouched, image, Option.map_some, value] at held
      have order : s < last := by
        by_contra notAfter
        exact after s' seg' (by omega) isSegment' takes
      have away := disjoint s last seg final a isSegment isFinal (Nat.ne_of_lt order) has
      rw [Segment.byteAt_of_not_has away] at held
      exact byte (Option.some.inj held).symm
    · intro table' s seg a contents isTable' isSegment has found
      cases isTable.symm.trans isTable'
      obtain ⟨last, final, below, isFinal, -, after, image, value⟩ :=
        image_page isTable loadable isSegment has
      obtain ⟨held, lowPage⟩ := pageOf isSegment has
      have mapped : imagePages elf bias table table.phnum.toNat (a / 4096) ≠ none := by
        rw [image]
        exact Option.some_ne_none _
      rw [laid _ lowPage mapped, Layers.overlay_of_some found, Option.map_some] at held
      exact Option.some.inj held
    · intro mem accepted s seg a isSegment has byte s' seg' above isSegment' clears
      obtain ⟨⟨entry, mem'⟩, loaded⟩ := Option.isSome_iff_exists.mp accepted
      obtain ⟨last, final, -, isFinal, memory, flat, after⟩ :=
        flat_byte loadable loaded isSegment has
      have order : s < last := by
        by_contra notAfter
        exact after s' seg' (by omega) isSegment' clears
      have away := disjoint s last seg final a isSegment isFinal (Nat.ne_of_lt order) has
      obtain ⟨zero, -⟩ := Segment.flat_away memory away flat
      exact byte ((faithful.agrees mem entry mem' loaded s seg a isSegment has).symm.trans zero)
  · intro kept
    have loadable : ∀ s seg, IsSegment elf bias s seg → seg.Loadable := fun s seg isSegment =>
      isSegment.loadable isElf (kept.fits s seg isSegment) (kept.low s seg isSegment)
    refine ⟨kept.fits, ?_, ?_⟩
    · intro s seg a isSegment has
      have small := kept.low s seg isSegment a has
      obtain ⟨last, final, contents, isFinal, takes, after, image, value⟩ :=
        image_page isTable loadable isSegment has
      have lowPage : a / 4096 < lowPages := by
        rw [lowPages]
        omega
      have mapped : imagePages elf bias table table.phnum.toNat (a / 4096) ≠ none := by
        rw [image]
        exact Option.some_ne_none _
      rw [holds.byteAt small, laid _ lowPage mapped]
      cases found : later table (a / 4096) with
      | some contents' =>
        rw [Layers.overlay_of_some found, Option.map_some]
        exact congrArg some (kept.after table s seg a contents' isTable isSegment has found)
      | none =>
        rw [Layers.overlay_of_none found, image, Option.map_some, value]
        refine congrArg some ?_
        by_cases same : s = last
        · subst same
          rw [isSegment.unique isFinal]
        · have away := disjoint s last seg final a isSegment isFinal same has
          rw [Segment.byteAt_of_not_has away]
          by_contra byte
          have taken := (loadable s seg isSegment).takes has
          rcases Nat.lt_or_gt_of_ne same with before | behind
          · exact kept.pages table s seg a isTable isSegment has (Ne.symm byte) found last final
              before isFinal takes
          · exact after s seg behind isSegment taken
    · intro mem entry mem' loaded s seg a isSegment has
      obtain ⟨last, final, above, isFinal, memory, flat, after⟩ :=
        flat_byte loadable loaded isSegment has
      by_cases same : s = last
      · subst same
        cases isSegment.unique isFinal
        obtain ⟨-, flat'⟩ := (loadable s seg isSegment).flat_eq has
        exact Option.some.inj (flat.symm.trans flat')
      · have away := disjoint s last seg final a isSegment isFinal same has
        obtain ⟨zero, clears⟩ := Segment.flat_away memory away flat
        rw [zero]
        by_contra byte
        exact kept.flat mem (Option.isSome_iff_exists.mpr ⟨_, loaded⟩) s seg a isSegment has
          (Ne.symm byte) last final (by omega) isFinal clears

end Image

/-! ## Spawns -/

/-- The ways to spawn a file, with what each takes beside it. -/
inductive Call where
  | ring3 (stackTop : BitVec 64) (stackPages : Nat) (fbFrame : BitVec 64)
  | linuxStatic (ticks : BitVec 64)
  | linuxDyn (ticks : BitVec 64)

namespace Call

def bias (elf : File) : Call → BitVec 64
  | ring3 _ _ _ | linuxStatic _ => 0
  | linuxDyn _ => progBias elf

def run (ramfs : File → Option File) (elf : File) :
    Call → State A → Scheduler → Option (Slot × Scheduler × State A)
  | ring3 stackTop stackPages fbFrame => spawnRing3ElfCfg elf stackTop stackPages fbFrame
  | linuxStatic ticks => spawnLinuxStaticElf elf ticks
  | linuxDyn ticks => spawnLinuxDynElf ramfs elf ticks

/-- What is mapped after the segments: the surface, the stack with the start block, and the
interpreter. -/
def later (ramfs : File → Option File) (elf : File) (vm : State A) :
    Call → HeaderTable → Nat → Option (Nat → BitVec 8)
  | ring3 stackTop stackPages fbFrame => fun _ => overlay (surfaceLayer vm fbFrame)
      (stackLayers (stackBottom stackTop stackPages) (stackCount stackTop stackPages))
  | linuxStatic ticks => fun table =>
      linuxLayers ticks (startWords elf table 0 0 ((rdU64 elf 24).getD 0))
  | linuxDyn ticks => dynLayers ramfs elf ticks ((rdU64 elf 24).getD 0)

/-- A surface is a frame of the caller's. -/
def Surface (roots : List (BitVec 64)) (vm : State A) : Call → Prop
  | ring3 _ _ fbFrame => fbFrame ≠ 0 → IsData roots vm fbFrame
  | linuxStatic _ | linuxDyn _ => True

end Call

section Spawn

variable {vm vm' : State A} {s s' : Scheduler} {i : Slot}

omit [LawfulFrameAlloc A] in
/-- A spawn that gives a slot has made a space, and the task runs in it. -/
theorem spawnWith_spec [FrameAlloc A] {accepts : Bool} {build : State A → Option (Option (BitVec 64) × State A)}
    {mark : Slot → Scheduler → Scheduler} (keeps : ∀ i s, (mark i s).tasks = s.tasks)
    (done : spawnWith accepts build (fun space s => s.spawnWith 20 space 0 mark) vm s =
      some (i, s', vm')) (spawned : i ≠ 0) :
    build vm = some (some (s'.tasks i).cr3.toBitVec, vm') := by
  rw [spawnWith] at done
  split at done
  · split at done
    · cases done
      exact absurd rfl spawned
    · rename_i free isFree
      obtain ⟨⟨space, vm₁⟩, built, result⟩ := Option.map_eq_some_iff.mp done
      cases space with
      | none =>
        have slot : (s.spawnWith 20 none 0 mark).1 = 0 := by
          rw [Scheduler.spawnWith]
          intro i cr3 _ found
          cases found
        simp only [Option.map_none, Prod.mk.injEq] at result
        exact absurd (result.1.symm.trans slot) spawned
      | some root =>
        simp only [Option.map_some, Scheduler.spawnWith, isFree, Prod.mk.injEq] at result
        obtain ⟨rfl, rfl, rfl⟩ := result
        rw [built, keeps, Scheduler.setTask_self]
  · cases done
    exact absurd rfl spawned

/-- The space of a spawn holds the pages of the program. -/
theorem holdsProgram_of_run {roots : List (BitVec 64)} {ramfs : File → Option File} {elf : File}
    (wf : WellFormed roots vm) (call : Call) (surface : call.Surface roots vm)
    (done : call.run ramfs elf vm s = some (i, s', vm')) (spawned : i ≠ 0) :
    HoldsProgram roots (s'.tasks i).cr3.toBitVec vm' elf (call.bias elf)
      (call.later ramfs elf vm) := by
  cases call with
  | ring3 stackTop stackPages fbFrame =>
    have keeps : ∀ (i : Slot) (s : Scheduler), (s.setLinux i false).tasks = s.tasks := fun _ _ => rfl
    exact ring3ElfSpace_spec wf surface (spawnWith_spec keeps done spawned)
  | linuxStatic ticks =>
    have keeps : ∀ (i : Slot) (s : Scheduler), (s.markScheduledLinux i).tasks = s.tasks :=
      fun _ _ => rfl
    obtain ⟨entry, isEntry, holds⟩ := linuxStaticSpace_spec wf (spawnWith_spec keeps done spawned)
    simp only [Call.later, isEntry]
    exact holds
  | linuxDyn ticks =>
    have keeps : ∀ (i : Slot) (s : Scheduler), (s.markScheduledLinux i).tasks = s.tasks :=
      fun _ _ => rfl
    obtain ⟨entry, isEntry, holds⟩ := linuxDynSpace_spec wf (spawnWith_spec keeps done spawned)
    simp only [Call.later, isEntry]
    exact holds

end Spawn

/-! ## Reading at the start of a part of the file -/

section Reading

variable {b rest : File} {o : Nat}

theorem byteOf_drop (k : Nat) : byteOf b (o + k) = byteOf (b.drop o) k := by
  rw [byteOf, byteOf, List.getD_eq_getElem?_getD, List.getD_eq_getElem?_getD, List.getElem?_drop]

theorem inside_of_drop {n : Nat} (long : n ≤ (b.drop o).length) (positive : 0 < n) : o + n ≤ b.length := by
  rw [List.length_drop] at long
  omega

theorem rdU16_of_drop {b0 b1 : BitVec 8} (there : b.drop o = b0 :: b1 :: rest) :
    rdU16 b o = some (b1 ++ b0) := by
  have inside : o + 2 ≤ b.length := inside_of_drop (by rw [there]; simp) (by decide)
  have first : byteOf b o = byteOf (b.drop o) 0 := byteOf_drop 0
  rw [rdU16, if_pos inside, byteOf_drop, first, there]
  rfl

theorem rdU32_of_drop {b0 b1 b2 b3 : BitVec 8} (there : b.drop o = b0 :: b1 :: b2 :: b3 :: rest) :
    rdU32 b o = some (b3 ++ b2 ++ b1 ++ b0) := by
  have inside : o + 4 ≤ b.length := inside_of_drop (by rw [there]; simp) (by decide)
  have first : byteOf b o = byteOf (b.drop o) 0 := byteOf_drop 0
  rw [rdU32, if_pos inside, byteOf_drop, byteOf_drop, byteOf_drop, first, there]
  rfl

theorem lanes_eq (w : BitVec 64) :
    (lane w 7 ++ lane w 6 ++ lane w 5 ++ lane w 4) ++
      (lane w 3 ++ lane w 2 ++ lane w 1 ++ lane w 0) = w := by
  have join (start n m : Nat) : w.extractLsb' (start + n) m ++ w.extractLsb' start n =
      w.extractLsb' start (m + n) :=
    BitVec.extractLsb'_append_extractLsb'_eq_extractLsb' rfl
  have upper : lane w 7 ++ lane w 6 ++ lane w 5 ++ lane w 4 = w.extractLsb' 32 32 :=
    (congrArg (fun x : BitVec 16 => x ++ lane w 5 ++ lane w 4) (join 48 8 8)).trans
      ((congrArg (fun x : BitVec 24 => x ++ lane w 4) (join 40 8 16)).trans (join 32 8 24))
  have lower : lane w 3 ++ lane w 2 ++ lane w 1 ++ lane w 0 = w.extractLsb' 0 32 :=
    (congrArg (fun x : BitVec 16 => x ++ lane w 1 ++ lane w 0) (join 16 8 8)).trans
      ((congrArg (fun x : BitVec 24 => x ++ lane w 0) (join 8 8 16)).trans (join 0 8 24))
  rw [upper, lower]
  exact (join 0 32 32).trans BitVec.extractLsb'_eq_self

theorem rdU64_of_drop {w : BitVec 64} (there : b.drop o = wordBytes w ++ rest) :
    rdU64 b o = some w := by
  have later : b.drop (o + 4) = lane w 4 :: lane w 5 :: lane w 6 :: lane w 7 :: rest := by
    rw [← List.drop_drop, there]
    rfl
  rw [rdU64, rdU32_of_drop there, rdU32_of_drop later]
  exact congrArg some (lanes_eq w)

end Reading

/-! ## Two bytes in two segments -/

/-- A file with the bytes `A` and `B` in two segments of one byte each, at these addresses. -/
def twoBytes (first second : BitVec 64) : File :=
  elfMagic ++ List.replicate 12 0 ++ [2, 0, 0x3e, 0, 1, 0, 0, 0] ++ wordBytes first ++
    wordBytes 64 ++ wordBytes 0 ++ [0, 0, 0, 0, 64, 0, 56, 0, 2, 0, 0, 0, 0, 0, 0, 0] ++
    ([1, 0, 0, 0, 7, 0, 0, 0] ++ wordBytes 176 ++ wordBytes first ++ wordBytes 0 ++ wordBytes 1 ++
      wordBytes 1 ++ wordBytes 0) ++
    ([1, 0, 0, 0, 7, 0, 0, 0] ++ wordBytes 177 ++ wordBytes second ++ wordBytes 0 ++ wordBytes 1 ++
      wordBytes 1 ++ wordBytes 0) ++
    [0x41, 0x42]

theorem length_twoBytes (first second : BitVec 64) : (twoBytes first second).length = 178 := by
  simp [twoBytes, wordBytes, elfMagic]

/-- The segment of one byte at an address. -/
def oneByte (elf : File) (offset vaddr : BitVec 64) : Segment := ⟨elf, offset, vaddr, 1, 1⟩

section TwoBytes

variable {elf : File} {first second : BitVec 64}

/-- The program headers list the two segments. -/
structure ListsTwo (elf : File) (first second : BitVec 64) : Prop where
  table : headerTable elf = some ⟨64, 2, 56⟩
  first : segmentAt elf 0 ⟨64, 2, 56⟩ 0 = some (some (oneByte elf 176 first))
  second : segmentAt elf 0 ⟨64, 2, 56⟩ 1 = some (some (oneByte elf 177 second))

/-- A header read as this one is of the segment of one byte. -/
theorem segmentAt_oneByte {table : HeaderTable} {s : Nat} {offset vaddr : BitVec 64}
    (fits : headerFits elf (table.entry s) = true)
    (read : phdrAt elf (table.entry s) = some ⟨ptLoad, offset, vaddr, 1, 1⟩) :
    segmentAt elf 0 table s = some (some (oneByte elf offset vaddr)) := by
  rw [segmentAt, if_pos fits, read, Option.map_some, if_pos rfl]
  simp only [Phdr.segment, oneByte, BitVec.ofNat_eq_ofNat, BitVec.add_zero]

theorem ListsTwo.isSegment_iff (lists : ListsTwo elf first second) {s : Nat} {seg : Segment} :
    IsSegment elf 0 s seg ↔
      s = 0 ∧ seg = oneByte elf 176 first ∨ s = 1 ∧ seg = oneByte elf 177 second := by
  constructor
  · rintro ⟨table, isTable, inside, here⟩
    cases isTable.symm.trans lists.table
    have small : s < 2 := inside
    rcases Nat.lt_or_eq_of_le (Nat.le_of_lt_succ small) with zero | rfl
    · obtain rfl := Nat.lt_one_iff.mp zero
      exact Or.inl ⟨rfl, (Option.some.inj (Option.some.inj (lists.first.symm.trans here))).symm⟩
    · exact Or.inr ⟨rfl, (Option.some.inj (Option.some.inj (lists.second.symm.trans here))).symm⟩
  · rintro (⟨rfl, rfl⟩ | ⟨rfl, rfl⟩)
    · exact ⟨_, lists.table, by decide, lists.first⟩
    · exact ⟨_, lists.table, by decide, lists.second⟩

theorem has_oneByte {offset vaddr : BitVec 64} {a : Nat} :
    (oneByte elf offset vaddr).Has a ↔ a = vaddr.toNat := by
  have size : (oneByte elf offset vaddr).size = 1 := rfl
  have start : (oneByte elf offset vaddr).vaddr = vaddr := rfl
  rw [Segment.Has, size, start]
  omega

theorem ListsTwo.isElf64 (lists : ListsTwo elf first second) (short : elf.length < 2 ^ 63) :
    IsElf64 elf 0 where
  length := short
  proper s seg isSegment := by
    rcases lists.isSegment_iff.mp isSegment with ⟨-, rfl⟩ | ⟨-, rfl⟩
    · exact Nat.le_refl _
    · exact Nat.le_refl _

theorem ListsTwo.disjoint (lists : ListsTwo elf first second) (apart : first ≠ second) :
    DisjointSegments elf 0 := by
  have values : first.toNat ≠ second.toNat := fun same => apart (BitVec.eq_of_toNat_eq same)
  intro s s' seg seg' a isSegment isSegment' other has has'
  rcases lists.isSegment_iff.mp isSegment with ⟨rfl, rfl⟩ | ⟨rfl, rfl⟩
  · rcases lists.isSegment_iff.mp isSegment' with ⟨rfl, rfl⟩ | ⟨rfl, rfl⟩
    · exact other rfl
    · exact values ((has_oneByte.1 has).symm.trans (has_oneByte.1 has'))
  · rcases lists.isSegment_iff.mp isSegment' with ⟨rfl, rfl⟩ | ⟨rfl, rfl⟩
    · exact values ((has_oneByte.1 has').symm.trans (has_oneByte.1 has))
    · exact other rfl

end TwoBytes

theorem table_twoBytes (first second : BitVec 64) :
    headerTable (twoBytes first second) = some ⟨64, 2, 56⟩ := by
  rw [headerTable, rdU64_of_drop (w := 64) rfl, rdU16_of_drop rfl, rdU16_of_drop rfl]
  rfl

theorem first_twoBytes (first second : BitVec 64) :
    phdrAt (twoBytes first second) (HeaderTable.entry ⟨64, 2, 56⟩ 0) =
      some ⟨ptLoad, 176, first, 1, 1⟩ := by
  have start : (HeaderTable.entry ⟨64, 2, 56⟩ 0).toNat = 64 := by decide
  rw [phdrAt, start, rdU32_of_drop rfl, rdU64_of_drop (w := 176) rfl, rdU64_of_drop (w := first) rfl,
    rdU64_of_drop (w := 1) rfl, rdU64_of_drop (w := 1) rfl]
  rfl

theorem second_twoBytes (first second : BitVec 64) :
    phdrAt (twoBytes first second) (HeaderTable.entry ⟨64, 2, 56⟩ 1) =
      some ⟨ptLoad, 177, second, 1, 1⟩ := by
  have start : (HeaderTable.entry ⟨64, 2, 56⟩ 1).toNat = 120 := by decide
  rw [phdrAt, start, rdU32_of_drop rfl, rdU64_of_drop (w := 177) rfl,
    rdU64_of_drop (w := second) rfl, rdU64_of_drop (w := 1) rfl, rdU64_of_drop (w := 1) rfl]
  rfl

theorem lists_twoBytes (first second : BitVec 64) :
    ListsTwo (twoBytes first second) first second := by
  refine ⟨table_twoBytes first second, ?_, ?_⟩
  · refine segmentAt_oneByte ?_ (first_twoBytes first second)
    rw [headerFits, length_twoBytes]
    decide
  · refine segmentAt_oneByte ?_ (second_twoBytes first second)
    rw [headerFits, length_twoBytes]
    decide

/-- The spawn of a file after boot, on one page of stack. -/
def smallCall : Call := .ring3 0x80_0000 1 0

def spawnSmall (elf : File) : Option (Slot × Scheduler × State Pmm) :=
  smallCall.run (fun _ => none) elf small (Scheduler.boot 0 0)

/-- A file whose segments are on one page. -/
def sharedPage : File := twoBytes 0x40_0000 0x40_0001

/-- A file whose segments are on two pages. -/
def twoPages : File := twoBytes 0x40_0000 0x40_1000

/-- Both spawns succeed; of the file on one page the first byte is lost. -/
theorem small_spawns : (spawnSmall sharedPage).map (fun r => (r.1,
      r.2.2.byteAt (r.2.1.tasks r.1).cr3.toBitVec 0x40_0000)) = some (1, some 0) ∧
    (spawnSmall twoPages).map (fun r => r.1) = some 1 := by
  decide +kernel

theorem sharedPage_lists : ListsTwo sharedPage 0x40_0000 0x40_0001 := lists_twoBytes _ _

theorem twoPages_lists : ListsTwo twoPages 0x40_0000 0x40_1000 := lists_twoBytes _ _

theorem short_twoBytes (first second : BitVec 64) : (twoBytes first second).length < 2 ^ 63 := by
  rw [length_twoBytes]
  decide

theorem twoPages_kept : Kept twoPages 0 (smallCall.later (fun _ => none) twoPages small) where
  fits s seg isSegment := by
    rcases twoPages_lists.isSegment_iff.mp isSegment with ⟨-, rfl⟩ | ⟨-, rfl⟩
    · exact Or.inr ((by decide : 177 ≤ 178).trans_eq (length_twoBytes _ _).symm)
    · exact Or.inr ((by decide : 178 ≤ 178).trans_eq (length_twoBytes _ _).symm)
  low s seg isSegment a has := by
    rcases twoPages_lists.isSegment_iff.mp isSegment with ⟨-, rfl⟩ | ⟨-, rfl⟩
    · rw [has_oneByte.1 has]
      decide
    · rw [has_oneByte.1 has]
      decide
  pages table s seg a _ isSegment has _ _ s' seg' above isSegment' := by
    rcases twoPages_lists.isSegment_iff.mp isSegment' with ⟨rfl, rfl⟩ | ⟨rfl, rfl⟩
    · exact absurd above (Nat.not_lt_zero s)
    · rcases twoPages_lists.isSegment_iff.mp isSegment with ⟨rfl, rfl⟩ | ⟨rfl, rfl⟩
      · rw [has_oneByte.1 has]
        rintro ⟨i, inside, here⟩
        have count : (oneByte twoPages 177 0x40_1000).pageCount = 1 := by decide
        rw [count, Nat.lt_one_iff] at inside
        rw [inside] at here
        exact absurd here (by decide)
      · exact absurd above (Nat.lt_irrefl 1)
  after table s seg a contents _ isSegment has found := by
    have free : ∀ page, page = 0x400 ∨ page = 0x401 →
        (smallCall.later (fun _ => none) twoPages small table page).isNone := by
      rintro page (rfl | rfl)
      · rfl
      · rfl
    have here : a / 4096 = 0x400 ∨ a / 4096 = 0x401 := by
      rcases twoPages_lists.isSegment_iff.mp isSegment with ⟨-, rfl⟩ | ⟨-, rfl⟩
      · rw [has_oneByte.1 has]
        decide
      · rw [has_oneByte.1 has]
        decide
    have none := free _ here
    rw [found] at none
    cases none
  flat mem _ s seg a isSegment has _ s' seg' above isSegment' := by
    rcases twoPages_lists.isSegment_iff.mp isSegment' with ⟨rfl, rfl⟩ | ⟨rfl, rfl⟩
    · exact absurd above (Nat.not_lt_zero s)
    · rcases twoPages_lists.isSegment_iff.mp isSegment with ⟨rfl, rfl⟩ | ⟨rfl, rfl⟩
      · rw [has_oneByte.1 has]
        rintro ⟨-, start, -⟩
        exact absurd start (by decide)
      · exact absurd above (Nat.lt_irrefl 1)

end RustyPenguin.Elf
