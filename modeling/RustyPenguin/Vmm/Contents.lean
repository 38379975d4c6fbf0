import RustyPenguin.Vmm.Bytes
import RustyPenguin.Vmm.Isolation

/-!
# What an address space holds

The kernel fills frames that are in no table and maps them into a private address space. Mapping a
page leaves such frames as they are, and the rights the tables give as they were (`Undisturbed`).

A private address space holds a page when the processor finds, at the page, a frame with these
bytes and every right. `Holds` says which pages of the lower half it holds, and that it maps no
other there. A new space holds none (`Holds.new`); to take a fresh frame, fill it and map it at a
page replaces what the space holds there (`Holds.place`).
-/

set_option autoImplicit false

namespace RustyPenguin.Vmm

open LawfulFrameAlloc (InUse)

variable {A : Type} [LawfulFrameAlloc A] {roots : List (BitVec 64)} {vm vm' vm'' : State A}
  {root virt phys flags frame : BitVec 64}

/-! ## What mapping leaves alone -/

/-- A frame in use that is in no table. -/
structure IsData (roots : List (BitVec 64)) (vm : State A) (f : BitVec 64) : Prop where
  isFrame : IsFrame f
  inUse : InUse vm.pmm f
  foreign : ∀ l, ¬IsTable vm.mem roots l f

/-- Tables were added and pages mapped, and frames in `written` were written; every other frame of
data is as it was. -/
structure Undisturbed (written : BitVec 64 → Prop) (roots : List (BitVec 64)) (vm vm' : State A) :
    Prop where
  points : ∀ {l t i c}, IsTable vm.mem roots (l + 1) t → child vm.mem (l + 1) t i = some c →
    child vm'.mem (l + 1) t i = some c
  rights : ∀ {v l t}, IsTable vm.mem roots l t → tableRights vm'.mem v l t = tableRights vm.mem v l t
  data : ∀ {f}, IsData roots vm f → IsData roots vm' f
  reads : ∀ {f}, IsData roots vm f → ¬written f → ∀ j, read64 vm'.mem f j = read64 vm.mem f j

namespace Undisturbed

variable {written : BitVec 64 → Prop}

theorem trans (first : Undisturbed written roots vm vm')
    (second : Undisturbed written roots vm' vm'') : Undisturbed written roots vm vm'' where
  points table points :=
    second.points (table.mono id first.points) (first.points table points)
  rights table := (second.rights (table.mono id first.points)).trans (first.rights table)
  data isData := second.data (first.data isData)
  reads isData other j :=
    (second.reads (first.data isData) other j).trans (first.reads isData other j)

theorem mono {more : BitVec 64 → Prop} (quiet : Undisturbed written roots vm vm')
    (within : ∀ {f}, written f → more f) : Undisturbed more roots vm vm' where
  points := quiet.points
  rights := quiet.rights
  data := quiet.data
  reads isData other := quiet.reads isData fun was => other (within was)

/-- A way through the tables stays. -/
theorem path {choose : Nat → Fin 512} {level goal : Nat} {t u : BitVec 64}
    (quiet : Undisturbed written roots vm vm') (start : IsTable vm.mem roots level t)
    (path : Radix.Path (child vm.mem) choose level t goal u) :
    Radix.Path (child vm'.mem) choose level t goal u :=
  path.mono quiet.points start

end Undisturbed

/-- Every frame of data stays one, with the words it had. -/
def Keeps (roots : List (BitVec 64)) (vm vm' : State A) : Prop :=
  ∀ {f}, IsData roots vm f → IsData roots vm' f ∧ ∀ j, read64 vm'.mem f j = read64 vm.mem f j

theorem Keeps.refl : Keeps roots vm vm := fun isData => ⟨isData, fun _ => rfl⟩

theorem Keeps.trans (first : Keeps roots vm vm') (second : Keeps roots vm' vm'') :
    Keeps roots vm vm'' := by
  intro f isData
  obtain ⟨isData', reads⟩ := first isData
  obtain ⟨isData'', reads'⟩ := second isData'
  exact ⟨isData'', fun j => (reads' j).trans (reads j)⟩

/-- Nothing but frames that were not in use was written. -/
theorem Undisturbed.keeps {written : BitVec 64 → Prop} (quiet : Undisturbed written roots vm vm')
    (fresh : ∀ {f}, written f → ¬InUse vm.pmm f) : Keeps roots vm vm' :=
  fun isData => ⟨quiet.data isData, quiet.reads isData fun was => fresh was isData.inUse⟩

/-- Frames in no table may be written, and frames taken. -/
theorem WellFormed.write (wf : WellFormed roots vm) {written : BitVec 64 → Prop} {mem : Memory}
    {pmm : A} (foreign : ∀ {f}, written f → ∀ l, ¬IsTable vm.mem roots l f)
    (reads : ∀ {f}, IsFrame f → ¬written f → ∀ j, read64 mem f j = read64 vm.mem f j)
    (used : ∀ {g}, InUse vm.pmm g → InUse pmm g) :
    WellFormed roots { vm with mem := mem, pmm := pmm } ∧
      Undisturbed written roots vm { vm with mem := mem, pmm := pmm } ∧
      (∀ v, ∀ r ∈ roots, translate mem r v = translate vm.mem r v) ∧
      ∀ l t, IsTable mem roots l t ↔ IsTable vm.mem roots l t := by
  have same : ∀ {l t}, IsTable vm.mem roots l t → ∀ j, read64 mem t j = read64 vm.mem t j :=
    fun {l t} table => reads (wf.forest.isFrame table) fun was => foreign was l table
  obtain ⟨forest, tables⟩ := wf.forest.congr same used
  refine ⟨⟨forest, wf.active⟩, ?_, fun v r isRoot => ?_, tables⟩
  · exact
      { points := fun {l t i c} table points => (congrArg (pointsTo (l + 1)) (same table i)).trans points
        rights := fun table => Forest.rights_congr table same
        data := fun {f} isData =>
          ⟨isData.isFrame, used isData.inUse, fun l table => isData.foreign l ((tables l f).mp table)⟩
        reads := fun isData => reads isData.isFrame }
  · exact wf.forest.walk_congr (.root isRoot) fun l u way => same (way.table (.root isRoot)) _

/-- A step down leaves data alone. -/
theorem descend_undisturbed (wf : WellFormed roots vm) {level : Nat} {t : BitVec 64}
    (table : IsTable vm.mem roots (level + 1) t) (above : 0 < level) {answer : Option (BitVec 64)}
    (done : vm.descend t (index virt (level + 1)) intermediateFlags = (answer, vm')) :
    Undisturbed (fun _ => False) roots vm vm' := by
  have grown := (descend_spec wf table above tableFlags_intermediate done).1
  have refl : Undisturbed (fun _ => False) roots vm vm := ⟨fun _ => id, fun _ => rfl, id, fun _ _ _ => rfl⟩
  rw [State.descend] at done
  by_cases present : read64 vm.mem t (index virt (level + 1)) &&& ptePresent ≠ 0
  · simp only [if_pos present] at done
    split at done
    · cases done
      exact refl
    · cases done
      exact refl
  simp only [if_neg present] at done
  split at done
  · cases done
    exact refl
  rename_i frame pmm alloc
  cases done
  have taken := wf.take alloc
  have table' := taken.tables.mpr table
  have absent : read64 (vm.take frame pmm).mem t (index virt (level + 1)) &&& ptePresent = 0 := by
    rw [taken.reads table]
    exact not_not.mp present
  refine ⟨grown.points, fun {v l u} old => ?_, fun {f} isData => ?_, fun {f} isData _ j => ?_⟩
  · have hung := taken.wf.forest.rights_hang (v := v) table' above taken.isFrame taken.foreign
      taken.blank tableFlags_intermediate absent (rights_intermediate taken.isFrame)
      (taken.tables.mpr old)
    exact hung.trans (Forest.rights_congr old taken.reads)
  · refine ⟨isData.isFrame, grown.used isData.inUse, fun l new => ?_⟩
    obtain old | ⟨unused, -⟩ := grown.fresh new
    · exact isData.foreign l old
    · exact unused isData.inUse
  · have away : f ≠ t := fun same => isData.foreign (level + 1) (same ▸ table)
    have fresh : f ≠ frame := fun same => taken.unused (same ▸ isData.inUse)
    refine (read64_write64_of_ne (wf.forest.isFrame table) isData.isFrame (Or.inl away)).trans ?_
    exact read64_zeroFrame_of_ne taken.isFrame isData.isFrame fresh

/-- Storing the last entry leaves data alone. -/
theorem store_undisturbed (wf : WellFormed roots vm) (isRoot : root ∈ roots) {pt entry : BitVec 64}
    (path : Radix.Path (child vm.mem) (index virt) 4 root 1 pt) :
    Undisturbed (fun _ => False) roots vm (vm.store pt (ptIdx virt) entry) where
  points table points := (child_storeLeaf wf isRoot path table).trans points
  rights table := rights_storeLeaf wf isRoot path table
  data isData := ⟨isData.isFrame, isData.inUse, fun l table =>
    isData.foreign l ((isTable_storeLeaf wf isRoot path).mp table)⟩
  reads {f} isData _ j := by
    have last := lastTable isRoot path
    have away : f ≠ pt := fun same => isData.foreign 1 (same ▸ last)
    exact read64_write64_of_ne (wf.forest.isFrame last) isData.isFrame (Or.inl away)

/-- **Mapping a page leaves every frame of data alone**, and all rights the tables give. -/
theorem mapPageIn_undisturbed (wf : WellFormed roots vm) (isRoot : root ∈ roots) {ok : Bool}
    (done : vm.mapPageIn root virt phys flags = (ok, vm')) :
    Undisturbed (fun _ => False) roots vm vm' := by
  obtain ⟨vm₁, quiet, under, ⟨-, same⟩ | ⟨-, pt, path, stored⟩⟩ :=
    mapPageIn_rule (R := Undisturbed (fun _ => False) roots) wf Undisturbed.trans
      (fun wf table above step => descend_undisturbed wf table above step) isRoot done
  · exact same ▸ quiet
  · exact stored ▸ quiet.trans (store_undisturbed under.grown.wf isRoot path)

/-- A step down to a table that is there takes nothing. -/
theorem descend_of_child {level : Nat} {t c : BitVec 64} {i : Fin 512}
    (points : child vm.mem level t i = some c) : vm.descend t i flags = (some c, vm) := by
  obtain ⟨-, present, small, target⟩ := pointsTo_some.mp points
  rw [State.descend]
  simp only [if_pos present, small, ne_eq, not_true_eq_false, if_false]
  exact congrArg (fun c => (some c, vm)) target

/-- **A page with a way to its last table can always be mapped again.** -/
theorem mapPageIn_of_path {pt : BitVec 64}
    (path : Radix.Path (child vm.mem) (index virt) 4 root 1 pt) :
    (vm.mapPageIn root virt phys flags).1 = true := by
  cases path with
  | down first rest =>
    cases rest with
    | down second rest =>
      cases rest with
      | down third rest =>
        cases rest with
        | here =>
          have pml4 : vm.descend root (pml4Idx virt) intermediateFlags = _ := descend_of_child first
          have pdpt : vm.descend _ (pdptIdx virt) intermediateFlags = _ := descend_of_child second
          have pd : vm.descend _ (pdIdx virt) intermediateFlags = _ := descend_of_child third
          rw [State.mapPageIn, pml4]
          simp only [pdpt, pd]
        | down _ rest => exact absurd rest.level_le (by decide)

/-! ## Pages -/

/-- The page of an address, as the processor numbers it. -/
def pageNumber (v : BitVec 64) : Nat := v.toNat / 4096 % 2 ^ 36

/-- The pages of the lower half. -/
def lowPages : Nat := 2 ^ 35

theorem nineBits_val (v : BitVec 64) (s : Nat) : (nineBits (v >>> s)).val = v.toNat / 2 ^ s % 512 := by
  have masked : (v >>> s &&& 0x1FF).toNat = v.toNat / 2 ^ s % 2 ^ 9 := by
    rw [BitVec.toNat_and, BitVec.toNat_ushiftRight, Nat.shiftRight_eq_div_pow]
    exact Nat.and_two_pow_sub_one_eq_mod _ 9
  exact masked

/-- **One page**: two addresses have the same four indices when they have the same page number. -/
theorem samePage_iff {v w : BitVec 64} : SamePage v w ↔ pageNumber v = pageNumber w := by
  simp only [SamePage, pml4Idx, pdptIdx, pdIdx, ptIdx, ← Fin.val_inj, nineBits_val, pageNumber]
  constructor
  · rintro ⟨pml4, pdpt, pd, pt⟩
    omega
  · intro same
    refine ⟨?_, ?_, ?_, ?_⟩ <;> omega

/-- A page of the lower half is under a private entry. -/
theorem pml4Idx_of_low {v : BitVec 64} (low : pageNumber v < lowPages) :
    pml4Idx v ≠ 256 ∧ pml4Idx v ≠ 511 := by
  have value : (pml4Idx v).val = v.toNat / 2 ^ 39 % 512 := nineBits_val v 39
  rw [pageNumber, lowPages] at low
  have small : (pml4Idx v).val < 256 := by omega
  refine ⟨fun same => ?_, fun same => ?_⟩
  · rw [same] at small
    exact absurd small (by decide)
  · rw [same] at small
    exact absurd small (by decide)

/-! ## What a space holds -/

def fullRights : Rights := ⟨true, true, true⟩

/-- A frame of data is what a page is mapped to, with every right. -/
structure Backs (roots : List (BitVec 64)) (root : BitVec 64) (vm : State A) (page : Nat)
    (contents : Nat → BitVec 8) (frame : BitVec 64) : Prop where
  isData : IsData roots vm frame
  bytes : ∀ off, off < 4096 → frameByte vm.mem frame off = contents off
  mapped : ∀ v, pageNumber v = page →
    ∃ found, translate vm.mem root v = some found ∧ found.frame = frame ∧ found.rights = fullRights
  way : ∀ v, pageNumber v = page →
    ∃ pt, Radix.Path (child vm.mem) (index v) 4 root 1 pt

/-- A private address space maps the pages of its lower half that are listed, to frames with these
contents, and no others. -/
structure Holds (roots : List (BitVec 64)) (root : BitVec 64) (vm : State A)
    (pages : Nat → Option (Nat → BitVec 8)) : Prop where
  wf : WellFormed roots vm
  isRoot : root ∈ roots
  full : ∀ v, pageNumber v < lowPages → tableRights vm.mem v 4 root = fullRights
  empty : ∀ v, pageNumber v < lowPages → pages (pageNumber v) = none →
    translate vm.mem root v = none
  backed : ∀ page contents, page < lowPages → pages page = some contents →
    ∃ frame, Backs roots root vm page contents frame

/-- The byte a task finds at an address of the lower half. -/
def State.byteAt (vm : State A) (root : BitVec 64) (a : Nat) : Option (BitVec 8) :=
  if a < 2 ^ 47 then
    (translate vm.mem root (BitVec.ofNat 64 a)).bind fun found =>
      if found.rights.user then some (frameByte vm.mem found.frame (a % 4096)) else none
  else none

theorem pageNumber_ofNat {a : Nat} (low : a < 2 ^ 47) :
    pageNumber (BitVec.ofNat 64 a) = a / 4096 ∧ a / 4096 < lowPages := by
  rw [pageNumber, lowPages, BitVec.toNat_ofNat]
  omega

/-- **A task finds the bytes its space holds.** -/
theorem Holds.byteAt {pages : Nat → Option (Nat → BitVec 8)} (holds : Holds roots root vm pages)
    {a : Nat} (low : a < 2 ^ 47) :
    vm.byteAt root a = (pages (a / 4096)).map fun contents => contents (a % 4096) := by
  obtain ⟨page, small⟩ := pageNumber_ofNat low
  rw [State.byteAt, if_pos low]
  cases found : pages (a / 4096) with
  | none =>
    rw [holds.empty _ (page ▸ small) (page ▸ found)]
    rfl
  | some contents =>
    obtain ⟨frame, backs⟩ := holds.backed _ contents small found
    obtain ⟨tr, mapped, sameFrame, rights⟩ := backs.mapped _ page
    have user : tr.rights.user = true := congrArg Rights.user rights
    have byte := backs.bytes (a % 4096) (Nat.mod_lt _ (by decide))
    rw [mapped, Option.bind_some, if_pos user, sameFrame, byte]
    rfl

/-! ## How it changes -/

/-- A space that was just made holds nothing. -/
theorem Holds.new (wf : WellFormed roots vm)
    (done : vm.newAddressSpacePrivate = (some root, vm')) :
    Holds (root :: roots) root vm' fun _ => none := by
  obtain ⟨wf', -, blank⟩ := newAddressSpacePrivate_spec wf done
  have entry : ∀ v, pageNumber v < lowPages → read64 vm'.mem root (index v (3 + 1)) = 0 := by
    intro v low
    obtain ⟨first, second⟩ := pml4Idx_of_low low
    exact blank (pml4Idx v) first second
  refine ⟨wf', List.mem_cons_self, fun v low => ?_, fun v low _ => ?_, fun _ _ _ => nofun⟩
  · simp only [tableRights, entry v low, pointsTo_zero]
    rfl
  · rw [translate, walk]
    simp only [entry v low]
    rfl

/-- Making a space leaves data alone. -/
theorem IsData.new (wf : WellFormed roots vm) {f : BitVec 64} (isData : IsData roots vm f)
    (done : vm.newAddressSpacePrivate = (some root, vm')) :
    IsData (root :: roots) vm' f ∧ ∀ j, read64 vm'.mem f j = read64 vm.mem f j := by
  rw [State.newAddressSpacePrivate] at done
  split at done
  · cases done
  rename_i frame pmm alloc
  cases done
  have taken := wf.take alloc
  obtain ⟨wf', reads, copies⟩ := wf.plant alloc [256, 511]
  have other : f ≠ root := fun same => taken.unused (same ▸ isData.inUse)
  have tables : ∀ {l t}, IsTable (((vm.take root pmm).shareEntry root 256).shareEntry root 511).mem
      (root :: roots) l t → IsTable vm.mem roots l t ∨ l = 4 ∧ t = root := by
    intro l t table
    refine table.rule (P := fun l t => IsTable vm.mem roots l t ∨ l = 4 ∧ t = root) ?_ ?_
    · intro t isRoot
      rcases List.mem_cons.mp isRoot with rfl | old
      · exact Or.inr ⟨rfl, rfl⟩
      · exact Or.inl (.root old)
    · rintro l t i c - (old | ⟨top, rfl⟩) points
      · refine Or.inl (old.hung ((congrArg (pointsTo (l + 1)) (reads old i)).symm.trans points))
      · rcases copies i with ⟨_, copy⟩ | ⟨_, zero⟩
        · have entry := (congrArg (pointsTo (l + 1)) copy).symm.trans points
          have active : IsTable vm.mem roots (l + 1) vm.cr3 := top ▸ .root wf.active
          exact Or.inl (active.hung entry)
        · have entry := (congrArg (pointsTo (l + 1)) zero).symm.trans points
          rw [pointsTo_zero] at entry
          cases entry
  refine ⟨⟨isData.isFrame, taken.used isData.inUse, fun l table => ?_⟩, fun j => ?_⟩
  · rcases tables table with old | ⟨-, same⟩
    · exact isData.foreign l old
    · exact other same
  · refine (read64_write64_of_ne taken.isFrame isData.isFrame (Or.inl other)).trans ?_
    refine (read64_write64_of_ne taken.isFrame isData.isFrame (Or.inl other)).trans ?_
    exact read64_zeroFrame_of_ne taken.isFrame isData.isFrame other

section Change

variable {pages pages' : Nat → Option (Nat → BitVec 8)} {written : BitVec 64 → Prop}

/-- A frame that was not written backs its page as long as the page is mapped to it. -/
theorem Backs.keep {page : Nat} {contents : Nat → BitVec 8}
    (backs : Backs roots root vm page contents frame) (isRoot : root ∈ roots)
    (quiet : Undisturbed written roots vm vm') (unwritten : ¬written frame)
    (same : ∀ v, pageNumber v = page → translate vm'.mem root v = translate vm.mem root v) :
    Backs roots root vm' page contents frame where
  isData := quiet.data backs.isData
  bytes off inside := by
    rw [frameByte_congr backs.isData.isFrame (quiet.reads backs.isData unwritten) inside]
    exact backs.bytes off inside
  mapped v here := by
    rw [same v here]
    exact backs.mapped v here
  way v here := by
    obtain ⟨pt, path⟩ := backs.way v here
    exact ⟨pt, quiet.path (.root isRoot) path⟩

/-- What a space holds after a change: each page is as it was, or has a frame behind it. -/
theorem Holds.change (holds : Holds roots root vm pages) (wf : WellFormed roots vm')
    (quiet : Undisturbed written roots vm vm')
    (each : ∀ page, page < lowPages →
      (pages' page = pages page ∧
        (∀ v, pageNumber v = page → translate vm'.mem root v = translate vm.mem root v) ∧
        ∀ contents f, Backs roots root vm page contents f → ¬written f) ∨
      ∃ contents frame, pages' page = some contents ∧ Backs roots root vm' page contents frame) :
    Holds roots root vm' pages' where
  wf := wf
  isRoot := holds.isRoot
  full v low := (quiet.rights (.root holds.isRoot)).trans (holds.full v low)
  empty v low none := by
    rcases each _ low with ⟨same, walks, -⟩ | ⟨contents, frame, found, -⟩
    · rw [walks v rfl]
      exact holds.empty v low (same ▸ none)
    · rw [found] at none
      cases none
  backed page contents low found := by
    rcases each page low with ⟨same, walks, unwritten⟩ | ⟨contents', frame, found', backs⟩
    · obtain ⟨frame, backs⟩ := holds.backed page contents low (same ▸ found)
      exact ⟨frame, backs.keep holds.isRoot quiet (unwritten contents frame backs) walks⟩
    · rw [found'] at found
      cases found
      exact ⟨frame, backs⟩

/-- The flags of a program's pages. -/
def pfw : BitVec 64 := ptePresent ||| pteWritable ||| pteUser

/-- What mapping a program's page does to the walks. -/
theorem mapPageIn_effect (wf : WellFormed roots vm) (isRoot : root ∈ roots)
    (isFrame : IsFrame frame) {ok : Bool}
    (done : vm.mapPageIn root virt frame pfw = (ok, vm')) :
    (ok = false → ∀ v, translate vm'.mem root v = translate vm.mem root v) ∧
    (ok = true →
      (∀ v, pageNumber v ≠ pageNumber virt → translate vm'.mem root v = translate vm.mem root v) ∧
      ∀ v, pageNumber v = pageNumber virt →
        (tableRights vm.mem v 4 root = fullRights → ∃ found, translate vm'.mem root v = some found ∧
          found.frame = frame ∧ found.rights = fullRights) ∧
        ∃ pt, Radix.Path (child vm'.mem) (index v) 4 root 1 pt) := by
  obtain ⟨vm₁, quiet₁, under, ⟨failed, same⟩ | ⟨succeeded, pt, path, stored⟩⟩ :=
    mapPageIn_rule (R := Undisturbed (fun _ => False) roots) wf Undisturbed.trans
      (fun wf table above step => descend_undisturbed wf table above step) isRoot done
  · subst failed same
    exact ⟨fun _ v => under.grown.walks (.root isRoot), fun succeeded => (nomatch succeeded)⟩
  have wf₁ := under.grown.wf
  subst succeeded stored
  refine ⟨fun failed => (nomatch failed), fun _ => ⟨fun v other => ?_, fun v here => ?_⟩⟩
  · refine (translate_storeLeaf_of_ne wf₁ isRoot path isRoot ?_).trans
      (under.grown.walks (.root isRoot))
    rintro ⟨way, slot⟩
    exact other (samePage_iff.1 (samePage_of_path wf₁ isRoot path way slot))
  · have page := samePage_iff.2 here
    have slot : ptIdx virt = ptIdx v := page.2.2.2.symm
    have path' : Radix.Path (child vm₁.mem) (index v) 4 root 1 pt :=
      path.congr fun l _ _ => (page.index_eq l).symm
    have quiet : Undisturbed _ roots vm₁ (vm₁.store pt (ptIdx v) (frame ||| pfw ||| ptePresent)) :=
      store_undisturbed wf₁ isRoot path'
    rw [slot]
    refine ⟨fun full => ?_, pt, quiet.path (.root isRoot) path'⟩
    have isFlags : IsFlags pfw := fun i bit => Or.inl (tableFlags_intermediate.low i bit)
    refine ⟨_, translate_storeLeaf_self wf₁ isRoot path' isFrame isFlags, rfl, ?_⟩
    show (Rights.of pfw).meet (tableRights vm₁.mem v 4 root) = fullRights
    rw [quiet₁.rights (.root isRoot), full]
    decide

/-- Mapping a frame of data at a page. -/
theorem Holds.mapPageIn (holds : Holds roots root vm pages) (isData : IsData roots vm frame)
    {contents : Nat → BitVec 8} (bytes : ∀ off, off < 4096 → frameByte vm.mem frame off = contents off)
    {ok : Bool} (done : vm.mapPageIn root virt frame pfw = (ok, vm')) :
    Undisturbed (fun _ => False) roots vm vm' ∧
    (ok = true → Holds roots root vm'
      (Function.update pages (pageNumber virt) (some contents))) ∧
    (ok = false → Holds roots root vm' pages) ∧
    (pageNumber virt < lowPages → pages (pageNumber virt) ≠ none → ok = true) := by
  have quiet := mapPageIn_undisturbed holds.wf holds.isRoot done
  have wf' : WellFormed roots vm' := by
    have kept := holds.wf.mapPageIn holds.isRoot virt frame pfw
    rwa [done] at kept
  obtain ⟨failed, succeeded⟩ := mapPageIn_effect holds.wf holds.isRoot isData.isFrame done
  refine ⟨quiet, fun ok => ?_, fun fails => ?_, fun low mapped => ?_⟩
  · obtain ⟨others, here⟩ := succeeded ok
    refine holds.change wf' quiet fun page low => ?_
    by_cases same : page = pageNumber virt
    · subst same
      refine Or.inr ⟨_, frame, Function.update_self _ _ _, ?_⟩
      exact
        { isData := quiet.data isData
          bytes := fun off inside =>
            (frameByte_congr isData.isFrame (quiet.reads isData not_false) inside).trans
              (bytes off inside)
          mapped := fun v page => (here v page).1 (holds.full v (page ▸ low))
          way := fun v page => (here v page).2 }
    · refine Or.inl ⟨Function.update_of_ne same _ _, fun v onPage => others v ?_, fun _ _ _ => id⟩
      rw [onPage]
      exact same
  · exact holds.change wf' quiet fun page low =>
      Or.inl ⟨rfl, fun v _ => failed fails v, fun _ _ _ => id⟩
  · obtain ⟨contents, found⟩ := Option.ne_none_iff_exists'.mp mapped
    obtain ⟨_, backs⟩ := holds.backed _ contents low found
    obtain ⟨pt, path⟩ := backs.way virt rfl
    have result : (vm.mapPageIn root virt frame pfw).1 = true := mapPageIn_of_path path
    rw [done] at result
    exact result

/-- The words of all other frames are the same. -/
def SameButFor (frame : BitVec 64) (mem mem' : Memory) : Prop :=
  ∀ g, IsFrame g → g ≠ frame → ∀ j, read64 mem' g j = read64 mem g j

theorem exists_pageNumber {page : Nat} (low : page < lowPages) : ∃ v, pageNumber v = page := by
  rw [lowPages] at low
  refine ⟨BitVec.ofNat 64 (page * 4096), ?_⟩
  rw [(pageNumber_ofNat (show page * 4096 < 2 ^ 47 by omega)).1]
  exact Nat.mul_div_cancel page (by decide)

/-- A frame that was not in use backs no page that is mapped as it was. -/
theorem Holds.apart (holds : Holds roots root vm pages) (unused : ¬InUse vm.pmm frame) {page : Nat}
    (low : page < lowPages)
    (same : ∀ v, pageNumber v = page → translate vm'.mem root v = translate vm.mem root v)
    {contents : Nat → BitVec 8} {f : BitVec 64} (backs : Backs roots root vm' page contents f) :
    f ≠ frame := by
  obtain ⟨v, here⟩ := exists_pageNumber low
  obtain ⟨found, mapped, isFound, -⟩ := backs.mapped v here
  rw [same v here] at mapped
  cases before : pages page with
  | none =>
    rw [holds.empty v (here ▸ low) (here ▸ before)] at mapped
    cases mapped
  | some old =>
    obtain ⟨g, was⟩ := holds.backed page old low before
    obtain ⟨found', mapped', isFound', -⟩ := was.mapped v here
    have both := Option.some.inj (mapped.symm.trans mapped')
    rintro rfl
    refine unused ?_
    rw [← isFound, both, isFound']
    exact was.isData.inUse

/-- **Placing a page**: a fresh frame is filled and mapped, and may be written once more. The space
then holds what the frame does at the page, if it could be mapped; a page that was mapped before
can be mapped again. -/
theorem Holds.place (holds : Holds roots root vm pages) {pmm : A}
    (alloc : FrameAlloc.allocFrame vm.pmm = some (frame, pmm)) {mem : Memory}
    (filled : SameButFor frame vm.mem mem) {ok : Bool}
    (done : State.mapPageIn { vm with mem := mem, pmm := pmm } root virt frame pfw = (ok, vm'))
    {mem' : Memory} (staged : SameButFor frame vm'.mem mem') {contents : Nat → BitVec 8}
    (bytes : (∀ j, read64 vm'.mem frame j = read64 mem frame j) →
      ∀ off, off < 4096 → frameByte mem' frame off = contents off) :
    Keeps roots vm { vm' with mem := mem' } ∧
    (ok = true → Holds roots root { vm' with mem := mem' }
      (Function.update pages (pageNumber virt) (some contents))) ∧
    (ok = false → Holds roots root { vm' with mem := mem' } pages) ∧
    (pageNumber virt < lowPages → pages (pageNumber virt) ≠ none → ok = true) := by
  have isFrame := LawfulFrameAlloc.isFrame alloc
  have unused := LawfulFrameAlloc.unused alloc
  have used : ∀ {g}, InUse vm.pmm g → InUse pmm g := fun inUse =>
    (LawfulFrameAlloc.inUse_iff alloc _).mpr (Or.inr inUse)
  -- filling the frame
  have foreign : ∀ {f}, f = frame → ∀ l, ¬IsTable vm.mem roots l f :=
    fun isFresh l => isFresh ▸ holds.wf.forest.foreign unused l
  obtain ⟨wf₁, quiet₁, walks₁, tables₁⟩ := holds.wf.write foreign (filled _) used
  have holds₁ : Holds roots root { vm with mem := mem, pmm := pmm } pages :=
    holds.change wf₁ quiet₁ fun page low => Or.inl ⟨rfl, fun v _ => walks₁ v root holds.isRoot,
      fun contents f backs isFresh => unused (isFresh ▸ backs.isData.inUse)⟩
  have isData₁ : IsData roots { vm with mem := mem, pmm := pmm } frame :=
    ⟨isFrame, (LawfulFrameAlloc.inUse_iff alloc frame).mpr (Or.inl rfl), fun l table =>
      holds.wf.forest.foreign unused l ((tables₁ l frame).mp table)⟩
  -- mapping it
  obtain ⟨quiet₂, succeeded, failed, always⟩ := holds₁.mapPageIn isData₁ (fun _ _ => rfl) done
  obtain ⟨failedWalks, succeededWalks⟩ := mapPageIn_effect holds₁.wf holds₁.isRoot isFrame done
  have isData₂ := quiet₂.data isData₁
  have quiet₁₂ := quiet₁.trans (quiet₂.mono False.elim)
  -- writing it once more
  have foreign₂ : ∀ {f}, f = frame → ∀ l, ¬IsTable vm'.mem roots l f :=
    fun isFresh l => isFresh ▸ isData₂.foreign l
  have same₂ : ∀ {g}, InUse vm'.pmm g → InUse vm'.pmm g := id
  have wf₂ : WellFormed roots vm' := by
    cases ok with
    | false => exact (failed rfl).wf
    | true => exact (succeeded rfl).wf
  obtain ⟨wf₃, quiet₃, walks₃, -⟩ := wf₂.write foreign₂ (staged _) same₂
  refine ⟨(quiet₁₂.trans quiet₃).keeps fun isFresh => isFresh ▸ unused,
    fun isOk => ?_, fun fails => ?_, always⟩
  · obtain ⟨others, here⟩ := succeededWalks isOk
    refine (succeeded isOk).change wf₃ quiet₃ fun page low => ?_
    by_cases same : page = pageNumber virt
    · subst same
      refine Or.inr ⟨_, frame, Function.update_self _ _ _, ?_⟩
      exact
        { isData := quiet₃.data isData₂
          bytes := bytes (quiet₂.reads isData₁ not_false)
          mapped := fun v onPage => by
            rw [walks₃ v root holds.isRoot]
            exact (here v onPage).1 (holds₁.full v (onPage ▸ low))
          way := fun v onPage => by
            obtain ⟨pt, path⟩ := (here v onPage).2
            exact ⟨pt, quiet₃.path (.root holds.isRoot) path⟩ }
    · refine Or.inl ⟨?_, fun v _ => walks₃ v root holds.isRoot, fun contents f backs => ?_⟩
      · rw [Function.update_of_ne same, Function.update_of_ne same]
      · refine holds.apart unused low (fun v onPage => ?_) backs
        rw [others v (onPage ▸ same)]
        exact walks₁ v root holds.isRoot
  · refine (failed fails).change wf₃ quiet₃ fun page low => ?_
    refine Or.inl ⟨rfl, fun v _ => walks₃ v root holds.isRoot, fun contents f backs => ?_⟩
    refine holds.apart unused low (fun v onPage => ?_) backs
    rw [failedWalks fails v]
    exact walks₁ v root holds.isRoot

end Change

end RustyPenguin.Vmm
