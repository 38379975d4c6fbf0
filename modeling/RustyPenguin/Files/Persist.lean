import RustyPenguin.Files.Reload

/-!
# Files across a reboot

Names and contents are kept apart: the contents of a file are stored when it is written or renamed,
the manifest only when an operation adds or drops a name. A start reads back the files of the
manifest, and the settings even when the manifest does not have them.

An operation is safe when both copies follow it (`Op.Safe`): the contents are not empty and fit the
field for their length, the name is one line, the manifest fits, the file written is not a built-in
one while there is no manifest, and nothing is deleted or renamed away that a start puts back. In
every run of safe operations and reboots the persistable files are the same after a reboot
(`survives_of_run`). An empty file is one that is not there after a reboot (`empty_file_lost`).
-/

set_option autoImplicit false

namespace RustyPenguin.Files

open Trace (after Always Each)

/-- The files that are to be kept, with their contents. -/
def userFiles (entries : Entries) : Set (String × Bytes) :=
  {file | persistable file.1 ∧ ⟨file.1, file.2, false⟩ ∈ entries}

/-- After a reboot the files are the same. -/
def Survives (s : Vfs) : Prop := userFiles (boot s.disk).entries = userFiles s.entries

/-- An operation that the disk follows. -/
def Op.Safe (s : Vfs) : Op → Prop
  | .write name data => persistable name → data ≠ [] ∧ data.length ≤ 65535 ∧
      (if s.entries.exists name then
        s.entries.read name = some data ∨
          (s.entries.read name).isSome ∧ (s.disk (asBytes manifest)).isSome
      else '\n' ∉ name.toList ∧ namesLength (name :: s.entries.listed) ≤ 65535)
  | .mkdir _ => True
  | .delete name => persistable name → (s.entries.read name).isSome →
      builtIn.read name = none ∧ name ≠ settings
  | .rename source target => ∀ e, s.entries.find source = some e → e.isDir = false →
      if persistable target then
        e.data ≠ [] ∧ e.data.length ≤ 65535 ∧ '\n' ∉ target.toList ∧
          namesLength (target :: s.entries.listed.erase source) ≤ 65535 ∧
          (source = target ∨ s.entries.read target = none ∧
            (persistable source → builtIn.read source = none ∧ source ≠ settings))
      else ¬persistable source

/-- The operations and a new start from the disk. -/
inductive Event
  | op (o : Op)
  | reboot

def Vfs.step (s : Vfs) : Event → Vfs
  | .op o => s.apply o
  | .reboot => boot s.disk

def Event.Safe (s : Vfs) : Event → Prop
  | .op o => o.Safe s
  | .reboot => True

/-! ## Memory and disk in step -/

/-- A file is on the disk, or is a built-in one that was never written there. -/
structure Kept (disk : Disk) (name : String) (data : Bytes) : Prop where
  full : data ≠ []
  short : data.length ≤ 65535
  line : '\n' ∉ name.toList
  there : disk (asBytes name) = some data ∨ disk (asBytes name) = none ∧ builtIn.read name = some data

/-- All is in step but for the manifest. -/
structure Ready (s : Vfs) : Prop where
  armed : s.persistOn = true
  nodup : s.entries.listed.Nodup
  kept : ∀ name data, persistable name → s.entries.read name = some data → Kept s.disk name data
  built : ∀ name, (builtIn.read name).isSome → (s.entries.read name).isSome
  legacy : s.entries.read settings = none → content s.disk settings = []
  fits : namesLength s.entries.listed ≤ 65535

/-- The manifest has the names of the files, or there is none and they are the built-in ones. -/
def Listed (s : Vfs) : Prop :=
  (∃ names, names.Perm s.entries.listed ∧
    s.disk (asBytes manifest) = some (asBytes (manifestText names))) ∨
  s.disk (asBytes manifest) = none ∧
    ∀ name, persistable name → s.entries.read name = builtIn.read name

structure InStep (s : Vfs) : Prop extends Ready s where
  listed : Listed s

section InStep

variable {s : Vfs} {entries : Entries} {name source target : String} {data : Bytes} {e : VfsEntry}

theorem Ready.plain (ready : Ready s) : ∀ name ∈ s.entries.listed, name ≠ "" ∧ '\n' ∉ name.toList := by
  intro name inside
  obtain ⟨wanted, there⟩ := mem_listed.mp inside
  obtain ⟨data, found⟩ := Option.isSome_iff_exists.mp there
  exact ⟨wanted.1, (ready.kept name data wanted found).line⟩

theorem asBytes_ne (wanted : persistable name) : asBytes name ≠ asBytes manifest := by
  rw [Ne, asBytes_inj]
  exact wanted.2.2

/-- Writing the manifest brings all in step. -/
theorem Ready.flush (ready : Ready s) : InStep s.flushManifest := by
  obtain ⟨full, short⟩ := manifestText_size ready.fits
  have written : s.flushManifest.disk = Function.update s.disk (asBytes manifest)
      (some (asBytes (manifestText s.entries.listed))) := by
    rw [Vfs.flushManifest, persistWrite_eq storable_manifest full, Nat.mod_eq_of_lt (by omega),
      List.take_length]
  have same : ∀ name, persistable name → s.flushManifest.disk (asBytes name) = s.disk (asBytes name) := by
    intro name wanted
    rw [written, Function.update_of_ne (asBytes_ne wanted)]
  refine ⟨⟨ready.armed, ready.nodup, ?_, ready.built, ?_, ready.fits⟩, Or.inl ?_⟩
  · intro name data wanted found
    have kept := ready.kept name data wanted found
    refine ⟨kept.full, kept.short, kept.line, ?_⟩
    rw [same name wanted]
    exact kept.there
  · intro none
    have before := ready.legacy none
    rw [content_eq persistable_settings.storable] at before ⊢
    rwa [same _ persistable_settings]
  · refine ⟨s.entries.listed, .refl _, ?_⟩
    rw [written, Function.update_self]

theorem builtIn_persistable (there : (builtIn.read name).isSome) : persistable name := by
  obtain ⟨a, inside, -, rfl⟩ := isSome_read.mp there
  have all : ∀ a ∈ builtIn, persistable a.name := by decide
  exact all a inside

theorem builtIn_settings : builtIn.read settings = none := by decide

/-- Entries with the same persistable files are in step with the same disk. -/
theorem InStep.of_same (inStep : InStep s) (nodup : entries.listed.Nodup)
    (same : ∀ name, persistable name → entries.read name = s.entries.read name) :
    InStep { s with entries := entries } := by
  have perm := listed_perm inStep.nodup nodup same
  refine ⟨⟨inStep.armed, nodup, ?_, ?_, ?_, ?_⟩, ?_⟩
  · intro name data wanted found
    exact inStep.kept name data wanted ((same name wanted).symm.trans found)
  · intro name there
    show (entries.read name).isSome
    rw [same name (builtIn_persistable there)]
    exact inStep.built name there
  · intro none
    exact inStep.legacy ((same _ persistable_settings).symm.trans none)
  · show namesLength entries.listed ≤ 65535
    rw [namesLength_perm perm]
    exact inStep.fits
  · rcases inStep.listed with ⟨names, isListed, there⟩ | ⟨none, all⟩
    · exact Or.inl ⟨names, isListed.trans perm.symm, there⟩
    · exact Or.inr ⟨none, fun name wanted => (same name wanted).trans (all name wanted)⟩

/-- **What a start reads back is what was there.** -/
theorem InStep.read_boot (inStep : InStep s) (wanted : persistable name) :
    (boot s.disk).entries.read name = s.entries.read name := by
  rcases inStep.listed with ⟨names, isListed, there⟩ | ⟨none, all⟩
  · have isNames : bootNames s.disk = names := by
      refine bootNames_eq ?_ ?_ there
      · intro name inside
        exact inStep.plain name (isListed.mem_iff.mp inside)
      · rw [namesLength_perm isListed]
        exact inStep.fits
    have inNames : ∀ {name}, persistable name → (name ∈ names ↔ (s.entries.read name).isSome) := by
      intro name wanted
      rw [isListed.mem_iff, mem_listed]
      exact and_iff_right wanted
    have known : settings ∈ bootNames s.disk ∨ content s.disk settings = [] := by
      rcases found : s.entries.read settings with _ | data
      · exact Or.inr (inStep.legacy found)
      · rw [isNames, inNames persistable_settings, found]
        exact Or.inl rfl
    have inside := inNames wanted
    rw [Files.read_boot known, isNames]
    rcases found : s.entries.read name with _ | data
    all_goals rw [found] at inside
    · rw [if_neg (fun hit => Bool.noConfusion (inside.mp hit.1)), ← Option.not_isSome_iff_eq_none]
      intro built
      have present := inStep.built name built
      rw [found] at present
      cases present
    · have kept := inStep.kept name data wanted found
      rcases kept.there with stored | ⟨absent, built⟩
      · rw [content_of_short wanted.storable stored kept.short, if_pos ⟨inside.mpr rfl, kept.full⟩]
      · have nothing : content s.disk name = [] := by
          rw [content_eq wanted.storable, absent]
          rfl
        rw [if_neg (fun hit => hit.2 nothing), built]
  · have noSettings : s.entries.read settings = .none :=
      (all settings persistable_settings).trans builtIn_settings
    rw [Files.read_boot (Or.inr (inStep.legacy noSettings)), bootNames_none none, all name wanted,
      if_neg (fun hit => List.not_mem_nil hit.1)]

theorem InStep.reboot (inStep : InStep s) : InStep (boot s.disk) := by
  have again : boot s.disk = { s with entries := (boot s.disk).entries } := by
    rw [boot_eq, ← inStep.armed]
  rw [again]
  exact inStep.of_same (nodup_boot _) fun name wanted => inStep.read_boot wanted

theorem InStep.survives (inStep : InStep s) : Survives s := by
  ext ⟨name, data⟩
  refine and_congr_right fun wanted => ?_
  rw [← read_eq_some (nodup_boot _) wanted, ← read_eq_some inStep.nodup wanted, inStep.read_boot wanted]

/-! ## What each operation keeps in step -/

/-- Storing a file at a path, with a name dropped or not. -/
theorem Ready.store (ready : Ready s) (wanted : persistable target) (full : data ≠ [])
    (short : data.length ≤ 65535) (line : '\n' ∉ target.toList) (nodup : entries.listed.Nodup)
    (fits : namesLength entries.listed ≤ 65535) (here : entries.read target = some data)
    (other : ∀ name, persistable name → target ≠ name → entries.read name = s.entries.read name ∨
      entries.read name = none ∧ builtIn.read name = none ∧ name ≠ settings) :
    Ready { s with entries := entries, disk := (persistWrite s.disk target data).1 } := by
  have written : (persistWrite s.disk target data).1 =
      Function.update s.disk (asBytes target) (some data) := by
    rw [persistWrite_eq wanted.storable full, Nat.mod_eq_of_lt (by omega), List.take_length]
  rw [written]
  have same : ∀ name, target ≠ name →
      Function.update s.disk (asBytes target) (some data) (asBytes name) = s.disk (asBytes name) := by
    intro name apart
    exact Function.update_of_ne (fun equal => apart (asBytes_injective equal).symm) _ _
  refine ⟨ready.armed, nodup, ?_, ?_, ?_, fits⟩
  · intro name found wanted' isRead
    by_cases equal : target = name
    · subst equal
      cases here.symm.trans isRead
      exact ⟨full, short, line, Or.inl (Function.update_self _ _ _)⟩
    · rcases other name wanted' equal with unchanged | ⟨gone, -⟩
      · have kept := ready.kept name found wanted' (unchanged.symm.trans isRead)
        refine ⟨kept.full, kept.short, kept.line, ?_⟩
        dsimp only
        rw [same name equal]
        exact kept.there
      · cases gone.symm.trans isRead
  · intro name built
    show (entries.read name).isSome
    by_cases equal : target = name
    · rw [← equal, here]
      rfl
    · rcases other name (builtIn_persistable built) equal with unchanged | ⟨-, absent, -⟩
      · rw [unchanged]
        exact ready.built name built
      · rw [absent] at built
        cases built
  · intro gone
    by_cases equal : target = settings
    · rw [equal] at here
      cases here.symm.trans gone
    · rcases other settings persistable_settings equal with unchanged | ⟨-, -, apart⟩
      · have before := ready.legacy (unchanged.symm.trans gone)
        rw [content_eq persistable_settings.storable] at before ⊢
        dsimp only
        rwa [same settings equal]
      · exact absurd rfl apart

theorem Ready.writeMem (ready : Ready s) (wanted : persistable name) (full : data ≠ [])
    (short : data.length ≤ 65535) (line : '\n' ∉ name.toList)
    (fits : namesLength (s.entries.writeMem name data).listed ≤ 65535) :
    Ready { s with entries := s.entries.writeMem name data, disk := (persistWrite s.disk name data).1 } := by
  refine ready.store wanted full short line (nodup_writeMem ready.nodup) fits ?_ ?_
  · rw [read_writeMem, if_pos rfl]
  · intro other _ apart
    rw [read_writeMem, if_neg apart]
    exact Or.inl rfl

/-- A write leaves the manifest as it is. -/
theorem manifest_of_write (s : Vfs) (data : Bytes) (wanted : persistable name) :
    (persistWrite s.disk name data).1 (asBytes manifest) = s.disk (asBytes manifest) := by
  by_cases full : data = []
  · rw [persistWrite, if_pos (Or.inr (Or.inr full))]
  · rw [persistWrite_eq wanted.storable full]
    exact Function.update_of_ne (asBytes_ne wanted).symm _ _

theorem InStep.write (inStep : InStep s) (safe : (Op.write name data).Safe s) :
    InStep (s.write name data) := by
  rw [Vfs.write]
  by_cases wanted : persistable name
  · obtain ⟨full, short, clear⟩ := safe wanted
    rw [if_pos ⟨inStep.armed, wanted⟩]
    by_cases present : s.entries.exists name
    · rw [if_pos present] at clear ⊢
      have old : (s.entries.read name).isSome := by
        rcases clear with current | ⟨old, -⟩
        · rw [current]
          rfl
        · exact old
      have line := (inStep.plain name (mem_listed.mpr ⟨wanted, old⟩)).2
      have unchanged := listed_writeMem_old data old
      refine ⟨inStep.toReady.writeMem wanted full short line (unchanged ▸ inStep.fits), ?_⟩
      have kept := manifest_of_write s data wanted
      rcases inStep.listed with ⟨names, isListed, there⟩ | ⟨none, all⟩
      · exact Or.inl ⟨names, unchanged ▸ isListed, kept.trans there⟩
      · refine Or.inr ⟨kept.trans none, ?_⟩
        intro other wanted'
        rcases clear with current | ⟨-, there⟩
        · rw [← all other wanted', read_writeMem]
          split_ifs with same
          · rw [← same, current]
          · rfl
        · rw [none] at there
          cases there
    · rw [if_neg present] at clear ⊢
      obtain ⟨line, fits⟩ := clear
      have new : s.entries.read name = none :=
        read_eq_none.mpr fun a inside named => absurd ⟨a, inside, named⟩ present
      refine (inStep.toReady.writeMem wanted full short line ?_).flush
      rw [listed_writeMem_new new, if_pos wanted, namesLength_perm (List.perm_append_singleton name _)]
      exact fits
  · rw [if_neg (fun armed => wanted armed.2)]
    refine inStep.of_same (nodup_writeMem inStep.nodup) ?_
    intro other wanted'
    have apart : name ≠ other := by
      rintro rfl
      exact wanted wanted'
    rw [read_writeMem, if_neg apart]

theorem InStep.mkdir (inStep : InStep s) : InStep (s.mkdir name) := by
  refine inStep.of_same ?_ fun _ _ => read_mkdir
  rw [listed_mkdir]
  exact inStep.nodup

theorem InStep.delete (inStep : InStep s) (safe : (Op.delete name).Safe s) :
    InStep (s.delete name).1 := by
  have nodup := nodup_delete name inStep.nodup
  by_cases gone : persistable name ∧ (s.entries.read name).isSome
  · obtain ⟨notBuilt, notSettings⟩ := safe gone.1 gone.2
    obtain ⟨a, inside, -, named⟩ := isSome_read.mp gone.2
    have removed : (s.entries.delete name).length < s.entries.length :=
      List.length_filter_lt_length_iff_exists.mpr ⟨a, inside, by simp [named]⟩
    rw [Vfs.delete, if_pos ⟨decide_eq_true removed, inStep.armed, gone.1⟩]
    refine Ready.flush ⟨inStep.armed, nodup, ?_, ?_, ?_, ?_⟩
    · intro other data wanted found
      dsimp only at found
      rw [read_delete] at found
      split_ifs at found
      exact inStep.kept other data wanted found
    · intro other built
      show ((s.entries.delete name).read other).isSome
      rw [read_delete]
      split_ifs with same
      · rw [← same, notBuilt] at built
        cases built
      · exact inStep.built other built
    · intro none
      dsimp only at none
      rw [read_delete, if_neg notSettings] at none
      exact inStep.legacy none
    · refine (namesLength_le nodup ?_).trans inStep.fits
      exact ((List.filter_sublist.filter _).map _).subset
  · have same : ∀ other, persistable other → (s.entries.delete name).read other = s.entries.read other := by
      intro other wanted
      rw [read_delete]
      split_ifs with equal
      · rw [equal] at gone
        exact (Option.not_isSome_iff_eq_none.mp fun there => gone ⟨wanted, there⟩).symm
      · rfl
    have kept := inStep.of_same nodup same
    rw [Vfs.delete]
    split
    · exact kept.toReady.flush
    · exact kept

theorem InStep.rename (inStep : InStep s) (safe : (Op.rename source target).Safe s) :
    InStep (s.rename source target).1 := by
  rw [Vfs.rename]
  rcases found : s.entries.find source with _ | e
  · exact inStep
  rcases kind : e.isDir with _ | _
  · have clear := safe e found kind
    dsimp only
    by_cases wanted : persistable target
    · rw [if_pos wanted] at clear
      obtain ⟨full, short, line, fits, free⟩ := clear
      have isFree : source = target ∨ s.entries.read target = none := free.imp_right And.left
      have isRead := fun {other} => read_rename_file other inStep.nodup found kind isFree
      have nodup := nodup_rename inStep.nodup found isFree
      rw [if_pos ⟨inStep.armed, kind, wanted⟩]
      refine (inStep.toReady.store wanted full short line nodup ?_ ?_ ?_).flush
      · refine (namesLength_le nodup ?_).trans fits
        intro name inside
        obtain ⟨wanted', there⟩ := mem_listed.mp inside
        rw [isRead wanted'] at there
        split_ifs at there with here away
        · exact here ▸ List.mem_cons_self
        · cases there
        · exact List.mem_cons_of_mem target
            ((List.mem_erase_of_ne (Ne.symm away)).mpr (mem_listed.mpr ⟨wanted', there⟩))
      · rw [isRead wanted, if_pos rfl]
      · intro name wanted' apart
        rw [isRead wanted', if_neg apart]
        split_ifs with away
        · right
          subst away
          rcases free with same | ⟨-, dropped⟩
          · exact absurd same.symm apart
          · exact ⟨rfl, dropped wanted'⟩
        · exact Or.inl rfl
    · rw [if_neg wanted] at clear
      rw [if_neg (fun armed => wanted armed.2.2)]
      refine inStep.of_same ?_ ?_
      · rw [listed_rename_other found wanted clear]
        exact inStep.nodup
      · intro name wanted'
        refine read_rename_other found ?_ ?_
        · rintro rfl
          exact wanted wanted'
        · rintro rfl
          exact clear wanted'
  · dsimp only
    rw [if_neg (fun armed => by rw [kind] at armed; exact Bool.noConfusion armed.2.1)]
    refine inStep.of_same ?_ fun _ _ => read_rename_dir found kind
    rw [listed_rename_dir found kind]
    exact inStep.nodup

theorem InStep.step {event : Event} (inStep : InStep s) (safe : event.Safe s) :
    InStep (s.step event) := by
  cases event with
  | op o =>
    cases o with
    | write name data => exact inStep.write safe
    | mkdir name => exact inStep.mkdir
    | delete name => exact inStep.delete safe
    | rename source target => exact inStep.rename safe
  | reboot => exact inStep.reboot

end InStep

/-! ## The files of the first start -/

/-- A character has one byte to four. -/
theorem utf8ByteSize_ofList (l : List Char) :
    l.length ≤ (String.ofList l).utf8ByteSize ∧ (String.ofList l).utf8ByteSize ≤ 4 * l.length := by
  induction l with
  | nil => exact ⟨Nat.le_refl 0, Nat.le_refl 0⟩
  | cons c l ih =>
    have split : String.ofList (c :: l) = String.ofList [c] ++ String.ofList l := by
      rw [← String.ofList_append, List.singleton_append]
    have one : (String.ofList [c]).utf8ByteSize = c.utf8Size := by
      rw [← String.size_toByteArray, String.toByteArray_ofList, List.utf8Encode_singleton]
      simp
    have few := c.utf8Size_le_four
    have some := c.utf8Size_pos
    rw [split, String.utf8ByteSize_append, List.length_cons, one]
    omega

theorem utf8ByteSize_append_le {a b : String} {k l m n : Nat}
    (left : k ≤ a.utf8ByteSize ∧ a.utf8ByteSize ≤ m)
    (right : l ≤ b.utf8ByteSize ∧ b.utf8ByteSize ≤ n) :
    k + l ≤ (a ++ b).utf8ByteSize ∧ (a ++ b).utf8ByteSize ≤ m + n := by
  rw [String.utf8ByteSize_append]
  exact ⟨Nat.add_le_add left.1 right.1, Nat.add_le_add left.2 right.2⟩

/-- The texts are not empty and fit in the buffer that reads them back. -/
theorem defaultFiles_fit : ∀ file ∈ defaultFiles, file.2 ≠ [] ∧ file.2.length ≤ 65535 := by
  have fits {text : String} {m n : Nat} (sizes : m ≤ text.utf8ByteSize ∧ text.utf8ByteSize ≤ n)
      (full : 0 < m) (short : n ≤ 65535) : asBytes text ≠ [] ∧ (asBytes text).length ≤ 65535 := by
    rw [← List.length_pos_iff, length_asBytes]
    exact ⟨full.trans_le sizes.1, sizes.2.trans short⟩
  simp only [defaultFiles, List.forall_mem_cons]
  refine ⟨?_, ?_, ?_, ?_, fun _ absent => absurd absent List.not_mem_nil⟩
  · apply fits
    · dsimp only [readme]
      repeat first | apply utf8ByteSize_append_le | exact utf8ByteSize_ofList _
    · decide
    · decide
  · apply fits
    · dsimp only [motd]
      repeat first | apply utf8ByteSize_append_le | exact utf8ByteSize_ofList _
    · decide
    · decide
  · apply fits
    · dsimp only [quickstart]
      repeat first | apply utf8ByteSize_append_le | exact utf8ByteSize_ofList _
    · decide
    · decide
  · apply fits
    · dsimp only [demo]
      repeat first | apply utf8ByteSize_append_le | exact utf8ByteSize_ofList _
    · decide
    · decide

theorem builtIn_fit : ∀ a ∈ builtIn, a.data ≠ [] ∧ a.data.length ≤ 65535 ∧ '\n' ∉ a.name.toList := by
  have all : builtIn = defaultFiles.map fun file => ⟨file.1, file.2, false⟩ := rfl
  rw [all]
  intro a isFile
  obtain ⟨file, inside, rfl⟩ := List.mem_map.mp isFile
  have line : ∀ file ∈ defaultFiles, '\n' ∉ file.1.toList := by decide
  exact ⟨(defaultFiles_fit file inside).1, (defaultFiles_fit file inside).2, line file inside⟩

/-! ## Runs -/

/-- A disk on which the desktop has not stored anything yet. -/
structure Blank (disk : Disk) : Prop where
  manifest : disk (asBytes manifest) = none
  settings : disk (asBytes settings) = none
  builtIn : ∀ name, (builtIn.read name).isSome → disk (asBytes name) = none

section Runs

variable {disk : Disk}

theorem inStep_boot (blank : Blank disk) : InStep (boot disk) := by
  have noSettings : content disk settings = [] := by
    rw [content_eq persistable_settings.storable, blank.settings]
    rfl
  have isRead : ∀ name, (boot disk).entries.read name = builtIn.read name := by
    intro name
    rw [read_boot (Or.inr noSettings), bootNames_none blank.manifest,
      if_neg (fun hit => List.not_mem_nil hit.1)]
  have onDisk : (boot disk).disk = disk := by rw [boot_eq]
  refine ⟨⟨by rw [boot_eq], nodup_boot disk, ?_, ?_, ?_, ?_⟩, Or.inr ⟨?_, fun name _ => isRead name⟩⟩
  · intro name data wanted found
    rw [isRead] at found
    have there := (read_eq_some nodup_builtIn wanted).mp found
    obtain ⟨full, short, line⟩ := builtIn_fit _ there
    refine ⟨full, short, line, Or.inr ⟨?_, found⟩⟩
    rw [onDisk]
    exact blank.builtIn name (by rw [found]; rfl)
  · intro name there
    rw [isRead]
    exact there
  · intro _
    rw [onDisk]
    exact noSettings
  · have perm := listed_perm nodup_builtIn (nodup_boot disk)
      fun name _ => isRead name
    rw [namesLength_perm perm]
    decide
  · rw [onDisk]
    exact blank.manifest

theorem inStep_of_run (blank : Blank disk) (events : List Event)
    (safe : Each Vfs.step (boot disk) (fun s event => event.Safe s) events) :
    InStep (after Vfs.step (boot disk) events) := by
  induction events using List.reverseRecOn with
  | nil => exact inStep_boot blank
  | append_singleton events event ih =>
    obtain ⟨before, last⟩ := Trace.each_concat.mp safe
    rw [Trace.after_concat]
    exact (ih before).step last

/-- **In a run of safe operations and reboots the files are the same after a reboot**, at every
point of the run. -/
theorem survives_of_run (blank : Blank disk) (events : List Event)
    (safe : Each Vfs.step (boot disk) (fun s event => event.Safe s) events) :
    Always Vfs.step (boot disk) Survives events := by
  rintro front ⟨back, rfl⟩
  refine (inStep_of_run blank front ?_).survives
  intro part event fits
  exact safe part event (fits.trans (List.prefix_append front back))

theorem blank_empty : Blank fun _ => none := ⟨rfl, rfl, fun _ _ => rfl⟩

/-- A file is written, renamed and kept. -/
def sampleEvents : List Event :=
  [.op (.write "a" [1]), .op (.rename "a" "b"), .reboot]

/-- The theorem at a small run. -/
theorem survives_of_run_sample :
    Always Vfs.step (boot fun _ => none) Survives sampleEvents := by
  have written : Each Vfs.step (boot fun _ => none) (fun s event => event.Safe s)
      [.op (.write "a" [1])] := by
    refine Trace.each_concat.mpr ⟨Trace.each_nil, fun _ => ⟨List.cons_ne_nil _ _, by decide, ?_⟩⟩
    rw [if_neg (by decide)]
    decide
  have renamed : Each Vfs.step (boot fun _ => none) (fun s event => event.Safe s)
      [.op (.write "a" [1]), .op (.rename "a" "b")] := by
    refine Trace.each_concat.mpr ⟨written, ?_⟩
    intro e found _
    have isFile : e = ⟨"a", [1], false⟩ := Option.some.inj (found.symm.trans (by decide))
    rw [if_pos (by decide), isFile]
    refine ⟨List.cons_ne_nil _ _, by decide, by decide, by decide, Or.inr ⟨?_, ?_⟩⟩
    · decide
    · exact fun _ => by decide
  exact survives_of_run blank_empty sampleEvents
    ((Trace.each_concat (e := Event.reboot)).mpr ⟨renamed, trivial⟩)

/-- **An empty file is not there after a reboot.** -/
theorem empty_file_lost :
    ¬Survives (after Vfs.step (boot fun _ => none) [.op (.write "a" [])]) := by
  have there : ("a", []) ∈ userFiles (after Vfs.step (boot fun _ => none) [.op (.write "a" [])]).entries := by
    constructor
    · decide
    · decide
  have lost : ⟨"a", [], false⟩ ∉
      (boot (after Vfs.step (boot fun _ => none) [.op (.write "a" [])]).disk).entries := by
    decide
  intro survives
  rw [← survives] at there
  exact lost there.2

end Runs

end RustyPenguin.Files
