import RustyPenguin.Rpfs.Contents

/-!
# Read after write

The history of a run says what a path holds (`lastWritten`): the data of the last write
of it that returned true, if no delete of it succeeded since. One more thing ends it: a
write of the path that is within the limits and still returns false. On a device that
honours everything that is an overwrite for which there was no space, and it removes the
file. `ReadsBack` says that the volume holds what the history says, and every operation
keeps it (`apply_readsBack`).
-/

set_option autoImplicit false

namespace RustyPenguin.Rpfs

open Buffer

/-- What the history, newest call first, says the path holds. -/
def lastWritten (name : List UInt8) : List (Op × Bool) → Option (List UInt8)
  | [] => none
  | (.write other data, ok) :: history =>
      if other = name then
        if ok then some data
        else if data.length ≤ maxFile then none
        else lastWritten name history
      else lastWritten name history
  | (.delete other, ok) :: history =>
      if other = name ∧ ok = true then none else lastWritten name history
  | (.mkdir _, _) :: history | (.read _ _, _) :: history => lastWritten name history

/-- Operations on other paths say nothing about a path. -/
theorem lastWritten_of_spares {name : List UInt8} {op : Op} (ok : Bool)
    (history : List (Op × Bool)) (spares : op.Spares name) :
    lastWritten name ((op, ok) :: history) = lastWritten name history := by
  cases op with
  | write other data => rw [lastWritten, if_neg spares]
  | delete other => rw [lastWritten, if_neg fun both => spares both.1]
  | mkdir => rfl
  | read => rfl

section ReadBack

variable {D : Type} [LawfulBlockDev D]

/-- **The volume holds what the history says.** A path with data is found and its slot stores the
data; under any other path there is no file. -/
structure ReadsBack (fs : Rpfs D) (history : List (Op × Bool)) : Prop where
  stored : ∀ name data, NulFree name → lastWritten name history = some data →
    ∃ i, fs.find name = some i ∧ Stored fs i data
  absent : ∀ name, NulFree name → lastWritten name history = none →
    ∀ i, (fs.dir.entry i).IsFile → (fs.dir.entry i).name ≠ name
  named : ∀ name data, lastWritten name history = some data → name ≠ [] ∧ name.length ≤ maxName

variable {fs fs' : Rpfs (Recorder D)} {history : List (Op × Bool)}

omit [LawfulBlockDev D] in
/-- Where paths are distinct, an active entry is the one its path finds. -/
theorem find_of_unique (unique : fs.dir.Unique) {i : Fin dirEntries} {name : List UInt8}
    (active : (fs.dir.entry i).Active) (named : (fs.dir.entry i).name = name) :
    fs.find name = some i := by
  obtain ⟨j, found⟩ := Directory.exists_find active named
  obtain ⟨there, -⟩ := Directory.find_eq_some.mp found
  rw [← unique j i there.1 active (there.2.trans named.symm)]
  exact found

/-- **A step on another path** leaves what a path holds. -/
theorem ReadsBack.spared {op : Op} {ok : Bool} (wf : fs.WellFormed)
    (small : fs.totalBlocks < 2 ^ 32) (alloc : fs.Allocated) (unique' : fs'.dir.Unique)
    (back : ReadsBack fs history) (nulFreeOp : NulFree op.name)
    (done : fs.apply op = some (ok, fs')) {name : List UInt8} (nulFree : NulFree name)
    (spares : op.Spares name) :
    (∀ data, lastWritten name history = some data → ∃ i, fs'.find name = some i ∧ Stored fs' i data) ∧
      (lastWritten name history = none →
        ∀ i, (fs'.dir.entry i).IsFile → (fs'.dir.entry i).name ≠ name) := by
  constructor
  · intro data held
    obtain ⟨i, found, stored⟩ := back.stored name data nulFree held
    have named := (Directory.find_eq_some.mp found).1.2
    have kept := apply_keeps wf small (Allocated.protected alloc stored.isFile)
      (named.symm ▸ spares) done
    have stored' := stored.keep kept (apply_bounded wf done).shape_eq
    refine ⟨i, find_of_unique unique' stored'.isFile.1 ?_, stored'⟩
    rw [kept.entry_eq, named]
  · intro none j isFile named
    rcases apply_entry wf done isFile.1 with same | isDir | ⟨other, data, rfl, rfl, stored, -⟩
    · rw [same] at isFile named
      exact back.absent name nulFree none j isFile named
    · exact absurd isDir isFile.2
    · cases writeFile_outcome wf done with
      | stored writable =>
          refine spares ?_
          rw [← named, stored]
          exact (storedName_of_nulFree nulFreeOp writable.2.2.1).symm

/-- A path that a write within the limits is refused for is not that of a file. -/
theorem ReadsBack.absent_of_refused {name data : List UInt8} (back : ReadsBack fs history)
    (unique : fs.dir.Unique) (ready : fs.ready = true) (nulFree : NulFree name)
    (why : ¬fs.Writable name data ∨ fs.Unslotted name)
    (none : (if data.length ≤ maxFile then none else lastWritten name history) = none) :
    ∀ i, (fs.dir.entry i).IsFile → (fs.dir.entry i).name ≠ name := by
  cases held : lastWritten name history with
  | none => exact back.absent name nulFree held
  | some bytes =>
      obtain ⟨named, short⟩ := back.named name bytes held
      have small : data.length ≤ maxFile := by
        by_contra tooLong
        rw [if_neg tooLong, held] at none
        cases none
      intro i isFile there
      have found := find_of_unique unique isFile.1 there
      rcases why with unwritable | ⟨j, taken, isDir⟩ | ⟨missing, -⟩
      · exact unwritable ⟨ready, named, short, small⟩
      · rw [← Option.some.inj (found.symm.trans taken)] at isDir
        exact isFile.2 isDir
      · exact Option.some_ne_none i (found.symm.trans missing)

/-- **Every honoured operation keeps the volume in step with the history.** -/
theorem apply_readsBack {op : Op} {ok : Bool} (wf : fs.WellFormed)
    (small : fs.totalBlocks < 2 ^ 32) (ready : fs.ready = true) (alloc : fs.Allocated)
    (unique : fs.dir.Unique) (back : ReadsBack fs history) (nulFree : NulFree op.name)
    (done : fs.apply op = some (ok, fs')) (honoured : DataHonoured fs fs') :
    ReadsBack fs' ((op, ok) :: history) := by
  have unique' := apply_unique wf unique nulFree done
  have spared := fun {name : List UInt8} (clean : NulFree name) (spares : op.Spares name) =>
    ReadsBack.spared wf small alloc unique' back nulFree done clean spares
  refine ⟨fun name data clean held => ?_, fun name clean none => ?_, fun name data held => ?_⟩
  · by_cases spares : op.Spares name
    · rw [lastWritten_of_spares ok history spares] at held
      exact (spared clean spares).1 data held
    · cases op with
      | write other bytes =>
          obtain rfl : other = name := not_not.mp spares
          rw [lastWritten, if_pos rfl] at held
          cases writeFile_outcome wf done with
          | refused why =>
              rw [if_neg Bool.false_ne_true] at held
              split at held
              · cases held
              · exact back.stored other data clean held
          | noSpace writable =>
              rw [if_neg Bool.false_ne_true, if_pos writable.2.2.2] at held
              cases held
          | failed _ _ _ _ _ before loop _ => exact absurd honoured (not_dataHonoured before loop)
          | @stored slot _ _ _ start _ _ dir writable _ room _ _ before loop _ after effect =>
              rw [if_pos rfl] at held
              cases held
              have stored := stored_of_loop small writable.2.2.2 room before loop after
              refine ⟨slot, find_of_unique unique' stored.isFile.1 ?_, stored⟩
              rw [effect.dir_eq, Directory.entry_setEntry_self]
              exact storedName_of_nulFree clean writable.2.2.1
      | delete other =>
          obtain rfl : other = name := not_not.mp spares
          rw [lastWritten] at held
          split at held
          · cases held
          · rename_i failed
            cases deleteFile_outcome wf done with
            | refused => exact back.stored other data clean held
            | dir => exact absurd ⟨rfl, rfl⟩ failed
            | file => exact absurd ⟨rfl, rfl⟩ failed
      | mkdir => exact absurd trivial spares
      | read => exact absurd trivial spares
  · by_cases spares : op.Spares name
    · rw [lastWritten_of_spares ok history spares] at none
      exact (spared clean spares).2 none
    · cases op with
      | write other bytes =>
          obtain rfl : other = name := not_not.mp spares
          rw [lastWritten, if_pos rfl] at none
          cases writeFile_outcome wf done with
          | refused why =>
              rw [if_neg Bool.false_ne_true] at none
              exact back.absent_of_refused unique ready clean why none
          | @noSpace slot _ _ _ released _ effect =>
              intro i isFile named
              rw [effect.dir_eq] at isFile named
              by_cases here : i = slot
              · rw [here, Directory.entry_setEntry_self] at isFile
                exact absurd (show (-1 : Int8) = 1 from isFile.1) (by decide)
              · rw [Directory.entry_setEntry_of_ne _ here] at isFile named
                exact released.other_name unique here isFile.1 named
          | failed _ _ _ _ _ before loop _ => exact absurd honoured (not_dataHonoured before loop)
          | stored =>
              rw [if_pos rfl] at none
              cases none
      | delete other =>
          obtain rfl : other = name := not_not.mp spares
          have dropped : ∀ {slot : Fin dirEntries}, fs.find other = some slot →
              fs'.dir = fs.dir.tombstone slot →
                ∀ i, (fs'.dir.entry i).IsFile → (fs'.dir.entry i).name ≠ other := by
            intro slot found dirEq i isFile named
            rw [dirEq] at isFile named
            by_cases here : i = slot
            · rw [here] at isFile
              exact Directory.not_active_tombstone _ _ isFile.1
            · rw [Directory.entry_tombstone_of_ne _ here] at isFile named
              have there := (Directory.find_eq_some.mp found).1
              exact here (unique i slot isFile.1 there.1 (named.trans there.2.symm))
          cases deleteFile_outcome wf done with
          | refused =>
              rw [lastWritten, if_neg fun both => Bool.false_ne_true both.2] at none
              exact back.absent other clean none
          | dir found _ _ effect => exact dropped found effect.dir_eq
          | file found _ _ effect => exact dropped found effect.dir_eq
      | mkdir => exact absurd trivial spares
      | read => exact absurd trivial spares
  · by_cases spares : op.Spares name
    · rw [lastWritten_of_spares ok history spares] at held
      exact back.named name data held
    · cases op with
      | write other bytes =>
          obtain rfl : other = name := not_not.mp spares
          rw [lastWritten, if_pos rfl] at held
          cases writeFile_outcome wf done with
          | stored writable => exact ⟨writable.2.1, writable.2.2.1⟩
          | refused =>
              rw [if_neg Bool.false_ne_true] at held
              split at held
              · cases held
              · exact back.named other data held
          | noSpace writable => exact ⟨writable.2.1, writable.2.2.1⟩
          | failed writable => exact ⟨writable.2.1, writable.2.2.1⟩
      | delete other =>
          rw [lastWritten] at held
          split at held
          · cases held
          · exact back.named name data held
      | mkdir => exact absurd trivial spares
      | read => exact absurd trivial spares

/-- What holds after a run on a device that honours everything. -/
structure InStep (fs₀ fs : Rpfs (Recorder D)) (history : List (Op × Bool)) : Prop where
  bounded : Bounded fs₀ fs fs₀.shape.VolumeArea
  alloc : fs.Allocated
  unique : fs.dir.Unique
  back : ReadsBack fs history

theorem inStep_of_run {fs₀ : Rpfs (Recorder D)} (formatted : Formatted fs₀)
    (run : RunFrom NulFreeOp fs₀ history fs) (honoured : HonouredSince fs₀.dev fs.dev) :
    InStep fs₀ fs history := by
  have fresh := formatted.fresh
  have unused : ∀ i, ¬(fs₀.dir.entry i).IsFile := fun i isFile => fresh.inactive i isFile.1
  refine (run.invariant_history (P := fun history fs => Bounded fs₀ fs fs₀.shape.VolumeArea ∧
    (HonouredSince fs₀.dev fs.dev → InStep fs₀ fs history)) ⟨⟨rfl, Issues.refl _⟩, fun _ => ?_⟩
      ?_).2 honoured
  · refine ⟨⟨rfl, Issues.refl _⟩, fresh.allocated,
      fun i _ active => absurd active (fresh.inactive i), ⟨?_, ?_, ?_⟩⟩
    · exact fun _ _ _ impossible => absurd impossible.symm (Option.some_ne_none _)
    · exact fun _ _ _ i isFile => absurd isFile (unused i)
    · exact fun _ _ impossible => absurd impossible.symm (Option.some_ne_none _)
  · rintro history fs op ok fs' ⟨before, inStep⟩ nulFree done
    have wf : fs.WellFormed := show Shape.WellFormed _ from before.shape_eq ▸ fresh.wf
    have step := apply_bounded wf done
    have after : Bounded fs₀ fs' fs₀.shape.VolumeArea :=
      ⟨step.shape_eq.trans before.shape_eq, before.issued.trans (before.shape_eq ▸ step.issued)⟩
    have total : fs.totalBlocks = fs₀.totalBlocks := congrArg Shape.totalBlocks before.shape_eq
    have ready : fs.ready = fs₀.ready := congrArg Shape.ready before.shape_eq
    refine ⟨after, fun honoured => ?_⟩
    obtain ⟨first, second⟩ := honoured.split before.issued step.issued
    obtain ⟨-, alloc, unique, back⟩ := inStep first
    have small : fs.totalBlocks < 2 ^ 32 := total ▸ fresh.totalBlocks_lt
    have dataHonoured : DataHonoured fs fs' := fun q member _ _ => second q member
    exact ⟨after, apply_allocated wf small alloc done dataHonoured,
      apply_unique wf unique nulFree done,
      apply_readsBack wf small (ready.trans fresh.ready) alloc unique back nulFree done dataHonoured⟩

/-- **Reading back.** After any NUL-free history on a device that honours everything, reading a
path returns what the history says it holds, cut to the caller's buffer, and finds nothing when
the history says it holds nothing; and the read does return. What the history says does not
depend on the calls on other paths. -/
theorem readFile_of_run {fs₀ : Rpfs (Recorder D)} (formatted : Formatted fs₀)
    (run : RunFrom NulFreeOp fs₀ history fs) (honoured : HonouredSince fs₀.dev fs.dev)
    {name : List UInt8} (nulFree : NulFree name) (out : List UInt8) :
    (∃ answer, fs.readFile name out = some answer) ∧
      (∀ r out' fs', fs.readFile name out = some (r, out', fs') → HonouredSince fs.dev fs'.dev →
        match lastWritten name history with
        | some data => r = some (min data.length out.length) ∧
            out' = blit out 0 (data.take (min data.length out.length))
        | none => r = none ∧ out' = out) ∧
      ∀ op ok, op.Spares name →
        lastWritten name ((op, ok) :: history) = lastWritten name history := by
  have fresh := formatted.fresh
  obtain ⟨bounded, -, unique, back⟩ := inStep_of_run formatted run honoured
  have wf : fs.WellFormed := show Shape.WellFormed _ from bounded.shape_eq ▸ fresh.wf
  have ready : fs.ready = true := (congrArg Shape.ready bounded.shape_eq).trans fresh.ready
  refine ⟨?_, fun r out' fs' done honoured => ?_, fun op ok => lastWritten_of_spares ok history⟩
  · cases held : lastWritten name history with
    | some data =>
        obtain ⟨i, found, stored⟩ := back.stored name data nulFree held
        exact stored.readFile_total wf found out
    | none =>
        refine readFile_total wf out fun i found isFile => ?_
        obtain ⟨active, named⟩ := (Directory.find_eq_some.mp found).1
        exact absurd named (back.absent name nulFree held i ⟨active, isFile⟩)
  · cases held : lastWritten name history with
    | some data =>
        obtain ⟨i, found, stored⟩ := back.stored name data nulFree held
        have result := readFile_stored ready found stored done honoured
        rw [slice, List.drop_zero] at result
        exact result
    | none =>
        rcases readFile_deliver ready done honoured with ⟨none, same, -⟩ | ⟨i, found, isFile, -⟩
        · exact ⟨none, same⟩
        · obtain ⟨active, named⟩ := (Directory.find_eq_some.mp found).1
          exact absurd named (back.absent name nulFree held i ⟨active, isFile⟩)

end ReadBack

/-- Everything asked of a disk that honours everything is honoured. -/
theorem honouredSince_of_willing {r r' : Recorder ScriptedDisk} {R : Nat → Nat → Prop}
    (willing : r.dev.script = fun _ => true) (issued : Issues R r r') : HonouredSince r r' :=
  fun q member => by
    obtain ⟨k, answer⟩ := (ScriptedDisk.since_script issued).2 q member
    rw [answer, willing]

/-- The theorem at a volume of one block: a file of three bytes read into a buffer of four. -/
theorem readFile_of_run_small : ∃ fs₀ fs fs' : Rpfs (Recorder ScriptedDisk),
    formatVolume ⟨ScriptedDisk.blank fun _ => true, []⟩ 0 1 1 = some fs₀ ∧
      RunFrom NulFreeOp fs₀ [(.write [97] [1, 2, 3], true)] fs ∧
      fs.readFile [97] [0, 0, 0, 0] = some (some 3, [1, 2, 3, 0], fs') := by
  obtain ⟨fs₀, laid, formatted, roomy, total, issued⟩ :=
    exists_formatted (⟨ScriptedDisk.blank fun _ => true, []⟩ : Recorder ScriptedDisk) 1 (by decide)
  have willing := (ScriptedDisk.since_script issued).1
  obtain ⟨fs, done, -, -⟩ := formatted.fresh.stores [97] [1, 2, 3] roomy
    willing (by decide) (by decide) (by decide) (by rw [total]; decide)
  have step := apply_bounded formatted.fresh.wf done
  have run : RunFrom NulFreeOp fs₀ [(.write [97] [1, 2, 3], true)] fs :=
    Run.start.next (show NulFree [97] by simp [NulFree]) done
  obtain ⟨⟨⟨r, out', fs'⟩, read⟩, back, -⟩ := readFile_of_run formatted run
    (honouredSince_of_willing willing step.issued) (show NulFree [97] by simp [NulFree]) [0, 0, 0, 0]
  have willing' := (ScriptedDisk.since_script step.issued).1.trans willing
  obtain ⟨rfl, rfl⟩ := back r out' fs' read
    (honouredSince_of_willing willing' (readFile_spec read).issued)
  exact ⟨fs₀, fs, fs', laid, run, read⟩

/-- An overwrite that there is no space for: on a volume of one block, the file `a` is written and
then written again with more than a block. -/
theorem exists_failed_overwrite : ∃ fs₀ fs₁ fs : Rpfs (Recorder ScriptedDisk),
    formatVolume ⟨ScriptedDisk.blank fun _ => true, []⟩ 0 1 1 = some fs₀ ∧ Formatted fs₀ ∧
      (fs₀.dev.dev.script = fun _ => true) ∧
      fs₀.apply (.write [97] [1, 2, 3]) = some (true, fs₁) ∧
      fs₁.apply (.write [97] (List.replicate 513 0)) = some (false, fs) ∧
      ∀ out, fs.readFile [97] out = some (none, out, fs) := by
  obtain ⟨fs₀, laid, formatted, roomy, total, issued⟩ :=
    exists_formatted (⟨ScriptedDisk.blank fun _ => true, []⟩ : Recorder ScriptedDisk) 1 (by decide)
  have fresh := formatted.fresh
  have willing := (ScriptedDisk.since_script issued).1
  have two : blocksFor (List.replicate 513 (0 : UInt8)).length = 2 := by
    rw [List.length_replicate]
    decide
  obtain ⟨fs₁, done, -, slot, start, dir, -, -, dirEq⟩ := fresh.stores [97] [1, 2, 3] roomy
    willing (by decide) (by decide) (by decide) (by rw [total]; decide)
  have run : RunFrom NulFreeOp fs₀ [(.write [97] [1, 2, 3], true)] fs₁ :=
    Run.start.next (show NulFree [97] by simp [NulFree]) done
  have bounded := run_bounded fresh.wf run
  have wf₁ : fs₁.WellFormed := show Shape.WellFormed _ from bounded.shape_eq.symm ▸ fresh.wf
  have total₁ : fs₁.totalBlocks = 1 := (congrArg Shape.totalBlocks bounded.shape_eq).trans total
  have ready₁ : fs₁.ready = true := (congrArg Shape.ready bounded.shape_eq).trans fresh.ready
  have unique₁ := unique_of_run formatted run
  have file : (fs₁.dir.entry slot).IsFile ∧ (fs₁.dir.entry slot).name = [97] := by
    rw [dirEq, Directory.entry_setEntry_self]
    exact ⟨⟨rfl, show ¬kFile = kDir by decide⟩, show storedName [97] = [97] by decide⟩
  have found := find_of_unique unique₁ file.1.1 file.2
  obtain ⟨⟨ok, fs⟩, again⟩ := run_total fresh.wf roomy (fresh.addressable _) run
    (.write [97] (List.replicate 513 0))
  have step := apply_bounded wf₁ again
  cases writeFile_outcome wf₁ again with
  | refused why =>
      rcases why with unwritable | ⟨i, there, isDir⟩ | ⟨missing, -⟩
      · refine absurd ⟨ready₁, by decide, by decide, ?_⟩ unwritable
        rw [List.length_replicate]
        decide
      · rw [← Option.some.inj (found.symm.trans there)] at isDir
        exact absurd isDir file.1.2
      · exact absurd (found.symm.trans missing) (Option.some_ne_none slot)
  | failed _ _ room =>
      rw [two, total₁] at room
      omega
  | stored _ _ room =>
      rw [two, total₁] at room
      omega
  | @noSpace slot' _ _ _ released _ effect =>
      refine ⟨fs₀, fs₁, fs, laid, formatted, willing, done, again, fun out => ?_⟩
      have missing : fs.find [97] = none := by
        refine Directory.find_eq_none.mpr fun i there => ?_
        rw [effect.dir_eq] at there
        by_cases here : i = slot'
        · rw [here, Directory.entry_setEntry_self] at there
          exact absurd (show (-1 : Int8) = 1 from there.1) (by decide)
        · rw [Directory.entry_setEntry_of_ne _ here] at there
          exact released.other_name unique₁ here there.1 there.2
      have ready : fs.ready = true := (congrArg Shape.ready step.shape_eq).trans ready₁
      rw [readFile, if_pos ready, missing]

/-- **A write that fails for lack of space loses the file.** On a volume of one block, writing the
file `a` and then overwriting it with more than a block returns true and then false, and reading
`a` finds nothing, though its last write that returned true was followed by no delete. -/
theorem failed_overwrite_loses : ∃ fs₀ fs : Rpfs (Recorder ScriptedDisk),
    formatVolume ⟨ScriptedDisk.blank fun _ => true, []⟩ 0 1 1 = some fs₀ ∧
      RunFrom NulFreeOp fs₀
        [(.write [97] (List.replicate 513 0), false), (.write [97] [1, 2, 3], true)] fs ∧
      HonouredSince fs₀.dev fs.dev ∧ ∀ out, fs.readFile [97] out = some (none, out, fs) := by
  obtain ⟨fs₀, fs₁, fs, laid, formatted, willing, first, second, gone⟩ := exists_failed_overwrite
  have nulFree : NulFree [97] := by simp [NulFree]
  have run : RunFrom NulFreeOp fs₀
      [(.write [97] (List.replicate 513 0), false), (.write [97] [1, 2, 3], true)] fs :=
    (Run.start.next nulFree first).next nulFree second
  exact ⟨fs₀, fs, laid, run,
    honouredSince_of_willing willing (run_bounded formatted.fresh.wf run).issued, gone⟩

end RustyPenguin.Rpfs
