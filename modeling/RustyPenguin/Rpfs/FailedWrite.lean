import RustyPenguin.Rpfs.ReadBack

/-!
# Writes that return false

A write that returns false, and was not refused a data write, has changed nothing that
can be read and no block's state, with one exception: an overwrite for which there is no
space has released the old extent by then, and the file is removed (`failed_write`).
The same holds in every state a formatted volume can reach, whatever its device did
before.
-/

set_option autoImplicit false

namespace RustyPenguin.Rpfs

open Buffer

section FailedWrite

variable {D : Type} [LawfulBlockDev D] {fs fs' : Rpfs (Recorder D)} {name data : List UInt8}

/-- Reading the path gives the same in both states, whatever the buffer: both reads return, and
what they deliver when the device honours them is the same. -/
def ReadsSame (fs fs' : Rpfs (Recorder D)) (name : List UInt8) : Prop :=
  ∀ out, ∃ r₁ out₁ fs₁ r₂ out₂ fs₂, fs.readFile name out = some (r₁, out₁, fs₁) ∧
    fs'.readFile name out = some (r₂, out₂, fs₂) ∧
      (HonouredSince fs.dev fs₁.dev → HonouredSince fs'.dev fs₂.dev → r₂ = r₁ ∧ out₂ = out₁)

/-- Reads of a path give the same where it finds the same entry with the same blocks. -/
theorem readsSame_of_find (wf : fs.WellFormed) (ready : fs.ready = true)
    (addressable : fs.dir.Addressable fs.dataLba) (same : fs'.shape = fs.shape)
    (sameFind : fs'.find name = fs.find name)
    (sameFile : ∀ i, fs.find name = some i →
      fs'.dir.entry i = fs.dir.entry i ∧ blocksOf fs' i = blocksOf fs i) :
    ReadsSame fs fs' name := by
  intro out
  have wf' : fs'.WellFormed := show Shape.WellFormed _ from same.symm ▸ wf
  have ready' : fs'.ready = true := (congrArg Shape.ready same).trans ready
  have place : fs'.dataLba = fs.dataLba := congrArg Shape.dataLba same
  obtain ⟨⟨r₁, out₁, fs₁⟩, first⟩ := readFile_total wf out fun i => addressable.of_find
  have ends : ∀ i, fs'.find name = some i → (fs'.dir.entry i).kind ≠ kDir →
      (fs'.dir.entry i).Addressable fs'.dataLba := by
    intro i found isFile
    rw [sameFind] at found
    rw [(sameFile i found).1] at isFile ⊢
    rw [place]
    exact addressable.of_find found isFile
  obtain ⟨⟨r₂, out₂, fs₂⟩, second⟩ := readFile_total wf' out ends
  refine ⟨r₁, out₁, fs₁, r₂, out₂, fs₂, first, second, fun honoured honoured' => ?_⟩
  rcases readFile_deliver ready first honoured with ⟨rfl, rfl, dirs⟩ | ⟨i, found, isFile, count, copied⟩
  · rcases readFile_deliver ready' second honoured' with ⟨rfl, rfl, -⟩ | ⟨i, found, isFile, -⟩
    · exact ⟨rfl, rfl⟩
    · rw [sameFind] at found
      rw [(sameFile i found).1] at isFile
      exact absurd (dirs i found) isFile
  · obtain ⟨sameEntry, sameBlocks⟩ := sameFile i found
    rcases readFile_deliver ready' second honoured' with ⟨-, -, dirs⟩ | ⟨j, there, -, count', copied'⟩
    · have isDir := dirs i (sameFind.trans found)
      rw [sameEntry] at isDir
      exact absurd isDir isFile
    · obtain rfl := Option.some.inj (there.symm.trans (sameFind.trans found))
      rw [sameEntry, sameBlocks] at count' copied'
      exact ⟨count'.trans count.symm, copied'.trans copied.symm⟩

omit [LawfulBlockDev D] in
/-- Looking a path up does not see a slot that is not active and was not found before. -/
theorem find_eq_of_dropped {slot : Fin dirEntries} {other : List UInt8}
    (others : ∀ i, i ≠ slot → fs'.dir.entry i = fs.dir.entry i)
    (dropped : ¬(fs'.dir.entry slot).Active)
    (unseen : ¬((fs.dir.entry slot).Active ∧ (fs.dir.entry slot).name = other)) :
    fs'.find other = fs.find other := by
  have same : ∀ i, ((fs'.dir.entry i).Active ∧ (fs'.dir.entry i).name = other) ↔
      ((fs.dir.entry i).Active ∧ (fs.dir.entry i).name = other) := fun i => by
    by_cases here : i = slot
    · rw [here]
      exact ⟨fun there => absurd there.1 dropped, fun there => absurd there unseen⟩
    · rw [others i here]
  cases found : fs.find other with
  | none =>
      refine Directory.find_eq_none.mpr fun i there => ?_
      exact Directory.find_eq_none.mp found i ((same i).mp there)
  | some i =>
      obtain ⟨there, first⟩ := Directory.find_eq_some.mp found
      refine Directory.find_eq_some.mpr ⟨(same i).mpr there, fun j before there => ?_⟩
      exact first j before ((same j).mp there)

/-- **A write that returns false**, in any state a formatted volume can reach and without a data
write of its own refused, leaves what every path reads as and which blocks are free. The one
exception is an overwrite of a file, within the limits, that there is no space for even after its
extent is released: then the file's entry is removed and its blocks are free, and every other path
reads as before. -/
theorem failed_write {fs₀ : Rpfs (Recorder D)} {history : List (Op × Bool)}
    (formatted : Formatted fs₀) (run : RunFrom Any fs₀ history fs)
    (done : fs.writeFile name data = some (false, fs')) (honoured : DataHonoured fs fs') :
    ((∀ other, ReadsSame fs fs' other) ∧
      freeBlocks fs'.totalBlocks fs'.bitmap = freeBlocks fs.totalBlocks fs.bitmap) ∨
    ∃ slot, fs.find name = some slot ∧ (fs.dir.entry slot).IsFile ∧ data.length ≤ maxFile ∧
      (∀ s, s + blocksFor data.length ≤ fs.totalBlocks →
        ¬FreeRun fs'.bitmap s (blocksFor data.length)) ∧
      ¬(fs'.dir.entry slot).Active ∧ (fs.dir.Unique → fs'.find name = none) ∧
      Filled fs.bitmap fs'.bitmap (min (fs.dir.entry slot).start fs.totalBlocks)
        (min ((fs.dir.entry slot).start + (fs.dir.entry slot).nblocks) fs.totalBlocks) false ∧
      ∀ other, other ≠ name → ReadsSame fs fs' other := by
  have fresh := formatted.fresh
  have bounded := run_bounded fresh.wf run
  have wf : fs.WellFormed := show Shape.WellFormed _ from bounded.shape_eq.symm ▸ fresh.wf
  have ready : fs.ready = true := (congrArg Shape.ready bounded.shape_eq).trans fresh.ready
  have addressable := run_addressable fresh.wf fresh.totalBlocks_lt (fresh.addressable _) run
  have written : fs.apply (.write name data) = some (false, fs') := done
  have total : fs'.totalBlocks = fs.totalBlocks :=
    congrArg Shape.totalBlocks (apply_bounded wf written).shape_eq
  cases writeFile_outcome wf done with
  | refused =>
      refine Or.inl ⟨fun other => readsSame_of_find wf ready addressable rfl rfl
        fun _ _ => ⟨rfl, rfl⟩, rfl⟩
  | failed _ _ _ _ _ before loop _ => exact absurd honoured (not_dataHonoured before loop)
  | @noSpace slot _ bitmap writable released full effect =>
      have others : ∀ i, i ≠ slot → fs'.dir.entry i = fs.dir.entry i := fun i elsewhere => by
        rw [effect.dir_eq, Directory.entry_setEntry_of_ne _ elsewhere]
      have dropped : ¬(fs'.dir.entry slot).Active := by
        rw [effect.dir_eq, Directory.entry_setEntry_self]
        exact show ¬(-1 : Int8) = 1 by decide
      have unseenReads : ∀ other,
          ¬((fs.dir.entry slot).Active ∧ (fs.dir.entry slot).name = other) →
            ReadsSame fs fs' other := by
        intro other unseen
        refine readsSame_of_find wf ready addressable effect.shape_eq
          (find_eq_of_dropped others dropped unseen) fun i found => ?_
        have elsewhere : i ≠ slot := by
          rintro rfl
          exact unseen (Directory.find_eq_some.mp found).1
        exact ⟨others i elsewhere, blocksOf_meta effect (others i elsewhere)⟩
      have outcome := released
      cases released with
      | overwrite found isFile freed =>
          obtain ⟨active, named⟩ := (Directory.find_eq_some.mp found).1
          refine Or.inr ⟨slot, found, ⟨active, isFile⟩, writable.2.2.2, ?_, dropped,
            fun unique => ?_, effect.bitmap_eq ▸ freed, fun other different => ?_⟩
          · rw [effect.bitmap_eq]
            exact full
          · refine Directory.find_eq_none.mpr fun i there => ?_
            by_cases here : i = slot
            · exact dropped (here ▸ there.1)
            · rw [others i here] at there
              exact outcome.other_name unique here there.1 there.2
          · exact unseenReads other fun there => different (there.2.symm.trans named)
      | fresh missing free =>
          have unused := (Directory.freeSlot_eq_some.mp free).1
          refine Or.inl ⟨fun other => unseenReads other fun there => there.1.not_free unused, ?_⟩
          rw [total, effect.bitmap_eq]

end FailedWrite

/-- The theorem at a volume of one block, where the file `a` is refused a second block. -/
theorem failed_write_small : ∃ fs₁ fs : Rpfs (Recorder ScriptedDisk),
    fs₁.writeFile [97] (List.replicate 513 0) = some (false, fs) ∧
      (((∀ other, ReadsSame fs₁ fs other) ∧
        freeBlocks fs.totalBlocks fs.bitmap = freeBlocks fs₁.totalBlocks fs₁.bitmap) ∨
      ∃ slot, fs₁.find [97] = some slot ∧ ¬(fs.dir.entry slot).Active ∧
        ∀ other, other ≠ [97] → ReadsSame fs₁ fs other) := by
  obtain ⟨fs₀, fs₁, fs, -, formatted, willing, first, second, -⟩ := exists_failed_overwrite
  have run : RunFrom Any fs₀ [(.write [97] [1, 2, 3], true)] fs₁ := Run.start.next trivial first
  have bounded := run_bounded formatted.fresh.wf run
  have wf₁ : fs₁.WellFormed :=
    show Shape.WellFormed _ from bounded.shape_eq.symm ▸ formatted.fresh.wf
  have willing₁ := (ScriptedDisk.since_script bounded.issued).1.trans willing
  refine ⟨fs₁, fs, second, ?_⟩
  rcases failed_write formatted run second
    (dataHonoured_of_willing willing₁ (apply_bounded wf₁ second)) with same | removed
  · exact Or.inl same
  · obtain ⟨slot, found, -, -, -, dropped, -, -, others⟩ := removed
    exact Or.inr ⟨slot, found, dropped, others⟩

/-- **A write that returns false can change what is read.** On a volume of one block, the file `a`
reads as three bytes before a write of it that returns false, and is not found after. -/
theorem failed_write_changes : ∃ fs₀ fs₁ fs fs₂ : Rpfs (Recorder ScriptedDisk),
    formatVolume ⟨ScriptedDisk.blank fun _ => true, []⟩ 0 1 1 = some fs₀ ∧
      RunFrom Any fs₀ [(.write [97] [1, 2, 3], true)] fs₁ ∧
      fs₁.writeFile [97] (List.replicate 513 0) = some (false, fs) ∧
      fs₁.readFile [97] [0, 0, 0] = some (some 3, [1, 2, 3], fs₂) ∧
      fs.readFile [97] [0, 0, 0] = some (none, [0, 0, 0], fs) := by
  obtain ⟨fs₀, fs₁, fs, laid, formatted, willing, first, second, gone⟩ := exists_failed_overwrite
  have nulFree : NulFree [97] := by simp [NulFree]
  have run : RunFrom NulFreeOp fs₀ [(.write [97] [1, 2, 3], true)] fs₁ :=
    Run.start.next nulFree first
  obtain ⟨bounded, -, -, back⟩ := inStep_of_run formatted run
    (honouredSince_of_willing willing (run_bounded formatted.fresh.wf run).issued)
  have wf₁ : fs₁.WellFormed :=
    show Shape.WellFormed _ from bounded.shape_eq.symm ▸ formatted.fresh.wf
  have ready₁ : fs₁.ready = true :=
    (congrArg Shape.ready bounded.shape_eq).trans formatted.fresh.ready
  have willing₁ := (ScriptedDisk.since_script bounded.issued).1.trans willing
  obtain ⟨i, found, stored⟩ := back.stored [97] [1, 2, 3] nulFree (by
    rw [lastWritten, if_pos rfl, if_pos rfl])
  obtain ⟨⟨r, out', fs₂⟩, read⟩ := stored.readFile_total wf₁ found [0, 0, 0]
  obtain ⟨rfl, rfl⟩ := readFile_stored ready₁ found stored read
    (honouredSince_of_willing willing₁ (readFile_spec read).issued)
  exact ⟨fs₀, fs₁, fs, fs₂, laid, Run.start.next trivial first, second, read, gone _⟩

end RustyPenguin.Rpfs
