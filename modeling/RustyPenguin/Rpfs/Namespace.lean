import RustyPenguin.Rpfs.Allocation

/-!
# The namespace

The directory is a flat table of full paths. Two things are asked of it: active paths
are distinct (`Directory.Unique`), and nothing active lies below a regular file
(`Directory.TreeShaped`). NUL-free operations keep paths distinct. The shape of the tree
they keep only when they are `Tidy`: the source checks neither that the parents of a new
path are directories nor that a new file's path has no entries below it.
-/

set_option autoImplicit false

namespace RustyPenguin.Rpfs

open Buffer

/-! ## Paths -/

/-- `p` is a proper path prefix of `name`. -/
def Below (p name : List UInt8) : Prop := ∃ rest, name = p ++ slash :: rest

theorem Below.length_lt {p name : List UInt8} (below : Below p name) : p.length < name.length := by
  obtain ⟨rest, rfl⟩ := below
  rw [List.length_append, List.length_cons]
  omega

theorem Below.irrefl (name : List UInt8) : ¬Below name name := fun below =>
  Nat.lt_irrefl _ below.length_lt

theorem Below.trans {q p name : List UInt8} (first : Below q p) (second : Below p name) :
    Below q name := by
  obtain ⟨rest, rfl⟩ := first
  obtain ⟨rest', rfl⟩ := second
  exact ⟨rest ++ slash :: rest', by rw [List.append_assoc, List.cons_append]⟩

/-- The parents of a path are its proper prefixes but the empty one. -/
theorem parentOf_iff {name p : List UInt8} : ParentOf name p ↔ p ≠ [] ∧ Below p name := by
  constructor
  · rintro ⟨idx, positive, separator, rfl⟩
    obtain ⟨inside, at'⟩ := List.getElem?_eq_some_iff.mp separator
    refine ⟨fun empty => ?_, name.drop (idx + 1), ?_⟩
    · have := congrArg List.length empty
      rw [List.length_take, List.length_nil] at this
      omega
    · rw [← at', List.cons_getElem_drop_succ, List.take_append_drop]
  · rintro ⟨named, rest, rfl⟩
    refine ⟨p.length, List.length_pos_iff.mpr named, ?_, List.take_left.symm⟩
    rw [List.getElem?_append_right (Nat.le_refl _), Nat.sub_self]
    rfl

theorem ParentOf.below {name p : List UInt8} (parent : ParentOf name p) : Below p name :=
  (parentOf_iff.1 parent).2

/-- A parent of a path that can be stored can be stored. -/
theorem ParentOf.storedName_eq {name p : List UInt8} (parent : ParentOf name p)
    (nulFree : NulFree name) (short : name.length ≤ maxName) : storedName p = p := by
  have shorter := parent.below.length_lt
  obtain ⟨rest, rfl⟩ := parent.below
  refine storedName_of_nulFree (fun c member => nulFree c (List.mem_append_left _ member)) ?_
  omega

/-! ## Distinct paths and tree shape -/

namespace Directory

variable {dir dir' : Directory} {slot : Fin dirEntries}

/-- No two active entries have the same path. -/
def Unique (dir : Directory) : Prop :=
  ∀ i j, (dir.entry i).Active → (dir.entry j).Active → (dir.entry i).name = (dir.entry j).name →
    i = j

/-- No active entry lies below a regular file. -/
def TreeShaped (dir : Directory) : Prop :=
  ∀ i j, (dir.entry i).IsFile → (dir.entry j).Active → ¬Below (dir.entry i).name (dir.entry j).name

/-- No proper prefix of the path is a regular file. -/
def ClearAbove (dir : Directory) (name : List UInt8) : Prop :=
  ∀ i, (dir.entry i).IsFile → ¬Below (dir.entry i).name name

/-- Nothing active lies below the path. -/
def ClearBelow (dir : Directory) (name : List UInt8) : Prop :=
  ∀ i, (dir.entry i).Active → ¬Below name (dir.entry i).name

/-- Changing one slot keeps paths distinct if the new path is new. -/
theorem Unique.set (unique : dir.Unique) (others : ∀ i, i ≠ slot → dir'.entry i = dir.entry i)
    (new : (dir'.entry slot).Active → ∀ i, i ≠ slot → (dir.entry i).Active →
      (dir.entry i).name ≠ (dir'.entry slot).name) : dir'.Unique := by
  intro i j activeI activeJ same
  by_cases hereI : i = slot
  · by_cases hereJ : j = slot
    · rw [hereI, hereJ]
    · subst hereI
      rw [others j hereJ] at activeJ same
      exact absurd same.symm (new activeI j hereJ activeJ)
  · by_cases hereJ : j = slot
    · subst hereJ
      rw [others i hereI] at activeI same
      exact absurd same (new activeJ i hereI activeI)
    · rw [others i hereI] at activeI same
      rw [others j hereJ] at activeJ same
      exact unique i j activeI activeJ same

/-- Changing one slot keeps the tree shape if the new entry is below no file, and above nothing
in case it is a file. -/
theorem TreeShaped.set (tree : dir.TreeShaped)
    (others : ∀ i, i ≠ slot → dir'.entry i = dir.entry i)
    (above : (dir'.entry slot).Active → ∀ i, i ≠ slot → (dir.entry i).IsFile →
      ¬Below (dir.entry i).name (dir'.entry slot).name)
    (below : (dir'.entry slot).IsFile → ∀ i, i ≠ slot → (dir.entry i).Active →
      ¬Below (dir'.entry slot).name (dir.entry i).name) : dir'.TreeShaped := by
  intro i j isFile active under
  by_cases hereI : i = slot
  · by_cases hereJ : j = slot
    · subst hereI hereJ
      exact Below.irrefl _ under
    · subst hereI
      rw [others j hereJ] at active under
      exact below isFile j hereJ active under
  · rw [others i hereI] at isFile under
    by_cases hereJ : j = slot
    · subst hereJ
      exact above active i hereI isFile under
    · rw [others j hereJ] at active under
      exact tree i j isFile active under

/-- Emptying a slot keeps the namespace. -/
theorem Unique.drop (unique : dir.Unique) (others : ∀ i, i ≠ slot → dir'.entry i = dir.entry i)
    (empty : ¬(dir'.entry slot).Active) : dir'.Unique :=
  unique.set others fun active => absurd active empty

theorem TreeShaped.drop (tree : dir.TreeShaped)
    (others : ∀ i, i ≠ slot → dir'.entry i = dir.entry i)
    (empty : ¬(dir'.entry slot).Active) : dir'.TreeShaped :=
  tree.set others (fun active => absurd active empty) fun isFile => absurd isFile.1 empty

theorem not_active_tombstone (dir : Directory) (i : Fin dirEntries) :
    ¬((dir.tombstone i).entry i).Active := by
  rw [entry_tombstone, if_pos rfl]
  exact show ¬(-1 : Int8) = 1 by decide

theorem entry_tombstone_of_ne (dir : Directory) {i j : Fin dirEntries} (elsewhere : j ≠ i) :
    (dir.tombstone i).entry j = dir.entry j := by
  rw [entry_tombstone, if_neg elsewhere]

theorem entry_setEntry_of_ne (dir : Directory) {i j : Fin dirEntries} (elsewhere : j ≠ i)
    (name : List UInt8) (kind : UInt8) (trit : Int8) (start size nblocks : Nat) :
    (dir.setEntry i name kind trit start size nblocks).entry j = dir.entry j := by
  rw [entry_setEntry, if_neg elsewhere]

theorem entry_setEntry_self (dir : Directory) (i : Fin dirEntries)
    (name : List UInt8) (kind : UInt8) (trit : Int8) (start size nblocks : Nat) :
    (dir.setEntry i name kind trit start size nblocks).entry i =
      ⟨storedName name, kind, trit, start % 2 ^ 32, size % 2 ^ 32, nblocks % 2 ^ 32⟩ := by
  rw [entry_setEntry, if_pos rfl]

end Directory

/-! ## Creating parents -/

section Parents

variable {name : List UInt8} {dir dir' : Directory}

theorem ParentsAdded.unique (added : ParentsAdded name dir dir') (nulFree : NulFree name)
    (short : name.length ≤ maxName) (unique : dir.Unique) : dir'.Unique := by
  induction added with
  | refl => exact unique
  | tail _ last ih =>
      obtain ⟨p, slot, parent, missing, -, rfl⟩ := last
      refine ih.set (fun _ there => Directory.entry_setEntry_of_ne _ there _ _ _ _ _ _) fun _ i _ active => ?_
      rw [Directory.entry_setEntry_self]
      intro same
      refine Directory.find_eq_none.mp missing i ⟨active, same.trans ?_⟩
      exact parent.storedName_eq nulFree short

/-- Parents of a path below no file are below no file. -/
theorem ParentsAdded.treeShaped (added : ParentsAdded name dir dir') (nulFree : NulFree name)
    (short : name.length ≤ maxName) (clear : dir.ClearAbove name) (tree : dir.TreeShaped) :
    dir'.TreeShaped ∧ dir'.ClearAbove name := by
  induction added with
  | refl => exact ⟨tree, clear⟩
  | tail _ last ih =>
      obtain ⟨p, slot, parent, -, -, rfl⟩ := last
      obtain ⟨tree, clear⟩ := ih
      refine ⟨tree.set (fun _ there => Directory.entry_setEntry_of_ne _ there _ _ _ _ _ _)
        (fun _ i _ isFile under => ?_) (fun isFile => ?_), fun i isFile => ?_⟩
      · rw [Directory.entry_setEntry_self] at under
        dsimp only at under
        rw [parent.storedName_eq nulFree short] at under
        exact clear i isFile (under.trans parent.below)
      · rw [Directory.entry_setEntry_self] at isFile
        exact absurd rfl isFile.2
      · rw [entry_setEntry_parent] at isFile ⊢
        split at isFile
        · exact absurd rfl isFile.2
        · rename_i elsewhere
          rw [if_neg elsewhere]
          exact clear i isFile

/-- A full table gets no parents. -/
theorem ParentsAdded.eq_of_full (added : ParentsAdded name dir dir') (full : dir.freeSlot = none) :
    dir' = dir := by
  rcases Relation.ReflTransGen.cases_head added with rfl | ⟨mid, ⟨p, slot, -, -, free, -⟩, -⟩
  · rfl
  · exact absurd (free.symm.trans full) (Option.some_ne_none slot)

/-- When every parent is there, none is created. -/
theorem ParentsAdded.eq_of_present (added : ParentsAdded name dir dir')
    (present : ∀ p, ParentOf name p → dir.find p ≠ none) : dir' = dir := by
  rcases Relation.ReflTransGen.cases_head added with rfl | ⟨mid, ⟨p, slot, parent, missing, -⟩, -⟩
  · rfl
  · exact absurd missing (present p parent)

/-- The path itself is not among the parents created. -/
theorem ParentsAdded.name_ne (added : ParentsAdded name dir dir') (nulFree : NulFree name)
    (short : name.length ≤ maxName) (i : Fin dirEntries) :
    dir'.entry i = dir.entry i ∨
      ((dir'.entry i).name ≠ name ∧ ¬Below name (dir'.entry i).name) := by
  rcases added.entry i with same | ⟨-, p, parent, -, created⟩
  · exact Or.inl same
  · refine Or.inr ?_
    have shorter := parent.below.length_lt
    rw [created]
    rw [parentEntry, parent.storedName_eq nulFree short]
    refine ⟨fun same => ?_, fun under => ?_⟩
    · rw [show p = name from same] at shorter
      omega
    · have := under.length_lt
      dsimp only at this
      omega

end Parents

/-! ## Steps -/

section Steps

variable {D : Type} [BlockDev D] {fs fs' : Rpfs D}

/-- An active entry after a step was there before, is a directory, or is what a write stored. -/
theorem apply_entry {op : Op} {ok : Bool} (wf : fs.WellFormed) (done : fs.apply op = some (ok, fs'))
    {j : Fin dirEntries} (active : (fs'.dir.entry j).Active) :
    fs'.dir.entry j = fs.dir.entry j ∨ (fs'.dir.entry j).kind = kDir ∨
      ∃ name data, op = .write name data ∧ ok = true ∧
        (fs'.dir.entry j).name = storedName name ∧ (fs'.dir.entry j).kind = kFile := by
  have parents : ∀ {name : List UInt8} {dir : Directory}, ParentsAdded name fs.dir dir →
      dir.entry j = fs.dir.entry j ∨ (dir.entry j).kind = kDir := fun added => by
    rcases added.entry j with same | ⟨-, p, -, -, created⟩
    · exact Or.inl same
    · rw [created]
      exact Or.inr rfl
  cases op with
  | write name data =>
      cases writeFile_outcome wf done with
      | refused => exact Or.inl rfl
      | @noSpace slot _ _ _ _ _ effect =>
          rw [effect.dir_eq] at active ⊢
          by_cases here : j = slot
          · rw [here, Directory.entry_setEntry_self] at active
            exact absurd (show (-1 : Int8) = 1 from active) (by decide)
          · exact Or.inl (Directory.entry_setEntry_of_ne _ here _ _ _ _ _ _)
      | failed _ _ _ _ _ _ _ effect =>
          rw [effect.dir_eq]
          exact Or.inl rfl
      | @stored slot _ _ _ _ _ _ dir _ _ _ _ _ _ _ added _ effect =>
          rw [effect.dir_eq]
          by_cases here : j = slot
          · refine Or.inr (Or.inr ⟨name, data, rfl, rfl, ?_⟩)
            rw [here, Directory.entry_setEntry_self]
            exact ⟨rfl, rfl⟩
          · rw [Directory.entry_setEntry_of_ne _ here]
            exact (parents added).imp_right Or.inl
  | delete name =>
      have tombstoned : ∀ {slot : Fin dirEntries}, fs'.dir = fs.dir.tombstone slot →
          fs'.dir.entry j = fs.dir.entry j := by
        intro slot dirEq
        rw [dirEq] at active ⊢
        by_cases here : j = slot
        · rw [here] at active
          exact absurd active (Directory.not_active_tombstone _ _)
        · exact Directory.entry_tombstone_of_ne _ here
      cases deleteFile_outcome wf done with
      | refused => exact Or.inl rfl
      | dir _ _ _ effect => exact Or.inl (tombstoned effect.dir_eq)
      | file _ _ _ effect => exact Or.inl (tombstoned effect.dir_eq)
  | mkdir name =>
      cases mkdir_outcome wf done with
      | refused => exact Or.inl rfl
      | there _ _ added _ effect =>
          rw [effect.dir_eq]
          exact (parents added).imp_right Or.inl
      | full _ _ added _ _ effect =>
          rw [effect.dir_eq]
          exact (parents added).imp_right Or.inl
      | @made slot _ dir _ _ added _ _ effect =>
          rw [effect.dir_eq]
          by_cases here : j = slot
          · rw [here, Directory.entry_setEntry_self]
            exact Or.inr (Or.inl rfl)
          · rw [Directory.entry_setEntry_of_ne _ here]
            exact (parents added).imp_right Or.inl
  | read name out =>
      obtain ⟨r, out', read⟩ := apply_read done
      exact Or.inl (by rw [(readFile_spec read).dir_eq])

/-- A write that creates a file: nothing has the path, and there are a slot and space for it. -/
def Creates (fs : Rpfs D) (name data : List UInt8) : Prop :=
  fs.Writable name data ∧ fs.find name = none ∧ fs.freeSlot ≠ none ∧
    ∃ s, s + blocksFor data.length ≤ fs.totalBlocks ∧ FreeRun fs.bitmap s (blocksFor data.length)

/-- An operation the source would have to refuse to keep the tree shape is one that creates an
entry below a regular file, or a regular file above an entry. The others are tidy, when their
paths are NUL-free. -/
def Tidy (fs : Rpfs D) : Op → Prop
  | .write name data =>
      NulFree name ∧ (fs.Creates name data → fs.dir.ClearAbove name ∧ fs.dir.ClearBelow name)
  | .mkdir name =>
      NulFree name ∧ (fs.find name = none → fs.freeSlot ≠ none → fs.dir.ClearAbove name)
  | .delete name | .read name _ => NulFree name

/-- The operation's path has no NUL byte. -/
def NulFreeOp (_ : Rpfs D) (op : Op) : Prop := NulFree op.name

omit [BlockDev D] in
theorem Tidy.nulFree {op : Op} (tidy : fs.Tidy op) : NulFreeOp fs op := by
  cases op with
  | write => exact tidy.1
  | mkdir => exact tidy.1
  | delete => exact tidy
  | read => exact tidy

omit [BlockDev D] in
/-- Where paths are distinct, no other slot has the path a write goes to. -/
theorem Released.other_name {name : List UInt8} {slot i : Fin dirEntries} {bitmap : List UInt8}
    (released : Released fs name slot bitmap) (unique : fs.dir.Unique) (elsewhere : i ≠ slot)
    (active : (fs.dir.entry i).Active) : (fs.dir.entry i).name ≠ name := by
  intro same
  rcases released.slot_entry with ⟨-, isFile, named⟩ | ⟨missing, -⟩
  · exact elsewhere (unique i slot active isFile.1 (same.trans named.symm))
  · exact Directory.find_eq_none.mp missing i ⟨active, same⟩

/-- **NUL-free operations keep paths distinct.** -/
theorem apply_unique {op : Op} {ok : Bool} (wf : fs.WellFormed) (unique : fs.dir.Unique)
    (nulFree : NulFree op.name) (done : fs.apply op = some (ok, fs')) : fs'.dir.Unique := by
  cases op with
  | write name data =>
      change NulFree name at nulFree
      cases writeFile_outcome wf done with
      | refused => exact unique
      | noSpace _ _ _ effect =>
          rw [effect.dir_eq]
          refine unique.drop (fun _ there => Directory.entry_setEntry_of_ne _ there _ _ _ _ _ _) ?_
          rw [Directory.entry_setEntry_self]
          exact show ¬(-1 : Int8) = 1 by decide
      | failed _ _ _ _ _ _ _ effect =>
          rw [effect.dir_eq]
          exact unique
      | stored writable released _ _ _ _ _ parents _ effect =>
          rw [effect.dir_eq]
          have short := writable.2.2.1
          refine (parents.unique nulFree short unique).set
            (fun _ there => Directory.entry_setEntry_of_ne _ there _ _ _ _ _ _) fun _ i elsewhere active => ?_
          rw [Directory.entry_setEntry_self]
          dsimp only
          rw [storedName_of_nulFree nulFree short]
          rcases parents.name_ne nulFree short i with same | ⟨different, -⟩
          · rw [same] at active ⊢
            exact released.other_name unique elsewhere active
          · exact different
  | delete name =>
      cases deleteFile_outcome wf done with
      | refused => exact unique
      | dir _ _ _ effect =>
          rw [effect.dir_eq]
          exact unique.drop (fun i => Directory.entry_tombstone_of_ne _)
            (Directory.not_active_tombstone _ _)
      | file _ _ _ effect =>
          rw [effect.dir_eq]
          exact unique.drop (fun i => Directory.entry_tombstone_of_ne _)
            (Directory.not_active_tombstone _ _)
  | mkdir name =>
      change NulFree name at nulFree
      cases mkdir_outcome wf done with
      | refused => exact unique
      | there _ short parents _ effect =>
          rw [effect.dir_eq]
          exact parents.unique nulFree short unique
      | full _ short parents _ _ effect =>
          rw [effect.dir_eq]
          exact parents.unique nulFree short unique
      | made _ short parents missing _ effect =>
          rw [effect.dir_eq]
          refine (parents.unique nulFree short unique).set
            (fun _ there => Directory.entry_setEntry_of_ne _ there _ _ _ _ _ _) fun _ i _ active same => ?_
          rw [Directory.entry_setEntry_self] at same
          exact Directory.find_eq_none.mp missing i
            ⟨active, same.trans (storedName_of_nulFree nulFree short)⟩
  | read name out =>
      obtain ⟨r, out', read⟩ := apply_read done
      rw [(readFile_spec read).dir_eq]
      exact unique

omit [BlockDev D] in
/-- A path that is in use in a tree has no regular file above it. -/
theorem clearAbove_of_active (tree : fs.dir.TreeShaped) {i : Fin dirEntries} {name : List UInt8}
    (active : (fs.dir.entry i).Active) (named : (fs.dir.entry i).name = name) :
    fs.dir.ClearAbove name := fun j isFile => named ▸ tree j i isFile active

/-- **Tidy operations keep the tree shape.** -/
theorem apply_treeShaped {op : Op} {ok : Bool} (wf : fs.WellFormed) (tree : fs.dir.TreeShaped)
    (tidy : fs.Tidy op) (done : fs.apply op = some (ok, fs')) : fs'.dir.TreeShaped := by
  cases op with
  | write name data =>
      obtain ⟨nulFree, clear⟩ := tidy
      cases writeFile_outcome wf done with
      | refused => exact tree
      | noSpace _ _ _ effect =>
          rw [effect.dir_eq]
          refine tree.drop (fun _ there => Directory.entry_setEntry_of_ne _ there _ _ _ _ _ _) ?_
          rw [Directory.entry_setEntry_self]
          exact show ¬(-1 : Int8) = 1 by decide
      | failed _ _ _ _ _ _ _ effect =>
          rw [effect.dir_eq]
          exact tree
      | @stored slot _ _ _ start bitmap _ dir writable released room free _ _ _ parents _ effect =>
          rw [effect.dir_eq]
          have short := writable.2.2.1
          have clear : fs.dir.ClearAbove name ∧ fs.dir.ClearBelow name := by
            cases released with
            | overwrite found isFile _ =>
                obtain ⟨active, named⟩ := (Directory.find_eq_some.mp found).1
                exact ⟨clearAbove_of_active tree active named,
                  fun i there => named ▸ tree slot i ⟨active, isFile⟩ there⟩
            | fresh missing unused =>
                refine clear ⟨writable, missing, ?_, start, room, free⟩
                exact fun none => Option.some_ne_none slot (unused.symm.trans none)
          obtain ⟨tree, above⟩ := parents.treeShaped nulFree short clear.1 tree
          refine tree.set (fun _ there => Directory.entry_setEntry_of_ne _ there _ _ _ _ _ _)
            (fun _ i _ isFile => ?_) (fun _ i _ active => ?_)
          · rw [Directory.entry_setEntry_self]
            dsimp only
            rw [storedName_of_nulFree nulFree short]
            exact above i isFile
          · rw [Directory.entry_setEntry_self]
            dsimp only
            rw [storedName_of_nulFree nulFree short]
            rcases parents.name_ne nulFree short i with same | ⟨-, apart⟩
            · rw [same] at active ⊢
              exact clear.2 i active
            · exact apart
  | delete name =>
      cases deleteFile_outcome wf done with
      | refused => exact tree
      | dir _ _ _ effect =>
          rw [effect.dir_eq]
          exact tree.drop (fun i => Directory.entry_tombstone_of_ne _)
            (Directory.not_active_tombstone _ _)
      | file _ _ _ effect =>
          rw [effect.dir_eq]
          exact tree.drop (fun i => Directory.entry_tombstone_of_ne _)
            (Directory.not_active_tombstone _ _)
  | mkdir name =>
      obtain ⟨nulFree, clear⟩ := tidy
      have clear : fs.dir.freeSlot = none ∨ fs.dir.ClearAbove name := by
        by_cases full : fs.dir.freeSlot = none
        · exact Or.inl full
        · cases found : fs.find name with
          | none => exact Or.inr (clear found full)
          | some i =>
              obtain ⟨active, named⟩ := (Directory.find_eq_some.mp found).1
              exact Or.inr (clearAbove_of_active tree active named)
      have parentsKeep : name.length ≤ maxName → ∀ {dir}, ParentsAdded name fs.dir dir →
          dir.TreeShaped ∧ (dir.freeSlot = none ∨ dir.ClearAbove name) := by
        intro short dir parents
        rcases clear with full | clear
        · rw [parents.eq_of_full full]
          exact ⟨tree, Or.inl full⟩
        · obtain ⟨tree, clear⟩ := parents.treeShaped nulFree short clear tree
          exact ⟨tree, Or.inr clear⟩
      cases mkdir_outcome wf done with
      | refused => exact tree
      | there _ short parents _ effect =>
          rw [effect.dir_eq]
          exact (parentsKeep short parents).1
      | full _ short parents _ _ effect =>
          rw [effect.dir_eq]
          exact (parentsKeep short parents).1
      | made _ short parents missing free effect =>
          rw [effect.dir_eq]
          obtain ⟨tree, full | clear⟩ := parentsKeep short parents
          · exact absurd (free.symm.trans full) (Option.some_ne_none _)
          · refine tree.set (fun _ there => Directory.entry_setEntry_of_ne _ there _ _ _ _ _ _)
              (fun _ i _ isFile => ?_) (fun isFile => ?_)
            · rw [Directory.entry_setEntry_self]
              dsimp only
              rw [storedName_of_nulFree nulFree short]
              exact clear i isFile
            · rw [Directory.entry_setEntry_self] at isFile
              exact absurd rfl isFile.2
  | read name out =>
      obtain ⟨r, out', read⟩ := apply_read done
      rw [(readFile_spec read).dir_eq]
      exact tree

/-! ## Runs -/

/-- **Active paths are distinct** in every state NUL-free operations reach. -/
theorem unique_of_run {fs₀ : Rpfs D} {history : List (Op × Bool)} (formatted : Formatted fs₀)
    (run : RunFrom NulFreeOp fs₀ history fs) : fs.dir.Unique := by
  have fresh := formatted.fresh
  refine (run.invariant (P := fun fs => fs.WellFormed ∧ fs.dir.Unique)
    ⟨fresh.wf, fun i _ active => absurd active (fresh.inactive i)⟩ ?_).2
  rintro fs op ok fs' ⟨wf, unique⟩ nulFree done
  exact ⟨show Shape.WellFormed _ from (apply_bounded wf done).shape_eq.symm ▸ wf,
    apply_unique wf unique nulFree done⟩

/-- **The namespace is a tree of distinct paths** in every state tidy operations reach: no two
active entries have the same path, and no active entry lies below a regular file. -/
theorem namespace_of_run {fs₀ : Rpfs D} {history : List (Op × Bool)} (formatted : Formatted fs₀)
    (run : RunFrom Tidy fs₀ history fs) : fs.dir.Unique ∧ fs.dir.TreeShaped := by
  have fresh := formatted.fresh
  refine ⟨unique_of_run formatted (run.mono fun _ _ => Tidy.nulFree), ?_⟩
  refine (run.invariant (P := fun fs => fs.WellFormed ∧ fs.dir.TreeShaped)
    ⟨fresh.wf, fun i _ isFile => absurd isFile.1 (fresh.inactive i)⟩ ?_).2
  rintro fs op ok fs' ⟨wf, tree⟩ tidy done
  exact ⟨show Shape.WellFormed _ from (apply_bounded wf done).shape_eq.symm ▸ wf,
    apply_treeShaped wf tree tidy done⟩

end Steps

/-- The theorem at a small volume after one directory was made. -/
theorem namespace_of_run_small : ∃ (fs₀ fs : Rpfs (Recorder ScriptedDisk)) (ok : Bool),
    formatVolume ⟨ScriptedDisk.blank fun _ => true, []⟩ 0 1 1 = some fs₀ ∧
      RunFrom Tidy fs₀ [(.mkdir [97], ok)] fs ∧ fs.dir.Unique ∧ fs.dir.TreeShaped := by
  obtain ⟨fs₀, laid, formatted, roomy, -, -⟩ :=
    exists_formatted (⟨ScriptedDisk.blank fun _ => true, []⟩ : Recorder ScriptedDisk) 1 (by decide)
  have fresh := formatted.fresh
  obtain ⟨⟨ok, fs⟩, done⟩ := fresh.total roomy (.mkdir [97])
  have tidy : fs₀.Tidy (.mkdir [97]) :=
    ⟨by simp [NulFree], fun _ _ i isFile => absurd isFile.1 (fresh.inactive i)⟩
  have run : RunFrom Tidy fs₀ [(.mkdir [97], ok)] fs := Run.start.next tidy done
  exact ⟨fs₀, fs, ok, laid, run, namespace_of_run formatted run⟩

/-- **A directory is made below a file.** Writing the file `a` and then making the directory
`a/b` both succeed. -/
theorem mkdir_below_file : ∃ fs₀ fs : Rpfs (Recorder ScriptedDisk),
    formatVolume ⟨ScriptedDisk.blank fun _ => true, []⟩ 0 1 1 = some fs₀ ∧
      RunFrom NulFreeOp fs₀ [(.mkdir [97, 47, 98], true), (.write [97] [1], true)] fs ∧
      ¬fs.dir.TreeShaped := by
  obtain ⟨fs₀, laid, formatted, roomy, total, issued⟩ :=
    exists_formatted (⟨ScriptedDisk.blank fun _ => true, []⟩ : Recorder ScriptedDisk) 1 (by decide)
  have fresh := formatted.fresh
  obtain ⟨fs₁, done, -, slot, start, dir, -, none, dirEq⟩ := fresh.stores [97] [1] roomy
    (ScriptedDisk.since_script issued).1 (by decide) (by decide) (by decide)
    (by rw [total]; decide)
  have flat : dir = fs₀.dir := none.eq_of_present fun p ⟨idx, positive, separator, _⟩ => by
    obtain ⟨inside, -⟩ := List.getElem?_eq_some_iff.mp separator
    exact absurd inside (by simp only [List.length_singleton]; omega)
  have run : RunFrom NulFreeOp fs₀ [(.write [97] [1], true)] fs₁ :=
    Run.start.next (show NulFree [97] by simp [NulFree]) done
  have same := (run_bounded fresh.wf run).shape_eq
  obtain ⟨⟨ok, fs⟩, made⟩ := run_total fresh.wf roomy (fresh.addressable _) run (.mkdir [97, 47, 98])
  have file : fs₁.dir.entry slot = ⟨[97], kFile, 1, start % 2 ^ 32, 1, 1⟩ := by
    rw [dirEq, Directory.entry_setEntry_self]
    rfl
  have others : ∀ i, i ≠ slot → (fs₁.dir.entry i).trit = 0 := fun i elsewhere => by
    rw [dirEq, Directory.entry_setEntry_of_ne _ elsewhere, flat, fresh.dir_eq, Directory.trit_zero]
  have parent : ∀ p, ParentOf [97, 47, 98] p → fs₁.dir.find p ≠ Option.none := by
    rintro p ⟨idx, positive, separator, rfl⟩ missing
    obtain ⟨inside, -⟩ := List.getElem?_eq_some_iff.mp separator
    have at' : idx = 1 := by
      match idx, positive, inside, separator with
      | 1, _, _, _ => rfl
      | 2, _, _, impossible => exact absurd impossible (by decide)
    subst at'
    exact Directory.find_eq_none.mp missing slot (by rw [file]; exact ⟨rfl, rfl⟩)
  have absent : fs₁.dir.find [97, 47, 98] = Option.none := by
    refine Directory.find_eq_none.mpr fun i there => ?_
    by_cases here : i = slot
    · subst here
      rw [file] at there
      exact absurd there.2 (show ¬[97] = [97, 47, 98] by decide)
    · exact absurd ((others i here).symm.trans there.1) (by decide)
  cases mkdir_outcome (show Shape.WellFormed _ from same.symm ▸ fresh.wf) made with
  | refused why =>
      rcases why with unready | empty | long
      · have ready : fs₁.ready = fs₀.ready := congrArg Shape.ready same
        rw [ready, fresh.ready] at unready
        cases unready
      · cases empty
      · exact absurd long (by decide)
  | there _ _ parents found _ =>
      rw [parents.eq_of_present parent] at found
      exact absurd absent found
  | full _ _ parents _ full _ =>
      rw [parents.eq_of_present parent] at full
      by_cases first : (⟨0, by decide⟩ : Fin dirEntries) = slot
      · have second : (⟨1, by decide⟩ : Fin dirEntries) ≠ slot := fun same =>
          absurd (congrArg Fin.val (first.trans same.symm)) Nat.zero_ne_one
        exact absurd (Directory.freeSlot_eq_none.mp full _) (by rw [others _ second]; decide)
      · exact absurd (Directory.freeSlot_eq_none.mp full _) (by rw [others _ first]; decide)
  | @made slot' _ _ _ _ parents _ free effect =>
      have step : RunFrom NulFreeOp fs₀ [(.mkdir [97, 47, 98], true), (.write [97] [1], true)] fs :=
        run.next (show NulFree [97, 47, 98] by simp [NulFree]) made
      refine ⟨fs₀, fs, laid, step, fun tree => ?_⟩
      rw [parents.eq_of_present parent] at free effect
      have elsewhere : slot ≠ slot' := fun same => by
        have unused := (Directory.freeSlot_eq_some.mp free).1
        rw [← same, file] at unused
        exact absurd (show (1 : Int8) ≤ 0 from unused) (by decide)
      have above : fs.dir.entry slot = ⟨[97], kFile, 1, start % 2 ^ 32, 1, 1⟩ := by
        rw [effect.dir_eq, Directory.entry_setEntry_of_ne _ elsewhere, file]
      have below : fs.dir.entry slot' = parentEntry [97, 47, 98] := by
        rw [effect.dir_eq, entry_setEntry_parent, if_pos rfl]
      refine tree slot slot' ?_ ?_ ?_
      · rw [above]
        exact ⟨rfl, show ¬kFile = kDir by decide⟩
      · rw [below]
        rfl
      · rw [above, below]
        exact ⟨[98], show storedName [97, 47, 98] = [97] ++ slash :: [98] by decide⟩

end RustyPenguin.Rpfs
