import RustyPenguin.Vmm.Paging

/-!
# The forest of page tables

The tables reachable from a list of roots are a forest of radix tables: an entry of a table
above the last level points to a table when it is present and is not a large page. A
`Forest` is separate, its tables are frames in use, and the entries that point to tables
hold an address and low flags only.

Memory is edited by storing an entry that points nowhere new, by hanging a blank frame that
is in no tree into a slot, by zeroing a frame that is in no tree, and by making such a frame
a root. Each keeps a forest, and what each does to the walks of the processor is stated once.
-/

set_option autoImplicit false

namespace RustyPenguin.Vmm

/-! ## What an entry points to -/

/-- The table an entry of a table of a level points to. -/
def pointsTo (level : Nat) (entry : BitVec 64) : Option (BitVec 64) :=
  if 2 ≤ level ∧ entry &&& ptePresent ≠ 0 ∧ entry &&& pteHuge = 0 then some (tableOf entry) else none

/-- No bits from 52 on. -/
def Narrow (entry : BitVec 64) : Prop := ∀ k, entry.getLsbD k = true → k < 52

/-- The flags of an entry that points to a table. -/
structure TableFlags (flags : BitVec 64) : Prop where
  present : flags &&& ptePresent ≠ 0
  small : flags &&& pteHuge = 0
  low : ∀ k, flags.getLsbD k = true → k < 12

theorem TableFlags.of_low {flags : BitVec 64} (present : flags &&& ptePresent ≠ 0)
    (small : flags &&& pteHuge = 0) (low : ∀ k, k < 64 → flags.getLsbD k = true → k < 12) :
    TableFlags flags where
  present := present
  small := small
  low k bit := by
    by_cases inside : k < 64
    · exact low k inside bit
    · rw [BitVec.getLsbD_of_ge _ _ (Nat.le_of_not_lt inside)] at bit
      cases bit

theorem lowBit (k : Nat) : (0xFFF : BitVec 64).getLsbD k = decide (k < 12) := by
  by_cases inside : k < 64
  · exact (by decide : ∀ k, k < 64 → (0xFFF : BitVec 64).getLsbD k = decide (k < 12)) k inside
  · rw [BitVec.getLsbD_of_ge _ _ (Nat.le_of_not_lt inside)]
    exact (decide_eq_false (by omega)).symm

theorem addressBit (k : Nat) : addressMask.getLsbD k = decide (12 ≤ k ∧ k < 52) := by
  by_cases inside : k < 64
  · exact (by decide : ∀ k, k < 64 → addressMask.getLsbD k = decide (12 ≤ k ∧ k < 52)) k inside
  · rw [BitVec.getLsbD_of_ge _ _ (Nat.le_of_not_lt inside)]
    exact (decide_eq_false (by omega)).symm

/-- The kernel and the processor read the same address out of a narrow entry. -/
theorem Narrow.tableOf {entry : BitVec 64} (narrow : Narrow entry) :
    tableOf entry = entry &&& addressMask := by
  refine BitVec.eq_of_getLsbD_eq fun k inside => ?_
  simp only [Vmm.tableOf, BitVec.getLsbD_and, BitVec.getLsbD_not, lowBit, addressBit, inside,
    decide_true, Bool.true_and]
  cases bit : entry.getLsbD k with
  | false => rfl
  | true =>
    have := narrow k bit
    simp only [Bool.true_and]
    by_cases low : k < 12
    · simp [low]
    · simp [low, this, Nat.le_of_not_lt low]

section Entry

variable {frame flags : BitVec 64}

theorem tableOf_entry (isFrame : IsFrame frame) (low : ∀ k, flags.getLsbD k = true → k < 12) :
    tableOf (frame ||| flags) = frame := by
  refine BitVec.eq_of_getLsbD_eq fun k inside => ?_
  simp only [tableOf, BitVec.getLsbD_and, BitVec.getLsbD_or, BitVec.getLsbD_not, lowBit, inside,
    decide_true, Bool.true_and]
  by_cases small : k < 12
  · have zero : frame.getLsbD k = false := by
      by_contra bit
      have := isFrame k (Bool.not_eq_false _ ▸ bit)
      omega
    simp [small, zero]
  · have zero : flags.getLsbD k = false := by
      by_contra bit
      exact small (low k (Bool.not_eq_false _ ▸ bit))
    simp [small, zero]

theorem narrow_entry (isFrame : IsFrame frame) (low : ∀ k, flags.getLsbD k = true → k < 12) :
    Narrow (frame ||| flags) := by
  intro k bit
  rw [BitVec.getLsbD_or, Bool.or_eq_true] at bit
  rcases bit with bit | bit
  · exact (isFrame k bit).2
  · have := low k bit
    omega

/-- A frame address has none of the low flags. -/
theorem and_entry {mask : BitVec 64} (isFrame : IsFrame frame)
    (low : ∀ k, mask.getLsbD k = true → k < 12) : (frame ||| flags) &&& mask = flags &&& mask := by
  refine BitVec.eq_of_getLsbD_eq fun k _ => ?_
  simp only [BitVec.getLsbD_and, BitVec.getLsbD_or]
  cases bit : mask.getLsbD k with
  | false => simp only [Bool.and_false]
  | true =>
    have zero : frame.getLsbD k = false := by
      by_contra set
      have := isFrame k (Bool.not_eq_false _ ▸ set)
      have := low k bit
      omega
    simp only [zero, Bool.false_or]

end Entry

theorem ptePresent_low : ∀ k, ptePresent.getLsbD k = true → k < 12 :=
  (.of_low (by decide) (by decide) (by decide) : TableFlags ptePresent).low

theorem pteHuge_low (k : Nat) (bit : pteHuge.getLsbD k = true) : k < 12 := by
  by_cases inside : k < 64
  · exact (by decide : ∀ k, k < 64 → pteHuge.getLsbD k = true → k < 12) k inside bit
  · rw [BitVec.getLsbD_of_ge _ _ (Nat.le_of_not_lt inside)] at bit
    cases bit

/-- An entry made of a frame and table flags points to the frame. -/
theorem pointsTo_entry {level : Nat} {frame flags : BitVec 64} (above : 2 ≤ level)
    (isFrame : IsFrame frame) (ok : TableFlags flags) :
    pointsTo level (frame ||| flags) = some frame := by
  rw [pointsTo, and_entry isFrame ptePresent_low, and_entry isFrame pteHuge_low,
    tableOf_entry isFrame ok.low]
  exact if_pos ⟨above, ok.present, ok.small⟩

theorem pointsTo_some {level : Nat} {entry c : BitVec 64} :
    pointsTo level entry = some c ↔
      2 ≤ level ∧ entry &&& ptePresent ≠ 0 ∧ entry &&& pteHuge = 0 ∧ tableOf entry = c := by
  simp only [pointsTo, Option.ite_none_right_eq_some, Option.some.injEq, and_assoc]

@[simp] theorem pointsTo_zero (level : Nat) : pointsTo level 0 = none :=
  if_neg fun ⟨_, present, _⟩ => present rfl

/-- Nothing hangs below the last level. -/
theorem pointsTo_one (entry : BitVec 64) : pointsTo 1 entry = none :=
  if_neg fun ⟨above, _⟩ => absurd above (by decide)

/-! ## The forest -/

/-- The table a slot points to. -/
def child (mem : Memory) (level : Nat) (t : BitVec 64) (i : Fin 512) : Option (BitVec 64) :=
  pointsTo level (read64 mem t i)

/-- The tables of the trees of the roots. -/
abbrev IsTable (mem : Memory) (roots : List (BitVec 64)) (level : Nat) (t : BitVec 64) : Prop :=
  Radix.Table (child mem) (· ∈ roots) 4 level t

structure Forest (mem : Memory) (used : BitVec 64 → Prop) (roots : List (BitVec 64)) : Prop where
  separate : Radix.Separate (child mem) (· ∈ roots) 4
  frame : ∀ {level t}, IsTable mem roots level t → IsFrame t ∧ used t
  narrow : ∀ {level t i c}, IsTable mem roots (level + 1) t → child mem (level + 1) t i = some c →
    Narrow (read64 mem t i)

section Forest

variable {mem mem' : Memory} {used used' : BitVec 64 → Prop} {roots : List (BitVec 64)}
  {level : Nat} {t u f : BitVec 64} {i j : Fin 512} {v : BitVec 64}

theorem Forest.isFrame (forest : Forest mem used roots) (table : IsTable mem roots level t) :
    IsFrame t := (forest.frame table).1

/-- A frame that is not in use is in no tree. -/
theorem Forest.foreign (forest : Forest mem used roots) (unused : ¬used f) (level : Nat) :
    ¬IsTable mem roots level f :=
  fun table => unused (forest.frame table).2

/-- Two tables that the same word belongs to are one, at one level. -/
theorem Forest.slot_unique (forest : Forest mem used roots) {level' : Nat}
    (table : IsTable mem roots level t) (table' : IsTable mem roots level' t) : level = level' :=
  forest.separate.level_unique table table'

/-- A table is at level one to four. -/
theorem level_pos (table : IsTable mem roots level t) : 0 < level := by
  cases table with
  | root _ => exact Nat.zero_lt_succ _
  | hung above points => exact Nat.lt_of_succ_lt_succ (pointsTo_some.1 points).1

/-! ## Walks -/

/-- **A walk depends on the entries on its way only.** -/
theorem Forest.walk_congr (forest : Forest mem used roots)
    (table : IsTable mem roots level t)
    (same : ∀ l u, Radix.Path (child mem) (index v) level t l u →
      read64 mem' u (index v l) = read64 mem u (index v l)) :
    walk mem' v level t = walk mem v level t := by
  induction level generalizing t with
  | zero => rfl
  | succ below ih =>
    have entry := same (below + 1) t .here
    simp only [walk, entry]
    split
    · rfl
    · rename_i present
      split
      · rfl
      · rename_i upper
        split
        · rfl
        · rename_i small
          have points : child mem (below + 1) t (index v (below + 1)) =
              some (read64 mem t (index v (below + 1)) &&& addressMask) := by
            have target : child mem (below + 1) t (index v (below + 1)) =
                some (tableOf (read64 mem t (index v (below + 1)))) :=
              if_pos ⟨by omega, present, not_not.mp small⟩
            rw [target, (forest.narrow table target).tableOf]
          refine congrArg _ (ih (table.hung points) fun l u path => ?_)
          exact same l u (.down points path)

/-- What the tables above the last level allow on the way of an address. Where the way ends
early they take nothing away. -/
def tableRights (mem : Memory) (v : BitVec 64) : Nat → BitVec 64 → Rights
  | 0, _ => ⟨true, true, true⟩
  | below + 1, table =>
    let entry := read64 mem table (index v (below + 1))
    match pointsTo (below + 1) entry with
    | none => ⟨true, true, true⟩
    | some c => (tableRights mem v below c).meet (Rights.of entry)

theorem Forest.rights_congr (table : IsTable mem roots level t)
    (same : ∀ {l u}, IsTable mem roots l u → ∀ j, read64 mem' u j = read64 mem u j) :
    tableRights mem' v level t = tableRights mem v level t := by
  induction level generalizing t with
  | zero => rfl
  | succ below ih =>
    simp only [tableRights, same table]
    cases points : pointsTo (below + 1) (read64 mem t (index v (below + 1))) with
    | none => rfl
    | some c => simp only [ih (table.hung points)]

/-- **A walk that gets to the last table** finds the entry there, and takes from its rights what
the tables above do not allow. -/
theorem Forest.walk_of_path (forest : Forest mem used roots)
    (path : Radix.Path (child mem) (index v) level t 1 u) (start : IsTable mem roots level t) :
    walk mem v level t = (walk mem v 1 u).map fun found =>
      { found with rights := found.rights.meet (tableRights mem v level t) } := by
  generalize last : 1 = goal at path
  induction path with
  | here =>
    subst last
    have full : ∀ r : Rights, r.meet ⟨true, true, true⟩ = r := fun r => by
      simp only [Rights.meet, Bool.and_true]
    have rights : ∀ w, tableRights mem v 1 w = ⟨true, true, true⟩ := fun w => by
      have nowhere : pointsTo (0 + 1) (read64 mem w (index v (0 + 1))) = none := pointsTo_one _
      simp only [tableRights, nowhere]
    simp only [rights, full, Option.map_id']
  | @down below goal t c u points rest ih =>
    subst last
    obtain ⟨above, present, small, target⟩ := pointsTo_some.1 points
    have narrow := (forest.narrow start points).tableOf.symm.trans target
    have walked : walk mem v (below + 1) t = (walk mem v below c).map fun found =>
        { found with rights := found.rights.meet (Rights.of (read64 mem t (index v (below + 1)))) } := by
      rw [walk]
      simp only [present, if_false, narrow, small, ne_eq, not_true_eq_false]
      exact if_neg (by omega)
    have rights : tableRights mem v (below + 1) t =
        (tableRights mem v below c).meet (Rights.of (read64 mem t (index v (below + 1)))) := by
      have points' : pointsTo (below + 1) (read64 mem t (index v (below + 1))) = some c := points
      simp only [tableRights, points']
    rw [walked, rights, ih (start.hung points) rfl, Option.map_map]
    refine congrArg (Option.map · _) (funext fun found => ?_)
    simp only [Function.comp_apply, Rights.meet_assoc]

/-! ## Edits -/

/-- Memory that reads the same at the tables has the same forest. -/
theorem Forest.congr (forest : Forest mem used roots)
    (same : ∀ {l u}, IsTable mem roots l u → ∀ j, read64 mem' u j = read64 mem u j)
    (more : ∀ {g}, used g → used' g) : Forest mem' used' roots ∧
      ∀ l u, IsTable mem' roots l u ↔ IsTable mem roots l u := by
  have children : ∀ {l u j}, IsTable mem roots l u → child mem' l u j = child mem l u j := by
    intro l u j table
    exact congrArg (pointsTo l) (same table j)
  have old : ∀ {l u}, IsTable mem' roots l u → IsTable mem roots l u := fun table =>
    table.rule (P := IsTable mem roots) .root fun _ above points =>
      above.hung (children above ▸ points)
  have new : ∀ {l u}, IsTable mem roots l u → IsTable mem' roots l u := fun table =>
    table.mono id fun above points => (children above).trans points
  refine ⟨⟨?_, fun table => ?_, fun table points => ?_⟩, fun l u => ⟨old, new⟩⟩
  · exact forest.separate.cut fun l u j c table points => (children table).symm.trans points
  · exact (forest.frame (old table)).imp_right more
  · rw [same (old table)]
    exact forest.narrow (old table) ((children (old table)).symm.trans points)

/-- **Storing** an entry that points nowhere, or where the old one did. -/
theorem Forest.store (forest : Forest mem used roots) (table : IsTable mem roots level t)
    {entry : BitVec 64} (same : pointsTo level entry = none ∨
      pointsTo level entry = pointsTo level (read64 mem t i) ∧ Narrow entry) :
    Forest (write64 mem t i entry) used roots ∧
      ∀ {l u}, IsTable (write64 mem t i entry) roots l u → IsTable mem roots l u := by
  have isFrame := forest.isFrame table
  have fewer : ∀ l u j c, IsTable mem roots l u → child (write64 mem t i entry) l u j = some c →
      child mem l u j = some c ∧ (u = t ∧ j = i → Narrow entry) := by
    intro l u j c other points
    by_cases here : u = t ∧ j = i
    · obtain ⟨rfl, rfl⟩ := here
      obtain rfl := forest.slot_unique other table
      rw [child, read64_write64_self] at points
      rcases same with nowhere | ⟨unchanged, narrow⟩
      · rw [nowhere] at points
        cases points
      · exact ⟨unchanged.symm.trans points, fun _ => narrow⟩
    · rw [child, read64_write64_of_ne isFrame (forest.isFrame other) (not_and_or.mp here)] at points
      exact ⟨points, fun slot => absurd slot here⟩
  have old : ∀ {l u}, IsTable (write64 mem t i entry) roots l u → IsTable mem roots l u :=
    fun table => table.rule (P := IsTable mem roots) .root fun _ above points =>
      above.hung (fewer _ _ _ _ above points).1
  refine ⟨⟨?_, fun other => forest.frame (old other), fun {l u j c} other points => ?_⟩, old⟩
  · exact forest.separate.cut fun l u j c other points => (fewer _ _ _ _ other points).1
  · obtain ⟨before, narrow⟩ := fewer _ _ _ _ (old other) points
    by_cases here : u = t ∧ j = i
    · rw [here.1, here.2, read64_write64_self]
      exact narrow here
    · rw [read64_write64_of_ne isFrame (forest.isFrame (old other)) (not_and_or.mp here)]
      exact forest.narrow (old other) before

/-- **Hanging** a blank frame that is in no tree into a slot. -/
theorem Forest.hangs (forest : Forest mem used roots) (table : IsTable mem roots (level + 1) t)
    (above : 0 < level) (isFrame : IsFrame f) (foreign : ∀ l, ¬IsTable mem roots l f)
    (blank : ∀ j, read64 mem f j = 0) {flags : BitVec 64} (ok : TableFlags flags) :
    Radix.Hangs (child mem) (child (write64 mem t i (f ||| flags))) (· ∈ roots) 4 level t i f where
  table := table
  foreign := foreign
  points := by
    rw [child, read64_write64_self]
    exact pointsTo_entry (Nat.succ_le_succ above) isFrame ok
  empty l j := by
    have other : f ≠ t := fun same => foreign (level + 1) (same ▸ table)
    rw [child, read64_write64_of_ne (forest.isFrame table) isFrame (Or.inl other), blank,
      pointsTo_zero]
  frame l u j old elsewhere := by
    rw [child, child, read64_write64_of_ne (forest.isFrame table) (forest.isFrame old) elsewhere]

theorem Forest.hang (forest : Forest mem used roots) (table : IsTable mem roots (level + 1) t)
    (above : 0 < level) (isFrame : IsFrame f) (foreign : ∀ l, ¬IsTable mem roots l f)
    (blank : ∀ j, read64 mem f j = 0) {flags : BitVec 64} (ok : TableFlags flags)
    (more : ∀ {g}, used g → used' g) (taken : used' f) :
    Forest (write64 mem t i (f ||| flags)) used' roots := by
  have hangs := forest.hangs (i := i) table above isFrame foreign blank ok
  refine ⟨hangs.separate forest.separate, fun other => ?_, fun {l u j c} other points => ?_⟩
  · obtain old | ⟨-, rfl⟩ := hangs.tables forest.separate other
    · exact (forest.frame old).imp_right more
    · exact ⟨isFrame, taken⟩
  · obtain ⟨old, before, fresh⟩ | ⟨-, rfl, rfl, -⟩ := hangs.slot forest.separate other points
    · by_cases here : u = t ∧ j = i
      · rw [here.1, here.2, read64_write64_self]
        exact narrow_entry isFrame ok.low
      · rw [read64_write64_of_ne (forest.isFrame table) (forest.isFrame old) (not_and_or.mp here)]
        exact forest.narrow old before
    · rw [read64_write64_self]
      exact narrow_entry isFrame ok.low

/-- A blank table translates nothing. -/
theorem walk_blank (blank : ∀ j, read64 mem f j = 0) (l : Nat) : walk mem v l f = none := by
  cases l with
  | zero => rfl
  | succ l =>
    rw [walk, blank]
    exact if_pos rfl

/-- **Hanging changes no translation**: where the slot held no entry before, the walks of the
old tables find what they found. -/
theorem Forest.walk_hang (forest : Forest mem used roots)
    (table : IsTable mem roots (level + 1) t) (above : 0 < level) (isFrame : IsFrame f)
    (foreign : ∀ l, ¬IsTable mem roots l f) (blank : ∀ j, read64 mem f j = 0) {flags : BitVec 64}
    (ok : TableFlags flags) (absent : read64 mem t i &&& ptePresent = 0) {l : Nat}
    (other : IsTable mem roots l u) :
    walk (write64 mem t i (f ||| flags)) v l u = walk mem v l u := by
  have different : f ≠ t := fun same => foreign (level + 1) (same ▸ table)
  have still : ∀ j, read64 (write64 mem t i (f ||| flags)) f j = 0 := fun j =>
    (read64_write64_of_ne (forest.isFrame table) isFrame (Or.inl different)).trans (blank j)
  induction l generalizing u with
  | zero => rfl
  | succ l ih =>
    by_cases here : u = t ∧ index v (l + 1) = i
    · obtain ⟨rfl, slot⟩ := here
      have levels : l = level := Nat.succ.inj (forest.slot_unique other table)
      have before : walk mem v (l + 1) u = none := by
        rw [walk, slot]
        exact if_pos absent
      rw [before, walk, slot, read64_write64_self]
      have present : (f ||| flags) &&& ptePresent ≠ 0 := by
        rw [and_entry isFrame ptePresent_low]
        exact ok.present
      have small : ¬(f ||| flags) &&& pteHuge ≠ 0 := by
        rw [and_entry isFrame pteHuge_low]
        exact not_not.mpr ok.small
      have target : (f ||| flags) &&& addressMask = f := by
        rw [← (narrow_entry isFrame ok.low).tableOf, tableOf_entry isFrame ok.low]
      simp only [if_neg present, if_neg (show ¬l = 0 by omega), if_neg small, target,
        walk_blank still, Option.map_none]
    · have same : read64 (write64 mem t i (f ||| flags)) u (index v (l + 1)) =
          read64 mem u (index v (l + 1)) :=
        read64_write64_of_ne (forest.isFrame table) (forest.isFrame other) (not_and_or.mp here)
      simp only [walk, same]
      split
      · rfl
      · rename_i present
        split
        · rfl
        · split
          · rfl
          · rename_i small
            have target : child mem (l + 1) u (index v (l + 1)) =
                some (tableOf (read64 mem u (index v (l + 1)))) :=
              if_pos ⟨by omega, present, not_not.mp small⟩
            have below := other.hung target
            rw [(forest.narrow other target).tableOf] at below
            rw [ih below]

/-- A blank table takes no rights away. -/
theorem rights_blank (blank : ∀ j, read64 mem f j = 0) (l : Nat) :
    tableRights mem v l f = ⟨true, true, true⟩ := by
  cases l with
  | zero => rfl
  | succ l => simp only [tableRights, blank, pointsTo_zero]

/-- **Hanging takes no rights away** when the new entry gives them all. -/
theorem Forest.rights_hang (forest : Forest mem used roots)
    (table : IsTable mem roots (level + 1) t) (above : 0 < level) (isFrame : IsFrame f)
    (foreign : ∀ l, ¬IsTable mem roots l f) (blank : ∀ j, read64 mem f j = 0) {flags : BitVec 64}
    (ok : TableFlags flags) (absent : read64 mem t i &&& ptePresent = 0)
    (full : Rights.of (f ||| flags) = ⟨true, true, true⟩) {l : Nat}
    (other : IsTable mem roots l u) :
    tableRights (write64 mem t i (f ||| flags)) v l u = tableRights mem v l u := by
  have different : f ≠ t := fun same => foreign (level + 1) (same ▸ table)
  have still : ∀ j, read64 (write64 mem t i (f ||| flags)) f j = 0 := fun j =>
    (read64_write64_of_ne (forest.isFrame table) isFrame (Or.inl different)).trans (blank j)
  induction l generalizing u with
  | zero => rfl
  | succ l ih =>
    by_cases here : u = t ∧ index v (l + 1) = i
    · obtain ⟨rfl, slot⟩ := here
      have levels : l + 1 = level + 1 := forest.slot_unique other table
      have nowhere : pointsTo (l + 1) (read64 mem u i) = none :=
        if_neg fun ⟨_, present, _⟩ => present absent
      have target : pointsTo (l + 1) (f ||| flags) = some f :=
        pointsTo_entry (by omega) isFrame ok
      simp only [tableRights, slot, read64_write64_self, nowhere, target, rights_blank still, full]
      rfl
    · have same : read64 (write64 mem t i (f ||| flags)) u (index v (l + 1)) =
          read64 mem u (index v (l + 1)) :=
        read64_write64_of_ne (forest.isFrame table) (forest.isFrame other) (not_and_or.mp here)
      simp only [tableRights, same]
      cases points : pointsTo (l + 1) (read64 mem u (index v (l + 1))) with
      | none => rfl
      | some c => simp only [ih (other.hung points)]

/-- **Planting** a frame that is in no tree as a root with entries of other roots. -/
theorem Forest.plant (forest : Forest mem used roots) (isFrame : IsFrame f)
    (foreign : ∀ l, ¬IsTable mem roots l f)
    (same : ∀ {l u}, IsTable mem roots l u → ∀ j, read64 mem' u j = read64 mem u j)
    (copied : ∀ j, read64 mem' f j = 0 ∨ ∃ r ∈ roots, read64 mem' f j = read64 mem r j)
    (more : ∀ {g}, used g → used' g) (taken : used' f) : Forest mem' used' (f :: roots) := by
  have children : ∀ {l u j}, IsTable mem roots l u → child mem' l u j = child mem l u j := by
    intro l u j table
    exact congrArg (pointsTo l) (same table j)
  have copies : ∀ l j c, child mem' l f j = some c →
      ∃ r ∈ roots, read64 mem' f j = read64 mem r j ∧ child mem l r j = some c := by
    intro l j c points
    obtain zero | ⟨r, isRoot, entry⟩ := copied j
    · rw [child, zero, pointsTo_zero] at points
      cases points
    · exact ⟨r, isRoot, entry, by rw [child, ← entry]; exact points⟩
  have plants : Radix.Plants (child mem) (child mem') (· ∈ roots) (· ∈ f :: roots) 4 f := by
    refine ⟨foreign, fun t => List.mem_cons, fun j c points => ?_, fun l u j table => children table⟩
    obtain ⟨r, isRoot, -, target⟩ := copies 4 j c points
    exact ⟨r, isRoot, target⟩
  refine ⟨plants.separate forest.separate, fun other => ?_, fun {l u j c} other points => ?_⟩
  · obtain old | ⟨-, rfl⟩ := plants.tables other
    · exact (forest.frame old).imp_right more
    · exact ⟨isFrame, taken⟩
  · obtain old | ⟨atTop, rfl⟩ := plants.tables other
    · rw [same old]
      exact forest.narrow old ((children old).symm.trans points)
    · obtain ⟨r, isRoot, entry, target⟩ := copies _ j c points
      rw [entry]
      have root : IsTable mem roots (l + 1) r := atTop ▸ .root isRoot
      exact forest.narrow root target

end Forest

end RustyPenguin.Vmm
