import Mathlib.Algebra.Ring.Int.Defs
import Mathlib.Algebra.Ring.Nat
import Mathlib.Logic.Function.Basic
import Mathlib.Tactic.Common

/-!
# Forests of radix tables

A radix tree is made of tables at levels, each slot of a table above level one pointing to
at most one table of the level below. Several trees may stand side by side, their roots at
the top level, and roots may share the tables directly below them.

`Separate` says that this is all the sharing there is: no table is a root, and a table is
pointed to from one slot only, up to the choice of the root. Then the slots that lead from
a root to a table are determined by the table (`Path.agree`). The three edits a tree is
built with, hanging a new table in a slot, making a slot point nowhere and adding a root
whose slots are copies of those of other roots, keep a forest separate.
-/

set_option autoImplicit false

namespace RustyPenguin.Radix

variable {T I : Type*}

/-- The tables of a forest: the roots at level `top` and what hangs below them. -/
inductive Table (next : Nat → T → I → Option T) (roots : T → Prop) (top : Nat) :
    Nat → T → Prop where
  | root {r : T} (isRoot : roots r) : Table next roots top top r
  | hung {level : Nat} {t c : T} {i : I} (above : Table next roots top (level + 1) t)
      (points : next (level + 1) t i = some c) : Table next roots top level c

/-- The slots chosen by `at` lead from table `t` to table `u`. -/
inductive Path (next : Nat → T → I → Option T) (choose : Nat → I) : Nat → T → Nat → T → Prop where
  | here {level : Nat} {t : T} : Path next choose level t level t
  | down {level goal : Nat} {t c u : T} (points : next (level + 1) t (choose (level + 1)) = some c)
      (rest : Path next choose level c goal u) : Path next choose (level + 1) t goal u

/-- Nothing is shared but tables directly below the roots, from the same slot. -/
structure Separate (next : Nat → T → I → Option T) (roots : T → Prop) (top : Nat) : Prop where
  notRoot : ∀ {level t c i}, Table next roots top (level + 1) t → next (level + 1) t i = some c →
    ¬roots c
  parent : ∀ {level level' t t' c i i'}, Table next roots top (level + 1) t →
    Table next roots top (level' + 1) t' → next (level + 1) t i = some c →
    next (level' + 1) t' i' = some c → level = level' ∧ i = i' ∧ (t = t' ∨ level + 1 = top)

variable {next next' : Nat → T → I → Option T} {roots roots' : T → Prop} {top : Nat}

namespace Table

theorem level_le {level : Nat} {t : T} (table : Table next roots top level t) : level ≤ top := by
  induction table with
  | root _ => exact Nat.le_refl top
  | hung _ _ ih => exact Nat.le_of_succ_le ih

/-- At the top level there are roots only. -/
theorem isRoot {t : T} (table : Table next roots top top t) : roots t := by
  cases table with
  | root isRoot => exact isRoot
  | hung above _ => exact absurd above.level_le (Nat.not_succ_le_self top)

theorem mono (more : ∀ {t}, roots t → roots' t)
    (kept : ∀ {level t i c}, Table next roots top (level + 1) t → next (level + 1) t i = some c →
      next' (level + 1) t i = some c) {level : Nat} {t : T} (table : Table next roots top level t) :
    Table next' roots' top level t := by
  induction table with
  | root isRoot => exact root (more isRoot)
  | hung above points ih => exact ih.hung (kept above points)

/-- An edit of the tables of some level leaves the tables of this level and above. -/
theorem mono_above {low : Nat} (kept : ∀ {level t i c}, low ≤ level →
      Table next roots top (level + 1) t → next (level + 1) t i = some c →
      next' (level + 1) t i = some c) {level : Nat} {t : T} (high : low ≤ level)
    (table : Table next roots top level t) : Table next' roots top level t := by
  induction table with
  | root isRoot => exact root isRoot
  | hung above points ih =>
    exact (ih (Nat.le_succ_of_le high)).hung (kept high above points)

/-- What holds of the roots and of every table a slot points to holds of all tables. -/
theorem rule {P : Nat → T → Prop} (ofRoot : ∀ {t}, roots t → P top t)
    (ofSlot : ∀ {level t i c}, Table next roots top (level + 1) t → P (level + 1) t →
      next (level + 1) t i = some c → P level c) {level : Nat} {t : T}
    (table : Table next roots top level t) : P level t := by
  induction table with
  | root isRoot => exact ofRoot isRoot
  | hung above points ih => exact ofSlot above ih points

end Table

/-- **A table has one level.** -/
theorem Separate.level_unique (separate : Separate next roots top) {level level' : Nat} {t : T}
    (table : Table next roots top level t) (table' : Table next roots top level' t) :
    level = level' := by
  cases table with
  | root isRoot =>
    cases table' with
    | root _ => rfl
    | hung above points => exact absurd isRoot (separate.notRoot above points)
  | hung above points =>
    cases table' with
    | root isRoot => exact absurd isRoot (separate.notRoot above points)
    | hung above' points' => exact (separate.parent above above' points points').1

namespace Path

variable {choose choose' : Nat → I}

theorem level_le {level goal : Nat} {t u : T} (path : Path next choose level t goal u) :
    goal ≤ level := by
  induction path with
  | here => exact Nat.le_refl _
  | down _ _ ih => exact Nat.le_succ_of_le ih

theorem table {level goal : Nat} {t u : T} (path : Path next choose level t goal u)
    (start : Table next roots top level t) : Table next roots top goal u := by
  induction path with
  | here => exact start
  | down points _ ih => exact ih (start.hung points)

/-- **A table determines the way to it**: two paths that end in the same table chose the same
slots, and started in the same table unless they started in roots. -/
theorem agree (separate : Separate next roots top) {level goal : Nat} {t t' u : T}
    (path : Path next choose level t goal u) (path' : Path next choose' level t' goal u)
    (start : Table next roots top level t) (start' : Table next roots top level t') :
    (∀ l, goal < l → l ≤ level → choose l = choose' l) ∧ (t = t' ∨ level = top) := by
  induction path generalizing t' with
  | here =>
    cases path' with
    | here => exact ⟨fun l above below => absurd above (Nat.not_lt.mpr below), Or.inl rfl⟩
    | down _ rest => exact absurd rest.level_le (Nat.not_succ_le_self _)
  | @down level goal t c u points rest ih =>
    cases path' with
    | here => exact absurd rest.level_le (Nat.not_succ_le_self _)
    | down points' rest' =>
      obtain ⟨same, joined⟩ := ih rest' (start.hung points) (start'.hung points')
      have children := joined.resolve_right fun atTop =>
        absurd start.level_le (Nat.not_le.mpr (atTop ▸ Nat.lt_succ_self level))
      obtain ⟨-, slot, tables⟩ := separate.parent start start' points (children ▸ points')
      refine ⟨fun l above below => ?_, tables⟩
      rcases Nat.lt_or_eq_of_le below with lower | rfl
      · exact same l above (Nat.le_of_lt_succ lower)
      · exact slot

/-- A path chosen by other slots is the same path when the slots agree on the way. -/
theorem congr {level goal : Nat} {t u : T} (path : Path next choose level t goal u)
    (same : ∀ l, goal < l → l ≤ level → choose l = choose' l) :
    Path next choose' level t goal u := by
  induction path with
  | here => exact here
  | @down level goal t c u points rest ih =>
    have chosen := same (level + 1) (Nat.lt_succ_of_le rest.level_le) (Nat.le_refl _)
    exact down (chosen ▸ points) (ih fun l above below => same l above (Nat.le_succ_of_le below))

theorem mono (kept : ∀ {level t i c}, Table next roots top (level + 1) t →
      next (level + 1) t i = some c → next' (level + 1) t i = some c) {level goal : Nat} {t u : T}
    (start : Table next roots top level t) (path : Path next choose level t goal u) :
    Path next' choose level t goal u := by
  induction path with
  | here => exact here
  | down points _ ih => exact down (kept start points) (ih (start.hung points))

theorem trans {level middle goal : Nat} {t v u : T} (first : Path next choose level t middle v)
    (second : Path next choose middle v goal u) : Path next choose level t goal u := by
  induction first with
  | here => exact second
  | down points _ ih => exact down points (ih second)

end Path

/-! ## The edits of a forest -/

/-- **Hanging a table.** A table that was in no tree, with no table below it, is put into a slot;
the other slots of the tables are as they were. -/
structure Hangs (next next' : Nat → T → I → Option T) (roots : T → Prop) (top level : Nat) (t : T)
    (i : I) (fresh : T) : Prop where
  table : Table next roots top (level + 1) t
  foreign : ∀ l, ¬Table next roots top l fresh
  points : next' (level + 1) t i = some fresh
  empty : ∀ l j, next' l fresh j = none
  frame : ∀ l u j, Table next roots top l u → (u ≠ t ∨ j ≠ i) → next' l u j = next l u j

namespace Hangs

variable {level : Nat} {t fresh : T} {i : I}

/-- The tables after hanging one are among the tables before and the new one. -/
theorem tables (hangs : Hangs next next' roots top level t i fresh)
    (separate : Separate next roots top) {l : Nat} {u : T} (table : Table next' roots top l u) :
    Table next roots top l u ∨ l = level ∧ u = fresh := by
  refine table.rule (P := fun l u => Table next roots top l u ∨ l = level ∧ u = fresh)
    (fun isRoot => Or.inl (.root isRoot)) ?_
  rintro l u j c - (old | ⟨-, rfl⟩) points
  · by_cases slot : u = t ∧ j = i
    · obtain ⟨rfl, rfl⟩ := slot
      have levels : l + 1 = level + 1 := separate.level_unique old hangs.table
      rw [levels, hangs.points] at points
      exact Or.inr ⟨Nat.succ.inj levels, (Option.some.inj points).symm⟩
    · rw [hangs.frame _ _ _ old (not_and_or.mp slot)] at points
      exact Or.inl (old.hung points)
  · rw [hangs.empty] at points
    cases points

/-- What a slot points to after hanging a table. -/
theorem slot (hangs : Hangs next next' roots top level t i fresh)
    (separate : Separate next roots top) {l : Nat} {u c : T} {j : I}
    (table : Table next' roots top (l + 1) u) (points : next' (l + 1) u j = some c) :
    (Table next roots top (l + 1) u ∧ next (l + 1) u j = some c ∧ c ≠ fresh) ∨
      (l = level ∧ u = t ∧ j = i ∧ c = fresh) := by
  obtain old | ⟨-, rfl⟩ := hangs.tables separate table
  · by_cases here : u = t ∧ j = i
    · obtain ⟨rfl, rfl⟩ := here
      have levels : l + 1 = level + 1 := separate.level_unique old hangs.table
      rw [levels, hangs.points] at points
      exact Or.inr ⟨Nat.succ.inj levels, rfl, rfl, (Option.some.inj points).symm⟩
    · rw [hangs.frame _ _ _ old (not_and_or.mp here)] at points
      refine Or.inl ⟨old, points, fun same => hangs.foreign l ?_⟩
      exact same ▸ old.hung points
  · rw [hangs.empty] at points
    cases points

theorem separate (hangs : Hangs next next' roots top level t i fresh)
    (separate : Separate next roots top) : Separate next' roots top where
  notRoot {l u c j} table points := by
    obtain ⟨old, before, -⟩ | ⟨-, -, -, rfl⟩ := hangs.slot separate table points
    · exact separate.notRoot old before
    · intro isRoot
      exact hangs.foreign top (.root isRoot)
  parent {l l' u u' c j j'} table table' points points' := by
    obtain ⟨old, before, other⟩ | ⟨rfl, rfl, rfl, rfl⟩ := hangs.slot separate table points
    · obtain ⟨old', before', -⟩ | ⟨-, -, -, same⟩ := hangs.slot separate table' points'
      · exact separate.parent old old' before before'
      · exact absurd same other
    · obtain ⟨-, -, other⟩ | ⟨rfl, rfl, rfl, -⟩ := hangs.slot separate table' points'
      · exact absurd rfl other
      · exact ⟨rfl, rfl, Or.inl rfl⟩

end Hangs

/-- **Cutting.** Slots may lose what they point to. -/
theorem Separate.cut (separate : Separate next roots top)
    (fewer : ∀ l u j c, Table next roots top l u → next' l u j = some c → next l u j = some c) :
    Separate next' roots top := by
  have old : ∀ {l u}, Table next' roots top l u → Table next roots top l u := fun table =>
    table.rule (P := Table next roots top) .root fun _ above points =>
      above.hung (fewer _ _ _ _ above points)
  constructor
  · intro l u c j table points
    exact separate.notRoot (old table) (fewer _ _ _ _ (old table) points)
  · intro l l' u u' c j j' table table' points points'
    exact separate.parent (old table) (old table') (fewer _ _ _ _ (old table) points)
      (fewer _ _ _ _ (old table') points')

/-- **Planting.** A new root, in no tree before, whose slots are copies of slots of roots. -/
structure Plants (next next' : Nat → T → I → Option T) (roots roots' : T → Prop) (top : Nat)
    (root : T) : Prop where
  foreign : ∀ l, ¬Table next roots top l root
  roots_iff : ∀ t, roots' t ↔ t = root ∨ roots t
  copied : ∀ i c, next' top root i = some c → ∃ r, roots r ∧ next top r i = some c
  frame : ∀ l u j, Table next roots top l u → next' l u j = next l u j

namespace Plants

variable {root : T}

theorem tables (plants : Plants next next' roots roots' top root) {l : Nat} {u : T}
    (table : Table next' roots' top l u) : Table next roots top l u ∨ l = top ∧ u = root := by
  refine table.rule (P := fun l u => Table next roots top l u ∨ l = top ∧ u = root) ?_ ?_
  · intro t isRoot
    rcases (plants.roots_iff t).mp isRoot with rfl | old
    · exact Or.inr ⟨rfl, rfl⟩
    · exact Or.inl (.root old)
  · rintro l u j c - (old | ⟨atTop, rfl⟩) points
    · rw [plants.frame _ _ _ old] at points
      exact Or.inl (old.hung points)
    · obtain ⟨r, isRoot, copied⟩ := plants.copied j c (atTop ▸ points)
      have above : Table next roots top (l + 1) r := atTop ▸ .root isRoot
      exact Or.inl (above.hung (atTop ▸ copied))

/-- A slot after planting is a slot before, of the same table or of a root. -/
theorem slot (plants : Plants next next' roots roots' top root) {l : Nat} {u c : T} {j : I}
    (table : Table next' roots' top (l + 1) u) (points : next' (l + 1) u j = some c) :
    ∃ v, Table next roots top (l + 1) v ∧ next (l + 1) v j = some c ∧ (u = v ∨ l + 1 = top) := by
  obtain old | ⟨atTop, rfl⟩ := plants.tables table
  · exact ⟨u, old, plants.frame _ _ _ old ▸ points, Or.inl rfl⟩
  · obtain ⟨r, isRoot, copied⟩ := plants.copied j c (atTop ▸ points)
    exact ⟨r, atTop ▸ .root isRoot, atTop ▸ copied, Or.inr atTop⟩

theorem separate (plants : Plants next next' roots roots' top root)
    (separate : Separate next roots top) : Separate next' roots' top where
  notRoot {l u c j} table points := by
    obtain ⟨v, old, before, -⟩ := plants.slot table points
    intro isRoot
    rcases (plants.roots_iff c).mp isRoot with rfl | wasRoot
    · exact plants.foreign l (old.hung before)
    · exact separate.notRoot old before wasRoot
  parent {l l' u u' c j j'} table table' points points' := by
    obtain ⟨v, old, before, joined⟩ := plants.slot table points
    obtain ⟨v', old', before', joined'⟩ := plants.slot table' points'
    obtain ⟨rfl, slots, tables⟩ := separate.parent old old' before before'
    refine ⟨rfl, slots, ?_⟩
    rcases joined with rfl | atTop
    · rcases joined' with rfl | atTop
      · exact tables
      · exact Or.inr atTop
    · exact Or.inr atTop

end Plants

end RustyPenguin.Radix
