import RustyPenguin.Foundation.Postorder

/-!
# Package dependency resolution

The resolver walks the dependencies of a package depth first, with the packages it is inside of in
`visiting`. Packages that are installed are passed over, and so is what only they need.

`resolve_spec` says what an order contains and when there is none: the order has the packages that
are required and not installed, each after its dependencies, and a resolution fails exactly when one
of them is not in the index or requires itself. An installed package has an empty order, which does
not end with it (`resolve_installed`).
-/

set_option autoImplicit false

namespace RustyPenguin.Pkg

open Postorder (SuccessorsFirst)
open Relation (ReflTransGen TransGen)

/-! ## The index -/

structure RepoPkg where
  name : String
  version : String
  url : String
  sha256 : Option String
  deps : List String
  deriving DecidableEq

structure RepoIndex where
  pkgs : List RepoPkg

def RepoIndex.get (index : RepoIndex) (name : String) : Option RepoPkg :=
  index.pkgs.find? fun p => p.name = name

/-! ## The resolver -/

def cycleError (name : String) : String := "dependency cycle involving '" ++ name ++ "'"

def missingError (name : String) : String := "package not found in repo: '" ++ name ++ "'"

/-- The entries of the index that are not being visited. -/
def RepoIndex.unvisited (index : RepoIndex) (visiting : List String) : Nat :=
  index.pkgs.countP fun p => p.name ∉ visiting

theorem RepoIndex.unvisited_lt {index : RepoIndex} {name : String} {pkg : RepoPkg}
    {visiting : List String} (found : index.get name = some pkg) (new : name ∉ visiting) :
    index.unvisited (visiting ++ [name]) < index.unvisited visiting := by
  have named : pkg.name = name := by simpa using List.find?_some found
  have fewer : ∀ part : List RepoPkg,
      part.countP (fun p => p.name ∉ visiting ++ [name]) ≤ part.countP fun p => p.name ∉ visiting := by
    intro part
    refine List.countP_mono_left ?_
    intro p _ outside
    simp only [List.mem_append, not_or, decide_eq_true_eq] at outside ⊢
    exact outside.1
  obtain ⟨front, back, split⟩ := List.append_of_mem (List.mem_of_find?_eq_some found)
  rw [unvisited, unvisited, split, List.countP_append, List.countP_append,
    List.countP_cons_of_neg (by simp [named]), List.countP_cons_of_pos (by simp [named, new])]
  have before := fewer front
  have after := fewer back
  omega

mutual
/-- `visit`, with the packages it is inside of. -/
def RepoIndex.visit (index : RepoIndex) (isInstalled : String → Bool) (name : String)
    (order visiting : List String) : Except String (List String) :=
  if name ∈ order then .ok order
  else if isInstalled name then .ok order
  else if _ : name ∈ visiting then .error (cycleError name)
  else match _ : index.get name with
    | none => .error (missingError name)
    | some pkg =>
      (index.visitDeps isInstalled pkg.deps order (visiting ++ [name])).map fun order =>
        order ++ [name]
termination_by (index.unvisited visiting, 0)
decreasing_by exact Prod.Lex.left _ _ (RepoIndex.unvisited_lt ‹_› ‹_›)

/-- The loop over the dependencies. -/
def RepoIndex.visitDeps (index : RepoIndex) (isInstalled : String → Bool) (deps : List String)
    (order visiting : List String) : Except String (List String) :=
  match deps with
  | [] => .ok order
  | dep :: deps => do
    let order ← index.visit isInstalled dep order visiting
    index.visitDeps isInstalled deps order visiting
termination_by (index.unvisited visiting, deps.length)
decreasing_by
  · exact Prod.Lex.right _ (Nat.succ_pos _)
  · exact Prod.Lex.right _ (Nat.lt_succ_self _)
end

def RepoIndex.resolve (index : RepoIndex) (name : String) (isInstalled : String → Bool) :
    Except String (List String) :=
  index.visit isInstalled name [] []

/-! ## What is required -/

section Requirements

variable (index : RepoIndex) (isInstalled : String → Bool)

/-- A package of the index that is not installed, listed as a dependency. -/
def RepoIndex.Requires (p q : String) : Prop :=
  isInstalled q = false ∧ ∃ pkg, index.get p = some pkg ∧ q ∈ pkg.deps

/-- A package that is not installed, reached through packages that are not installed. -/
def RepoIndex.Required (name q : String) : Prop :=
  isInstalled name = false ∧ ReflTransGen (index.Requires isInstalled) name q

/-- Why there is no order with a package. -/
inductive RepoIndex.Blocked (q : String) : String → Prop
  | missing (none : index.get q = none) : Blocked q (missingError q)
  | cycle (path : TransGen (index.Requires isInstalled) q q) : Blocked q (cycleError q)

/-- What a walk of some packages, inside of others, makes of an order. -/
structure RepoIndex.Extended (roots order visiting order' : List String) : Prop where
  sorted : SuccessorsFirst (index.Requires isInstalled) order'
  kept : ∀ v ∈ order, v ∈ order'
  walked : ∀ r ∈ roots, isInstalled r = false → r ∈ order'
  origin : ∀ v ∈ order', v ∈ order ∨
    (index.get v).isSome ∧ v ∉ visiting ∧ ∃ r ∈ roots, index.Required isInstalled r v

/-- What a walk leads to: an order, or the reason why there is none. -/
def RepoIndex.Walked (roots order visiting : List String) : Except String (List String) → Prop
  | .ok order' => index.Extended isInstalled roots order visiting order'
  | .error message => ∃ r ∈ roots, ∃ q, index.Required isInstalled r q ∧
      index.Blocked isInstalled q message

/-- What a walk can be given: an order, and packages that lead to every package to walk. -/
structure RepoIndex.Inside (roots order visiting : List String) : Prop where
  sorted : SuccessorsFirst (index.Requires isInstalled) order
  above : ∀ v ∈ visiting, ∀ r ∈ roots, isInstalled r = false →
    TransGen (index.Requires isInstalled) v r

end Requirements

section Walk

variable {index : RepoIndex} {isInstalled : String → Bool} {name : String}
  {order visiting : List String}

theorem walked_done (inside : index.Inside isInstalled [name] order visiting)
    (done : isInstalled name = false → name ∈ order) :
    index.Walked isInstalled [name] order visiting (.ok order) where
  sorted := inside.sorted
  kept _ old := old
  walked := by
    intro r root wanted
    rw [List.mem_singleton.mp root] at wanted ⊢
    exact done wanted
  origin _ old := Or.inl old

theorem walked_none (inside : index.Inside isInstalled [] order visiting) :
    index.Walked isInstalled [] order visiting (.ok order) where
  sorted := inside.sorted
  kept _ old := old
  walked _ root := absurd root List.not_mem_nil
  origin _ old := Or.inl old

theorem walked_blocked {message : String} (wanted : isInstalled name = false)
    (blocked : index.Blocked isInstalled name message) :
    index.Walked isInstalled [name] order visiting (.error message) :=
  ⟨name, List.mem_singleton_self name, name, ⟨wanted, .refl⟩, blocked⟩

/-- The dependencies of a package are walked inside of it. -/
theorem inside_deps {pkg : RepoPkg} (inside : index.Inside isInstalled [name] order visiting)
    (wanted : isInstalled name = false) (found : index.get name = some pkg) :
    index.Inside isInstalled pkg.deps order (visiting ++ [name]) := by
  refine ⟨inside.sorted, ?_⟩
  intro v entered dep listed missing
  have step : index.Requires isInstalled name dep := ⟨missing, pkg, found, listed⟩
  rcases List.mem_append.mp entered with above | here
  · exact (inside.above v above name (List.mem_singleton_self name) wanted).tail step
  · rw [List.mem_singleton.mp here]
    exact .single step

/-- What a dependency requires, the package requires. -/
theorem required_of_dep {pkg : RepoPkg} {dep v : String} (wanted : isInstalled name = false)
    (found : index.get name = some pkg) (listed : dep ∈ pkg.deps)
    (required : index.Required isInstalled dep v) : index.Required isInstalled name v :=
  ⟨wanted, .head ⟨required.1, pkg, found, listed⟩ required.2⟩

theorem walked_package {pkg : RepoPkg} {result : Except String (List String)}
    (new : name ∉ order) (wanted : isInstalled name = false) (outside : name ∉ visiting)
    (found : index.get name = some pkg)
    (walked : index.Walked isInstalled pkg.deps order (visiting ++ [name]) result) :
    index.Walked isInstalled [name] order visiting (result.map fun order => order ++ [name]) := by
  have here : name ∈ visiting ++ [name] :=
    List.mem_append_right visiting (List.mem_singleton_self name)
  rcases result with message | order'
  · obtain ⟨dep, listed, q, required, blocked⟩ := walked
    exact ⟨name, List.mem_singleton_self name, q, required_of_dep wanted found listed required,
      blocked⟩
  · refine ⟨walked.sorted.concat ?_ ?_, ?_, ?_, ?_⟩
    · intro already
      rcases walked.origin name already with old | ⟨-, apart, -⟩
      · exact new old
      · exact apart here
    · rintro dep ⟨missing, pkg', found', listed⟩
      cases found.symm.trans found'
      exact walked.walked dep listed missing
    · intro v old
      exact List.mem_append_left [name] (walked.kept v old)
    · intro r root _
      exact List.mem_append_right order' root
    · intro v among
      rcases List.mem_append.mp among with before | last
      · rcases walked.origin v before with old | ⟨known, apart, dep, listed, required⟩
        · exact Or.inl old
        · refine Or.inr ⟨known, fun above => apart (List.mem_append_left _ above), name, ?_, ?_⟩
          · exact List.mem_singleton_self name
          · exact required_of_dep wanted found listed required
      · rw [List.mem_singleton.mp last]
        refine Or.inr ⟨Option.isSome_iff_exists.mpr ⟨pkg, found⟩, outside, name, ?_, wanted, .refl⟩
        exact List.mem_singleton_self name

theorem walked_more {deps : List String} {dep : String} {order' : List String}
    {result : Except String (List String)}
    (walked : index.Extended isInstalled [dep] order visiting order')
    (rest : index.Walked isInstalled deps order' visiting result) :
    index.Walked isInstalled (dep :: deps) order visiting result := by
  rcases result with message | last
  · obtain ⟨r, root, blocked⟩ := rest
    exact ⟨r, List.mem_cons_of_mem dep root, blocked⟩
  · refine ⟨rest.sorted, ?_, ?_, ?_⟩
    · intro v old
      exact rest.kept v (walked.kept v old)
    · intro r root wanted
      rcases List.mem_cons.mp root with rfl | later
      · exact rest.kept r (walked.walked r (List.mem_singleton_self r) wanted)
      · exact rest.walked r later wanted
    · intro v among
      rcases rest.origin v among with before | ⟨known, apart, r, root, required⟩
      · rcases walked.origin v before with old | ⟨known, apart, r, root, required⟩
        · exact Or.inl old
        · rw [List.mem_singleton.mp root] at required
          exact Or.inr ⟨known, apart, dep, List.mem_cons_self, required⟩
      · exact Or.inr ⟨known, apart, r, List.mem_cons_of_mem dep root, required⟩

theorem visit_walked :
    (∀ name order visiting, index.Inside isInstalled [name] order visiting →
      index.Walked isInstalled [name] order visiting (index.visit isInstalled name order visiting)) ∧
    ∀ deps order visiting, index.Inside isInstalled deps order visiting →
      index.Walked isInstalled deps order visiting
        (index.visitDeps isInstalled deps order visiting) := by
  refine RepoIndex.visit.mutual_induct index isInstalled _ _ ?_ ?_ ?_ ?_ ?_ ?_ ?_
  · intro name order visiting done inside
    rw [RepoIndex.visit, if_pos done]
    exact walked_done inside fun _ => done
  · intro name order visiting new installed inside
    rw [RepoIndex.visit, if_neg new, if_pos installed]
    exact walked_done inside fun wanted => absurd (installed.symm.trans wanted) Bool.noConfusion
  · intro name order visiting new present above inside
    rw [RepoIndex.visit, if_neg new, if_neg present, dif_pos above]
    have wanted : isInstalled name = false := eq_false_of_ne_true present
    have path := inside.above name above name (List.mem_singleton_self name) wanted
    exact walked_blocked wanted (.cycle path)
  · intro name order visiting new present outside missing inside
    have wanted : isInstalled name = false := eq_false_of_ne_true present
    rw [RepoIndex.visit, if_neg new, if_neg present, dif_neg outside]
    split
    · exact walked_blocked wanted (.missing missing)
    · next pkg found => cases missing.symm.trans found
  · intro name order visiting new present outside pkg found ih inside
    have wanted : isInstalled name = false := eq_false_of_ne_true present
    rw [RepoIndex.visit, if_neg new, if_neg present, dif_neg outside]
    split
    · next missing => cases missing.symm.trans found
    · next pkg' found' =>
      cases found.symm.trans found'
      exact walked_package new wanted outside found (ih (inside_deps inside wanted found))
  · intro order visiting inside
    rw [RepoIndex.visitDeps]
    exact walked_none inside
  · intro order visiting dep deps first rest inside
    have step := first ⟨inside.sorted, fun v above r root =>
      inside.above v above r (List.mem_singleton.mp root ▸ List.mem_cons_self)⟩
    rw [RepoIndex.visitDeps]
    rcases outcome : index.visit isInstalled dep order visiting with message | order'
    all_goals rw [outcome] at step
    · obtain ⟨r, root, blocked⟩ := step
      rw [List.mem_singleton.mp root] at blocked
      exact ⟨dep, List.mem_cons_self, blocked⟩
    · exact walked_more step (rest order' ⟨step.sorted, fun v above r root =>
        inside.above v above r (List.mem_cons_of_mem dep root)⟩)

end Walk

/-! ## Resolution -/

section Resolution

variable (index : RepoIndex) (isInstalled : String → Bool) (name : String)

/-- An order to install a package in: each package that is required, once, after its
dependencies. -/
structure RepoIndex.InstallOrder (order : List String) : Prop where
  nodup : order.Nodup
  mem_iff : ∀ q, q ∈ order ↔ index.Required isInstalled name q
  last : isInstalled name = false → order.getLast? = some name
  before : ∀ front q back, order = front ++ q :: back →
    ∀ dep, index.Requires isInstalled q dep → dep ∈ front

variable {index isInstalled name}

theorem inside_start : index.Inside isInstalled [name] [] [] :=
  ⟨.nil, fun _ entered => absurd entered List.not_mem_nil⟩

/-- A package that is not installed ends its order. -/
theorem visit_last {order : List String} (wanted : isInstalled name = false)
    (resolved : index.resolve name isInstalled = .ok order) : order.getLast? = some name := by
  rw [RepoIndex.resolve, RepoIndex.visit, if_neg List.not_mem_nil, wanted, if_neg Bool.noConfusion,
    dif_neg List.not_mem_nil] at resolved
  split at resolved
  · cases resolved
  · next pkg found =>
    rcases deps : index.visitDeps isInstalled pkg.deps [] ([] ++ [name]) with message | front
    all_goals rw [deps] at resolved
    · cases resolved
    · cases resolved
      exact List.getLast?_concat

theorem installOrder_of_extended {order : List String}
    (resolved : index.resolve name isInstalled = .ok order)
    (extended : index.Extended isInstalled [name] [] [] order) :
    index.InstallOrder isInstalled name order where
  nodup := extended.sorted.nodup
  mem_iff q := by
    constructor
    · intro among
      rcases extended.origin q among with old | ⟨-, -, r, root, required⟩
      · exact absurd old List.not_mem_nil
      · rwa [List.mem_singleton.mp root] at required
    · rintro ⟨wanted, path⟩
      have start := extended.walked name (List.mem_singleton_self name) wanted
      exact extended.sorted.reachable start path
  last wanted := visit_last wanted resolved
  before _ _ _ split _ step := extended.sorted.before split step

theorem resolve_walked :
    index.Walked isInstalled [name] [] [] (index.resolve name isInstalled) :=
  visit_walked.1 name [] [] inside_start

/-- The message of a failure names a required package and says what is wrong with it. -/
theorem blocked_of_error {message : String}
    (failed : index.resolve name isInstalled = .error message) :
    ∃ q, index.Required isInstalled name q ∧ index.Blocked isInstalled q message := by
  have walked : index.Walked isInstalled [name] [] [] (.error message) := failed ▸ resolve_walked
  obtain ⟨r, root, q, required, blocked⟩ := walked
  rw [List.mem_singleton.mp root] at required
  exact ⟨q, required, blocked⟩

/-- There is no order with a package that is missing or requires itself. -/
theorem sound_of_extended {order : List String} {q : String}
    (extended : index.Extended isInstalled [name] [] [] order) (among : q ∈ order) :
    ¬(index.get q = none ∨ TransGen (index.Requires isInstalled) q q) := by
  rintro (missing | cycle)
  · rcases extended.origin q among with old | ⟨known, -, -⟩
    · exact List.not_mem_nil old
    · rw [missing] at known
      cases known
  · exact extended.sorted.acyclic among cycle

/-- **What is resolved and what is not.** An order has the packages that are required and not
installed, once each, after their dependencies and with the package itself last. There is none
exactly when one of these packages is missing from the index or requires itself. -/
theorem resolve_spec (index : RepoIndex) (isInstalled : String → Bool) (name : String) :
    (∀ order, index.resolve name isInstalled = .ok order →
      index.InstallOrder isInstalled name order) ∧
    ((∃ message, index.resolve name isInstalled = .error message) ↔
      ∃ q, index.Required isInstalled name q ∧
        (index.get q = none ∨ TransGen (index.Requires isInstalled) q q)) := by
  rcases resolved : index.resolve name isInstalled with message | order
  · obtain ⟨q, required, blocked⟩ := blocked_of_error resolved
    refine ⟨nofun, fun _ => ⟨q, required, ?_⟩, fun _ => ⟨message, rfl⟩⟩
    rcases blocked with missing | cycle
    · exact Or.inl missing
    · exact Or.inr cycle
  · have walked : index.Walked isInstalled [name] [] [] (.ok order) := resolved ▸ resolve_walked
    have isOrder := installOrder_of_extended resolved walked
    refine ⟨?_, ?_, ?_⟩
    · rintro _ ⟨⟩
      exact isOrder
    · rintro ⟨_, failed⟩
      cases failed
    · rintro ⟨q, required, reason⟩
      exact absurd reason (sound_of_extended walked ((isOrder.mem_iff q).mpr required))

/-- **The order of an installed package is empty**: it does not end with the package, although the
package is in the index and requires itself. -/
theorem resolve_installed :
    (RepoIndex.mk [⟨"app", "1", "http://r/a.rpkg", none, ["app"]⟩]).resolve "app" (fun _ => true) =
      .ok [] ∧ ([] : List String).getLast? ≠ some "app" := by
  rw [RepoIndex.resolve, RepoIndex.visit, if_neg List.not_mem_nil, if_pos rfl]
  exact ⟨rfl, nofun⟩

end Resolution

end RustyPenguin.Pkg
