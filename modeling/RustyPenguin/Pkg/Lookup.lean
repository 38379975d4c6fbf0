import RustyPenguin.Pkg.Repository

/-!
# Whether a package is installed

A package is unpacked into a directory with its name, or with its name, a hyphen and its version.
The lookup of a name takes a directory for a package of that name if it is the name, or begins
with the name and a hyphen; but names and versions may have hyphens themselves.
`isInstalled_iff_named` says for which packages and names the lookup is right.
-/

set_option autoImplicit false

namespace RustyPenguin.Pkg

/-- A package, with the version that its file is named with. -/
structure Package where
  name : String
  version : Option String

/-- The directory that it is installed in. -/
def Package.dir (p : Package) : String :=
  match p.version with
  | none => p.name
  | some version => p.name ++ "-" ++ version

/-- A string begins with another and a hyphen. -/
def Extends (s front : String) : Prop := front.toList ++ ['-'] <+: s.toList

/-- A package of another name whose directory is taken for one of the name: its own name goes on
from that name with a hyphen, or the name goes on from the package's with a hyphen and the
version, or with as much of the version as is in front of a hyphen. -/
def Package.Clashes (p : Package) (name : String) : Prop :=
  p.name ≠ name ∧ (Extends p.name name ∨
    ∃ version ∈ p.version, ∃ front, name = p.name ++ "-" ++ front ∧
      (front = version ∨ Extends version front))

/-- A list ends with a separator in front of another separator, or before it, or behind it. -/
theorem prefix_separator {α : Type} {c : α} {n a v : List α} : n ++ [c] <+: a ++ c :: v ↔
    n ++ [c] <+: a ∨ n = a ∨ ∃ front, n = a ++ c :: front ∧ front ++ [c] <+: v := by
  induction a generalizing n with
  | nil =>
    cases n with
    | nil => simp
    | cons d n =>
      simp only [List.nil_append, List.cons_append, List.cons_prefix_cons]
      constructor
      · rintro ⟨rfl, more⟩
        exact .inr (.inr ⟨n, rfl, more⟩)
      · rintro (none | none | ⟨front, same, more⟩)
        · exact absurd none (by simp)
        · exact nomatch none
        · obtain ⟨rfl, rfl⟩ := List.cons.inj same
          exact ⟨rfl, more⟩
  | cons d a ih =>
    cases n with
    | nil => simp
    | cons e n =>
      simp only [List.cons_append, List.cons_prefix_cons, ih]
      constructor
      · rintro ⟨rfl, below | rfl | ⟨front, rfl, more⟩⟩
        · exact .inl ⟨rfl, below⟩
        · exact .inr (.inl rfl)
        · exact .inr (.inr ⟨front, rfl, more⟩)
      · rintro (⟨rfl, below⟩ | same | ⟨front, same, more⟩)
        · exact ⟨rfl, .inl below⟩
        · obtain ⟨rfl, rfl⟩ := List.cons.inj same
          exact ⟨rfl, .inr (.inl rfl)⟩
        · obtain ⟨rfl, rfl⟩ := List.cons.inj same
          exact ⟨rfl, .inr (.inr ⟨front, rfl, more⟩)⟩

/-- The directories that are taken for the name are those of its packages and of those that clash. -/
theorem dir_iff (p : Package) (name : String) :
    p.dir = name ∨ Extends p.dir name ↔ p.name = name ∨ p.Clashes name := by
  rw [Package.Clashes]
  obtain ⟨own, version⟩ := p
  cases version with
  | none =>
    simp only [Package.dir, Option.mem_def, reduceCtorEq, false_and, exists_false, or_false]
    tauto
  | some version =>
    have split : (own ++ "-" ++ version).toList = own.toList ++ '-' :: version.toList := by
      rw [String.toList_append, String.toList_append, List.append_assoc]
      rfl
    have goesOn {front : List Char} : name.toList = own.toList ++ '-' :: front ↔
        name = own ++ "-" ++ String.ofList front := by
      have dash : "-".toList = ['-'] := rfl
      rw [← String.toList_inj, String.toList_append, String.toList_append, List.append_assoc, dash,
        String.toList_ofList (l := front)]
      rfl
    have goesOnDir : Extends (own ++ "-" ++ version) name ↔
        Extends own name ∨ own = name ∨ ∃ front, name = own ++ "-" ++ front ∧
          Extends version front := by
      rw [Extends, split, prefix_separator, String.toList_inj, eq_comm (a := name)]
      refine or_congr Iff.rfl (or_congr Iff.rfl ?_)
      constructor
      · rintro ⟨front, same, more⟩
        exact ⟨String.ofList front, goesOn.mp same, by rwa [Extends, String.toList_ofList]⟩
      · rintro ⟨front, same, more⟩
        exact ⟨front.toList, goesOn.mpr (by rwa [String.ofList_toList]), more⟩
    simp only [Package.dir, Option.mem_def, Option.some.injEq, exists_eq_left', goesOnDir]
    by_cases named : own = name
    · exact ⟨fun _ => .inl named, fun _ => .inr (.inr (.inl named))⟩
    · constructor
      · rintro (same | below | same | ⟨front, same, more⟩)
        · exact .inr ⟨named, .inr ⟨version, same.symm, .inl rfl⟩⟩
        · exact .inr ⟨named, .inl below⟩
        · exact absurd same named
        · exact .inr ⟨named, .inr ⟨front, same, .inr more⟩⟩
      · rintro (same | ⟨_, below | ⟨front, same, rfl | more⟩⟩)
        · exact absurd same named
        · exact .inr (.inl below)
        · exact .inl same.symm
        · exact .inr (.inr (.inr ⟨front, same, more⟩))

/-- The lookup of a name is right: it says whether a package of the name is installed. -/
def LooksUp (packages : List Package) (s : Repo) (readable : String → Bool) (name : String) : Prop :=
  isInstalled { s with packages := packages.map Package.dir } readable name = true ↔
    ∃ p ∈ packages, p.name = name

theorem isInstalled_eq_true (packages : List Package) (s : Repo) (readable : String → Bool)
    (name : String) :
    isInstalled { s with packages := packages.map Package.dir } readable name = true ↔
      readable name = true ∧ ∃ p ∈ packages, p.name = name ∨ p.Clashes name := by
  have dash : (name ++ "-").toList = name.toList ++ ['-'] := String.toList_append
  rw [isInstalled, Bool.and_eq_true, List.any_map, List.any_eq_true]
  refine and_congr Iff.rfl (exists_congr fun p => and_congr Iff.rfl ?_)
  rw [Function.comp_apply, Bool.or_eq_true, beq_iff_eq, List.isPrefixOf_iff_prefix, dash]
  exact dir_iff p name

/-- **The lookup of a name is right exactly when the directory can be read and a package of the name
is installed or none that clashes with it, or it cannot be read and no package of the name is
installed.** -/
theorem looksUp_iff (packages : List Package) (s : Repo) (readable : String → Bool)
    (name : String) : LooksUp packages s readable name ↔
      if readable name then (∃ p ∈ packages, p.name = name) ∨ ∀ p ∈ packages, ¬p.Clashes name
      else ∀ p ∈ packages, p.name ≠ name := by
  rw [LooksUp, isInstalled_eq_true]
  split_ifs with read
  · by_cases named : ∃ p ∈ packages, p.name = name
    · obtain ⟨p, member, same⟩ := named
      exact ⟨fun _ => .inl ⟨p, member, same⟩,
        fun _ => ⟨fun _ => ⟨p, member, same⟩, fun _ => ⟨read, p, member, .inl same⟩⟩⟩
    · constructor
      · intro right
        exact .inr fun p member clashes => named (right.mp ⟨read, p, member, .inr clashes⟩)
      · rintro (there | apart)
        · exact absurd there named
        · refine ⟨?_, fun there => absurd there named⟩
          rintro ⟨_, p, member, same | clashes⟩
          · exact ⟨p, member, same⟩
          · exact absurd clashes (apart p member)
  · constructor
    · intro right p member same
      exact read (right.mpr ⟨p, member, same⟩).1
    · intro none
      refine ⟨fun found => absurd found.1 read, ?_⟩
      rintro ⟨p, member, same⟩
      exact absurd same (none p member)

/-- Nothing is installed and nothing downloaded. -/
def bare : Repo where
  cache := none
  pubkey := none
  sigTmp := none
  keyTmp := none
  downloads := fun _ => none
  packages := []
  verified := []
  installed := []

/-- The package `openssl-dev` makes `openssl` count as installed, and there is nothing left to
install of it. -/
theorem openssl_skipped :
    ¬LooksUp [⟨"openssl-dev", some "1.0"⟩] bare (fun _ => true) "openssl" ∧
      ∀ index : RepoIndex, index.resolve "openssl" (isInstalled
        { bare with packages := [Package.dir ⟨"openssl-dev", some "1.0"⟩] } fun _ => true) =
          .ok [] := by
  have clashes : Package.Clashes ⟨"openssl-dev", some "1.0"⟩ "openssl" :=
    ⟨by decide, .inl ⟨['d', 'e', 'v'], rfl⟩⟩
  have taken := (isInstalled_eq_true [⟨"openssl-dev", some "1.0"⟩] bare (fun _ => true)
    "openssl").mpr ⟨rfl, _, List.mem_singleton_self _, .inr clashes⟩
  constructor
  · intro right
    obtain ⟨p, member, same⟩ := right.mp taken
    rw [List.mem_singleton.mp member] at same
    exact absurd same (by decide)
  · intro index
    rw [RepoIndex.resolve, RepoIndex.visit, if_neg List.not_mem_nil]
    exact if_pos taken

end RustyPenguin.Pkg
