import RustyPenguin.X509.Cert

/-!
# Host names and patterns

A name of a certificate is for a host when the two are equal up to ASCII case, or when the name
starts with `*.` and the host has one label in the place of the star.

`dns_match` looks for the first dot of the host and does not look at what stands before it, so a
star also stands for no label at all: `dnsMatch_iff` says that this is the only difference.
-/

set_option autoImplicit false

namespace RustyPenguin.X509

open Checked

/-- Two names are equal up to ASCII case. -/
def SameName (a b : List UInt8) : Prop := a.map toAsciiLowercase = b.map toAsciiLowercase

/-- A pattern is for a host: they are one name, or the star stands for one label. -/
def IsFor (pat host : List UInt8) : Prop :=
  SameName pat host ∨
    ∃ suffix label rest, pat = 0x2a :: 0x2e :: suffix ∧ host = label ++ 0x2e :: rest ∧
      label ≠ [] ∧ 0x2e ∉ label ∧ SameName suffix rest

/-- The star of a pattern stands where the host has nothing. -/
def StarForNothing (pat host : List UInt8) : Prop :=
  ∃ suffix rest, pat = 0x2a :: 0x2e :: suffix ∧ host = 0x2e :: rest ∧ SameName suffix rest

theorem sameName_cons {x y : UInt8} {a b : List UInt8} :
    SameName (x :: a) (y :: b) ↔ toAsciiLowercase x = toAsciiLowercase y ∧ SameName a b := by
  rw [SameName, List.map_cons, List.map_cons, List.cons.injEq]
  rfl

theorem eqIc_iff (a b : List UInt8) : eqIc a b = true ↔ SameName a b := by
  induction a generalizing b with
  | nil =>
    cases b with
    | nil => exact ⟨fun _ => rfl, fun _ => rfl⟩
    | cons y b => exact ⟨(nomatch ·), (nomatch ·)⟩
  | cons x a ih =>
    cases b with
    | nil => exact ⟨(nomatch ·), (nomatch ·)⟩
    | cons y b =>
      rw [sameName_cons, ← ih b, eqIc, eqIc, List.length_cons, List.length_cons,
        List.zip_cons_cons, List.all_cons]
      simp only [Bool.and_eq_true, beq_iff_eq, Nat.add_right_cancel_iff]
      exact ⟨fun ⟨size, first, rest⟩ => ⟨first, size, rest⟩,
        fun ⟨first, size, rest⟩ => ⟨size, first, rest⟩⟩

/-- Only a dot is a dot in lower case. -/
theorem eq_dot_of_lowercase {b : UInt8} (dot : toAsciiLowercase b = 0x2e) : b = 0x2e := by
  rw [toAsciiLowercase] at dot
  split at dot
  · rename_i letter
    have low := UInt8.le_iff_toNat_le.mp letter.1
    have high := UInt8.le_iff_toNat_le.mp letter.2
    have value := congrArg UInt8.toNat dot
    rw [UInt8.toNat_add] at value
    simp at low high value
    omega
  · exact dot

/-- A pattern with a star accepts what has the rest of the pattern behind its first dot. -/
theorem dnsMatch_star (suffix host : List UInt8) :
    dnsMatch (0x2a :: 0x2e :: suffix) host = .ok true ↔
      ∃ label rest, host = label ++ 0x2e :: rest ∧ 0x2e ∉ label ∧ SameName suffix rest := by
  have cut : sub (0x2a :: 0x2e :: suffix) 1 (0x2a :: 0x2e :: suffix).length =
      .ok (0x2e :: suffix) :=
    sub_eq_ok.mpr ⟨by simp, Nat.le_refl _, by simp⟩
  have starts : [0x2a, 0x2e].isPrefixOf (0x2a :: 0x2e :: suffix) = true := rfl
  rw [dnsMatch, if_pos starts, bind_of_ok cut]
  constructor
  · intro accepted
    cases dot? : host.findIdx? (· == 0x2e) with
    | none =>
      rw [dot?] at accepted
      cases accepted
    | some dot =>
      rw [dot?] at accepted
      obtain ⟨inside, isDot, before⟩ := List.findIdx?_eq_some_iff_getElem.mp dot?
      obtain ⟨tail, taken, same⟩ := bind_eq_ok.mp accepted
      obtain ⟨-, -, rfl⟩ := sub_eq_ok.mp taken
      have same := (eqIc_iff _ _).mp (Except.ok.inj same)
      have split : (host.drop dot).take (host.length - dot) = 0x2e :: host.drop (dot + 1) := by
        rw [List.take_of_length_le (by simp), List.drop_eq_getElem_cons inside, beq_iff_eq.mp isDot]
      rw [split, sameName_cons] at same
      refine ⟨host.take dot, host.drop (dot + 1), ?_, ?_, same.2.symm⟩
      · rw [← beq_iff_eq.mp isDot, ← List.drop_eq_getElem_cons inside, List.take_append_drop]
      · intro member
        obtain ⟨i, short, there⟩ := List.mem_take_iff_getElem.mp member
        exact before i (by omega) (beq_iff_eq.mpr there)
  · rintro ⟨label, rest, rfl, noDot, same⟩
    have dot? : (label ++ 0x2e :: rest).findIdx? (· == 0x2e) = some label.length := by
      rw [List.findIdx?_append, List.findIdx?_eq_none_iff.mpr]
      · simp [List.findIdx?_cons]
      · intro b member
        exact beq_eq_false_iff_ne.mpr fun isDot => noDot (isDot ▸ member)
    have taken : sub (label ++ 0x2e :: rest) label.length (label ++ 0x2e :: rest).length =
        .ok (0x2e :: rest) :=
      sub_eq_ok.mpr ⟨by simp, Nat.le_refl _, by simp⟩
    rw [dot?]
    refine bind_eq_ok.mpr ⟨_, taken, congrArg Except.ok ((eqIc_iff _ _).mpr ?_)⟩
    exact sameName_cons.2 ⟨rfl, same.symm⟩

/-- Other patterns accept their own name. -/
theorem dnsMatch_plain {pat host : List UInt8} (plain : ¬∃ suffix, pat = 0x2a :: 0x2e :: suffix) :
    dnsMatch pat host = .ok true ↔ SameName pat host := by
  rw [dnsMatch, if_neg, ← eqIc_iff]
  · exact ⟨Except.ok.inj, congrArg Except.ok⟩
  · intro starts
    obtain ⟨suffix, rfl⟩ := List.isPrefixOf_iff_prefix.mp starts
    exact plain ⟨suffix, rfl⟩

/-- A host that is the pattern itself has a label in the place of the star. -/
theorem label_of_sameName {suffix host : List UInt8}
    (same : SameName (0x2a :: 0x2e :: suffix) host) :
    ∃ label rest, host = label ++ 0x2e :: rest ∧ label ≠ [] ∧ 0x2e ∉ label ∧
      SameName suffix rest := by
  match host, same with
  | [], same => exact nomatch same
  | [_], same => exact nomatch (sameName_cons.1 same).2
  | star :: dot :: rest, same =>
    obtain ⟨isStar, same⟩ := sameName_cons.1 same
    obtain ⟨isDot, same⟩ := sameName_cons.1 same
    rw [eq_dot_of_lowercase isDot.symm]
    refine ⟨[star], rest, rfl, List.cons_ne_nil _ _, ?_, same⟩
    intro member
    rw [← List.mem_singleton.mp member] at isStar
    exact absurd isStar (by decide)

/-- **What a pattern accepts**: exactly the hosts it is for, unless its star would stand for an
empty label. -/
theorem dnsMatch_iff (pat host : List UInt8) :
    (dnsMatch pat host = .ok true ↔ IsFor pat host) ↔ ¬StarForNothing pat host := by
  by_cases star : ∃ suffix, pat = 0x2a :: 0x2e :: suffix
  · obtain ⟨suffix, rfl⟩ := star
    rw [dnsMatch_star]
    constructor
    · rintro agree ⟨_, rest, same, rfl, matched⟩
      obtain rfl : suffix = _ := (List.cons.inj (List.cons.inj same).2).2
      rcases agree.mp ⟨[], rest, rfl, List.not_mem_nil, matched⟩ with own |
        ⟨_, label, rest', _, split, label?, noDot, _⟩
      · exact absurd (sameName_cons.1 own).1 (by decide)
      · obtain ⟨first, label, rfl⟩ := List.exists_cons_of_ne_nil label?
        exact noDot ((List.cons.inj split).1 ▸ List.mem_cons_self)
    · intro label?
      constructor
      · rintro ⟨label, rest, rfl, noDot, same⟩
        refine .inr ⟨suffix, label, rest, rfl, rfl, ?_, noDot, same⟩
        rintro rfl
        exact label? ⟨suffix, rest, rfl, rfl, same⟩
      · rintro (own | ⟨_, label, rest, same, split, _, noDot, matched⟩)
        · obtain ⟨label, rest, split, _, noDot, matched⟩ := label_of_sameName own
          exact ⟨label, rest, split, noDot, matched⟩
        · obtain rfl : suffix = _ := (List.cons.inj (List.cons.inj same).2).2
          exact ⟨label, rest, split, noDot, matched⟩
  · rw [dnsMatch_plain star]
    constructor
    · rintro _ ⟨suffix, _, rfl, _⟩
      exact star ⟨suffix, rfl⟩
    · intro _
      refine ⟨.inl, ?_⟩
      rintro (own | ⟨suffix, _, _, rfl, _⟩)
      · exact own
      · exact absurd ⟨suffix, rfl⟩ star

/-- `*.a` accepts the host `.a`, whose first label is empty. -/
theorem dnsMatch_emptyLabel :
    dnsMatch [0x2a, 0x2e, 0x61] [0x2e, 0x61] = .ok true ∧
      ¬IsFor [0x2a, 0x2e, 0x61] [0x2e, 0x61] := by
  refine ⟨rfl, ?_⟩
  rintro (own | ⟨_, label, rest, _, split, label?, noDot, _⟩)
  · cases own
  · obtain ⟨first, label, rfl⟩ := List.exists_cons_of_ne_nil label?
    exact noDot ((List.cons.inj split).1 ▸ List.mem_cons_self)

end RustyPenguin.X509
