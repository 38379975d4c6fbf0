import RustyPenguin.Wpa2.Handshake

/-!
# The group key among the elements of the key data

Key data is a sequence of elements, each an identifier, a length and a body, after which
there may be padding. The search for the group key walks over the elements that stand
first. It passes over an element only when its identifier is that of a vendor and its body
has four bytes or more (`Element.Passed`); any other element ends the search, and an element
whose type is that of a group key while its body is too short to hold one is read outside
its bounds.

Where the search stands is a sequence of passed elements (`Reaches`). So its outcome is
settled by the first element of the group key's type that it reaches, and
`findsGtk_iff` says for which key data it is the outcome the elements ask for.
-/

set_option autoImplicit false

namespace RustyPenguin.Wpa2

open Checked

/-! ## Elements -/

/-- The organisation and type that mark a group key. -/
def gtkType : List UInt8 := [0x00, 0x0f, 0xac, 0x01]

/-- An element of key data. -/
structure Element where
  id : UInt8
  body : List UInt8
  body_fits : body.length < 256

namespace Element

/-- The bytes of an element. -/
def bytes (e : Element) : List UInt8 := e.id :: UInt8.ofNat e.body.length :: e.body

/-- A vendor element whose type is that of a group key. -/
def GtkType (e : Element) : Prop := e.id = 0xdd ∧ e.body.take 4 = gtkType

/-- The element of a group key: the key stands after the type and a two-byte key id. -/
def IsGtk (e : Element) : Prop := e.GtkType ∧ 6 ≤ e.body.length

/-- The key of such an element. -/
def key (e : Element) : List UInt8 := e.body.drop 6

/-- An element that the search passes over. -/
def Passed (e : Element) : Prop := e.id = 0xdd ∧ 4 ≤ e.body.length ∧ e.body.take 4 ≠ gtkType

/-- What the search reads from an element of the group key's type. -/
def readKey (e : Element) : Checked (Option (List UInt8)) := do
  let gtk ← sub e.body 6 e.body.length
  pure (some (gtk.take (min gtk.length 32)))

theorem length_bytes (e : Element) : e.bytes.length = 2 + e.body.length := by
  rw [bytes, List.length_cons, List.length_cons]
  omega

theorem len_toNat (e : Element) : (UInt8.ofNat e.body.length).toNat = e.body.length := by
  rw [UInt8.toNat_ofNat', Nat.mod_eq_of_lt e.body_fits]

/-- Bytes that start with two elements start with the same one. -/
theorem bytes_append_inj {e e' : Element} {rest rest' : List UInt8}
    (same : e.bytes ++ rest = e'.bytes ++ rest') : e = e' ∧ rest = rest' := by
  obtain ⟨id, body, fits⟩ := e
  obtain ⟨id', body', fits'⟩ := e'
  obtain ⟨rfl, tails⟩ := List.cons.inj same
  obtain ⟨lens, bodies⟩ := List.cons.inj tails
  have sizes : body.length = body'.length := by
    rw [← len_toNat ⟨id, body, fits⟩, ← len_toNat ⟨id, body', fits'⟩]
    exact congrArg UInt8.toNat lens
  obtain ⟨rfl, rest_eq⟩ := List.append_inj bodies sizes
  exact ⟨rfl, rest_eq⟩

theorem not_gtkType_of_passed {e : Element} (passed : e.Passed) : ¬ e.GtkType :=
  fun gtk => passed.2.2 gtk.2

theorem four_le_of_gtkType {e : Element} (gtk : e.GtkType) : 4 ≤ e.body.length := by
  have size := congrArg List.length gtk.2
  rw [List.length_take] at size
  exact min_eq_left_iff.mp size

theorem readKey_of_isGtk {e : Element} (gtk : e.IsGtk) : e.readKey = .ok (some (e.key.take 32)) := by
  have whole : sub e.body 6 e.body.length = .ok e.key := by
    refine sub_eq_ok.mpr ⟨gtk.2, Nat.le_refl _, ?_⟩
    rw [key, List.take_of_length_le (by rw [List.length_drop])]
  rw [readKey, bind_of_ok whole, Nat.min_comm, ← List.take_take, List.take_length]
  rfl

theorem readKey_of_short {e : Element} (short : e.body.length < 6) : e.readKey = fault := by
  rw [readKey, sub, if_neg (fun inside => absurd inside.1 (Nat.not_le.mpr short))]
  rfl

end Element

/-- The bytes of a sequence of elements. -/
def elementsBytes (es : List Element) : List UInt8 := es.flatMap Element.bytes

theorem elementsBytes_cons (e : Element) (es : List Element) :
    elementsBytes (e :: es) = e.bytes ++ elementsBytes es := rfl

theorem elementsBytes_append (es es' : List Element) :
    elementsBytes (es ++ es') = elementsBytes es ++ elementsBytes es' :=
  List.flatMap_append

theorem length_le_elementsBytes (es : List Element) : es.length ≤ (elementsBytes es).length := by
  induction es with
  | nil => exact Nat.le_refl _
  | cons e es rest =>
    rw [elementsBytes_cons, List.length_append, e.length_bytes, List.length_cons]
    omega

/-- Padding is empty, or the identifier `dd` and zeroes. -/
def IsPadding (bytes : List UInt8) : Prop :=
  bytes = [] ∨ ∃ n, bytes = 0xdd :: List.replicate n 0

/-- The search reaches the element `e`: only elements that it passes over stand before. -/
def Reaches (kd : List UInt8) (e : Element) : Prop :=
  ∃ before rest, (∀ x ∈ before, x.Passed) ∧ kd = elementsBytes before ++ (e.bytes ++ rest)

/-! ## One step of the search -/

section Search

variable {kd : List UInt8} (bounded : kd.length < 2 ^ 63)

include bounded

/-- What the search does at an element. -/
theorem findGtkFrom_element {i : Nat} {e : Element} {rest : List UInt8}
    (here : kd.drop i = e.bytes ++ rest) (steps : Nat) :
    findGtkFrom kd (steps + 1) i =
      if e.id ≠ 0xdd ∨ e.body.length < 4 then .ok none
      else if e.body.take 4 = gtkType then e.readKey
      else findGtkFrom kd steps (i + e.bytes.length) := by
  have size := congrArg List.length here
  rw [List.length_drop, List.length_append, e.length_bytes] at size
  have fits := e.body_fits
  have next : addIn 64 i 2 = .ok (i + 2) := if_pos (by omega)
  have first : index kd i = .ok e.id := by
    rw [index_eq_ok, ← Nat.add_zero i, ← List.getElem?_drop, here]
    rfl
  have second : index kd (i + 1) = .ok (UInt8.ofNat e.body.length) := by
    rw [index_eq_ok, ← List.getElem?_drop, here]
    rfl
  have after : addIn 64 (i + 2) (UInt8.ofNat e.body.length).toNat =
      .ok (i + 2 + e.body.length) := by
    rw [e.len_toNat]
    exact if_pos (by omega)
  have body : sub kd (i + 2) (i + 2 + e.body.length) = .ok e.body := by
    refine sub_eq_ok.mpr ⟨by omega, by omega, ?_⟩
    have cut : kd.drop (i + 2) = e.body ++ rest := by
      rw [← List.drop_drop, here]
      rfl
    rw [cut, Nat.add_sub_cancel_left, List.take_left]
  rw [findGtkFrom, bind_of_ok next, if_pos (by omega), bind_of_ok first]
  by_cases vendor : e.id = 0xdd
  · rw [if_neg (not_not.mpr vendor), bind_of_ok second, bind_of_ok after, e.len_toNat]
    by_cases long : e.body.length < 4
    · rw [if_pos (Or.inr long), if_pos (Or.inr long)]
      rfl
    · rw [if_neg (by omega), if_neg (by rw [not_or]; exact ⟨not_not.mpr vendor, long⟩),
        bind_of_ok body, e.length_bytes, Nat.add_assoc]
      rfl
  · rw [if_pos vendor, if_pos (Or.inl vendor)]
    rfl

/-- The search ends where no element stands. -/
theorem findGtkFrom_none {i : Nat} (inside : i ≤ kd.length)
    (empty : ∀ e rest, kd.drop i ≠ Element.bytes e ++ rest) (steps : Nat) :
    findGtkFrom kd (steps + 1) i = .ok none := by
  have next : addIn 64 i 2 = .ok (i + 2) := if_pos (by omega)
  rw [findGtkFrom, bind_of_ok next]
  rcases left : kd.drop i with _ | ⟨x, _ | ⟨n, short⟩⟩
  · have size := congrArg List.length left
    rw [List.length_drop, List.length_nil] at size
    rw [if_neg (by omega)]
    rfl
  · have size := congrArg List.length left
    rw [List.length_drop, List.length_singleton] at size
    rw [if_neg (by omega)]
    rfl
  · have size := congrArg List.length left
    rw [List.length_drop, List.length_cons, List.length_cons] at size
    have bound := n.toNat_lt
    have cut : short.length < n.toNat := by
      by_contra long
      have width : (short.take n.toNat).length = n.toNat := by
        rw [List.length_take]
        omega
      refine empty ⟨x, short.take n.toNat, by omega⟩ (short.drop n.toNat) ?_
      simp only [left, Element.bytes, width, UInt8.ofNat_toNat, List.cons_append,
        List.take_append_drop]
    have first : index kd i = .ok x := by
      rw [index_eq_ok, ← Nat.add_zero i, ← List.getElem?_drop, left]
      rfl
    have second : index kd (i + 1) = .ok n := by
      rw [index_eq_ok, ← List.getElem?_drop, left]
      rfl
    have after : addIn 64 (i + 2) n.toNat = .ok (i + 2 + n.toNat) := if_pos (by omega)
    rw [if_pos (by omega), bind_of_ok first, bind_of_ok second, bind_of_ok after]
    have out : kd.length < i + 2 + n.toNat ∨ n.toNat < 4 := Or.inl (by omega)
    rw [if_pos out]
    by_cases vendor : x ≠ 0xdd
    · rw [if_pos vendor]
      rfl
    · rw [if_neg vendor]
      rfl

/-! ## The whole search -/

/-- The search passes over the elements it is to pass over. -/
theorem findGtkFrom_passed {before : List Element} (passed : ∀ x ∈ before, x.Passed) :
    ∀ {i : Nat} {tail : List UInt8} (steps : Nat), kd.drop i = elementsBytes before ++ tail →
      findGtkFrom kd (steps + before.length) i =
        findGtkFrom kd steps (i + (elementsBytes before).length) := by
  induction before with
  | nil =>
    intro i tail steps _
    rfl
  | cons e before rest =>
    intro i tail steps here
    rw [elementsBytes_cons, List.append_assoc] at here
    obtain ⟨vendor, long, other⟩ := passed e List.mem_cons_self
    have beyond : kd.drop (i + e.bytes.length) = elementsBytes before ++ tail := by
      rw [← List.drop_drop, here, List.drop_left]
    have turn : ¬ (e.id ≠ 0xdd ∨ e.body.length < 4) := by
      rintro (foreign | short)
      · exact foreign vendor
      · omega
    rw [List.length_cons, ← Nat.add_assoc, findGtkFrom_element bounded here, if_neg turn,
      if_neg other, rest (fun x member => passed x (List.mem_cons_of_mem e member)) steps beyond,
      elementsBytes_cons, List.length_append, Nat.add_assoc]

/-- The first element of the group key's type that the search reaches settles it. -/
theorem findGtkKde_of_reaches {e : Element} (reached : Reaches kd e) (gtk : e.GtkType) :
    findGtkKde kd = e.readKey := by
  obtain ⟨before, rest, passed, whole⟩ := reached
  have fewer := length_le_elementsBytes before
  have size := congrArg List.length whole
  rw [List.length_append, List.length_append, e.length_bytes] at size
  obtain ⟨steps, fuel⟩ : ∃ steps, kd.length + 1 = (steps + 1) + before.length :=
    ⟨kd.length - before.length, by omega⟩
  have here : kd.drop (0 + (elementsBytes before).length) = e.bytes ++ rest := by
    rw [Nat.zero_add]
    exact whole ▸ List.drop_left
  have turn : ¬ (e.id ≠ 0xdd ∨ e.body.length < 4) := by
    rintro (foreign | short)
    · exact foreign gtk.1
    · exact absurd (Element.four_le_of_gtkType gtk) (Nat.not_le.mpr short)
  rw [findGtkKde, fuel, findGtkFrom_passed bounded passed (steps + 1) (i := 0) whole,
    findGtkFrom_element bounded here, if_neg turn, if_pos gtk.2]

/-- The search reaches an element of the group key's type, or finds nothing. -/
theorem findGtkFrom_cases (steps : Nat) : ∀ {i : Nat} {passed : List Element},
    (∀ x ∈ passed, x.Passed) → kd = elementsBytes passed ++ kd.drop i → i ≤ kd.length →
      kd.length < i + steps →
        (∃ e, Reaches kd e ∧ e.GtkType) ∨ findGtkFrom kd steps i = .ok none := by
  induction steps with
  | zero =>
    intro i passed _ _ inside enough
    omega
  | succ steps rest =>
    intro i passed earlier whole inside enough
    by_cases stands : ∃ e rest, kd.drop i = Element.bytes e ++ rest
    · obtain ⟨e, tail, here⟩ := stands
      rw [findGtkFrom_element bounded here]
      by_cases turn : e.id ≠ 0xdd ∨ e.body.length < 4
      · exact Or.inr (if_pos turn)
      rw [if_neg turn]
      rw [not_or, not_not, Nat.not_lt] at turn
      by_cases gtk : e.body.take 4 = gtkType
      · exact Or.inl ⟨e, ⟨passed, tail, earlier, here ▸ whole⟩, turn.1, gtk⟩
      rw [if_neg gtk]
      have size := congrArg List.length here
      rw [List.length_drop, List.length_append, e.length_bytes] at size
      have beyond : kd.drop (i + e.bytes.length) = tail := by
        rw [← List.drop_drop, here, List.drop_left]
      refine @rest _ (passed ++ [e]) ?_ ?_ ?_ ?_
      · intro x member
        rcases List.mem_append.mp member with old | new
        · exact earlier x old
        · exact List.mem_singleton.mp new ▸ ⟨turn.1, turn.2, gtk⟩
      · rw [elementsBytes_append, elementsBytes_cons, beyond, List.append_assoc,
          List.append_assoc]
        exact here ▸ whole
      · rw [e.length_bytes]
        omega
      · rw [e.length_bytes]
        omega
    · refine Or.inr (findGtkFrom_none bounded inside ?_ steps)
      intro e tail here
      exact stands ⟨e, tail, here⟩

/-- The search finds nothing when it reaches no element of the group key's type. -/
theorem findGtkKde_cases :
    (∃ e, Reaches kd e ∧ e.GtkType) ∨ findGtkKde kd = .ok none :=
  @findGtkFrom_cases kd bounded (kd.length + 1) 0 [] (fun _ member => nomatch member) rfl
    (Nat.zero_le _) (by omega)

end Search

/-! ## Which key data is searched as its elements ask -/

/-- Key data that is a sequence of elements, with padding after it, in which `g` is the first
element of a group key: the elements `before` it are those that stand before. -/
def FirstGtk (kd : List UInt8) (before : List Element) (g : Element) : Prop :=
  ∃ after padding, kd = elementsBytes (before ++ g :: after) ++ padding ∧ IsPadding padding ∧
    (∀ x ∈ before, ¬ x.IsGtk) ∧ g.IsGtk

/-- The search returns without reading outside the key data, and returns the key of the first
element of a group key when that key has at most 32 bytes. -/
def FindsGtk (kd : List UInt8) : Prop :=
  (∃ found, findGtkKde kd = .ok found) ∧
    ∀ before g, FirstGtk kd before g → g.key.length ≤ 32 → findGtkKde kd = .ok (some g.key)

/-- No element of the group key's type that the search reaches is too short to hold a key id,
and all elements before the first element of a group key are passed over. -/
def VendorFirst (kd : List UInt8) : Prop :=
  (∀ e, Reaches kd e → e.GtkType → 6 ≤ e.body.length) ∧
    ∀ before g, FirstGtk kd before g → g.key.length ≤ 32 → ∀ x ∈ before, x.Passed

/-- Two ways to split the same bytes at an element of a group key, passed elements before the
one and no group key before the other, are one way. -/
theorem split_unique {e g : Element} (first : e.IsGtk) {passed : List Element}
    (earlier : ∀ x ∈ passed, x.Passed) :
    ∀ {before : List Element} {rest rest' : List UInt8}, (∀ x ∈ before, ¬ x.IsGtk) →
      g.IsGtk → elementsBytes passed ++ (e.bytes ++ rest) =
        elementsBytes before ++ (g.bytes ++ rest') → before = passed ∧ g = e := by
  induction passed with
  | nil =>
    intro before rest rest' none_before _ same
    match before with
    | [] =>
      obtain ⟨rfl, _⟩ := Element.bytes_append_inj same
      exact ⟨rfl, rfl⟩
    | b :: before =>
      rw [elementsBytes_cons, List.append_assoc] at same
      obtain ⟨rfl, _⟩ := Element.bytes_append_inj same
      exact absurd first (none_before e List.mem_cons_self)
  | cons p passed later =>
    intro before rest rest' none_before gtk same
    rw [elementsBytes_cons, List.append_assoc] at same
    match before with
    | [] =>
      obtain ⟨rfl, _⟩ := Element.bytes_append_inj same
      exact absurd gtk.1 (Element.not_gtkType_of_passed (earlier p List.mem_cons_self))
    | b :: before =>
      rw [elementsBytes_cons, List.append_assoc] at same
      obtain ⟨rfl, tails⟩ := Element.bytes_append_inj same
      obtain ⟨rfl, same_gtk⟩ := later
        (fun y inside => earlier y (List.mem_cons_of_mem p inside))
        (fun y inside => none_before y (List.mem_cons_of_mem p inside)) gtk tails
      exact ⟨rfl, same_gtk⟩

theorem firstGtk_split {kd : List UInt8} {before : List Element} {g : Element}
    (first : FirstGtk kd before g) :
    ∃ rest, kd = elementsBytes before ++ (g.bytes ++ rest) := by
  obtain ⟨after, padding, whole, _⟩ := first
  refine ⟨elementsBytes after ++ padding, ?_⟩
  rw [whole, elementsBytes_append, elementsBytes_cons, List.append_assoc, List.append_assoc]

/-- **Where the search for the group key succeeds**: it returns for the key data, with the key
of its first group key element, if and only if it reaches no element of the group key's type
with a body of four or five bytes, and all elements before the first group key are vendor
elements of four bytes or more. An RSN element before the group key hides it. -/
theorem findsGtk_iff {kd : List UInt8} (bounded : kd.length < 2 ^ 63) :
    FindsGtk kd ↔ VendorFirst kd := by
  constructor
  · rintro ⟨⟨found, returns⟩, finds⟩
    refine ⟨?_, ?_⟩
    · intro e reached gtk
      by_contra short
      rw [findGtkKde_of_reaches bounded reached gtk,
        Element.readKey_of_short (Nat.not_le.mp short)] at returns
      cases returns
    · intro before g first fits
      have outcome := finds before g first fits
      obtain ⟨rest, split⟩ := firstGtk_split first
      obtain ⟨_, _, _, _, none_before, gtk⟩ := first
      rcases findGtkKde_cases bounded with ⟨e, reached, type⟩ | nothing
      · have long : e.IsGtk := by
          refine ⟨type, ?_⟩
          by_contra short
          rw [findGtkKde_of_reaches bounded reached type,
            Element.readKey_of_short (Nat.not_le.mp short)] at outcome
          cases outcome
        obtain ⟨passed, tail, earlier, whole⟩ := reached
        obtain ⟨rfl, _⟩ := split_unique long earlier none_before gtk (whole.symm.trans split)
        exact earlier
      · rw [nothing] at outcome
        cases outcome
  · rintro ⟨long, vendors⟩
    refine ⟨?_, ?_⟩
    · rcases findGtkKde_cases bounded with ⟨e, reached, type⟩ | nothing
      · have gtk : e.IsGtk := ⟨type, long e reached type⟩
        exact ⟨_, (findGtkKde_of_reaches bounded reached type).trans
          (Element.readKey_of_isGtk gtk)⟩
      · exact ⟨none, nothing⟩
    · intro before g first fits
      have passed := vendors before g first fits
      obtain ⟨rest, split⟩ := firstGtk_split first
      obtain ⟨_, _, _, _, _, gtk⟩ := first
      rw [findGtkKde_of_reaches bounded ⟨before, rest, passed, split⟩ gtk.1,
        Element.readKey_of_isGtk gtk, List.take_of_length_le fits]

/-- A vendor element and a group key of one byte after it. -/
def vendorThenGtk : List UInt8 :=
  [0xdd, 4, 0x00, 0x0f, 0xac, 0x04] ++ [0xdd, 7, 0x00, 0x0f, 0xac, 0x01, 1, 0, 0xcc]

theorem findsGtk_vendorThenGtk : vendorThenGtk.length < 2 ^ 63 ∧
    (FindsGtk vendorThenGtk ↔ VendorFirst vendorThenGtk) :=
  ⟨by decide, findsGtk_iff (by decide)⟩

/-- An RSN element before the group key. -/
def rsnThenGtk : List UInt8 :=
  elementsBytes [⟨0x30, [1, 0], by decide⟩, ⟨0xdd, [0x00, 0x0f, 0xac, 0x01, 1, 0, 0xcc], by decide⟩]

/-- The search does not find the group key behind an RSN element, and it reads outside key data
whose element of the group key's type has four bytes. -/
theorem not_findsGtk_rsnThenGtk : ¬ FindsGtk rsnThenGtk ∧
    findGtkKde rsnThenGtk = .ok none ∧
      findGtkKde [0xdd, 4, 0x00, 0x0f, 0xac, 0x01] = fault := by
  refine ⟨?_, by decide, by decide⟩
  rintro ⟨_, finds⟩
  have found := finds [⟨0x30, [1, 0], by decide⟩]
    ⟨0xdd, [0x00, 0x0f, 0xac, 0x01, 1, 0, 0xcc], by decide⟩
    ⟨[], [], rfl, Or.inl rfl, ?_, ⟨⟨rfl, rfl⟩, by decide⟩⟩ (by decide)
  · exact absurd found (by decide)
  · intro x member
    rw [List.mem_singleton.mp member]
    rintro ⟨⟨vendor, _⟩, _⟩
    exact absurd vendor (by decide)

end RustyPenguin.Wpa2
