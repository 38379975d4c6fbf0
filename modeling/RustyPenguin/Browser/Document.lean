import RustyPenguin.Browser.Html

/-!
# Documents

What a page is as a document: text with elements in it, properly nested. The content of an element
alternates between text and tags, so that a text is everything between one tag and the next. Void
elements have no content, and a script or a style sheet has bytes that are not read as HTML.

`Content.visible` says what of a document is to be seen: the texts outside of `head`, `script`,
`style` and `noscript`, in their order, each with the heading and the link that it is in.
-/

set_option autoImplicit false

namespace RustyPenguin.Browser

open Files (Bytes asBytes)
open Foundation (Text splitWhitespace)

/-! ## Trees -/

/-- The references that the browser supports. -/
inductive Entity where
  | amp
  | lt
  | gt
  | nbsp
  | quot
  | apos
  deriving DecidableEq, Repr

/-- A piece of text as it is written: a character, or a reference for one. -/
inductive Piece where
  | char (c : Char)
  | entity (e : Entity)
  deriving DecidableEq, Repr

/-- The name and the attributes of an element. A value is given as it stands between the quotes. -/
structure Tag where
  name : Bytes
  attrs : List (Bytes × Bytes)
  deriving DecidableEq, Repr

/-- Text with elements in it: a text, then nothing more, or an element and the rest. -/
inductive Content where
  | text (t : List Piece)
  | elem (t : List Piece) (tag : Tag) (inner after : Content)
  | void (t : List Piece) (tag : Tag) (after : Content)
  | raw (t : List Piece) (tag : Tag) (body : Bytes) (after : Content)
  deriving DecidableEq, Repr

/-- What the name of an element stands for, in either case. -/
def Tag.kind (tag : Tag) : TagKind := tagKind (tag.name.map toAsciiLowercase)

/-! ## Writing -/

def Entity.bytes : Entity → Bytes
  | .amp => asBytes "&amp;"
  | .lt => asBytes "&lt;"
  | .gt => asBytes "&gt;"
  | .nbsp => asBytes "&nbsp;"
  | .quot => asBytes "&quot;"
  | .apos => asBytes "&#39;"

def Piece.bytes : Piece → Bytes
  | .char c => String.utf8EncodeChar c
  | .entity e => e.bytes

def textBytes (t : List Piece) : Bytes := t.flatMap Piece.bytes

/-- An attribute, with a space before it. -/
def attrBytes (attr : Bytes × Bytes) : Bytes := 0x20 :: attr.1 ++ [0x3D, 0x22] ++ attr.2 ++ [0x22]

/-- What stands between the angle brackets of a start tag. -/
def Tag.bytes (tag : Tag) : Bytes := tag.name ++ tag.attrs.flatMap attrBytes

def Tag.open (tag : Tag) : Bytes := 0x3C :: tag.bytes ++ [0x3E]

def Tag.close (tag : Tag) : Bytes := 0x3C :: 0x2F :: tag.name ++ [0x3E]

/-- The bytes of a document. -/
def Content.bytes : Content → Bytes
  | text t => textBytes t
  | elem t tag inner after => textBytes t ++ tag.open ++ inner.bytes ++ tag.close ++ after.bytes
  | void t tag after => textBytes t ++ tag.open ++ after.bytes
  | raw t tag body after => textBytes t ++ tag.open ++ body ++ tag.close ++ after.bytes

@[simp] theorem Content.bytes_elem (t : List Piece) (tag : Tag) (inner after : Content) :
    (elem t tag inner after).bytes =
      textBytes t ++ tag.open ++ inner.bytes ++ tag.close ++ after.bytes := rfl

@[simp] theorem Content.bytes_void (t : List Piece) (tag : Tag) (after : Content) :
    (void t tag after).bytes = textBytes t ++ tag.open ++ after.bytes := rfl

@[simp] theorem Content.bytes_raw (t : List Piece) (tag : Tag) (body : Bytes) (after : Content) :
    (raw t tag body after).bytes =
      textBytes t ++ tag.open ++ body ++ tag.close ++ after.bytes := rfl

/-! ## Well-formed documents -/

/-- A letter, a digit or a hyphen. -/
def isNameByte (b : UInt8) : Bool :=
  (0x61 ≤ b && b ≤ 0x7A) || (0x41 ≤ b && b ≤ 0x5A) || (0x30 ≤ b && b ≤ 0x39) || b == 0x2D

/-- A character that needs no reference. -/
def Piece.Ok : Piece → Prop
  | .char c => c ≠ '<' ∧ c ≠ '&'
  | .entity _ => True

/-- The names are names, and no value holds a quote or a closing bracket. -/
structure Tag.Ok (tag : Tag) : Prop where
  nonempty : tag.name ≠ []
  name : ∀ b ∈ tag.name, isNameByte b
  attrs : ∀ attr ∈ tag.attrs, (∀ b ∈ attr.1, isNameByte b) ∧ ∀ b ∈ attr.2, b ≠ 0x22 ∧ b ≠ 0x3E

def voidNames : List Bytes :=
  ["area", "base", "br", "col", "embed", "hr", "img", "input", "link", "meta", "source", "track",
    "wbr"].map asBytes

def rawNames : List Bytes := ["script", "style"].map asBytes

def Tag.IsVoid (tag : Tag) : Prop := tag.name.map toAsciiLowercase ∈ voidNames

def Tag.IsRaw (tag : Tag) : Prop := tag.name.map toAsciiLowercase ∈ rawNames

/-- The elements are what their names say. -/
def Content.WellFormed : Content → Prop
  | text t => ∀ p ∈ t, p.Ok
  | elem t tag inner after =>
    (∀ p ∈ t, p.Ok) ∧ tag.Ok ∧ ¬tag.IsVoid ∧ ¬tag.IsRaw ∧ inner.WellFormed ∧ after.WellFormed
  | void t tag after => (∀ p ∈ t, p.Ok) ∧ tag.Ok ∧ tag.IsVoid ∧ after.WellFormed
  | raw t tag _ after => (∀ p ∈ t, p.Ok) ∧ tag.Ok ∧ tag.IsRaw ∧ after.WellFormed

instance : DecidablePred Piece.Ok
  | .char _ => inferInstanceAs (Decidable (_ ∧ _))
  | .entity _ => .isTrue trivial

instance (tag : Tag) : Decidable tag.Ok :=
  decidable_of_iff (tag.name ≠ [] ∧ (∀ b ∈ tag.name, isNameByte b) ∧
      ∀ attr ∈ tag.attrs, (∀ b ∈ attr.1, isNameByte b) ∧ ∀ b ∈ attr.2, b ≠ 0x22 ∧ b ≠ 0x3E)
    ⟨fun ⟨nonempty, name, attrs⟩ => ⟨nonempty, name, attrs⟩,
      fun ⟨nonempty, name, attrs⟩ => ⟨nonempty, name, attrs⟩⟩

instance (tag : Tag) : Decidable tag.IsVoid := inferInstanceAs (Decidable (_ ∈ voidNames))

instance (tag : Tag) : Decidable tag.IsRaw := inferInstanceAs (Decidable (_ ∈ rawNames))

instance Content.decidableWellFormed : (c : Content) → Decidable c.WellFormed
  | text t => inferInstanceAs (Decidable (∀ p ∈ t, p.Ok))
  | elem _ _ inner after =>
    have := inner.decidableWellFormed
    have := after.decidableWellFormed
    inferInstanceAs (Decidable (_ ∧ _))
  | void _ _ after =>
    have := after.decidableWellFormed
    inferInstanceAs (Decidable (_ ∧ _))
  | raw _ _ _ after =>
    have := after.decidableWellFormed
    inferInstanceAs (Decidable (_ ∧ _))

/-! ## What is to be seen -/

/-- The character a reference is for. A no-break space is a space. -/
def Entity.char : Entity → Char
  | .amp => '&'
  | .lt => '<'
  | .gt => '>'
  | .nbsp => ' '
  | .quot => '"'
  | .apos => '\''

def Piece.decoded : Piece → Char
  | .char c => c
  | .entity e => e.char

def decoded (t : List Piece) : Text := t.map Piece.decoded

/-- The heading and the link that a text is in. -/
structure Mark where
  heading : Option Nat
  link : Bool
  deriving DecidableEq, Repr

def Mark.enter (m : Mark) : TagKind → Mark
  | .heading level => { m with heading := some level }
  | .link => { m with link := true }
  | _ => m

/-- The texts that are to be seen, in their order. -/
def Content.visible (m : Mark) : Content → List (Mark × Text)
  | text t => [(m, decoded t)]
  | elem t tag inner after =>
    (m, decoded t) ::
      (if tag.kind = .hidden then [] else inner.visible (m.enter tag.kind)) ++ after.visible m
  | void t _ after => (m, decoded t) :: after.visible m
  | raw t _ _ after => (m, decoded t) :: after.visible m

theorem Content.visible_elem (m : Mark) (t : List Piece) (tag : Tag) (inner after : Content) :
    (elem t tag inner after).visible m = (m, decoded t) ::
      (if tag.kind = .hidden then [] else inner.visible (m.enter tag.kind)) ++ after.visible m :=
  rfl

theorem Content.visible_void (m : Mark) (t : List Piece) (tag : Tag) (after : Content) :
    (void t tag after).visible m = (m, decoded t) :: after.visible m := rfl

theorem Content.visible_raw (m : Mark) (t : List Piece) (tag : Tag) (body : Bytes)
    (after : Content) : (raw t tag body after).visible m = (m, decoded t) :: after.visible m := rfl

/-! ## What is shown -/

/-- What a node shows a text as. -/
inductive Shown where
  | heading (level : Nat)
  | link
  | plain
  deriving DecidableEq, Repr

/-- The text of a node and what it is shown as. -/
def HNode.shown : HNode → Option (Shown × Text)
  | h1 text => some (.heading 1, text)
  | h2 text => some (.heading 2, text)
  | h3 text => some (.heading 3, text)
  | para text => some (.plain, text)
  | link text _ => some (.link, text)
  | li text => some (.plain, text)
  | input _ | hr | blank => none

/-- What a text is to be shown as. No node shows a text as both a heading's and a link's. -/
def Mark.shown : Mark → Option Shown
  | ⟨some level, false⟩ => some (.heading level)
  | ⟨none, true⟩ => some .link
  | ⟨none, false⟩ => some .plain
  | ⟨some _, true⟩ => none

/-- The words of the texts that the browser shows, node by node. -/
def shownText (nodes : List HNode) : List (Option Shown × List Text) :=
  (nodes.filterMap HNode.shown).map fun shown => (some shown.1, splitWhitespace shown.2)

/-- The words of the texts that are to be seen, without the texts that are white space. -/
def expectedText (doc : Content) : List (Option Shown × List Text) :=
  ((doc.visible ⟨none, false⟩).map fun run => (run.1.shown, splitWhitespace run.2)).filter
    fun run => run.2 ≠ []

/-- **The page shows the document's text**: text by text the words are the document's, in its order,
and a heading's and a link's text is shown as one. -/
def TextShown (doc : Content) : Prop := shownText (parseHtml doc.bytes) = expectedText doc

instance (doc : Content) : Decidable (TextShown doc) :=
  inferInstanceAs (Decidable (shownText (parseHtml doc.bytes) = expectedText doc))

end RustyPenguin.Browser
