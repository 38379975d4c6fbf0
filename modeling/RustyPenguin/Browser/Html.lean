import RustyPenguin.Files.Store
import RustyPenguin.Foundation.Spaces

/-!
# The page reader of the browser

The browser turns the bytes of a page into a list of nodes to draw. One loop reads the bytes with a
few flags: whether it is in a tag, whether it is in a section that is not shown, and in which
heading, link, list item or preformatted block. The text since the last tag is in a buffer, and
becomes a node when the next tag starts.
-/

set_option autoImplicit false

namespace RustyPenguin.Browser

open Files (Bytes asBytes fromUtf8)
open Foundation (Text trim isAsciiWhitespace)

/-! ## Nodes -/

/-- What is drawn. -/
inductive HNode where
  | h1 (text : Text)
  | h2 (text : Text)
  | h3 (text : Text)
  | para (text : Text)
  | link (text href : Text)
  | input (placeholder : Text)
  | li (text : Text)
  | hr
  | blank
  deriving DecidableEq, Repr

def HNode.isBlank (node : HNode) : Bool := node = .blank

/-! ## Attributes and white space -/

/-- The value of an attribute whose name a tag starts with. -/
def attrHere (attr tag : Bytes) : Option Bytes :=
  let after := tag.drop attr.length
  if attr.isPrefixOf tag ∧ (after.head? = some 0x3D ∨ (asBytes " =").isPrefixOf after) then
    let eq := (after.idxOf? 0x3D).getD 0
    match after.drop (eq + 1) with
    | [] => none
    | q :: rest =>
      if q = 0x22 ∨ q = 0x27 then some (rest.takeWhile fun b => b ≠ q)
      else some ((q :: rest).takeWhile fun b => b ≠ 0x20 ∧ b ≠ 0x3E)
  else none

/-- `html_attr`. -/
def htmlAttr (attr : Bytes) : (tag : Bytes) → Bytes
  | [] => []
  | b :: rest =>
    if attr.length < (b :: rest).length then
      match attrHere attr (b :: rest) with
      | some value => value
      | none => htmlAttr attr rest
    else []

/-- One character of `collapse_ws`: the text so far and whether it ends in white space. -/
def collapseStep (state : Text × Bool) (ch : Char) : Text × Bool :=
  if isAsciiWhitespace ch then
    if state.2 then state else (state.1 ++ [' '], true)
  else (state.1 ++ [ch], false)

/-- `collapse_ws`. -/
def collapseWs (s : Text) : Text :=
  let out := (s.foldl collapseStep ([], true)).1
  if out.getLast? = some ' ' then out.dropLast else out

def toAsciiLowercase (b : UInt8) : UInt8 := if 0x41 ≤ b ∧ b ≤ 0x5A then b + 0x20 else b

/-! ## Tags -/

/-- What the loop does with the name of a tag. -/
inductive TagKind where
  | hidden
  | heading (level : Nat)
  | link
  | listItem
  | pre
  | input
  | hr
  | br
  | block
  | cell
  | other
  deriving DecidableEq, Repr

def hiddenNames : List Bytes := ["script", "style", "head", "noscript"].map asBytes
def blockNames : List Bytes :=
  ["p", "div", "section", "article", "main", "header", "footer", "nav"].map asBytes
def cellNames : List Bytes := ["td", "th", "tr"].map asBytes

theorem any_eq_iff (name : Bytes) (names : List Bytes) :
    names.any (fun other => decide (other = name)) = true ↔ name ∈ names := by
  simp

local instance decidableNamed (name : Bytes) (names : List Bytes) : Decidable (name ∈ names) :=
  decidable_of_iff _ (any_eq_iff name names)

def tagKind (name : Bytes) : TagKind :=
  if name ∈ hiddenNames then .hidden
  else if name = asBytes "h1" then .heading 1
  else if name = asBytes "h2" then .heading 2
  else if name = asBytes "h3" then .heading 3
  else if name = asBytes "a" then .link
  else if name = asBytes "li" then .listItem
  else if name = asBytes "pre" then .pre
  else if name = asBytes "input" then .input
  else if name = asBytes "hr" then .hr
  else if name = asBytes "br" then .br
  else if name ∈ blockNames then .block
  else if name ∈ cellNames then .cell
  else .other

def isClose (tag : Bytes) : Bool := tag.head? = some 0x2F

/-- The name of a tag is in at most 16 bytes. -/
def tagName (tag : Bytes) : Bytes :=
  (((if isClose tag then tag.tail else tag).takeWhile fun c =>
    c ≠ 0x20 ∧ c ≠ 0x09 ∧ c ≠ 0x2F ∧ c ≠ 0x0A).take 16).map toAsciiLowercase

/-! ## The loop -/

/-- The variables of the loop. -/
structure Parser where
  nodes : List HNode
  buf : Bytes
  tagBuf : Bytes
  inTag : Bool
  skipDepth : Nat
  ctxH : Nat
  inLink : Bool
  linkHref : Bytes
  inLi : Bool
  inPre : Bool
  deriving DecidableEq

namespace Parser

/-- `from_utf8(..).unwrap_or("")`. -/
def textOf (bytes : Bytes) : Text := ((fromUtf8 bytes).getD "").toList

/-- The node of a text, by the flags. -/
def nodeOf (s : Parser) (text : Text) : HNode :=
  if s.ctxH = 1 then .h1 text
  else if s.ctxH = 2 then .h2 text
  else if s.ctxH = 3 then .h3 text
  else if s.inLink then .link text (textOf s.linkHref)
  else if s.inLi then .li text
  else .para text

/-- `flush!`. -/
def flush (s : Parser) : Parser :=
  if s.buf.isEmpty then s
  else
    let text := collapseWs (trim (textOf s.buf))
    { s with
      nodes := if text.isEmpty then s.nodes else s.nodes ++ [s.nodeOf text]
      buf := [] }

/-- A blank line, unless there is one or nothing is drawn yet. -/
def pushBlank (s : Parser) : Parser :=
  match s.nodes.getLast? with
  | none | some .blank => s
  | some _ => { s with nodes := s.nodes ++ [.blank] }

def closeTag (s : Parser) : TagKind → Parser
  | .link => { s.flush with inLink := false, linkHref := [] }
  | .listItem => { s.flush with inLi := false }
  | .heading _ => { s.flush with ctxH := 0 }
  | .pre => { s with inPre := false }
  | .block | .cell => s.flush.pushBlank
  | _ => s

/-- A field to type in, unless it is not one. -/
def pushInput (s : Parser) (tag : Bytes) : Parser :=
  let type := (htmlAttr (asBytes "type") tag).map toAsciiLowercase
  if type = asBytes "hidden" ∨ type = asBytes "submit" then s
  else
    let ph := ((fromUtf8 (htmlAttr (asBytes "placeholder") tag)).getD "Search").toList
    { s with nodes := s.nodes ++ [.input (if ph.isEmpty then "Search".toList else ph)] }

def openTag (s : Parser) (tag : Bytes) : TagKind → Parser
  | .hidden => { s with skipDepth := s.skipDepth + 1 }
  | .heading level => { s.flush with ctxH := level, buf := [] }
  | .link => { s.flush with inLink := true, buf := [], linkHref := htmlAttr (asBytes "href") tag }
  | .input => s.pushInput tag
  | .hr => { s.flush with nodes := s.flush.nodes ++ [.hr] }
  | .br => s.flush
  | .listItem => { s.flush with inLi := true, buf := [] }
  | .pre => { s with inPre := true }
  | .block => s.flush
  | .cell | .other => s

/-- The tag closes a section that is not shown. -/
def closesHidden (tag : Bytes) : Bool := isClose tag ∧ tagKind (tagName tag) = .hidden

/-- The end of a tag. -/
def endTag (s : Parser) : Parser :=
  let s := { s with inTag := false }
  if 0 < s.skipDepth then
    if closesHidden s.tagBuf then { s with skipDepth := s.skipDepth - 1 } else s
  else if isClose s.tagBuf then s.closeTag (tagKind (tagName s.tagBuf))
  else s.openTag s.tagBuf (tagKind (tagName s.tagBuf))

/-- The character of a reference that `rest` starts with, and how many bytes it takes. -/
def entity (rest : Bytes) : UInt8 × Nat :=
  if (asBytes "&amp;").isPrefixOf rest then (0x26, 5)
  else if (asBytes "&lt;").isPrefixOf rest then (0x3C, 4)
  else if (asBytes "&gt;").isPrefixOf rest then (0x3E, 4)
  else if (asBytes "&nbsp;").isPrefixOf rest then (0x20, 6)
  else if (asBytes "&quot;").isPrefixOf rest then (0x22, 6)
  else if (asBytes "&#39;").isPrefixOf rest then (0x27, 5)
  else if rest[1]? = some 0x23 then
    match rest.idxOf? 0x3B with
    | some p => (0x20, p + 1)
    | none => (0x26, 1)
  else (0x26, 1)

/-- A byte of text that is not part of a reference. -/
def pushByte (s : Parser) (b : UInt8) : Parser :=
  if b = 0x0D then s
  else if s.inPre then { s with buf := s.buf ++ [b] }
  else if b = 0x0A ∨ b = 0x09 then
    if s.buf ≠ [] ∧ s.buf.getLast? ≠ some 0x20 then { s with buf := s.buf ++ [0x20] } else s
  else { s with buf := s.buf ++ [b] }

/-- One turn of the loop at a byte and what follows it, and how many bytes it takes. -/
def step (s : Parser) (b : UInt8) (rest : Bytes) : Parser × Nat :=
  if b = 0x3C ∧ !s.inPre then
    let s := if s.skipDepth = 0 then s.flush else s
    ({ s with inTag := true, tagBuf := [] }, 1)
  else if b = 0x3E ∧ s.inTag then (s.endTag, 1)
  else if s.inTag then ({ s with tagBuf := s.tagBuf ++ [b] }, 1)
  else if 0 < s.skipDepth then (s, 1)
  else if b = 0x26 then
    let (ch, len) := entity (b :: rest)
    (if ch ≠ 0 then { s with buf := s.buf ++ [ch] } else s, len)
  else (s.pushByte b, 1)

/-- The loop. The next `taken` bytes were taken before. -/
def loop (s : Parser) : (taken : Nat) → (html : Bytes) → Parser
  | _, [] => s
  | taken + 1, _ :: rest => loop s taken rest
  | 0, b :: rest => loop (s.step b rest).1 ((s.step b rest).2 - 1) rest

end Parser

/-- A run of blank lines is one blank line. -/
def collapseBlanks : List HNode → List HNode
  | [] => []
  | node :: rest =>
    match collapseBlanks rest with
    | .blank :: others => if node.isBlank then .blank :: others else node :: .blank :: others
    | others => node :: others

def start : Parser := ⟨[], [], [], false, 0, 0, false, [], false, false⟩

/-- `parse_html`. -/
def parseHtml (html : Bytes) : List HNode :=
  collapseBlanks ((start.loop 0 html).flush.nodes.dropWhile HNode.isBlank)

end RustyPenguin.Browser
