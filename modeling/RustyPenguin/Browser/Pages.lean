import RustyPenguin.Browser.Reading

/-!
# The text of a page

The page reader keeps flags and counters where a document has nesting. The closing tag of any
section that is not shown ends the one that the reader is in, the closing tag of any heading or link
ends the heading or the link, and behind the start of a preformatted block no tag is read any more.
A document is tame when none of this matters: `Content.Tame`. Of a tame document the reader shows
all the text there is to be seen, and nothing else (`textShown_of_tame`).

Within a section that is not shown it is followed whether the reader still skips. `Content.Silent`
says that nothing comes to light there: where the reader has stopped to skip, there is only white
space, and no tag of a heading, a link or a preformatted block.
-/

set_option autoImplicit false

namespace RustyPenguin.Browser

open Files (Bytes asBytes)
open Foundation

/-! ## Tame documents -/

/-- The tag does not touch what text is shown as. -/
def TagKind.Neutral : TagKind → Prop
  | .heading _ | .link | .pre => False
  | _ => True

/-- The tag may stand where text is shown as the mark has it. -/
def TagKind.Fits (m : Mark) : TagKind → Prop
  | .heading _ | .link => m = ⟨none, false⟩
  | .pre => False
  | _ => True

namespace Content

/-- Whether the reader skips behind the content. -/
def endsSkipping : (skipping : Bool) → Content → Bool
  | sk, text _ => sk
  | sk, elem _ tag inner after =>
    after.endsSkipping
      (inner.endsSkipping (sk || decide (tag.kind = .hidden)) && !decide (tag.kind = .hidden))
  | sk, void _ _ after => after.endsSkipping sk
  | _, raw _ _ _ after => after.endsSkipping false

/-- Nothing of the content of a hidden section comes to light. -/
def Silent : (skipping : Bool) → Content → Prop
  | sk, text t => sk = false → Blank t
  | sk, elem t tag inner after =>
    (sk = false → Blank t ∧ tag.kind.Neutral) ∧ tag.Plain ∧
      inner.Silent (sk || decide (tag.kind = .hidden)) ∧
      (inner.endsSkipping (sk || decide (tag.kind = .hidden)) = false → tag.kind.Neutral) ∧
      after.Silent
        (inner.endsSkipping (sk || decide (tag.kind = .hidden)) && !decide (tag.kind = .hidden))
  | sk, void t tag after => (sk = false → Blank t) ∧ tag.Plain ∧ after.Silent sk
  | sk, raw t tag body after =>
    (sk = false → Blank t) ∧ tag.Plain ∧ quiet false [] body ∧ after.Silent false

/-- The reader's flags agree with the nesting. -/
def Tame (m : Mark) : Content → Prop
  | text t => Joined t
  | elem t tag inner after =>
    Joined t ∧ tag.Plain ∧ tag.kind.Fits m ∧
      (if tag.kind = .hidden then inner.Silent true else inner.Tame (m.enter tag.kind)) ∧
      after.Tame m
  | void t tag after => Joined t ∧ tag.Plain ∧ after.Tame m
  | raw t tag body after => Joined t ∧ tag.Plain ∧ quiet false [] body ∧ after.Tame m

end Content

instance (t : List Piece) : Decidable (Joined t) :=
  inferInstanceAs (Decidable (splitWhitespace _ = splitWhitespace _))

instance (t : List Piece) : Decidable (Blank t) :=
  inferInstanceAs (Decidable (splitWhitespace _ = []))

instance (tag : Tag) : Decidable tag.Plain :=
  inferInstanceAs (Decidable (∀ attr ∈ tag.attrs, ∀ b ∈ attr.2, b ≠ 0x3C))

instance : DecidablePred TagKind.Neutral
  | .heading _ | .link | .pre => .isFalse id
  | .hidden | .listItem | .input | .hr | .br | .block | .cell | .other => .isTrue trivial

instance (m : Mark) : DecidablePred (TagKind.Fits m)
  | .heading _ | .link => inferInstanceAs (Decidable (m = _))
  | .pre => .isFalse id
  | .hidden | .listItem | .input | .hr | .br | .block | .cell | .other => .isTrue trivial

instance Content.decidableSilent : (sk : Bool) → (c : Content) → Decidable (c.Silent sk)
  | sk, text t => inferInstanceAs (Decidable (sk = false → Blank t))
  | sk, elem _ tag inner after =>
    have := inner.decidableSilent (sk || decide (tag.kind = .hidden))
    have := after.decidableSilent
      (inner.endsSkipping (sk || decide (tag.kind = .hidden)) && !decide (tag.kind = .hidden))
    inferInstanceAs (Decidable (_ ∧ _))
  | sk, void _ _ after =>
    have := after.decidableSilent sk
    inferInstanceAs (Decidable (_ ∧ _))
  | _, raw _ _ _ after =>
    have := after.decidableSilent false
    inferInstanceAs (Decidable (_ ∧ _))

instance Content.decidableTame : (m : Mark) → (c : Content) → Decidable (c.Tame m)
  | _, text t => inferInstanceAs (Decidable (Joined t))
  | m, elem _ tag inner after =>
    have := inner.decidableSilent true
    have := inner.decidableTame (m.enter tag.kind)
    have := after.decidableTame m
    inferInstanceAs (Decidable (_ ∧ _))
  | m, void _ _ after =>
    have := after.decidableTame m
    inferInstanceAs (Decidable (_ ∧ _))
  | m, raw _ _ _ after =>
    have := after.decidableTame m
    inferInstanceAs (Decidable (_ ∧ _))

/-! ## Where the reader stands -/

/-- The reader is outside of tags, with the mark's flags and a text in its buffer. -/
structure Reads (s : Parser) (m : Mark) (skipping : Bool) (b : Text) : Prop where
  outside : s.inTag = false
  notPre : s.inPre = false
  depth : s.skipDepth = skipping.toNat
  holds : s.buf = utf8 b
  heading : s.ctxH = m.heading.getD 0
  link : s.inLink = m.link
  level : ∀ k, m.heading = some k → k = 1 ∨ k = 2 ∨ k = 3

/-- What a text adds to what is shown. -/
def entry (m : Mark) (b : Text) : List (Option Shown × List Text) :=
  [(m.shown, splitWhitespace b)].filter fun run => run.2 ≠ []

theorem entry_of_blank (m : Mark) {b : Text} (blank : splitWhitespace b = []) : entry m b = [] := by
  rw [entry, blank]
  rfl

theorem entry_of_words (m : Mark) {b : Text} (some : splitWhitespace b ≠ []) :
    entry m b = [(m.shown, splitWhitespace b)] :=
  List.filter_cons_of_pos (p := fun run : Option Shown × List Text => decide (run.2 ≠ []))
    (decide_eq_true some)

theorem entry_congr (m : Mark) {b b' : Text} (same : splitWhitespace b = splitWhitespace b') :
    entry m b = entry m b' := by
  rw [entry, entry, same]

theorem shownText_append (nodes others : List HNode) :
    shownText (nodes ++ others) = shownText nodes ++ shownText others := by
  rw [shownText, List.filterMap_append, List.map_append]
  rfl

theorem shownText_singleton {node : HNode} {k : Shown} {text : Text}
    (shown : node.shown = some (k, text)) :
    shownText [node] = [(some k, splitWhitespace text)] := by
  rw [shownText, List.filterMap_cons_some shown]
  rfl

/-- What is expected of content. -/
def expected (m : Mark) (c : Content) : List (Option Shown × List Text) :=
  ((c.visible m).map fun run => (run.1.shown, splitWhitespace run.2)).filter fun run => run.2 ≠ []

theorem expected_text (m : Mark) (t : List Piece) :
    expected m (.text t) = entry m (decoded t) := rfl

theorem expected_void (m : Mark) (t : List Piece) (tag : Tag) (after : Content) :
    expected m (.void t tag after) = entry m (decoded t) ++ expected m after := by
  rw [expected, Content.visible_void, List.map_cons, ← List.singleton_append, List.filter_append]
  rfl

theorem expected_raw (m : Mark) (t : List Piece) (tag : Tag) (body : Bytes) (after : Content) :
    expected m (.raw t tag body after) = entry m (decoded t) ++ expected m after := by
  rw [expected, Content.visible_raw, List.map_cons, ← List.singleton_append, List.filter_append]
  rfl

theorem expected_elem (m : Mark) (t : List Piece) (tag : Tag) (inner after : Content) :
    expected m (.elem t tag inner after) = entry m (decoded t) ++
      ((if tag.kind = .hidden then [] else expected (m.enter tag.kind) inner) ++
        expected m after) := by
  rw [expected, Content.visible_elem, List.map_append, List.map_cons, ← List.singleton_append,
    List.append_assoc, List.filter_append, List.filter_append]
  refine congrArg (entry m (decoded t) ++ ·) (congrArg (· ++ _) ?_)
  split
  · rfl
  · rfl

namespace Reads

variable {s : Parser} {m : Mark} {b : Text} {rest : Bytes}

/-- A text is read. -/
theorem text (reads : Reads s m false b) {t : List Piece} (ok : ∀ p ∈ t, p.Ok) (rest : Bytes) :
    ∃ s', s.loop 0 (textBytes t ++ rest) = s'.loop 0 rest ∧ Reads s' m false (pushText b t) ∧
      s'.nodes = s.nodes :=
  ⟨{ s with buf := utf8 (pushText b t) },
    Parser.loop_text reads.outside reads.depth reads.notPre reads.holds ok rest,
    { reads with holds := rfl }, rfl⟩

/-- The node of a text shows it as the mark has it. -/
theorem shown_nodeOf (reads : Reads s m false b) {k : Shown} (shows : m.shown = some k)
    (text : Text) : (s.nodeOf text).shown = some (k, text) := by
  have heading := reads.heading
  have link := reads.link
  match m, shows with
  | ⟨some level, false⟩, shows =>
    cases shows
    rw [Parser.nodeOf, heading]
    rcases reads.level level rfl with rfl | rfl | rfl <;> rfl
  | ⟨none, true⟩, shows =>
    cases shows
    rw [Parser.nodeOf, heading, link]
    rfl
  | ⟨none, false⟩, shows =>
    cases shows
    rw [Parser.nodeOf, heading, link]
    cases s.inLi <;> rfl

/-- **Flushing** shows the words in the buffer. -/
theorem flush (reads : Reads s m false b) (shows : m.shown.isSome ∨ splitWhitespace b = []) :
    Reads s.flush m false [] ∧ shownText s.flush.nodes = shownText s.nodes ++ entry m b := by
  by_cases empty : b = []
  · have same : s.flush = s := by
      rw [Parser.flush, reads.holds, empty]
      rfl
    rw [same, entry_of_blank m (by rw [empty, splitWhitespace_nil]), List.append_nil]
    exact ⟨empty ▸ reads, rfl⟩
  · have some : ¬s.buf.isEmpty := by
      rw [List.isEmpty_iff, reads.holds]
      exact utf8_ne_nil empty
    have text : Parser.textOf s.buf = b := by rw [reads.holds, textOf_utf8]
    rw [Parser.flush, if_neg some, text]
    refine ⟨{ reads with holds := rfl }, ?_⟩
    dsimp only
    by_cases blank : splitWhitespace b = []
    · rw [collapseWs_trim_eq_nil.mpr blank, entry_of_blank m blank, List.append_nil]
      rfl
    · obtain ⟨k, shows⟩ := Option.isSome_iff_exists.mp (shows.resolve_right blank)
      have words : ¬(collapseWs (trim b)).isEmpty := by
        rw [List.isEmpty_iff, collapseWs_trim_eq_nil]
        exact blank
      rw [if_neg words, shownText_append, shownText_singleton (reads.shown_nodeOf shows _),
        entry_of_words m blank, shows, splitWhitespace_collapseWs, splitWhitespace_trim]

/-- Nothing is in the buffer to be flushed. -/
theorem flush_eq (reads : Reads s m false []) : s.flush = s := by
  rw [Parser.flush, reads.holds]
  rfl

end Reads

/-! ## Tags -/

/-- The headings are of the first three levels. -/
def TagKind.Leveled (k : TagKind) : Prop := ∀ level, k = .heading level →
  level = 1 ∨ level = 2 ∨ level = 3

theorem leveled_ite {c : Prop} {_ : Decidable c} {k k' : TagKind} (first : k.Leveled)
    (other : k'.Leveled) : (if c then k else k').Leveled := by
  split
  · exact first
  · exact other

theorem leveled_tagKind (name : Bytes) : (tagKind name).Leveled := by
  have flat : ∀ k : TagKind, (∀ level, k ≠ .heading level) → k.Leveled := fun k not level same =>
    absurd same (not level)
  have heading : ∀ l, l = 1 ∨ l = 2 ∨ l = 3 → (TagKind.heading l).Leveled := by
    rintro l known level same
    cases same
    exact known
  refine leveled_ite (flat _ nofun) (leveled_ite (heading 1 (by decide))
    (leveled_ite (heading 2 (by decide)) (leveled_ite (heading 3 (by decide)) ?_)))
  refine leveled_ite (flat _ nofun) (leveled_ite (flat _ nofun) (leveled_ite (flat _ nofun)
    (leveled_ite (flat _ nofun) ?_)))
  exact leveled_ite (flat _ nofun) (leveled_ite (flat _ nofun) (leveled_ite (flat _ nofun)
    (leveled_ite (flat _ nofun) (flat _ nofun))))

theorem TagKind.Neutral.enter {k : TagKind} (neutral : k.Neutral) (m : Mark) : m.enter k = m := by
  cases k with
  | heading level => exact neutral.elim
  | link => exact neutral.elim
  | _ => rfl

theorem TagKind.Neutral.fits {k : TagKind} (neutral : k.Neutral) (m : Mark) : k.Fits m := by
  cases k with
  | heading level => exact neutral.elim
  | link => exact neutral.elim
  | pre => exact neutral.elim
  | _ => trivial

/-- A mark with a place to be shown keeps one behind a tag that fits. -/
theorem TagKind.Fits.shown {k : TagKind} {m : Mark} (fits : k.Fits m) (shows : m.shown.isSome) :
    (m.enter k).shown.isSome := by
  cases k with
  | heading level =>
    have here : m = ⟨none, false⟩ := fits
    rw [here]
    rfl
  | link =>
    have here : m = ⟨none, false⟩ := fits
    rw [here]
    rfl
  | _ => exact shows

namespace Reads

variable {s : Parser} {m : Mark} {b : Text} {rest : Bytes}

theorem pushInput (reads : Reads s m false []) (tag : Bytes) :
    Reads (s.pushInput tag) m false [] ∧ shownText (s.pushInput tag).nodes = shownText s.nodes := by
  rw [Parser.pushInput]
  dsimp only
  split
  · exact ⟨reads, rfl⟩
  · refine ⟨{ reads with holds := reads.holds }, ?_⟩
    rw [shownText_append]
    exact List.append_nil _

theorem pushBlank (reads : Reads s m false []) :
    Reads s.pushBlank m false [] ∧ shownText s.pushBlank.nodes = shownText s.nodes := by
  rw [Parser.pushBlank]
  split
  · exact ⟨reads, rfl⟩
  · exact ⟨reads, rfl⟩
  · refine ⟨{ reads with holds := reads.holds }, ?_⟩
    rw [shownText_append]
    exact List.append_nil _

/-- What a start tag does that does not hide: the flags follow the mark. -/
theorem openTag (reads : Reads s m false []) (tag : Bytes) {k : TagKind} (shown : k ≠ .hidden)
    (fits : k.Fits m) (leveled : k.Leveled) :
    Reads (s.openTag tag k) (m.enter k) false [] ∧
      shownText (s.openTag tag k).nodes = shownText s.nodes := by
  cases k with
  | hidden => exact absurd rfl shown
  | pre => exact fits.elim
  | heading l =>
    rw [Parser.openTag, reads.flush_eq]
    exact ⟨{ reads with
      holds := rfl
      heading := rfl
      level := fun k same => leveled k (congrArg _ (Option.some.inj same)) }, rfl⟩
  | link =>
    rw [Parser.openTag, reads.flush_eq]
    exact ⟨{ reads with holds := rfl, link := rfl }, rfl⟩
  | listItem =>
    rw [Parser.openTag, reads.flush_eq]
    exact ⟨{ reads with holds := rfl }, rfl⟩
  | input => exact reads.pushInput tag
  | hr =>
    rw [Parser.openTag, reads.flush_eq]
    refine ⟨{ reads with holds := reads.holds }, ?_⟩
    rw [shownText_append]
    exact List.append_nil _
  | br =>
    rw [Parser.openTag, reads.flush_eq]
    exact ⟨reads, rfl⟩
  | block =>
    rw [Parser.openTag, reads.flush_eq]
    exact ⟨reads, rfl⟩
  | cell => exact ⟨reads, rfl⟩
  | other => exact ⟨reads, rfl⟩

/-- What the end tag does: the flags are back. -/
theorem closeTag {k : TagKind} (reads : Reads s (m.enter k) false []) (fits : k.Fits m)
    (level : ∀ l, m.heading = some l → l = 1 ∨ l = 2 ∨ l = 3) :
    Reads (s.closeTag k) m false [] ∧ shownText (s.closeTag k).nodes = shownText s.nodes := by
  cases k with
  | pre => exact fits.elim
  | heading l =>
    have here : m = ⟨none, false⟩ := fits
    rw [Parser.closeTag, reads.flush_eq]
    refine ⟨{ reads with heading := ?_, link := ?_, level := level }, rfl⟩
    · rw [here]
      rfl
    · exact reads.link
  | link =>
    have here : m = ⟨none, false⟩ := fits
    rw [Parser.closeTag, reads.flush_eq]
    refine ⟨{ reads with heading := ?_, link := ?_, level := level }, rfl⟩
    · exact reads.heading
    · rw [here]
  | listItem =>
    rw [Parser.closeTag, reads.flush_eq]
    exact ⟨{ reads with holds := reads.holds }, rfl⟩
  | block =>
    rw [Parser.closeTag, reads.flush_eq]
    exact reads.pushBlank
  | cell =>
    rw [Parser.closeTag, reads.flush_eq]
    exact reads.pushBlank
  | hidden => exact ⟨reads, rfl⟩
  | input => exact ⟨reads, rfl⟩
  | hr => exact ⟨reads, rfl⟩
  | br => exact ⟨reads, rfl⟩
  | other => exact ⟨reads, rfl⟩

/-- The reader at the end of a tag, with the text before it flushed. -/
theorem atTag (reads : Reads s m false b) (shows : m.shown.isSome ∨ splitWhitespace b = [])
    (tag : Bytes) :
    Reads { s.flush with inTag := false, tagBuf := tag } m false [] ∧
      shownText s.flush.nodes = shownText s.nodes ++ entry m b := by
  obtain ⟨flushed, same⟩ := reads.flush shows
  exact ⟨{ flushed with outside := rfl }, same⟩

theorem loop_start (reads : Reads s m false b) {tag : Tag} (ok : tag.Ok) (plain : tag.Plain)
    (rest : Bytes) :
    s.loop 0 (tag.open ++ rest) =
      (({ s.flush with inTag := false, tagBuf := tag.bytes } : Parser).openTag tag.bytes
        tag.kind).loop 0 rest := by
  refine (Parser.loop_tag reads.notPre tag.bytes rest (ok.plain_bytes plain)).trans ?_
  rw [Parser.endTag_atTag reads.depth, ok.isClose_bytes, if_neg Bool.false_ne_true,
    ok.tagKind_bytes]

/-- **A start tag** that does not hide. -/
theorem start (reads : Reads s m false b) (shows : m.shown.isSome ∨ splitWhitespace b = [])
    {tag : Tag} (ok : tag.Ok) (plain : tag.Plain) (shown : tag.kind ≠ .hidden)
    (fits : tag.kind.Fits m) (rest : Bytes) :
    ∃ s', s.loop 0 (tag.open ++ rest) = s'.loop 0 rest ∧ Reads s' (m.enter tag.kind) false [] ∧
      shownText s'.nodes = shownText s.nodes ++ entry m b := by
  obtain ⟨at_, same⟩ := reads.atTag shows tag.bytes
  obtain ⟨opened, kept⟩ := at_.openTag tag.bytes shown fits (leveled_tagKind _)
  exact ⟨_, reads.loop_start ok plain rest, opened, kept.trans same⟩

/-- **A start tag** that hides what follows. -/
theorem hide (reads : Reads s m false b) (shows : m.shown.isSome ∨ splitWhitespace b = [])
    {tag : Tag} (ok : tag.Ok) (plain : tag.Plain) (hidden : tag.kind = .hidden) (rest : Bytes) :
    ∃ s', s.loop 0 (tag.open ++ rest) = s'.loop 0 rest ∧ Reads s' m true [] ∧
      shownText s'.nodes = shownText s.nodes ++ entry m b := by
  obtain ⟨at_, same⟩ := reads.atTag shows tag.bytes
  refine ⟨_, reads.loop_start ok plain rest, ?_⟩
  rw [hidden]
  exact ⟨{ at_ with depth := congrArg (· + 1) at_.depth }, same⟩

/-- **An end tag** where text is shown. -/
theorem stop {tag : Tag} (reads : Reads s (m.enter tag.kind) false b)
    (shows : (m.enter tag.kind).shown.isSome ∨ splitWhitespace b = []) (ok : tag.Ok)
    (fits : tag.kind.Fits m) (level : ∀ l, m.heading = some l → l = 1 ∨ l = 2 ∨ l = 3)
    (rest : Bytes) :
    ∃ s', s.loop 0 (tag.close ++ rest) = s'.loop 0 rest ∧ Reads s' m false [] ∧
      shownText s'.nodes = shownText s.nodes ++ entry (m.enter tag.kind) b := by
  obtain ⟨at_, same⟩ := reads.atTag shows (0x2F :: tag.name)
  obtain ⟨closed, kept⟩ := at_.closeTag fits level
  refine ⟨_, (Parser.loop_tag reads.notPre (0x2F :: tag.name) rest ok.plain_close).trans ?_,
    closed, kept.trans same⟩
  rw [Parser.endTag_atTag reads.depth, ok.tagKind_close]
  rfl

/-- A start tag where the reader skips. -/
theorem start_skipped (reads : Reads s m true []) {tag : Tag} (ok : tag.Ok) (plain : tag.Plain)
    (rest : Bytes) :
    ∃ s', s.loop 0 (tag.open ++ rest) = s'.loop 0 rest ∧ Reads s' m true [] ∧
      s'.nodes = s.nodes := by
  have hidden : 0 < s.skipDepth := by
    rw [reads.depth]
    exact Nat.one_pos
  have open_ : Parser.closesHidden tag.bytes = false := by
    rw [Parser.closesHidden, ok.isClose_bytes]
    exact decide_eq_false fun both => Bool.false_ne_true both.1
  refine ⟨_, Parser.loop_tag reads.notPre tag.bytes rest (ok.plain_bytes plain), ?_⟩
  rw [Parser.endTag_atTag_hidden hidden, open_, if_neg Bool.false_ne_true]
  exact ⟨{ reads with outside := rfl }, rfl⟩

/-- An end tag where the reader skips, whatever it takes to be a tag before it. -/
theorem stop_skipped (reads : Reads s m true []) {tag : Tag} (ok : tag.Ok) (inTag : Bool)
    (tagBuf rest : Bytes) :
    ∃ s', ({ s with inTag := inTag, tagBuf := tagBuf } : Parser).loop 0 (tag.close ++ rest) =
        s'.loop 0 rest ∧
      Reads s' m (!decide (tag.kind = .hidden)) [] ∧ s'.nodes = s.nodes := by
  have hidden : 0 < s.skipDepth := by
    rw [reads.depth]
    exact Nat.one_pos
  have closes : Parser.closesHidden (0x2F :: tag.name) = decide (tag.kind = .hidden) := by
    rw [Parser.closesHidden, ok.tagKind_close]
    exact decide_eq_decide.mpr ⟨And.right, fun same => ⟨rfl, same⟩⟩
  refine ⟨_, Parser.loop_tag (s := { s with inTag := inTag, tagBuf := tagBuf }) reads.notPre
    (0x2F :: tag.name) rest ok.plain_close, ?_⟩
  rw [Parser.endTag_atTag_hidden (s := { s with inTag := inTag, tagBuf := tagBuf }) hidden, closes]
  by_cases same : tag.kind = .hidden
  · rw [decide_eq_true same, if_pos rfl]
    refine ⟨{ reads with outside := rfl, depth := ?_ }, rfl⟩
    change s.skipDepth - 1 = 0
    rw [reads.depth]
    rfl
  · rw [decide_eq_false same, if_neg Bool.false_ne_true]
    exact ⟨{ reads with outside := rfl }, rfl⟩

end Reads

/-! ## Kinds of elements -/

theorem Tag.IsRaw.kind {tag : Tag} (isRaw : tag.IsRaw) : tag.kind = .hidden := by
  have all : ∀ n ∈ rawNames, tagKind n = .hidden := by decide
  exact all _ isRaw

theorem Tag.IsVoid.kind {tag : Tag} (isVoid : tag.IsVoid) :
    tag.kind.Neutral ∧ tag.kind ≠ .hidden := by
  have all : ∀ n ∈ voidNames, tagKind n ∈ [TagKind.input, .hr, .br, .other] := by decide
  have one : tag.kind ∈ [TagKind.input, .hr, .br, .other] := all _ isVoid
  simp only [List.mem_cons, List.not_mem_nil, or_false] at one
  rcases one with same | same | same | same <;>
  · rw [same]
    exact ⟨trivial, nofun⟩

/-- What was read before a body does not matter outside of tags. -/
theorem quiet_outside (tagBuf tagBuf' body : Bytes) :
    quiet false tagBuf body = quiet false tagBuf' body := by
  induction body with
  | nil => rfl
  | cons b body rest =>
    rw [quiet, quiet, if_neg Bool.false_ne_true, if_neg Bool.false_ne_true, rest]

namespace Reads

variable {s : Parser} {m : Mark} {sk : Bool} {b : Text}

/-- **A script or a style sheet** up to its end tag. -/
theorem raw (reads : Reads s m true []) {tag : Tag} (ok : tag.Ok) (isRaw : tag.IsRaw)
    {body : Bytes} (silent : quiet false [] body) (rest : Bytes) :
    ∃ s', s.loop 0 (body ++ (tag.close ++ rest)) = s'.loop 0 rest ∧ Reads s' m false [] ∧
      s'.nodes = s.nodes := by
  have hidden : 0 < s.skipDepth := by
    rw [reads.depth]
    exact Nat.one_pos
  have quiets : quiet s.inTag s.tagBuf body := by
    rw [reads.outside, quiet_outside _ []]
    exact silent
  obtain ⟨inTag, tagBuf, passed⟩ :=
    Parser.loop_body hidden reads.notPre body (tag.close ++ rest) quiets
  obtain ⟨s', stopped, reads', same⟩ := reads.stop_skipped ok inTag tagBuf rest
  rw [isRaw.kind] at reads'
  exact ⟨s', passed.trans stopped, reads', same⟩

/-! ### What stays dark -/

theorem text_silent (reads : Reads s m sk []) {t : List Piece} (ok : ∀ p ∈ t, p.Ok)
    (blank : sk = false → Blank t) (rest : Bytes) :
    ∃ s' b, s.loop 0 (textBytes t ++ rest) = s'.loop 0 rest ∧ Reads s' m sk b ∧
      splitWhitespace b = [] ∧ (sk = true → b = []) ∧ s'.nodes = s.nodes := by
  cases sk with
  | true =>
    have hidden : 0 < s.skipDepth := by
      rw [reads.depth]
      exact Nat.one_pos
    exact ⟨s, [], Parser.loop_skipped reads.outside hidden _ rest (lt_not_mem_textBytes ok), reads,
      splitWhitespace_nil, fun _ => rfl, rfl⟩
  | false =>
    obtain ⟨s', runs, reads', same⟩ := reads.text ok rest
    refine ⟨s', _, runs, reads', ?_, fun skips => (nomatch skips), same⟩
    rw [splitWhitespace_pushText, (blank rfl).joined]
    exact blank rfl

theorem start_silent (reads : Reads s m sk b) (blank : splitWhitespace b = [])
    (empty : sk = true → b = []) {tag : Tag} (ok : tag.Ok) (plain : tag.Plain)
    (neutral : sk = false → tag.kind.Neutral) (rest : Bytes) :
    ∃ s', s.loop 0 (tag.open ++ rest) = s'.loop 0 rest ∧
      Reads s' m (sk || decide (tag.kind = .hidden)) [] ∧
      shownText s'.nodes = shownText s.nodes := by
  cases sk with
  | true =>
    obtain rfl := empty rfl
    obtain ⟨s', runs, reads', same⟩ := reads.start_skipped ok plain rest
    exact ⟨s', runs, reads', by rw [same]⟩
  | false =>
    by_cases hidden : tag.kind = .hidden
    · obtain ⟨s', runs, reads', same⟩ := reads.hide (Or.inr blank) ok plain hidden rest
      rw [entry_of_blank m blank, List.append_nil] at same
      rw [decide_eq_true hidden]
      exact ⟨s', runs, reads', same⟩
    · obtain ⟨s', runs, reads', same⟩ :=
        reads.start (Or.inr blank) ok plain hidden ((neutral rfl).fits m) rest
      rw [entry_of_blank m blank, List.append_nil] at same
      rw [(neutral rfl).enter] at reads'
      rw [decide_eq_false hidden]
      exact ⟨s', runs, reads', same⟩

theorem stop_silent (reads : Reads s m sk b) (blank : splitWhitespace b = [])
    (empty : sk = true → b = []) {tag : Tag} (ok : tag.Ok)
    (neutral : sk = false → tag.kind.Neutral) (rest : Bytes) :
    ∃ s', s.loop 0 (tag.close ++ rest) = s'.loop 0 rest ∧
      Reads s' m (sk && !decide (tag.kind = .hidden)) [] ∧
      shownText s'.nodes = shownText s.nodes := by
  cases sk with
  | true =>
    obtain rfl := empty rfl
    obtain ⟨s', runs, reads', same⟩ := reads.stop_skipped ok s.inTag s.tagBuf rest
    exact ⟨s', runs, reads', by rw [same]⟩
  | false =>
    have enter := (neutral rfl).enter m
    obtain ⟨s', runs, reads', same⟩ := Reads.stop (enter.symm ▸ reads) (Or.inr blank) ok
      ((neutral rfl).fits m) reads.level rest
    rw [entry_of_blank _ blank, List.append_nil] at same
    exact ⟨s', runs, reads', same⟩

end Reads

/-- **Silent content shows nothing**: the reader comes to its end with the flags that it had. -/
theorem silent_run (c : Content) {s : Parser} {m : Mark} {sk : Bool} (wellFormed : c.WellFormed)
    (silent : c.Silent sk) (reads : Reads s m sk []) (rest : Bytes) :
    ∃ s' b, s.loop 0 (c.bytes ++ rest) = s'.loop 0 rest ∧ Reads s' m (c.endsSkipping sk) b ∧
      splitWhitespace b = [] ∧ (c.endsSkipping sk = true → b = []) ∧
      shownText s'.nodes = shownText s.nodes := by
  induction c generalizing s sk rest with
  | text t =>
    obtain ⟨s', b, runs, reads', blank, empty, same⟩ := reads.text_silent wellFormed silent rest
    exact ⟨s', b, runs, reads', blank, empty, by rw [same]⟩
  | elem t tag inner after innerRun afterRun =>
    obtain ⟨okText, ok, -, -, innerOk, afterOk⟩ := wellFormed
    obtain ⟨before, plain, innerSilent, close, afterSilent⟩ := silent
    simp only [Content.bytes_elem, List.append_assoc]
    obtain ⟨s₁, b₁, runs₁, reads₁, blank₁, empty₁, same₁⟩ :=
      reads.text_silent okText (fun shown => (before shown).1) _
    obtain ⟨s₂, runs₂, reads₂, same₂⟩ :=
      reads₁.start_silent blank₁ empty₁ ok plain (fun shown => (before shown).2) _
    obtain ⟨s₃, b₃, runs₃, reads₃, blank₃, empty₃, same₃⟩ := innerRun innerOk innerSilent reads₂ _
    obtain ⟨s₄, runs₄, reads₄, same₄⟩ := reads₃.stop_silent blank₃ empty₃ ok close _
    obtain ⟨s₅, b₅, runs₅, reads₅, blank₅, empty₅, same₅⟩ :=
      afterRun afterOk afterSilent reads₄ rest
    refine ⟨s₅, b₅, ?_, reads₅, blank₅, empty₅, ?_⟩
    · rw [runs₁, runs₂, runs₃, runs₄, runs₅]
    · rw [same₅, same₄, same₃, same₂, same₁]
  | void t tag after afterRun =>
    obtain ⟨okText, ok, isVoid, afterOk⟩ := wellFormed
    obtain ⟨before, plain, afterSilent⟩ := silent
    simp only [Content.bytes_void, List.append_assoc]
    obtain ⟨s₁, b₁, runs₁, reads₁, blank₁, empty₁, same₁⟩ := reads.text_silent okText before _
    obtain ⟨s₂, runs₂, reads₂, same₂⟩ :=
      reads₁.start_silent blank₁ empty₁ ok plain (fun _ => isVoid.kind.1) _
    rw [decide_eq_false isVoid.kind.2, Bool.or_false] at reads₂
    obtain ⟨s₃, b₃, runs₃, reads₃, blank₃, empty₃, same₃⟩ :=
      afterRun afterOk afterSilent reads₂ rest
    refine ⟨s₃, b₃, ?_, reads₃, blank₃, empty₃, ?_⟩
    · rw [runs₁, runs₂, runs₃]
    · rw [same₃, same₂, same₁]
  | raw t tag body after afterRun =>
    obtain ⟨okText, ok, isRaw, afterOk⟩ := wellFormed
    obtain ⟨before, plain, quiets, afterSilent⟩ := silent
    simp only [Content.bytes_raw, List.append_assoc]
    obtain ⟨s₁, b₁, runs₁, reads₁, blank₁, empty₁, same₁⟩ := reads.text_silent okText before _
    obtain ⟨s₂, runs₂, reads₂, same₂⟩ := reads₁.start_silent blank₁ empty₁ ok plain
      (fun _ => isRaw.kind ▸ trivial) _
    rw [decide_eq_true isRaw.kind, Bool.or_true] at reads₂
    obtain ⟨s₃, runs₃, reads₃, same₃⟩ := reads₂.raw ok isRaw quiets _
    obtain ⟨s₄, b₄, runs₄, reads₄, blank₄, empty₄, same₄⟩ :=
      afterRun afterOk afterSilent reads₃ rest
    refine ⟨s₄, b₄, ?_, reads₄, blank₄, empty₄, ?_⟩
    · rw [runs₁, runs₂, runs₃, runs₄]
    · rw [same₄, same₃, same₂, same₁]

/-! ## What is shown -/

theorem entry_pushText (m : Mark) {t : List Piece} (joined : Joined t) :
    entry m (pushText [] t) = entry m (decoded t) :=
  entry_congr m ((splitWhitespace_pushText t).trans joined)

/-- **Tame content is shown**: with the text that is still in the buffer, what is expected of the
content is what the reader adds to the nodes. -/
theorem tame_run (c : Content) {s : Parser} {m : Mark} (wellFormed : c.WellFormed)
    (tame : c.Tame m) (shows : m.shown.isSome) (reads : Reads s m false []) (rest : Bytes) :
    ∃ s' b, s.loop 0 (c.bytes ++ rest) = s'.loop 0 rest ∧ Reads s' m false b ∧
      shownText s'.nodes ++ entry m b = shownText s.nodes ++ expected m c := by
  induction c generalizing s m rest with
  | text t =>
    obtain ⟨s', runs, reads', same⟩ := reads.text wellFormed rest
    exact ⟨s', _, runs, reads', by rw [same, entry_pushText m tame, expected_text]⟩
  | elem t tag inner after innerRun afterRun =>
    obtain ⟨okText, ok, -, -, innerOk, afterOk⟩ := wellFormed
    obtain ⟨joined, plain, fits, innerTame, afterTame⟩ := tame
    simp only [Content.bytes_elem, List.append_assoc]
    rw [expected_elem]
    obtain ⟨s₁, runs₁, reads₁, same₁⟩ := reads.text okText _
    by_cases hidden : tag.kind = .hidden
    · rw [if_pos hidden] at innerTame ⊢
      obtain ⟨s₂, runs₂, reads₂, same₂⟩ := reads₁.hide (Or.inl shows) ok plain hidden _
      obtain ⟨s₃, b₃, runs₃, reads₃, blank₃, empty₃, same₃⟩ :=
        silent_run inner innerOk innerTame reads₂ _
      obtain ⟨s₄, runs₄, reads₄, same₄⟩ :=
        reads₃.stop_silent blank₃ empty₃ ok (fun _ => hidden ▸ trivial) _
      rw [decide_eq_true hidden, Bool.not_true, Bool.and_false] at reads₄
      obtain ⟨s₅, b₅, runs₅, reads₅, same₅⟩ := afterRun afterOk afterTame shows reads₄ rest
      refine ⟨s₅, b₅, ?_, reads₅, ?_⟩
      · rw [runs₁, runs₂, runs₃, runs₄, runs₅]
      · rw [same₅, same₄, same₃, same₂, same₁, entry_pushText m joined, List.nil_append,
          List.append_assoc]
    · rw [if_neg hidden] at innerTame ⊢
      obtain ⟨s₂, runs₂, reads₂, same₂⟩ := reads₁.start (Or.inl shows) ok plain hidden fits _
      obtain ⟨s₃, b₃, runs₃, reads₃, same₃⟩ :=
        innerRun innerOk innerTame (fits.shown shows) reads₂ _
      obtain ⟨s₄, runs₄, reads₄, same₄⟩ :=
        reads₃.stop (Or.inl (fits.shown shows)) ok fits reads.level _
      obtain ⟨s₅, b₅, runs₅, reads₅, same₅⟩ := afterRun afterOk afterTame shows reads₄ rest
      refine ⟨s₅, b₅, ?_, reads₅, ?_⟩
      · rw [runs₁, runs₂, runs₃, runs₄, runs₅]
      · rw [same₅, same₄, same₃, same₂, same₁, entry_pushText m joined, List.append_assoc,
          List.append_assoc]
  | void t tag after afterRun =>
    obtain ⟨okText, ok, isVoid, afterOk⟩ := wellFormed
    obtain ⟨joined, plain, afterTame⟩ := tame
    simp only [Content.bytes_void, List.append_assoc]
    rw [expected_void]
    obtain ⟨s₁, runs₁, reads₁, same₁⟩ := reads.text okText _
    obtain ⟨s₂, runs₂, reads₂, same₂⟩ :=
      reads₁.start (Or.inl shows) ok plain isVoid.kind.2 (isVoid.kind.1.fits m) _
    rw [isVoid.kind.1.enter] at reads₂
    obtain ⟨s₃, b₃, runs₃, reads₃, same₃⟩ := afterRun afterOk afterTame shows reads₂ rest
    refine ⟨s₃, b₃, ?_, reads₃, ?_⟩
    · rw [runs₁, runs₂, runs₃]
    · rw [same₃, same₂, same₁, entry_pushText m joined, List.append_assoc]
  | raw t tag body after afterRun =>
    obtain ⟨okText, ok, isRaw, afterOk⟩ := wellFormed
    obtain ⟨joined, plain, quiets, afterTame⟩ := tame
    simp only [Content.bytes_raw, List.append_assoc]
    rw [expected_raw]
    obtain ⟨s₁, runs₁, reads₁, same₁⟩ := reads.text okText _
    obtain ⟨s₂, runs₂, reads₂, same₂⟩ := reads₁.hide (Or.inl shows) ok plain isRaw.kind _
    obtain ⟨s₃, runs₃, reads₃, same₃⟩ := reads₂.raw ok isRaw quiets _
    obtain ⟨s₄, b₄, runs₄, reads₄, same₄⟩ := afterRun afterOk afterTame shows reads₃ rest
    refine ⟨s₄, b₄, ?_, reads₄, ?_⟩
    · rw [runs₁, runs₂, runs₃, runs₄]
    · rw [same₄, same₃, same₂, same₁, entry_pushText m joined, List.append_assoc]

/-! ## Pages -/

/-- Blank lines show no text. -/
theorem shownText_collapseBlanks (nodes : List HNode) :
    shownText (collapseBlanks nodes) = shownText nodes := by
  have shown_cons : ∀ (node : HNode) (nodes nodes' : List HNode),
      shownText nodes = shownText nodes' →
        shownText (node :: nodes) = shownText (node :: nodes') := by
    intro node nodes nodes' same
    rw [← List.singleton_append, shownText_append, same, ← shownText_append, List.singleton_append]
  induction nodes with
  | nil => rfl
  | cons node nodes rest =>
    rw [collapseBlanks]
    split
    · rename_i others collapsed
      split
      · rename_i isBlank
        rw [← collapsed, rest, of_decide_eq_true isBlank]
        rfl
      · rw [← collapsed]
        exact shown_cons node _ _ rest
    · exact shown_cons node _ _ rest

theorem shownText_dropBlanks (nodes : List HNode) :
    shownText (nodes.dropWhile HNode.isBlank) = shownText nodes := by
  induction nodes with
  | nil => rfl
  | cons node nodes rest =>
    by_cases isBlank : node.isBlank
    · rw [List.dropWhile_cons_of_pos isBlank, rest, of_decide_eq_true isBlank]
      rfl
    · rw [List.dropWhile_cons_of_neg isBlank]

theorem start_reads : Reads start ⟨none, false⟩ false [] :=
  ⟨rfl, rfl, rfl, rfl, rfl, rfl, nofun⟩

/-- A text without references. -/
def written (s : String) : List Piece := s.toList.map .char

/-- A tag without attributes. -/
def bare (name : String) : Tag := ⟨asBytes name, []⟩

/-- A page with a head that has a style sheet last, a heading and a link. -/
def samplePage : Content :=
  .elem [] (bare "head")
    (.elem [] (bare "title") (.text (written "T"))
      (.raw [] (bare "style") (asBytes "p > a") (.text (written "\n"))))
    (.elem [] (bare "h1") (.text (written "A " ++ [.entity .amp] ++ written " B"))
      (.elem (written "see ") ⟨asBytes "a", [(asBytes "href", asBytes "/x")]⟩
        (.text (written "this")) (.text [])))

/-- Behind a preformatted block the tags are shown. -/
def preformatted : Content := .elem [] (bare "pre") (.text (written "a")) (.text (written "b"))

/-- A title behind a script is not in the head any more. -/
def scriptInHead : Content :=
  .elem [] (bare "head") (.raw [] (bare "script") [] (.elem [] (bare "title")
    (.text (written "T")) (.text []))) (.text [])

/-- The rest of a heading with a heading in it. -/
def headingInHeading : Content :=
  .elem [] (bare "h1") (.elem (written "a") (bare "h2") (.text (written "b"))
    (.text (written "c"))) (.text [])

end RustyPenguin.Browser
