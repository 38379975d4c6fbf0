import RustyPenguin.Browser.Document

/-!
# What the page reader does with a document

The loop reads the bytes of a document in three kinds of stretches: the bytes of a text, a tag, and
the bytes of a script or a style sheet. There is one lemma for each that says what the loop's state
is behind it (`loop_text`, `loop_tag`, `loop_body`). The buffer holds UTF-8 throughout, and its text
is alike what the document has there, with the carriage returns left out (`pushText_alike`).
-/

set_option autoImplicit false

namespace RustyPenguin.Browser

open Files (Bytes asBytes fromUtf8)
open Foundation

/-! ## UTF-8 -/

/-- The bytes of a text. -/
def utf8 (t : Text) : Bytes := asBytes (String.ofList t)

theorem utf8_eq (t : Text) : utf8 t = t.utf8Encode.data.toList := by
  rw [utf8, asBytes, String.toByteArray_ofList]

@[simp] theorem utf8_nil : utf8 [] = [] := rfl

theorem utf8_append (t u : Text) : utf8 (t ++ u) = utf8 t ++ utf8 u := by
  rw [utf8_eq, utf8_eq, utf8_eq, List.utf8Encode_append, ByteArray.data_append, Array.toList_append]

theorem utf8_singleton (c : Char) : utf8 [c] = String.utf8EncodeChar c := by
  rw [utf8_eq, List.utf8Encode_singleton, List.data_toByteArray]

/-- The text of a buffer that holds UTF-8. -/
theorem textOf_utf8 (t : Text) : Parser.textOf (utf8 t) = t := by
  rw [Parser.textOf, utf8, Files.fromUtf8_asBytes, Option.getD_some, String.toList_ofList]

/-- A character below 128 is its byte. -/
theorem utf8EncodeChar_of_ascii {c : Char} (ascii : c.toNat < 128) :
    String.utf8EncodeChar c = [UInt8.ofNat c.toNat] := by
  rw [String.utf8EncodeChar]
  exact if_pos (Nat.le_of_lt_succ ascii)

/-- The bytes of any other character are above it. -/
theorem le_of_mem_utf8EncodeChar {c : Char} (wide : 128 ≤ c.toNat) :
    ∀ b ∈ String.utf8EncodeChar c, 0x80 ≤ b := by
  have high : ∀ n, 128 ≤ n → n < 256 → (0x80 : UInt8) ≤ UInt8.ofNat n := by
    intro n above below
    rw [UInt8.le_iff_toNat_le, UInt8.toNat_ofNat_of_lt' below]
    exact above
  have notAscii : ¬c.val.toNat ≤ 0x7F := Nat.not_le.mpr wide
  rw [String.utf8EncodeChar, if_neg notAscii]
  split
  · simp only [List.mem_cons, List.not_mem_nil, or_false]
    rintro b (rfl | rfl) <;> exact high _ (by omega) (by omega)
  · split
    · simp only [List.mem_cons, List.not_mem_nil, or_false]
      rintro b (rfl | rfl | rfl) <;> exact high _ (by omega) (by omega)
    · simp only [List.mem_cons, List.not_mem_nil, or_false]
      rintro b (rfl | rfl | rfl | rfl) <;> exact high _ (by omega) (by omega)

/-- The byte of one ASCII character is not that of another. -/
theorem byte_ne {c d : Char} (ascii : c.toNat < 128) (ascii' : d.toNat < 128) (other : c ≠ d) :
    UInt8.ofNat c.toNat ≠ UInt8.ofNat d.toNat := by
  intro same
  have values := congrArg UInt8.toNat same
  rw [UInt8.toNat_ofNat_of_lt' (ascii.trans (by decide)),
    UInt8.toNat_ofNat_of_lt' (ascii'.trans (by decide))] at values
  exact other (Char.toNat_inj.mp values)

theorem utf8_ne_nil {t : Text} (some : t ≠ []) : utf8 t ≠ [] := by
  obtain ⟨c, front, rfl⟩ := List.exists_cons_of_ne_nil some
  intro none
  rw [← List.singleton_append, utf8_append, utf8_singleton] at none
  exact String.utf8EncodeChar_ne_nil (List.append_eq_nil_iff.mp none).1

/-- The last byte says whether the last character is a space. -/
theorem getLast?_utf8 (t : Text) : (utf8 t).getLast? = some 0x20 ↔ t.getLast? = some ' ' := by
  rcases List.eq_nil_or_concat t with rfl | ⟨front, c, rfl⟩
  · exact iff_of_false nofun nofun
  · rw [List.concat_eq_append, utf8_append, utf8_singleton, List.getLast?_concat]
    by_cases ascii : c.toNat < 128
    · rw [utf8EncodeChar_of_ascii ascii, List.getLast?_concat]
      constructor
      · intro same
        by_contra other
        exact byte_ne (d := ' ') ascii (by decide) (fun here => other (congrArg some here))
          (Option.some.inj same)
      · intro same
        rw [Option.some.inj same]
        rfl
    · have high := le_of_mem_utf8EncodeChar (Nat.le_of_not_lt ascii)
      refine iff_of_false (fun same => ?_) fun same => ?_
      · rw [List.getLast?_append_of_ne_nil _ String.utf8EncodeChar_ne_nil] at same
        exact absurd (high _ (List.mem_of_getLast? same)) (by decide)
      · rw [Option.some.inj same] at ascii
        exact ascii (by decide)

theorem open_utf8 (t : Text) :
    (utf8 t ≠ [] ∧ (utf8 t).getLast? ≠ some 0x20) ↔ (t ≠ [] ∧ t.getLast? ≠ some ' ') := by
  refine and_congr ⟨fun some none => some (none ▸ utf8_nil), utf8_ne_nil⟩ ?_
  exact not_congr (getLast?_utf8 t)

/-! ## White space -/

/-- What is collapsed so far is alike what it is read from, and its flag says that it ends between
words. -/
theorem collapse_alike (s : Text) (out done : Text) (sp : Bool) (alike : Alike out done)
    (between : sp → Between out) :
    Alike (s.foldl collapseStep (out, sp)).1 (done ++ s) := by
  induction s generalizing out done sp with
  | nil =>
    rw [List.append_nil]
    exact alike
  | cons c s rest =>
    rw [List.foldl_cons, List.append_cons, collapseStep]
    by_cases space : isAsciiWhitespace c
    · rw [if_pos space]
      have wide := isWhitespace_of_ascii space
      cases sp with
      | true => exact rest out _ true (alike.skip (between rfl) wide) between
      | false =>
        exact rest _ _ true (alike.spaces rfl wide) fun _ => Between.concat out rfl
    · rw [if_neg space]
      exact rest _ _ false (alike.concat c) fun open_ => nomatch open_

/-- **Collapsing keeps the words.** -/
theorem splitWhitespace_collapseWs (s : Text) :
    splitWhitespace (collapseWs s) = splitWhitespace s := by
  have alike := (collapse_alike s [] [] true (Alike.refl []) fun _ => Or.inl rfl).words
  rw [List.nil_append] at alike
  rw [collapseWs, ← alike]
  split
  · rename_i ends
    obtain ⟨front, out⟩ := List.getLast?_eq_some_iff.mp ends
    rw [out, List.dropLast_concat]
    exact (splitWhitespace_concat rfl front).symm
  · rfl

theorem collapseWs_nil : collapseWs [] = [] := rfl

/-- A text's node is empty when the text has no words. -/
theorem collapseWs_trim_eq_nil {t : Text} : collapseWs (trim t) = [] ↔ splitWhitespace t = [] := by
  constructor
  · intro none
    rw [← splitWhitespace_trim, ← splitWhitespace_collapseWs, none, splitWhitespace_nil]
  · intro none
    rw [trim_eq_nil none, collapseWs_nil]

/-! ## Texts -/

/-- What one piece adds to the text in the buffer. -/
def pushPiece (buf : Text) : Piece → Text
  | .char c =>
    if c = '\r' then buf
    else if c = '\n' ∨ c = '\t' then
      if buf ≠ [] ∧ buf.getLast? ≠ some ' ' then buf ++ [' '] else buf
    else buf ++ [c]
  | .entity e => buf ++ [e.char]

/-- The text that is in the buffer behind a text of the document. -/
def pushText (buf : Text) (t : List Piece) : Text := t.foldl pushPiece buf

/-- A text without its carriage returns. -/
def withoutReturns (t : Text) : Text := t.filter fun c => c ≠ '\r'

theorem withoutReturns_cons {c : Char} (t : Text) (kept : c ≠ '\r') :
    withoutReturns (c :: t) = c :: withoutReturns t :=
  List.filter_cons_of_pos (decide_eq_true kept)

theorem between_of_not {buf : Text} (not : ¬(buf ≠ [] ∧ buf.getLast? ≠ some ' ')) :
    Between buf := by
  by_cases none : buf = []
  · exact Or.inl none
  · have ends : buf.getLast? = some ' ' := by
      by_contra other
      exact not ⟨none, other⟩
    obtain ⟨front, rfl⟩ := List.getLast?_eq_some_iff.mp ends
    exact Between.concat front rfl

/-- **The buffer is alike the document's text without its carriage returns.** -/
theorem pushText_alike (t : List Piece) (buf done : Text) (alike : Alike buf done) :
    Alike (pushText buf t) (done ++ withoutReturns (decoded t)) := by
  induction t generalizing buf done with
  | nil =>
    rw [decoded, List.map_nil, withoutReturns, List.filter_nil, List.append_nil]
    exact alike
  | cons p t rest =>
    change Alike (pushText (pushPiece buf p) t) (done ++ withoutReturns (p.decoded :: decoded t))
    cases p with
    | entity e =>
      rw [withoutReturns_cons _ (by cases e <;> decide), List.append_cons]
      exact rest _ _ (alike.concat e.char)
    | char c =>
      rw [pushPiece, Piece.decoded]
      by_cases dropped : c = '\r'
      · rw [if_pos dropped, dropped]
        exact rest _ _ alike
      · rw [if_neg dropped, withoutReturns_cons _ dropped, List.append_cons done]
        by_cases newline : c = '\n' ∨ c = '\t'
        · have space : isWhitespace c := by
            rcases newline with rfl | rfl <;> rfl
          rw [if_pos newline]
          by_cases opens : buf ≠ [] ∧ buf.getLast? ≠ some ' '
          · rw [if_pos opens]
            exact rest _ _ (alike.spaces (w := ' ') rfl space)
          · rw [if_neg opens]
            exact rest _ _ (alike.skip (between_of_not opens) space)
        · rw [if_neg newline]
          exact rest _ _ (alike.concat c)

/-- No carriage return of the text joins two words when it is left out. -/
def Joined (t : List Piece) : Prop :=
  splitWhitespace (withoutReturns (decoded t)) = splitWhitespace (decoded t)

theorem splitWhitespace_pushText (t : List Piece) :
    splitWhitespace (pushText [] t) = splitWhitespace (withoutReturns (decoded t)) :=
  (pushText_alike t [] [] (Alike.refl [])).words

/-- The text is white space. -/
def Blank (t : List Piece) : Prop := splitWhitespace (decoded t) = []

theorem Blank.joined {t : List Piece} (blank : Blank t) : Joined t := by
  have spaces : ∀ c ∈ withoutReturns (decoded t), isWhitespace c := fun c member =>
    isWhitespace_of_splitWhitespace blank c (List.mem_of_mem_filter member)
  rw [Joined, blank]
  exact splitWhitespace_eq_nil spaces

/-! ## The loop -/

namespace Parser

variable {s : Parser}

/-- The loop passes over the bytes that are taken. -/
theorem loop_taken (s : Parser) (xs rest : Bytes) :
    s.loop xs.length (xs ++ rest) = s.loop 0 rest := by
  induction xs with
  | nil => rfl
  | cons b xs pass => exact pass

/-- What is not the start or the end of a tag, outside of tags and of hidden sections. -/
theorem step_text (outside : s.inTag = false) (shown : s.skipDepth = 0) {b : UInt8} {rest : Bytes}
    (lt : b ≠ 0x3C) (amp : b ≠ 0x26) : s.step b rest = (s.pushByte b, 1) := by
  rw [step, if_neg fun both => lt both.1, outside, if_neg fun both => Bool.false_ne_true both.2,
    if_neg Bool.false_ne_true, shown, if_neg (Nat.lt_irrefl 0), if_neg amp]

theorem step_skipped (outside : s.inTag = false) (hidden : 0 < s.skipDepth) {b : UInt8}
    {rest : Bytes} (lt : b ≠ 0x3C) : s.step b rest = (s, 1) := by
  rw [step, if_neg fun both => lt both.1, outside, if_neg fun both => Bool.false_ne_true both.2,
    if_neg Bool.false_ne_true, if_pos hidden]

theorem step_tag (inside : s.inTag = true) {b : UInt8} {rest : Bytes} (lt : b ≠ 0x3C)
    (gt : b ≠ 0x3E) : s.step b rest = ({ s with tagBuf := s.tagBuf ++ [b] }, 1) := by
  rw [step, if_neg fun both => lt both.1, if_neg fun both => gt both.1, inside, if_pos rfl]

theorem step_open (notPre : s.inPre = false) (rest : Bytes) :
    s.step 0x3C rest =
      ({ (if s.skipDepth = 0 then s.flush else s) with inTag := true, tagBuf := [] }, 1) := by
  rw [step, notPre]
  exact if_pos ⟨rfl, rfl⟩

theorem step_close (inside : s.inTag = true) (rest : Bytes) :
    s.step 0x3E rest = (s.endTag, 1) := by
  rw [step, if_neg fun both => absurd both.1 (by decide), inside]
  exact if_pos ⟨rfl, rfl⟩

theorem pushByte_other (notPre : s.inPre = false) {b : UInt8} (cr : b ≠ 0x0D) (lf : b ≠ 0x0A)
    (tab : b ≠ 0x09) : s.pushByte b = { s with buf := s.buf ++ [b] } := by
  rw [pushByte, if_neg cr, if_neg (Bool.not_eq_true _ ▸ notPre), if_neg (not_or.mpr ⟨lf, tab⟩)]

theorem pushByte_newline (notPre : s.inPre = false) {b : UInt8} (newline : b = 0x0A ∨ b = 0x09) :
    s.pushByte b =
      if s.buf ≠ [] ∧ s.buf.getLast? ≠ some 0x20 then { s with buf := s.buf ++ [0x20] } else s := by
  have cr : b ≠ 0x0D := by
    rcases newline with rfl | rfl <;> decide
  rw [pushByte, if_neg cr, if_neg (Bool.not_eq_true _ ▸ notPre), if_pos newline]

/-- Bytes above the ASCII ones go into the buffer as they are. -/
theorem loop_high (outside : s.inTag = false) (shown : s.skipDepth = 0) (notPre : s.inPre = false)
    (xs rest : Bytes) (high : ∀ b ∈ xs, 0x80 ≤ b) :
    s.loop 0 (xs ++ rest) = ({ s with buf := s.buf ++ xs } : Parser).loop 0 rest := by
  induction xs generalizing s with
  | nil => rw [List.nil_append, List.append_nil]
  | cons b xs pass =>
    obtain ⟨first, others⟩ := List.forall_mem_cons.mp high
    have other : ∀ a : UInt8, a < 0x80 → b ≠ a := fun a low same =>
      absurd (same ▸ first) (UInt8.not_le.mpr low)
    change (s.step b (xs ++ rest)).1.loop ((s.step b (xs ++ rest)).2 - 1) (xs ++ rest) = _
    rw [step_text outside shown (other _ (by decide)) (other _ (by decide)),
      pushByte_other notPre (other _ (by decide)) (other _ (by decide)) (other _ (by decide))]
    refine (pass (s := { s with buf := s.buf ++ [b] }) outside shown notPre others).trans ?_
    rw [List.append_assoc]
    rfl

/-- A reference stands for its character. -/
theorem entity_bytes (e : Entity) (rest : Bytes) :
    e.bytes ++ rest = 0x26 :: (e.bytes.tail ++ rest) ∧
      entity (0x26 :: (e.bytes.tail ++ rest)) = (UInt8.ofNat e.char.toNat, e.bytes.length) := by
  cases e <;> exact ⟨rfl, rfl⟩

theorem step_reference (outside : s.inTag = false) (shown : s.skipDepth = 0) {rest : Bytes}
    {ch : UInt8} {len : Nat} (reads : entity (0x26 :: rest) = (ch, len)) (some : ch ≠ 0) :
    s.step 0x26 rest = ({ s with buf := s.buf ++ [ch] }, len) := by
  rw [step, if_neg fun both => absurd both.1 (by decide), outside,
    if_neg fun both => absurd both.1 (by decide), if_neg Bool.false_ne_true, shown,
    if_neg (Nat.lt_irrefl 0), if_pos rfl, reads]
  dsimp only
  rw [if_pos some]

theorem utf8_concat {c : Char} (t : Text) (ascii : c.toNat < 128) :
    utf8 (t ++ [c]) = utf8 t ++ [UInt8.ofNat c.toNat] := by
  rw [utf8_append, utf8_singleton, utf8EncodeChar_of_ascii ascii]

theorem loop_reference (outside : s.inTag = false) (shown : s.skipDepth = 0) {b : Text}
    (holds : s.buf = utf8 b) (e : Entity) (rest : Bytes) :
    s.loop 0 (e.bytes ++ rest) =
      ({ s with buf := utf8 (b ++ [e.char]) } : Parser).loop 0 rest := by
  obtain ⟨shape, reads⟩ := entity_bytes e rest
  have ascii : e.char.toNat < 128 := by cases e <;> decide
  have some : UInt8.ofNat e.char.toNat ≠ 0 := by cases e <;> decide
  rw [shape]
  change (s.step 0x26 _).1.loop ((s.step 0x26 _).2 - 1) (e.bytes.tail ++ rest) = _
  rw [step_reference outside shown reads some, ← List.length_tail, loop_taken, holds,
    utf8_concat b ascii]

/-- An ASCII character goes into the buffer as `pushPiece` has it. -/
theorem pushByte_ascii (notPre : s.inPre = false) {b : Text} (holds : s.buf = utf8 b) {c : Char}
    (ascii : c.toNat < 128) :
    s.pushByte (UInt8.ofNat c.toNat) = { s with buf := utf8 (pushPiece b (.char c)) } := by
  rw [pushPiece]
  by_cases dropped : c = '\r'
  · rw [if_pos dropped, dropped, ← holds]
    exact if_pos rfl
  · rw [if_neg dropped]
    by_cases newline : c = '\n' ∨ c = '\t'
    · have byte : UInt8.ofNat c.toNat = 0x0A ∨ UInt8.ofNat c.toNat = 0x09 := by
        rcases newline with rfl | rfl
        · exact Or.inl rfl
        · exact Or.inr rfl
      rw [if_pos newline, pushByte_newline notPre byte, holds]
      by_cases opens : b ≠ [] ∧ b.getLast? ≠ some ' '
      · rw [if_pos opens, if_pos ((open_utf8 b).mpr opens), utf8_concat b (by decide)]
        rfl
      · rw [if_neg opens, if_neg fun bytes => opens ((open_utf8 b).mp bytes), ← holds]
    · obtain ⟨lf, tab⟩ := not_or.mp newline
      rw [if_neg newline, utf8_concat b ascii, ← holds]
      exact pushByte_other notPre (byte_ne (d := '\r') ascii (by decide) dropped)
        (byte_ne (d := '\n') ascii (by decide) lf) (byte_ne (d := '\t') ascii (by decide) tab)

theorem loop_char (outside : s.inTag = false) (shown : s.skipDepth = 0) (notPre : s.inPre = false)
    {b : Text} (holds : s.buf = utf8 b) {c : Char} (lt : c ≠ '<') (amp : c ≠ '&') (rest : Bytes) :
    s.loop 0 (String.utf8EncodeChar c ++ rest) =
      ({ s with buf := utf8 (pushPiece b (.char c)) } : Parser).loop 0 rest := by
  by_cases ascii : c.toNat < 128
  · rw [utf8EncodeChar_of_ascii ascii]
    change (s.step _ rest).1.loop ((s.step _ rest).2 - 1) rest = _
    rw [step_text outside shown (byte_ne (d := '<') ascii (by decide) lt)
      (byte_ne (d := '&') ascii (by decide) amp), pushByte_ascii notPre holds ascii]
    rfl
  · have other : ∀ d : Char, d.toNat < 128 → c ≠ d := fun d low same => ascii (same ▸ low)
    rw [loop_high outside shown notPre _ rest (le_of_mem_utf8EncodeChar (Nat.le_of_not_lt ascii)),
      pushPiece, if_neg (other _ (by decide)),
      if_neg (not_or.mpr ⟨other _ (by decide), other _ (by decide)⟩), utf8_append, utf8_singleton,
      holds]

/-- **A text** goes into the buffer. -/
theorem loop_text (outside : s.inTag = false) (shown : s.skipDepth = 0) (notPre : s.inPre = false)
    {b : Text} (holds : s.buf = utf8 b) {t : List Piece} (ok : ∀ p ∈ t, p.Ok) (rest : Bytes) :
    s.loop 0 (textBytes t ++ rest) =
      ({ s with buf := utf8 (pushText b t) } : Parser).loop 0 rest := by
  induction t generalizing s b with
  | nil => rw [pushText, List.foldl_nil, ← holds]; rfl
  | cons p t pass =>
    obtain ⟨first, others⟩ := List.forall_mem_cons.mp ok
    rw [textBytes, List.flatMap_cons, List.append_assoc]
    have piece : s.loop 0 (p.bytes ++ (textBytes t ++ rest)) =
        ({ s with buf := utf8 (pushPiece b p) } : Parser).loop 0 (textBytes t ++ rest) := by
      cases p with
      | entity e => exact loop_reference outside shown holds e _
      | char c => exact loop_char outside shown notPre holds first.1 first.2 _
    exact piece.trans (pass (s := { s with buf := utf8 (pushPiece b p) }) outside shown notPre rfl
      others)

/-- A hidden stretch without tags is passed over. -/
theorem loop_skipped (outside : s.inTag = false) (hidden : 0 < s.skipDepth) (xs rest : Bytes)
    (lt : ∀ b ∈ xs, b ≠ 0x3C) : s.loop 0 (xs ++ rest) = s.loop 0 rest := by
  induction xs with
  | nil => rfl
  | cons b xs pass =>
    obtain ⟨first, others⟩ := List.forall_mem_cons.mp lt
    change (s.step b (xs ++ rest)).1.loop ((s.step b (xs ++ rest)).2 - 1) (xs ++ rest) = _
    rw [step_skipped outside hidden first]
    exact pass others

/-- The inside of a tag is collected. -/
theorem loop_inside (inside : s.inTag = true) (xs rest : Bytes)
    (plain : ∀ b ∈ xs, b ≠ 0x3C ∧ b ≠ 0x3E) :
    s.loop 0 (xs ++ rest) = ({ s with tagBuf := s.tagBuf ++ xs } : Parser).loop 0 rest := by
  induction xs generalizing s with
  | nil => rw [List.nil_append, List.append_nil]
  | cons b xs pass =>
    obtain ⟨⟨lt, gt⟩, others⟩ := List.forall_mem_cons.mp plain
    change (s.step b (xs ++ rest)).1.loop ((s.step b (xs ++ rest)).2 - 1) (xs ++ rest) = _
    rw [step_tag inside lt gt]
    refine (pass (s := { s with tagBuf := s.tagBuf ++ [b] }) inside others).trans ?_
    rw [List.append_assoc]
    rfl

/-- The loop's state at the end of a tag. -/
def atTag (s : Parser) (tag : Bytes) : Parser :=
  { (if s.skipDepth = 0 then s.flush else s) with inTag := true, tagBuf := tag }

/-- **A tag**: the text before it is flushed where it is shown, and the tag is looked at whole. -/
theorem loop_tag (notPre : s.inPre = false) (xs rest : Bytes)
    (plain : ∀ b ∈ xs, b ≠ 0x3C ∧ b ≠ 0x3E) :
    s.loop 0 (0x3C :: xs ++ [0x3E] ++ rest) = (s.atTag xs).endTag.loop 0 rest := by
  rw [List.append_assoc, List.cons_append]
  change (s.step 0x3C _).1.loop ((s.step 0x3C _).2 - 1) (xs ++ ([0x3E] ++ rest)) = _
  rw [step_open notPre]
  refine (loop_inside rfl xs ([0x3E] ++ rest) plain).trans ?_
  change (step _ 0x3E rest).1.loop ((step _ 0x3E rest).2 - 1) rest = _
  rw [step_close rfl]
  rfl

end Parser

/-! ## Stretches that are not shown -/

/-- A written text has no start of a tag in it. -/
theorem lt_not_mem_textBytes {t : List Piece} (ok : ∀ p ∈ t, p.Ok) :
    ∀ b ∈ textBytes t, b ≠ 0x3C := by
  intro b member
  obtain ⟨p, inText, inPiece⟩ := List.mem_flatMap.mp member
  cases p with
  | entity e =>
    have plain : e.bytes.all (· != 0x3C) = true := by cases e <;> rfl
    exact bne_iff_ne.mp (List.all_eq_true.mp plain b inPiece)
  | char c =>
    have lt := (ok _ inText).1
    by_cases ascii : c.toNat < 128
    · rw [Piece.bytes, utf8EncodeChar_of_ascii ascii, List.mem_singleton] at inPiece
      rw [inPiece]
      exact byte_ne (d := '<') ascii (by decide) lt
    · rintro rfl
      exact absurd (le_of_mem_utf8EncodeChar (Nat.le_of_not_lt ascii) _ inPiece) (by decide)

/-- No tag that the loop reads in the bytes of a script or a style sheet closes a hidden section. -/
def quiet : (inTag : Bool) → (tagBuf : Bytes) → (body : Bytes) → Bool
  | _, _, [] => true
  | inTag, tagBuf, b :: rest =>
    if b = 0x3C then quiet true [] rest
    else if inTag then
      if b = 0x3E then !Parser.closesHidden tagBuf && quiet false tagBuf rest
      else quiet true (tagBuf ++ [b]) rest
    else quiet false tagBuf rest

namespace Parser

variable {s : Parser}

theorem endTag_hidden (hidden : 0 < s.skipDepth) :
    s.endTag = if closesHidden s.tagBuf
      then { s with inTag := false, skipDepth := s.skipDepth - 1 }
      else { s with inTag := false } := by
  rw [endTag]
  exact if_pos hidden

theorem skipDepth_flush (s : Parser) : s.flush.skipDepth = s.skipDepth := by
  rw [flush]
  split <;> rfl

/-- The end of a tag where text is shown. -/
theorem endTag_atTag (shown : s.skipDepth = 0) (tag : Bytes) :
    (s.atTag tag).endTag = if isClose tag
      then ({ s.flush with inTag := false, tagBuf := tag } : Parser).closeTag
        (tagKind (tagName tag))
      else ({ s.flush with inTag := false, tagBuf := tag } : Parser).openTag tag
        (tagKind (tagName tag)) := by
  have depth : ¬0 < s.flush.skipDepth := by
    rw [skipDepth_flush, shown]
    exact Nat.lt_irrefl 0
  rw [atTag, if_pos shown]
  exact if_neg depth

/-- The end of a tag where the loop skips. -/
theorem endTag_atTag_hidden (hidden : 0 < s.skipDepth) (tag : Bytes) :
    (s.atTag tag).endTag = if closesHidden tag
      then { s with inTag := false, tagBuf := tag, skipDepth := s.skipDepth - 1 }
      else { s with inTag := false, tagBuf := tag } := by
  rw [atTag, if_neg (Nat.ne_of_gt hidden)]
  exact endTag_hidden hidden

/-- **The bytes of a script or a style sheet** are passed over when none of their tags closes a
section. The loop may take itself to be in a tag behind them. -/
theorem loop_body (hidden : 0 < s.skipDepth) (notPre : s.inPre = false) (body rest : Bytes)
    (silent : quiet s.inTag s.tagBuf body) :
    ∃ inTag tagBuf, s.loop 0 (body ++ rest) =
      ({ s with inTag := inTag, tagBuf := tagBuf } : Parser).loop 0 rest := by
  induction body generalizing s with
  | nil => exact ⟨s.inTag, s.tagBuf, rfl⟩
  | cons b body pass =>
    rw [quiet] at silent
    change ∃ inTag tagBuf, (s.step b (body ++ rest)).1.loop ((s.step b (body ++ rest)).2 - 1)
      (body ++ rest) = _
    by_cases lt : b = 0x3C
    · rw [if_pos lt] at silent
      rw [lt, step_open notPre, if_neg (Nat.ne_of_gt hidden)]
      exact pass (s := { s with inTag := true, tagBuf := [] }) hidden notPre silent
    · rw [if_neg lt] at silent
      cases inside : s.inTag with
      | false =>
        rw [inside, if_neg Bool.false_ne_true] at silent
        rw [step_skipped inside hidden lt]
        exact pass hidden notPre (inside ▸ silent)
      | true =>
        rw [inside, if_pos rfl] at silent
        by_cases gt : b = 0x3E
        · rw [if_pos gt, Bool.and_eq_true, Bool.not_eq_true'] at silent
          rw [gt, step_close inside, endTag_hidden hidden, silent.1, if_neg Bool.false_ne_true]
          exact pass (s := { s with inTag := false }) hidden notPre silent.2
        · rw [if_neg gt] at silent
          rw [step_tag inside lt gt]
          exact pass (s := { s with tagBuf := s.tagBuf ++ [b] }) hidden notPre (by
            change quiet s.inTag _ _
            rw [inside]
            exact silent)

end Parser

/-! ## Tags -/

theorem isNameByte_ne {b : UInt8} (name : isNameByte b) :
    b ≠ 0x20 ∧ b ≠ 0x09 ∧ b ≠ 0x2F ∧ b ≠ 0x0A ∧ b ≠ 0x3C ∧ b ≠ 0x3E := by
  refine ⟨?_, ?_, ?_, ?_, ?_, ?_⟩ <;>
  · rintro rfl
    exact absurd name (by decide)

/-- Every name that matters is short. -/
theorem tagKind_of_long {name : Bytes} (long : 8 < name.length) : tagKind name = .other := by
  have other : ∀ n : Bytes, n.length ≤ 8 → name ≠ n := by
    rintro n short rfl
    exact Nat.not_lt.mpr short long
  have outside : ∀ names : List Bytes, (∀ n ∈ names, n.length ≤ 8) → name ∉ names :=
    fun names short member => other name (short name member) rfl
  rw [tagKind, if_neg (outside hiddenNames (by decide)),
    if_neg (other _ (by decide)), if_neg (other _ (by decide)),
    if_neg (other _ (by decide)), if_neg (other _ (by decide)),
    if_neg (other _ (by decide)), if_neg (other _ (by decide)),
    if_neg (other _ (by decide)), if_neg (other _ (by decide)),
    if_neg (other _ (by decide)), if_neg (outside blockNames (by decide)),
    if_neg (outside cellNames (by decide))]

/-- The name is cut off behind the last letter of every name that matters. -/
theorem tagKind_take (name : Bytes) :
    tagKind ((name.take 16).map toAsciiLowercase) = tagKind (name.map toAsciiLowercase) := by
  by_cases short : name.length ≤ 16
  · rw [List.take_of_length_le short]
  · rw [tagKind_of_long (by rw [List.length_map, List.length_take]; omega),
      tagKind_of_long (by rw [List.length_map]; omega)]

namespace Tag

variable {tag : Tag}

/-- No attribute of the tag has a start of a tag in its value. -/
def Plain (tag : Tag) : Prop := ∀ attr ∈ tag.attrs, ∀ b ∈ attr.2, b ≠ 0x3C

theorem Ok.isClose_bytes (ok : tag.Ok) : isClose tag.bytes = false := by
  obtain ⟨b, rest, shape⟩ := List.exists_cons_of_ne_nil ok.nonempty
  have first := (isNameByte_ne (ok.name b (shape ▸ List.mem_cons_self))).2.2.1
  rw [isClose, bytes, shape]
  exact decide_eq_false fun same => first (Option.some.inj same)

/-- A name is read up to what follows it. -/
theorem Ok.takeWhile_name (ok : tag.Ok) {rest : Bytes}
    (ends : rest = [] ∨ ∃ others, rest = 0x20 :: others) :
    (tag.name ++ rest).takeWhile (fun c => c ≠ 0x20 ∧ c ≠ 0x09 ∧ c ≠ 0x2F ∧ c ≠ 0x0A) =
      tag.name := by
  rw [List.takeWhile_append_of_pos fun b member => ?_]
  · rcases ends with rfl | ⟨others, rfl⟩
    · exact List.append_nil tag.name
    · exact List.append_nil tag.name
  · obtain ⟨space, tab, slash, lf, -⟩ := isNameByte_ne (ok.name b member)
    exact decide_eq_true ⟨space, tab, slash, lf⟩

/-- The name of a start tag ends where the attributes start. -/
theorem Ok.tagKind_bytes (ok : tag.Ok) : tagKind (tagName tag.bytes) = tag.kind := by
  have ends : tag.attrs.flatMap attrBytes = [] ∨
      ∃ others, tag.attrs.flatMap attrBytes = 0x20 :: others := by
    cases tag.attrs with
    | nil => exact Or.inl rfl
    | cons attr attrs => exact Or.inr ⟨_, rfl⟩
  rw [tagName, ok.isClose_bytes, if_neg Bool.false_ne_true, bytes, ok.takeWhile_name ends,
    tagKind_take, kind]

theorem Ok.tagKind_close (ok : tag.Ok) : tagKind (tagName (0x2F :: tag.name)) = tag.kind := by
  have name := ok.takeWhile_name (Or.inl rfl)
  rw [List.append_nil] at name
  rw [tagName, show isClose (0x2F :: tag.name) = true from rfl, if_pos rfl, List.tail_cons, name,
    tagKind_take, kind]

/-- The bytes of a tag hold no angle bracket. -/
theorem Ok.plain_bytes (ok : tag.Ok) (plain : tag.Plain) :
    ∀ b ∈ tag.bytes, b ≠ 0x3C ∧ b ≠ 0x3E := by
  have named : ∀ b, isNameByte b → b ≠ 0x3C ∧ b ≠ 0x3E := fun b name =>
    (isNameByte_ne name).2.2.2.2
  intro b member
  rcases List.mem_append.mp member with inName | inAttrs
  · exact named b (ok.name b inName)
  · obtain ⟨attr, inTag, inAttr⟩ := List.mem_flatMap.mp inAttrs
    obtain ⟨names, values⟩ := ok.attrs attr inTag
    simp only [attrBytes, List.cons_append, List.mem_cons, List.mem_append, List.not_mem_nil,
      or_false] at inAttr
    rcases inAttr with rfl | ((inName | rfl | rfl) | inValue) | rfl
    · decide
    · exact named b (names b inName)
    · decide
    · decide
    · exact ⟨plain attr inTag b inValue, (values b inValue).2⟩
    · decide

theorem Ok.plain_close (ok : tag.Ok) : ∀ b ∈ 0x2F :: tag.name, b ≠ 0x3C ∧ b ≠ 0x3E := by
  refine List.forall_mem_cons.mpr ⟨by decide, fun b member => ?_⟩
  exact (isNameByte_ne (ok.name b member)).2.2.2.2

end Tag

end RustyPenguin.Browser
