import RuleLexer.Proofs.DocumentOrder
import RuleLexer.Proofs.LineDepth

/-!
# The end of a text

A NUL ends a text as its last character does. Whatever construct it stands in,
lexing does not tell a text from the part in front of its first NUL.

* `atLineEnd_toNul`, `line_toNul`, `lineBreak_toNul`: lines do not reach across a NUL;
* `scan_toNul`, `layout_toNul`: a text is laid out like the part in front of its
  first NUL;
* `tokens_append_endOfText`: so a NUL cuts a text, and no token reaches past it.
-/

namespace RuleLexer

namespace Text

theorem toNul_endOfText (rest : List Char) : toNul (endOfText :: rest) = [] := by
  simp [toNul]

theorem toNul_append {a : List Char} (noEnd : endOfText ∉ a) (b : List Char) :
    toNul (a ++ b) = a ++ toNul b := by
  apply List.takeWhile_append_of_pos
  intro c hc
  apply decide_eq_true
  rintro rfl
  exact noEnd hc

/-- Where a NUL follows, the first NUL does not depend on what stands behind it. -/
theorem toNul_append_endOfText (a b : List Char) : toNul (a ++ endOfText :: b) = toNul a := by
  induction a with
  | nil => exact toNul_endOfText b
  | cons c a ih =>
    by_cases isEnd : c = endOfText
    · subst isEnd
      rw [List.cons_append, toNul_endOfText, toNul_endOfText]
    · rw [List.cons_append, toNul_cons isEnd, toNul_cons isEnd, ih]

/-- A first part without a NUL can be dropped before or after. -/
theorem drop_toNul {a text : List Char} (isFirst : a <+: text) (noEnd : endOfText ∉ a) :
    (toNul text).drop a.length = toNul (text.drop a.length) := by
  obtain ⟨rest, rfl⟩ := isFirst
  rw [toNul_append noEnd, List.drop_left, List.drop_left]

theorem atLineEnd_toNul (text : List Char) : atLineEnd (toNul text) = atLineEnd text := by
  cases text with
  | nil => rfl
  | cons c rest =>
    by_cases isEnd : c = endOfText
    · subst isEnd
      rw [toNul_endOfText]
      simp [atLineEnd]
    · simp only [toNul_cons isEnd, atLineEnd, head?_toNul]

theorem line_toNul (text : List Char) : line (toNul text) = line text := by
  induction text with
  | nil => rfl
  | cons c rest ih =>
    have same := atLineEnd_toNul (c :: rest)
    by_cases isEnd : c = endOfText
    · subst isEnd
      rw [toNul_endOfText, (line_eq_nil_iff _).mpr (by simp [atLineEnd])]
      rfl
    · rw [toNul_cons isEnd] at same ⊢
      simp only [line, same, ih]

theorem takeWhile_toNul (text : List Char) :
    (toNul text).takeWhile isBlank = text.takeWhile isBlank := by
  rw [← takeWhile_line, line_toNul, takeWhile_line]

theorem dropWhile_toNul (text : List Char) :
    (toNul text).dropWhile isBlank = toNul (text.dropWhile isBlank) := by
  induction text with
  | nil => rfl
  | cons c rest ih =>
    by_cases isEnd : c = endOfText
    · subst isEnd
      rw [toNul_endOfText, List.dropWhile_cons_of_neg (by decide), toNul_endOfText]
      rfl
    · simp only [toNul_cons isEnd, List.dropWhile_cons]
      split
      · exact ih
      · exact (toNul_cons isEnd rest).symm

theorem lineBreak_toNul (text : List Char) : lineBreak (toNul text) = lineBreak text := by
  cases text with
  | nil => rfl
  | cons c rest =>
    by_cases isEnd : c = endOfText
    · subst isEnd
      rw [toNul_endOfText]
      rfl
    · rw [toNul_cons isEnd]
      by_cases feed : c = '\n'
      · subst feed
        rfl
      · by_cases seam : Seam [c] rest
        · have same : Seam [c] (toNul rest) := by
            rw [Seam, head?_toNul]
            exact seam
          rw [lineBreak_cons feed seam, lineBreak_cons feed same]
        · obtain ⟨isReturn, isFeed⟩ := Decidable.not_not.mp seam
          obtain ⟨tail, rfl⟩ : ∃ tail, rest = '\n' :: tail := List.head?_eq_some_iff.mp isFeed
          obtain rfl : c = '\r' := by simpa using isReturn
          rw [toNul_cons (by decide)]
          rfl

theorem drop_lineBreak_toNul (text : List Char) :
    (toNul text).drop (lineBreak text).length = toNul (text.drop (lineBreak text).length) := by
  have isFirst : lineBreak text <+: text := lineBreak_prefix text
  apply drop_toNul isFirst
  rcases lineBreak_cases text with none | feed | pair
  · simp [none]
  · simp [feed, endOfText]
  · simp [pair, endOfText]

end Text

theorem LineMode.ofText_toNul (text : List Char) : ofText (Text.toNul text) = ofText text := by
  unfold ofText
  rw [Text.dropWhile_toNul, Text.atLineEnd_toNul]
  cases text with
  | nil => rfl
  | cons c rest =>
    by_cases isEnd : c = endOfText
    · subst isEnd
      rw [Text.toNul_endOfText]
      simp [isBlank, Text.atLineEnd, endOfText]
    · rw [Text.toNul_cons isEnd]

/-! ## The layout up to a NUL -/

/-- The place in a text that ends at its first NUL. -/
def Place.toNul (p : Place) : Place := { p with rest := Text.toNul p.rest }

def Stretch.toNul (s : Stretch) : Stretch := { s with place := s.place.toNul }

namespace Stretch

theorem lineStart_toNul (nesting : Nesting) (text : List Char) :
    lineStart nesting (Text.toNul text) = (lineStart nesting text).toNul := by
  unfold lineStart
  rw [LineMode.ofText_toNul, Text.takeWhile_toNul, Text.dropWhile_toNul]
  cases LineMode.ofText text <;> rfl

theorem lineBreak_toNul (nesting : Nesting) (p : Piece) (text : List Char) :
    lineBreak nesting p (Text.toNul text) = (lineBreak nesting p text).toNul := by
  unfold lineBreak
  rw [lineStart_toNul]
  rfl

theorem ofPart_toNul {p : Place} {part : LinePart} (source : part.source <+: Text.line p.rest) :
    ofPart p.toNul part = (ofPart p part).toNul := by
  have inLine : Text.line p.rest <+: p.rest := ⟨_, Text.line_append_behindLine p.rest⟩
  have noEnd : endOfText ∉ part.source := by
    intro mem
    exact (Text.ne_of_mem_line (source.mem mem)).2 rfl
  have drop : p.toNul.rest.drop part.source.length =
      Text.toNul (p.rest.drop part.source.length) :=
    Text.drop_toNul (source.trans inLine) noEnd
  unfold ofPart
  dsimp only
  rw [drop, Text.lineBreak_toNul, Text.drop_lineBreak_toNul]
  generalize p.rest.drop part.source.length = rest
  cases part.openLiteral with
  | none => rfl
  | some literal =>
    obtain ⟨context, chars⟩ := literal
    dsimp only
    split
    · rfl
    · rw [lineBreak_toNul]
      rfl

end Stretch

namespace Place

/-- A scan does not see what stands behind a NUL. -/
theorem scan_toNul (p : Place) : p.toNul.scan = p.scan.toNul := by
  have part := Stretch.ofPart_toNul (p := { p with rest := p.rest.dropWhile isBlank })
    (p.mode.source_read (Text.line (p.rest.dropWhile isBlank)))
  unfold scan
  simp only [toNul, Text.takeWhile_toNul, Text.dropWhile_toNul, Text.lineBreak_toNul,
    Text.drop_lineBreak_toNul, Text.atLineEnd_toNul, Text.line_toNul] at part ⊢
  split
  · rw [Stretch.lineBreak_toNul]
    rfl
  · split
    · rfl
    · rw [part]
      rfl

/-- Neither does the layout. -/
theorem layout_toNul (p : Place) : p.toNul.layout = p.layout.toNul := by
  have ended (q : Place) : q.toNul.scan.ended = q.scan.ended := by
    rw [scan_toNul]
    rfl
  fun_induction layout p with
  | case1 p found => rw [layout_of_ended ((ended p).trans found), scan_toNul]
  | case2 p goesOn ih =>
    have goesOn := (Bool.not_eq_true _).mp goesOn
    rw [layout_of_goesOn ((ended p).trans goesOn), scan_toNul]
    exact congrArg (Stretch.behind p.scan.cells) ih

end Place

/-- A text has the tokens of the part in front of its first NUL. -/
theorem Lexer.tokens_toNul (text : List Char) (options : LexerOptions) :
    (ofText (Text.toNul text) options).tokens = (ofText text options).tokens := by
  have layout : Text.layout (Text.toNul text) = (Text.layout text).toNul :=
    Place.layout_toNul { rest := text }
  rw [tokens_ofText, tokens_ofText, layout]
  rfl

/-- A NUL cuts a text. What stands behind it changes nothing about the tokens,
and no token reaches past it. -/
theorem tokens_append_endOfText (a b : List Char) (options : LexerOptions) :
    (Lexer.ofText (a ++ endOfText :: b) options).tokens = (Lexer.ofText a options).tokens ∧
      ∀ t ∈ (Lexer.ofText (a ++ endOfText :: b) options).tokens, t.span.stop ≤ Text.width a := by
  have same : (Lexer.ofText (a ++ endOfText :: b) options).tokens =
      (Lexer.ofText a options).tokens := by
    rw [← Lexer.tokens_toNul, Text.toNul_append_endOfText, Lexer.tokens_toNul]
  refine ⟨same, ?_⟩
  intro t ht
  rw [same, Lexer.tokens_ofText] at ht
  exact (Text.isCut_of_mem_tokens ht).2.1

end RuleLexer
