import RuleLexer.Proofs.Reading

/-!
# Source text of tokens

A token tells how it is written. From its kind, its context and its value alone
its stretch of the text can be rebuilt, up to the style of a line break.

* `Mark.Shows`: how a token is written;
* `Piece.Form.shown`: pieces within a line are written like that;
* `Place.shown_scan`: so are the pieces that take a line break;
* `tokens_show_slice`: so is the slice of the text at every token's span.
-/

namespace RuleLexer

open Cell (source)

namespace Text

/-- The text with a line break of two characters at its end read as one line feed. -/
def foldEnd (text : List Char) : List Char :=
  match text.reverse with
  | '\n' :: '\r' :: front => front.reverse ++ ['\n']
  | _ => text

theorem foldEnd_eq_self {text : List Char} (noFeed : '\n' ∉ text) : foldEnd text = text := by
  unfold foldEnd
  split
  · rename_i front reversed
    have mem : '\n' ∈ text.reverse := by simp [reversed]
    exact absurd (List.mem_reverse.mp mem) noFeed
  · rfl

/-- A line break that is not cut off from a carriage return folds as a whole. -/
theorem foldEnd_append_lineBreak {chars lineBreak : List Char} (seam : Seam chars lineBreak)
    (isBreak : lineBreak = ['\n'] ∨ lineBreak = ['\r', '\n']) :
    foldEnd (chars ++ lineBreak) = chars ++ ['\n'] := by
  unfold foldEnd
  rcases isBreak with rfl | rfl
  · split
    · rename_i front reversed
      have last : chars.getLast? = some '\r' := by
        simp only [List.reverse_append, List.reverse_singleton, List.singleton_append,
          List.cons.injEq, true_and] at reversed
        rw [List.getLast?_eq_head?_reverse, reversed]
        rfl
      exact absurd ⟨last, rfl⟩ seam
    · rfl
  · simp

end Text

/-- How a token is written, read off what it says. A line break is written as a
line feed, or as a carriage return and a line feed. -/
def Mark.Shows (m : Mark) (slice : List Char) : Prop :=
  match m.kind, m.context with
  | .annotationName, _ | .error, .annotationName => slice = '@' :: m.value
  | .sectionName, _ | .label, _ | .annotationArgument, .sectionName =>
    slice = Literal.written .bracket m.value
  | .string, _ | .annotationArgument, .string => slice = Literal.written .quote m.value
  | .regex, _ => slice = Literal.written .slash m.value
  | .newLine, _ => m.value = ['\n'] ∧ (slice = ['\n'] ∨ slice = ['\r', '\n'])
  | .endOfFile, _ => slice = []
  | .error, _ => m.value = Text.foldEnd slice
  | _, _ => slice = m.value

/-- What a token says about its piece of text. -/
def Token.mark (t : Token) : Mark := ⟨t.kind, t.context, t.value.toList⟩

/-- The text of a piece is written as its mark says. -/
def Piece.Shown (p : Piece) : Prop := ∀ mark, p.mark = some mark → mark.Shows p.chars

namespace Mark

theorem shows_of_isPlain {kind context : TokenKind} {chars : List Char}
    (plain : Piece.isPlain kind = true) (context_ne : context ≠ .annotationName)
    (noFeed : '\n' ∉ chars) : Shows ⟨kind, context, chars⟩ chars := by
  cases kind
  case error =>
    have folded : chars = Text.foldEnd chars := (Text.foldEnd_eq_self noFeed).symm
    cases context <;> first | exact folded | exact absurd rfl context_ne
  case value | operator | atSign | openParens | closeParens | comma => rfl
  all_goals cases plain

theorem shows_of_yields {d : Delimiter} {kind context : TokenKind}
    (yields : d.yields kind context = true) (body : List Char) :
    Shows ⟨kind, context, body⟩ (Literal.written d body) := by
  cases d with
  | bracket =>
    cases kind
    case sectionName | label => rfl
    case annotationArgument => cases context <;> first | rfl | cases yields
    all_goals cases yields
  | quote =>
    cases kind
    case string => rfl
    case annotationArgument => cases context <;> first | rfl | cases yields
    all_goals cases yields
  | slash =>
    cases kind
    case regex => rfl
    all_goals cases yields

/-- An open literal shows the line break that it takes. -/
theorem shows_openLiteral {context : TokenKind} {chars lineBreak : List Char}
    (context_ne : context ≠ .annotationName) (seam : Text.Seam chars lineBreak)
    (isBreak : lineBreak = ['\n'] ∨ lineBreak = ['\r', '\n']) :
    Shows ⟨.error, context, chars ++ ['\n']⟩ (chars ++ lineBreak) := by
  have folded : chars ++ ['\n'] = Text.foldEnd (chars ++ lineBreak) :=
    (Text.foldEnd_append_lineBreak seam isBreak).symm
  cases context <;> first | exact folded | exact absurd rfl context_ne

end Mark

/-- Within a line, every piece shows its text. -/
theorem Piece.Form.shown {inList : Bool} {p : Piece} (h : p.Form inList)
    (noFeed : '\n' ∉ p.chars) : p.Shown := by
  intro mark marked
  cases h with
  | blanks | listMark => cases marked
  | indent =>
    cases marked
    rfl
  | plain plain context_ne =>
    cases marked
    exact Mark.shows_of_isPlain plain context_ne noFeed
  | annotationHead =>
    cases marked
    rfl
  | badHead =>
    cases marked
    rfl
  | literal yields =>
    cases marked
    exact Mark.shows_of_yields yields _
  | newLine isBreak =>
    rcases isBreak with rfl | rfl <;> simp at noFeed
  | openLiteral isOpen context_ne isBreak =>
    rcases isBreak with rfl | rfl <;> simp at noFeed

/-- Every piece of a scan shows its text. -/
theorem Place.shown_scan (p : Place) : ∀ c ∈ p.scan.cells, c.piece.Shown := by
  have noFeed := Text.lineFeed_notMem_line p.rest
  have scanned := p.scan_scanned
  generalize p.scan = s at scanned
  cases scanned with
  | within tail line _ _ _ forms =>
    intro c hc
    rw [line] at noFeed
    apply (forms c hc).shown
    intro mem
    exact noFeed (List.mem_append_left _ (Cell.mem_source hc mem))
  | @across cells piece tail line chars found depth forms taken =>
    have isBreak := (Text.lineBreak_cases _).resolve_left found
    -- the line does not end inside a line break, so neither does its tail
    have seam : Text.Seam tail (Text.lineBreak (Text.behindLine p.rest)) := by
      have whole := Text.seam_line p.rest
      rw [line] at whole
      exact (whole.of_suffix (List.suffix_append _ _)).of_first (Text.lineBreak_prefix _)
    rw [line, List.mem_append, not_or] at noFeed
    intro c hc
    rcases List.mem_append.mp hc with hc | hc
    · apply (forms c hc).shown
      intro mem
      exact noFeed.1 (Cell.mem_source hc mem)
    · rcases List.mem_cons.mp hc with rfl | hc
      · intro mark marked
        rcases taken with ⟨newLine, rfl⟩ | ⟨context, context_ne, -, literal⟩
        · rw [newLine] at marked
          cases marked
          rw [List.nil_append] at chars
          exact ⟨rfl, chars ▸ isBreak⟩
        · rw [literal] at marked
          cases marked
          dsimp only
          rw [chars]
          exact Mark.shows_openLiteral context_ne seam isBreak
      · apply (Stretch.forms_lineStart _ _ c hc).shown
        intro mem
        cases Stretch.lineStart_blanks _ _ '\n' (Cell.mem_source hc mem)

theorem Text.shown_layout (text : List Char) : ∀ c ∈ (layout text).cells, c.piece.Shown :=
  Place.forall_mem_layout Place.shown_scan _

/-- Every token is written in the text as it says: its kind, context and value
give the slice at its span, up to the style of a line break. -/
theorem tokens_show_slice (text : List Char) (options : LexerOptions) :
    ∀ t ∈ (Lexer.ofText text options).tokens, ∃ slice,
      Text.slice? text t.span.start t.span.stop = some slice ∧ t.mark.Shows slice := by
  intro t ht
  rw [Lexer.tokens_ofText] at ht
  rcases List.mem_append.mp ht with ht | ht
  · obtain ⟨a, c, b, split, token⟩ := Cell.mem_tokens_iff.mp ht
    obtain ⟨mark, marked, -, rfl⟩ := Cell.token?_eq_some_iff.mp token
    have shown : c.piece.Shown := Text.shown_layout text c (by simp [split])
    have slice := Text.slice?_width_append (source a) c.piece.chars
      (source b ++ (Text.layout text).place.rest)
    rw [← Text.whole_layout split] at slice
    refine ⟨c.piece.chars, by simpa using slice, ?_⟩
    simpa [Token.mark] using shown mark marked
  · obtain rfl := List.mem_singleton.mp ht
    refine ⟨[], ?_, rfl⟩
    have slice := Text.slice?_width_append (source (Text.layout text).cells) []
      (Text.layout text).place.rest
    rw [List.append_nil, Text.source_layout] at slice
    simpa [Span.empty] using slice

/-- Behind a string with a doubled quote, a label that a line break of two
characters leaves open. -/
theorem tokens_show_slice_mixed :
    let text := ['"', 'a', '"', '"', '"', '-', '>', '[', 'b', '\r', '\n']
    let label : Token := ⟨⟨7, 11⟩, 1, .error, .label, "[b\n"⟩
    label ∈ (Lexer.ofText text {}).tokens ∧
      ∃ slice, Text.slice? text 7 11 = some slice ∧ label.mark.Shows slice := by
  intro text label
  have mem : label ∈ (Lexer.ofText text {}).tokens := by
    rw [Lexer.tokens_ofText, Text.layout, Place.layout_of_goesOn (by decide),
      Place.layout_of_ended (by decide)]
    decide +kernel
  exact ⟨mem, tokens_show_slice text {} label mem⟩

end RuleLexer
