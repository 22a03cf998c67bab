import RuleLexer.Proofs.Arguments
import RuleLexer.Proofs.DocumentOrder

/-!
# Coverage

No input is lost silently. A byte of the text lies in exactly one token, unless
it is a blank, or punctuation of an argument list.

* `covering_layout`: the tokens over a byte are those of the cell that it lies in;
* `uncovered_of_token?`: what a cell without a token can be;
* `lineFeed_layout`: which cells hold line feeds;
* `tokens_cover`: so much holds of every byte up to the first NUL.
-/

namespace RuleLexer

open Cell (source)

/-- The tokens over a byte. -/
def Token.covering (tokens : List Token) (n : Nat) : List Token :=
  tokens.filter fun t => t.span.start ≤ n ∧ n < t.span.stop

namespace Text

/-- A character of the text starts at an offset. -/
def HasAt (text : List Char) (offset : Nat) (c : Char) : Prop :=
  ∃ before behind, text = before ++ c :: behind ∧ width before = offset

/-- An offset lies in the argument list of an annotation, which reaches from the
parenthesis behind the name to the parenthesis that closes it or to the line end. -/
def InArguments (text : List Char) (tokens : List Token) (n : Nat) : Prop :=
  ∃ t ∈ tokens, t.kind = .annotationName ∧
    ∃ before behind, text = before ++ '(' :: behind ∧ width before = t.span.stop ∧
      t.span.stop ≤ n ∧ n < t.span.stop + width ('(' :: ArgumentList.extent (line behind))

/-- What a byte that lies in no token can be. -/
inductive Uncovered (options : LexerOptions) (text : List Char) (tokens : List Token) (n : Nat) :
    Prop
  | blank {c : Char} (there : HasAt text n c) (blank : c = ' ' ∨ c = '\t')
  | listMark {c : Char} (there : HasAt text n c) (mark : c = '(' ∨ c = ',' ∨ c = ')')
      (inside : InArguments text tokens n)
  /-- Without trivia, a line break is left out as a whole. -/
  | lineBreak {before lineBreak behind : List Char} (noTrivia : options.emitTrivia = false)
      (whole : text = before ++ lineBreak ++ behind)
      (isBreak : lineBreak = ['\n'] ∨ lineBreak = ['\r', '\n'])
      (seam : Seam before (lineBreak ++ behind))
      (inside : width before ≤ n ∧ n < width before + width lineBreak)
      (uncovered : ∀ m, width before ≤ m → m < width before + width lineBreak →
        Token.covering tokens m = [])

theorem utf8Size_of_isBlank {c : Char} (h : isBlank c = true) : c.utf8Size = 1 := by
  have : c = ' ' ∨ c = '\t' := by simpa [isBlank] using h
  rcases this with rfl | rfl <;> rfl

/-- The character that a byte belongs to. -/
theorem exists_char {text : List Char} {n : Nat} (h : n < width text) :
    ∃ a c b, text = a ++ c :: b ∧ width a ≤ n ∧ n < width a + c.utf8Size := by
  induction text generalizing n with
  | nil => simp at h
  | cons c rest ih =>
    rw [width_cons] at h
    by_cases inside : n < c.utf8Size
    · exact ⟨[], c, rest, rfl, Nat.zero_le n, by simpa using inside⟩
    · obtain ⟨a, d, b, rfl, start, stop⟩ := ih (n := n - c.utf8Size) (by omega)
      refine ⟨c :: a, d, b, rfl, ?_, ?_⟩
      · rw [width_cons]
        omega
      · rw [width_cons]
        omega

/-- A byte belongs to one character only. -/
theorem char_unique {a b x y : List Char} {c d : Char} (h : a ++ c :: b = x ++ d :: y)
    (start : width a ≤ width x) (stop : width x < width a + c.utf8Size) : a = x ∧ c = d := by
  rcases List.append_eq_append_iff.mp h with ⟨more, rfl, rest⟩ | ⟨more, rfl, rest⟩
  · cases more with
    | nil => exact ⟨(List.append_nil a).symm, (List.cons.inj rest).1⟩
    | cons e more =>
      obtain ⟨rfl, -⟩ := List.cons.inj rest
      rw [width_append, width_cons] at stop
      omega
  · cases more with
    | nil => exact ⟨List.append_nil x, (List.cons.inj rest).1.symm⟩
    | cons e more =>
      have := e.utf8Size_pos
      rw [width_append, width_cons] at start
      omega

end Text

namespace Cell

/-- The cell that a byte lies in. -/
theorem exists_cell {cells : List Cell} {n : Nat} (h : n < Text.width (source cells)) :
    ∃ a c b, cells = a ++ c :: b ∧ Text.width (source a) ≤ n ∧
      n < Text.width (source a) + Text.width c.piece.chars := by
  induction cells generalizing n with
  | nil => simp at h
  | cons c cells ih =>
    rw [source_cons, Text.width_append] at h
    by_cases inside : n < Text.width c.piece.chars
    · exact ⟨[], c, cells, rfl, Nat.zero_le n, by simpa using inside⟩
    · obtain ⟨a, d, b, rfl, start, stop⟩ := ih (n := n - Text.width c.piece.chars) (by omega)
      refine ⟨c :: a, d, b, rfl, ?_, ?_⟩
      · rw [source_cons, Text.width_append]
        omega
      · rw [source_cons, Text.width_append]
        omega

/-- The tokens over a byte are those of the cell that it lies in. -/
theorem covering_layout (options : LexerOptions) {text : List Char} {a b : List Cell} {c : Cell}
    (split : (Text.layout text).cells = a ++ c :: b) {n : Nat} (start : Text.width (source a) ≤ n)
    (stop : n < Text.width (source a) + Text.width c.piece.chars) :
    Token.covering ((Text.layout text).tokens options 0) n =
      (c.token? options (Text.width (source a))).toList := by
  have before : (tokens options 0 a).filter (fun t => t.span.start ≤ n ∧ n < t.span.stop) = [] := by
    apply List.filter_eq_nil_iff.mpr
    intro t ht covers
    have bounds := bounds_of_mem_tokens ht
    have := (of_decide_eq_true covers).2
    omega
  have behind : (tokens options (Text.width (source a) + Text.width c.piece.chars) b).filter
      (fun t => t.span.start ≤ n ∧ n < t.span.stop) = [] := by
    apply List.filter_eq_nil_iff.mpr
    intro t ht covers
    have bounds := bounds_of_mem_tokens ht
    have := (of_decide_eq_true covers).1
    omega
  have own : (c.token? options (Text.width (source a))).toList.filter
      (fun t => t.span.start ≤ n ∧ n < t.span.stop) =
        (c.token? options (Text.width (source a))).toList := by
    apply List.filter_eq_self.mpr
    intro t ht
    have span := (span_of_token? (Option.mem_toList.mp ht)).1
    simp only [span]
    exact decide_eq_true ⟨start, stop⟩
  unfold Token.covering Stretch.tokens
  rw [split, tokens_append, tokens, List.filter_append, List.filter_append, List.filter_append,
    Nat.zero_add, before, behind, own]
  simp [Span.empty]

end Cell

theorem Piece.isTrivia_of_isPlain {kind : TokenKind} (h : isPlain kind = true) :
    kind.isTrivia = false := by
  cases kind <;> first | rfl | cases h

theorem Delimiter.isTrivia_of_yields {d : Delimiter} {kind context : TokenKind}
    (h : d.yields kind context = true) : kind.isTrivia = false := by
  cases kind <;> first | rfl | (cases d <;> cases h)

/-- What is passed over in silence is blank, or punctuation of a list. -/
theorem Piece.Form.of_silent {inList : Bool} {p : Piece} (h : p.Form inList)
    (silent : p.mark = none) :
    (∀ c ∈ p.chars, isBlank c = true) ∨ ∃ c, (c = '(' ∨ c = ',' ∨ c = ')') ∧ p.chars = [c] := by
  cases h with
  | blanks blank => exact .inl blank
  | @listMark c _ mark => exact .inr ⟨c, mark, rfl⟩
  | indent | plain | annotationHead | badHead | literal | newLine | openLiteral => cases silent

/-- Trivia is blank or a line break. -/
theorem Piece.Form.of_isTrivia {inList : Bool} {p : Piece} (h : p.Form inList) {mark : Mark}
    (marked : p.mark = some mark) (trivia : mark.kind.isTrivia = true) :
    (∀ c ∈ p.chars, isBlank c = true) ∨ p.chars = ['\n'] ∨ p.chars = ['\r', '\n'] := by
  cases h with
  | blanks | listMark => cases marked
  | indent _ blank => exact .inl blank
  | newLine isBreak => exact .inr isBreak
  | plain plain =>
    cases marked
    rw [isTrivia_of_isPlain plain] at trivia
    cases trivia
  | annotationHead | badHead | openLiteral =>
    cases marked
    cases trivia
  | literal yields =>
    cases marked
    rw [Delimiter.isTrivia_of_yields yields] at trivia
    cases trivia

namespace Text

variable {text : List Char} {options : LexerOptions} {a b : List Cell} {c : Cell} {n : Nat}

theorem uncovered_of_blank {tokens : List Token} (split : (layout text).cells = a ++ c :: b)
    (start : width (source a) ≤ n) (stop : n < width (source a) + width c.piece.chars)
    (blank : ∀ x ∈ c.piece.chars, isBlank x = true) : Uncovered options text tokens n := by
  have inside : n - width (source a) < width c.piece.chars := by omega
  obtain ⟨x, d, y, chars, low, high⟩ := exists_char inside
  have blank : isBlank d = true := blank d (by simp [chars])
  rw [utf8Size_of_isBlank blank] at high
  apply Uncovered.blank (c := d)
  · refine ⟨source a ++ x, y ++ (source b ++ (layout text).place.rest), ?_, ?_⟩
    · have whole := whole_layout split
      rw [chars] at whole
      simpa using whole
    · rw [width_append]
      omega
  · simpa [isBlank] using blank

theorem inArguments_of_inList (options : LexerOptions) (split : (layout text).cells = a ++ c :: b)
    (inList : Cell.InList text a c) (low : width (source a) ≤ n)
    (high : n < width (source a) + width c.piece.chars) :
    InArguments text ((layout text).tokens options 0) n := by
  obtain ⟨front, name, depth, mid, rest, rfl, whole, more, inside⟩ := inList
  have within := congrArg width inside
  simp only [Cell.source_append, Cell.source_cons, Piece.chars_valued, width_append]
    at low high within
  refine ⟨⟨⟨width (source front), width (source front) + width ('@' :: name)⟩, depth,
    .annotationName, .none, String.ofList name⟩, ?_, rfl, source front ++ '@' :: name, rest, whole,
    ?_, ?_, ?_⟩
  · apply List.mem_append_left
    apply Cell.mem_tokens_iff.mpr
    refine ⟨front, _, mid ++ c :: b, by rw [split, List.append_assoc, List.cons_append], ?_⟩
    rw [Nat.zero_add]
    exact Cell.token?_eq_some_iff.mpr ⟨_, rfl, .inr rfl, rfl⟩
  · exact width_append _ _
  · dsimp only
    omega
  · dsimp only
    omega

/-- What a cell without a token can be. -/
theorem uncovered_of_token? (split : (layout text).cells = a ++ c :: b)
    (none : c.token? options (width (source a)) = none) (start : width (source a) ≤ n)
    (stop : n < width (source a) + width c.piece.chars) :
    Uncovered options text ((layout text).tokens options 0) n := by
  have form := forms_layout text c (by simp [split])
  have whole := whole_layout split
  cases hmark : c.piece.mark with
  | none =>
    rcases Place.listed_layout { rest := text } a c b split hmark with blank | inList
    · exact uncovered_of_blank split start stop blank
    · have inArguments := inArguments_of_inList options split inList start stop
      rcases form.of_silent hmark with blank | ⟨d, mark, chars⟩
      · exact uncovered_of_blank split start stop blank
      · have ascii : d.utf8Size = 1 := by
          rcases mark with rfl | rfl | rfl <;> rfl
        rw [chars, width_cons, width_nil, ascii] at stop
        apply Uncovered.listMark _ mark inArguments
        refine ⟨source a, source b ++ (layout text).place.rest, ?_, by omega⟩
        rw [chars] at whole
        simpa using whole
  | some mark =>
    have hidden : options.emitTrivia = false ∧ mark.kind.isTrivia = true := by
      unfold Cell.token? at none
      rw [hmark] at none
      simpa using none
    rcases form.of_isTrivia hmark hidden.2 with blank | isBreak
    · exact uncovered_of_blank split start stop blank
    · apply Uncovered.lineBreak hidden.1 whole isBreak
      · have seam := seams_layout split
        simpa using seam
      · exact ⟨start, stop⟩
      · intro m low high
        rw [Cell.covering_layout options split low high, none]
        rfl

end Text

/-! ## Line feeds -/

/-- A cell that ends with its only line feed, and is a line break or an open literal. -/
def Cell.EndsLine (c : Cell) : Prop :=
  (∃ front, c.piece.chars = front ++ ['\n'] ∧ '\n' ∉ front) ∧
    (c.piece = .valued .newLine .none ['\n'] c.piece.chars ∨
      ∃ context chars lineBreak, c.piece = .valued .error context (chars ++ ['\n']) c.piece.chars ∧
        c.piece.chars = chars ++ lineBreak ∧ Literal.IsOpen chars ∧
        (lineBreak = ['\n'] ∨ lineBreak = ['\r', '\n']))

/-- Line feeds stand at the end of cells only. -/
theorem Place.lineFeed_scan (p : Place) :
    ∀ c ∈ p.scan.cells, '\n' ∈ c.piece.chars → c.EndsLine := by
  have noFeed := Text.lineFeed_notMem_line p.rest
  have scanned := p.scan_scanned
  generalize p.scan = s at scanned
  cases scanned with
  | within tail line =>
    intro c hc mem
    rw [line] at noFeed
    exact absurd (List.mem_append_left _ (Cell.mem_source hc mem)) noFeed
  | @across cells piece tail line chars found depth forms taken =>
    intro c hc mem
    have isBreak := (Text.lineBreak_cases _).resolve_left found
    rw [line, List.mem_append, not_or] at noFeed
    obtain ⟨noFeed, noFeedBehind⟩ := noFeed
    rcases List.mem_append.mp hc with hc | hc
    · exact absurd (Cell.mem_source hc mem) noFeed
    · rcases List.mem_cons.mp hc with rfl | hc
      · constructor
        · rcases isBreak with feed | pair
          · exact ⟨tail, by rw [chars, feed], noFeedBehind⟩
          · exact ⟨tail ++ ['\r'], by simp [chars, pair], by simpa using noFeedBehind⟩
        · rcases taken with ⟨newLine, -⟩ | ⟨context, -, isOpen, literal⟩
          · exact .inl newLine
          · exact .inr ⟨context, tail, _, literal, chars, isOpen, isBreak⟩
      · have blank := Stretch.lineStart_blanks _ _ '\n' (Cell.mem_source hc mem)
        cases blank

theorem Text.lineFeed_layout (text : List Char) :
    ∀ c ∈ (layout text).cells, '\n' ∈ c.piece.chars → c.EndsLine :=
  Place.forall_mem_layout Place.lineFeed_scan { rest := text }

/-- The error that a literal is when it was left open, with the line break that it takes. -/
def Token.IsOpenLiteral (text : List Char) (t : Token) : Prop :=
  t.kind = .error ∧ ∃ chars lineBreak,
    Text.slice? text t.span.start t.span.stop = some (chars ++ lineBreak) ∧
      Literal.IsOpen chars ∧ (lineBreak = ['\n'] ∨ lineBreak = ['\r', '\n'])

namespace Text

variable {text : List Char} {options : LexerOptions} {n : Nat}

/-- Every byte in a cell lies in exactly one token, or may lie in none. -/
theorem covering_or_uncovered (h : n < width (source (layout text).cells)) :
    let tokens := (layout text).tokens options 0
    (∃ t, Token.covering tokens n = [t]) ∨
      Token.covering tokens n = [] ∧ Uncovered options text tokens n := by
  obtain ⟨a, c, b, split, start, stop⟩ := Cell.exists_cell h
  intro tokens
  have covering : Token.covering tokens n = _ := Cell.covering_layout options split start stop
  cases token : c.token? options (width (source a)) with
  | none =>
    rw [token] at covering
    exact .inr ⟨covering, uncovered_of_token? split token start stop⟩
  | some t =>
    rw [token] at covering
    exact .inl ⟨t, covering⟩

theorem lineFeed_last {x y front : List Char} (h : x ++ '\n' :: y = front ++ ['\n'])
    (noFeed : '\n' ∉ front) : y = [] := by
  rcases List.append_eq_append_iff.mp h with ⟨more, rfl, rest⟩ | ⟨more, rfl, rest⟩
  · cases more with
    | nil => exact (List.cons.inj rest).2
    | cons c more =>
      obtain ⟨rfl, -⟩ := List.cons.inj rest
      simp at noFeed
  · have := congrArg List.length rest
    apply List.eq_nil_of_length_eq_zero
    simp only [List.length_append, List.length_cons, List.length_nil] at this
    omega

/-- The cell that a line feed lies in ends with it. -/
theorem exists_cell_lineFeed {before behind : List Char} (whole : text = before ++ '\n' :: behind)
    (h : width before < width (source (layout text).cells)) :
    ∃ a c b, (layout text).cells = a ++ c :: b ∧ c.EndsLine ∧ width (source a) ≤ width before ∧
      width (source a) + width c.piece.chars = width before + 1 := by
  obtain ⟨a, c, b, split, start, stop⟩ := Cell.exists_cell h
  have inside : width before - width (source a) < width c.piece.chars := by omega
  obtain ⟨x, d, y, chars, low, high⟩ := exists_char inside
  -- the character of the cell at this offset is the line feed
  have same : source a ++ x = before ∧ d = '\n' := by
    have both : (source a ++ x) ++ d :: (y ++ (source b ++ (layout text).place.rest)) =
        before ++ '\n' :: behind := by
      have whole' := whole_layout split
      rw [← whole]
      rw [chars] at whole'
      simpa using whole'.symm
    apply char_unique both
    · rw [width_append]
      omega
    · rw [width_append]
      omega
  obtain ⟨rfl, rfl⟩ := same
  have endsLine : c.EndsLine := lineFeed_layout text c (by simp [split]) (by simp [chars])
  obtain ⟨front, ends, noFeed⟩ := endsLine.1
  obtain rfl : y = [] := lineFeed_last (chars.symm.trans ends) noFeed
  refine ⟨a, c, b, split, endsLine, start, ?_⟩
  rw [chars, width_append, width_append, Nat.add_assoc]
  rfl

/-- With trivia, a cell that ends with a line feed has a token. -/
theorem exists_token_lineFeed {a b : List Cell} {c : Cell}
    (split : (layout text).cells = a ++ c :: b) (endsLine : c.EndsLine)
    (trivia : options.emitTrivia = true) :
    ∃ t, c.token? options (width (source a)) = some t ∧
      t.span.stop = width (source a) + width c.piece.chars ∧
      (t.kind = .newLine ∨ t.IsOpenLiteral text) := by
  have token {mark : Mark} (marked : c.piece.mark = some mark) :
      c.token? options (width (source a)) =
        some ⟨⟨width (source a), width (source a) + width c.piece.chars⟩, c.depth, mark.kind,
          mark.context, String.ofList mark.value⟩ :=
    Cell.token?_eq_some_iff.mpr ⟨mark, marked, .inl trivia, rfl⟩
  rcases endsLine.2 with newLine | ⟨context, chars, lineBreak, error, written, isOpen, isBreak⟩
  · have marked : c.piece.mark = some ⟨.newLine, .none, ['\n']⟩ := by
      rw [newLine]
      rfl
    exact ⟨_, token marked, rfl, .inl rfl⟩
  · have marked : c.piece.mark = some ⟨.error, context, chars ++ ['\n']⟩ := by
      rw [error]
      rfl
    have slice := slice?_width_append (source a) c.piece.chars
      (source b ++ (layout text).place.rest)
    rw [← whole_layout split, written] at slice
    refine ⟨_, token marked, rfl, .inr ⟨rfl, chars, lineBreak, ?_, isOpen, isBreak⟩⟩
    rw [written]
    exact slice

/-- With trivia, every line feed lies in exactly one token, which ends with it. -/
theorem covering_lineFeed (trivia : options.emitTrivia = true) {before behind : List Char}
    (whole : text = before ++ '\n' :: behind)
    (h : width before < width (source (layout text).cells)) :
    ∃ t, Token.covering ((layout text).tokens options 0) (width before) = [t] ∧
      t.span.stop = width before + 1 ∧ (t.kind = .newLine ∨ t.IsOpenLiteral text) := by
  obtain ⟨a, c, b, split, endsLine, start, stop⟩ := exists_cell_lineFeed whole h
  obtain ⟨t, token, stops, form⟩ := exists_token_lineFeed split endsLine trivia
  have covering := Cell.covering_layout options split start (by omega)
  rw [token] at covering
  exact ⟨t, covering, stops.trans stop, form⟩

end Text

/-- No input is lost. Every byte up to the first NUL lies in exactly one token,
unless it is a blank, punctuation of an argument list or, without trivia, part
of a line break. With trivia, every line feed ends the one token that it lies
in, which is a line break or a literal that the line break left open. -/
theorem tokens_cover (text : List Char) (options : LexerOptions) :
    let tokens := (Lexer.ofText text options).tokens
    ∃ front last, tokens = front ++ [last] ∧ last.kind = .endOfFile ∧
      last.span.start = Text.width (text.takeWhile (· ≠ endOfText)) ∧
      (∀ n < last.span.start, (∃ t, Token.covering tokens n = [t]) ∨
        Token.covering tokens n = [] ∧ Text.Uncovered options text tokens n) ∧
      (options.emitTrivia = true → ∀ before behind, text = before ++ '\n' :: behind →
        Text.width before < last.span.start →
          ∃ t, Token.covering tokens (Text.width before) = [t] ∧
            t.span.stop = Text.width before + 1 ∧ (t.kind = .newLine ∨ t.IsOpenLiteral text)) := by
  rw [Lexer.tokens_ofText]
  refine ⟨_, _, rfl, rfl, ?_, ?_, ?_⟩
  · simp only [Span.empty, Nat.zero_add, Text.source_layout_eq]
  · intro n h
    simp only [Span.empty, Nat.zero_add] at h
    exact Text.covering_or_uncovered h
  · intro trivia before behind whole h
    simp only [Span.empty, Nat.zero_add] at h
    exact Text.covering_lineFeed trivia whole h

end RuleLexer
