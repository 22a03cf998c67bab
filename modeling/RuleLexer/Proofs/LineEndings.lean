import RuleLexer.Proofs.DocumentOrder
import RuleLexer.Proofs.Positions

/-!
# Line endings

A text can be folded: every line break of two characters becomes one line feed.
Lexing does not tell a text from its folded form, but for the offsets.

* `line_fold`: folding leaves lines alone;
* `scan_fold`, `layout_fold`: the layout of a folded text is the folded layout;
* `locatedTokens_fold`: tokens agree in all but their spans, and offsets differ
  by the line breaks that were folded before them.

A carriage return in front of a line break of two characters is ordinary text,
but would form a line break with what is left of that one. Texts with one are
left aside.
-/

namespace RuleLexer

open Cell (source)

namespace Text

/-- The text with every line break of two characters replaced by a line feed. -/
def fold : List Char → List Char
  | [] => []
  | '\r' :: '\n' :: rest => '\n' :: fold rest
  | c :: rest => c :: fold rest

/-- The number of line breaks of two characters. -/
def pairs : List Char → Nat
  | [] => 0
  | '\r' :: '\n' :: rest => pairs rest + 1
  | _ :: rest => pairs rest

/-- An offset less the number of line breaks of two characters in front of it. -/
def foldOffset (text : List Char) (offset : Nat) : Nat :=
  offset - pairs ((slice? text 0 offset).getD [])

theorem fold_cons {c : Char} {rest : List Char} (h : Seam [c] rest) :
    fold (c :: rest) = c :: fold rest :=
  fold.eq_3 c rest (seam_singleton.mp h)

theorem fold_append {a b : List Char} (h : Seam a b) : fold (a ++ b) = fold a ++ fold b := by
  fun_induction fold a with
  | case1 => rfl
  | case2 rest ih =>
    simp only [List.cons_append, fold]
    rw [ih (h.of_suffix ⟨['\r', '\n'], rfl⟩)]
  | case3 c rest noPair ih =>
    have seam : Seam [c] (rest ++ b) := by
      cases rest with
      | nil => exact h
      | cons d rest => exact seam_singleton.mpr (by simpa using noPair)
    rw [List.cons_append, fold_cons seam, ih (h.of_suffix ⟨[c], rfl⟩), List.cons_append]

/-- What holds no line feed is its own folded form. -/
theorem fold_eq_self {text : List Char} (h : '\n' ∉ text) : fold text = text := by
  fun_induction fold text with
  | case1 => rfl
  | case2 rest ih => simp at h
  | case3 c rest noPair ih => rw [ih (fun mem => h (List.mem_cons_of_mem c mem))]

theorem width_fold_add_pairs (text : List Char) : width (fold text) + pairs text = width text := by
  have feed : '\n'.utf8Size = 1 := rfl
  have ret : '\r'.utf8Size = 1 := rfl
  fun_induction fold text with
  | case1 => rfl
  | case2 rest ih =>
    simp only [width_cons, pairs]
    omega
  | case3 c rest noPair ih =>
    rw [pairs.eq_3 c rest noPair, width_cons, width_cons]
    omega

/-- The offsets of a cut in a text and in its folded form. -/
theorem foldOffset_width (a b : List Char) : foldOffset (a ++ b) (width a) = width (fold a) := by
  have := width_fold_add_pairs a
  rw [foldOffset, slice?_zero_width, Option.getD_some]
  omega

/-- A first part of a line needs no folding. -/
theorem fold_of_line {text a b : List Char} (split : line text = a ++ b) :
    fold text = a ++ fold (b ++ behindLine text) := by
  have whole := line_append_behindLine text
  have seam : Seam a (b ++ behindLine text) := by
    simpa using (Seam.nil text).append_line split
  have noFeed := lineFeed_notMem_line text
  rw [split, List.mem_append, not_or] at noFeed
  rw [split, List.append_assoc] at whole
  have parts := fold_append seam
  rwa [whole, fold_eq_self noFeed.1] at parts

/-! ## Lines of a folded text -/

/-- No carriage return stands in front of a line break of two characters. -/
def Plain (text : List Char) : Prop := ¬ ['\r', '\r', '\n'] <:+: text

theorem Plain.of_suffix {a b : List Char} (h : Plain b) (suffix : a <:+ b) : Plain a := by
  intro inside
  exact h (inside.trans suffix.isInfix)

theorem head?_fold {text : List Char} : (fold text).head? = some '\n' ↔
    text.head? = some '\n' ∨ ∃ rest, text = '\r' :: '\n' :: rest := by
  fun_cases fold text with
  | case1 => simp
  | case2 rest => simp
  | case3 c rest noPair =>
    constructor
    · intro feed
      exact .inl feed
    · rintro (feed | ⟨tail, pair⟩)
      · exact feed
      · obtain ⟨isReturn, rest⟩ := List.cons.inj pair
        exact (noPair tail isReturn rest).elim

variable {text : List Char}

/-- Behind a carriage return of its own, folding forms no line break. -/
theorem Plain.seam_fold {c : Char} {rest : List Char} (h : Plain (c :: rest))
    (seam : Seam [c] rest) : Seam [c] (fold rest) := by
  rintro ⟨isReturn, feed⟩
  obtain rfl : c = '\r' := by simpa using isReturn
  rcases head?_fold.mp feed with feed | ⟨tail, rfl⟩
  · exact seam ⟨isReturn, feed⟩
  · exact h ⟨[], tail, rfl⟩

theorem atLineEnd_fold (h : Plain text) : atLineEnd (fold text) = atLineEnd text := by
  fun_cases fold text with
  | case1 => rfl
  | case2 rest => simp [atLineEnd]
  | case3 c rest noPair =>
    have seam := seam_singleton.mpr noPair
    rw [atLineEnd_cons seam, atLineEnd_cons (h.seam_fold seam)]

theorem line_fold (h : Plain text) : line (fold text) = line text := by
  fun_induction fold text with
  | case1 => rfl
  | case2 rest => simp [line, atLineEnd]
  | case3 c rest noPair ih =>
    have same := atLineEnd_fold h
    rw [fold.eq_3 c rest noPair] at same
    simp only [line, same, ih (h.of_suffix (List.suffix_cons c rest))]

theorem takeWhile_fold (text : List Char) :
    (fold text).takeWhile isBlank = text.takeWhile isBlank := by
  fun_induction fold text with
  | case1 => rfl
  | case2 rest => simp [isBlank]
  | case3 c rest noPair ih => simp only [List.takeWhile_cons, ih]

theorem dropWhile_fold (text : List Char) :
    (fold text).dropWhile isBlank = fold (text.dropWhile isBlank) := by
  fun_induction fold text with
  | case1 => rfl
  | case2 rest => simp [isBlank, fold]
  | case3 c rest noPair ih =>
    simp only [List.dropWhile_cons, ih]
    split
    · rfl
    · exact (fold.eq_3 c rest noPair).symm

/-- A line break is folded with the text around it or on its own. -/
theorem lineBreak_fold (h : Plain text) :
    lineBreak (fold text) = fold (lineBreak text) ∧
      (fold text).drop (lineBreak (fold text)).length =
        fold (text.drop (lineBreak text).length) := by
  fun_cases fold text with
  | case1 => exact ⟨rfl, rfl⟩
  | case2 rest => exact ⟨rfl, rfl⟩
  | case3 c rest noPair =>
    by_cases feed : c = '\n'
    · subst feed
      exact ⟨rfl, rfl⟩
    · have seam := seam_singleton.mpr noPair
      rw [lineBreak_cons feed seam, lineBreak_cons feed (h.seam_fold seam)]
      exact ⟨rfl, (fold_cons seam).symm⟩

theorem lineBreak_fold_eq_nil_iff (h : Plain text) :
    lineBreak (fold text) = [] ↔ lineBreak text = [] := by
  rw [(lineBreak_fold h).1]
  rcases lineBreak_cases text with none | feed | pair
  · simp [none, fold]
  · simp [feed, fold]
  · simp [pair, fold]

theorem lineFeed_notMem_takeWhile (text : List Char) : '\n' ∉ text.takeWhile isBlank := by
  intro mem
  cases isBlank_of_mem_takeWhile mem

end Text

theorem LineMode.ofText_fold {text : List Char} (h : Text.Plain text) :
    ofText (Text.fold text) = ofText text := by
  have plain : Text.Plain (text.dropWhile isBlank) := h.of_suffix (List.dropWhile_suffix _)
  have same := Text.atLineEnd_fold plain
  rw [← Text.dropWhile_fold] at same
  unfold ofText
  rw [same]
  fun_cases Text.fold text with
  | case1 => rfl
  | case2 rest => simp [isBlank, Text.atLineEnd]
  | case3 c rest noPair => rfl

/-! ## The folded layout -/

/-- A piece of the folded text. It is marked as before. -/
def Piece.fold (p : Piece) : Piece := { p with chars := Text.fold p.chars }

def Cell.fold (c : Cell) : Cell := { c with piece := c.piece.fold }

def Place.fold (p : Place) : Place := { p with rest := Text.fold p.rest }

def Stretch.fold (s : Stretch) : Stretch :=
  { s with cells := s.cells.map Cell.fold, place := s.place.fold }

theorem Piece.fold_eq_self {p : Piece} (h : '\n' ∉ p.chars) : p.fold = p := by
  rw [fold, Text.fold_eq_self h]

theorem Cell.map_fold_eq_self {cells : List Cell} (h : '\n' ∉ source cells) :
    cells.map fold = cells := by
  rw [List.map_congr_left (g := id), List.map_id]
  intro c hc
  have noFeed : '\n' ∉ c.piece.chars := by
    intro mem
    exact h (mem_source hc mem)
  rw [fold, Piece.fold_eq_self noFeed]
  rfl

namespace Stretch

theorem fold_behind (cells : List Cell) (s : Stretch) :
    (s.behind cells).fold = s.fold.behind (cells.map Cell.fold) := by
  simp [fold, behind]

theorem lineStart_fold {text : List Char} (h : Text.Plain text) (nesting : Nesting) :
    lineStart nesting (Text.fold text) = (lineStart nesting text).fold := by
  have indent := Text.lineFeed_notMem_takeWhile text
  unfold lineStart
  rw [LineMode.ofText_fold h, Text.takeWhile_fold, Text.dropWhile_fold]
  cases LineMode.ofText text with
  | header | item => rfl
  | blank => simp [fold, Cell.fold, Place.fold, Piece.fold_eq_self, indent]
  | subsection => simp [fold, Cell.fold, Place.fold, Piece.fold_eq_self, indent]

theorem lineBreak_fold {text : List Char} (h : Text.Plain text) (nesting : Nesting) (p : Piece) :
    lineBreak nesting p.fold (Text.fold text) = (lineBreak nesting p text).fold := by
  unfold lineBreak
  rw [lineStart_fold h]
  rfl

theorem ofPart_fold {p : Place} {part : LinePart} (h : Text.Plain p.rest)
    (source : part.source <+: Text.line p.rest) :
    ofPart p.fold part = (ofPart p part).fold := by
  obtain ⟨tail, source⟩ := source
  have whole := Text.line_append_behindLine p.rest
  rw [← source, List.append_assoc] at whole
  have seam : Text.Seam part.source (tail ++ Text.behindLine p.rest) := by
    simpa using (Text.Seam.nil p.rest).append_line source.symm
  have noFeed := Text.lineFeed_notMem_line p.rest
  rw [← source, List.mem_append, not_or] at noFeed
  have drop := Text.drop_of_line source.symm
  have drop' : p.fold.rest.drop part.source.length =
      Text.fold (tail ++ Text.behindLine p.rest) := by
    rw [Place.fold, Text.fold_of_line source.symm, List.drop_left]
  generalize tail ++ Text.behindLine p.rest = rest at whole seam drop drop'
  have plain : Text.Plain rest := h.of_suffix ⟨part.source, whole⟩
  have pieces : (part.pieces.map (⟨·, p.nesting.depth⟩) : List Cell).map Cell.fold =
      part.pieces.map (⟨·, p.nesting.depth⟩) := by
    apply Cell.map_fold_eq_self
    rw [Cell.source_map_mk]
    intro mem
    exact noFeed.1 (List.mem_append_left _ mem)
  obtain ⟨lineBreak, next⟩ := Text.lineBreak_fold plain
  unfold ofPart
  dsimp only
  rw [fold_behind, pieces, drop, drop']
  cases hopen : part.openLiteral with
  | none => rfl
  | some literal =>
    obtain ⟨context, chars⟩ := literal
    have last : chars <:+ part.source :=
      ⟨Piece.source part.pieces, by simp [LinePart.source, hopen]⟩
    have noFeed : '\n' ∉ chars := by
      intro mem
      exact noFeed.1 (last.mem mem)
    simp only [Text.lineBreak_fold_eq_nil_iff plain]
    split
    · simp [fold, Cell.fold, Place.fold, Piece.fold, Piece.raw, Piece.valued,
        Text.fold_eq_self noFeed]
    · have cut : Text.Seam chars (Text.lineBreak rest) :=
        (seam.of_suffix last).of_first (Text.lineBreak_prefix rest)
      have literal : Text.fold (chars ++ Text.lineBreak rest) =
          chars ++ Text.lineBreak (Text.fold rest) := by
        rw [Text.fold_append cut, Text.fold_eq_self noFeed, lineBreak]
      have plain : Text.Plain (rest.drop (Text.lineBreak rest).length) :=
        plain.of_suffix (List.drop_suffix _ _)
      have next' := lineBreak_fold plain p.nesting
        (.valued .error context (chars ++ ['\n']) (chars ++ Text.lineBreak rest))
      rw [← next', Piece.fold, Piece.chars_valued, literal, next]
      rfl

end Stretch

namespace Place

/-- Scanning the folded text gives the folded scan. -/
theorem scan_fold {p : Place} (h : Text.Plain p.rest) : p.fold.scan = p.scan.fold := by
  have plain : Text.Plain (p.rest.dropWhile isBlank) := h.of_suffix (List.dropWhile_suffix _)
  have cells : [⟨.silent (p.rest.takeWhile isBlank), p.nesting.depth⟩].map Cell.fold =
      [⟨.silent (p.rest.takeWhile isBlank), p.nesting.depth⟩] := by
    apply Cell.map_fold_eq_self
    simpa using Text.lineFeed_notMem_takeWhile p.rest
  have part := Stretch.ofPart_fold (p := { p with rest := p.rest.dropWhile isBlank }) plain
    (p.mode.source_read (Text.line (p.rest.dropWhile isBlank)))
  unfold scan
  dsimp only
  rw [Stretch.fold_behind, cells]
  simp only [fold, Text.takeWhile_fold, Text.dropWhile_fold, Text.atLineEnd_fold plain,
    Text.line_fold plain, Text.lineBreak_fold_eq_nil_iff plain, ne_eq, ite_not]
  congr 1
  generalize p.rest.dropWhile isBlank = rest at plain part
  split
  · split
    · rfl
    · exact part
  · obtain ⟨lineBreak, next⟩ := Text.lineBreak_fold plain
    have next' := Stretch.lineBreak_fold
      (plain.of_suffix (List.drop_suffix (Text.lineBreak rest).length _)) p.nesting
      (.valued .newLine .none ['\n'] (Text.lineBreak rest))
    rw [← next', next, lineBreak]
    rfl

theorem layout_fold {p : Place} (h : Text.Plain p.rest) : p.fold.layout = p.layout.fold := by
  have ended {q : Place} (plain : Text.Plain q.rest) : q.fold.scan.ended = q.scan.ended := by
    rw [scan_fold plain]
    rfl
  fun_induction layout p with
  | case1 p found => rw [layout_of_ended ((ended h).trans found), scan_fold h]
  | case2 p goesOn ih =>
    have plain : Text.Plain p.scan.place.rest := h.of_suffix ⟨_, p.source_scan⟩
    have goesOn : p.scan.ended = false := by simpa using goesOn
    rw [layout_of_goesOn ((ended h).trans goesOn), scan_fold h, Stretch.fold_behind, ← ih plain]
    rfl

end Place

/-! ## The folded tokens -/

/-- A token of a text as it lies in the folded text. -/
def Token.fold (text : List Char) (t : Token) : Token :=
  { t with span := ⟨Text.foldOffset text t.span.start, Text.foldOffset text t.span.stop⟩ }

def LocatedToken.fold (text : List Char) (t : LocatedToken) : LocatedToken :=
  { t with token := t.token.fold text }

namespace Cell

/-- The token of a cell, if its ends fold to where the folded cell lies. -/
theorem token?_fold {text : List Char} {start start' : Nat} {c : Cell}
    (first : Text.foldOffset text start = start')
    (last : Text.foldOffset text (start + Text.width c.piece.chars) =
      start' + Text.width (Text.fold c.piece.chars)) (options : LexerOptions) :
    c.fold.token? options start' = (c.token? options start).map (Token.fold text) := by
  unfold token?
  simp only [fold, Piece.fold]
  cases c.piece.mark with
  | none => rfl
  | some mark =>
    dsimp only
    split
    · simp [Token.fold, first, last]
    · rfl

theorem tokens_fold {text : List Char} (before : List Char) {cells : List Cell} {rest : List Char}
    (whole : before ++ source cells ++ rest = text)
    (seams : ∀ a b, cells = a ++ b → Text.Seam (before ++ source a) (source b ++ rest))
    (options : LexerOptions) :
    tokens options (Text.width (Text.fold before)) (cells.map fold) =
      (tokens options (Text.width before) cells).map (Token.fold text) := by
  induction cells generalizing before with
  | nil => rfl
  | cons c cells ih =>
    have whole' : before ++ c.piece.chars ++ source cells ++ rest = text := by simpa using whole
    have start : Text.foldOffset text (Text.width before) = Text.width (Text.fold before) := by
      rw [← whole, List.append_assoc]
      exact Text.foldOffset_width _ _
    have stop : Text.foldOffset text (Text.width before + Text.width c.piece.chars) =
        Text.width (Text.fold (before ++ c.piece.chars)) := by
      rw [← whole', ← Text.width_append, List.append_assoc (before ++ c.piece.chars)]
      exact Text.foldOffset_width _ _
    have cut : Text.Seam before c.piece.chars := by
      have seam := seams [] (c :: cells) rfl
      simp only [source_nil, List.append_nil, source_cons, List.append_assoc] at seam
      exact seam.of_first (List.prefix_append _ _)
    have seams' : ∀ a b, cells = a ++ b →
        Text.Seam (before ++ c.piece.chars ++ source a) (source b ++ rest) := by
      intro a b split
      simpa using seams (c :: a) b (by simp [split])
    have more := ih (before ++ c.piece.chars) whole' seams'
    rw [Text.fold_append cut, Text.width_append] at stop more
    rw [Text.width_append] at more
    rw [List.map_cons, tokens, tokens, List.map_append, token?_fold start stop options,
      ← Option.toList_map]
    exact congrArg _ more

end Cell

namespace Text

variable {text : List Char}

theorem layout_fold (plain : Plain text) : layout (fold text) = (layout text).fold :=
  Place.layout_fold (p := { rest := text }) plain

theorem source_layout_fold (plain : Plain text) :
    source ((layout text).cells.map Cell.fold) = fold (source (layout text).cells) := by
  have seam : Seam (source (layout text).cells) (layout text).place.rest := by
    simpa using seams_layout (b := []) (List.append_nil (layout text).cells).symm
  have whole : source (layout (fold text)).cells ++ (layout (fold text)).place.rest = fold text :=
    source_layout (fold text)
  have whole' := congrArg fold (source_layout text)
  rw [layout_fold plain] at whole
  rw [fold_append seam, ← whole] at whole'
  exact (List.append_cancel_right whole').symm

end Text

theorem tokens_fold {text : List Char} (plain : Text.Plain text) (options : LexerOptions) :
    (Lexer.ofText (Text.fold text) options).tokens =
      (Lexer.ofText text options).tokens.map (Token.fold text) := by
  have whole := Text.source_layout text
  have cells := Cell.tokens_fold [] (by simpa using whole)
    (fun a b split => by simpa using Text.seams_layout split) options
  have stop := Text.foldOffset_width (source (Text.layout text).cells) (Text.layout text).place.rest
  rw [whole] at stop
  rw [Lexer.tokens_ofText, Lexer.tokens_ofText, Text.layout_fold plain]
  unfold Stretch.tokens
  rw [List.map_append]
  congr 1
  simp only [Stretch.fold, Text.source_layout_fold plain, List.map_singleton, Token.fold,
    Span.empty, Nat.zero_add, stop]
  rfl

/-! ## The folded positions -/

namespace Text

theorem mem_fold (text : List Char) : '\n' ∈ fold text ↔ '\n' ∈ text := by
  fun_induction fold text with
  | case1 => simp
  | case2 rest => simp
  | case3 c rest noPair ih => simp [ih]

/-- What stands in front of a line feed does not count for the column. -/
theorem column_after_cons {c : Char} {rest : List Char} (h : '\n' ∈ rest) :
    (Position.after (c :: rest)).column = (Position.after rest).column := by
  have ends : ¬ (rest.reverse.takeWhile (· ≠ '\n')).length = rest.reverse.length := by
    intro all
    have := List.all_takeWhile (p := (· ≠ '\n')) (l := rest.reverse)
    rw [List.takeWhile_prefix _ |>.eq_of_length all] at this
    simpa using List.all_eq_true.mp this '\n' (by simpa using h)
  simp only [Position.after, List.reverse_cons]
  rw [List.takeWhile_append, if_neg ends]

theorem count_fold (text : List Char) : (fold text).count '\n' = text.count '\n' := by
  fun_induction fold text with
  | case1 => rfl
  | case2 rest ih => simp [ih]
  | case3 c rest noPair ih => rw [List.count_cons, List.count_cons, ih]

theorem column_after_fold (text : List Char) :
    (Position.after (fold text)).column = (Position.after text).column := by
  -- only the latest line counts, and it has nothing to fold
  have cons (c : Char) {rest : List Char}
      (ih : (Position.after (fold rest)).column = (Position.after rest).column) :
      (Position.after (c :: fold rest)).column = (Position.after (c :: rest)).column := by
    by_cases feed : '\n' ∈ rest
    · rw [column_after_cons feed, column_after_cons ((mem_fold rest).mpr feed), ih]
    · rw [fold_eq_self feed]
  fun_induction fold text with
  | case1 => rfl
  | case2 rest ih =>
    rw [column_after_cons (c := '\r') (by simp)]
    exact cons '\n' ih
  | case3 c rest noPair ih => exact cons c ih

theorem after_fold (text : List Char) : Position.after (fold text) = Position.after text := by
  have line : (Position.after (fold text)).line = (Position.after text).line := by
    simp [Position.after, count_fold]
  have column := column_after_fold text
  have both := congrArg₂ Position.mk line column
  exact both

theorem positionOf_fold {text : List Char} {n : Nat} (h : IsCut text n) :
    positionOf (fold text) (foldOffset text n) = positionOf text n := by
  obtain ⟨a, b, rfl, rfl, seam⟩ := h
  rw [foldOffset_width, fold_append seam, positionOf_width, positionOf_width, after_fold]

end Text

/-- Lexing does not tell a text from its folded form. Token by token, kind,
context, value, depth and both positions agree, and an offset in the folded text
is less by the line breaks of two characters in front of it. -/
theorem locatedTokens_fold {text : List Char} (plain : ¬ ['\r', '\r', '\n'] <:+: text)
    (options : LexerOptions) :
    (Lexer.ofText (Text.fold text) options).locatedTokens =
      (Lexer.ofText text options).locatedTokens.map (LocatedToken.fold text) := by
  rw [Lexer.locatedTokens_ofText, Lexer.locatedTokens_ofText, tokens_fold plain, List.map_map,
    List.map_map]
  apply List.map_congr_left
  intro t ht
  rw [Lexer.tokens_ofText] at ht
  obtain ⟨-, -, start, stop, -⟩ := Text.isCut_of_mem_tokens ht
  have startPosition := Text.positionOf_fold start
  have stopPosition := Text.positionOf_fold stop
  simp only [Function.comp_apply, Token.locatedIn, LocatedToken.fold, Token.fold, startPosition,
    stopPosition]

theorem locatedTokens_fold_mixedBreaks :
    ¬ ['\r', '\r', '\n'] <:+: ['a', '\r', '\n', '\r', ' ', 'b', '\n'] ∧
      (Lexer.ofText ['a', '\n', '\r', ' ', 'b', '\n'] ⟨true⟩).locatedTokens =
        (Lexer.ofText ['a', '\r', '\n', '\r', ' ', 'b', '\n'] ⟨true⟩).locatedTokens.map
          (LocatedToken.fold ['a', '\r', '\n', '\r', ' ', 'b', '\n']) := by
  have plain : ¬ ['\r', '\r', '\n'] <:+: ['a', '\r', '\n', '\r', ' ', 'b', '\n'] := by
    decide
  exact ⟨plain, locatedTokens_fold plain ⟨true⟩⟩

end RuleLexer
