import RuleLexer.Proofs.FreshStart

/-!
# Blank lines

Blank lines are invisible. A line of blanks between two lines moves what stands
behind it, and changes nothing else.

* `Place.scan_append_closed`, `Place.layout_append_closed`: what a text is cut into
  up to a line feed does not depend on what follows there, and the next line
  starts behind it;
* `Stretch.ofLines_blank`: a blank line leaves the next line as it would be without it;
* `tokenize_blankLine`: so the tokens behind it are shifted, and no others.
-/

namespace RuleLexer

open Cell (source)

namespace Text

variable {t : List Char}

/-- The text ends with a line feed. -/
def Closed (text : List Char) : Prop := text.getLast? = some '\n'

theorem Closed.ne_nil (closed : Closed t) : t ≠ [] := by
  rintro rfl
  cases closed

theorem Closed.of_suffix {a : List Char} (closed : Closed t) (suffix : a <:+ t) (h : a ≠ []) :
    Closed a := by
  obtain ⟨front, rfl⟩ := suffix
  have last := List.getLast?_eq_some_getLast h
  rwa [Closed, List.getLast?_append, last, Option.some_or, ← last] at closed

theorem Closed.exists_front (closed : Closed t) : ∃ front, t = front ++ ['\n'] :=
  List.getLast?_eq_some_iff.mp closed

theorem Closed.takeWhile_append (closed : Closed t) (b : List Char) :
    (t ++ b).takeWhile isBlank = t.takeWhile isBlank := by
  obtain ⟨front, rfl⟩ := closed.exists_front
  rw [List.append_assoc, List.singleton_append, takeWhile_append_lineFeed,
    takeWhile_append_lineFeed]

theorem Closed.dropWhile_append (closed : Closed t) (b : List Char) :
    (t ++ b).dropWhile isBlank = t.dropWhile isBlank ++ b := by
  obtain ⟨front, rfl⟩ := closed.exists_front
  rw [List.append_assoc, List.singleton_append, dropWhile_append_lineFeed,
    dropWhile_append_lineFeed, List.append_assoc, List.singleton_append]

theorem Closed.dropWhile (closed : Closed t) : Closed (t.dropWhile isBlank) := by
  obtain ⟨front, rfl⟩ := closed.exists_front
  rw [dropWhile_append_lineFeed]
  exact List.getLast?_concat ..

theorem Closed.seam (closed : Closed t) (b : List Char) : Seam t b :=
  .of_last closed (by decide) b

theorem Closed.atLineEnd_append (closed : Closed t) (b : List Char) :
    atLineEnd (t ++ b) = atLineEnd t :=
  atLineEnd_append_of_ne_nil (closed.seam b) closed.ne_nil

theorem Closed.line_append (closed : Closed t) (b : List Char) : line (t ++ b) = line t := by
  induction t with
  | nil => cases closed
  | cons c t ih =>
    have same := closed.atLineEnd_append b
    rw [List.cons_append] at same
    simp only [List.cons_append, line, same]
    split
    · rfl
    · rename_i inside
      by_cases last : t = []
      · subst last
        obtain rfl : c = '\n' := by simpa [Closed] using closed
        exact absurd rfl inside
      · rw [ih (closed.of_suffix (List.suffix_cons c t) last)]

theorem Closed.lineBreak_append (closed : Closed t) (b : List Char) :
    lineBreak (t ++ b) = lineBreak t :=
  Text.lineBreak_append (closed.seam b) closed.ne_nil

end Text

theorem LineMode.ofText_append_closed {t : List Char} (closed : Text.Closed t) (b : List Char) :
    ofText (t ++ b) = ofText t := by
  unfold ofText
  rw [closed.dropWhile_append, closed.dropWhile.atLineEnd_append]
  cases t with
  | nil => cases closed
  | cons c t => rfl

/-! ## Up to a line feed -/

namespace Stretch

/-- The layout of a text from the start of a line. -/
def ofLines (nesting : Nesting) (text : List Char) : Stretch :=
  (lineStart nesting text).place.layout.behind (lineStart nesting text).cells

theorem lineStart_append_closed {t : List Char} (closed : Text.Closed t) (nesting : Nesting)
    (b : List Char) : lineStart nesting (t ++ b) = (lineStart nesting t).append b := by
  unfold lineStart
  rw [LineMode.ofText_append_closed closed, closed.takeWhile_append, closed.dropWhile_append]
  cases LineMode.ofText t <;> rfl

theorem lineBreak_append_closed {t : List Char} (closed : Text.Closed t) (nesting : Nesting)
    (p : Piece) (b : List Char) :
    lineBreak nesting p (t ++ b) = (lineBreak nesting p t).append b := by
  unfold lineBreak
  rw [lineStart_append_closed closed]
  rfl

/-- Where a line starts, a closed text stays closed. -/
theorem closed_lineStart {t : List Char} (closed : Text.Closed t) (nesting : Nesting) :
    Text.Closed (lineStart nesting t).place.rest := by
  unfold lineStart
  cases LineMode.ofText t
  case header | item => exact closed
  case blank | subsection => exact closed.dropWhile

/-- A stretch of a closed text, and what it is when more text follows. Either
what follows is left in front of the place, or the stretch reaches it, and then
the next line starts there. -/
inductive Extends (next : List Char → Stretch) (s : Stretch) (longer : List Char → Stretch) : Prop
  | within (closed : Text.Closed s.place.rest) (same : ∀ b, longer b = s.append b)
  | across (cells : List Cell) (last : Cell) (nonempty : last.piece.chars ≠ [])
      (same : ∀ b, longer b = (next b).behind (cells ++ [last]))

variable {next longer : List Char → Stretch} {s : Stretch}

theorem Extends.behind (h : Extends next s longer) (front : List Cell) :
    Extends next (s.behind front) (fun b => (longer b).behind front) := by
  cases h with
  | within closed same =>
    refine .within closed ?_
    intro b
    rw [same]
    rfl
  | across cells last nonempty same =>
    refine .across (front ++ cells) last nonempty ?_
    intro b
    rw [same, behind_behind, List.append_assoc]

/-- A piece that ends with a line break, at the head of a closed text or at its end. -/
theorem extends_lineBreak {t : List Char} (rest : t = [] ∨ Text.Closed t) (nesting : Nesting)
    {p : Piece} (nonempty : p.chars ≠ []) :
    Extends (lineStart nesting) (lineBreak nesting p t)
      (fun b => lineBreak nesting p (t ++ b)) := by
  rcases rest with rfl | closed
  · refine .across [] ⟨p, nesting.depth⟩ nonempty ?_
    intro b
    rfl
  · refine .within (closed_lineStart closed nesting) ?_
    intro b
    exact lineBreak_append_closed closed nesting p b

/-- What is left of a closed text behind a part of its first line. -/
theorem closed_drop {t front : List Char} (closed : Text.Closed t)
    (inLine : front <+: Text.line t) : Text.Closed (t.drop front.length) ∧
      ∀ b, (t ++ b).drop front.length = t.drop front.length ++ b := by
  obtain ⟨tail, line⟩ := inLine
  have whole := Text.line_append_behindLine t
  have noFeed := Text.lineFeed_notMem_line t
  rw [← line, List.append_assoc] at whole
  rw [← line, List.mem_append, not_or] at noFeed
  have fits : front.length ≤ t.length := by
    rw [← whole, List.length_append]
    omega
  constructor
  · apply closed.of_suffix (List.drop_suffix _ _)
    intro ends
    rw [← whole, List.drop_left] at ends
    rw [ends, List.append_nil] at whole
    exact noFeed.1 (whole ▸ List.mem_of_getLast? closed)
  · intro b
    exact List.drop_append_of_le_length fits

/-- What is left of a closed text behind its first line break. -/
theorem closed_drop_lineBreak {t : List Char} (closed : Text.Closed t) :
    (t.drop (Text.lineBreak t).length = [] ∨ Text.Closed (t.drop (Text.lineBreak t).length)) ∧
      ∀ b, (t ++ b).drop (Text.lineBreak (t ++ b)).length =
        t.drop (Text.lineBreak t).length ++ b := by
  constructor
  · by_cases ends : t.drop (Text.lineBreak t).length = []
    · exact .inl ends
    · exact .inr (closed.of_suffix (List.drop_suffix _ _) ends)
  · intro b
    rw [closed.lineBreak_append]
    exact List.drop_append_of_le_length (Text.lineBreak_prefix t).length_le

theorem extends_ofPart {p : Place} {part : LinePart} (closed : Text.Closed p.rest)
    (source : part.source <+: Text.line p.rest) :
    Extends (lineStart p.nesting) (ofPart p part) (fun b => ofPart (p.append b) part) := by
  obtain ⟨closed', drop⟩ := closed_drop closed source
  unfold ofPart
  apply Extends.behind
  cases part.openLiteral with
  | none =>
    refine .within closed' ?_
    intro b
    simp [Place.append, append, drop]
  | some literal =>
    obtain ⟨context, chars⟩ := literal
    simp only [Place.append, drop, closed'.lineBreak_append]
    by_cases noBreak : Text.lineBreak (p.rest.drop part.source.length) = []
    · simp only [if_pos noBreak]
      refine .within closed' ?_
      intro b
      rfl
    · simp only [if_neg noBreak]
      obtain ⟨rest, drop'⟩ := closed_drop_lineBreak closed'
      simp only [closed'.lineBreak_append] at drop'
      simp only [drop']
      exact extends_lineBreak rest p.nesting (by simp [noBreak])

end Stretch

namespace Place

variable {p : Place}

open Stretch (Extends lineStart ofLines)

/-- A scan of a closed text does not see what follows, but that it may lead there. -/
theorem scan_append_closed (closed : Text.Closed p.rest) :
    Extends (lineStart p.nesting) p.scan (fun b => (p.append b).scan) := by
  have closed' : Text.Closed (p.rest.dropWhile isBlank) := closed.dropWhile
  have part := Stretch.extends_ofPart (p := { p with rest := p.rest.dropWhile isBlank }) closed'
    (p.mode.source_read (Text.line (p.rest.dropWhile isBlank)))
  obtain ⟨rest, drop⟩ := Stretch.closed_drop_lineBreak closed'
  unfold scan
  simp only [append, closed.takeWhile_append, closed.dropWhile_append, closed'.lineBreak_append,
    closed'.atLineEnd_append, closed'.line_append] at part drop ⊢
  apply Extends.behind
  by_cases noBreak : Text.lineBreak (p.rest.dropWhile isBlank) = []
  · simp only [noBreak, ne_eq, not_true_eq_false, if_false]
    by_cases atEnd : Text.atLineEnd (p.rest.dropWhile isBlank) = true
    · simp only [if_pos atEnd]
      refine .within closed' ?_
      intro b
      rfl
    · simp only [if_neg atEnd]
      exact part
  · simp only [if_pos noBreak, drop]
    exact Stretch.extends_lineBreak rest p.nesting noBreak

/-- Neither does the layout. -/
theorem layout_append_closed (closed : Text.Closed p.rest) :
    ∃ nesting, Extends (ofLines nesting) p.layout (fun b => (p.append b).layout) := by
  fun_induction layout p with
  | case1 p ended =>
    cases scan_append_closed closed with
    | within closed' same =>
      refine ⟨p.nesting, .within closed' ?_⟩
      intro b
      rw [layout_of_ended (by rw [same]; exact ended), same]
    | across cells last nonempty same =>
      have whole := same []
      rw [show p.append [] = p by simp [append]] at whole
      rw [whole, Stretch.ended_behind, Stretch.ended_lineStart] at ended
      cases ended
  | case2 p goesOn ih =>
    have goesOn := (Bool.not_eq_true _).mp goesOn
    cases scan_append_closed closed with
    | within closed' same =>
      obtain ⟨nesting, more⟩ := ih closed'
      have layout (b : List Char) : (p.append b).layout =
          (p.scan.place.append b).layout.behind p.scan.cells := by
        rw [layout_of_goesOn (by rw [same]; exact goesOn), same]
        rfl
      simp only [layout]
      exact ⟨nesting, more.behind p.scan.cells⟩
    | across cells last nonempty same =>
      refine ⟨p.nesting, .across cells last nonempty ?_⟩
      intro b
      have next : (p.append b).scan.ended = false := by
        rw [same]
        exact Stretch.ended_lineStart p.nesting b
      rw [layout_of_goesOn next, same, ofLines, Stretch.behind_behind]
      rfl

end Place

/-! ## Without the blank line -/

namespace Stretch

theorem source_ofLines (nesting : Nesting) (text : List Char) :
    source (ofLines nesting text).cells ++ (ofLines nesting text).place.rest = text := by
  rw [ofLines, cells_behind, place_behind, Cell.source_append, List.append_assoc,
    Place.source_layout, source_lineStart]

/-- A blank line leaves the next line as it would be without it. -/
theorem ofLines_blank {blanks : List Char} (blank : ∀ c ∈ blanks, isBlank c = true)
    (nesting : Nesting) (text : List Char) :
    ofLines nesting (blanks ++ '\n' :: text) = (ofLines nesting text).behind
      [⟨.silent blanks, nesting.depth⟩, ⟨.silent [], nesting.depth⟩,
        ⟨.valued .newLine .none ['\n'] ['\n'], nesting.depth⟩] := by
  have indent : (blanks ++ '\n' :: text).takeWhile isBlank = blanks := by
    rw [List.takeWhile_append_of_pos blank]
    exact List.append_nil blanks
  have behindBlanks : (blanks ++ '\n' :: text).dropWhile isBlank = '\n' :: text := by
    rw [List.dropWhile_append_of_pos blank]
    rfl
  have mode : LineMode.ofText (blanks ++ '\n' :: text) = .blank := by
    unfold LineMode.ofText
    rw [behindBlanks]
    rfl
  have start : lineStart nesting (blanks ++ '\n' :: text) =
      { cells := [⟨.silent blanks, nesting.depth⟩]
        place := { mode := .blank, nesting, rest := '\n' :: text } } := by
    rw [lineStart, mode, indent, behindBlanks]
  have scan : ({ mode := .blank, nesting, rest := '\n' :: text } : Place).scan =
      (lineStart nesting text).behind [⟨.silent [], nesting.depth⟩,
        ⟨.valued .newLine .none ['\n'] ['\n'], nesting.depth⟩] := rfl
  have goesOn : ({ mode := .blank, nesting, rest := '\n' :: text } : Place).scan.ended = false := by
    rw [scan]
    exact ended_lineStart nesting text
  rw [ofLines, start, Place.layout_of_goesOn goesOn, scan, ofLines, behind_behind, behind_behind]
  rfl

theorem le_start_of_mem_tokens {options : LexerOptions} {index : Nat} {s : Stretch} {t : Token}
    (h : t ∈ s.tokens options index) : index ≤ t.span.start := by
  rcases List.mem_append.mp h with h | h
  · exact (Cell.bounds_of_mem_tokens h).1
  · obtain rfl := List.mem_singleton.mp h
    exact Nat.le_add_right _ _

/-- A blank line yields no tokens, and shifts those behind it. -/
theorem tokens_ofLines_blank {blanks : List Char} (blank : ∀ c ∈ blanks, isBlank c = true)
    (nesting : Nesting) (text : List Char) (index : Nat) :
    (ofLines nesting (blanks ++ '\n' :: text)).tokens {} index =
      ((ofLines nesting text).tokens {} index).map (Token.shift (Text.width blanks + 1)) := by
  have width : Text.width ['\n'] = 1 := rfl
  rw [ofLines_blank blank, tokens_behind, ← tokens_shift]
  simp [Cell.tokens, Cell.token?, Piece.silent, Piece.valued, TokenKind.isTrivia, width]

end Stretch

/-- A token that starts behind an offset, shifted. -/
def Token.shiftBehind (offset n : Nat) (t : Token) : Token :=
  if t.span.start ≤ offset then t else t.shift n

theorem Token.map_shiftBehind_of_le {tokens : List Token} {offset : Nat}
    (first : ∀ t ∈ tokens, t.span.start ≤ offset) (n : Nat) :
    tokens.map (Token.shiftBehind offset n) = tokens := by
  rw [List.map_congr_left (g := id), List.map_id]
  intro t ht
  exact if_pos (first t ht)

theorem Token.map_shiftBehind {early late : List Token} {offset n : Nat}
    (first : ∀ t ∈ early, t.span.start ≤ offset) (second : ∀ t ∈ late, offset < t.span.start) :
    (early ++ late).map (Token.shiftBehind offset n) = early ++ late.map (Token.shift n) := by
  rw [List.map_append, Token.map_shiftBehind_of_le first]
  congr 1
  apply List.map_congr_left
  intro t ht
  exact if_neg (Nat.not_le_of_lt (second t ht))

/-- Tokens start in front of the last character of their cells, if the last cell holds one. -/
theorem Cell.start_lt_of_mem_tokens {options : LexerOptions} {index : Nat} {cells : List Cell}
    {last : Cell} (nonempty : last.piece.chars ≠ []) {t : Token}
    (h : t ∈ tokens options index (cells ++ [last])) :
    t.span.start < index + Text.width (source (cells ++ [last])) := by
  have wide : Text.width last.piece.chars ≠ 0 := by
    rwa [ne_eq, Text.width_eq_zero]
  rw [source_append, source_cons, source_nil, List.append_nil, Text.width_append]
  rw [tokens_append] at h
  rcases List.mem_append.mp h with h | h
  · have bounds := bounds_of_mem_tokens h
    omega
  · rw [tokens, tokens_nil, List.append_nil] at h
    have span := (span_of_token? (Option.mem_toList.mp h)).1
    rw [span]
    dsimp only
    omega

/-- Up to a line feed, the tokens of a text do not depend on what follows. Behind
it the next line starts, unless a NUL ended the text before. -/
theorem Text.tokens_append_closed {t : List Char} (closed : Closed t) (options : LexerOptions) :
    ∃ early, (∀ token ∈ early, token.span.start < width t) ∧
      ((∀ b, (layout (t ++ b)).tokens options 0 = early) ∨
        ∃ nesting, ∀ b, (layout (t ++ b)).tokens options 0 =
          early ++ (Stretch.ofLines nesting b).tokens options (width t)) := by
  obtain ⟨nesting, followed⟩ := Place.layout_append_closed (p := { rest := t }) closed
  cases followed with
  | within rest same =>
    refine ⟨(layout t).tokens options 0, ?_, .inl ?_⟩
    · have covered := congrArg width (source_layout t)
      have left : width (layout t).place.rest ≠ 0 := by
        rw [ne_eq, width_eq_zero]
        exact rest.ne_nil
      rw [width_append] at covered
      intro token h
      rcases List.mem_append.mp h with h | h
      · have bounds := Cell.bounds_of_mem_tokens h
        omega
      · obtain rfl := List.mem_singleton.mp h
        simp only [Span.empty]
        omega
    · intro b
      have same : layout (t ++ b) = (layout t).append b := same b
      rw [same]
      rfl
  | across cells last nonempty same =>
    have same (b : List Char) : layout (t ++ b) =
        (Stretch.ofLines nesting b).behind (cells ++ [last]) := same b
    have covered : source (cells ++ [last]) = t := by
      have none := source_layout (t ++ [])
      rwa [same, Stretch.cells_behind, Stretch.place_behind, Cell.source_append, List.append_assoc,
        Stretch.source_ofLines, List.append_nil, List.append_nil] at none
    refine ⟨Cell.tokens options 0 (cells ++ [last]), ?_, .inr ⟨nesting, ?_⟩⟩
    · intro token h
      have lt := Cell.start_lt_of_mem_tokens nonempty h
      rwa [covered, Nat.zero_add] at lt
    · intro b
      rw [same, Stretch.tokens_behind, covered, Nat.zero_add]

/-- A blank line is invisible. Taking it out shifts the tokens behind it, and
changes neither those in front of it nor anything else that tokens say. -/
theorem tokenize_blankLine (a blanks b : String)
    (blank : ∀ c ∈ blanks.toList, c = ' ' ∨ c = '\t') :
    tokenize (a ++ "\n" ++ blanks ++ "\n" ++ b) =
      (tokenize (a ++ "\n" ++ b)).map
        (Token.shiftBehind (Text.width a.toList) (Text.width blanks.toList + 1)) := by
  have blank : ∀ c ∈ blanks.toList, isBlank c = true := by
    intro c hc
    simpa [isBlank] using blank c hc
  have closed : Text.Closed (a.toList ++ ['\n']) := List.getLast?_concat ..
  have width : Text.width (a.toList ++ ['\n']) = Text.width a.toList + 1 := Text.width_append ..
  have shorter : (a ++ "\n" ++ b).toList = a.toList ++ ['\n'] ++ b.toList := by simp
  have longer : (a ++ "\n" ++ blanks ++ "\n" ++ b).toList =
      a.toList ++ ['\n'] ++ (blanks.toList ++ '\n' :: b.toList) := by simp
  obtain ⟨early, inFront, tokens⟩ := Text.tokens_append_closed closed {}
  have inFront : ∀ t ∈ early, t.span.start ≤ Text.width a.toList := by
    intro t ht
    have lt := inFront t ht
    omega
  rw [tokenize, tokenize, Lexer.tokens_ofText, Lexer.tokens_ofText, shorter, longer]
  rcases tokens with same | ⟨nesting, split⟩
  · rw [same, same, Token.map_shiftBehind_of_le inFront]
  · rw [split, split, Stretch.tokens_ofLines_blank blank, width, Token.map_shiftBehind inFront]
    intro t ht
    exact Stretch.le_start_of_mem_tokens ht

/-- Behind a string that takes the line feed, and in front of an indented line. -/
theorem tokenize_blankLine_open :
    (∀ c ∈ " \t".toList, c = ' ' ∨ c = '\t') ∧
      tokenize ("@a(\"x" ++ "\n" ++ " \t" ++ "\n" ++ "  y") =
        (tokenize ("@a(\"x" ++ "\n" ++ "  y")).map
          (Token.shiftBehind (Text.width "@a(\"x".toList) (Text.width " \t".toList + 1)) := by
  have blank : ∀ c ∈ " \t".toList, c = ' ' ∨ c = '\t' := by simp
  exact ⟨blank, tokenize_blankLine "@a(\"x" " \t" "  y" blank⟩

end RuleLexer
