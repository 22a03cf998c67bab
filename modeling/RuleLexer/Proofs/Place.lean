import RuleLexer.Proofs.Cells

/-!
# Places

A place says where lexing stands, leaving aside offsets, queues and options.
What a scan makes of the text in front of a place depends on the place only.

* `Place.scan`: one scan, as the cells that it cuts;
* `Lexer.scan_eq`: the lexer scans like that.
-/

namespace RuleLexer

/-- Where lexing stands in a text. -/
structure Place where
  mode : LineMode := .header
  nesting : Nesting := {}
  /-- The text in front of the place. -/
  rest : List Char
  deriving DecidableEq

/-- A stretch of the text that was cut into cells. -/
structure Stretch where
  cells : List Cell
  /-- The place behind the stretch. -/
  place : Place
  /-- Whether the end of the text was found. -/
  ended : Bool := false
  deriving DecidableEq

namespace Stretch

/-- The start of a line, with its indentation. -/
def lineStart (nesting : Nesting) (text : List Char) : Stretch :=
  let indent := text.takeWhile isBlank
  let rest := text.dropWhile isBlank
  match LineMode.ofText text with
  | .header => { cells := [], place := { mode := .header, rest := text } }
  | .item => { cells := [], place := { mode := .item, rest := text } }
  | .blank =>
    { cells := [⟨.silent indent, nesting.depth⟩], place := { mode := .blank, nesting, rest } }
  | .subsection =>
    { cells := [⟨nesting.indentPiece indent, (nesting.enter indent).depth⟩]
      place := { mode := .subsection, nesting := nesting.enter indent, rest } }

/-- A piece that ends with a line break, and the start of the next line. -/
def lineBreak (nesting : Nesting) (p : Piece) (text : List Char) : Stretch :=
  let next := lineStart nesting text
  { next with cells := ⟨p, nesting.depth⟩ :: next.cells }

/-- A stretch with cells in front of it. -/
def behind (cells : List Cell) (s : Stretch) : Stretch := { s with cells := cells ++ s.cells }

/-- A part of the line at a place. -/
def ofPart (p : Place) (part : LinePart) : Stretch :=
  let mode := if part.itemFollows then .item else p.mode
  let rest := p.rest.drop part.source.length
  let lineBreak := Text.lineBreak rest
  behind (part.pieces.map (⟨·, p.nesting.depth⟩)) <|
    match part.openLiteral with
    | none => { cells := [], place := { p with mode, rest } }
    | some (context, chars) =>
      if lineBreak = [] then
        { cells := [⟨.raw .error context chars, p.nesting.depth⟩], place := { p with mode, rest } }
      else
        .lineBreak p.nesting (.valued .error context (chars ++ ['\n']) (chars ++ lineBreak))
          (rest.drop lineBreak.length)

end Stretch

/-- One scan. -/
def Place.scan (p : Place) : Stretch :=
  let rest := p.rest.dropWhile isBlank
  let lineBreak := Text.lineBreak rest
  Stretch.behind [⟨.silent (p.rest.takeWhile isBlank), p.nesting.depth⟩] <|
    if lineBreak ≠ [] then
      .lineBreak p.nesting (.valued .newLine .none ['\n'] lineBreak) (rest.drop lineBreak.length)
    else if Text.atLineEnd rest then { cells := [], place := { p with rest }, ended := true }
    else .ofPart { p with rest } (p.mode.read (Text.line rest))

namespace Lexer

/-- Where the lexer stands. -/
def place (L : Lexer) : Place :=
  { mode := L.mode, nesting := L.nesting, rest := L.scanner.rest }

/-- The lexer moved over a stretch. -/
def follow (L : Lexer) (s : Stretch) : Lexer :=
  { L.move s.cells with
    mode := s.place.mode, nesting := s.place.nesting, ended := L.ended || s.ended }

variable {L : Lexer}

theorem follow_behind {cells : List Cell} (h : Cell.source cells <+: L.scanner.rest)
    (s : Stretch) : (L.move cells).follow s = L.follow (s.behind cells) := by
  simp only [follow, Stretch.behind, ← move_append h]
  rfl

theorem rest_move {cells : List Cell} {rest : List Char}
    (h : L.scanner.rest = Cell.source cells ++ rest) : (L.move cells).scanner.rest = rest := by
  simp [move, h]

theorem beginLine_eq (L : Lexer) :
    L.beginLine = L.follow (.lineStart L.nesting L.scanner.rest) := by
  have indent : L.scanner.rest.takeWhile isBlank <+: L.scanner.rest := List.takeWhile_prefix _
  unfold beginLine Stretch.lineStart
  cases LineMode.ofText L.scanner.rest with
  | header => simp [follow]
  | item => simp [follow]
  | blank =>
    dsimp only
    rw [take_eq_move (by simpa using indent)]
    simp [follow, move, depth]
  | subsection =>
    dsimp only
    rw [take_eq_move (by simpa using indent)]
    simp [follow, move, depth]

/-- A piece with a line break is taken, and the next line begins. -/
theorem beginLine_take {p : Piece} {rest : List Char} (h : L.scanner.rest = p.chars ++ rest) :
    (L.take p).beginLine = L.follow (.lineBreak L.nesting p rest) := by
  have first : Cell.source [⟨p, L.depth⟩] <+: L.scanner.rest := ⟨rest, by simp [h]⟩
  have moved : (L.move [⟨p, L.depth⟩]).scanner.rest = rest := rest_move (by simp [h])
  rw [take_eq_move ⟨rest, h.symm⟩, beginLine_eq, moved, follow_behind first]
  rfl

theorem takeOpenLiteral_eq {context : TokenKind} {chars behind : List Char}
    (h : L.scanner.rest = chars ++ behind) :
    L.takeOpenLiteral context chars = L.follow
      (if Text.lineBreak behind = [] then
        { cells := [⟨.raw .error context chars, L.depth⟩]
          place := { L.place with rest := behind } }
      else
        .lineBreak L.nesting
          (.valued .error context (chars ++ ['\n']) (chars ++ Text.lineBreak behind))
          (behind.drop (Text.lineBreak behind).length)) := by
  have drop : L.scanner.rest.drop chars.length = behind := by simp [h]
  unfold takeOpenLiteral
  dsimp only
  rw [drop]
  split
  · rw [take_eq_move ⟨behind, by simp [h]⟩]
    simp [follow, place, move]
  · exact beginLine_take (by simp [h, Text.lineBreak_append_drop])

theorem takePart_eq {part : LinePart} (h : part.source <+: L.scanner.rest) :
    L.takePart part = L.follow (.ofPart L.place part) := by
  obtain ⟨tail, h⟩ := h
  have drop : L.scanner.rest.drop part.source.length = tail := by simp [← h]
  unfold takePart Stretch.ofPart
  dsimp only
  rw [show L.place.rest = L.scanner.rest from rfl, show L.place.mode = L.mode from rfl, drop]
  generalize (if part.itemFollows then LineMode.item else L.mode) = mode
  -- the mode is already that of the part when its pieces are taken
  generalize hM : ({ L with mode } : Lexer) = M
  have scanner : M.scanner = L.scanner := by rw [← hM]
  have pieces : Piece.source part.pieces <+: M.scanner.rest :=
    ⟨(part.openLiteral.map Prod.snd).getD [] ++ tail, by
      rw [scanner, ← h, LinePart.source, List.append_assoc]⟩
  have cells : Cell.source (part.pieces.map (⟨·, M.depth⟩)) <+: M.scanner.rest := by simpa
  rw [foldl_take pieces]
  cases hopen : part.openLiteral with
  | none =>
    have rest : (M.move (part.pieces.map (⟨·, M.depth⟩))).scanner.rest = tail :=
      rest_move (by simp [scanner, ← h, LinePart.source, hopen])
    subst hM
    simp [follow, Stretch.behind, move, place, depth]
  | some literal =>
    obtain ⟨context, chars⟩ := literal
    have rest : (M.move (part.pieces.map (⟨·, M.depth⟩))).scanner.rest = chars ++ tail :=
      rest_move (by simp [scanner, ← h, LinePart.source, hopen])
    subst hM
    exact (takeOpenLiteral_eq rest).trans (follow_behind cells _)

theorem scan_eq (L : Lexer) : L.scan = L.follow L.place.scan := by
  have whole : L.scanner.rest.takeWhile isBlank ++ L.scanner.rest.dropWhile isBlank =
      L.scanner.rest := List.takeWhile_append_dropWhile
  have blanks : Cell.source [⟨.silent (L.scanner.rest.takeWhile isBlank), L.depth⟩] <+:
      L.scanner.rest := by simp [List.takeWhile_prefix]
  have rest : (L.move [⟨.silent (L.scanner.rest.takeWhile isBlank), L.depth⟩]).scanner.rest =
      L.scanner.rest.dropWhile isBlank := rest_move (by simp [whole])
  unfold scan Place.scan
  rw [take_eq_move (by simp [List.takeWhile_prefix])]
  refine Eq.trans ?_ (follow_behind blanks _)
  rw [show L.place.rest = L.scanner.rest from rfl]
  generalize hM : L.move [⟨.silent (L.scanner.rest.takeWhile isBlank), L.depth⟩] = M at rest ⊢
  have placeM : M.place = { L.place with rest := L.scanner.rest.dropWhile isBlank } := by
    rw [← rest, ← hM]
    rfl
  have nestingM : L.place.nesting = M.nesting := by rw [← hM]; rfl
  have modeM : L.place.mode = M.mode := by rw [← hM]; rfl
  dsimp only
  rw [rest, ← placeM, nestingM, modeM]
  split
  · exact beginLine_take (by simp [rest, Text.lineBreak_append_drop])
  · split
    · simp [follow, placeM, nestingM, modeM]
    · have line := Text.line_append_behindLine M.scanner.rest
      rw [rest] at line
      exact takePart_eq (by rw [rest]; exact (M.mode.source_read _).trans ⟨_, line⟩)

end Lexer

end RuleLexer
