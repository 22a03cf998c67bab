import RuleLexer.Proofs.LineGrammar
import RuleLexer.Proofs.Place
import RuleLexer.Proofs.SourceText

/-!
# Scanning a part of a line

What a scan does to a lexer that stands in front of a part of a line: what it
takes, and which tokens it queues.

* `Lexer.Took`: a lexer took characters and queued their tokens;
* `Lexer.scan_eq_takePart`: within a line, a scan passes over blanks and takes a
  part of the line;
* `Lexer.took_takePart`: a closed part is taken as it is;
* `Lexer.took_takePart_open`: an open literal takes the line break too, and the
  next line begins;
* `Lexer.queue_takePart_line`: what is queued by a part that takes the whole line.
-/

namespace RuleLexer

theorem Delimiter.line_opener (d : Delimiter) (behind : List Char) :
    Text.line (d.opener :: behind) = d.opener :: Text.line behind ∧
      Text.behindLine (d.opener :: behind) = Text.behindLine behind :=
  Text.line_append_of_solid (List.forall_mem_singleton.mpr (by cases d <;> decide)) behind

/-- The token of characters that start at an offset. -/
def Mark.token (m : Mark) (depth start : Nat) (chars : List Char) : Token where
  span := ⟨start, start + Text.width chars⟩
  depth := depth
  kind := m.kind
  context := m.context
  value := String.ofList m.value

namespace Piece

/-- The tokens of pieces in a row, the first of which starts at an offset. -/
def tokens (depth start : Nat) : List Piece → List Token
  | [] => []
  | p :: pieces =>
    (p.mark.map (·.token depth start p.chars)).toList ++
      tokens depth (start + Text.width p.chars) pieces

variable {depth start : Nat}

@[simp]
theorem tokens_nil : tokens depth start [] = [] := rfl

@[simp]
theorem tokens_silent (chars : List Char) (pieces : List Piece) :
    tokens depth start (silent chars :: pieces) =
      tokens depth (start + Text.width chars) pieces := rfl

@[simp]
theorem tokens_marked (m : Mark) (chars : List Char) (pieces : List Piece) :
    tokens depth start (⟨chars, some m⟩ :: pieces) =
      m.token depth start chars :: tokens depth (start + Text.width chars) pieces := rfl

@[simp]
theorem tokens_valued (kind context : TokenKind) (value chars : List Char) (pieces : List Piece) :
    tokens depth start (valued kind context value chars :: pieces) =
      Mark.token ⟨kind, context, value⟩ depth start chars ::
        tokens depth (start + Text.width chars) pieces := rfl

@[simp]
theorem tokens_raw (kind context : TokenKind) (chars : List Char) (pieces : List Piece) :
    tokens depth start (raw kind context chars :: pieces) =
      Mark.token ⟨kind, context, chars⟩ depth start chars ::
        tokens depth (start + Text.width chars) pieces := rfl

theorem tokens_append (depth start : Nat) (a b : List Piece) :
    tokens depth start (a ++ b) =
      tokens depth start a ++ tokens depth (start + Text.width (source a)) b := by
  induction a generalizing start with
  | nil => simp
  | cons p a ih => simp [tokens, ih, Nat.add_assoc]

/-- A token says what some piece says. -/
theorem exists_mark {pieces : List Piece} {t : Token} (mem : t ∈ tokens depth start pieces) :
    ∃ m ∈ marks pieces, t.kind = m.kind ∧ t.context = m.context := by
  induction pieces generalizing start with
  | nil => cases mem
  | cons p pieces ih =>
    rw [tokens, List.mem_append] at mem
    rw [marks_cons]
    rcases mem with own | later
    · obtain ⟨m, marked, rfl⟩ := by simpa using own
      exact ⟨m, List.mem_append_left _ (by simp [marked]), rfl, rfl⟩
    · obtain ⟨m, mem, same⟩ := ih later
      exact ⟨m, List.mem_append_right _ mem, same⟩

theorem start_le {pieces : List Piece} {t : Token} (mem : t ∈ tokens depth start pieces) :
    start ≤ t.span.start := by
  induction pieces generalizing start with
  | nil => cases mem
  | cons p pieces ih =>
    rw [tokens, List.mem_append] at mem
    rcases mem with own | later
    · obtain ⟨m, -, rfl⟩ := by simpa using own
      exact Nat.le_refl _
    · exact Nat.le_trans (Nat.le_add_right _ _) (ih later)

/-- Whether trivia is wanted makes no difference to pieces without trivia. -/
theorem tokens_cells {pieces : List Piece} (visible : ∀ m ∈ marks pieces, m.kind.isTrivia = false)
    (options : LexerOptions) (depth start : Nat) :
    Cell.tokens options start (pieces.map (⟨·, depth⟩)) = tokens depth start pieces := by
  induction pieces generalizing start with
  | nil => rfl
  | cons p pieces ih =>
    rw [marks_cons] at visible
    obtain ⟨own, more⟩ := List.forall_mem_append.mp visible
    rw [List.map_cons, Cell.tokens, ih more, tokens]
    congr 1
    unfold Cell.token?
    cases h : p.mark with
    | none => rfl
    | some mark =>
      have shown : mark.kind.isTrivia = false := own mark (by simp [h])
      simp [shown, Mark.token]

end Piece

/-- The tokens of a part at an offset, if its open literal takes a line break,
which is read as one line feed. -/
def LinePart.tokens (part : LinePart) (depth start : Nat) (lineBreak : List Char) : List Token :=
  Piece.tokens depth start part.pieces ++ part.openLiteral.toList.map fun (context, chars) =>
    Mark.token ⟨.error, context, Text.foldEnd (chars ++ lineBreak)⟩ depth
      (start + Text.width (Piece.source part.pieces)) (chars ++ lineBreak)

theorem LinePart.tokens_of_closed {part : LinePart} (closed : part.openLiteral = none)
    (depth start : Nat) (lineBreak : List Char) :
    part.tokens depth start lineBreak = Piece.tokens depth start part.pieces := by
  simp [tokens, closed]

namespace Lexer

/-- A lexer took characters and queued tokens for them. -/
structure Took (L : Lexer) (chars : List Char) (tokens : List Token) (M : Lexer) : Prop where
  queue : M.queue = L.queue ++ tokens
  rest : L.scanner.rest = chars ++ M.scanner.rest
  index : M.scanner.index = L.scanner.index + Text.width chars
  nesting : M.nesting = L.nesting
  options : M.options = L.options
  ended : M.ended = L.ended

variable {L M N : Lexer} {chars more : List Char} {tokens later : List Token}

theorem Took.append (first : L.Took chars tokens M) (second : M.Took more later N) :
    L.Took (chars ++ more) (tokens ++ later) N where
  queue := by rw [second.queue, first.queue, List.append_assoc]
  rest := by rw [first.rest, second.rest, List.append_assoc]
  index := by rw [second.index, first.index, Text.width_append, Nat.add_assoc]
  nesting := second.nesting.trans first.nesting
  options := second.options.trans first.options
  ended := second.ended.trans first.ended

theorem Took.depth (took : L.Took chars tokens M) : M.depth = L.depth :=
  congrArg Nesting.depth took.nesting

theorem took_foldl_take {pieces : List Piece} {behind : List Char}
    (visible : ∀ m ∈ Piece.marks pieces, m.kind.isTrivia = false)
    (rest : L.scanner.rest = Piece.source pieces ++ behind) :
    L.Took (Piece.source pieces) (Piece.tokens L.depth L.scanner.index pieces)
      (pieces.foldl take L) := by
  have moved := Scanner.pass_prefix rest
  rw [foldl_take ⟨behind, rest.symm⟩, ← Piece.tokens_cells visible L.options]
  constructor
  case queue => rfl
  case rest => simp [move, rest]
  case index => simp [move, moved.1]
  case nesting => rfl
  case options => rfl
  case ended => rfl

theorem took_take {kind : TokenKind} (visible : kind.isTrivia = false) (context : TokenKind)
    (value : List Char) {behind : List Char} (rest : L.scanner.rest = chars ++ behind) :
    L.Took chars [Mark.token ⟨kind, context, value⟩ L.depth L.scanner.index chars]
      (L.take (.valued kind context value chars)) := by
  have shown : ∀ m ∈ Piece.marks [.valued kind context value chars], m.kind.isTrivia = false := by
    simpa using visible
  simpa using took_foldl_take shown (by simpa using rest)

theorem mode_take (L : Lexer) (p : Piece) : (L.take p).mode = L.mode := by
  unfold take
  dsimp only
  repeat' split
  all_goals rfl

theorem mode_foldl_take (L : Lexer) (pieces : List Piece) :
    (pieces.foldl take L).mode = L.mode := by
  induction pieces generalizing L with
  | nil => rfl
  | cons p pieces ih => rw [List.foldl_cons, ih, mode_take]

/-! ## Parts -/

/-- Within a line, a scan passes over blanks and takes a part of the line. -/
theorem scan_eq_takePart (inside : Text.atLineEnd (L.scanner.rest.dropWhile isBlank) = false) :
    L.scan = (L.take (.silent (L.scanner.rest.takeWhile isBlank))).takePart
      (L.mode.read (Text.line (L.scanner.rest.dropWhile isBlank))) := by
  have whole : L.scanner.rest.takeWhile isBlank ++ L.scanner.rest.dropWhile isBlank =
      L.scanner.rest := List.takeWhile_append_dropWhile
  have rest : (L.take (.silent (L.scanner.rest.takeWhile isBlank))).scanner.rest =
      L.scanner.rest.dropWhile isBlank := by
    generalize L.scanner.rest.takeWhile isBlank = blanks at whole ⊢
    generalize L.scanner.rest.dropWhile isBlank = behind at whole ⊢
    rw [rest_take, Piece.chars_silent, ← whole, List.drop_left]
  unfold scan
  dsimp only
  rw [rest, Text.lineBreak_eq_nil inside, inside, mode_take]
  rfl

/-- In front of a character that is not blank, a scan takes a part of the line. -/
theorem scan_front {c : Char} {rest : List Char} (front : L.scanner.rest = c :: rest)
    (solid : isBlank c = false) (inside : Text.atLineEnd (c :: rest) = false) :
    L.scan = L.takePart (L.mode.read (c :: Text.line rest)) := by
  have noBlanks : L.scanner.rest.takeWhile isBlank = [] ∧
      L.scanner.rest.dropWhile isBlank = c :: rest := by simp [front, solid]
  have line : Text.line (c :: rest) = c :: Text.line rest := by simp [Text.line, inside]
  have scan := scan_eq_takePart (L := L) (by rwa [noBlanks.2])
  rw [noBlanks.1, noBlanks.2, line] at scan
  exact scan

/-- A part that leaves nothing open is taken as it is. -/
theorem took_takePart (part : LinePart) {behind : List Char}
    (visible : ∀ m ∈ Piece.marks part.pieces, m.kind.isTrivia = false)
    (closed : part.openLiteral = none)
    (rest : L.scanner.rest = part.source ++ behind) :
    L.Took part.source (Piece.tokens L.depth L.scanner.index part.pieces) (L.takePart part) ∧
      (L.takePart part).mode = if part.itemFollows then .item else L.mode := by
  have source : part.source = Piece.source part.pieces := by simp [LinePart.source, closed]
  unfold takePart
  rw [closed]
  dsimp only
  generalize hN : { L with mode := if part.itemFollows then LineMode.item else L.mode } = N
  have start : N.scanner = L.scanner := by rw [← hN]
  have took := took_foldl_take (L := N) visible (by rw [start, rest, source])
  constructor
  · rw [source]
    subst hN
    exact { took with }
  · rw [mode_foldl_take, ← hN]

/-- A literal that is left open takes the line break, which is read as one line
feed. The next line begins behind the line break. -/
theorem took_takeOpenLiteral (text : List Char) (context : TokenKind)
    (tail : chars <:+ Text.line text) (rest : L.scanner.rest = chars ++ Text.behindLine text) :
    let taken := chars ++ Text.lineBreak (Text.behindLine text)
    ∃ M, L.Took taken
        [Mark.token ⟨.error, context, Text.foldEnd taken⟩ L.depth L.scanner.index taken] M ∧
      M.mode = L.mode ∧
      L.takeOpenLiteral context chars =
        if Text.lineBreak (Text.behindLine text) = [] then M else M.beginLine := by
  have noFeed : '\n' ∉ chars := fun mem => Text.lineFeed_notMem_line text (tail.subset mem)
  have seam : Text.Seam chars (Text.lineBreak (Text.behindLine text)) :=
    ((Text.seam_line text).of_suffix tail).of_first (Text.lineBreak_prefix _)
  generalize Text.behindLine text = behind at rest seam ⊢
  have drop : L.scanner.rest.drop chars.length = behind := by simp [rest]
  unfold takeOpenLiteral
  rw [drop]
  by_cases found : Text.lineBreak behind = []
  · refine ⟨L.take (.raw .error context chars), ?_, mode_take _ _, by simp [found]⟩
    rw [found, List.append_nil, Text.foldEnd_eq_self noFeed]
    exact took_take rfl context chars rest
  · have isBreak := (Text.lineBreak_cases behind).resolve_left found
    refine ⟨L.take (.valued .error context (chars ++ ['\n']) (chars ++ Text.lineBreak behind)), ?_,
      mode_take _ _, by simp [found]⟩
    rw [Text.foldEnd_append_lineBreak seam isBreak]
    apply took_take rfl
    rw [rest, List.append_assoc, Text.lineBreak_append_drop]

/-- A part that ends in an open literal takes the rest of the line, and its line break. -/
theorem took_takePart_open (part : LinePart) {context : TokenKind}
    (visible : ∀ m ∈ Piece.marks part.pieces, m.kind.isTrivia = false)
    (isOpen : part.openLiteral = some (context, chars)) (stays : part.itemFollows = false)
    (all : part.source = Text.line L.scanner.rest) :
    let lineBreak := Text.lineBreak (Text.behindLine L.scanner.rest)
    ∃ M, L.Took (part.source ++ lineBreak) (part.tokens L.depth L.scanner.index lineBreak) M ∧
      M.mode = L.mode ∧ L.takePart part = if lineBreak = [] then M else M.beginLine := by
  intro lineBreak
  have source : part.source = Piece.source part.pieces ++ chars := by
    simp [LinePart.source, isOpen]
  have line : Text.line L.scanner.rest = Piece.source part.pieces ++ chars := all ▸ source
  have whole := Text.line_append_behindLine L.scanner.rest
  rw [line, List.append_assoc] at whole
  have pieces := took_foldl_take visible whole.symm
  have rest :
      (part.pieces.foldl take L).scanner.rest = chars ++ Text.behindLine L.scanner.rest := by
    have left := pieces.rest
    rw [← whole] at left
    exact (List.append_cancel_left left).symm
  obtain ⟨M, literal, mode, taken⟩ :=
    took_takeOpenLiteral L.scanner.rest context ⟨Piece.source part.pieces, line.symm⟩ rest
  refine ⟨M, ?_, mode.trans (mode_foldl_take _ _), ?_⟩
  · have both := pieces.append literal
    rw [pieces.depth, pieces.index, ← List.append_assoc, ← source] at both
    simpa [LinePart.tokens, isOpen] using both
  · rw [← taken]
    unfold takePart
    simp [isOpen, stays]

/-- The start of a line queues nothing but its indentation. -/
theorem queue_beginLine (L : Lexer) :
    ∃ indentation, L.beginLine.queue = L.queue ++ indentation ∧ indentation.length ≤ 1 ∧
      ∀ t ∈ indentation, t.kind = .indent ∨ (t.kind = .error ∧ t.context = .indent) := by
  have queue : L.beginLine.queue = L.queue ++ Cell.tokens L.options L.scanner.index
      (Stretch.lineStart L.nesting L.scanner.rest).cells := by
    rw [beginLine_eq]
    rfl
  refine ⟨_, queue, ?_⟩
  unfold Stretch.lineStart
  cases LineMode.ofText L.scanner.rest with
  | header | item | blank => simp [Cell.tokens, Cell.token?, Piece.silent]
  | subsection =>
    generalize L.scanner.rest.takeWhile isBlank = indent
    dsimp only
    unfold Nesting.indentPiece
    cases L.nesting.accepts indent with
    | false => simp [Cell.tokens, Cell.token?, Piece.raw, Piece.valued, TokenKind.isTrivia]
    | true =>
      cases L.options.emitTrivia with
      | false => simp [Cell.tokens, Cell.token?, Piece.raw, Piece.valued, TokenKind.isTrivia]
      | true => simp [Cell.tokens, Cell.token?, Piece.raw, Piece.valued]

/-- What a part queues that takes the whole line: its tokens, and behind an open
literal the indentation of the next line. -/
theorem queue_takePart_line (part : LinePart)
    (visible : ∀ m ∈ Piece.marks part.pieces, m.kind.isTrivia = false)
    (stays : part.itemFollows = false) (all : part.source = Text.line L.scanner.rest) :
    let lineBreak := Text.lineBreak (Text.behindLine L.scanner.rest)
    let tokens := part.tokens L.depth L.scanner.index lineBreak
    ∃ indentation, (L.takePart part).queue = L.queue ++ tokens ++ indentation ∧
      (part.openLiteral = none → L.Took part.source tokens (L.takePart part)) ∧
      indentation.length ≤ 1 ∧
      ∀ t ∈ indentation, part.openLiteral.isSome = true ∧ lineBreak ≠ [] ∧
        (t.kind = .indent ∨ (t.kind = .error ∧ t.context = .indent)) := by
  intro lineBreak tokens
  cases isOpen : part.openLiteral with
  | none =>
    have whole := Text.line_append_behindLine L.scanner.rest
    rw [← all] at whole
    have took := (took_takePart part visible isOpen whole.symm).1
    rw [← LinePart.tokens_of_closed isOpen _ _ lineBreak] at took
    exact ⟨[], by rw [List.append_nil, took.queue], fun _ => took, by simp, by simp⟩
  | some literal =>
    obtain ⟨context, chars⟩ := literal
    obtain ⟨M, took, -, taken⟩ := took_takePart_open part visible isOpen stays all
    rw [taken]
    split
    · exact ⟨[], by rw [List.append_nil, took.queue], by simp, by simp, by simp⟩
    · rename_i found
      obtain ⟨indentation, queue, short, kinds⟩ := queue_beginLine M
      refine ⟨indentation, by rw [queue, took.queue], by simp, short, ?_⟩
      intro t mem
      exact ⟨rfl, found, kinds t mem⟩

end Lexer

end RuleLexer
