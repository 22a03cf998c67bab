import RuleLexer.Proofs.LineGrammar
import RuleLexer.Proofs.Positions
import RuleLexer.Proofs.SourceText

/-!
# Words

A word is a token as a parser meets it: what it says, and the line that it
starts on. Where it lies on the line, and how deep, is left aside, and so is trivia.

* `Cell.map_word_tokens`: the words of cells, counted by the line feeds in
  front of them, are those of their tokens;
* `Place.Finds`: what a scan from a place can find on its line;
* `Place.scan_words`: every scan finds that, and nothing on later lines but
  what is wrong with an indentation.
-/

namespace RuleLexer

open Cell (source)
open Item (IsItem)

/-- A token as a parser meets it: what it says, and the line it starts on. -/
structure Word extends Mark where
  line : Nat
  deriving DecidableEq

def Mark.onLine (line : Nat) (m : Mark) : Word := { m with line }

def Token.word (text : List Char) (t : Token) : Word :=
  t.mark.onLine (Text.positionOf text t.span.start).line

namespace Cell

/-- What a cell says without trivia. -/
def visible (c : Cell) : List Mark := c.piece.mark.toList.filter (!·.kind.isTrivia)

@[simp]
theorem visible_error (context : TokenKind) (value chars : List Char) (depth : Nat) :
    visible ⟨.valued .error context value chars, depth⟩ = [⟨.error, context, value⟩] := rfl

/-- The words of cells in a row, the first of which starts on a line. -/
def words (line : Nat) : List Cell → List Word
  | [] => []
  | c :: cells =>
    c.visible.map (·.onLine line) ++ words (line + c.piece.chars.count '\n') cells

theorem words_append (line : Nat) (a b : List Cell) :
    words line (a ++ b) = words line a ++ words (line + (source a).count '\n') b := by
  induction a generalizing line with
  | nil => rfl
  | cons c a ih => simp [words, ih, Nat.add_assoc]

/-- The words of cells are their tokens. -/
theorem map_word_tokens {text : List Char} (before : List Char) {cells : List Cell}
    {behind : List Char} (whole : text = before ++ source cells ++ behind) :
    (tokens {} (Text.width before) cells).map (Token.word text) =
      words (Position.after before).line cells := by
  induction cells generalizing before with
  | nil => rfl
  | cons c cells ih =>
    have later := ih (before ++ c.piece.chars) (by simp [whole])
    have here : Text.positionOf text (Text.width before) = Position.after before := by
      rw [whole, List.append_assoc]
      exact Text.positionOf_width before _
    have next : (Position.after (before ++ c.piece.chars)).line =
        (Position.after before).line + c.piece.chars.count '\n' := by
      simp [Position.after, Nat.add_assoc]
    rw [Text.width_append, next] at later
    rw [tokens, List.map_append, later, words]
    congr 1
    unfold token? visible
    cases c.piece.mark with
    | none => rfl
    | some mark =>
      cases trivia : mark.kind.isTrivia with
      | true => simp [trivia]
      | false => simp [trivia, Token.word, Token.mark, here]

/-- Pieces of one line, none of which is trivia. -/
theorem words_pieces {pieces : List Piece} (noFeed : '\n' ∉ Piece.source pieces)
    (visible : ∀ m ∈ Piece.marks pieces, m.kind.isTrivia = false) (line depth : Nat) :
    words line (pieces.map (⟨·, depth⟩)) = (Piece.marks pieces).map (·.onLine line) := by
  induction pieces with
  | nil => rfl
  | cons p pieces ih =>
    rw [Piece.source_cons, List.mem_append, not_or] at noFeed
    rw [Piece.marks_cons] at visible ⊢
    obtain ⟨own, more⟩ := List.forall_mem_append.mp visible
    have whole : p.mark.toList.filter (!·.kind.isTrivia) = p.mark.toList := by
      rw [List.filter_eq_self]
      intro m hm
      simp [own m hm]
    rw [List.map_cons, words, Cell.visible, whole, List.count_eq_zero.mpr noFeed.1, Nat.add_zero,
      ih noFeed.2 more, List.map_append]

end Cell

/-- What is wrong with the indentation of a line. -/
def Word.IsIndent (w : Word) : Prop := w.kind = .error ∧ w.context = .indent

namespace Stretch

theorem words_lineStart (nesting : Nesting) (text : List Char) (line : Nat) :
    ∀ w ∈ Cell.words line (lineStart nesting text).cells, w.IsIndent := by
  unfold lineStart
  cases LineMode.ofText text with
  | header | item | blank => simp [Cell.words, Cell.visible, Piece.silent]
  | subsection =>
    simp only [Cell.words, Cell.visible, Nesting.indentPiece]
    split
    · simp [Piece.raw, Piece.valued, TokenKind.isTrivia]
    · simp [Piece.raw, Piece.valued, TokenKind.isTrivia, Mark.onLine, Word.IsIndent]

theorem words_lineBreak (nesting : Nesting) (p : Piece) (text : List Char) (line : Nat) :
    ∃ indent, (∀ w ∈ indent, w.IsIndent) ∧ Cell.words line (lineBreak nesting p text).cells =
      (Cell.visible ⟨p, nesting.depth⟩).map (·.onLine line) ++ indent :=
  ⟨_, words_lineStart nesting text _, rfl⟩

/-- A part of the line at a place says its marks, on the line. -/
theorem words_ofPart {p : Place} {part : LinePart}
    (source : part.source <+: Text.line p.rest)
    (visible : ∀ lineBreak, ∀ m ∈ part.marks lineBreak, m.kind.isTrivia = false) (line : Nat) :
    ∃ lineBreak indent, Cell.words line (ofPart p part).cells =
        (part.marks lineBreak).map (·.onLine line) ++ indent ∧ (∀ w ∈ indent, w.IsIndent) ∧
      (part.source = Text.line p.rest → Text.atLineEnd (ofPart p part).place.rest = true ∨
        '\n' ∈ Cell.source (ofPart p part).cells) := by
  obtain ⟨tail, whole⟩ := source
  have drop := Text.drop_of_line whole.symm
  have noFeed : '\n' ∉ Piece.source part.pieces := by
    intro mem
    apply Text.lineFeed_notMem_line p.rest
    simp [← whole, LinePart.source, mem]
  have pieces := Cell.words_pieces noFeed (fun m hm => visible [] m (by simp [LinePart.marks, hm]))
    line p.nesting.depth
  have feeds : (Piece.source part.pieces).count '\n' = 0 := List.count_eq_zero.mpr noFeed
  have lineEnd (all : part.source = Text.line p.rest) :
      Text.atLineEnd (tail ++ Text.behindLine p.rest) = true := by
    obtain rfl : tail = [] := by simpa [all] using whole
    exact Text.atLineEnd_behindLine p.rest
  unfold ofPart
  dsimp only
  rw [drop]
  cases hopen : part.openLiteral with
  | none =>
    refine ⟨[], [], ?_, by simp, fun all => .inl (lineEnd all)⟩
    simp [LinePart.marks, hopen, pieces]
  | some literal =>
    obtain ⟨context, chars⟩ := literal
    dsimp only
    split
    · refine ⟨[], [], ?_, by simp, fun all => .inl (lineEnd all)⟩
      simp [LinePart.marks, hopen, pieces, Cell.words_append, Cell.words, feeds, Piece.raw]
    · rename_i found
      obtain ⟨indent, isIndent, words⟩ := words_lineBreak p.nesting
        (.valued .error context (chars ++ ['\n'])
          (chars ++ Text.lineBreak (tail ++ Text.behindLine p.rest)))
        ((tail ++ Text.behindLine p.rest).drop
          (Text.lineBreak (tail ++ Text.behindLine p.rest)).length) line
      refine ⟨['\n'], indent, ?_, isIndent, fun _ => .inr ?_⟩
      · simp [LinePart.marks, hopen, pieces, Cell.words_append, words, feeds]
      · have feed := Text.lineFeed_mem_lineBreak found
        simp [lineBreak, feed]

end Stretch

/-- What a scan from a place can find on its line. -/
inductive Place.Finds (p : Place) (s : Stretch) : List Mark → Prop
  | nothing (moves : s.ended = true ∨ '\n' ∈ source s.cells) : p.Finds s []
  | lead {marks : List Mark} (inside : Text.atLineEnd p.rest = false) (isLead : IsLead marks) :
      p.Finds s marks
  /-- An item, behind which the line has ended. -/
  | item {marks : List Mark} (inside : Text.atLineEnd p.rest = false) (isItem : IsItem marks)
      (ends : Text.atLineEnd s.place.rest = true ∨ '\n' ∈ source s.cells) : p.Finds s marks

theorem Place.scan_words (p : Place) (line : Nat) : ∃ marks indent, p.Finds p.scan marks ∧
    Cell.words line p.scan.cells = marks.map (·.onLine line) ++ indent ∧
      ∀ w ∈ indent, w.IsIndent := by
  have noFeed : '\n' ∉ p.rest.takeWhile isBlank := by
    intro mem
    cases Text.isBlank_of_mem_takeWhile mem
  have behindBlanks (s : Stretch) :
      Cell.words line (s.behind [⟨.silent (p.rest.takeWhile isBlank), p.nesting.depth⟩]).cells =
        Cell.words line s.cells := by
    simp [Cell.words, Cell.visible, Piece.silent, List.count_eq_zero.mpr noFeed]
  unfold scan
  dsimp only
  split
  · rename_i found
    obtain ⟨indent, isIndent, words⟩ := Stretch.words_lineBreak p.nesting
      (.valued .newLine .none ['\n'] (Text.lineBreak (p.rest.dropWhile isBlank)))
      ((p.rest.dropWhile isBlank).drop (Text.lineBreak (p.rest.dropWhile isBlank)).length) line
    refine ⟨[], indent, .nothing (.inr ?_), by rw [behindBlanks, words]; rfl, isIndent⟩
    have feed := Text.lineFeed_mem_lineBreak found
    simp [Stretch.lineBreak, feed]
  · split
    · exact ⟨[], [], .nothing (.inl rfl), by rw [behindBlanks]; rfl, by simp⟩
    · rename_i noEnd
      simp only [Bool.not_eq_true] at noEnd
      have inside : Text.atLineEnd p.rest = false := by
        by_contra ends
        rw [Text.dropWhile_of_atLineEnd (by simpa using ends)] at noEnd
        exact ends noEnd
      obtain ⟨c, rest, front, noBlank⟩ := Text.exists_line_dropWhile noEnd
      have source := p.mode.source_read (Text.line (p.rest.dropWhile isBlank))
      have visible := p.mode.visible_read noBlank rest
      have grammar := p.mode.marks_read noBlank rest
      rw [← front] at visible grammar
      generalize p.mode.read (Text.line (p.rest.dropWhile isBlank)) = part at *
      obtain ⟨lineBreak, indent, words, isIndent, ends⟩ := Stretch.words_ofPart
        (p := { p with rest := p.rest.dropWhile isBlank }) source visible line
      refine ⟨part.marks lineBreak, indent, ?_, by rw [behindBlanks, words], isIndent⟩
      rcases grammar lineBreak with isLead | ⟨isItem, all⟩
      · exact .lead inside isLead
      · refine .item inside isItem ?_
        rcases ends all with lineEnd | feed
        · exact .inl lineEnd
        · exact .inr (by simp [feed])

end RuleLexer
