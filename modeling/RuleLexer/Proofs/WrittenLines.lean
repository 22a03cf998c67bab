import Mathlib.Data.List.Basic
import Mathlib.Data.List.TakeWhile
import RuleLexer.LineMode
import RuleLexer.Proofs.Cells
import RuleLexer.Proofs.Lines
import RuleLexer.RuleFile

/-!
# Written lines

A line of a rule file reads as it was meant, whatever characters its names and
texts have. Each part of a line is read back by itself, with what may follow it.

* `Argument.lexemes_written`: an argument in front of more of its list;
* `Operand.readSide_written`: a side of an item, with or without an arrow behind it;
* `Line.onLine`, `Line.getLast?_ne`: a written line stays one line;
* `Line.exists_cons`: it reads as it was meant.
-/

namespace RuleLexer

/-! ## Tokens of pieces -/

namespace Piece

/-- The tokens of pieces on a line that is not indented. -/
def tokensAtTop (start : Nat) (pieces : List Piece) : List Token :=
  Cell.tokens {} start (pieces.map (⟨·, 1⟩))

@[simp]
theorem tokensAtTop_nil (start : Nat) : tokensAtTop start [] = [] := rfl

@[simp]
theorem tokensAtTop_silent (start : Nat) (chars : List Char) (pieces : List Piece) :
    tokensAtTop start (.silent chars :: pieces) =
      tokensAtTop (start + Text.width chars) pieces := rfl

theorem tokensAtTop_marked (start : Nat) {p : Piece} {mark : Mark} (marked : p.mark = some mark)
    (solid : mark.kind.isTrivia = false) (pieces : List Piece) :
    tokensAtTop start (p :: pieces) =
      RuleFile.token start p.chars mark :: tokensAtTop (start + Text.width p.chars) pieces := by
  simp [tokensAtTop, Cell.tokens, Cell.token?, marked, solid, RuleFile.token]

theorem tokensAtTop_gaps (start : Nat) (gaps : List (List Char)) (pieces : List Piece) :
    tokensAtTop start (gaps.map .silent ++ pieces) =
      tokensAtTop (start + Text.width gaps.flatten) pieces := by
  induction gaps generalizing start with
  | nil => rfl
  | cons chars gaps ih => simp [ih, Nat.add_assoc]

theorem tokensAtTop_gaps_nil (start : Nat) (gaps : List (List Char)) :
    tokensAtTop start (gaps.map .silent) = [] := by
  simpa using tokensAtTop_gaps start gaps []

theorem tokensAtTop_append (start : Nat) (a b : List Piece) :
    tokensAtTop start (a ++ b) =
      tokensAtTop start a ++ tokensAtTop (start + Text.width (source a)) b := by
  simp [tokensAtTop, Cell.tokens_append]

end Piece

/-! ## Characters that fit on a line -/

namespace RuleFile

variable {text a b : List Char}

theorem OnLine.append (first : OnLine a) (second : OnLine b) : OnLine (a ++ b) :=
  List.forall_mem_append.mpr ⟨first, second⟩

theorem OnLine.cons {c : Char} (first : c ≠ '\n' ∧ c ≠ endOfText) (second : OnLine text) :
    OnLine (c :: text) :=
  List.forall_mem_cons.mpr ⟨first, second⟩

theorem OnLine.head?_ne (h : OnLine text) : text.head? ≠ some '\n' := by
  intro head
  exact (h '\n' (List.mem_of_head? head)).1 rfl

theorem OnLine.line (h : OnLine text) : Text.line text = text := by
  induction text with
  | nil => rfl
  | cons c text ih =>
    obtain ⟨own, more⟩ := List.forall_mem_cons.mp h
    have noFeed := OnLine.head?_ne more
    simp [Text.line, Text.atLineEnd, own, noFeed, ih more]

theorem onLine_of_forall {p : Char → Bool} (h : ∀ c ∈ text, p c = true) (feed : p '\n' = false)
    (nul : p endOfText = false) : OnLine text := by
  intro c hc
  have holds := h c hc
  constructor
  · rintro rfl
    rw [feed] at holds
    cases holds
  · rintro rfl
    rw [nul] at holds
    cases holds

theorem onLine_doubled {close : Char} (own : close ≠ '\n' ∧ close ≠ endOfText) (h : OnLine text) :
    OnLine (Literal.doubled close text) := by
  induction text with
  | nil => exact h
  | cons c text ih =>
    obtain ⟨first, more⟩ := List.forall_mem_cons.mp h
    rw [Literal.doubled]
    split
    · exact .cons own (.cons own (ih more))
    · exact .cons first (ih more)

theorem onLine_literal (d : Delimiter) (h : OnLine text) : OnLine (Literal.written d text) := by
  have opener : d.opener ≠ '\n' ∧ d.opener ≠ endOfText := by cases d <;> decide
  have closer : d.closer ≠ '\n' ∧ d.closer ≠ endOfText := by cases d <;> decide
  exact .cons opener (.append (onLine_doubled closer h) (.cons closer nofun))

theorem Name.onLine (name : Name) : OnLine name.chars :=
  onLine_of_forall name.alphabetic (by decide) (by decide)

theorem Label.onLine (name : Label) : OnLine name.chars :=
  onLine_of_forall name.suits (by decide) (by decide)

end RuleFile

/-! ## Arguments -/

namespace ArgumentList

theorem lexemes_literal {d : Delimiter} (isArgument : argumentDelimiter? d.opener = some d)
    (body : List Char) {rest : List Char} (behind : rest.head? ≠ some d.closer) :
    lexemes (Literal.written d body ++ rest) =
      (.literal ⟨d, body⟩ :: (lexemes rest).1, (lexemes rest).2) := by
  have line : Literal.written d body ++ rest =
      d.opener :: (Literal.doubled d.closer body ++ d.closer :: rest) := by
    simp [Literal.written]
  have read := Literal.read_of_doubled d body behind
  have noClose : d.opener ≠ ')' ∧ d.opener ≠ ',' ∧ d.opener ≠ '(' ∧ d.opener ≠ ']' := by
    cases d <;> decide
  have noBlank : isBlank d.opener = false := by cases d <;> rfl
  rw [line, lexemes.eq_def]
  simp only [noClose, noBlank, isArgument, decide_false, Bool.or_self, if_false, Bool.false_eq_true]
  split
  · rename_i found
    rw [read] at found
    cases found
    rfl
  · rename_i found
    rw [read] at found
    cases found

theorem lexemes_cons_blank {c : Char} (blank : isBlank c = true) (rest : List Char) :
    lexemes (c :: rest) = (.blank c :: (lexemes rest).1, (lexemes rest).2) := by
  have noClose : c ≠ ')' := by
    rintro rfl
    cases blank
  rw [lexemes.eq_def]
  simp [noClose, blank]

theorem lexemes_cons_comma (rest : List Char) :
    lexemes (',' :: rest) = (.comma :: (lexemes rest).1, (lexemes rest).2) := by
  rw [lexemes.eq_def]
  simp [isBlank]

theorem lexemes_close (rest : List Char) : lexemes (')' :: rest) = ([], .closed rest) := by
  simp [lexemes]

end ArgumentList

namespace RuleFile

open ArgumentList (Lexeme lexemes)

theorem writtenArguments_singleton (a : Argument) : writtenArguments [a] = a.written :=
  List.intercalate_singleton ..

theorem writtenArguments_cons_cons (a b : Argument) (more : List Argument) :
    writtenArguments (a :: b :: more) =
      a.written ++ ',' :: ' ' :: writtenArguments (b :: more) := by
  simp [writtenArguments, List.intercalate_cons_cons]

theorem onLine_writtenArguments (arguments : List Argument) :
    OnLine (writtenArguments arguments) := by
  have own : ∀ a : Argument, OnLine a.written := by
    rintro (body | body)
    · exact onLine_literal .bracket body.onLine
    · exact onLine_literal .quote body.onLine
  induction arguments with
  | nil => nofun
  | cons a more ih =>
    cases more with
    | nil =>
      rw [writtenArguments_singleton]
      exact own a
    | cons b more =>
      rw [writtenArguments_cons_cons]
      exact .append (own a) (.cons (by decide) (.cons (by decide) ih))

/-- The lexeme of an argument. -/
def Argument.lexeme : Argument → Lexeme
  | sectionName body => .literal ⟨.bracket, body.chars⟩
  | string body => .literal ⟨.quote, body.chars⟩

/-- The lexemes of arguments, with what stands between them. -/
def argumentLexemes (arguments : List Argument) : List Lexeme :=
  [.comma, .blank ' '].intercalate (arguments.map ([·.lexeme]))

theorem Argument.lexemes_written (a : Argument) {rest : List Char}
    (behind : rest.head? ≠ some ']' ∧ rest.head? ≠ some '"') :
    lexemes (a.written ++ rest) = (a.lexeme :: (lexemes rest).1, (lexemes rest).2) := by
  cases a with
  | sectionName body => exact ArgumentList.lexemes_literal rfl body.chars behind.1
  | string body => exact ArgumentList.lexemes_literal rfl body.chars behind.2

theorem lexemes_writtenArguments (arguments : List Argument) (rest : List Char) :
    lexemes (writtenArguments arguments ++ ')' :: rest) =
      (argumentLexemes arguments, .closed rest) := by
  induction arguments with
  | nil => exact ArgumentList.lexemes_close rest
  | cons a more ih =>
    cases more with
    | nil =>
      rw [writtenArguments_singleton, a.lexemes_written (by simp), ArgumentList.lexemes_close]
      rfl
    | cons b more =>
      rw [writtenArguments_cons_cons, List.append_assoc, List.cons_append, List.cons_append,
        a.lexemes_written (by simp), ArgumentList.lexemes_cons_comma,
        ArgumentList.lexemes_cons_blank rfl, ih]
      rfl

theorem judge_lexeme (a : Argument) (list : List Lexeme) :
    ArgumentList.judge true (a.lexeme :: list) =
      ⟨a.written, some a.mark⟩ :: ArgumentList.judge false list := by
  cases a <;> rfl

/-- No argument of a written list is out of place. -/
theorem tokensAtTop_judge (arguments : List Argument) (start : Nat) :
    Piece.tokensAtTop start (ArgumentList.judge true (argumentLexemes arguments)) =
      argumentTokens start arguments := by
  induction arguments generalizing start with
  | nil => rfl
  | cons a more ih =>
    have solid : a.mark.kind.isTrivia = false := by cases a <;> rfl
    cases more with
    | nil =>
      have alone : argumentLexemes [a] = [a.lexeme] := List.intercalate_singleton ..
      rw [alone, judge_lexeme, Piece.tokensAtTop_marked start rfl solid]
      rfl
    | cons b more =>
      have first : argumentLexemes (a :: b :: more) =
          a.lexeme :: .comma :: .blank ' ' :: argumentLexemes (b :: more) := by
        simp [argumentLexemes, List.intercalate_cons_cons]
      rw [first, judge_lexeme, Piece.tokensAtTop_marked start rfl solid, argumentTokens, ← ih]
      rfl

/-- A part of a line in which the line reads as it was meant. -/
structure Line.ReadAs (l : Line) (part : LinePart) : Prop where
  closed : part.openLiteral = none
  source : Piece.source part.pieces = l.written
  tokens : ∀ start, Piece.tokensAtTop start part.pieces = l.tokens start

/-! ## Annotations and headings -/

theorem Name.head_eq (name : Name) :
    Annotation.head name.chars = ⟨name.written, some name.mark⟩ :=
  if_neg name.ne_nil

theorem Name.read (name : Name) :
    Annotation.read name.chars = { pieces := [⟨name.written, some name.mark⟩] } := by
  simpa [name.head_eq] using Annotation.read_name name.alphabetic

theorem Name.read_list (name : Name) (behind : List Char) :
    Annotation.read (name.chars ++ '(' :: behind) =
      { ArgumentList.read behind with
        pieces := ⟨name.written, some name.mark⟩ :: (ArgumentList.read behind).pieces } := by
  have stops : isAlphabetic '(' = false := by decide
  simpa [name.ne_nil, name.head_eq] using Annotation.read_cons name.alphabetic stops behind

theorem source_judge_written (arguments : List Argument) :
    Piece.source (ArgumentList.judge true (argumentLexemes arguments)) =
      writtenArguments arguments := by
  have whole := ArgumentList.source_lexemes (writtenArguments arguments ++ [')'])
  rw [lexemes_writtenArguments, ← ArgumentList.source_judge true] at whole
  exact List.append_cancel_right whole

theorem readAs_tag (name : Name) (arguments : Option (List Argument)) :
    (Line.tag name arguments).ReadAs
      (LineMode.readHeader (Line.tag name arguments).written) := by
  cases arguments with
  | none =>
    have read : LineMode.readHeader (Line.tag name none).written =
        { pieces := [⟨name.written, some name.mark⟩] } := name.read
    rw [read]
    refine ⟨rfl, by simp [Line.written], ?_⟩
    intro start
    rw [Piece.tokensAtTop_marked start rfl rfl]
    rfl
  | some arguments =>
    have list : ArgumentList.read (writtenArguments arguments ++ [')']) =
        { pieces := .silent ['('] :: ArgumentList.judge true (argumentLexemes arguments) ++
            [.silent [')']] } := by
      simp [ArgumentList.read, lexemes_writtenArguments]
    have read : LineMode.readHeader (Line.tag name (some arguments)).written =
        { pieces := ⟨name.written, some name.mark⟩ :: .silent ['('] ::
            ArgumentList.judge true (argumentLexemes arguments) ++ [.silent [')']] } := by
      have behind := name.read_list (writtenArguments arguments ++ [')'])
      rw [list] at behind
      simpa [Line.written, Name.written, LineMode.readHeader] using behind
    rw [read]
    refine ⟨rfl, ?_, ?_⟩
    · simp [Line.written, source_judge_written]
    · intro start
      rw [List.cons_append, Piece.tokensAtTop_marked start rfl rfl, List.cons_append,
        Piece.tokensAtTop_silent, Piece.tokensAtTop_append, tokensAtTop_judge,
        Piece.tokensAtTop_silent, Piece.tokensAtTop_nil, List.append_nil]
      rfl

theorem readAs_heading (title : Title) :
    (Line.heading title).ReadAs (LineMode.readHeader (Line.heading title).written) := by
  have body : Literal.read .bracket (Literal.doubled ']' title.chars ++ [']']) =
      .closed ⟨.bracket, title.chars⟩ [] := Literal.read_of_doubled .bracket title.chars nofun
  have read : LineMode.readHeader (Line.heading title).written =
      { pieces := [⟨title.written, some title.mark⟩], itemFollows := true } := by
    simp [Line.written, Title.written, Title.mark, Literal.written, LineMode.readHeader,
      Delimiter.opener, Delimiter.closer, Heading.read, body, Heading.piece, Literal.escaped,
      title.noBracket, Literal.piece, Literal.chars, Piece.valued]
  rw [read]
  refine ⟨rfl, by simp [Line.written], ?_⟩
  intro start
  rw [Piece.tokensAtTop_marked start rfl rfl]
  rfl

end RuleFile

/-! ## Items -/

namespace Item

/-- What may stand behind a side: nothing, or behind the left side an arrow. -/
inductive Follows : Side → List Char → Prop
  | lineEnd (side : Side) : Follows side []
  | arrow (behind : List Char) : Follows .left (' ' :: '-' :: '>' :: behind)

theorem cutAtArrow_append {text rest : List Char} (noArrow : ¬ ['-', '>'] <:+: text)
    (apart : rest.head? ≠ some '>') :
    cutAtArrow (text ++ rest) = (text ++ (cutAtArrow rest).1, (cutAtArrow rest).2) := by
  induction text with
  | nil => rfl
  | cons c text ih =>
    have noMore : ¬ ['-', '>'] <:+: text := by
      intro more
      exact noArrow (List.infix_cons more)
    have here : ¬ (c = '-' ∧ (text ++ rest).head? = some '>') := by
      rintro ⟨rfl, head⟩
      cases text with
      | nil => exact apart head
      | cons d text =>
        obtain rfl : d = '>' := by simpa using head
        exact noArrow (List.prefix_append ['-', '>'] text).isInfix
    rw [List.cons_append, cutAtArrow, if_neg here, ih noMore]
    rfl

variable {side : Side} {text rest : List Char}

theorem Follows.cut (h : Follows side rest) (noArrow : ¬ ['-', '>'] <:+: text) :
    side.cut (text ++ rest) = (text ++ rest.takeWhile isBlank, rest.dropWhile isBlank) := by
  cases h with
  | lineEnd =>
    cases side with
    | left => exact cutAtArrow_append noArrow nofun
    | right => rfl
  | arrow behind => exact cutAtArrow_append noArrow (by simp)

theorem Follows.cut_dropWhile (h : Follows side rest) :
    side.cut (rest.dropWhile isBlank) = ([], rest.dropWhile isBlank) := by
  cases h with
  | lineEnd => cases side <;> rfl
  | arrow behind => rfl

theorem Follows.head?_ne (h : Follows side rest) {c : Char} (noBlank : c ≠ ' ') :
    rest.head? ≠ some c := by
  cases h with
  | lineEnd => nofun
  | arrow behind => simpa using noBlank.symm

theorem trimmed_append {blanks : List Char} (blank : ∀ c ∈ blanks, isBlank c = true)
    (last : ∀ c ∈ text.getLast?, isBlank c = false) :
    trimmed (text ++ blanks) = text ∧ trailing (text ++ blanks) = blanks := by
  have front : trimmed (text ++ blanks) = text := by
    have blank : ∀ c ∈ blanks.reverse, isBlank c = true := by simpa using blank
    rw [trimmed, List.reverse_append, List.dropWhile_append_of_pos blank]
    cases h : text.reverse with
    | nil => simpa using h.symm
    | cons c more =>
      have found : c ∈ text.getLast? := by
        rw [List.getLast?_eq_head?_reverse, h]
        rfl
      rw [List.dropWhile_cons_of_neg (by simp [last c found]), ← h, List.reverse_reverse]
  have whole := trimmed_append_trailing (text ++ blanks)
  rw [front] at whole
  exact ⟨front, List.append_cancel_left whole⟩

/-- A closed literal is read, and what is behind it is cut. -/
theorem readSide_written (side : Side) (d : Delimiter) (body : List Char) {behind : List Char}
    (apart : behind.head? ≠ some d.closer) :
    readSide side (Literal.written d body ++ behind) =
      ({ pieces := literalPiece side ⟨d, body⟩ :: .silent (behind.takeWhile isBlank) ::
          junkPieces side (side.cut (behind.dropWhile isBlank)).1 },
        (side.cut (behind.dropWhile isBlank)).2) := by
  have opens : Delimiter.ofOpener? d.opener = some d := Delimiter.ofOpener?_eq_some_iff.mpr rfl
  have read := Literal.read_of_doubled d body apart
  simp [readSide, Literal.written, opens, read]

/-- A literal on a side is read as it was written. -/
theorem readSide_literal (d : Delimiter) {body : List Char}
    (suits : d = .bracket → body.all isLabelChar = true) (h : Follows side rest) :
    readSide side (Literal.written d body ++ rest) =
      ({ pieces := [.valued d.kind side.context body (Literal.written d body),
          .silent (rest.takeWhile isBlank), .silent []] }, rest.dropWhile isBlank) := by
  have apart : rest.head? ≠ some d.closer := h.head?_ne (by cases d <;> decide)
  have piece : literalPiece side ⟨d, body⟩ =
      .valued d.kind side.context body (Literal.written d body) := by
    apply if_neg
    rintro ⟨bracket, odd⟩
    exact odd (suits bracket)
  rw [readSide_written side d body apart, h.cut_dropWhile, piece]
  rfl

end Item

namespace RuleFile

theorem PlainText.exists_cons (plain : PlainText) : ∃ c rest, plain.chars = c :: rest ∧
    c ∉ [' ', '\t', '"', '/', '[', '@', '(', ')', ','] := by
  cases h : plain.chars with
  | nil => exact absurd h plain.ne_nil
  | cons c rest => exact ⟨c, rest, rfl, plain.first c (by rw [h]; rfl)⟩

theorem Operand.exists_cons {side : Item.Side} (o : Operand side) :
    ∃ c rest, o.written = c :: rest ∧ c ∉ [' ', '\t', '@', '(', ')', ','] ∧
      (side = .left → c ≠ '[') := by
  cases o with
  | text plain =>
    obtain ⟨c, rest, front, first⟩ := plain.exists_cons
    simp only [List.mem_cons, List.not_mem_nil, or_false, not_or] at first
    exact ⟨c, rest, front, by simp [first], by simp [first]⟩
  | string body => exact ⟨'"', _, rfl, by decide, fun _ => by decide⟩
  | regex body => exact ⟨'/', _, rfl, by decide, fun _ => by decide⟩
  | label name => exact ⟨'[', _, rfl, by decide, nofun⟩

theorem PlainText.readSide_written (plain : PlainText) {side : Item.Side} {rest : List Char}
    (h : Item.Follows side rest) :
    Item.readSide side (plain.chars ++ rest) =
      ({ pieces := [.raw .value side.context plain.chars, .silent (rest.takeWhile isBlank)] },
        rest.dropWhile isBlank) := by
  have noOpener : (plain.chars ++ rest).head?.bind Delimiter.ofOpener? = none := by
    obtain ⟨c, more, front, first⟩ := plain.exists_cons
    simp only [List.mem_cons, List.not_mem_nil, or_false, not_or] at first
    simp [front, Delimiter.ofOpener?, first]
  have blank : ∀ c ∈ rest.takeWhile isBlank, isBlank c = true := by
    intro c hc
    exact Text.isBlank_of_mem_takeWhile hc
  have last : ∀ c ∈ plain.chars.getLast?, isBlank c = false := by
    intro c hc
    have last := plain.last c hc
    simp only [List.mem_cons, List.not_mem_nil, or_false, not_or] at last
    simp [isBlank, last]
  obtain ⟨trimmed, trailing⟩ := Item.trimmed_append blank last
  simp only [Item.readSide, noOpener, h.cut plain.noArrow, trimmed, trailing]

/-- A side reads as it was written. Behind it, blanks are passed over. -/
theorem Operand.readSide_written {side : Item.Side} (o : Operand side) {rest : List Char}
    (h : Item.Follows side rest) :
    ∃ gaps : List (List Char), gaps.flatten = rest.takeWhile isBlank ∧
      Item.readSide side (o.written ++ rest) =
        ({ pieces := ⟨o.written, some o.mark⟩ :: gaps.map .silent }, rest.dropWhile isBlank) := by
  cases o with
  | text plain => exact ⟨[rest.takeWhile isBlank], by simp, plain.readSide_written h⟩
  | string body =>
    exact ⟨[rest.takeWhile isBlank, []], by simp, Item.readSide_literal .quote nofun h⟩
  | regex body =>
    exact ⟨[rest.takeWhile isBlank, []], by simp, Item.readSide_literal .slash nofun h⟩
  | label name =>
    have suits : name.chars.all isLabelChar = true := List.all_eq_true.mpr name.suits
    exact ⟨[rest.takeWhile isBlank, []], by simp, Item.readSide_literal .bracket (fun _ => suits) h⟩

theorem Operand.isTrivia_mark {side : Item.Side} (o : Operand side) :
    o.mark.kind.isTrivia = false := by
  cases o <;> rfl

theorem Operand.blank_in_front {side : Item.Side} (o : Operand side) :
    (' ' :: o.written).takeWhile isBlank = [' '] ∧
      (' ' :: o.written).dropWhile isBlank = o.written := by
  obtain ⟨c, rest, front, first, -⟩ := o.exists_cons
  have solid : ¬ isBlank c = true := by
    simp only [List.mem_cons, not_or] at first
    simp [isBlank, first]
  constructor
  · rw [front, List.takeWhile_cons_of_pos rfl, List.takeWhile_cons_of_neg solid]
  · rw [front, List.dropWhile_cons_of_pos rfl, List.dropWhile_cons_of_neg solid]

theorem readAs_item_left (left : Operand .left) :
    (Line.item left none).ReadAs (Item.read (Line.item left none).written) := by
  obtain ⟨gaps, -, side⟩ := left.readSide_written (.lineEnd .left)
  rw [List.append_nil] at side
  have read : Item.read (Line.item left none).written =
      { pieces := ⟨left.written, some left.mark⟩ :: gaps.map .silent } := by
    simp [Item.read, Line.written, side]
  have source := Item.source_read (Line.item left none).written
  rw [read] at source ⊢
  refine ⟨rfl, by simpa [LinePart.source] using source, ?_⟩
  intro start
  rw [Piece.tokensAtTop_marked start rfl left.isTrivia_mark, Piece.tokensAtTop_gaps_nil]
  rfl

theorem readAs_item_right (left : Operand .left) (right : Operand .right) :
    (Line.item left (some right)).ReadAs (Item.read (Line.item left (some right)).written) := by
  obtain ⟨gaps, flat, side⟩ := left.readSide_written (.arrow (' ' :: right.written))
  obtain ⟨gaps', -, side'⟩ := right.readSide_written (.lineEnd .right)
  obtain ⟨blank, behind⟩ := right.blank_in_front
  have line : (Line.item left (some right)).written =
      left.written ++ ' ' :: '-' :: '>' :: ' ' :: right.written := by
    simp [Line.written]
  have arrow : (' ' :: '-' :: '>' :: ' ' :: right.written).dropWhile isBlank =
      '-' :: '>' :: ' ' :: right.written := rfl
  rw [List.append_nil] at side'
  rw [arrow] at side
  have read : Item.read (Line.item left (some right)).written =
      { pieces := ⟨left.written, some left.mark⟩ :: (gaps.map .silent ++
          .raw .operator .none ['-', '>'] :: .silent [' '] ::
            ⟨right.written, some right.mark⟩ :: gaps'.map .silent) } := by
    simp only [Item.read, line, side, blank, behind, side']
    rfl
  have source := Item.source_read (Line.item left (some right)).written
  rw [read] at source ⊢
  refine ⟨rfl, by simpa [LinePart.source] using source, ?_⟩
  intro start
  have gap : Text.width gaps.flatten = 1 := by
    rw [flat]
    rfl
  rw [Piece.tokensAtTop_marked start rfl left.isTrivia_mark, Piece.tokensAtTop_gaps, gap,
    Piece.tokensAtTop_marked _ rfl rfl, Piece.tokensAtTop_silent,
    Piece.tokensAtTop_marked _ rfl right.isTrivia_mark, Piece.tokensAtTop_gaps_nil]
  rfl

/-! ## Lines -/

theorem Operand.onLine {side : Item.Side} (o : Operand side) : OnLine o.written := by
  cases o with
  | text plain => exact plain.onLine
  | string body => exact onLine_literal .quote body.onLine
  | regex body => exact onLine_literal .slash body.onLine
  | label name => exact onLine_literal .bracket name.onLine

theorem Line.onLine (l : Line) : OnLine l.written := by
  cases l with
  | tag name arguments =>
    have atName : OnLine name.written := .cons (by decide) name.onLine
    cases arguments with
    | none => exact atName
    | some arguments =>
      exact .append (.append atName (.cons (by decide) (onLine_writtenArguments arguments)))
        (by decide)
  | heading title => exact onLine_literal .bracket title.onLine
  | item left right =>
    cases right with
    | none => exact left.onLine
    | some right => exact .append (.append left.onLine (by decide)) right.onLine

theorem getLast?_literal (d : Delimiter) (body : List Char) :
    (Literal.written d body).getLast? ≠ some '\r' := by
  rw [Literal.written, List.getLast?_concat]
  cases d <;> decide

theorem Operand.getLast?_ne {side : Item.Side} (o : Operand side) :
    o.written.getLast? ≠ some '\r' := by
  cases o with
  | text plain =>
    intro last
    exact plain.last '\r' last (by simp)
  | string body => exact getLast?_literal .quote body.chars
  | regex body => exact getLast?_literal .slash body.chars
  | label name => exact getLast?_literal .bracket name.chars

theorem Line.getLast?_ne (l : Line) : l.written.getLast? ≠ some '\r' := by
  cases l with
  | tag name arguments =>
    cases arguments with
    | none =>
      intro last
      have mem : '\r' ∈ name.chars := by
        rcases List.mem_cons.mp (List.mem_of_getLast? last) with atSign | mem
        · exact absurd atSign (by decide)
        · exact mem
      exact absurd (name.alphabetic _ mem) (by decide)
    | some arguments =>
      rw [Line.written, List.getLast?_concat]
      decide
  | heading title => exact getLast?_literal .bracket title.chars
  | item left right =>
    cases right with
    | none => exact left.getLast?_ne
    | some right =>
      obtain ⟨c, rest, front, -⟩ := right.exists_cons
      have last := right.getLast?_ne
      rw [Line.written, front, List.getLast?_append_of_ne_nil _ (by simp), ← front]
      exact last

/-- How a line begins, and that it reads as it was meant. -/
theorem Line.exists_cons (l : Line) : ∃ c rest, l.written = c :: rest ∧
    c ∉ [' ', '\t', '(', ')', ','] ∧ l.ReadAs (LineMode.readHeader (c :: rest)) := by
  cases l with
  | tag name arguments =>
    have read := readAs_tag name arguments
    cases arguments with
    | none => exact ⟨'@', _, rfl, by decide, read⟩
    | some arguments => exact ⟨'@', _, rfl, by decide, read⟩
  | heading title => exact ⟨'[', _, rfl, by decide, readAs_heading title⟩
  | item left right =>
    obtain ⟨c, rest, front, first, noBracket⟩ := left.exists_cons
    have noBracket := noBracket rfl
    simp only [List.mem_cons, List.not_mem_nil, or_false, not_or] at first
    have ofItem (rest : List Char) : LineMode.readHeader (c :: rest) = Item.read (c :: rest) := by
      simp [LineMode.readHeader, LineMode.punctuation?, first, noBracket]
    cases right with
    | none =>
      have read := readAs_item_left left
      rw [Line.written, front] at read
      exact ⟨c, rest, front, by simp [first], ofItem rest ▸ read⟩
    | some right =>
      have read := readAs_item_right left right
      rw [Line.written, front] at read
      exact ⟨c, _, by rw [Line.written, front]; rfl, by simp [first], ofItem _ ▸ read⟩

end RuleFile

end RuleLexer
