import Mathlib.Data.List.Induction
import RuleLexer.Proofs.LineByLine

/-!
# Indentation

Indentation is rejected exactly where it is inconsistent: where it mixes spaces
and tabs, or where it is made of another blank than the lines before. The first
indented line that does not mix decides which blank is in use, until a line
without indentation gives it up. Neither a blank line nor a rejected one has a
say in that.

* `Text.blankInUse`: the blank that some lines leave in use;
* `Text.Inconsistent`: indentation that does not agree with the lines before;
* `Nesting.blank_foldl_next`: nesting remembers the blank in use;
* `Text.tokensOn_indented`: what is said on an indented line;
* `Text.exists_line_of_isIndentation`: nothing is said anywhere else;
* `tokens_indentation`: so what tokens say about indentation is all of this.
-/

namespace RuleLexer

namespace Text

/-- The line is not indented, and not blank either. -/
def atMargin (line : List Char) : Bool := line.head?.any (!isBlank ·)

/-- The lines behind the latest one at the margin, or all of them if there is none. -/
def sinceMargin (lines : List (List Char)) : List (List Char) :=
  (lines.reverse.takeWhile (!atMargin ·)).reverse

/-- The blank that a line is indented with, unless it mixes them. -/
def blankOf? (line : List Char) : Option Char :=
  if isMixed (indentOf line) then none else (indentOf line).head?

/-- The blank in use behind some lines: that of the earliest line since the
latest one at the margin that is indented and does not mix. -/
def blankInUse (lines : List (List Char)) : Option Char := (sinceMargin lines).findSome? blankOf?

/-- Indentation that mixes blanks, or is made of another blank than the one in use. -/
def Inconsistent (earlier : List (List Char)) (indent : List Char) : Prop :=
  isMixed indent ∨ ∃ c ∈ blankInUse earlier, indent.head? ≠ some c

instance (earlier : List (List Char)) (indent : List Char) :
    Decidable (Inconsistent earlier indent) :=
  inferInstanceAs (Decidable (_ ∨ _))

theorem blankInUse_append (lines : List (List Char)) (line : List Char) :
    blankInUse (lines ++ [line]) =
      if atMargin line then none else (blankInUse lines).or (blankOf? line) := by
  unfold blankInUse sinceMargin
  rw [List.reverse_append, List.reverse_singleton, List.singleton_append, List.takeWhile_cons]
  cases atMargin line with
  | true => rfl
  | false => simp [List.findSome?_append]

theorem isBlank_of_mem_indentOf {line : List Char} {c : Char} (h : c ∈ indentOf line) :
    isBlank c = true := by
  unfold indentOf at h
  split at h
  · cases h
  · exact isBlank_of_mem_takeWhile h

theorem atMargin_iff (line : List Char) :
    atMargin line = true ↔ line.all isBlank = false ∧ indentOf line = [] := by
  unfold atMargin indentOf
  cases line with
  | nil => simp
  | cons c rest => cases isIndented : isBlank c <;> simp [isIndented]

/-- A rejected line does not change the blank in use. -/
theorem blankInUse_rejected {lines : List (List Char)} {line : List Char}
    (indented : indentOf line ≠ []) (rejected : Inconsistent lines (indentOf line)) :
    blankInUse (lines ++ [line]) = blankInUse lines := by
  have noMargin : atMargin line ≠ true := fun margin => indented ((atMargin_iff line).mp margin).2
  rw [blankInUse_append, if_neg noMargin]
  rcases rejected with isMixed | ⟨c, inUse, -⟩
  · rw [blankOf?, if_pos isMixed, Option.or_none]
  · rw [Option.mem_def.mp inUse, Option.some_or]

end Text

/-! ## The blank that nesting remembers -/

namespace Nesting

theorem blank_next (n : Nesting) (line : List Char) :
    (n.next line).blank =
      if Text.atMargin line then none else n.blank.or (Text.blankOf? line) := by
  have margin := Text.atMargin_iff line
  unfold next
  cases isBlankLine : line.all isBlank with
  | true => simp [margin, isBlankLine, Text.blankOf?, Text.indentOf]
  | false =>
    by_cases unindented : Text.indentOf line = []
    · simp [margin, isBlankLine, unindented]
    · have own := uniform?_eq fun c (hc : c ∈ Text.indentOf line) =>
        Text.isBlank_of_mem_indentOf hc
      simp [margin, isBlankLine, unindented, enter, own, Text.blankOf?]

theorem blank_foldl_next (lines : List (List Char)) :
    (lines.foldl next {}).blank = Text.blankInUse lines := by
  induction lines using List.reverseRecOn with
  | nil => rfl
  | append_singleton lines line ih =>
    rw [List.foldl_append, List.foldl_cons, List.foldl_nil, blank_next, ih, Text.blankInUse_append]

theorem level_foldl_next (n : Nesting) (lines : List (List Char)) :
    (lines.foldl next n).level = lines.foldl Level.next n.level := by
  induction lines generalizing n with
  | nil => rfl
  | cons line lines ih => rw [List.foldl_cons, List.foldl_cons, ih, level_next]

/-- The depth of a later line, as nesting has it. -/
theorem depth_next {text line : List Char} {number : Nat}
    (found : (Text.laterLines text)[number]? = some line) :
    ((((Text.laterLines text).take number).foldl next {}).next line).depth =
      Text.depthOfLine text (number + 1) := by
  have upTo : (Text.laterLines text).take (number + 1) =
      (Text.laterLines text).take number ++ [line] := by
    rw [List.take_add_one, found, Option.toList_some]
  have level := level_foldl_next {} ((Text.laterLines text).take (number + 1))
  rw [upTo, List.foldl_append, ← upTo] at level
  exact congrArg Level.depth level

end Nesting

/-! ## What tokens say about indentation -/

/-- Where a line starts, its indentation becomes a token, or none if it is
accepted and no trivia are wanted. -/
theorem Stretch.tokens_lineStart (options : LexerOptions) (index : Nat) (earlier : List (List Char))
    (text : List Char) :
    let indent := Text.indentOf (Text.line text)
    let nesting := earlier.foldl Nesting.next {}
    let token (kind context : TokenKind) : Token :=
      { span := ⟨index, index + Text.width indent⟩, depth := (nesting.next (Text.line text)).depth
        kind, context, value := String.ofList indent }
    Cell.tokens options index (lineStart nesting text).cells =
      if indent = [] then []
      else if Text.Inconsistent earlier indent then [token .error .indent]
      else if options.emitTrivia then
        [token .indent (if indent.head? = some '\t' then .tab else .space)]
      else [] := by
  intro indent nesting token
  rw [tokens_cells_lineStart]
  split
  · rfl
  · rename_i indented
    have accepts := Nesting.accepts_iff (n := nesting) indented
      fun c hc => Text.isBlank_of_mem_indentOf hc
    rw [Nesting.blank_foldl_next] at accepts
    by_cases inconsistent : Text.Inconsistent earlier indent
    · have rejected : nesting.accepts indent ≠ true := fun h => accepts.mp h inconsistent
      rw [Nesting.indentPiece, if_neg rejected, if_pos inconsistent]
      simp [Cell.tokens, Cell.token?, Piece.raw, Piece.valued, TokenKind.isTrivia, token, indent]
    · rw [Nesting.indentPiece, if_pos (accepts.mpr inconsistent), if_neg inconsistent]
      cases wanted : options.emitTrivia <;>
        simp [Cell.tokens, Cell.token?, Piece.raw, Piece.valued, TokenKind.isTrivia, token, indent,
          wanted]

namespace Text

variable {text line : List Char} {options : LexerOptions} {number : Nat}

theorem tokensOn_eq_layout (text : List Char) (options : LexerOptions) (number : Nat) :
    tokensOn text options number = (Place.layout { rest := text }).tokensOn options [] number := by
  unfold tokensOn Stretch.tokensOn
  rw [Lexer.tokens_ofText, Place.source_layout]
  rfl

/-- The tokens on a later line, with the lines before it as all that its start depends on. -/
theorem tokensOn_laterLine (text : List Char) (options : LexerOptions) (number : Nat) :
    match (laterLines text)[number]? with
    | none => tokensOn text options (number + 1) = []
    | some line => ∃ front behind others, LineAt text (number + 1) line front behind ∧
        (∀ t ∈ others, ¬ t.mark.IsIndentation) ∧
        tokensOn text options (number + 1) =
          Cell.tokens options (width front) (Stretch.lineStart
            (((laterLines text).take number).foldl Nesting.next {}) behind).cells ++ others := by
  have later := Place.tokensOn_laterLine { rest := text } options [] number
  simp only [List.count_nil, Nat.zero_add, width_nil, ← tokensOn_eq_layout, Place.nestingOf]
    at later
  exact later

/-- An indented line begins with what is said about its indentation. -/
theorem tokensOn_indented (options : LexerOptions) (found : (laterLines text)[number]? = some line)
    (indented : indentOf line ≠ []) :
    ∃ front behind others, LineAt text (number + 1) line front behind ∧
      (∀ t ∈ others, ¬ t.mark.IsIndentation) ∧
      let earlier := (laterLines text).take number
      let indent := indentOf line
      let token (kind context : TokenKind) : Token :=
        { span := ⟨width front, width front + width indent⟩
          depth := depthOfLine text (number + 1)
          kind, context, value := String.ofList indent }
      (Inconsistent earlier indent →
        tokensOn text options (number + 1) = token .error .indent :: others ∧
          blankInUse (earlier ++ [line]) = blankInUse earlier) ∧
      (¬ Inconsistent earlier indent →
        tokensOn text options (number + 1) =
          if options.emitTrivia then
            token .indent (if indent.head? = some '\t' then .tab else .space) :: others
          else others) := by
  have onLine := tokensOn_laterLine text options number
  rw [found] at onLine
  obtain ⟨front, behind, others, lineAt, plain, tokens⟩ := onLine
  rw [Stretch.tokens_lineStart, lineAt.line_eq, if_neg indented] at tokens
  have depth := Nesting.depth_next found
  refine ⟨front, behind, others, lineAt, plain, ?_, ?_⟩
  · intro inconsistent
    refine ⟨?_, blankInUse_rejected indented inconsistent⟩
    rw [tokens, if_pos inconsistent, depth]
    rfl
  · intro consistent
    rw [tokens, if_neg consistent, depth]
    split <;> rfl

/-- Nothing is said about indentation but on indented lines. -/
theorem exists_line_of_isIndentation {t : Token} (ht : t ∈ (Lexer.ofText text options).tokens)
    (said : t.mark.IsIndentation) :
    ∃ number line, (laterLines text)[number]? = some line ∧ indentOf line ≠ [] ∧
      t ∈ tokensOn text options (number + 1) := by
  have onLine : t ∈ tokensOn text options (lineNumber text t.span.start) :=
    List.mem_filter.mpr ⟨ht, decide_eq_true rfl⟩
  generalize lineNumber text t.span.start = number at onLine
  cases number with
  | zero =>
    rw [tokensOn_eq_layout] at onLine
    exact absurd said (Place.plain_tokensOn _ options [] t onLine)
  | succ number =>
    have later := tokensOn_laterLine text options number
    cases found : (laterLines text)[number]? with
    | none =>
      rw [found] at later
      rw [later] at onLine
      cases onLine
    | some line =>
      refine ⟨number, line, found, ?_, onLine⟩
      intro unindented
      rw [found] at later
      obtain ⟨front, behind, others, lineAt, plain, tokens⟩ := later
      rw [Stretch.tokens_lineStart, lineAt.line_eq, if_pos unindented, List.nil_append] at tokens
      rw [tokens] at onLine
      exact plain t onLine said

end Text

/-- Indentation is rejected exactly where it is inconsistent, with an error at
the start of the line that spans the leading blanks. A rejected line does not
change which blank is in use. Accepted indentation is told by one token, if
trivia are wanted, and nothing is said about indentation anywhere else. -/
theorem tokens_indentation (text : List Char) (options : LexerOptions) :
    (∀ number line, (Text.laterLines text)[number]? = some line → Text.indentOf line ≠ [] →
      ∃ front behind others, Text.LineAt text (number + 1) line front behind ∧
        (∀ t ∈ others, ¬ t.mark.IsIndentation) ∧
        let earlier := (Text.laterLines text).take number
        let indent := Text.indentOf line
        let token (kind context : TokenKind) : Token :=
          { span := ⟨Text.width front, Text.width front + Text.width indent⟩
            depth := Text.depthOfLine text (number + 1)
            kind, context, value := String.ofList indent }
        (Text.Inconsistent earlier indent →
          Text.tokensOn text options (number + 1) = token .error .indent :: others ∧
            Text.blankInUse (earlier ++ [line]) = Text.blankInUse earlier) ∧
        (¬ Text.Inconsistent earlier indent →
          Text.tokensOn text options (number + 1) =
            if options.emitTrivia then
              token .indent (if indent.head? = some '\t' then .tab else .space) :: others
            else others)) ∧
    ∀ t ∈ (Lexer.ofText text options).tokens, t.mark.IsIndentation →
      ∃ number line, (Text.laterLines text)[number]? = some line ∧ Text.indentOf line ≠ [] ∧
        t ∈ Text.tokensOn text options (number + 1) :=
  ⟨fun _ _ => Text.tokensOn_indented options, fun _ => Text.exists_line_of_isIndentation⟩

/-- A tab behind a line of spaces and a line that mixes both. -/
theorem tokens_indentation_tab :
    let text := ['a', '\n', ' ', 'b', '\n', '\t', ' ', 'c', '\n', '\t', 'd', '\n', ' ', 'e']
    (Text.laterLines text)[2]? = some ['\t', 'd'] ∧ Text.indentOf ['\t', 'd'] ≠ [] ∧
      ∃ front behind others, Text.LineAt text 3 ['\t', 'd'] front behind ∧
        Text.tokensOn text {} 3 =
          ⟨⟨Text.width front, Text.width front + 1⟩, 2, .error, .indent, "\t"⟩ :: others ∧
        ∀ t ∈ others, ¬ t.mark.IsIndentation := by
  intro text
  have found : (Text.laterLines text)[2]? = some ['\t', 'd'] := by decide
  have indented : Text.indentOf ['\t', 'd'] ≠ [] := by decide
  obtain ⟨front, behind, others, lineAt, plain, rejected, -⟩ :=
    (tokens_indentation text {}).1 2 ['\t', 'd'] found indented
  have inconsistent : Text.Inconsistent ((Text.laterLines text).take 2)
      (Text.indentOf ['\t', 'd']) := .inr ⟨' ', rfl, by decide⟩
  exact ⟨found, indented, front, behind, others, lineAt, (rejected inconsistent).1, plain⟩

end RuleLexer
