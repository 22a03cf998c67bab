import RuleLexer.Character
import RuleLexer.Literal
import RuleLexer.Piece

/-!
# Argument lists

The arguments of an annotation stand in parentheses, separated by commas. An
argument is a bracketed section name or a quoted string. The list is cut into
lexemes first; whether each of them may stand where it does is judged after.

* `lexemes`: the lexemes up to the closing parenthesis or the end of the line;
* `judge`: a lexeme out of place is an error, and judging goes on behind it;
* `source_lexemes`: the lexemes, and what follows them, make up the line;
* `source_read`: so the pieces of a list are a first part of the line.
-/

namespace RuleLexer.ArgumentList

inductive Lexeme where
  | blank (c : Char)
  | comma
  /-- An opening parenthesis or a closing bracket, which has no place in a list. -/
  | bracket (c : Char)
  | literal (l : Literal)
  /-- A run of other characters. -/
  | stray (chars : List Char)
  deriving DecidableEq

/-- How a list ends. -/
inductive Ending where
  /-- By a closing parenthesis, with the rest of the line. -/
  | closed (rest : List Char)
  /-- At the end of the line. -/
  | lineEnd
  /-- In a literal that the end of the line leaves open. -/
  | openLiteral (chars : List Char)
  deriving DecidableEq

/-- The literals that are arguments. -/
def argumentDelimiter? (c : Char) : Option Delimiter :=
  if c = '[' then some .bracket else if c = '"' then some .quote else none

/-- Whether a run of stray characters goes on. -/
def isStray (c : Char) : Bool :=
  !isBlank c && c ≠ '(' && c ≠ ')' && c ≠ ',' && c ≠ '[' && c ≠ ']' && c ≠ '"'

/-- The lexemes of a list, from behind its opening parenthesis. -/
def lexemes : List Char → List Lexeme × Ending
  | [] => ([], .lineEnd)
  | c :: rest =>
    if c = ')' then ([], .closed rest)
    else if isBlank c then
      let (more, ending) := lexemes rest
      (.blank c :: more, ending)
    else if c = ',' then
      let (more, ending) := lexemes rest
      (.comma :: more, ending)
    else if c = '(' || c = ']' then
      let (more, ending) := lexemes rest
      (.bracket c :: more, ending)
    else
      match argumentDelimiter? c with
      | some d =>
        match _ : Literal.read d rest with
        | .closed l behind =>
          let (more, ending) := lexemes behind
          (.literal l :: more, ending)
        | .unclosed chars => ([], .openLiteral chars)
      | none =>
        let (more, ending) := lexemes (rest.dropWhile isStray)
        (.stray (c :: rest.takeWhile isStray) :: more, ending)
termination_by line => line.length
decreasing_by
  all_goals simp only [List.length_cons]
  · omega
  · omega
  · omega
  · have := Literal.length_of_read (by assumption); omega
  · have := (List.dropWhile_sublist isStray (l := rest)).length_le; omega

/-- The text of a lexeme. -/
def Lexeme.chars : Lexeme → List Char
  | .blank c => [c]
  | .comma => [',']
  | .bracket c => [c]
  | .literal l => l.chars
  | .stray chars => chars

/-- The text from the end of the list on. -/
def Ending.chars : Ending → List Char
  | .closed rest => ')' :: rest
  | .lineEnd => []
  | .openLiteral chars => chars

/-- What a literal argument is. -/
def argumentContext : Delimiter → TokenKind
  | .bracket => .sectionName
  | .quote | .slash => .string

/-- A lexeme that is out of place. -/
def misplaced (chars : List Char) : Piece := .raw .error .annotationArgument chars

/-- Judges the lexemes in order. An argument is wanted at the start and behind
a comma, and not behind an argument or stray characters. -/
def judge (wanted : Bool) : List Lexeme → List Piece
  | [] => []
  | .blank c :: more => .silent [c] :: judge wanted more
  | .comma :: more => (if wanted then misplaced [','] else .silent [',']) :: judge true more
  | .bracket c :: more => misplaced [c] :: judge wanted more
  | .literal l :: more =>
    (if wanted then l.piece .annotationArgument (argumentContext l.delimiter)
     else misplaced l.chars) :: judge false more
  | .stray chars :: more => misplaced chars :: judge false more

/-- Reads a list from its opening parenthesis on. If the list is not closed,
its opening parenthesis is an error too. -/
def read (behind : List Char) : LinePart :=
  let (list, ending) := lexemes behind
  let arguments := judge true list
  match ending with
  | .closed _ => { pieces := .silent ['('] :: arguments ++ [.silent [')']] }
  | .lineEnd => { pieces := misplaced ['('] :: arguments }
  | .openLiteral chars =>
    { pieces := misplaced ['('] :: arguments, openLiteral := some (.annotationArgument, chars) }

/-! ## Nothing is lost -/

theorem opener_of_argumentDelimiter? {c : Char} {d : Delimiter}
    (h : argumentDelimiter? c = some d) : d.opener = c := by
  unfold argumentDelimiter? at h
  split at h
  · cases h; simp_all [Delimiter.opener]
  · split at h
    · cases h; simp_all [Delimiter.opener]
    · cases h

theorem argumentDelimiter?_of_blank {c : Char} (blank : isBlank c = true) :
    argumentDelimiter? c = none := by
  have cases : c = ' ' ∨ c = '\t' := by simpa [isBlank] using blank
  rcases cases with rfl | rfl <;> rfl

theorem argumentDelimiter?_of_bracket {c : Char} (bracket : (c = '(' || c = ']') = true) :
    argumentDelimiter? c = none := by
  have cases : c = '(' ∨ c = ']' := by simpa using bracket
  rcases cases with rfl | rfl <;> rfl

theorem argumentDelimiter?_of_stray {c : Char} (stray : isStray c = true) :
    c ≠ ')' ∧ argumentDelimiter? c = none := by
  simp only [isStray, Bool.and_eq_true, decide_eq_true_eq] at stray
  simp [argumentDelimiter?, stray]

theorem source_lexemes (line : List Char) :
    (lexemes line).1.flatMap Lexeme.chars ++ (lexemes line).2.chars = line := by
  fun_induction lexemes line with
  | case1 => rfl
  | case2 => rfl
  | case3 => simp_all [Lexeme.chars]
  | case4 => simp_all [Lexeme.chars]
  | case5 => simp_all [Lexeme.chars]
  | case6 c rest hclose hblank hcomma hbracket d hd l behind found more ending heq ih =>
    rw [heq] at ih
    simp only [List.flatMap_cons, Lexeme.chars, List.append_assoc, ih]
    rw [Literal.chars_append_of_read found, opener_of_argumentDelimiter? hd]
  | case7 c rest hclose hblank hcomma hbracket d hd chars unclosed =>
    obtain ⟨-, rfl⟩ := Literal.read_eq_unclosed_iff.mp unclosed
    rw [opener_of_argumentDelimiter? hd]
    rfl
  | case8 c rest hclose hblank hcomma hbracket hd more ending heq ih =>
    rw [heq] at ih
    simp [Lexeme.chars, ih]

theorem source_judge (wanted : Bool) (list : List Lexeme) :
    Piece.source (judge wanted list) = list.flatMap Lexeme.chars := by
  fun_induction judge wanted list with
  | case1 => rfl
  | case2 wanted c more ih => simp [ih, Lexeme.chars]
  | case3 wanted more ih => cases wanted <;> simp_all [Lexeme.chars, misplaced]
  | case4 wanted c more ih => simp [ih, Lexeme.chars, misplaced]
  | case5 wanted l more ih => cases wanted <;> simp [ih, Lexeme.chars, misplaced]
  | case6 wanted chars more ih => simp [ih, Lexeme.chars, misplaced]

theorem source_read (behind : List Char) : (read behind).source <+: '(' :: behind := by
  have whole := source_lexemes behind
  unfold read
  cases hlist : lexemes behind with
  | mk list ending =>
    rw [hlist] at whole
    cases ending with
    | closed rest =>
      refine ⟨rest, ?_⟩
      simp [LinePart.source, source_judge, ← whole, Ending.chars]
    | lineEnd =>
      refine ⟨[], ?_⟩
      simp [LinePart.source, source_judge, misplaced, ← whole, Ending.chars]
    | openLiteral chars =>
      refine ⟨[], ?_⟩
      simp [LinePart.source, source_judge, misplaced, ← whole, Ending.chars]

end RuleLexer.ArgumentList
