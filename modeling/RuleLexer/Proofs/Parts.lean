import RuleLexer.LineMode
import RuleLexer.Proofs.Lines

/-!
# Parts of a line

What reading a part of a line can yield, whatever the line holds.

* `Piece.Form`: the forms of pieces, and `forms_read`: there are no others;
* `read_cases`: punctuation is silent in the argument list of an annotation only;
* `Literal.IsOpen`: literals that are not closed, and `open_read`: what a part
  leaves open is one, and takes the rest of the line.
-/

namespace RuleLexer

/-- A literal without a closing delimiter. -/
def Literal.IsOpen (chars : List Char) : Prop :=
  ∃ (d : Delimiter) (body : List Char), chars = d.opener :: body ∧ readBody? d.closer body = none

theorem Literal.isOpen_of_read {d : Delimiter} {text chars : List Char}
    (h : read d text = .unclosed chars) : IsOpen chars := by
  obtain ⟨staysOpen, rfl⟩ := read_eq_unclosed_iff.mp h
  exact ⟨d, text, rfl, readBody?_eq_none_iff.mpr staysOpen⟩

/-- Which kind and context a closed literal may have. -/
def Delimiter.yields : Delimiter → TokenKind → TokenKind → Bool
  | bracket, .sectionName, _ | bracket, .label, _ | bracket, .annotationArgument, .sectionName
  | quote, .string, _ | quote, .annotationArgument, .string
  | slash, .regex, _ => true
  | _, _, _ => false

namespace Piece

/-- The kinds of pieces whose value is their text. -/
def isPlain : TokenKind → Bool
  | .error | .value | .operator | .atSign | .openParens | .closeParens | .comma => true
  | _ => false

/-- All forms of pieces that lexing cuts a text into, in argument lists and
outside of them. -/
inductive Form (inList : Bool) : Piece → Prop
  | blanks {chars : List Char} (blank : ∀ c ∈ chars, isBlank c = true) : Form inList (.silent chars)
  /-- A parenthesis or a comma of an argument list. -/
  | listMark {c : Char} (isList : inList = true) (mark : c = '(' ∨ c = ',' ∨ c = ')') :
      Form inList (.silent [c])
  | indent {context : TokenKind} {chars : List Char} (context_ne : context ≠ .annotationName)
      (blank : ∀ c ∈ chars, isBlank c = true) : Form inList (.raw .indent context chars)
  | plain {kind context : TokenKind} {chars : List Char} (plain : isPlain kind = true)
      (context_ne : context ≠ .annotationName) : Form inList (.raw kind context chars)
  | annotationHead {name : List Char} :
      Form inList (.valued .annotationName .none name ('@' :: name))
  | badHead {chars : List Char} :
      Form inList (.valued .error .annotationName chars ('@' :: chars))
  | literal {d : Delimiter} {kind context : TokenKind} {body : List Char}
      (yields : d.yields kind context = true) :
      Form inList (.valued kind context body (Literal.written d body))
  | newLine {lineBreak : List Char} (isBreak : lineBreak = ['\n'] ∨ lineBreak = ['\r', '\n']) :
      Form inList (.valued .newLine .none ['\n'] lineBreak)
  /-- An open literal with the line break that it takes. -/
  | openLiteral {context : TokenKind} {chars lineBreak : List Char} (isOpen : Literal.IsOpen chars)
      (context_ne : context ≠ .annotationName)
      (isBreak : lineBreak = ['\n'] ∨ lineBreak = ['\r', '\n']) :
      Form inList (.valued .error context (chars ++ ['\n']) (chars ++ lineBreak))

theorem Form.inAnyList {inList : Bool} {p : Piece} (h : p.Form false) : p.Form inList := by
  cases h with
  | blanks blank => exact .blanks blank
  | listMark isList => cases isList
  | indent context_ne blank => exact .indent context_ne blank
  | plain plain context_ne => exact .plain plain context_ne
  | annotationHead => exact .annotationHead
  | badHead => exact .badHead
  | literal yields => exact .literal yields
  | newLine isBreak => exact .newLine isBreak
  | openLiteral isOpen context_ne isBreak => exact .openLiteral isOpen context_ne isBreak

theorem Form.kind_ne_endOfFile {inList : Bool} {p : Piece} (h : p.Form inList) {mark : Mark}
    (marked : p.mark = some mark) : mark.kind ≠ .endOfFile := by
  cases h with
  | blanks | listMark => cases marked
  | @plain kind _ _ plain =>
    cases marked
    rintro rfl
    cases plain
  | indent | annotationHead | badHead | newLine | openLiteral => cases marked; simp
  | @literal d kind context _ yields =>
    cases marked
    rintro rfl
    cases d <;> cases yields

theorem Form.trailing (inList : Bool) (text : List Char) :
    Form inList (.silent (Item.trailing text)) := by
  apply Form.blanks
  intro c hc
  exact Text.isBlank_of_mem_takeWhile (List.mem_reverse.mp hc)

theorem Form.takeWhile_blank (inList : Bool) (text : List Char) :
    Form inList (.silent (text.takeWhile isBlank)) := by
  apply Form.blanks
  intro c hc
  exact Text.isBlank_of_mem_takeWhile hc

end Piece

open Piece (Form)

/-! ## Argument lists -/

namespace ArgumentList

theorem isOpen_lexemes {line chars : List Char} (h : (lexemes line).2 = .openLiteral chars) :
    Literal.IsOpen chars := by
  fun_induction lexemes line with
  | case1 => cases h
  | case2 => cases h
  | case3 c rest _ _ more ending heq ih => rw [heq] at ih; exact ih h
  | case4 rest more ending heq _ _ ih => rw [heq] at ih; exact ih h
  | case5 c rest _ _ _ _ more ending heq ih => rw [heq] at ih; exact ih h
  | case6 c rest _ _ _ _ d _ l behind _ more ending heq ih => rw [heq] at ih; exact ih h
  | case7 c rest _ _ _ _ d _ chars unclosed =>
    cases h
    exact Literal.isOpen_of_read unclosed
  | case8 c rest _ _ _ _ _ more ending heq ih => rw [heq] at ih; exact ih h

/-- The blanks and the literals of a list are what their names say. -/
def Lexeme.Proper : Lexeme → Prop
  | .blank c => isBlank c = true
  | .literal l => l.delimiter ≠ .slash
  | _ => True

theorem proper_lexemes (line : List Char) : ∀ x ∈ (lexemes line).1, x.Proper := by
  fun_induction lexemes line with
  | case1 => simp
  | case2 => simp
  | case3 c rest _ blank more ending heq ih =>
    rw [heq] at ih
    exact List.forall_mem_cons.mpr ⟨blank, ih⟩
  | case4 rest more ending heq _ _ ih =>
    rw [heq] at ih
    exact List.forall_mem_cons.mpr ⟨trivial, ih⟩
  | case5 c rest _ _ _ _ more ending heq ih =>
    rw [heq] at ih
    exact List.forall_mem_cons.mpr ⟨trivial, ih⟩
  | case6 c rest _ _ _ _ d hd l behind found more ending heq ih =>
    rw [heq] at ih
    refine List.forall_mem_cons.mpr ⟨?_, ih⟩
    obtain ⟨rfl, -⟩ := Literal.read_eq_closed_iff.mp found
    intro isSlash
    rw [isSlash] at hd
    unfold argumentDelimiter? at hd
    split at hd
    · cases hd
    · split at hd <;> cases hd
  | case7 => simp
  | case8 c rest _ _ _ _ _ more ending heq ih =>
    rw [heq] at ih
    exact List.forall_mem_cons.mpr ⟨trivial, ih⟩

theorem form_misplaced (chars : List Char) : (misplaced chars).Form true :=
  .plain rfl (by simp)

theorem forms_judge (wanted : Bool) {list : List Lexeme} (proper : ∀ x ∈ list, x.Proper) :
    ∀ p ∈ judge wanted list, p.Form true := by
  fun_induction judge wanted list with
  | case1 => simp
  | case2 wanted c more ih =>
    have proper := List.forall_mem_cons.mp proper
    exact List.forall_mem_cons.mpr
      ⟨.blanks (List.forall_mem_cons.mpr ⟨proper.1, by simp⟩), ih proper.2⟩
  | case3 wanted more ih =>
    refine List.forall_mem_cons.mpr ⟨?_, ih (List.forall_mem_cons.mp proper).2⟩
    split
    · exact form_misplaced _
    · exact .listMark rfl (.inr (.inl rfl))
  | case4 wanted c more ih =>
    exact List.forall_mem_cons.mpr ⟨form_misplaced _, ih (List.forall_mem_cons.mp proper).2⟩
  | case5 wanted l more ih =>
    have proper := List.forall_mem_cons.mp proper
    refine List.forall_mem_cons.mpr ⟨?_, ih proper.2⟩
    split
    · have notSlash : l.delimiter ≠ .slash := proper.1
      refine .literal ?_
      cases hd : l.delimiter <;> simp_all [Delimiter.yields, argumentContext]
    · exact form_misplaced _
  | case6 wanted chars more ih =>
    exact List.forall_mem_cons.mpr ⟨form_misplaced _, ih (List.forall_mem_cons.mp proper).2⟩

theorem forms_read (behind : List Char) : ∀ p ∈ (read behind).pieces, p.Form true := by
  have arguments := forms_judge true (proper_lexemes behind)
  unfold read
  cases h : lexemes behind with
  | mk list ending =>
    rw [h] at arguments
    cases ending with
    | closed rest =>
      simp only [List.forall_mem_append, List.forall_mem_cons, List.cons_append]
      exact ⟨.listMark rfl (.inl rfl), arguments, .listMark rfl (.inr (.inr rfl)), by simp⟩
    | lineEnd => exact List.forall_mem_cons.mpr ⟨form_misplaced _, arguments⟩
    | openLiteral chars => exact List.forall_mem_cons.mpr ⟨form_misplaced _, arguments⟩

/-- What a list leaves open. -/
theorem open_read {behind : List Char} {context : TokenKind} {chars : List Char}
    (h : (read behind).openLiteral = some (context, chars)) :
    context = .annotationArgument ∧ Literal.IsOpen chars ∧
      (read behind).source = '(' :: behind := by
  have whole := source_lexemes behind
  unfold read at h ⊢
  cases hlist : lexemes behind with
  | mk list ending =>
    have isOpen := @isOpen_lexemes behind
    rw [hlist] at h whole isOpen
    cases ending with
    | closed rest => cases h
    | lineEnd => cases h
    | openLiteral rest =>
      cases h
      refine ⟨rfl, isOpen rfl, ?_⟩
      simp [LinePart.source, source_judge, misplaced, ← whole, Ending.chars]

end ArgumentList

/-! ## Annotations, headings and items -/

namespace Annotation

theorem form_head (inList : Bool) (name : List Char) : (head name).Form inList := by
  unfold head
  split
  · exact .plain rfl (by simp)
  · exact .annotationHead

/-- An annotation has an argument list, or nothing that could stand in one. -/
theorem read_cases (behind : List Char) :
    (∀ p ∈ (read behind).pieces, p.Form false) ∨
      ∃ name rest, behind = name ++ '(' :: rest ∧
        (read behind).pieces = .valued .annotationName .none name ('@' :: name) ::
          (ArgumentList.read rest).pieces := by
  have whole : behind.takeWhile isAlphabetic ++ behind.dropWhile isAlphabetic = behind :=
    List.takeWhile_append_dropWhile
  unfold read
  dsimp only
  split
  · exact .inl (by simpa using form_head false _)
  · rename_i c rest hc
    rw [hc] at whole
    split
    · rename_i list
      simp only [Bool.and_eq_true, decide_eq_true_eq] at list
      obtain ⟨rfl, named⟩ := list
      exact .inr ⟨_, rest, whole.symm, by simp [head, named]⟩
    · split
      · exact .inl (by simpa using form_head false _)
      · exact .inl (by simpa using Form.badHead)

theorem open_read {behind : List Char} {context : TokenKind} {chars : List Char}
    (h : (read behind).openLiteral = some (context, chars)) :
    context ≠ .annotationName ∧ Literal.IsOpen chars ∧ (read behind).source = '@' :: behind := by
  have whole : behind.takeWhile isAlphabetic ++ behind.dropWhile isAlphabetic = behind :=
    List.takeWhile_append_dropWhile
  unfold read at h ⊢
  dsimp only at h ⊢
  split at h
  · cases h
  · rename_i c rest hc
    rw [hc] at whole
    split at h
    · rename_i list
      obtain ⟨rfl, isOpen, source⟩ := ArgumentList.open_read h
      simp only [Bool.and_eq_true, decide_eq_true_eq] at list
      refine ⟨by simp, isOpen, ?_⟩
      rw [list.1] at whole
      simp only [LinePart.source] at source ⊢
      simp [source, list.1, list.2, whole]
    · split at h <;> cases h

end Annotation

namespace Heading

theorem form_piece {l : Literal} (isBracket : l.delimiter = .bracket) :
    (piece l).Form false := by
  unfold piece
  split
  · exact .literal (by rw [isBracket]; rfl)
  · split
    · exact .literal (by rw [isBracket]; rfl)
    · exact .plain rfl (by simp)

theorem forms_read (behind : List Char) : ∀ p ∈ (read behind).pieces, p.Form false := by
  unfold read
  split
  · rename_i l rest found
    simpa using form_piece (Literal.read_eq_closed_iff.mp found).1
  · simp

theorem open_read {behind : List Char} {context : TokenKind} {chars : List Char}
    (h : (read behind).openLiteral = some (context, chars)) :
    context ≠ .annotationName ∧ Literal.IsOpen chars ∧ (read behind).source = '[' :: behind := by
  unfold read at h ⊢
  split at h
  · cases h
  · rename_i unclosed
    cases h
    obtain ⟨-, rfl⟩ := Literal.read_eq_unclosed_iff.mp unclosed
    exact ⟨by simp, Literal.isOpen_of_read unclosed, by simp [LinePart.source, Delimiter.opener]⟩

end Heading

namespace Item

theorem form_literalPiece (side : Side) (l : Literal) : (literalPiece side l).Form false := by
  unfold literalPiece
  split
  · exact .plain rfl (by simp)
  · exact .literal (by cases l.delimiter <;> rfl)

theorem context_ne (side : Side) : side.context ≠ .annotationName := by
  cases side <;> simp [Side.context]

theorem forms_junkPieces (side : Side) (text : List Char) :
    ∀ p ∈ junkPieces side text, p.Form false := by
  unfold junkPieces
  split
  · rename_i empty
    have blank : trailing text = text := by
      simpa [empty] using trimmed_append_trailing text
    simpa [blank] using Form.trailing false text
  · simp only [List.forall_mem_cons]
    exact ⟨.plain rfl (context_ne side), .trailing false text, by simp⟩

theorem forms_readSide (side : Side) (line : List Char) :
    ∀ p ∈ (readSide side line).1.pieces, p.Form false := by
  unfold readSide
  split
  · simp only [List.forall_mem_cons]
    exact ⟨.plain rfl (context_ne side), .trailing false _, by simp⟩
  · split
    · simp
    · simp only [List.forall_mem_cons]
      exact ⟨form_literalPiece .., .takeWhile_blank false _, forms_junkPieces side _⟩

theorem forms_read (line : List Char) : ∀ p ∈ (read line).pieces, p.Form false := by
  have left := forms_readSide .left line
  unfold read
  dsimp only
  split
  · simp only [List.forall_mem_append, List.forall_mem_cons]
    exact ⟨left, .plain rfl (by simp), .takeWhile_blank false _, forms_readSide .right _⟩
  · exact left

theorem open_readSide {side : Side} {line : List Char} {context : TokenKind} {chars : List Char}
    (h : (readSide side line).1.openLiteral = some (context, chars)) :
    context ≠ .annotationName ∧ Literal.IsOpen chars := by
  unfold readSide at h
  split at h
  · cases h
  · rename_i d hd
    split at h
    · rename_i unclosed
      cases h
      exact ⟨by cases d <;> simp [Delimiter.kind], Literal.isOpen_of_read unclosed⟩
    · cases h

theorem open_read {line : List Char} {context : TokenKind} {chars : List Char}
    (h : (read line).openLiteral = some (context, chars)) :
    context ≠ .annotationName ∧ Literal.IsOpen chars := by
  unfold read at h
  dsimp only at h
  split at h
  · exact open_readSide h
  · exact open_readSide h

end Item

namespace LineMode

/-- A part of the line begins with an annotation and its argument list, or it
has nothing that could stand in one. -/
theorem read_cases (mode : LineMode) (line : List Char) :
    (∀ p ∈ (mode.read line).pieces, p.Form false) ∨
      ∃ name rest, line = '@' :: name ++ '(' :: rest ∧
        (mode.read line).pieces = .valued .annotationName .none name ('@' :: name) ::
          (ArgumentList.read rest).pieces := by
  cases mode with
  | header =>
    cases line with
    | nil => exact .inl (by simp [read, readHeader])
    | cons c rest =>
      simp only [read, readHeader]
      split
      · rename_i at_
        subst at_
        rcases Annotation.read_cases rest with forms | ⟨name, arguments, rfl, pieces⟩
        · exact .inl forms
        · exact .inr ⟨name, arguments, rfl, pieces⟩
      · split
        · exact .inl (Heading.forms_read rest)
        · split
          · rename_i kind hkind
            have plain : Piece.isPlain kind = true := by
              unfold punctuation? at hkind
              grind [Piece.isPlain]
            exact .inl (by simpa using Form.plain plain (by simp))
          · exact .inl (Item.forms_read _)
  | subsection | item | blank => exact .inl (Item.forms_read line)

theorem forms_read (mode : LineMode) (line : List Char) :
    ∀ p ∈ (mode.read line).pieces, p.Form true := by
  rcases read_cases mode line with forms | ⟨name, rest, -, pieces⟩
  · intro p hp
    exact (forms p hp).inAnyList
  · rw [pieces]
    exact List.forall_mem_cons.mpr ⟨.annotationHead, ArgumentList.forms_read rest⟩

/-- What a part leaves open is an open literal, and takes the rest of the line. -/
theorem open_read {mode : LineMode} {line : List Char} {context : TokenKind} {chars : List Char}
    (h : (mode.read line).openLiteral = some (context, chars)) :
    context ≠ .annotationName ∧ Literal.IsOpen chars ∧ (mode.read line).source = line := by
  have ofItem (h : (Item.read line).openLiteral = some (context, chars)) :
      context ≠ .annotationName ∧ Literal.IsOpen chars ∧ (Item.read line).source = line :=
    ⟨(Item.open_read h).1, (Item.open_read h).2, Item.source_read line⟩
  cases mode with
  | header =>
    cases line with
    | nil => cases h
    | cons c rest =>
      simp only [read, readHeader] at h ⊢
      split at h
      · rename_i at_; subst at_; exact Annotation.open_read h
      · split at h
        · rename_i bracket; subst bracket; exact Heading.open_read h
        · split at h
          · cases h
          · simp_all
  | subsection | item | blank => exact ofItem h

end LineMode

end RuleLexer
