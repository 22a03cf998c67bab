import RuleLexer.Proofs.PartScan

/-!
# Header lines

What a scan makes of an at sign or of a bracket on a header line.

* `Annotation.sign`, `Heading.mark`: what an at sign and a heading say;
* `Lexer.scan_sign`: the sign with its name is one token, and lexing goes
  on behind it, with an argument list where one begins;
* `scan_atSign`, `scan_headingBracket`: all that can stand behind either of them;
* `scan_header`: so every construct on a header line is one token, and how lexing
  goes on behind it.
-/

namespace RuleLexer

namespace Annotation

variable {name : List Char}

/-- What may stand behind a name, as it is read. -/
def terminators : List Char := ['(', ' ', '\t', '\n', endOfText]

theorem mem_terminators_iff {c : Char} :
    c ∈ terminators ↔ c = '(' ∨ isBlank c = true ∨ c = '\n' ∨ c = endOfText := by
  simp [terminators, isBlank, or_assoc]

/-- The characters of a name do not end a line. -/
theorem line_name (alphabetic : ∀ c ∈ name, isAlphabetic c = true) (after : List Char) :
    Text.line (name ++ after) = name ++ Text.line after := by
  refine (Text.line_append_of_solid ?_ after).1
  intro c hc
  have letter := alphabetic c hc
  refine ⟨?_, ?_, ?_⟩
  all_goals
    rintro rfl
    exact absurd letter (by decide)

/-- What an at sign says, with its name. -/
def sign (name : List Char) : Mark :=
  if name = [] then ⟨.atSign, .none, ['@']⟩ else ⟨.annotationName, .none, name⟩

theorem head_eq (name : List Char) : head name = ⟨'@' :: name, some (sign name)⟩ := by
  unfold head sign
  split
  · rename_i none
    rw [none]
    rfl
  · rfl

theorem isTrivia_sign (name : List Char) : (sign name).kind.isTrivia = false := by
  unfold sign
  split <;> rfl

end Annotation

namespace Heading

/-- What a closed heading says. -/
def mark (name : List Char) : Mark :=
  if ']' ∉ name then ⟨.sectionName, .none, name⟩
  else if name.all isLabelChar then ⟨.label, .none, name⟩
  else ⟨.error, .label, Literal.written .bracket name⟩

theorem piece_eq (name : List Char) :
    piece ⟨.bracket, name⟩ = ⟨Literal.written .bracket name, some (mark name)⟩ := by
  have escaped : Literal.escaped ⟨.bracket, name⟩ = false ↔ ']' ∉ name := by
    simp [Literal.escaped, Delimiter.closer]
  unfold piece mark
  simp only [escaped]
  split
  · rfl
  · split <;> rfl

theorem isTrivia_mark (name : List Char) : (mark name).kind.isTrivia = false := by
  unfold mark
  repeat' split
  all_goals rfl

end Heading

theorem ArgumentList.itemFollows_read (behind : List Char) : (read behind).itemFollows = false := by
  unfold read
  cases lexemes behind with
  | mk list ending => cases ending <;> rfl

open Annotation (head head_eq isTrivia_sign line_name mem_terminators_iff read_cons read_name sign
  terminators)

namespace Lexer

variable {L : Lexer} {name after : List Char}

/-! ## At signs -/

/-- The first piece of a part may be taken by itself. -/
theorem takePart_cons {part : LinePart} (stays : part.itemFollows = false) (p : Piece) :
    L.takePart { part with pieces := p :: part.pieces } = (L.take p).takePart part := by
  simp [takePart, stays]

/-- An at sign and its name are taken, and lexing goes on behind them. -/
theorem scan_sign (header : L.mode = .header) (front : L.scanner.rest = '@' :: name ++ after)
    (alphabetic : ∀ c ∈ name, isAlphabetic c = true) :
    L.scan = (L.takePart <| Annotation.read (name ++ Text.line after)) := by
  rw [scan_front front rfl rfl, header, ← line_name alphabetic]
  rfl

theorem took_head (front : L.scanner.rest = '@' :: name ++ after) :
    L.Took ('@' :: name) [(sign name).token L.depth L.scanner.index ('@' :: name)]
      (L.take (head name)) := by
  rw [head_eq]
  exact took_take (isTrivia_sign name) _ _ front

/-- Directly behind a name, an argument list is taken as a part of its own. -/
theorem scan_list (header : L.mode = .header)
    (front : L.scanner.rest = '@' :: name ++ '(' :: after) (named : name ≠ [])
    (alphabetic : ∀ c ∈ name, isAlphabetic c = true) :
    L.scan = (L.take (head name)).takePart (ArgumentList.read (Text.line after)) := by
  have line : Text.line ('(' :: after) = '(' :: Text.line after := rfl
  rw [scan_sign header front alphabetic, line,
    read_cons alphabetic (by decide), if_pos ⟨rfl, named⟩]
  exact takePart_cons (ArgumentList.itemFollows_read _) _

/-- A name alone is taken by itself. -/
theorem takePart_head (L : Lexer) (name : List Char) :
    L.takePart { pieces := [head name] } = L.take (head name) := rfl

/-- In front of what may stand behind a name, only the name is taken. -/
theorem scan_name (header : L.mode = .header) (front : L.scanner.rest = '@' :: name ++ after)
    (alphabetic : ∀ c ∈ name, isAlphabetic c = true)
    (stops : Text.atLineEnd after = true ∨
      ∃ c rest, after = c :: rest ∧ isAlphabetic c = false ∧
        (c = '(' ∧ name = [] ∨ isBlank c = true)) :
    L.scan = L.take (head name) := by
  rw [scan_sign header front alphabetic, ← takePart_head]
  by_cases atEnd : Text.atLineEnd after = true
  · rw [(Text.line_eq_nil_iff after).mpr atEnd, List.append_nil, read_name alphabetic]
  · obtain ⟨c, rest, rfl, ends, cases⟩ := stops.resolve_left atEnd
    rw [Text.line, if_neg atEnd, read_cons alphabetic ends]
    rcases cases with ⟨rfl, rfl⟩ | blank
    · rfl
    · have noParens : c ≠ '(' := by
        rintro rfl
        cases blank
      simp [noParens, blank]

/-- A character that may not stand behind a name spoils it. -/
theorem scan_badName (header : L.mode = .header) {c : Char} {rest : List Char}
    (front : L.scanner.rest = '@' :: name ++ c :: rest)
    (alphabetic : ∀ c ∈ name, isAlphabetic c = true) (ends : isAlphabetic c = false)
    (inside : Text.atLineEnd (c :: rest) = false) (spoils : c ≠ '(' ∧ isBlank c = false) :
    L.scan = L.take (.valued .error .annotationName (name ++ [c]) ('@' :: name ++ [c])) := by
  have line : Text.line (c :: rest) = c :: Text.line rest := by simp [Text.line, inside]
  rw [scan_sign header front alphabetic, line, read_cons alphabetic ends,
    if_neg (by simp [spoils]), if_neg (by simp [spoils])]
  rfl

/-- In front of what may stand behind a name, the name is taken, and an argument
list goes on behind it as a part of its own. -/
theorem scan_terminated (header : L.mode = .header) (front : L.scanner.rest = '@' :: name ++ after)
    (alphabetic : ∀ c ∈ name, isAlphabetic c = true)
    (ends : ∀ c ∈ after.head?, isAlphabetic c = false)
    (stops : (Text.front after).1 ∈ terminators) :
    L.scan =
      if (Text.front after).1 = '(' ∧ name ≠ [] then
        (L.take (head name)).takePart (ArgumentList.read (Text.line after.tail))
      else L.take (head name) := by
  rcases Text.front_cases after with ⟨atEnd, t⟩ | ⟨c, rest, rfl, -, t, noFeed, noEnd⟩
  · have noParens : (Text.front after).1 ≠ '(' := by
      rcases t with t | t <;> rw [t] <;> decide
    rw [if_neg fun list => noParens list.1]
    exact scan_name header front alphabetic (.inl atEnd)
  · rw [t] at stops ⊢
    have cases : c = '(' ∨ isBlank c = true := by
      simpa [mem_terminators_iff, noFeed, noEnd] using stops
    by_cases list : c = '(' ∧ name ≠ []
    · obtain ⟨rfl, named⟩ := list
      rw [if_pos ⟨rfl, named⟩]
      exact scan_list header front named alphabetic
    · have alone : c = '(' ∧ name = [] ∨ isBlank c = true := by
        rcases cases with parens | blank
        · exact .inl ⟨parens, Decidable.not_not.mp fun named => list ⟨parens, named⟩⟩
        · exact .inr blank
      rw [if_neg list]
      exact scan_name header front alphabetic (.inr ⟨c, rest, rfl, ends c rfl, alone⟩)

/-- What may not stand behind a name is taken with it. -/
theorem took_badName (header : L.mode = .header) (front : L.scanner.rest = '@' :: name ++ after)
    (alphabetic : ∀ c ∈ name, isAlphabetic c = true)
    (ends : ∀ c ∈ after.head?, isAlphabetic c = false) {t : Char} (found : (Text.front after).1 = t)
    (spoils : t ∉ terminators) :
    L.Took ('@' :: name ++ [t]) [Mark.token ⟨.error, .annotationName, name ++ [t]⟩ L.depth
        L.scanner.index ('@' :: name ++ [t])] L.scan ∧
      L.scan.mode = .header := by
  rw [mem_terminators_iff, not_or, not_or] at spoils
  obtain ⟨noParens, noBlank, noEnd⟩ := spoils
  rcases Text.front_cases after with ⟨-, isEnd⟩ | ⟨c, rest, rfl, inside, isFront, -, -⟩
  · rw [found] at isEnd
    exact absurd isEnd noEnd
  · obtain rfl : t = c := found.symm.trans isFront
    have taken : L.scanner.rest = '@' :: name ++ [t] ++ rest := by simp [front]
    rw [scan_badName header front alphabetic (ends t rfl) inside
      ⟨noParens, by simpa using noBlank⟩]
    exact ⟨took_take rfl _ _ taken, (mode_take _ _).trans header⟩

/-- The at sign of an annotation. -/
theorem scan_atSign (header : L.mode = .header) (front : L.scanner.rest = '@' :: name ++ after)
    (alphabetic : ∀ c ∈ name, isAlphabetic c = true)
    (ends : ∀ c ∈ after.head?, isAlphabetic c = false) :
    let t := (Text.front after).1
    if t ∈ terminators then
      ∃ M, L.Took ('@' :: name)
          [(sign name).token L.depth L.scanner.index ('@' :: name)] M ∧
        M.mode = .header ∧
        L.scan = if t = '(' ∧ name ≠ [] then M.takePart (ArgumentList.read (Text.line after.tail))
          else M
    else
      L.Took ('@' :: name ++ [t]) [Mark.token ⟨.error, .annotationName, name ++ [t]⟩ L.depth
          L.scanner.index ('@' :: name ++ [t])] L.scan ∧
        L.scan.mode = .header := by
  dsimp only
  split
  · rename_i stops
    exact ⟨_, took_head front, (mode_take _ _).trans header,
      scan_terminated header front alphabetic ends stops⟩
  · rename_i spoils
    exact took_badName header front alphabetic ends rfl spoils

/-! ## Brackets -/

/-- A bracket is read as a heading. -/
theorem scan_bracket (header : L.mode = .header) {behind : List Char}
    (front : L.scanner.rest = '[' :: behind) :
    L.scan = L.takePart (Heading.read (Text.line behind)) := by
  rw [scan_front front rfl rfl, header]
  rfl

/-- Where only an item may follow, the rest of the line is read as one. -/
theorem scan_itemMode (item : L.mode = .item)
    (more : (Text.line L.scanner.rest).dropWhile isBlank ≠ []) :
    L.scan = (L.take (.silent ((Text.line L.scanner.rest).takeWhile isBlank))).takePart
      (Item.read ((Text.line L.scanner.rest).dropWhile isBlank)) := by
  rw [Text.dropWhile_line, ne_eq, Text.line_eq_nil_iff, Bool.not_eq_true] at more
  rw [Text.takeWhile_line, Text.dropWhile_line, scan_eq_takePart more, item]
  rfl

/-- A heading that the rest of the line closes. -/
theorem scan_heading (header : L.mode = .header) {behind rest : List Char}
    (front : L.scanner.rest = '[' :: behind)
    (closed : Literal.read .bracket (Text.line behind) = .closed ⟨.bracket, name⟩ rest) :
    let taken := Literal.written .bracket name
    L.Took taken [(Heading.mark name).token L.depth L.scanner.index taken] L.scan ∧
      L.scan.mode = .item ∧ Text.line L.scan.scanner.rest = rest := by
  generalize chars : Literal.written .bracket name = taken
  have read : Heading.read (Text.line behind) =
      { pieces := [⟨taken, some (Heading.mark name)⟩], itemFollows := true } := by
    rw [Heading.read, closed, ← chars, ← Heading.piece_eq]
  have line : Text.line ('[' :: behind) = taken ++ rest := by
    rw [← chars]
    exact (Literal.chars_append_of_read closed).symm
  have whole : L.scanner.rest = taken ++ (rest ++ Text.behindLine ('[' :: behind)) := by
    rw [front, ← List.append_assoc, ← line, Text.line_append_behindLine]
  have visible : ∀ m ∈ Piece.marks [⟨taken, some (Heading.mark name)⟩],
      m.kind.isTrivia = false := by
    simpa [Piece.marks] using Heading.isTrivia_mark name
  have took := took_takePart { pieces := _, itemFollows := true } visible rfl
    (by simpa [LinePart.source] using whole)
  rw [← read, ← scan_bracket header front, read] at took
  have left := took.1.rest
  rw [whole] at left
  refine ⟨by simpa [LinePart.source, Piece.tokens] using took.1, took.2, ?_⟩
  rw [← Text.line_of_split line]
  congr 1
  simpa [LinePart.source] using left.symm

/-- A heading that the rest of the line leaves open. -/
theorem scan_openHeading (header : L.mode = .header) {behind : List Char}
    (front : L.scanner.rest = '[' :: behind)
    (isOpen : Literal.read .bracket (Text.line behind) = .unclosed ('[' :: Text.line behind)) :
    let lineBreak := Text.lineBreak (Text.behindLine behind)
    let taken := '[' :: Text.line behind ++ lineBreak
    ∃ M, L.Took taken
        [Mark.token ⟨.error, .sectionName, Text.foldEnd taken⟩ L.depth L.scanner.index taken] M ∧
      M.mode = .header ∧ L.scan = if lineBreak = [] then M else M.beginLine := by
  have read : Heading.read (Text.line behind) =
      { pieces := [], openLiteral := some (.sectionName, '[' :: Text.line behind) } := by
    rw [Heading.read, isOpen]
  have line : Text.line ('[' :: behind) = '[' :: Text.line behind ∧
      Text.behindLine ('[' :: behind) = Text.behindLine behind :=
    Delimiter.bracket.line_opener behind
  have opened := L.took_takePart_open
    { pieces := [], openLiteral := some (.sectionName, '[' :: Text.line behind) }
    (by simp) rfl rfl (by rw [front, line.1]; rfl)
  rw [front, line.2, header] at opened
  rw [scan_bracket header front, read]
  simpa [LinePart.source, LinePart.tokens] using opened

/-- The bracket of a heading, which the rest of the line closes or leaves open. -/
theorem scan_headingBracket (header : L.mode = .header) {behind : List Char}
    (front : L.scanner.rest = '[' :: behind) :
    (∀ name rest, Text.line behind = Literal.doubled ']' name ++ ']' :: rest →
      rest.head? ≠ some ']' →
      let taken := Literal.written .bracket name
      L.Took taken [(Heading.mark name).token L.depth L.scanner.index taken] L.scan ∧
        L.scan.mode = .item ∧
        (rest.dropWhile isBlank ≠ [] →
          L.scan.scan = (L.scan.take (.silent (rest.takeWhile isBlank))).takePart
            (Item.read (rest.dropWhile isBlank)))) ∧
    (Literal.StaysOpen ']' (Text.line behind) →
      let lineBreak := Text.lineBreak (Text.behindLine behind)
      let taken := '[' :: Text.line behind ++ lineBreak
      ∃ M, L.Took taken [Mark.token ⟨.error, .sectionName, Text.foldEnd taken⟩ L.depth
          L.scanner.index taken] M ∧
        M.mode = .header ∧ L.scan = if lineBreak = [] then M else M.beginLine) := by
  constructor
  · intro name rest line apart
    have closed : Literal.read .bracket (Text.line behind) = .closed ⟨.bracket, name⟩ rest := by
      rw [line]
      exact Literal.read_of_doubled .bracket name apart
    obtain ⟨took, item, left⟩ := scan_heading header front closed
    refine ⟨took, item, ?_⟩
    rw [← left]
    exact scan_itemMode item
  · intro isOpen
    exact scan_openHeading header front (Literal.read_of_staysOpen isOpen)

end Lexer

/-- On a header line, an at sign is taken with the name behind it, which may be
empty, unless a character that may not stand there spoils it. A bracket is taken
as a heading if the rest of the line closes it, and only an item may follow;
otherwise it takes the rest of the line with its line break. Every construct is
one token, apart from an argument list directly behind a name. -/
theorem scan_header (L : Lexer) (header : L.mode = .header) :
    (∀ name after, L.scanner.rest = '@' :: name ++ after →
      (∀ c ∈ name, isAlphabetic c = true) → (∀ c ∈ after.head?, isAlphabetic c = false) →
      let t := (Text.front after).1
      if t ∈ terminators then
        ∃ M, L.Took ('@' :: name)
            [(sign name).token L.depth L.scanner.index ('@' :: name)] M ∧
          M.mode = .header ∧
          L.scan = if t = '(' ∧ name ≠ [] then M.takePart (ArgumentList.read (Text.line after.tail))
            else M
      else
        L.Took ('@' :: name ++ [t]) [Mark.token ⟨.error, .annotationName, name ++ [t]⟩ L.depth
            L.scanner.index ('@' :: name ++ [t])] L.scan ∧
          L.scan.mode = .header) ∧
    (∀ behind, L.scanner.rest = '[' :: behind →
      (∀ name rest, Text.line behind = Literal.doubled ']' name ++ ']' :: rest →
        rest.head? ≠ some ']' →
        let taken := Literal.written .bracket name
        L.Took taken [(Heading.mark name).token L.depth L.scanner.index taken] L.scan ∧
          L.scan.mode = .item ∧
          (rest.dropWhile isBlank ≠ [] →
            L.scan.scan = (L.scan.take (.silent (rest.takeWhile isBlank))).takePart
              (Item.read (rest.dropWhile isBlank)))) ∧
      (Literal.StaysOpen ']' (Text.line behind) →
        let lineBreak := Text.lineBreak (Text.behindLine behind)
        let taken := '[' :: Text.line behind ++ lineBreak
        ∃ M, L.Took taken [Mark.token ⟨.error, .sectionName, Text.foldEnd taken⟩ L.depth
            L.scanner.index taken] M ∧
          M.mode = .header ∧ L.scan = if lineBreak = [] then M else M.beginLine)) :=
  ⟨fun _ _ => Lexer.scan_atSign header, fun _ => Lexer.scan_headingBracket header⟩

/-- A heading that holds a bracket, with an item behind it, and a name that is spoiled. -/
theorem scan_header_label :
    (let L := Lexer.ofText "[a]]] x".toList {}
     L.mode = .header ∧ L.Took "[a]]]".toList [⟨⟨0, 5⟩, 1, .label, .none, "a]"⟩] L.scan ∧
      L.scan.scan = (L.scan.take (.silent [' '])).takePart (Item.read ['x'])) ∧
    (let L := Lexer.ofText "@ä-b".toList {}
     L.mode = .header ∧ L.Took "@ä-".toList [⟨⟨0, 4⟩, 1, .error, .annotationName, "ä-"⟩] L.scan ∧
      L.scan.mode = .header) := by
  constructor
  · have heading := (scan_header (.ofText "[a]]] x".toList {}) rfl).2 _ rfl
    obtain ⟨took, -, more⟩ := heading.1 ['a', ']'] [' ', 'x'] rfl (by decide)
    exact ⟨rfl, took, more (by decide)⟩
  · have letters : ∀ c ∈ ['ä'], isAlphabetic c = true := List.forall_mem_singleton.mpr (by decide)
    exact ⟨rfl, (scan_header _ rfl).1 ['ä'] ['-', 'b'] rfl letters (by rintro c ⟨⟩; decide)⟩

end RuleLexer
