import RuleLexer.Proofs.Reading

/-!
# Places of arguments

Parentheses and commas are passed over in silence only where they belong to the
argument list of an annotation.

* `ArgumentList.extent`: how far a list reaches; `source_read_eq`: it is read as
  far as that;
* `Cell.Listed`: a silent cell is blank, or lies in the list behind the name of
  an annotation;
* `listed_layout`: so do all cells of a layout.
-/

namespace RuleLexer

open Cell (source)

namespace ArgumentList

/-- An argument list from behind its opening parenthesis: the line up to the
first closing parenthesis that stands in no literal. -/
def extent : List Char → List Char
  | [] => []
  | c :: rest =>
    if c = ')' then [c]
    else
      match argumentDelimiter? c with
      | none => c :: extent rest
      | some d =>
        match _ : Literal.readBody? d.closer rest with
        | some (body, behind) => Literal.written d body ++ extent behind
        | none => c :: rest
termination_by line => line.length
decreasing_by
  all_goals simp only [List.length_cons]
  · omega
  · have := Literal.length_of_readBody? (by assumption)
    omega

/-- What ends a list within the line. -/
def Ending.close : Ending → List Char
  | .closed _ => [')']
  | .lineEnd => []
  | .openLiteral chars => chars

theorem extent_cons {c : Char} (noClose : c ≠ ')') (noLiteral : argumentDelimiter? c = none)
    (rest : List Char) : extent (c :: rest) = c :: extent rest := by
  rw [extent, if_neg noClose, noLiteral]

theorem extent_stray (line : List Char) :
    extent line = line.takeWhile isStray ++ extent (line.dropWhile isStray) := by
  induction line with
  | nil => rfl
  | cons c rest ih =>
    by_cases stray : isStray c = true
    · have outside := argumentDelimiter?_of_stray stray
      rw [extent_cons outside.1 outside.2, ih]
      simp [stray]
    · simp [stray]

theorem extent_eq (line : List Char) :
    extent line = (lexemes line).1.flatMap Lexeme.chars ++ (lexemes line).2.close := by
  fun_induction lexemes line with
  | case1 => rw [extent]; rfl
  | case2 => rw [extent, if_pos rfl]; rfl
  | case3 c rest noClose blank more ending heq ih =>
    rw [heq] at ih
    rw [extent_cons noClose (argumentDelimiter?_of_blank blank), ih]
    rfl
  | case4 rest more ending heq noClose _ ih =>
    rw [heq] at ih
    rw [extent_cons noClose rfl, ih]
    rfl
  | case5 c rest noClose _ _ bracket more ending heq ih =>
    rw [heq] at ih
    rw [extent_cons noClose (argumentDelimiter?_of_bracket bracket), ih]
    rfl
  | case6 c rest noClose _ _ _ d hd l behind closed more ending heq ih =>
    rw [heq] at ih
    obtain ⟨rfl, body⟩ := Literal.read_eq_closed_iff.mp closed
    rw [extent, if_neg noClose, hd]
    dsimp only
    split
    · rename_i found
      cases body.symm.trans found
      rw [ih]
      simp [Lexeme.chars, Literal.chars]
    · rename_i found
      cases body.symm.trans found
  | case7 c rest noClose _ _ _ d hd chars unclosed =>
    obtain ⟨staysOpen, rfl⟩ := Literal.read_eq_unclosed_iff.mp unclosed
    have noBody := Literal.readBody?_eq_none_iff.mpr staysOpen
    rw [extent, if_neg noClose, hd]
    dsimp only
    split
    · rename_i found
      cases noBody.symm.trans found
    · rw [← opener_of_argumentDelimiter? hd]
      rfl
  | case8 c rest noClose _ _ _ noLiteral more ending heq ih =>
    rw [heq] at ih
    rw [extent_cons noClose noLiteral, extent_stray, ih]
    simp [Lexeme.chars]

/-- A list is read as far as it reaches. -/
theorem source_read_eq (behind : List Char) : (read behind).source = '(' :: extent behind := by
  rw [extent_eq]
  unfold read
  cases lexemes behind with
  | mk list ending =>
    cases ending <;> simp [LinePart.source, source_judge, misplaced, Ending.close]

end ArgumentList

namespace Cell

/-- A cell behind other cells lies in the argument list behind the name of an annotation. -/
def InList (text : List Char) (before : List Cell) (c : Cell) : Prop :=
  ∃ front name depth mid rest,
    before = front ++ ⟨.valued .annotationName .none name ('@' :: name), depth⟩ :: mid ∧
      text = source front ++ '@' :: name ++ '(' :: rest ∧
      source mid ++ c.piece.chars <+: '(' :: ArgumentList.extent (Text.line rest)

/-- Silent cells at the head of a text are blank, or lie in an argument list. -/
def Listed (text : List Char) (cells : List Cell) : Prop :=
  ∀ a c b, cells = a ++ c :: b → c.piece.mark = none →
    (∀ x ∈ c.piece.chars, isBlank x = true) ∨ InList text a c

/-- Silent cells are blank. -/
def Blank (cells : List Cell) : Prop :=
  ∀ c ∈ cells, c.piece.mark = none → ∀ x ∈ c.piece.chars, isBlank x = true

variable {text rest : List Char} {a b : List Cell}

theorem Blank.listed {cells : List Cell} (h : Blank cells) : Listed text cells := by
  intro a c b split silent
  exact .inl (h c (by simp [split]) silent)

theorem InList.behind {before : List Cell} {c : Cell} (h : InList rest before c)
    (whole : text = source a ++ rest) : InList text (a ++ before) c := by
  obtain ⟨front, name, depth, mid, more, rfl, rfl, inside⟩ := h
  exact ⟨a ++ front, name, depth, mid, more, by simp, by simp [whole], inside⟩

theorem Listed.append (first : Listed text a) (whole : text = source a ++ rest)
    (second : Listed rest b) : Listed text (a ++ b) := by
  intro before c behind split silent
  rcases List.append_eq_append_iff.mp split with ⟨more, rfl, later⟩ | ⟨more, here, later⟩
  · rcases second more c behind later silent with blank | inList
    · exact .inl blank
    · exact .inr (inList.behind whole)
  · cases more with
    | nil =>
      rw [List.nil_append] at later
      rw [List.append_nil] at here
      subst here
      rcases second [] c behind later.symm silent with blank | inList
      · exact .inl blank
      · have := inList.behind whole
        rw [List.append_nil] at this
        exact .inr this
    | cons d more =>
      obtain ⟨rfl, -⟩ := List.cons.inj later
      exact first before c more here silent

end Cell

open Cell (Listed Blank)

/-- A part of the line at the head of a text. -/
theorem LineMode.listed_read (mode : LineMode) (text : List Char) (depth : Nat) :
    Listed text ((mode.read (Text.line text)).pieces.map (⟨·, depth⟩)) := by
  rcases read_cases mode (Text.line text) with forms | ⟨name, arguments, line, pieces⟩
  · apply Blank.listed
    intro c hc silent
    obtain ⟨q, hq, rfl⟩ := List.mem_map.mp hc
    cases forms q hq with
    | blanks blank => exact blank
    | listMark isList => cases isList
    | indent | plain | annotationHead | badHead | literal | newLine | openLiteral => cases silent
  · rw [pieces, List.map_cons]
    intro a c b split silent
    cases a with
    | nil =>
      obtain ⟨rfl, -⟩ := List.cons.inj split
      cases silent
    | cons d mid =>
      obtain ⟨rfl, inList⟩ := List.cons.inj split
      have whole := Text.line_append_behindLine text
      have behindHead : Text.line text = ('@' :: name ++ ['(']) ++ arguments := by simp [line]
      rw [line] at whole
      refine .inr ⟨[], name, depth, mid, arguments ++ Text.behindLine text, rfl, ?_, ?_⟩
      · simpa using whole.symm
      · rw [Text.line_of_split behindHead, ← ArgumentList.source_read_eq]
        have inside := congrArg source (show _ = mid ++ c :: b from inList)
        rw [Cell.source_map_mk, Cell.source_append, Cell.source_cons] at inside
        exact ⟨source b ++ ((ArgumentList.read arguments).openLiteral.map Prod.snd).getD [], by
          simp [LinePart.source, inside]⟩

namespace Stretch

theorem blank_lineStart (nesting : Nesting) (text : List Char) :
    Blank (lineStart nesting text).cells := by
  intro c hc silent x hx
  exact lineStart_blanks nesting text x (Cell.mem_source hc hx)

theorem blank_lineBreak (nesting : Nesting) {p : Piece} (marked : p.mark ≠ none)
    (text : List Char) : Blank (lineBreak nesting p text).cells := by
  intro c hc silent
  rcases List.mem_cons.mp hc with rfl | hc
  · exact absurd silent marked
  · exact blank_lineStart nesting text c hc silent

/-- What stands behind the pieces of a part is no part of a list. -/
theorem listed_ofPart (p : Place) :
    Listed p.rest (ofPart p (p.mode.read (Text.line p.rest))).cells := by
  have pieces := p.mode.listed_read p.rest p.nesting.depth
  have line := Text.line_append_behindLine p.rest
  obtain ⟨tail, whole⟩ := p.mode.source_read (Text.line p.rest)
  generalize p.mode.read (Text.line p.rest) = part at pieces whole
  have split : p.rest = source (part.pieces.map (⟨·, p.nesting.depth⟩)) ++
      ((part.openLiteral.map Prod.snd).getD [] ++ (tail ++ Text.behindLine p.rest)) := by
    rw [LinePart.source] at whole
    rw [Cell.source_map_mk, ← List.append_assoc, ← List.append_assoc, whole, line]
  unfold ofPart
  dsimp only
  apply pieces.append split
  apply Blank.listed
  cases part.openLiteral with
  | none => simp [Blank]
  | some literal =>
    obtain ⟨context, chars⟩ := literal
    dsimp only
    split
    · intro c hc silent
      obtain rfl := List.mem_singleton.mp hc
      cases silent
    · exact blank_lineBreak _ (by simp [Piece.valued]) _

end Stretch

namespace Place

theorem listed_scan (p : Place) : Listed p.rest p.scan.cells := by
  have whole : p.rest = source [⟨.silent (p.rest.takeWhile isBlank), p.nesting.depth⟩] ++
      p.rest.dropWhile isBlank := by simp [List.takeWhile_append_dropWhile]
  have blanks : Blank [⟨.silent (p.rest.takeWhile isBlank), p.nesting.depth⟩] := by
    intro c hc _ x hx
    obtain rfl := List.mem_singleton.mp hc
    exact Text.isBlank_of_mem_takeWhile hx
  unfold scan
  dsimp only
  apply blanks.listed.append whole
  split
  · apply Blank.listed
    exact Stretch.blank_lineBreak _ (by simp [Piece.valued]) _
  · split
    · exact Blank.listed (by simp [Blank])
    · exact Stretch.listed_ofPart { p with rest := p.rest.dropWhile isBlank }

theorem listed_layout (p : Place) : Listed p.rest p.layout.cells := by
  fun_induction layout p with
  | case1 p ended => exact p.listed_scan
  | case2 p goesOn ih => exact p.listed_scan.append p.source_scan.symm ih

end Place

end RuleLexer
