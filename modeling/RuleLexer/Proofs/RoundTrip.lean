import RuleLexer.Proofs.FreshStart
import RuleLexer.Proofs.WrittenLines

/-!
# Round trip

What a rule file says can be read off its written form: lexing gives the tokens
that were meant, and no errors.

* `Line.tokenize_alone`: a text of one line gives the tokens of the line;
* `tokenize_append_of_noError`: behind a text without errors, a fresh line is
  lexed like the start of a text of its own;
* `tokenize_written`: so a file gives the tokens of all its lines.
-/

namespace RuleLexer

/-! ## One line -/

/-- The last line of a text, read as a whole with no literal left open. -/
theorem Place.tokens_layout_of_closed {p : Place} {c : Char} {rest : List Char} {part : LinePart}
    (front : p.rest = c :: rest) (noBlank : isBlank c = false)
    (inside : Text.atLineEnd p.rest = false) (read : p.mode.read (Text.line p.rest) = part)
    (closed : part.openLiteral = none) (source : Piece.source part.pieces = p.rest)
    (options : LexerOptions) (index : Nat) :
    p.layout.tokens options index =
      Cell.tokens options index (part.pieces.map (⟨·, p.nesting.depth⟩)) ++
        [{ span := .empty (index + Text.width p.rest), depth := p.nesting.depth,
           kind := .endOfFile, value := "" }] := by
  have whole : part.source = p.rest := by simp [LinePart.source, closed, source]
  have parts : Stretch.ofPart p part = .behind (part.pieces.map (⟨·, p.nesting.depth⟩))
      { cells := []
        place := { p with mode := if part.itemFollows then .item else p.mode, rest := [] } } := by
    simp [Stretch.ofPart, closed, whole]
  have scan := scan_of_inside front noBlank inside
  rw [read, parts, Stretch.behind_behind] at scan
  rw [layout_of_goesOn (by rw [scan]; rfl), scan, Stretch.place_behind, layout_of_rest_nil rfl]
  simp [Stretch.tokens, Cell.tokens, Cell.tokens_append, Cell.token?, Piece.silent, source]

namespace RuleFile

theorem Line.isFresh (l : Line) : Text.IsFresh l.written := by
  obtain ⟨c, rest, front, first, -⟩ := l.exists_cons
  obtain ⟨own, more⟩ := List.forall_mem_cons.mp (front ▸ l.onLine)
  have noFeed : rest.head? ≠ some '\n' := OnLine.head?_ne more
  have alone : Text.front (c :: rest) = (c, c.utf8Size) := by
    unfold Text.front
    split <;> simp_all
  rw [front, Text.IsFresh, alone]
  simp only [List.mem_cons, List.not_mem_nil, or_false, not_or] at first ⊢
  simp [first, own]

/-- A line alone in its text is lexed into its tokens. -/
theorem Line.tokenize_alone (l : Line) : tokenize (String.ofList l.written) =
    l.tokens 0 ++ [{ span := .empty (Text.width l.written), depth := 1, kind := .endOfFile,
                     value := "" }] := by
  obtain ⟨c, rest, front, first, read⟩ := l.exists_cons
  obtain ⟨_, _, same, noBlank, inside, -⟩ := l.isFresh.exists_cons
  obtain ⟨rfl, rfl⟩ := List.cons.inj (front.symm.trans same)
  rw [← front, ← l.onLine.line] at read
  have alone := Place.tokens_layout_of_closed (p := { rest := l.written }) front noBlank inside rfl
    read.closed read.source {} 0
  have own := read.tokens 0
  rw [Piece.tokensAtTop] at own
  rw [tokenize, String.toList_ofList, Lexer.tokens_ofText, Text.layout, alone, ← own, Nat.zero_add]
  rfl

theorem Line.tokens_shift (l : Line) (start offset : Nat) :
    l.tokens (start + offset) = (l.tokens start).map (Token.shift offset) := by
  obtain ⟨c, rest, -, -, read⟩ := l.exists_cons
  rw [← read.tokens, ← read.tokens, Piece.tokensAtTop, Piece.tokensAtTop, Cell.tokens_shift]

theorem lineTokens_shift (lines : List Line) (start offset : Nat) :
    lineTokens (start + offset) lines = (lineTokens start lines).map (Token.shift offset) := by
  induction lines generalizing start with
  | nil => rfl
  | cons l more ih =>
    rw [lineTokens, lineTokens, List.map_append, l.tokens_shift, ← ih]
    simp only [Nat.add_right_comm]

end RuleFile

/-! ## Files -/

/-- Behind a text without errors, a new line is lexed like a text of its own. -/
theorem tokenize_append_of_noError {a b : String} (noEnd : endOfText ∉ a.toList)
    (seam : Text.Seam a.toList ('\n' :: b.toList)) (fresh : Text.IsFresh b.toList)
    (noError : ∀ t ∈ tokenize a, t.kind ≠ .error) :
    tokenize (a ++ "\n" ++ b) = (tokenize a).filter (·.kind ≠ .endOfFile) ++
      (tokenize b).map (Token.shift (Text.width a.toList + 1)) := by
  obtain ⟨cells, broken, whole⟩ := tokenize_append noEnd seam fresh
  obtain ⟨-, inFront, cutBack⟩ := broken.tokens 0
  rw [Text.source_layout_of_notMem noEnd, Nat.zero_add, ← filter_tokenize] at cutBack
  rw [Text.source_layout_of_notMem noEnd, Nat.zero_add] at inFront
  have kept : ∀ t ∈ Cell.tokens {} 0 cells, t.cutBack (Text.width a.toList) = id t := by
    intro t ht
    rcases (inFront t ht).2 with inside | ⟨error, -⟩
    · exact Token.cutBack_of_le inside
    · -- cut back, the token would be an error of the first text
      have mem := List.mem_map_of_mem (f := Token.cutBack (Text.width a.toList)) ht
      rw [cutBack] at mem
      refine absurd ?_ (noError _ (List.mem_of_mem_filter mem))
      unfold Token.cutBack
      split <;> exact error
  rw [whole, ← cutBack, List.map_congr_left kept, List.map_id]

namespace RuleFile

theorem written_singleton (l : Line) : written [l] = l.written := List.intercalate_singleton ..

theorem written_cons_cons (l m : Line) (more : List Line) :
    written (l :: m :: more) = l.written ++ '\n' :: written (m :: more) := by
  simp [written, List.intercalate_cons_cons]

theorem Line.seam (l : Line) (rest : List Char) : Text.Seam l.written rest := by
  intro meets
  exact l.getLast?_ne meets.1

theorem isFresh_written (l : Line) (more : List Line) : Text.IsFresh (written (l :: more)) := by
  cases more with
  | nil =>
    rw [written_singleton]
    exact l.isFresh
  | cons m more =>
    rw [written_cons_cons]
    exact l.isFresh.append_lineFeed (l.seam _)

theorem kind_argumentTokens (start : Nat) (arguments : List Argument) :
    ∀ t ∈ argumentTokens start arguments, t.kind = .annotationArgument := by
  induction arguments generalizing start with
  | nil => simp [argumentTokens]
  | cons a more ih =>
    have own : a.mark.kind = .annotationArgument := by cases a <;> rfl
    exact List.forall_mem_cons.mpr ⟨own, ih _⟩

theorem Operand.kind_ne {side : Item.Side} (o : Operand side) :
    o.mark.kind ≠ .error ∧ o.mark.kind ≠ .endOfFile := by
  cases o <;> simp [mark]

/-- No line means an error or the end of the file. -/
theorem Line.kind_ne (l : Line) (start : Nat) :
    ∀ t ∈ l.tokens start, t.kind ≠ .error ∧ t.kind ≠ .endOfFile := by
  cases l with
  | tag name arguments =>
    refine List.forall_mem_cons.mpr ⟨by simp [token, Name.mark], ?_⟩
    intro t ht
    rw [kind_argumentTokens _ _ t ht]
    decide
  | heading title => simp [Line.tokens, token, Title.mark]
  | item left right =>
    cases right with
    | none => simpa [Line.tokens, token] using left.kind_ne
    | some right => simpa [Line.tokens, token] using ⟨left.kind_ne, right.kind_ne⟩

theorem kind_lineTokens (start : Nat) (lines : List Line) :
    ∀ t ∈ lineTokens start lines, t.kind ≠ .error := by
  induction lines generalizing start with
  | nil => simp [lineTokens]
  | cons l more ih =>
    refine List.forall_mem_append.mpr ⟨?_, ih _⟩
    intro t ht
    exact (l.kind_ne start t ht).1

/-- A line in front of others keeps its tokens, and they keep theirs. -/
theorem tokenize_cons_cons (l m : Line) (more : List Line) :
    tokenize (String.ofList (written (l :: m :: more))) =
      l.tokens 0 ++ (tokenize (String.ofList (written (m :: more)))).map
        (Token.shift (Text.width l.written + 1)) := by
  have noEnd : endOfText ∉ l.written := by
    intro mem
    exact (l.onLine _ mem).2 rfl
  have noError : ∀ t ∈ tokenize (String.ofList l.written), t.kind ≠ .error := by
    rw [l.tokenize_alone]
    refine List.forall_mem_append.mpr ⟨?_, by simp⟩
    intro t ht
    exact (l.kind_ne 0 t ht).1
  have kept : (tokenize (String.ofList l.written)).filter (·.kind ≠ .endOfFile) = l.tokens 0 := by
    rw [l.tokenize_alone, List.filter_append, List.filter_eq_self.mpr]
    · simp
    · intro t ht
      exact decide_eq_true (l.kind_ne 0 t ht).2
  have text : String.ofList (written (l :: m :: more)) =
      String.ofList l.written ++ "\n" ++ String.ofList (written (m :: more)) := by
    rw [written_cons_cons]
    apply String.toList_injective
    simp
  rw [text, tokenize_append_of_noError (by simpa using noEnd) (by simpa using l.seam _)
    (by simpa using isFresh_written m more) noError, kept, String.toList_ofList]

theorem tokens_cons_cons (l m : Line) (more : List Line) :
    tokens (l :: m :: more) =
      l.tokens 0 ++ (tokens (m :: more)).map (Token.shift (Text.width l.written + 1)) := by
  have width : Text.width (written (l :: m :: more)) =
      Text.width (written (m :: more)) + (Text.width l.written + 1) := by
    have feed : '\n'.utf8Size = 1 := rfl
    rw [written_cons_cons, Text.width_append, Text.width_cons, feed]
    omega
  have later := lineTokens_shift (m :: more) 0 (Text.width l.written + 1)
  rw [tokens, tokens, List.map_append, ← later, lineTokens, width, ← List.append_assoc,
    Nat.add_assoc]
  rfl

/-- Writing a rule file and lexing it gives what it says, token by token, and
no errors. -/
theorem tokenize_written (lines : List Line) :
    tokenize (String.ofList (written lines)) = tokens lines ∧
      ∀ t ∈ tokenize (String.ofList (written lines)), t.kind ≠ .error := by
  have same : tokenize (String.ofList (written lines)) = tokens lines := by
    induction lines with
    | nil =>
      rw [tokenize, String.toList_ofList, Lexer.tokens_ofText, Text.layout,
        Place.layout_of_rest_nil rfl]
      rfl
    | cons l more ih =>
      cases more with
      | nil =>
        rw [written_singleton, l.tokenize_alone, tokens, written_singleton, lineTokens, lineTokens,
          List.append_nil]
      | cons m more => rw [tokenize_cons_cons, ih, tokens_cons_cons]
  refine ⟨same, ?_⟩
  rw [same]
  exact List.forall_mem_append.mpr ⟨kind_lineTokens 0 lines, by simp⟩

example : written
    [.heading ⟨['s'], by decide, by decide⟩,
      .item (.string ⟨['a', '"'], by decide⟩) (some (.regex ⟨['/', '/'], by decide⟩))] =
        "[s]\n\"a\"\"\" -> //////".toList := by
  decide

end RuleFile

end RuleLexer
