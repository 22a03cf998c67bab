import RuleLexer.Character
import RuleLexer.Literal
import RuleLexer.Piece

/-!
# Items

An item has a left side and, behind an arrow, a right side. Each side is a
literal or plain text. Plain text on the left ends at the first arrow, on the
right it takes the rest of the line, and blanks around it do not count.

* `trimmed_append_trailing`: trimming loses only the blanks at the end;
* `append_cutAtArrow`: the cut at the arrow loses nothing;
* `source_read`: an item takes the whole line.
-/

namespace RuleLexer.Item

inductive Side where
  | left
  | right
  deriving DecidableEq

def Side.context : Side → TokenKind
  | left => .lhs
  | right => .rhs

/-- The text without the blanks at its end. -/
def trimmed (text : List Char) : List Char := (text.reverse.dropWhile isBlank).reverse

/-- The blanks at the end of a text. -/
def trailing (text : List Char) : List Char := (text.reverse.takeWhile isBlank).reverse

/-- Cuts a text in front of its first arrow, or else at its end. -/
def cutAtArrow : List Char → List Char × List Char
  | [] => ([], [])
  | c :: rest =>
    if c = '-' ∧ rest.head? = some '>' then ([], c :: rest)
    else
      let (before, arrow) := cutAtArrow rest
      (c :: before, arrow)

/-- The plain text of a side, and what is left of the line. -/
def Side.cut : Side → List Char → List Char × List Char
  | left, line => cutAtArrow line
  | right, line => (line, [])

/-- What a closed literal on a side is. A label must be made of label characters. -/
def literalPiece (side : Side) (l : Literal) : Piece :=
  if l.delimiter = .bracket ∧ ¬ l.body.all isLabelChar then .raw .error .label l.chars
  else l.piece l.delimiter.kind side.context

/-- Text behind a literal, which has no place on a side. -/
def junkPieces (side : Side) (text : List Char) : List Piece :=
  if trimmed text = [] then [.silent text]
  else [.raw .error side.context (trimmed text), .silent (trailing text)]

/-- Reads one side, and gives what is left of the line. -/
def readSide (side : Side) (line : List Char) : LinePart × List Char :=
  match line.head?.bind Delimiter.ofOpener? with
  | none =>
    let (text, rest) := side.cut line
    ({ pieces := [.raw .value side.context (trimmed text), .silent (trailing text)] }, rest)
  | some d =>
    match Literal.read d line.tail with
    | .unclosed chars => ({ pieces := [], openLiteral := some (d.kind, chars) }, [])
    | .closed l behind =>
      let (text, rest) := side.cut (behind.dropWhile isBlank)
      ({ pieces := literalPiece side l :: .silent (behind.takeWhile isBlank) ::
          junkPieces side text }, rest)

/-- Reads an item, which takes the whole line. -/
def read (line : List Char) : LinePart :=
  let (left, rest) := readSide .left line
  match rest with
  | '-' :: '>' :: behind =>
    let (right, _) := readSide .right (behind.dropWhile isBlank)
    { right with
      pieces := left.pieces ++ .raw .operator .none ['-', '>'] ::
        .silent (behind.takeWhile isBlank) :: right.pieces }
  | _ => left

/-! ## Nothing is lost -/

theorem trimmed_append_trailing (text : List Char) : trimmed text ++ trailing text = text := by
  rw [trimmed, trailing, ← List.reverse_append, List.takeWhile_append_dropWhile,
    List.reverse_reverse]

theorem append_cutAtArrow (text : List Char) :
    (cutAtArrow text).1 ++ (cutAtArrow text).2 = text := by
  induction text with
  | nil => rfl
  | cons c rest ih =>
    simp only [cutAtArrow]
    split <;> simp_all

/-- What is left behind the cut starts with an arrow. -/
theorem cutAtArrow_snd (text : List Char) :
    (cutAtArrow text).2 = [] ∨ ∃ behind, (cutAtArrow text).2 = '-' :: '>' :: behind := by
  induction text with
  | nil => exact .inl rfl
  | cons c rest ih =>
    simp only [cutAtArrow]
    split
    · rename_i h
      obtain ⟨rfl, hrest⟩ := h
      cases rest with
      | nil => simp at hrest
      | cons d rest => exact .inr ⟨rest, by simp_all⟩
    · exact ih

theorem append_cut (side : Side) (text : List Char) :
    (side.cut text).1 ++ (side.cut text).2 = text := by
  cases side with
  | left => exact append_cutAtArrow text
  | right => simp [Side.cut]

@[simp]
theorem chars_literalPiece (side : Side) (l : Literal) : (literalPiece side l).chars = l.chars := by
  unfold literalPiece
  split <;> rfl

theorem source_junkPieces (side : Side) (text : List Char) :
    Piece.source (junkPieces side text) = text := by
  unfold junkPieces
  split
  · simp
  · simp [trimmed_append_trailing]

theorem source_readSide (side : Side) (line : List Char) :
    (readSide side line).1.source ++ (readSide side line).2 = line := by
  unfold readSide
  split
  · have := append_cut side line
    simp only [LinePart.source, Piece.source_cons, Piece.chars_raw, Piece.chars_silent,
      Piece.source_nil, Option.map_none, Option.getD_none, List.append_nil,
      trimmed_append_trailing]
    exact this
  · rename_i d hd
    cases line with
    | nil => simp at hd
    | cons c rest =>
      have hc : c = d.opener := by
        simpa [Delimiter.ofOpener?_eq_some_iff] using hd
      simp only [List.tail_cons]
      split
      · rename_i chars unclosed
        obtain ⟨-, rfl⟩ := Literal.read_eq_unclosed_iff.mp unclosed
        simp [LinePart.source, hc]
      · rename_i l behind found
        have := append_cut side (behind.dropWhile isBlank)
        simp only [LinePart.source, Piece.source_cons, chars_literalPiece, Piece.chars_silent,
          source_junkPieces, Option.map_none, Option.getD_none, List.append_nil,
          List.append_assoc, this, List.takeWhile_append_dropWhile]
        rw [Literal.chars_append_of_read found, hc]

theorem readSide_right_snd (line : List Char) : (readSide .right line).2 = [] := by
  unfold readSide
  split
  · rfl
  · split <;> rfl

/-- An open literal takes the rest of the line. -/
theorem readSide_openLiteral (side : Side) (line : List Char) :
    (readSide side line).1.openLiteral = none ∨ (readSide side line).2 = [] := by
  unfold readSide
  split
  · exact .inl rfl
  · split
    · exact .inr rfl
    · exact .inl rfl

/-- What is left behind the left side starts with an arrow. -/
theorem readSide_left_snd (line : List Char) :
    (readSide .left line).2 = [] ∨ ∃ behind, (readSide .left line).2 = '-' :: '>' :: behind := by
  unfold readSide
  split
  · exact cutAtArrow_snd _
  · split
    · exact .inl rfl
    · exact cutAtArrow_snd _

theorem source_read (line : List Char) : (read line).source = line := by
  have left := source_readSide .left line
  have closed := readSide_openLiteral .left line
  unfold read
  dsimp only
  split
  · rename_i behind h
    have right := source_readSide .right (behind.dropWhile isBlank)
    rw [readSide_right_snd, List.append_nil] at right
    rw [h] at left closed
    simp only [reduceCtorEq, or_false] at closed
    simp only [LinePart.source, closed, Option.map_none, Option.getD_none, List.append_nil]
      at left right ⊢
    simp only [Piece.source_append, Piece.source_cons, Piece.chars_raw, Piece.chars_silent,
      List.append_assoc, right, List.takeWhile_append_dropWhile]
    simpa using left
  · rename_i noArrow
    rcases readSide_left_snd line with h | ⟨behind, h⟩
    · rwa [h, List.append_nil] at left
    · exact absurd h (noArrow behind)

/-- Behind an item, nothing follows on its line. -/
theorem itemFollows_read (line : List Char) : (read line).itemFollows = false := by
  have side (side : Side) (line : List Char) : (readSide side line).1.itemFollows = false := by
    unfold readSide
    repeat' split
    all_goals rfl
  unfold read
  dsimp only
  split <;> exact side _ _

end RuleLexer.Item
