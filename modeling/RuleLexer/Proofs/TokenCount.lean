import RuleLexer.Proofs.Reading

/-!
# Number of tokens

Two tokens take at least three bytes of the text. A token with text pays for
itself; only the sides of an arrow can be empty, and the arrow pays for both.

* `Piece.Charged`: the text of pieces pays for their tokens, but for a debt;
* `Item.charged_readSide`: an empty side is the one debt; `Item.charged_read`:
  in an item the arrow has paid it;
* `LineMode.charged_read`, `Place.charged_scan`: so every scan pays for its tokens;
* `Text.length_tokens_le`: which bounds the number of tokens of a text.
-/

namespace RuleLexer

open Cell (source)

namespace Piece

/-- The number of pieces that are marked. -/
def marked (pieces : List Piece) : Nat := pieces.countP (·.mark.isSome)

/-- Three bytes of the text pay for two tokens, but for a debt. -/
def Charged (debt : Nat) (pieces : List Piece) : Prop :=
  2 * marked pieces ≤ 3 * Text.width (source pieces) + debt

theorem marked_append (a b : List Piece) : marked (a ++ b) = marked a + marked b :=
  List.countP_append

theorem marked_singleton_le (p : Piece) : marked [p] ≤ 1 :=
  List.countP_le_length

theorem charged_nil (debt : Nat) : Charged debt [] := Nat.zero_le _

theorem charged_silent (chars : List Char) : Charged 0 [.silent chars] := Nat.zero_le _

theorem Charged.mono {a b : Nat} {pieces : List Piece} (h : Charged a pieces) (le : a ≤ b) :
    Charged b pieces := by
  unfold Charged at h ⊢
  omega

theorem Charged.append {debt : Nat} {p q : List Piece} (first : Charged 0 p)
    (second : Charged debt q) : Charged debt (p ++ q) := by
  unfold Charged at first second ⊢
  rw [marked_append, source_append, Text.width_append]
  omega

/-- A piece with text pays for itself. -/
theorem charged_singleton {p : Piece} (h : p.chars ≠ []) : Charged 0 [p] := by
  have := marked_singleton_le p
  have : Text.width p.chars ≠ 0 := by rwa [ne_eq, Text.width_eq_zero]
  unfold Charged
  simp only [source_cons, source_nil, List.append_nil]
  omega

theorem charged_of_forall_ne_nil {pieces : List Piece} (h : ∀ p ∈ pieces, p.chars ≠ []) :
    Charged 0 pieces := by
  induction pieces with
  | nil => exact charged_nil 0
  | cons p pieces ih =>
    obtain ⟨own, more⟩ := List.forall_mem_cons.mp h
    exact (charged_singleton own).append (ih more)

end Piece

open Piece (Charged charged_nil charged_silent charged_singleton charged_of_forall_ne_nil)

theorem Literal.chars_ne_nil (l : Literal) : l.chars ≠ [] := by
  simp [chars, written]

theorem Literal.IsOpen.ne_nil {chars : List Char} (h : IsOpen chars) : chars ≠ [] := by
  obtain ⟨d, body, rfl, -⟩ := h
  simp

/-! ## Parts of a line -/

namespace ArgumentList

theorem lexemes_ne_nil (line : List Char) : ∀ x ∈ (lexemes line).1, x.chars ≠ [] := by
  fun_induction lexemes line with
  | case1 => simp
  | case2 => simp
  | case3 c rest _ _ more ending heq ih =>
    rw [heq] at ih
    exact List.forall_mem_cons.mpr ⟨by simp [Lexeme.chars], ih⟩
  | case4 rest more ending heq _ _ ih =>
    rw [heq] at ih
    exact List.forall_mem_cons.mpr ⟨by simp [Lexeme.chars], ih⟩
  | case5 c rest _ _ _ _ more ending heq ih =>
    rw [heq] at ih
    exact List.forall_mem_cons.mpr ⟨by simp [Lexeme.chars], ih⟩
  | case6 c rest _ _ _ _ d _ l behind _ more ending heq ih =>
    rw [heq] at ih
    exact List.forall_mem_cons.mpr ⟨l.chars_ne_nil, ih⟩
  | case7 => simp
  | case8 c rest _ _ _ _ _ more ending heq ih =>
    rw [heq] at ih
    exact List.forall_mem_cons.mpr ⟨by simp [Lexeme.chars], ih⟩

/-- Judging keeps the text of each lexeme. -/
theorem map_chars_judge (wanted : Bool) (list : List Lexeme) :
    (judge wanted list).map Piece.chars = list.map Lexeme.chars := by
  fun_induction judge wanted list with
  | case1 => rfl
  | case2 wanted c more ih => simp [ih, Lexeme.chars]
  | case3 wanted more ih => cases wanted <;> simp_all [Lexeme.chars, misplaced]
  | case4 wanted c more ih => simp [ih, Lexeme.chars, misplaced]
  | case5 wanted l more ih => cases wanted <;> simp [ih, Lexeme.chars, misplaced]
  | case6 wanted chars more ih => simp [ih, Lexeme.chars, misplaced]

theorem pieces_read_ne_nil (behind : List Char) : ∀ p ∈ (read behind).pieces, p.chars ≠ [] := by
  have judged : ∀ p ∈ judge true (lexemes behind).1, p.chars ≠ [] := by
    intro p hp
    have mem : p.chars ∈ (lexemes behind).1.map Lexeme.chars := by
      rw [← map_chars_judge true]
      exact List.mem_map_of_mem hp
    obtain ⟨x, hx, chars⟩ := List.mem_map.mp mem
    rw [← chars]
    exact lexemes_ne_nil behind x hx
  unfold read
  cases h : lexemes behind with
  | mk list ending =>
    rw [h] at judged
    cases ending with
    | closed rest =>
      simp only [List.cons_append, List.forall_mem_cons, List.forall_mem_append]
      exact ⟨by simp, judged, by simp, by simp⟩
    | lineEnd => exact List.forall_mem_cons.mpr ⟨by simp [misplaced], judged⟩
    | openLiteral chars => exact List.forall_mem_cons.mpr ⟨by simp [misplaced], judged⟩

end ArgumentList

theorem Annotation.pieces_read_ne_nil (behind : List Char) :
    ∀ p ∈ (read behind).pieces, p.chars ≠ [] := by
  unfold read
  dsimp only
  split
  · simp
  · split
    · exact List.forall_mem_cons.mpr ⟨by simp, ArgumentList.pieces_read_ne_nil _⟩
    · split <;> simp

theorem Heading.pieces_read_ne_nil (behind : List Char) :
    ∀ p ∈ (read behind).pieces, p.chars ≠ [] := by
  unfold read
  split
  · simpa using Literal.chars_ne_nil _
  · simp

namespace Item

theorem charged_junkPieces (side : Side) (text : List Char) :
    Charged 0 (junkPieces side text) := by
  unfold junkPieces
  split
  · exact charged_silent text
  · rename_i junk
    exact (charged_singleton junk).append (charged_silent _)

/-- A side owes its token at most if it is empty, and then an arrow follows or
nothing stood there. -/
theorem charged_readSide (side : Side) (line : List Char) :
    Charged 2 (readSide side line).1.pieces ∧
      (line ≠ [] → (readSide side line).2 = [] → Charged 0 (readSide side line).1.pieces) := by
  unfold readSide
  split
  · have whole := append_cut side line
    have value : Piece.marked [.raw .value side.context (trimmed (side.cut line).1),
        .silent (trailing (side.cut line).1)] = 1 := rfl
    have text : Piece.source [.raw .value side.context (trimmed (side.cut line).1),
        .silent (trailing (side.cut line).1)] = (side.cut line).1 := by
      simp [trimmed_append_trailing]
    constructor
    · unfold Charged
      rw [value]
      omega
    · intro nonempty last
      rw [show (side.cut line).2 = [] from last, List.append_nil] at whole
      have : Text.width line ≠ 0 := by rwa [ne_eq, Text.width_eq_zero]
      unfold Charged
      rw [value, text, whole]
      omega
  · rename_i d hd
    split
    · exact ⟨charged_nil 2, fun _ _ => charged_nil 0⟩
    · rename_i l behind found
      have closed : Charged 0 (literalPiece side l :: .silent (behind.takeWhile isBlank) ::
          junkPieces side (side.cut (behind.dropWhile isBlank)).1) := by
        have literal : (literalPiece side l).chars ≠ [] := by
          rw [chars_literalPiece]
          exact l.chars_ne_nil
        exact (charged_singleton literal).append
          ((charged_silent _).append (charged_junkPieces side _))
      exact ⟨closed.mono (Nat.zero_le 2), fun _ _ => closed⟩

theorem charged_read {line : List Char} (nonempty : line ≠ []) :
    Charged 0 (read line).pieces := by
  obtain ⟨left, alone⟩ := charged_readSide .left line
  unfold read
  dsimp only
  split
  · rename_i behind _
    -- the two bytes of the arrow pay for it and for an empty side on either hand
    have right := (charged_readSide .right (behind.dropWhile isBlank)).1
    generalize (readSide .right (behind.dropWhile isBlank)).1.pieces = rightPieces at right ⊢
    generalize (readSide .left line).1.pieces = leftPieces at left ⊢
    have marks : Piece.marked (leftPieces ++ .raw .operator .none ['-', '>'] ::
        .silent (behind.takeWhile isBlank) :: rightPieces) =
          Piece.marked leftPieces + Piece.marked rightPieces + 1 := by
      rw [Piece.marked_append, Nat.add_assoc]
      simp [Piece.marked, Piece.raw, Piece.valued, Piece.silent]
    have arrow : Text.width ['-', '>'] = 2 := rfl
    unfold Charged at left right ⊢
    rw [marks]
    simp only [Piece.source_append, Piece.source_cons, Piece.chars_raw, Piece.chars_silent,
      Text.width_append, arrow]
    omega
  · rename_i noArrow
    rcases readSide_left_snd line with none | ⟨behind, arrow⟩
    · exact alone nonempty none
    · exact absurd arrow (noArrow behind)

end Item

theorem LineMode.charged_read (mode : LineMode) {line : List Char} (nonempty : line ≠ []) :
    Charged 0 (mode.read line).pieces := by
  cases mode with
  | header =>
    cases line with
    | nil => exact absurd rfl nonempty
    | cons c rest =>
      simp only [read, readHeader]
      split
      · have nonempty := Annotation.pieces_read_ne_nil rest
        exact charged_of_forall_ne_nil nonempty
      · split
        · exact charged_of_forall_ne_nil (Heading.pieces_read_ne_nil rest)
        · split
          · exact charged_singleton (by simp)
          · exact Item.charged_read nonempty
  | subsection | item | blank => exact Item.charged_read nonempty

/-! ## Scans -/

theorem LineMode.takeWhile_ne_nil_of_subsection {text : List Char}
    (h : ofText text = .subsection) : text.takeWhile isBlank ≠ [] := by
  unfold ofText at h
  split at h
  · cases h
  · split at h
    · cases h
    · split at h
      · rename_i c rest indented
        simp [indented]
      · split at h <;> cases h

namespace Stretch

theorem charged_lineStart (nesting : Nesting) (text : List Char) :
    Charged 0 ((lineStart nesting text).cells.map Cell.piece) := by
  unfold lineStart
  cases mode : LineMode.ofText text with
  | header | item => exact charged_nil 0
  | blank => exact charged_silent _
  | subsection =>
    apply charged_singleton
    rw [Nesting.chars_indentPiece]
    exact LineMode.takeWhile_ne_nil_of_subsection mode

theorem charged_lineBreak (nesting : Nesting) {p : Piece} (h : p.chars ≠ []) (text : List Char) :
    Charged 0 ((lineBreak nesting p text).cells.map Cell.piece) :=
  (charged_singleton h).append (charged_lineStart nesting text)

end Stretch

theorem Place.charged_scan (p : Place) : Charged 0 (p.scan.cells.map Cell.piece) := by
  have blanks := charged_silent (p.rest.takeWhile isBlank)
  unfold scan
  dsimp only
  rw [Stretch.cells_behind, List.map_append]
  apply blanks.append
  split
  · rename_i found
    exact Stretch.charged_lineBreak _ found _
  · split
    · exact charged_nil 0
    · rename_i inside
      have nonempty : Text.line (p.rest.dropWhile isBlank) ≠ [] := by
        rwa [ne_eq, Text.line_eq_nil_iff]
      have pieces := p.mode.charged_read nonempty
      unfold Stretch.ofPart
      dsimp only
      rw [Stretch.cells_behind, List.map_append, List.map_map]
      apply Charged.append (by simpa [Function.comp_def] using pieces)
      cases hopen : (p.mode.read (Text.line (p.rest.dropWhile isBlank))).openLiteral with
      | none => exact charged_nil 0
      | some literal =>
        obtain ⟨context, chars⟩ := literal
        have nonempty := (LineMode.open_read hopen).2.1.ne_nil
        dsimp only
        split
        · exact charged_singleton nonempty
        · exact Stretch.charged_lineBreak _ (by simp [nonempty]) _

theorem Place.charged_layout (p : Place) : Charged 0 (p.layout.cells.map Cell.piece) := by
  fun_induction layout p with
  | case1 p ended => exact p.charged_scan
  | case2 p goesOn ih =>
    rw [Stretch.cells_behind, List.map_append]
    exact p.charged_scan.append ih

theorem Cell.length_tokens_le (options : LexerOptions) (index : Nat) (cells : List Cell) :
    (tokens options index cells).length ≤ Piece.marked (cells.map piece) := by
  induction cells generalizing index with
  | nil => exact Nat.zero_le _
  | cons c cells ih =>
    have more := ih (index + Text.width c.piece.chars)
    have own : (c.token? options index).toList.length ≤ Piece.marked [c.piece] := by
      unfold token?
      cases mark : c.piece.mark with
      | none => exact Nat.zero_le _
      | some mark =>
        have counted : Piece.marked [c.piece] = 1 := by simp [Piece.marked, *]
        rw [counted]
        dsimp only
        split <;> simp
    have split : Piece.marked ((c :: cells).map piece) =
        Piece.marked [c.piece] + Piece.marked (cells.map piece) :=
      Piece.marked_append [c.piece] (cells.map piece)
    rw [tokens, List.length_append, split]
    omega

/-- A text has at most three tokens for every two bytes, and the end-of-file token. -/
theorem Text.length_tokens_le (text : List Char) (options : LexerOptions) :
    (Lexer.ofText text options).tokens.length ≤ width text + width text / 2 + 1 := by
  have charged : 2 * Piece.marked ((layout text).cells.map Cell.piece) ≤
      3 * width (source (layout text).cells) := Place.charged_layout _
  have counted := Cell.length_tokens_le options 0 (layout text).cells
  have within := width_source_layout_le text
  rw [Lexer.tokens_ofText, Stretch.tokens, List.length_append, List.length_singleton]
  omega

end RuleLexer
