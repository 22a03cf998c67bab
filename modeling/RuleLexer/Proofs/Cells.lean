import RuleLexer.Lexer

/-!
# Cells

A cell is a piece of text with the depth of its line. A text is cut into cells
without gaps, so cells in a row say where each of their tokens lies.

* `tokens`: the tokens of cells in a row;
* `mem_tokens_iff`: a token belongs to one cell and lies where the cell lies;
* `pairwise_tokens`: tokens lie in the order of their cells;
* `Lexer.move`: the lexer moved over cells, and `foldl_take`: pieces taken one
  by one are such a move.
-/

namespace RuleLexer

structure Cell where
  piece : Piece
  /-- The depth of the line that the piece lies on. -/
  depth : Nat
  deriving DecidableEq

namespace Cell

/-- The text of cells in a row. -/
def source (cells : List Cell) : List Char := Piece.source (cells.map piece)

/-- The token of a cell that starts at an offset. -/
def token? (options : LexerOptions) (index : Nat) (c : Cell) : Option Token :=
  match c.piece.mark with
  | none => none
  | some mark =>
    if options.emitTrivia || !mark.kind.isTrivia then
      some { span := ⟨index, index + Text.width c.piece.chars⟩, depth := c.depth, kind := mark.kind,
             context := mark.context, value := String.ofList mark.value }
    else none

/-- The tokens of cells in a row, the first of which starts at an offset. -/
def tokens (options : LexerOptions) (index : Nat) : List Cell → List Token
  | [] => []
  | c :: cells =>
    (c.token? options index).toList ++ tokens options (index + Text.width c.piece.chars) cells

@[simp]
theorem source_nil : source [] = [] := rfl

@[simp]
theorem source_cons (c : Cell) (cells : List Cell) :
    source (c :: cells) = c.piece.chars ++ source cells := by
  simp [source]

@[simp]
theorem source_append (a b : List Cell) : source (a ++ b) = source a ++ source b := by
  simp [source]

theorem mem_source {cells : List Cell} {c : Cell} (hc : c ∈ cells) {x : Char}
    (hx : x ∈ c.piece.chars) : x ∈ source cells :=
  List.mem_flatMap.mpr ⟨c.piece, List.mem_map_of_mem hc, hx⟩

theorem exists_of_mem_source {cells : List Cell} {x : Char} (h : x ∈ source cells) :
    ∃ c ∈ cells, x ∈ c.piece.chars := by
  obtain ⟨p, hp, hx⟩ := List.mem_flatMap.mp h
  obtain ⟨c, hc, rfl⟩ := List.mem_map.mp hp
  exact ⟨c, hc, hx⟩

@[simp]
theorem source_map_mk (pieces : List Piece) (depth : Nat) :
    source (pieces.map (⟨·, depth⟩)) = Piece.source pieces := by
  simp [source, Function.comp_def]

@[simp]
theorem tokens_nil (options : LexerOptions) (index : Nat) : tokens options index [] = [] := rfl

theorem tokens_append (options : LexerOptions) (index : Nat) (a b : List Cell) :
    tokens options index (a ++ b) =
      tokens options index a ++ tokens options (index + Text.width (source a)) b := by
  induction a generalizing index with
  | nil => simp
  | cons c a ih => simp [tokens, ih, Nat.add_assoc]

theorem token?_eq_some_iff {options : LexerOptions} {index : Nat} {c : Cell} {t : Token} :
    c.token? options index = some t ↔
      ∃ mark, c.piece.mark = some mark ∧
        (options.emitTrivia = true ∨ mark.kind.isTrivia = false) ∧
        t = { span := ⟨index, index + Text.width c.piece.chars⟩, depth := c.depth,
              kind := mark.kind, context := mark.context, value := String.ofList mark.value } := by
  unfold token?
  split
  · simp_all
  · rename_i mark h
    simp only [h, Option.some.injEq, exists_eq_left', Option.ite_none_right_eq_some,
      Bool.or_eq_true, Bool.not_eq_true', eq_comm (b := t)]

theorem span_of_token? {options : LexerOptions} {index : Nat} {c : Cell} {t : Token}
    (h : c.token? options index = some t) :
    t.span = ⟨index, index + Text.width c.piece.chars⟩ ∧ t.depth = c.depth := by
  obtain ⟨mark, -, -, rfl⟩ := token?_eq_some_iff.mp h
  exact ⟨rfl, rfl⟩

theorem mem_tokens_iff {options : LexerOptions} {index : Nat} {cells : List Cell} {t : Token} :
    t ∈ tokens options index cells ↔
      ∃ before c behind, cells = before ++ c :: behind ∧
        c.token? options (index + Text.width (source before)) = some t := by
  constructor
  · intro h
    induction cells generalizing index with
    | nil => cases h
    | cons c cells ih =>
      rcases List.mem_append.mp h with own | later
      · exact ⟨[], c, cells, rfl, by simpa using own⟩
      · obtain ⟨before, d, behind, rfl, token⟩ := ih later
        exact ⟨c :: before, d, behind, rfl, by simpa [Nat.add_assoc] using token⟩
  · rintro ⟨before, c, behind, rfl, token⟩
    rw [tokens_append, tokens, token]
    simp

/-- Tokens lie within the text of their cells. -/
theorem bounds_of_mem_tokens {options : LexerOptions} {index : Nat} {cells : List Cell} {t : Token}
    (h : t ∈ tokens options index cells) :
    index ≤ t.span.start ∧ t.span.start ≤ t.span.stop ∧
      t.span.stop ≤ index + Text.width (source cells) := by
  obtain ⟨before, c, behind, rfl, token⟩ := mem_tokens_iff.mp h
  rw [(span_of_token? token).1]
  simp only [source_append, source_cons, Text.width_append]
  omega

theorem pairwise_tokens (options : LexerOptions) (index : Nat) (cells : List Cell) :
    (tokens options index cells).Pairwise fun a b => a.span.stop ≤ b.span.start := by
  induction cells generalizing index with
  | nil => exact .nil
  | cons c cells ih =>
    refine List.pairwise_append.mpr ⟨?_, ih _, ?_⟩
    · cases c.token? options index <;> simp
    · intro a ha b hb
      have := (span_of_token? (Option.mem_toList.mp ha)).1
      have := (bounds_of_mem_tokens hb).1
      simp_all

end Cell

namespace Scanner

theorem index_step (s : Scanner) : s.step.index = s.index + Text.width (s.rest.take 1) := by
  unfold step
  repeat' split
  all_goals simp [*]

theorem index_pass (n : Nat) (s : Scanner) :
    (s.pass n).index = s.index + Text.width (s.rest.take n) := by
  induction n generalizing s with
  | zero => rfl
  | succ n ih =>
    rw [pass, ih, index_step, rest_step]
    cases s.rest <;> simp [Nat.add_assoc]

/-- Passing over a first part of the text in front of the cursor. -/
theorem pass_prefix {s : Scanner} {a b : List Char} (h : s.rest = a ++ b) :
    (s.pass a.length).index = s.index + Text.width a ∧ (s.pass a.length).rest = b := by
  simp [index_pass, h]

end Scanner

namespace Lexer

variable {L : Lexer}

/-- The lexer moved over cells, with their tokens queued. -/
def move (L : Lexer) (cells : List Cell) : Lexer :=
  { L with
    scanner := L.scanner.pass (Cell.source cells).length
    queue := L.queue ++ Cell.tokens L.options L.scanner.index cells }

@[simp]
theorem move_nil (L : Lexer) : L.move [] = L := by
  simp [move, Scanner.pass]

theorem move_append {a b : List Cell} (h : Cell.source a <+: L.scanner.rest) :
    (L.move a).move b = L.move (a ++ b) := by
  obtain ⟨rest, h⟩ := h
  simp [move, Cell.tokens_append, Scanner.pass_add, (Scanner.pass_prefix h.symm).1]

theorem take_eq_move {p : Piece} (h : p.chars <+: L.scanner.rest) :
    L.take p = L.move [⟨p, L.depth⟩] := by
  obtain ⟨rest, h⟩ := h
  unfold take
  simp only [move, Cell.source_cons, Cell.source_nil, List.append_nil, Cell.tokens, Cell.token?,
    (Scanner.pass_prefix h.symm).1]
  split
  · simp [*]
  · split <;> simp [*]

theorem foldl_take {pieces : List Piece} (h : Piece.source pieces <+: L.scanner.rest) :
    pieces.foldl take L = L.move (pieces.map (⟨·, L.depth⟩)) := by
  induction pieces generalizing L with
  | nil => simp
  | cons p pieces ih =>
    obtain ⟨rest, h⟩ := h
    have first : p.chars <+: L.scanner.rest := ⟨Piece.source pieces ++ rest, by simpa using h⟩
    have more : Piece.source pieces <+: (L.move [⟨p, L.depth⟩]).scanner.rest :=
      ⟨rest, by simp [move, ← h]⟩
    have same : (L.move [⟨p, L.depth⟩]).depth = L.depth := rfl
    rw [List.foldl_cons, take_eq_move first, ih more, same,
      move_append (by simpa using first)]
    rfl

end Lexer

end RuleLexer
