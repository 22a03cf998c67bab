import Mathlib.Data.List.TakeWhile
import RuleLexer.Proofs.Reading

/-!
# Depths of lines

The depth of a token is the depth of the line that it starts on, and the depth
of a line follows from how the lines up to it are indented. What else stands on
the lines, however malformed, makes no difference.

* `Text.lines`: the lines of a text; `lines_eq`: the line at its head, and the
  lines behind its line break;
* `Level.next`: the level of a line, from its text and the level before it;
* `Stretch.Starts`: how a line can start; `nesting_lineStart`: its nesting is taken over;
* `scan_levels`, `layout_levels`: cells have the depths of their lines;
* `tokens_depth`: so every token has the depth of the line that it starts on.
-/

namespace RuleLexer

open Cell (source)

namespace Text

/-- The lines of a text, split at line feeds. A carriage return directly in
front of a line feed belongs to neither line. -/
def lines : List Char → List (List Char)
  | [] => [[]]
  | c :: rest =>
    if c = '\n' then [] :: lines rest
    else if c = '\r' ∧ rest.head? = some '\n' then lines rest
    else (lines rest).modifyHead (c :: ·)

/-- The text up to its first NUL. -/
def toNul (text : List Char) : List Char := text.takeWhile (· ≠ endOfText)

end Text

/-- How far the latest indented line is indented, and how deep it lies. -/
structure Level where
  column : Nat := 0
  depth : Nat := 1
  deriving DecidableEq

/-- The level of a line behind a line. A blank line has no level of its own, and
a line that is not indented starts again at the top. -/
def Level.next (level : Level) (line : List Char) : Level :=
  let column := (line.takeWhile isBlank).length
  if line.all isBlank then level
  else if column = 0 then {}
  else
    { column
      depth :=
        if level.column < column then level.depth + 1
        else if column < level.column then max 1 (level.depth - 1)
        else level.depth }

/-- The depth of a line of a text, where the first line has the number 0 and
lies at the top. -/
def Text.depthOfLine (text : List Char) (number : Nat) : Nat :=
  (((lines (toNul text)).tail.take number).foldl Level.next {}).depth

namespace Text

theorem toNul_cons {c : Char} (h : c ≠ endOfText) (rest : List Char) :
    toNul (c :: rest) = c :: toNul rest := by
  simp [toNul, h]

theorem head?_toNul (text : List Char) :
    (toNul text).head? = some '\n' ↔ text.head? = some '\n' := by
  cases text with
  | nil => rfl
  | cons c rest =>
    by_cases h : c = endOfText
    · subst h
      simp [toNul, endOfText]
    · simp [toNul_cons h]

theorem lines_cons {c : Char} {rest : List Char} (inside : atLineEnd (c :: rest) = false) :
    lines (toNul (c :: rest)) = (lines (toNul rest)).modifyHead (c :: ·) := by
  have parts : (¬ c = '\n' ∧ ¬ c = endOfText) ∧ (c = '\r' → ¬ rest.head? = some '\n') := by
    simpa [atLineEnd] using inside
  obtain ⟨⟨noFeed, noEnd⟩, noPair⟩ := parts
  have noPair : ¬ (c = '\r' ∧ (toNul rest).head? = some '\n') := by
    rw [head?_toNul]
    exact fun pair => noPair pair.1 pair.2
  rw [toNul_cons noEnd, lines, if_neg noFeed, if_neg noPair]

theorem lines_lineFeed (rest : List Char) :
    lines (toNul ('\n' :: rest)) = [] :: lines (toNul rest) := by
  rw [toNul_cons (by decide), lines, if_pos rfl]

theorem lines_pair (rest : List Char) :
    lines (toNul ('\r' :: '\n' :: rest)) = [] :: lines (toNul rest) := by
  have feed : (toNul ('\n' :: rest)).head? = some '\n' := (head?_toNul _).mpr rfl
  rw [← lines_lineFeed, toNul_cons (by decide), lines, if_neg (by decide), if_pos ⟨rfl, feed⟩]

/-- The line at the head of a text, and the lines behind its line break. -/
theorem lines_eq (text : List Char) :
    lines (toNul text) = line text ::
      if lineBreak (behindLine text) = [] then []
      else lines (toNul ((behindLine text).drop (lineBreak (behindLine text)).length)) := by
  induction text with
  | nil => rfl
  | cons c rest ih =>
    cases inside : atLineEnd (c :: rest) with
    | false =>
      rw [lines_cons inside, ih]
      simp [line, behindLine, inside]
    | true =>
      have whole := lineBreak_append_drop (c :: rest)
      rw [(line_eq_nil_iff _).mpr inside, behindLine_of_atLineEnd inside]
      rcases lineBreak_cases (c :: rest) with none | feed | pair
      · obtain rfl : c = endOfText := by simpa using ends_of_lineBreak inside none
        rw [if_pos none]
        simp [toNul, lines]
      · rw [feed] at whole ⊢
        obtain rfl := (List.cons.inj whole).1
        exact lines_lineFeed rest
      · rw [pair] at whole ⊢
        obtain ⟨rfl, whole⟩ := List.cons.inj whole
        rw [← whole]
        exact lines_pair _

/-- The lines behind the line at the head of a text. -/
def laterLines (text : List Char) : List (List Char) := (lines (toNul text)).tail

theorem laterLines_congr {a b : List Char} (same : behindLine a = behindLine b) :
    laterLines a = laterLines b := by
  rw [laterLines, laterLines, lines_eq, lines_eq b, same]
  rfl

theorem laterLines_of_lineBreak {text : List Char} (found : lineBreak (behindLine text) ≠ []) :
    laterLines text =
      lines (toNul ((behindLine text).drop (lineBreak (behindLine text)).length)) := by
  rw [laterLines, lines_eq, if_neg found, List.tail_cons]

theorem behindLine_of_split {text a b : List Char} (split : line text = a ++ b) :
    behindLine (b ++ behindLine text) = behindLine text := by
  have whole := line_append_behindLine (b ++ behindLine text)
  rw [line_of_split split] at whole
  exact List.append_cancel_left whole

end Text

/-! ## Levels of lines -/

def Nesting.level (n : Nesting) : Level := ⟨n.column, n.depth⟩

/-- The blanks that a line is indented with. A blank line is not indented. -/
def Text.indentOf (line : List Char) : List Char :=
  if line.all isBlank then [] else line.takeWhile isBlank

/-- The nesting of a line behind a line. -/
def Nesting.next (n : Nesting) (line : List Char) : Nesting :=
  if line.all isBlank then n
  else if Text.indentOf line = [] then {}
  else n.enter (Text.indentOf line)

theorem Nesting.level_next (n : Nesting) (line : List Char) :
    (n.next line).level = n.level.next line := by
  unfold Nesting.next Level.next Text.indentOf
  cases blank : line.all isBlank with
  | true => simp
  | false =>
    by_cases margin : line.takeWhile isBlank = []
    · simp [margin, Nesting.level]
    · simp only [Bool.false_eq_true, if_false, margin, List.length_eq_zero_iff]
      rfl

namespace Stretch

/-- How a line can start. -/
inductive Starts (nesting : Nesting) (text : List Char) : Stretch → Prop
  | blank (nothing : (Text.line text).all isBlank = true) :
      Starts nesting text
        { cells := [⟨.silent (text.takeWhile isBlank), nesting.depth⟩]
          place := { mode := .blank, nesting, rest := text.dropWhile isBlank } }
  | margin (mode : LineMode) (inside : (Text.line text).all isBlank = false)
      (margin : Text.indentOf (Text.line text) = []) :
      Starts nesting text { cells := [], place := { mode, rest := text } }
  | indented {indent : List Char} (inside : (Text.line text).all isBlank = false)
      (told : Text.indentOf (Text.line text) = indent) (indented : indent ≠ []) :
      Starts nesting text
        { cells := [⟨nesting.indentPiece indent, (nesting.enter indent).depth⟩]
          place :=
            { mode := .subsection, nesting := nesting.enter indent
              rest := text.dropWhile isBlank } }

theorem starts_lineStart (nesting : Nesting) (text : List Char) :
    Starts nesting text (lineStart nesting text) := by
  have blank : (Text.line text).all isBlank = Text.atLineEnd (text.dropWhile isBlank) := by
    rw [Bool.eq_iff_iff, ← Text.line_eq_nil_iff, ← Text.dropWhile_line, List.dropWhile_eq_nil_iff,
      List.all_eq_true]
  unfold lineStart LineMode.ofText
  cases ends : Text.atLineEnd (text.dropWhile isBlank) with
  | true => exact .blank (blank.trans ends)
  | false =>
    rw [ends] at blank
    have indent : Text.indentOf (Text.line text) = text.takeWhile isBlank := by
      simp [Text.indentOf, blank, Text.takeWhile_line]
    cases text with
    | nil => cases ends
    | cons c rest =>
      cases isIndented : isBlank c with
      | true => simpa [isIndented] using Starts.indented blank indent (by simp [isIndented])
      | false =>
        have margin : Text.indentOf (Text.line (c :: rest)) = [] := by simp [indent, isIndented]
        by_cases header : c = '@' ∨ c = '['
        · simpa [isIndented, header] using Starts.margin .header blank margin
        · simpa [isIndented, header] using Starts.margin .item blank margin

/-- At the start of a line, its nesting is taken over. -/
theorem nesting_lineStart (nesting : Nesting) (text : List Char) :
    (lineStart nesting text).place.nesting = nesting.next (Text.line text) := by
  have starts := starts_lineStart nesting text
  generalize lineStart nesting text = s at starts
  cases starts with
  | blank nothing => simp [Nesting.next, nothing]
  | margin mode inside margin => simp [Nesting.next, inside, margin]
  | indented inside told indented => simp [Nesting.next, inside, told, indented]

theorem behindLine_lineStart (nesting : Nesting) (text : List Char) :
    Text.behindLine (lineStart nesting text).place.rest = Text.behindLine text := by
  have starts := starts_lineStart nesting text
  generalize lineStart nesting text = s at starts
  cases starts with
  | blank | indented => exact Text.behindLine_dropWhile text
  | margin => rfl

end Stretch

/-- The level of a line, counted from the line that a place lies on. -/
def Place.levelOf (p : Place) (number : Nat) : Level :=
  ((Text.laterLines p.rest).take number).foldl Level.next p.nesting.level

/-- Cells have the depths of their lines, counted by the line feeds in front of them. -/
def Cell.Graded (depthOf : Nat → Nat) (number : Nat) : List Cell → Prop
  | [] => True
  | c :: cells =>
    c.depth = depthOf number ∧ Graded depthOf (number + c.piece.chars.count '\n') cells

namespace Cell

variable {depthOf : Nat → Nat} {number : Nat}

theorem graded_append {a b : List Cell} : Graded depthOf number (a ++ b) ↔
    Graded depthOf number a ∧ Graded depthOf (number + (source a).count '\n') b := by
  induction a generalizing number with
  | nil => simp [Graded]
  | cons c a ih => simp [Graded, ih, and_assoc, Nat.add_assoc]

theorem graded_shift (depthOf : Nat → Nat) {start : Nat} {cells : List Cell} :
    Graded (fun n => depthOf (start + n)) number cells ↔
      Graded depthOf (start + number) cells := by
  induction cells generalizing number with
  | nil => rfl
  | cons c cells ih => simp only [Graded, ih, Nat.add_assoc]

/-- Cells of one line have one depth. -/
theorem graded_of_line {cells : List Cell} (noFeed : '\n' ∉ source cells)
    (depth : ∀ c ∈ cells, c.depth = depthOf number) : Graded depthOf number cells := by
  induction cells with
  | nil => trivial
  | cons c cells ih =>
    obtain ⟨own, depth⟩ := List.forall_mem_cons.mp depth
    rw [source_cons, List.mem_append, not_or] at noFeed
    refine ⟨own, ?_⟩
    rw [List.count_eq_zero.mpr noFeed.1]
    exact ih noFeed.2 depth

end Cell

namespace Place

/-- Across a line break, the later lines are the next line and those behind it. -/
theorem laterLines_lineStart {p : Place} (found : Text.lineBreak (Text.behindLine p.rest) ≠ []) :
    let next := (Text.behindLine p.rest).drop (Text.lineBreak (Text.behindLine p.rest)).length
    Text.laterLines p.rest =
      Text.line next :: Text.laterLines (Stretch.lineStart p.nesting next).place.rest := by
  intro next
  rw [Text.laterLines_congr (Stretch.behindLine_lineStart p.nesting next),
    Text.laterLines_of_lineBreak found, Text.laterLines, Text.lines_eq, List.tail_cons]

/-- Across a line break, the levels are counted from the next line on. -/
theorem levelOf_lineStart {p : Place} (found : Text.lineBreak (Text.behindLine p.rest) ≠ [])
    (number : Nat) :
    (Stretch.lineStart p.nesting ((Text.behindLine p.rest).drop
      (Text.lineBreak (Text.behindLine p.rest)).length)).place.levelOf number =
        p.levelOf (1 + number) := by
  rw [levelOf, levelOf, laterLines_lineStart found, Stretch.nesting_lineStart, Nesting.level_next,
    Nat.add_comm, List.take_succ_cons, List.foldl_cons]

/-- A scan gives its cells the depths of their lines, and goes on at the line
that their line feeds lead to. -/
theorem scan_levels (p : Place) :
    Cell.Graded (fun number => (p.levelOf number).depth) 0 p.scan.cells ∧
      ∀ number, p.scan.place.levelOf number =
        p.levelOf ((source p.scan.cells).count '\n' + number) := by
  have noFeed := Text.lineFeed_notMem_line p.rest
  have scanned := p.scan_scanned
  generalize p.scan = s at scanned
  cases scanned with
  | within tail line rest nesting depth =>
    rw [line, List.mem_append, not_or] at noFeed
    refine ⟨Cell.graded_of_line noFeed.1 depth, ?_⟩
    intro number
    have later : Text.behindLine s.place.rest = Text.behindLine p.rest := by
      rw [rest]
      exact Text.behindLine_of_split line
    rw [List.count_eq_zero.mpr noFeed.1, Nat.zero_add, levelOf, levelOf, nesting,
      Text.laterLines_congr later]
  | @across cells piece tail line chars found depth =>
    rw [line, List.mem_append, not_or] at noFeed
    have next := levelOf_lineStart found
    generalize (Text.behindLine p.rest).drop _ = text at next ⊢
    have blanks : '\n' ∉ source (Stretch.lineStart p.nesting text).cells := by
      intro mem
      cases Stretch.lineStart_blanks p.nesting text '\n' mem
    have feeds : piece.chars.count '\n' = 1 := by
      rw [chars, List.count_append, List.count_eq_zero.mpr noFeed.2]
      rcases (Text.lineBreak_cases _).resolve_left found with feed | pair
      · rw [feed]
        rfl
      · rw [pair]
        rfl
    simp only [Stretch.cells_behind, Stretch.place_behind, Stretch.lineBreak]
    constructor
    · refine Cell.graded_append.mpr ⟨Cell.graded_of_line noFeed.1 depth, ?_⟩
      rw [List.count_eq_zero.mpr noFeed.1]
      refine ⟨rfl, ?_⟩
      dsimp only
      rw [feeds]
      apply Cell.graded_of_line blanks
      intro c hc
      rw [Stretch.depth_lineStart _ _ c hc, ← next 0]
      rfl
    · intro number
      rw [Cell.source_append, Cell.source_cons, List.count_append, List.count_append, feeds,
        List.count_eq_zero.mpr noFeed.1, List.count_eq_zero.mpr blanks]
      exact next number

/-- So does a whole layout. -/
theorem layout_levels (p : Place) :
    Cell.Graded (fun number => (p.levelOf number).depth) 0 p.layout.cells ∧
      ∀ number, p.layout.place.levelOf number =
        p.levelOf ((source p.layout.cells).count '\n' + number) := by
  fun_induction layout p with
  | case1 p ended => exact p.scan_levels
  | case2 p goesOn ih =>
    obtain ⟨graded, next⟩ := p.scan_levels
    obtain ⟨later, last⟩ := ih
    constructor
    · refine Cell.graded_append.mpr ⟨graded, ?_⟩
      simp only [next] at later
      rw [Nat.zero_add]
      exact (Cell.graded_shift fun number => (p.levelOf number).depth).mp later
    · intro number
      rw [Stretch.place_behind, last, next, Stretch.cells_behind, Cell.source_append,
        List.count_append, Nat.add_assoc]

end Place

/-- Every token has the depth of the line that it starts on, which follows from
how the lines up to it are indented. -/
theorem tokens_depth (text : List Char) (options : LexerOptions) :
    ∀ t ∈ (Lexer.ofText text options).tokens, ∃ before behind,
      text = before ++ behind ∧ Text.width before = t.span.start ∧
        t.depth = Text.depthOfLine text (before.count '\n') := by
  obtain ⟨graded, last⟩ := Place.layout_levels { rest := text }
  intro t ht
  rw [Lexer.tokens_ofText] at ht
  rcases List.mem_append.mp ht with ht | ht
  · obtain ⟨a, c, b, split, token⟩ := Cell.mem_tokens_iff.mp ht
    obtain ⟨span, depth⟩ := Cell.span_of_token? token
    have whole := Text.whole_layout split
    rw [List.append_assoc] at whole
    refine ⟨source a, _, whole, by simp [span], ?_⟩
    rw [Text.layout] at split
    rw [split, Cell.graded_append] at graded
    rw [depth, graded.2.1, Nat.zero_add]
    rfl
  · obtain rfl := List.mem_singleton.mp ht
    refine ⟨source (Text.layout text).cells, (Text.layout text).place.rest,
      (Text.source_layout text).symm, by simp [Span.empty], ?_⟩
    have level := last 0
    rw [Nat.add_zero] at level
    exact congrArg Level.depth level

/-- Behind an indented line that a string leaves open. -/
theorem tokens_depth_open :
    let text := ['a', '\n', ' ', '"', 'b', '\n', ' ', ' ', 'c']
    let value : Token := ⟨⟨8, 9⟩, 3, .value, .lhs, "c"⟩
    value ∈ (Lexer.ofText text {}).tokens ∧ ∃ before behind,
      text = before ++ behind ∧ Text.width before = 8 ∧
        3 = Text.depthOfLine text (before.count '\n') := by
  intro text value
  have mem : value ∈ (Lexer.ofText text {}).tokens := by
    rw [Lexer.tokens_ofText, Text.layout, Place.layout_of_goesOn (by decide),
      Place.layout_of_goesOn (by decide), Place.layout_of_goesOn (by decide),
      Place.layout_of_goesOn (by decide), Place.layout_of_ended (by decide)]
    decide +kernel
  exact ⟨mem, tokens_depth text {} value mem⟩

end RuleLexer
