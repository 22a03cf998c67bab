import RuleLexer.Proofs.BlankLines
import RuleLexer.Proofs.LineDepth
import RuleLexer.Proofs.LineGrammar
import RuleLexer.Proofs.SourceText

/-!
# Line by line

A text is laid out line by line: what is left of a line, its line break
included, and behind it the start of the next line. Only the start of a line
says something about its indentation.

* `Mark.IsIndentation`: what can be said about an indentation; no part of a line
  says it (`LineMode.plain_read`);
* `Place.steady_scan`: nor does a scan, until it takes a line break;
* `Place.byLine_layout`: a layout goes through the rest of the line, and on to the
  lines behind its line break;
* `Text.tokensOn`: the tokens that start on a line;
* `Place.plain_tokensOn`, `Place.tokensOn_laterLine`: what they are on the line of a
  place, and on the lines behind it.
-/

namespace RuleLexer

open Cell (source)
open Item (IsSide IsLiteral IsItem)

/-! ## What is said about indentation -/

/-- Accepted or rejected indentation. -/
def Mark.IsIndentation (m : Mark) : Prop := m.kind = .indent ∨ m.kind = .error ∧ m.context = .indent

theorem IsLead.plain {marks : List Mark} (h : IsLead marks) : ∀ m ∈ marks, ¬ m.IsIndentation := by
  cases h with
  | sign chars isSign =>
    simp only [List.mem_cons, List.not_mem_nil, or_false] at isSign
    rcases isSign with rfl | rfl | rfl | rfl | rfl | rfl <;> simp [Mark.IsIndentation]
  | error chars expected =>
    simp only [List.mem_cons, List.not_mem_nil, or_false] at expected
    rcases expected with rfl | rfl | rfl <;> simp [Mark.IsIndentation]
  | tag name entries =>
    refine List.forall_mem_cons.mpr ⟨by simp [Mark.IsIndentation], ?_⟩
    intro m hm
    cases entries m hm <;> simp [Mark.IsIndentation]

namespace Item

variable {side : Side} {m : Mark} {marks : List Mark}

theorem IsLiteral.plain (h : IsLiteral side m) : ¬ m.IsIndentation := by
  cases h with
  | literal d => cases d <;> simp [Delimiter.kind, Mark.IsIndentation]
  | badLabel => simp [Mark.IsIndentation]

theorem IsSide.plain (h : IsSide side marks) : ∀ m ∈ marks, ¬ m.IsIndentation := by
  cases h with
  | value => simp [Mark.IsIndentation]
  | literal isLiteral => simpa using isLiteral.plain
  | junk isLiteral => cases side <;> simpa [Mark.IsIndentation, Side.context] using isLiteral.plain

theorem IsItem.plain (h : IsItem marks) : ∀ m ∈ marks, ¬ m.IsIndentation := by
  have isArrow : ¬ arrow.IsIndentation := by simp [arrow, Mark.IsIndentation]
  have isOpen (d : Delimiter) (chars : List Char) :
      ¬ Mark.IsIndentation ⟨.error, d.kind, chars⟩ := by
    cases d <;> simp [Delimiter.kind, Mark.IsIndentation]
  cases h with
  | left isLeft => exact isLeft.plain
  | leftOpen d chars => simpa using isOpen d chars
  | rule isLeft isRight =>
    exact List.forall_mem_append.mpr
      ⟨isLeft.plain, List.forall_mem_cons.mpr ⟨isArrow, isRight.plain⟩⟩
  | ruleOpen isLeft d chars =>
    exact List.forall_mem_append.mpr ⟨isLeft.plain, by simpa using ⟨isArrow, isOpen d chars⟩⟩

end Item

/-- No part of a line says anything about indentation. -/
theorem LineMode.plain_read (mode : LineMode) {c : Char} (inside : isBlank c = false)
    (rest lineBreak : List Char) :
    ∀ m ∈ (mode.read (c :: rest)).marks lineBreak, ¬ m.IsIndentation := by
  rcases mode.marks_read inside rest lineBreak with isLead | ⟨isItem, -⟩
  · exact isLead.plain
  · exact isItem.plain

/-! ## Cells of a line -/

namespace Cell

/-- A cell that says nothing about indentation. -/
def Plain (c : Cell) : Prop := ∀ m, c.piece.mark = some m → ¬ m.IsIndentation

/-- Nothing is said about indentation in front of the first line feed. -/
def Steady : List Cell → Prop
  | [] => True
  | c :: cells => c.Plain ∧ ('\n' ∉ c.piece.chars → Steady cells)

theorem plain_silent (chars : List Char) (depth : Nat) : Plain ⟨.silent chars, depth⟩ := by
  rintro m ⟨⟩

theorem Steady.append {a b : List Cell} (plain : ∀ c ∈ a, c.Plain)
    (steady : '\n' ∉ source a → Steady b) : Steady (a ++ b) := by
  induction a with
  | nil => exact steady (by simp)
  | cons c a ih =>
    obtain ⟨own, plain⟩ := List.forall_mem_cons.mp plain
    refine ⟨own, fun noFeed => ih plain fun noMore => steady ?_⟩
    simp [noFeed, noMore]

theorem Steady.behind {a b : List Cell} (h : Steady (a ++ b)) (noFeed : '\n' ∉ source a) :
    (∀ c ∈ a, c.Plain) ∧ Steady b := by
  induction a with
  | nil => exact ⟨by simp, h⟩
  | cons c a ih =>
    rw [source_cons, List.mem_append, not_or] at noFeed
    obtain ⟨plain, steady⟩ := ih (h.2 noFeed.1) noFeed.2
    exact ⟨List.forall_mem_cons.mpr ⟨h.1, plain⟩, steady⟩

end Cell

theorem Stretch.steady_lineBreak {p : Piece} {nesting : Nesting} (text : List Char)
    (plain : Cell.Plain ⟨p, nesting.depth⟩) (feed : '\n' ∈ p.chars) :
    Cell.Steady (lineBreak nesting p text).cells :=
  ⟨plain, fun noFeed => absurd feed noFeed⟩

/-- What a part of a line says, its cells say. -/
theorem Stretch.steady_ofPart {p : Place} {part : LinePart}
    (plain : ∀ lineBreak, ∀ m ∈ part.marks lineBreak, ¬ m.IsIndentation) :
    Cell.Steady (ofPart p part).cells := by
  have pieces : ∀ c ∈ part.pieces.map (⟨·, p.nesting.depth⟩ : Piece → Cell), c.Plain := by
    intro c hc m marked
    obtain ⟨piece, mem, rfl⟩ := List.mem_map.mp hc
    exact plain [] m (List.mem_append_left _ (List.mem_filterMap.mpr ⟨piece, mem, marked⟩))
  have isOpen {context : TokenKind} {chars : List Char}
      (h : part.openLiteral = some (context, chars)) (lineBreak source : List Char) :
      Cell.Plain ⟨.valued .error context (chars ++ lineBreak) source, p.nesting.depth⟩ := by
    rintro m ⟨⟩
    exact plain lineBreak _ (by simp [LinePart.marks, h])
  unfold ofPart
  refine Cell.Steady.append pieces fun _ => ?_
  cases h : part.openLiteral with
  | none => trivial
  | some literal =>
    obtain ⟨context, chars⟩ := literal
    dsimp only
    split
    · have own := isOpen h [] chars
      rw [List.append_nil] at own
      exact ⟨own, fun _ => trivial⟩
    · rename_i found
      exact steady_lineBreak _ (isOpen h ['\n'] _)
        (List.mem_append_right _ (Text.lineFeed_mem_lineBreak found))

theorem Place.steady_scan (p : Place) : Cell.Steady p.scan.cells := by
  unfold Place.scan
  refine Cell.Steady.append (by simpa using Cell.plain_silent _ _) fun _ => ?_
  split
  · rename_i found
    refine Stretch.steady_lineBreak _ ?_ (Text.lineFeed_mem_lineBreak found)
    rintro m ⟨⟩
    simp [Mark.IsIndentation]
  · split
    · trivial
    · rename_i noEnd
      obtain ⟨c, rest, front, noBlank⟩ := Text.exists_line_dropWhile (by simpa using noEnd)
      apply Stretch.steady_ofPart
      rw [front]
      exact p.mode.plain_read noBlank rest

/-! ## Layouts, line by line -/

open Stretch (lineStart ofLines)

namespace Text

/-- The line at the head of a text, with its line break. -/
def taken (text : List Char) : List Char := line text ++ lineBreak (behindLine text)

/-- What lies behind a line and its line break. -/
def behindTaken (text : List Char) : List Char :=
  (behindLine text).drop (lineBreak (behindLine text)).length

end Text

/-- The start of the line behind the line at a place. -/
def Place.nextLine (p : Place) : Stretch := lineStart p.nesting (Text.behindTaken p.rest)

/-- How a layout goes through the line at a place. -/
inductive Place.ByLine (p : Place) : Stretch → Prop
  /-- The text ends with the line. -/
  | last {s : Stretch} (plain : ∀ c ∈ s.cells, c.Plain) (noFeed : '\n' ∉ source s.cells)
      (noBreak : Text.lineBreak (Text.behindLine p.rest) = []) : p.ByLine s
  /-- The line ends with a line break, and the lines behind it are laid out. -/
  | goesOn {own : List Cell} {feed : Cell} (plain : ∀ c ∈ own ++ [feed], c.Plain)
      (noFeed : '\n' ∉ source own) (covers : source (own ++ [feed]) = Text.taken p.rest)
      (found : Text.lineBreak (Text.behindLine p.rest) ≠ []) :
      p.ByLine (.behind (own ++ [feed]) (ofLines p.nesting (Text.behindTaken p.rest)))

/-- What stands in front, on the same line, is a part of the line. -/
theorem Place.ByLine.behind {p q : Place} {s : Stretch} {front : List Cell} (h : q.ByLine s)
    (line : Text.line p.rest = source front ++ Text.line q.rest)
    (later : Text.behindLine q.rest = Text.behindLine p.rest) (nesting : q.nesting = p.nesting)
    (plain : ∀ c ∈ front, c.Plain) : p.ByLine (s.behind front) := by
  have inFront : '\n' ∉ source front := by
    have noFeed := Text.lineFeed_notMem_line p.rest
    rw [line, List.mem_append, not_or] at noFeed
    exact noFeed.1
  cases h with
  | last more noFeed noBreak =>
    refine .last (List.forall_mem_append.mpr ⟨plain, more⟩) ?_ (later ▸ noBreak)
    simp [inFront, noFeed]
  | goesOn more noFeed covers found =>
    have taken : Text.taken p.rest = source front ++ Text.taken q.rest := by
      rw [Text.taken, Text.taken, line, later, List.append_assoc]
    have behind : Text.behindTaken q.rest = Text.behindTaken p.rest := by
      rw [Text.behindTaken, Text.behindTaken, later]
    rw [nesting, behind, Stretch.behind_behind, ← List.append_assoc]
    refine .goesOn ?_ ?_ ?_ (later ▸ found)
    · rw [List.append_assoc]
      exact List.forall_mem_append.mpr ⟨plain, more⟩
    · simp [inFront, noFeed]
    · rw [List.append_assoc, Cell.source_append, covers, taken]

theorem Place.byLine_layout (p : Place) : p.ByLine p.layout := by
  have noFeed := Text.lineFeed_notMem_line p.rest
  fun_induction layout p with
  | case1 p ended =>
    have steady := p.steady_scan
    have scanned := p.scan_scanned
    generalize p.scan = s at scanned ended steady
    cases scanned with
    | within tail line _ _ _ _ _ stops =>
      obtain ⟨rfl, noBreak⟩ := stops ended
      rw [List.append_nil] at line
      rw [line] at noFeed
      rw [← List.append_nil s.cells] at steady
      exact .last (steady.behind noFeed).1 noFeed noBreak
    | across =>
      rw [Stretch.ended_behind] at ended
      exact absurd ended (by simp [Stretch.lineBreak, Stretch.ended_lineStart])
  | case2 p goesOn ih =>
    have ih := ih (Text.lineFeed_notMem_line _)
    have steady := p.steady_scan
    have scanned := p.scan_scanned
    generalize p.scan = s at scanned ih steady
    cases scanned with
    | within tail line rest nesting =>
      rw [line, List.mem_append, not_or] at noFeed
      rw [← List.append_nil s.cells] at steady
      refine ih.behind ?_ ?_ nesting (steady.behind noFeed.1).1
      · rw [rest, Text.line_of_split line, line]
      · rw [rest, Text.behindLine_of_split line]
    | @across cells piece tail line chars found =>
      rw [line, List.mem_append, not_or] at noFeed
      obtain ⟨plain, own, -⟩ := Cell.Steady.behind steady noFeed.1
      have split (s : Stretch) :
          s.place.layout.behind (cells ++ ⟨piece, p.nesting.depth⟩ :: s.cells) =
            (s.place.layout.behind s.cells).behind (cells ++ [⟨piece, p.nesting.depth⟩]) := by
        rw [Stretch.behind_behind, List.append_assoc, List.singleton_append]
      refine (split _) ▸ .goesOn ?_ noFeed.1 ?_ found
      · exact List.forall_mem_append.mpr ⟨plain, by simpa using own⟩
      · simp [Text.taken, line, chars]

/-! ## Starts of lines -/

/-- The nesting in front of a later line, counted from the line behind a place. -/
def Place.nestingOf (p : Place) (number : Nat) : Nesting :=
  ((Text.laterLines p.rest).take number).foldl Nesting.next p.nesting

namespace Stretch

/-- Where a line starts, its indentation is told if it has one. -/
theorem tokens_cells_lineStart (nesting : Nesting) (text : List Char) (options : LexerOptions)
    (index : Nat) : Cell.tokens options index (lineStart nesting text).cells =
      if Text.indentOf (Text.line text) = [] then []
      else Cell.tokens options index [⟨nesting.indentPiece (Text.indentOf (Text.line text)),
        (nesting.next (Text.line text)).depth⟩] := by
  have starts := starts_lineStart nesting text
  generalize lineStart nesting text = s at starts
  cases starts with
  | blank nothing => simp [Text.indentOf, nothing, Cell.tokens, Cell.token?, Piece.silent]
  | margin mode inside margin => simp [margin]
  | indented inside told indented => simp [Nesting.next, inside, told, indented]

theorem lineFeed_notMem_lineStart (nesting : Nesting) (text : List Char) :
    '\n' ∉ source (lineStart nesting text).cells := by
  intro mem
  cases lineStart_blanks nesting text '\n' mem

end Stretch

/-! ## Tokens of lines -/

namespace Text

/-- The number of the line that an offset lies on, where the first line has the number 0. -/
def lineNumber (text : List Char) (offset : Nat) : Nat :=
  ((slice? text 0 offset).getD []).count '\n'

theorem lineNumber_width (a b : List Char) : lineNumber (a ++ b) (width a) = a.count '\n' := by
  rw [lineNumber, slice?_zero_width, Option.getD_some]

/-- The tokens that start on a line of a text. -/
def tokensOn (text : List Char) (options : LexerOptions) (number : Nat) : List Token :=
  (Lexer.ofText text options).tokens.filter (lineNumber text ·.span.start = number)

/-- A later line of a text starts behind `front`, and is at the head of `behind`. -/
structure LineAt (text : List Char) (number : Nat) (line front behind : List Char) : Prop where
  split : text = front ++ behind
  feed : front.getLast? = some '\n'
  count : front.count '\n' = number
  line_eq : Text.line behind = line

/-- What stands in front of the lines does not matter. -/
theorem LineAt.behind {text line front behind : List Char} {number : Nat}
    (h : LineAt text number line front behind) (before : List Char) :
    LineAt (before ++ text) (before.count '\n' + number) line (before ++ front) behind where
  split := by rw [h.split, List.append_assoc]
  feed := by rw [List.getLast?_append, h.feed, Option.some_or]
  count := by rw [List.count_append, h.count]
  line_eq := h.line_eq

theorem lineAt_one {text : List Char} (found : lineBreak (behindLine text) ≠ []) :
    LineAt text 1 (line (behindTaken text)) (taken text) (behindTaken text) where
  split := by
    rw [taken, behindTaken, List.append_assoc, lineBreak_append_drop, line_append_behindLine]
  feed := by
    rcases (lineBreak_cases _).resolve_left found with feed | pair
    · simp [taken, feed]
    · simp [taken, pair]
  count := by
    rw [taken, List.count_append, List.count_eq_zero.mpr (lineFeed_notMem_line text)]
    rcases (lineBreak_cases _).resolve_left found with feed | pair
    · simp [feed]
    · simp [pair]
  line_eq := rfl

end Text

section Tokens

variable {options : LexerOptions} {before rest : List Char} {t : Token}

/-- Tokens of a line start on the line, if no cell but the last takes a line feed. -/
theorem Cell.lineNumber_of_mem_tokens {cells : List Cell} (noFeed : '\n' ∉ source cells.dropLast)
    (h : t ∈ tokens options (Text.width before) cells) :
    Text.lineNumber (before ++ (source cells ++ rest)) t.span.start = before.count '\n' := by
  obtain ⟨a, c, b, rfl, token⟩ := mem_tokens_iff.mp h
  rw [List.dropLast_append_of_ne_nil (List.cons_ne_nil c b), source_append, List.mem_append,
    not_or] at noFeed
  have split : before ++ (source (a ++ c :: b) ++ rest) =
      (before ++ source a) ++ (source (c :: b) ++ rest) := by simp
  rw [(span_of_token? token).1, split, ← Text.width_append, Text.lineNumber_width,
    List.count_append, List.count_eq_zero.mpr noFeed.1, Nat.add_zero]

/-- Where a token of a stretch starts, the end-of-file token included. -/
theorem Stretch.start_of_mem_tokens {s : Stretch} {index : Nat} (h : t ∈ s.tokens options index) :
    ∃ a b, source s.cells = a ++ b ∧ t.span.start = index + Text.width a := by
  rcases List.mem_append.mp h with h | h
  · obtain ⟨a, c, b, split, token⟩ := Cell.mem_tokens_iff.mp h
    refine ⟨source a, source (c :: b), ?_, ?_⟩
    · rw [split, Cell.source_append]
    · rw [(Cell.span_of_token? token).1]
  · obtain rfl := List.mem_singleton.mp h
    exact ⟨source s.cells, [], (List.append_nil _).symm, rfl⟩

/-- A token of a stretch starts on the line of the stretch or behind it. -/
theorem Stretch.exists_lineNumber {s : Stretch} (rest : List Char)
    (h : t ∈ s.tokens options (Text.width before)) :
    ∃ a, a <+: source s.cells ∧
      Text.lineNumber (before ++ (source s.cells ++ rest)) t.span.start =
        before.count '\n' + a.count '\n' := by
  obtain ⟨a, b, split, start⟩ := start_of_mem_tokens h
  have whole : before ++ (source s.cells ++ rest) = (before ++ a) ++ (b ++ rest) := by simp [split]
  refine ⟨a, ⟨b, split.symm⟩, ?_⟩
  rw [start, whole, ← Text.width_append, Text.lineNumber_width, List.count_append]

/-- Cells that say nothing about indentation become tokens that do not. -/
theorem Cell.plain_of_mem_tokens {cells : List Cell} {index : Nat} (plain : ∀ c ∈ cells, c.Plain)
    (h : t ∈ tokens options index cells) : ¬ t.mark.IsIndentation := by
  obtain ⟨a, c, b, rfl, token⟩ := mem_tokens_iff.mp h
  obtain ⟨m, marked, -, rfl⟩ := token?_eq_some_iff.mp token
  have own := plain c (by simp) m marked
  simpa [Token.mark] using own

namespace Stretch

/-- The tokens of a stretch that start on a line, in a text that starts with `before`. -/
def tokensOn (options : LexerOptions) (before : List Char) (number : Nat) (s : Stretch) :
    List Token :=
  (s.tokens options (Text.width before)).filter
    (Text.lineNumber (before ++ (source s.cells ++ s.place.rest)) ·.span.start = number)

/-- Cells of a line have all of their tokens on the line. -/
theorem tokensOn_behind {cells : List Cell} (noFeed : '\n' ∉ source cells.dropLast)
    (number : Nat) (s : Stretch) : (s.behind cells).tokensOn options before number =
      (if before.count '\n' = number then Cell.tokens options (Text.width before) cells else []) ++
        s.tokensOn options (before ++ source cells) number := by
  have own (t) (ht : t ∈ Cell.tokens options (Text.width before) cells) :
      Text.lineNumber (before ++ (source cells ++ (source s.cells ++ s.place.rest)))
        t.span.start = before.count '\n' := Cell.lineNumber_of_mem_tokens noFeed ht
  unfold tokensOn
  rw [tokens_behind, List.filter_append, cells_behind, place_behind, Cell.source_append,
    Text.width_append, List.append_assoc, List.append_assoc]
  congr 1
  split
  · rename_i same
    apply List.filter_eq_self.mpr
    intro t ht
    simp [own t ht, same]
  · rename_i other
    apply List.filter_eq_nil_iff.mpr
    intro t ht
    simp [own t ht, other]

/-- No token starts on a line in front of the stretch. -/
theorem tokensOn_eq_nil {number : Nat} (inFront : number < before.count '\n') (s : Stretch) :
    s.tokensOn options before number = [] := by
  apply List.filter_eq_nil_iff.mpr
  intro t ht
  obtain ⟨a, -, lies⟩ := exists_lineNumber s.place.rest ht
  simp only [lies, decide_eq_true_eq]
  omega

/-- A stretch without line feeds has all of its tokens on its line. -/
theorem tokensOn_eq_nil_of_line {number : Nat} {s : Stretch} (noFeed : '\n' ∉ source s.cells)
    (other : number ≠ before.count '\n') : s.tokensOn options before number = [] := by
  apply List.filter_eq_nil_iff.mpr
  intro t ht
  obtain ⟨a, isFirst, lies⟩ := exists_lineNumber s.place.rest ht
  have noFeed : '\n' ∉ a := fun mem => noFeed (isFirst.subset mem)
  rw [List.count_eq_zero.mpr noFeed] at lies
  simpa [lies] using other.symm

end Stretch

namespace Place

variable {p : Place}

/-- Where no line break is left, there are no later lines. -/
theorem laterLines_eq_nil (noBreak : Text.lineBreak (Text.behindLine p.rest) = []) :
    Text.laterLines p.rest = [] := by
  rw [Text.laterLines, Text.lines_eq, if_pos noBreak, List.tail_cons]

section NextLine

variable (found : Text.lineBreak (Text.behindLine p.rest) ≠ [])

include found

theorem laterLines_cons : Text.laterLines p.rest =
    Text.line (Text.behindTaken p.rest) :: Text.laterLines p.nextLine.place.rest :=
  laterLines_lineStart found

theorem nestingOf_succ (number : Nat) :
    p.nestingOf (number + 1) = p.nextLine.place.nestingOf number := by
  rw [nestingOf, nestingOf, laterLines_cons found, List.take_succ_cons, List.foldl_cons, nextLine,
    Stretch.nesting_lineStart]

theorem count_nextLine (before : List Char) :
    (before ++ Text.taken p.rest ++ source p.nextLine.cells).count '\n' =
      before.count '\n' + 1 := by
  have blanks := Stretch.lineFeed_notMem_lineStart p.nesting (Text.behindTaken p.rest)
  rw [List.count_append, List.count_append, (Text.lineAt_one found).count, nextLine,
    List.count_eq_zero.mpr blanks]

/-- A later line, seen from the start of the next line, and from the place. -/
theorem lineAt_nextLine {number : Nat} {line front behind : List Char}
    (h : Text.LineAt p.nextLine.place.rest number line front behind) :
    Text.LineAt p.rest (number + 1) line
      (Text.taken p.rest ++ source p.nextLine.cells ++ front) behind := by
  have covers := Stretch.source_lineStart p.nesting (Text.behindTaken p.rest)
  have lineAt := h.behind (Text.taken p.rest ++ source p.nextLine.cells)
  have counted := count_nextLine found []
  rw [List.nil_append, List.count_nil, Nat.zero_add] at counted
  rwa [counted, Nat.add_comm, List.append_assoc, nextLine, covers,
    ← (Text.lineAt_one found).split] at lineAt

/-- Behind the line of a place, the tokens of the next line and of the lines behind it. -/
theorem tokensOn_layout (options : LexerOptions) (before : List Char) {number : Nat}
    (later : before.count '\n' < number) : p.layout.tokensOn options before number =
      (if before.count '\n' + 1 = number then
        Cell.tokens options (Text.width before + Text.width (Text.taken p.rest)) p.nextLine.cells
      else []) ++
        p.nextLine.place.layout.tokensOn options
          (before ++ Text.taken p.rest ++ source p.nextLine.cells) number := by
  have blanks : '\n' ∉ source p.nextLine.cells.dropLast := by
    intro mem
    obtain ⟨c, hc, mem⟩ := Cell.exists_of_mem_source mem
    exact Stretch.lineFeed_notMem_lineStart _ _ (Cell.mem_source (List.dropLast_subset _ hc) mem)
  have byLine := p.byLine_layout
  generalize p.layout = s at byLine
  cases byLine with
  | last plain noFeed noBreak => exact absurd noBreak found
  | @goesOn own feed plain noFeed covers found =>
    rw [Stretch.tokensOn_behind (by rwa [List.dropLast_concat]), if_neg later.ne, List.nil_append,
      covers, ofLines, ← nextLine, Stretch.tokensOn_behind blanks, Text.width_append,
      List.count_append, (Text.lineAt_one found).count]

end NextLine

/-- Where no line break is left, there are no tokens on later lines. -/
theorem tokensOn_layout_last (noBreak : Text.lineBreak (Text.behindLine p.rest) = [])
    (options : LexerOptions) {before : List Char} {number : Nat}
    (later : before.count '\n' < number) : p.layout.tokensOn options before number = [] := by
  have byLine := p.byLine_layout
  generalize p.layout = s at byLine
  cases byLine with
  | last plain noFeed => exact Stretch.tokensOn_eq_nil_of_line noFeed later.ne'
  | goesOn _ _ _ found => exact absurd noBreak found

/-- The tokens on the line of a place say nothing about indentation. -/
theorem plain_tokensOn (p : Place) (options : LexerOptions) (before : List Char) :
    ∀ t ∈ p.layout.tokensOn options before (before.count '\n'), ¬ t.mark.IsIndentation := by
  have byLine := p.byLine_layout
  generalize p.layout = s at byLine
  intro t ht
  cases byLine with
  | last plain =>
    rcases List.mem_append.mp (List.mem_filter.mp ht).1 with ht | ht
    · exact Cell.plain_of_mem_tokens plain ht
    · obtain rfl := List.mem_singleton.mp ht
      simp [Token.mark, Mark.IsIndentation]
  | @goesOn own feed plain noFeed covers found =>
    have later : before.count '\n' < (before ++ source (own ++ [feed])).count '\n' := by
      rw [covers, List.count_append, (Text.lineAt_one found).count]
      omega
    rw [Stretch.tokensOn_behind (by rwa [List.dropLast_concat]), if_pos rfl,
      Stretch.tokensOn_eq_nil later, List.append_nil] at ht
    exact Cell.plain_of_mem_tokens plain ht

/-- The tokens on a later line: what the start of the line tells about its
indentation, and others that say nothing about it. -/
theorem tokensOn_laterLine (p : Place) (options : LexerOptions) (before : List Char)
    (number : Nat) :
    match (Text.laterLines p.rest)[number]? with
    | none => p.layout.tokensOn options before (before.count '\n' + (number + 1)) = []
    | some line => ∃ front behind others, Text.LineAt p.rest (number + 1) line front behind ∧
        (∀ t ∈ others, ¬ t.mark.IsIndentation) ∧
        p.layout.tokensOn options before (before.count '\n' + (number + 1)) =
          Cell.tokens options (Text.width before + Text.width front)
            (lineStart (p.nestingOf number) behind).cells ++ others := by
  have later : before.count '\n' < before.count '\n' + (number + 1) := by omega
  by_cases found : Text.lineBreak (Text.behindLine p.rest) = []
  · rw [laterLines_eq_nil found, List.getElem?_nil]
    exact tokensOn_layout_last found options later
  have counted := count_nextLine found before
  rw [laterLines_cons found, tokensOn_layout found options before later]
  -- one line break is crossed, then the rest is said from the start of the next line
  cases number with
  | zero =>
    have plain := plain_tokensOn p.nextLine.place options
      (before ++ Text.taken p.rest ++ source p.nextLine.cells)
    rw [counted] at plain
    rw [List.getElem?_cons_zero, if_pos rfl]
    exact ⟨_, _, _, Text.lineAt_one found, plain, rfl⟩
  | succ number =>
    have deeper := tokensOn_laterLine p.nextLine.place options
      (before ++ Text.taken p.rest ++ source p.nextLine.cells) number
    rw [counted, Nat.add_right_comm, Nat.add_assoc] at deeper
    rw [List.getElem?_cons_succ, if_neg (by omega), List.nil_append]
    cases h : (Text.laterLines p.nextLine.place.rest)[number]? with
    | none =>
      rw [h] at deeper
      exact deeper
    | some line =>
      rw [h] at deeper
      obtain ⟨front, behind, others, lineAt, plain, tokens⟩ := deeper
      refine ⟨_, behind, others, lineAt_nextLine found lineAt, plain, ?_⟩
      rw [tokens, nestingOf_succ found]
      simp only [Text.width_append, Nat.add_assoc]

end Place

end Tokens

end RuleLexer
