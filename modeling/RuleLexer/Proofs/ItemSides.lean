import RuleLexer.Proofs.PartScan
import RuleLexer.Proofs.WrittenLines

/-!
# Sides of an item

How an item is split into its sides, whatever they hold, said without reading it.

* `Item.Side.Stops`: where a side stops;
* `Item.Side.Yields`, `Item.Yields`: which tokens a side and an item have;
* `Item.exists_yields`, `Item.Yields.read`: every line has the tokens of an item,
  and they are what reading it gives;
* `scan_itemLine`: a scan queues the tokens of the item in front of the lexer.
-/

namespace RuleLexer

namespace Item

/-! ## What a side is -/

/-- A side stops at the end of the line, and the left side at the first arrow. -/
inductive Side.Stops : Side → List Char → List Char → Prop
  | arrow {text : List Char} (noArrow : ¬ ['-', '>'] <:+: text) (behind : List Char) :
      Stops .left text ('-' :: '>' :: behind)
  | lineEnd {side : Side} {text : List Char} (noArrow : side = .left → ¬ ['-', '>'] <:+: text) :
      Stops side text []

/-- A text and the blanks behind it, up to where a side stops. -/
structure Side.Plain (side : Side) (text blanks rest : List Char) : Prop where
  last : ∀ c ∈ text.getLast?, isBlank c = false
  blank : ∀ c ∈ blanks, isBlank c = true
  stops : side.Stops (text ++ blanks) rest

/-- What a closed literal on a side says. -/
def Side.literalMark (side : Side) (d : Delimiter) (body : List Char) : Mark :=
  if d = .bracket ∧ ¬ body.all isLabelChar then ⟨.error, .label, Literal.written d body⟩
  else ⟨d.kind, side.context, body⟩

/-- The tokens of a closed side at an offset, with the rest of the line. A side
is plain text, or a literal behind which no other text has a place. -/
inductive Side.Yields (side : Side) (depth start : Nat) :
    List Char → List Char → List Token → Prop
  | value (text blanks : List Char) {rest : List Char} (plain : side.Plain text blanks rest)
      (noLiteral : ∀ d : Delimiter, (text ++ blanks ++ rest).head? ≠ some d.opener) :
      Yields side depth start (text ++ blanks) rest
        [Mark.token ⟨.value, side.context, text⟩ depth start text]
  | literal (d : Delimiter) (body blanks : List Char) {rest : List Char}
      (apart : (blanks ++ rest).head? ≠ some d.closer) (blank : ∀ c ∈ blanks, isBlank c = true)
      (stops : side.Stops [] rest) :
      Yields side depth start (Literal.written d body ++ blanks) rest
        [(side.literalMark d body).token depth start (Literal.written d body)]
  | junk (d : Delimiter) (body gap text blanks : List Char) {rest : List Char}
      (apart : (gap ++ text ++ blanks ++ rest).head? ≠ some d.closer)
      (blank : ∀ c ∈ gap, isBlank c = true) (nonempty : text ≠ [])
      (first : ∀ c ∈ text.head?, isBlank c = false) (plain : side.Plain text blanks rest) :
      Yields side depth start (Literal.written d body ++ gap ++ text ++ blanks) rest
        [(side.literalMark d body).token depth start (Literal.written d body),
          Mark.token ⟨.error, side.context, text⟩ depth
            (start + Text.width (Literal.written d body ++ gap)) text]

/-- A literal that the line leaves open, with the line break behind the line. -/
def openToken (depth start : Nat) (d : Delimiter) (taken : List Char) : Token :=
  Mark.token ⟨.error, d.kind, Text.foldEnd taken⟩ depth start taken

def arrowToken (depth start : Nat) : Token :=
  Mark.token ⟨.operator, .none, ['-', '>']⟩ depth start ['-', '>']

/-- The tokens of an item at an offset, and whether it ends in a literal that
the line leaves open. Such a literal takes the line break too. -/
inductive Yields (depth start : Nat) (lineBreak : List Char) :
    Bool → List Char → List Token → Prop
  | left {line : List Char} {tokens : List Token}
      (left : Side.left.Yields depth start line [] tokens) :
      Yields depth start lineBreak false line tokens
  | leftOpen (d : Delimiter) (behind : List Char)
      (isOpen : Literal.StaysOpen d.closer behind) :
      Yields depth start lineBreak true (d.opener :: behind)
        [openToken depth start d (d.opener :: behind ++ lineBreak)]
  | rule (text gap behind : List Char) {left right : List Token}
      (isLeft : Side.left.Yields depth start text ('-' :: '>' :: gap ++ behind) left)
      (blank : ∀ c ∈ gap, isBlank c = true) (first : ∀ c ∈ behind.head?, isBlank c = false)
      (isRight : Side.right.Yields depth (start + Text.width (text ++ '-' :: '>' :: gap)) behind []
        right) :
      Yields depth start lineBreak false (text ++ '-' :: '>' :: gap ++ behind)
        (left ++ arrowToken depth (start + Text.width text) :: right)
  | ruleOpen (text gap : List Char) (d : Delimiter) (behind : List Char) {left : List Token}
      (isLeft : Side.left.Yields depth start text ('-' :: '>' :: gap ++ d.opener :: behind) left)
      (blank : ∀ c ∈ gap, isBlank c = true)
      (isOpen : Literal.StaysOpen d.closer behind) :
      Yields depth start lineBreak true (text ++ '-' :: '>' :: gap ++ d.opener :: behind)
        (left ++ [arrowToken depth (start + Text.width text),
          openToken depth (start + Text.width (text ++ '-' :: '>' :: gap)) d
            (d.opener :: behind ++ lineBreak)])

variable {side : Side} {depth start : Nat} {line text blanks rest behind lineBreak : List Char}
  {tokens : List Token}

/-! ## Cutting -/

theorem Side.Stops.cut (h : side.Stops text rest) : side.cut (text ++ rest) = (text, rest) := by
  cases h with
  | arrow noArrow behind =>
    have stop : cutAtArrow ('-' :: '>' :: behind) = ([], '-' :: '>' :: behind) := rfl
    rw [Side.cut, cutAtArrow_append noArrow (by simp), stop, List.append_nil]
  | lineEnd noArrow =>
    cases side with
    | left =>
      have noMore : ([] : List Char).head? ≠ some '>' := by simp
      rw [Side.cut, cutAtArrow_append (noArrow rfl) noMore, cutAtArrow, List.append_nil]
    | right => simp [Side.cut]

theorem Side.stops_cut (side : Side) (line : List Char) :
    side.Stops (side.cut line).1 (side.cut line).2 := by
  cases side with
  | right => exact .lineEnd nofun
  | left =>
    have noArrow := arrow_notInfix_cutAtArrow line
    dsimp only [Side.cut]
    rcases cutAtArrow_snd line with atEnd | ⟨behind, atArrow⟩
    · rw [atEnd]
      exact .lineEnd fun _ => noArrow
    · rw [atArrow]
      exact .arrow noArrow behind

theorem Side.exists_plain (side : Side) (line : List Char) :
    ∃ text blanks rest, line = text ++ blanks ++ rest ∧ side.Plain text blanks rest := by
  have whole := append_cut side line
  have stops := side.stops_cut line
  rw [← trimmed_append_trailing (side.cut line).1] at whole stops
  refine ⟨_, _, _, whole.symm, ?_, ?_, stops⟩
  · intro c last
    rw [trimmed, List.getLast?_reverse] at last
    exact Text.isBlank_of_head?_dropWhile last
  · intro c mem
    exact Text.isBlank_of_mem_takeWhile (List.mem_reverse.mp mem)

theorem exists_gap (text : List Char) :
    ∃ gap more, text = gap ++ more ∧ (∀ c ∈ gap, isBlank c = true) ∧
      ∀ c ∈ more.head?, isBlank c = false :=
  ⟨text.takeWhile isBlank, text.dropWhile isBlank, List.takeWhile_append_dropWhile.symm,
    fun _ => Text.isBlank_of_mem_takeWhile, fun _ => Text.isBlank_of_head?_dropWhile⟩

theorem Side.Plain.cut (h : side.Plain text blanks rest) :
    side.cut (text ++ blanks ++ rest) = (text ++ blanks, rest) ∧
      trimmed (text ++ blanks) = text ∧ trailing (text ++ blanks) = blanks :=
  ⟨h.stops.cut, trimmed_append h.blank h.last⟩

theorem literalPiece_eq (side : Side) (l : Literal) :
    literalPiece side l = ⟨l.chars, some (side.literalMark l.delimiter l.body)⟩ := by
  unfold literalPiece Side.literalMark
  split <;> rfl

/-! ## Every item has tokens -/

theorem bind_ofOpener?_eq_none_iff :
    line.head?.bind Delimiter.ofOpener? = none ↔ ∀ d : Delimiter, line.head? ≠ some d.opener := by
  constructor
  · intro none d head
    rw [head] at none
    have opens := Delimiter.ofOpener?_eq_some_iff.mpr (rfl : d.opener = d.opener)
    cases none.symm.trans opens
  · intro other
    cases head : line.head? with
    | none => rfl
    | some c =>
      cases opens : Delimiter.ofOpener? c with
      | none => exact opens
      | some d =>
        rw [Delimiter.ofOpener?_eq_some_iff.mp opens] at head
        exact absurd head (other d)

/-- A closed literal has no other text behind it, or some junk. -/
theorem Side.exists_yields_literal (side : Side) (depth start : Nat) (d : Delimiter)
    (body : List Char) (apart : behind.head? ≠ some d.closer) :
    ∃ text rest tokens, Literal.written d body ++ behind = text ++ rest ∧
      side.Yields depth start text rest tokens := by
  obtain ⟨gap, more, rfl, blank, first⟩ := exists_gap behind
  obtain ⟨text, blanks, rest, rfl, plain⟩ := side.exists_plain more
  by_cases empty : text = []
  · subst empty
    have noBlanks : blanks = [] := by
      cases blanks with
      | nil => rfl
      | cons c blanks =>
        have own := plain.blank c List.mem_cons_self
        rw [first c rfl] at own
        cases own
    subst noBlanks
    exact ⟨_, rest, _, by simp, .literal d body gap apart blank plain.stops⟩
  · have begins : ∀ c ∈ text.head?, isBlank c = false := by
      intro c head
      exact first c (by rw [List.head?_append, List.head?_append, head]; rfl)
    have apart : (gap ++ text ++ blanks ++ rest).head? ≠ some d.closer := by simpa using apart
    exact ⟨_, rest, _, by simp, .junk d body gap text blanks apart blank empty begins plain⟩

/-- A side is closed, or it is a literal that the line leaves open. -/
theorem Side.exists_yields (side : Side) (depth start : Nat) (line : List Char) :
    (∃ text rest tokens, line = text ++ rest ∧ side.Yields depth start text rest tokens) ∨
      ∃ (d : Delimiter) (behind : List Char), line = d.opener :: behind ∧
        Literal.StaysOpen d.closer behind := by
  by_cases noLiteral : ∀ d : Delimiter, line.head? ≠ some d.opener
  · obtain ⟨text, blanks, rest, rfl, plain⟩ := side.exists_plain line
    exact .inl ⟨_, _, _, rfl, .value text blanks plain noLiteral⟩
  · obtain ⟨d, isOpener⟩ := Classical.not_forall_not.mp noLiteral
    obtain ⟨behind, rfl⟩ := List.head?_eq_some_iff.mp isOpener
    cases read : Literal.read d behind with
    | unclosed => exact .inr ⟨d, behind, rfl, (Literal.read_eq_unclosed_iff.mp read).1⟩
    | closed l rest =>
      have apart := Literal.apart_of_read read
      rw [← Literal.chars_append_of_read read]
      obtain ⟨rfl, -⟩ := Literal.read_eq_closed_iff.mp read
      exact .inl (side.exists_yields_literal depth start l.delimiter l.body apart)

theorem Side.Stops.rest_cases (h : side.Stops text rest) :
    rest = [] ∨ side = .left ∧ ∃ behind, rest = '-' :: '>' :: behind := by
  cases h with
  | arrow noArrow behind => exact .inr ⟨rfl, behind, rfl⟩
  | lineEnd => exact .inl rfl

theorem Side.Yields.rest_cases (h : side.Yields depth start text rest tokens) :
    rest = [] ∨ side = .left ∧ ∃ behind, rest = '-' :: '>' :: behind := by
  cases h with
  | value text blanks plain => exact plain.stops.rest_cases
  | literal d body blanks apart blank stops => exact stops.rest_cases
  | junk d body gap text blanks apart blank nonempty first plain =>
    exact plain.stops.rest_cases

/-- Every line has the tokens of an item. -/
theorem exists_yields (depth start : Nat) (lineBreak line : List Char) :
    ∃ isOpen tokens, Yields depth start lineBreak isOpen line tokens := by
  rcases Side.left.exists_yields depth start line with
    ⟨text, rest, left, rfl, isLeft⟩ | ⟨d, behind, rfl, isOpen⟩
  · rcases isLeft.rest_cases with rfl | ⟨-, behind, rfl⟩
    · exact ⟨_, _, .left (by rwa [List.append_nil])⟩
    · obtain ⟨gap, more, rfl, blank, first⟩ := exists_gap behind
      rw [show text ++ '-' :: '>' :: (gap ++ more) = text ++ '-' :: '>' :: gap ++ more by simp]
      rcases Side.right.exists_yields depth (start + Text.width (text ++ '-' :: '>' :: gap)) more
        with ⟨taken, rest, right, rfl, isRight⟩ | ⟨d, behind, rfl, isOpen⟩
      · have atEnd : rest = [] := by simpa using isRight.rest_cases
        subst atEnd
        rw [List.append_nil] at isLeft first ⊢
        exact ⟨_, _, .rule text gap taken isLeft blank first isRight⟩
      · exact ⟨_, _, .ruleOpen text gap d behind isLeft blank isOpen⟩
  · exact ⟨_, _, .leftOpen d behind isOpen⟩

/-! ## They are what is read -/

theorem takeWhile_gap {gap more : List Char} (blank : ∀ c ∈ gap, isBlank c = true)
    (first : ∀ c ∈ more.head?, isBlank c = false) :
    (gap ++ more).takeWhile isBlank = gap ∧ (gap ++ more).dropWhile isBlank = more := by
  rw [List.takeWhile_append_of_pos blank, List.dropWhile_append_of_pos blank]
  cases more with
  | nil => simp
  | cons c more =>
    have own := first c rfl
    simp [own]

theorem Side.Yields.readSide (h : side.Yields depth start text rest tokens) :
    ∃ pieces, Item.readSide side (text ++ rest) = ({ pieces }, rest) ∧
      Piece.tokens depth start pieces = tokens := by
  cases h with
  | value text blanks plain noLiteral =>
    obtain ⟨cut, trimmed, trailing⟩ := plain.cut
    refine ⟨[.raw .value side.context text, .silent blanks], ?_, rfl⟩
    simp only [Item.readSide, bind_ofOpener?_eq_none_iff.mpr noLiteral, cut, trimmed, trailing]
  | literal d body blanks apart blank stops =>
    have first : ∀ c ∈ rest.head?, isBlank c = false := by
      rcases stops.rest_cases with rfl | ⟨-, behind, rfl⟩
      · rintro c ⟨⟩
      · rintro c ⟨⟩
        rfl
    have cut := stops.cut
    rw [List.nil_append] at cut
    refine ⟨[literalPiece side ⟨d, body⟩, .silent blanks, .silent []], ?_, ?_⟩
    · rw [List.append_assoc, readSide_written side d body apart, (takeWhile_gap blank first).1,
        (takeWhile_gap blank first).2, cut]
      rfl
    · rw [literalPiece_eq]
      rfl
  | junk d body gap text blanks apart blank nonempty first plain =>
    obtain ⟨cut, trimmed, trailing⟩ := plain.cut
    have begins : ∀ c ∈ (text ++ blanks ++ rest).head?, isBlank c = false := by
      obtain ⟨c, more, rfl⟩ := List.exists_cons_of_ne_nil nonempty
      exact first
    have line : Literal.written d body ++ gap ++ text ++ blanks ++ rest =
        Literal.written d body ++ (gap ++ (text ++ blanks ++ rest)) := by simp
    have junk : junkPieces side (text ++ blanks) =
        [.raw .error side.context text, .silent blanks] := by
      rw [junkPieces, trimmed, trailing, if_neg nonempty]
    refine ⟨[literalPiece side ⟨d, body⟩, .silent gap, .raw .error side.context text,
      .silent blanks], ?_, ?_⟩
    · rw [line, readSide_written side d body (by simpa using apart), (takeWhile_gap blank begins).1,
        (takeWhile_gap blank begins).2, cut, junk]
    · rw [literalPiece_eq]
      simp [Literal.chars, Nat.add_assoc]

theorem source_of_readSide {pieces : List Piece}
    (read : readSide side (text ++ rest) = ({ pieces }, rest)) : Piece.source pieces = text := by
  have whole := source_readSide side (text ++ rest)
  rw [read] at whole
  simpa [LinePart.source] using List.append_cancel_right whole

theorem readSide_open (side : Side) {d : Delimiter}
    (isOpen : Literal.StaysOpen d.closer behind) :
    readSide side (d.opener :: behind) =
      ({ pieces := [], openLiteral := some (d.kind, d.opener :: behind) }, []) := by
  have opens : Delimiter.ofOpener? d.opener = some d := Delimiter.ofOpener?_eq_some_iff.mpr rfl
  simp [readSide, opens, Literal.read_of_staysOpen isOpen]

/-- An item with an arrow is read side by side. -/
theorem read_arrow {gap : List Char} {pieces : List Piece}
    (left : readSide .left (text ++ '-' :: '>' :: gap ++ behind) =
      ({ pieces }, '-' :: '>' :: gap ++ behind))
    (blank : ∀ c ∈ gap, isBlank c = true) (first : ∀ c ∈ behind.head?, isBlank c = false) :
    read (text ++ '-' :: '>' :: gap ++ behind) =
      { (readSide .right behind).1 with
        pieces := pieces ++ .raw .operator .none ['-', '>'] :: .silent gap ::
          (readSide .right behind).1.pieces } := by
  simp only [read, left, List.cons_append, takeWhile_gap blank first]

/-- An item is read as its tokens. -/
theorem Yields.read {isOpen : Bool} (h : Yields depth start lineBreak isOpen line tokens) :
    (Item.read line).openLiteral.isSome = isOpen ∧
      (Item.read line).tokens depth start lineBreak = tokens := by
  cases h with
  | left isLeft =>
    obtain ⟨pieces, read, rfl⟩ := isLeft.readSide
    rw [List.append_nil] at read
    simp [Item.read, read, LinePart.tokens]
  | leftOpen d behind isOpen =>
    simp [Item.read, readSide_open .left isOpen, LinePart.tokens, openToken]
  | rule text gap behind isLeft blank first isRight =>
    obtain ⟨pieces, read, rfl⟩ := isLeft.readSide
    obtain ⟨more, readRight, rfl⟩ := isRight.readSide
    have source := source_of_readSide read
    rw [← List.append_assoc] at read
    rw [List.append_nil] at readRight
    rw [read_arrow read blank first, readRight]
    simp [LinePart.tokens, Piece.tokens_append, source, arrowToken, Nat.add_assoc]
  | ruleOpen text gap d behind isLeft blank isOpen =>
    obtain ⟨pieces, read, rfl⟩ := isLeft.readSide
    have source := source_of_readSide read
    have first : ∀ c ∈ (d.opener :: behind).head?, isBlank c = false := by
      rintro c ⟨⟩
      cases d <;> rfl
    rw [← List.append_assoc] at read
    rw [read_arrow read blank first, readSide_open .right isOpen]
    simp [LinePart.tokens, Piece.tokens_append, source, arrowToken, openToken, Nat.add_assoc]

end Item

namespace Lexer

variable {L : Lexer}

/-- In front of an item, the rest of the line is read as one. -/
theorem scan_item {c : Char} {rest : List Char} (front : L.scanner.rest = c :: rest)
    (solid : isBlank c = false) (inside : Text.atLineEnd (c :: rest) = false)
    (starts : L.mode = .header → c ∉ ['@', '[', '(', ')', ',']) :
    L.scan = L.takePart (Item.read (Text.line L.scanner.rest)) ∧
      ∀ m ∈ Piece.marks (Item.read (Text.line L.scanner.rest)).pieces, m.kind.isTrivia = false := by
  have line : Text.line (c :: rest) = c :: Text.line rest := by simp [Text.line, inside]
  have read : L.mode.read (c :: Text.line rest) = Item.read (c :: Text.line rest) := by
    cases mode : L.mode with
    | subsection | item | blank => rfl
    | header =>
      have other := starts mode
      simp only [List.mem_cons, List.not_mem_nil, or_false, not_or] at other
      simp [LineMode.read, LineMode.readHeader, LineMode.punctuation?, other]
  have visible := L.mode.visible_read solid (Text.line rest) []
  rw [read] at visible
  rw [scan_front front solid inside, front, line, read]
  exact ⟨rfl, fun m mem => visible m (List.mem_append_left _ mem)⟩

end Lexer

/-- A scan in front of an item queues the tokens of the item, which its line
alone decides. If the line leaves a literal open, the indentation of the next
line may follow. -/
theorem scan_itemLine (L : Lexer) {c : Char} {rest : List Char}
    (front : L.scanner.rest = c :: rest) (solid : isBlank c = false)
    (inside : Text.atLineEnd (c :: rest) = false)
    (starts : L.mode = .header → c ∉ ['@', '[', '(', ')', ',']) :
    let line := Text.line L.scanner.rest
    let lineBreak := Text.lineBreak (Text.behindLine L.scanner.rest)
    ∃ isOpen tokens indentation,
      Item.Yields L.depth L.scanner.index lineBreak isOpen line tokens ∧
      (∀ isOpen' tokens', Item.Yields L.depth L.scanner.index lineBreak isOpen' line tokens' →
        isOpen' = isOpen ∧ tokens' = tokens) ∧
      L.scan.queue = L.queue ++ tokens ++ indentation ∧
      (isOpen = false → L.Took line tokens L.scan) ∧
      indentation.length ≤ 1 ∧
      ∀ t ∈ indentation, isOpen = true ∧ lineBreak ≠ [] ∧
        (t.kind = .indent ∨ (t.kind = .error ∧ t.context = .indent)) := by
  intro line lineBreak
  obtain ⟨scan, visible⟩ := Lexer.scan_item front solid inside starts
  have all := Item.source_read line
  obtain ⟨isOpen, tokens, yields⟩ := Item.exists_yields L.depth L.scanner.index lineBreak line
  obtain ⟨indentation, queue, took, short, kinds⟩ :=
    Lexer.queue_takePart_line _ visible (Item.itemFollows_read line) all
  obtain ⟨isSome, same⟩ := yields.read
  rw [← scan, same] at queue took
  rw [all] at took
  rw [isSome] at kinds
  refine ⟨isOpen, tokens, indentation, yields, ?_, queue, ?_, short, kinds⟩
  · intro isOpen' tokens' yields'
    exact ⟨yields'.read.1.symm.trans isSome, yields'.read.2.symm.trans same⟩
  · intro closed
    rw [closed] at isSome
    exact took (by simpa using isSome)

/-- Junk behind a literal, and brackets around what is no label. -/
theorem scan_itemLine_junk :
    let L := Lexer.ofText "/a/ b -> [c-d]".toList {}
    L.mode = .header ∧ L.scan.queue =
      [⟨⟨0, 3⟩, 1, .regex, .lhs, "a"⟩, ⟨⟨4, 5⟩, 1, .error, .lhs, "b"⟩,
        ⟨⟨6, 8⟩, 1, .operator, .none, "->"⟩, ⟨⟨9, 14⟩, 1, .error, .label, "[c-d]"⟩] := by
  intro L
  have space : ∀ c ∈ [' '], isBlank c = true := List.forall_mem_singleton.mpr rfl
  have left : Item.Side.left.Yields 1 0 "/a/ b ".toList "-> [c-d]".toList
      [⟨⟨0, 3⟩, 1, .regex, .lhs, "a"⟩, ⟨⟨4, 5⟩, 1, .error, .lhs, "b"⟩] :=
    .junk .slash ['a'] [' '] ['b'] [' '] (by decide) space (by decide) (by rintro c ⟨⟩; rfl)
      ⟨by rintro c ⟨⟩; rfl, space, .arrow (by decide) _⟩
  have right : Item.Side.right.Yields 1 9 "[c-d]".toList []
      [⟨⟨9, 14⟩, 1, .error, .label, "[c-d]"⟩] :=
    .literal .bracket ['c', '-', 'd'] [] (by decide) (List.forall_mem_nil _) (.lineEnd nofun)
  have item : Item.Yields 1 0 [] false "/a/ b -> [c-d]".toList _ :=
    .rule "/a/ b ".toList [' '] "[c-d]".toList left space (by rintro c ⟨⟩; rfl) right
  obtain ⟨isOpen, tokens, indentation, -, unique, -, took, -⟩ :=
    scan_itemLine L rfl rfl rfl (by decide)
  obtain ⟨rfl, rfl⟩ := unique _ _ item
  exact ⟨rfl, (took rfl).queue⟩

end RuleLexer
