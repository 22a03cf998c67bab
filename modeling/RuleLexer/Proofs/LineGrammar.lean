import RuleLexer.Proofs.Lines
import RuleLexer.LineMode

/-!
# Grammar of a line

What the pieces of a part of a line say, whatever the line holds. A part is a
lead, behind which more of the line may follow, or an item, which ends the line.

* `Item.IsSide`: what a closed side of an item says, and `readSide_cases`: a
  side is closed or it is nothing but an open literal;
* `Item.isItem_read`: what an item says;
* `LineMode.marks_read`: a part of a line is a lead or an item.
-/

namespace RuleLexer

namespace Piece

/-- What pieces in a row say. -/
def marks (pieces : List Piece) : List Mark := pieces.filterMap mark

@[simp]
theorem marks_nil : marks [] = [] := rfl

theorem marks_cons (p : Piece) (pieces : List Piece) :
    marks (p :: pieces) = p.mark.toList ++ marks pieces := by
  cases h : p.mark <;> simp [marks, h]

@[simp]
theorem marks_silent (chars : List Char) (pieces : List Piece) :
    marks (silent chars :: pieces) = marks pieces := rfl

@[simp]
theorem marks_valued (kind context : TokenKind) (value chars : List Char) (pieces : List Piece) :
    marks (valued kind context value chars :: pieces) =
      ⟨kind, context, value⟩ :: marks pieces := rfl

@[simp]
theorem marks_raw (kind context : TokenKind) (chars : List Char) (pieces : List Piece) :
    marks (raw kind context chars :: pieces) = ⟨kind, context, chars⟩ :: marks pieces := rfl

@[simp]
theorem marks_append (a b : List Piece) : marks (a ++ b) = marks a ++ marks b :=
  List.filterMap_append

end Piece

/-- What a part of a line says, if its open literal takes a line break that is
read as given. -/
def LinePart.marks (part : LinePart) (lineBreak : List Char) : List Mark :=
  Piece.marks part.pieces ++
    part.openLiteral.toList.map fun (context, chars) => ⟨.error, context, chars ++ lineBreak⟩

theorem LinePart.marks_of_closed {part : LinePart} (closed : part.openLiteral = none)
    (lineBreak : List Char) : part.marks lineBreak = Piece.marks part.pieces := by
  simp [marks, closed]

/-- Not both of two marks are arrows. -/
def Mark.NotBoth (a b : Mark) : Prop := a.kind = .operator → b.kind ≠ .operator

theorem pairwise_notBoth {marks : List Mark} (h : ∀ m ∈ marks, m.kind ≠ .operator) :
    marks.Pairwise Mark.NotBoth := by
  apply List.pairwise_of_forall_mem_list
  intro a ha _ _ isOperator
  exact absurd isOperator (h a ha)

/-- Text that neither begins nor ends with a blank. -/
def Text.Trim (text : List Char) : Prop :=
  (∀ c ∈ text.head?, isBlank c = false) ∧ ∀ c ∈ text.getLast?, isBlank c = false

/-! ## Leads -/

/-- What an entry of an argument list says, which is an error if it is out of place. -/
inductive ArgumentList.IsEntry : Mark → Prop
  | argument (d : Delimiter) (body : List Char) :
      IsEntry ⟨.annotationArgument, argumentContext d, body⟩
  | misplaced (chars : List Char) : IsEntry ⟨.error, .annotationArgument, chars⟩

/-- What may stand in front of an item on its line. -/
inductive IsLead : List Mark → Prop
  | sign {kind : TokenKind} (chars : List Char)
      (isSign : kind ∈ [.sectionName, .label, .atSign, .openParens, .closeParens, .comma]) :
      IsLead [⟨kind, .none, chars⟩]
  | error {context : TokenKind} (chars : List Char)
      (expected : context ∈ [.sectionName, .label, .annotationName]) :
      IsLead [⟨.error, context, chars⟩]
  | tag (name : List Char) {arguments : List Mark}
      (entries : ∀ m ∈ arguments, ArgumentList.IsEntry m) :
      IsLead (⟨.annotationName, .none, name⟩ :: arguments)

theorem IsLead.kinds {marks : List Mark} (h : IsLead marks) :
    ∀ m ∈ marks, m.kind.isTrivia = false ∧ m.kind ≠ .operator := by
  cases h with
  | sign chars isSign =>
    simp only [List.mem_cons, List.not_mem_nil, or_false] at isSign
    rcases isSign with rfl | rfl | rfl | rfl | rfl | rfl <;> simp [TokenKind.isTrivia]
  | error => simp [TokenKind.isTrivia]
  | tag name entries =>
    refine List.forall_mem_cons.mpr ⟨by simp [TokenKind.isTrivia], ?_⟩
    intro m hm
    cases entries m hm <;> simp [TokenKind.isTrivia]

namespace ArgumentList

theorem isEntry_judge (wanted : Bool) (list : List Lexeme) :
    ∀ m ∈ Piece.marks (judge wanted list), IsEntry m := by
  fun_induction judge wanted list with
  | case1 => simp
  | case2 wanted c more ih => exact ih
  | case3 wanted more ih =>
    split
    · exact List.forall_mem_cons.mpr ⟨.misplaced _, ih⟩
    · exact ih
  | case4 wanted c more ih => exact List.forall_mem_cons.mpr ⟨.misplaced _, ih⟩
  | case5 wanted l more ih =>
    split
    · exact List.forall_mem_cons.mpr ⟨.argument l.delimiter l.body, ih⟩
    · exact List.forall_mem_cons.mpr ⟨.misplaced _, ih⟩
  | case6 wanted chars more ih => exact List.forall_mem_cons.mpr ⟨.misplaced _, ih⟩

/-- A list says nothing but its entries. -/
theorem isEntry_read (behind lineBreak : List Char) :
    ∀ m ∈ (read behind).marks lineBreak, IsEntry m := by
  have judged := isEntry_judge true (lexemes behind).1
  unfold read
  cases hlist : lexemes behind with
  | mk list ending =>
    rw [hlist] at judged
    cases ending with
    | closed rest => simpa [LinePart.marks] using judged
    | lineEnd => simpa [LinePart.marks, misplaced] using ⟨.misplaced _, judged⟩
    | openLiteral chars =>
      simp only [LinePart.marks, misplaced, Piece.marks_raw, List.cons_append,
        List.forall_mem_cons, List.forall_mem_append]
      exact ⟨.misplaced _, judged, by simpa using .misplaced _⟩

end ArgumentList

theorem Annotation.isLead_read (behind lineBreak : List Char) :
    IsLead ((read behind).marks lineBreak) := by
  have alone (name : List Char) : IsLead (LinePart.marks { pieces := [head name] } lineBreak) := by
    unfold head
    split
    · exact .sign _ (by simp)
    · exact .tag name (by simp)
  unfold read
  dsimp only
  split
  · exact alone _
  · rename_i c rest hc
    split
    · rename_i list
      simp only [Bool.and_eq_true, decide_eq_true_eq] at list
      have named : head (behind.takeWhile isAlphabetic) =
          .valued .annotationName .none (behind.takeWhile isAlphabetic)
            ('@' :: behind.takeWhile isAlphabetic) := if_neg list.2
      rw [named]
      exact .tag _ (ArgumentList.isEntry_read rest lineBreak)
    · split
      · exact alone _
      · exact .error _ (by simp)

theorem Heading.isLead_read (behind lineBreak : List Char) :
    IsLead ((read behind).marks lineBreak) := by
  unfold read
  split
  · rename_i l rest found
    unfold piece
    split
    · exact .sign _ (by simp)
    · split
      · exact .sign _ (by simp)
      · exact .error _ (by simp)
  · exact .error _ (by simp)

/-! ## Items -/

namespace Item

/-- What a literal on a side says, which is an error if it is no label. -/
inductive IsLiteral (side : Side) : Mark → Prop
  | literal (d : Delimiter) (body : List Char) : IsLiteral side ⟨d.kind, side.context, body⟩
  | badLabel (chars : List Char) : IsLiteral side ⟨.error, .label, chars⟩

/-- What a closed side says. -/
inductive IsSide (side : Side) : List Mark → Prop
  | value {text : List Char} (trim : Text.Trim text)
      (noArrow : side = .left → ¬ ['-', '>'] <:+: text) :
      IsSide side [⟨.value, side.context, text⟩]
  | literal {m : Mark} (isLiteral : IsLiteral side m) : IsSide side [m]
  | junk {m : Mark} (isLiteral : IsLiteral side m) (chars : List Char) :
      IsSide side [m, ⟨.error, side.context, chars⟩]

theorem IsLiteral.kind_ne_value {side : Side} {m : Mark} (h : IsLiteral side m) :
    m.kind ≠ .value := by
  cases h with
  | literal d body => cases d <;> simp [Delimiter.kind]
  | badLabel chars => simp

/-- The arrow. -/
def arrow : Mark := ⟨.operator, .none, ['-', '>']⟩

/-- What an item says. -/
inductive IsItem : List Mark → Prop
  | left {left : List Mark} (isLeft : IsSide .left left)
      (nonempty : ⟨.value, .lhs, []⟩ ∉ left) : IsItem left
  | leftOpen (d : Delimiter) (chars : List Char) : IsItem [⟨.error, d.kind, chars⟩]
  | rule {left right : List Mark} (isLeft : IsSide .left left) (isRight : IsSide .right right) :
      IsItem (left ++ arrow :: right)
  | ruleOpen {left : List Mark} (isLeft : IsSide .left left) (d : Delimiter)
      (chars : List Char) : IsItem (left ++ [arrow, ⟨.error, d.kind, chars⟩])

theorem arrow_notInfix_cutAtArrow (text : List Char) :
    ¬ ['-', '>'] <:+: (cutAtArrow text).1 := by
  induction text with
  | nil => simp [cutAtArrow]
  | cons c rest ih =>
    simp only [cutAtArrow]
    split
    · simp
    · rename_i noArrow
      intro found
      rcases List.infix_cons_iff.mp found with here | later
      · -- the arrow would begin right here, where the text is not cut
        obtain ⟨tail, whole⟩ := here
        obtain ⟨rfl, more⟩ := List.cons.inj whole
        have front := append_cutAtArrow rest
        rw [← show '>' :: tail = (cutAtArrow rest).1 from more] at front
        exact noArrow ⟨rfl, by rw [← front]; rfl⟩
      · exact ih later

theorem trimmed_isPrefix (text : List Char) : trimmed text <+: text :=
  ⟨_, trimmed_append_trailing text⟩

theorem trim_trimmed {text : List Char} (front : ∀ c ∈ text.head?, isBlank c = false) :
    Text.Trim (trimmed text) := by
  constructor
  · intro c hc
    obtain ⟨rest, whole⟩ := trimmed_isPrefix text
    refine front c ?_
    rw [← whole, List.head?_append, hc]
    rfl
  · intro c hc
    rw [trimmed, List.getLast?_reverse] at hc
    exact Text.isBlank_of_head?_dropWhile hc

theorem marks_literalPiece (side : Side) (l : Literal) :
    ∃ m, IsLiteral side m ∧ ∀ pieces,
      Piece.marks (literalPiece side l :: pieces) = m :: Piece.marks pieces := by
  unfold literalPiece
  split
  · exact ⟨_, .badLabel _, fun _ => rfl⟩
  · exact ⟨_, .literal l.delimiter l.body, fun _ => rfl⟩

/-- A side is closed, or it is nothing but an open literal. -/
theorem readSide_cases (side : Side) (line : List Char)
    (front : ∀ c ∈ line.head?, isBlank c = false) :
    ((readSide side line).1.openLiteral = none ∧
        IsSide side (Piece.marks (readSide side line).1.pieces)) ∨
      ∃ (d : Delimiter) (chars : List Char),
        readSide side line = ({ pieces := [], openLiteral := some (d.kind, chars) }, []) := by
  unfold readSide
  split
  · refine .inl ⟨rfl, ?_⟩
    have cutFront : ∀ c ∈ (side.cut line).1.head?, isBlank c = false := by
      intro c hc
      refine front c ?_
      rw [← append_cut side line, List.head?_append, hc]
      rfl
    refine .value (trim_trimmed cutFront) ?_
    rintro rfl found
    exact arrow_notInfix_cutAtArrow line (found.trans (trimmed_isPrefix _).isInfix)
  · rename_i d hd
    split
    · rename_i chars unclosed
      exact .inr ⟨d, chars, rfl⟩
    · rename_i l behind found
      refine .inl ⟨rfl, ?_⟩
      obtain ⟨m, isLiteral, marked⟩ := marks_literalPiece side l
      rw [marked, Piece.marks_silent]
      unfold junkPieces
      split
      · exact .literal isLiteral
      · exact .junk isLiteral _

/-- Plain text is empty on the left only in front of an arrow. -/
theorem snd_readSide_of_empty {c : Char} (inside : isBlank c = false) (rest : List Char)
    (empty : ⟨.value, .lhs, []⟩ ∈ Piece.marks (readSide .left (c :: rest)).1.pieces) :
    (readSide .left (c :: rest)).2 ≠ [] := by
  unfold readSide at empty ⊢
  split at empty
  · have whole := append_cutAtArrow (c :: rest)
    have trimmed : trimmed (cutAtArrow (c :: rest)).1 = [] := by
      simpa [Side.cut, Side.context] using empty
    have blank := trimmed_append_trailing (cutAtArrow (c :: rest)).1
    dsimp only [Side.cut]
    intro noMore
    -- then the text would be blank up to its end, but it begins with no blank
    rw [noMore, List.append_nil] at whole
    rw [trimmed, List.nil_append, whole] at blank
    have mem : c ∈ trailing (c :: rest) := by rw [blank]; exact List.mem_cons_self
    rw [Text.isBlank_of_mem_takeWhile (List.mem_reverse.mp mem)] at inside
    cases inside
  · split at empty
    · simp at empty
    · rename_i l behind found
      obtain ⟨m, isLiteral, marked⟩ := marks_literalPiece .left l
      rw [marked, Piece.marks_silent] at empty
      unfold junkPieces at empty
      rcases List.mem_cons.mp empty with rfl | junk
      · exact absurd rfl isLiteral.kind_ne_value
      · split at junk <;> simp at junk

theorem isItem_read {c : Char} (inside : isBlank c = false) (rest lineBreak : List Char) :
    IsItem ((read (c :: rest)).marks lineBreak) := by
  have left := readSide_cases .left (c :: rest) (by simpa using inside)
  have empty := snd_readSide_of_empty inside rest
  unfold read
  cases hleft : readSide .left (c :: rest) with
  | mk part more =>
    rw [hleft] at left empty
    rcases left with ⟨closed, isLeft⟩ | ⟨d, chars, isOpen⟩
    · dsimp only at closed isLeft empty ⊢
      split
      · rename_i behind
        have front : ∀ d ∈ (behind.dropWhile isBlank).head?, isBlank d = false :=
          fun d => Text.isBlank_of_head?_dropWhile
        rcases readSide_cases .right _ front with ⟨closed, isRight⟩ | ⟨d, chars, isOpen⟩
        · simpa [LinePart.marks, closed, arrow] using IsItem.rule isLeft isRight
        · simpa [LinePart.marks, isOpen, arrow] using IsItem.ruleOpen isLeft d (chars ++ lineBreak)
      · rename_i noArrow
        rw [LinePart.marks_of_closed closed]
        refine .left isLeft ?_
        intro mem
        rcases readSide_left_snd (c :: rest) with none | ⟨behind, found⟩
        · rw [hleft] at none
          exact empty mem none
        · rw [hleft] at found
          exact noArrow behind found
    · cases isOpen
      exact .leftOpen d (chars ++ lineBreak)

/-! ## Kinds -/

theorem IsLiteral.kinds {side : Side} {m : Mark} (h : IsLiteral side m) :
    m.kind.isTrivia = false ∧ m.kind ≠ .operator := by
  cases h with
  | literal d => cases d <;> simp [Delimiter.kind, TokenKind.isTrivia]
  | badLabel => simp [TokenKind.isTrivia]

theorem IsSide.kinds {side : Side} {marks : List Mark} (h : IsSide side marks) :
    ∀ m ∈ marks, m.kind.isTrivia = false ∧ m.kind ≠ .operator := by
  cases h with
  | value => simp [TokenKind.isTrivia]
  | literal isLiteral => simpa using isLiteral.kinds
  | junk isLiteral => simpa [TokenKind.isTrivia] using isLiteral.kinds

/-- Between sides without arrows, an arrow is the only one. -/
theorem kinds_arrow {left right : List Mark} (isLeft : IsSide .left left)
    (kinds : ∀ m ∈ right, m.kind.isTrivia = false ∧ m.kind ≠ .operator) :
    (∀ m ∈ left ++ arrow :: right, m.kind.isTrivia = false) ∧
      (left ++ arrow :: right).Pairwise Mark.NotBoth := by
  constructor
  · refine List.forall_mem_append.mpr ⟨fun m hm => (isLeft.kinds m hm).1, ?_⟩
    exact List.forall_mem_cons.mpr ⟨rfl, fun m hm => (kinds m hm).1⟩
  · refine List.pairwise_append.mpr ⟨?_, List.pairwise_cons.mpr ⟨?_, ?_⟩, ?_⟩
    · exact pairwise_notBoth fun m hm => (isLeft.kinds m hm).2
    · intro m hm _
      exact (kinds m hm).2
    · exact pairwise_notBoth fun m hm => (kinds m hm).2
    · intro a ha b _ isOperator
      exact absurd isOperator (isLeft.kinds a ha).2

/-- An item says nothing that is hidden, and has at most one arrow. -/
theorem IsItem.kinds {marks : List Mark} (h : IsItem marks) :
    (∀ m ∈ marks, m.kind.isTrivia = false) ∧ marks.Pairwise Mark.NotBoth := by
  cases h with
  | left isLeft =>
    exact ⟨fun m hm => (isLeft.kinds m hm).1,
      pairwise_notBoth fun m hm => (isLeft.kinds m hm).2⟩
  | leftOpen => simp [TokenKind.isTrivia]
  | rule isLeft isRight => exact kinds_arrow isLeft isRight.kinds
  | ruleOpen isLeft => exact kinds_arrow isLeft (by simp [TokenKind.isTrivia])

end Item

/-! ## Parts of a line -/

open Item (IsItem)

namespace LineMode

/-- A part of a line is a lead, or an item that takes the whole line. -/
theorem marks_read (mode : LineMode) {c : Char} (inside : isBlank c = false)
    (rest lineBreak : List Char) :
    IsLead ((mode.read (c :: rest)).marks lineBreak) ∨
      IsItem ((mode.read (c :: rest)).marks lineBreak) ∧
        (mode.read (c :: rest)).source = c :: rest := by
  have item : IsItem ((Item.read (c :: rest)).marks lineBreak) ∧
      (Item.read (c :: rest)).source = c :: rest :=
    ⟨Item.isItem_read inside rest lineBreak, Item.source_read _⟩
  cases mode with
  | subsection | item | blank => exact .inr item
  | header =>
    simp only [read, readHeader]
    split
    · exact Or.inl <| Annotation.isLead_read rest lineBreak
    · split
      · exact .inl (Heading.isLead_read rest lineBreak)
      · split
        · rename_i kind hkind
          refine .inl (.sign [c] ?_)
          unfold punctuation? at hkind
          grind
        · exact .inr item

/-- A part of a line says nothing that is hidden. -/
theorem visible_read (mode : LineMode) {c : Char} (inside : isBlank c = false)
    (rest lineBreak : List Char) :
    ∀ m ∈ (mode.read (c :: rest)).marks lineBreak, m.kind.isTrivia = false := by
  intro m hm
  rcases mode.marks_read inside rest lineBreak with isLead | ⟨isItem, -⟩
  · exact (isLead.kinds m hm).1
  · exact isItem.kinds.1 m hm

end LineMode

end RuleLexer
