import RuleLexer.Proofs.Words

/-!
# Shape of the token stream

Without trivia, tokens stand next to each other as a parser of rules expects it,
whatever the text holds: arrows between the sides of an item, right sides
behind arrows, and arguments behind the name of an annotation.

* `Word.Fits`: what is expected around a token. It is found close by, so words
  that fit by themselves fit next to any others (`Fitting.widen`, `Fitting.beside`);
* `fitting_lead`, `fitting_item`: the words of a part of a line fit;
* `fitting_scan`, `fitting_layout`: so do those of a scan, and of a whole layout;
* `arrows_scan`, `arrows_layout`: behind an arrow, no other one follows on its line;
* `tokens_shaped`: the tokens of every text have that shape.
-/

namespace RuleLexer

open Cell (source)
open Item (IsSide IsLiteral IsItem arrow)

/-! ## What a parser expects -/

namespace Mark

/-- Whether a mark may stand directly in front of an arrow. -/
def EndsLeft (m : Mark) : Prop :=
  (m.kind ∈ [.value, .string, .regex, .label] ∧ m.context = .lhs) ∨
    (m.kind = .error ∧ m.context ∈ [.label, .lhs])

/-- Whether a mark may stand directly behind an arrow. -/
def StartsRight (m : Mark) : Prop :=
  (m.kind ∈ [.value, .string, .regex, .label] ∧ m.context = .rhs) ∨
    (m.kind = .error ∧ m.context ∈ [.label, .string, .regex])

/-- A closed literal, or what is wrong with one. -/
def IsLiteral (m : Mark) : Prop :=
  m.kind ∈ [.string, .regex, .label] ∨ m.kind = .error ∧ m.context = .label

/-- An argument, or what stands in the place of one. -/
def IsArgument (m : Mark) : Prop :=
  m.kind = .annotationArgument ∨ m.kind = .error ∧ m.context = .annotationArgument

theorem IsLiteral.kinds {m : Mark} (h : m.IsLiteral) :
    m.kind ≠ .operator ∧ m.kind ≠ .value ∧ ¬ m.IsArgument := by
  rcases h with isKind | ⟨isError, isLabel⟩
  · simp only [List.mem_cons, List.not_mem_nil, or_false] at isKind
    rcases isKind with kind | kind | kind <;> simp [IsArgument, kind]
  · simp [IsArgument, isError, isLabel]

/-- Whether nothing is expected around a mark. -/
def Free (m : Mark) : Prop :=
  m.kind ≠ .operator ∧ m.kind ≠ .value ∧ m.context ≠ .rhs ∧ ¬ m.IsArgument

end Mark

/-- What a parser expects around a word, from the words in front of it and behind it. -/
structure Word.Fits (front : List Word) (w : Word) (behind : List Word) : Prop where
  /-- An arrow stands between the sides of an item, on their line. -/
  operator : w.kind = .operator →
    (∃ l, [l] <:+ front ∧ l.line = w.line ∧ l.EndsLeft) ∧
      ∃ r, [r] <+: behind ∧ r.line = w.line ∧ r.StartsRight
  /-- A right side stands behind an arrow, and an error may stand behind its literal. -/
  right : w.context = .rhs → ∃ op, op.kind = .operator ∧
    ([op] <:+ front ∨ w.kind = .error ∧ ∃ l, [op, l] <:+ front ∧ l.IsLiteral)
  /-- Plain text on the left ends at an arrow, and is empty only in front of one. -/
  left : w.kind = .value → w.context = .lhs →
    ¬ ['-', '>'] <:+: w.value ∧ (w.value = [] → ∃ op, op.kind = .operator ∧ [op] <+: behind)
  value : w.kind = .value → Text.Trim w.value
  /-- Arguments stand behind the name of an annotation, on its line. -/
  argument : w.IsArgument → ∃ head arguments, head :: arguments <:+ front ∧
    head.kind = .annotationName ∧ head.line = w.line ∧ ∀ a ∈ arguments, a.IsArgument

/-- Two words are not arrows on one line. -/
def Word.Apart (a b : Word) : Prop :=
  a.kind = .operator → b.kind = .operator → a.line ≠ b.line

/-- What a parser expects of the words of a text. -/
structure Shaped (words : List Word) : Prop where
  /-- No line has two arrows. -/
  apart : words.Pairwise Word.Apart
  fits : ∀ front w behind, words = front ++ w :: behind → w.Fits front behind

/-! ## Words in a row -/

namespace Word

variable {front words behind : List Word} {w : Word}

/-- What a word needs around it, it finds in any longer context. -/
theorem Fits.widen (h : w.Fits front behind) (a b : List Word) :
    w.Fits (a ++ front) (behind ++ b) where
  operator isOperator := by
    obtain ⟨⟨l, left, ends⟩, r, right, starts⟩ := h.operator isOperator
    exact ⟨⟨l, left.trans (List.suffix_append a front), ends⟩, r,
      right.trans (List.prefix_append behind b), starts⟩
  right isRight := by
    obtain ⟨op, isOperator, own | ⟨isError, l, own, isLiteral⟩⟩ := h.right isRight
    · exact ⟨op, isOperator, .inl (own.trans (List.suffix_append a front))⟩
    · exact ⟨op, isOperator, .inr ⟨isError, l, own.trans (List.suffix_append a front), isLiteral⟩⟩
  left isValue isLeft := by
    obtain ⟨noArrow, empty⟩ := h.left isValue isLeft
    refine ⟨noArrow, ?_⟩
    intro isEmpty
    obtain ⟨op, isOperator, own⟩ := empty isEmpty
    exact ⟨op, isOperator, own.trans (List.prefix_append behind b)⟩
  value := h.value
  argument isArgument := by
    obtain ⟨head, arguments, own, more⟩ := h.argument isArgument
    exact ⟨head, arguments, own.trans (List.suffix_append a front), more⟩

theorem fits_of_free (free : w.Free) : w.Fits front behind where
  operator h := absurd h free.1
  right h := absurd h free.2.2.1
  left h := absurd h free.2.1
  value h := absurd h free.2.1
  argument h := absurd h free.2.2.2

/-- Words fit behind the words in front of them and in front of the words behind them. -/
def Fitting (front : List Word) : List Word → List Word → Prop
  | [], _ => True
  | w :: words, behind =>
    w.Fits front (words ++ behind) ∧ Fitting (front ++ [w]) words behind

theorem Fitting.append {a b : List Word} (first : Fitting front a (b ++ behind))
    (second : Fitting (front ++ a) b behind) : Fitting front (a ++ b) behind := by
  induction a generalizing front with
  | nil => simpa using second
  | cons w a ih =>
    obtain ⟨own, more⟩ := first
    refine ⟨by simpa using own, ih more (by simpa using second)⟩

theorem Fitting.widen (h : Fitting front words behind) (a b : List Word) :
    Fitting (a ++ front) words (behind ++ b) := by
  induction words generalizing front with
  | nil => trivial
  | cons w words ih =>
    obtain ⟨own, more⟩ := h
    refine ⟨by simpa using own.widen a b, ?_⟩
    rw [List.append_assoc]
    exact ih more

/-- Words that fit by themselves fit next to each other. -/
theorem Fitting.beside {a b : List Word} (first : Fitting [] a []) (second : Fitting [] b []) :
    Fitting [] (a ++ b) [] := by
  refine .append ?_ ?_
  · simpa using first.widen [] b
  · simpa using second.widen a []

theorem Fitting.fits (h : Fitting front words behind) :
    ∀ a w b, words = a ++ w :: b → w.Fits (front ++ a) (b ++ behind) := by
  intro a w b split
  induction a generalizing front words with
  | nil =>
    subst split
    simpa using h.1
  | cons v a ih =>
    subst split
    have more := ih h.2 rfl
    rwa [List.append_assoc] at more

theorem fitting_of_free (free : ∀ w ∈ words, w.Free) : Fitting front words behind := by
  induction words generalizing front with
  | nil => trivial
  | cons w words ih =>
    obtain ⟨own, more⟩ := List.forall_mem_cons.mp free
    exact ⟨fits_of_free own, ih more⟩

end Word

open Word (Fits Fitting)

/-! ## Sides of an item -/

namespace Item

theorem Side.eq_left {side : Side} (h : side.context = .lhs) : side = .left := by
  cases side with
  | left => rfl
  | right => cases h

theorem Side.eq_right {side : Side} (h : side.context = .rhs) : side = .right := by
  cases side with
  | left => cases h
  | right => rfl

theorem IsLiteral.isLiteral {side : Side} {m : Mark} (h : IsLiteral side m) : m.IsLiteral := by
  cases h with
  | literal d => exact .inl (by cases d <;> simp [Delimiter.kind])
  | badLabel => exact .inr ⟨rfl, rfl⟩

theorem IsLiteral.eq_right {side : Side} {m : Mark} (h : IsLiteral side m)
    (right : m.context = .rhs) : side = .right := by
  cases h with
  | literal => exact Side.eq_right right
  | badLabel => cases right

theorem IsLiteral.endsLeft {m : Mark} (h : IsLiteral .left m) : m.EndsLeft := by
  cases h with
  | literal d => exact .inl ⟨by cases d <;> simp [Delimiter.kind], rfl⟩
  | badLabel => exact .inr ⟨rfl, by simp⟩

theorem IsLiteral.startsRight {m : Mark} (h : IsLiteral .right m) : m.StartsRight := by
  cases h with
  | literal d => exact .inl ⟨by cases d <;> simp [Delimiter.kind], rfl⟩
  | badLabel => exact .inr ⟨rfl, by simp⟩

theorem IsSide.endsLeft {left : List Mark} (h : IsSide .left left) :
    ∃ l, [l] <:+ left ∧ l.EndsLeft := by
  cases h with
  | value => exact ⟨_, List.suffix_rfl, .inl ⟨by simp, rfl⟩⟩
  | literal isLiteral => exact ⟨_, List.suffix_rfl, isLiteral.endsLeft⟩
  | junk isLiteral chars =>
    exact ⟨_, List.suffix_cons _ _, .inr ⟨rfl, by simp [Side.context]⟩⟩

theorem IsSide.startsRight {right : List Mark} (h : IsSide .right right) :
    ∃ r, [r] <+: right ∧ r.StartsRight := by
  cases h with
  | value => exact ⟨_, List.prefix_rfl, .inl ⟨by simp, rfl⟩⟩
  | literal isLiteral => exact ⟨_, List.prefix_rfl, isLiteral.startsRight⟩
  | junk isLiteral chars => exact ⟨_, List.prefix_append [_] [_], isLiteral.startsRight⟩

end Item

/-! ## Words of a part of a line -/

section Part

variable {front behind : List Word} {line : Nat}

theorem ArgumentList.IsEntry.isArgument {m : Mark} (h : IsEntry m) : m.IsArgument := by
  cases h with
  | argument => exact .inl rfl
  | misplaced => exact .inr ⟨rfl, rfl⟩

/-- Entries of a list fit behind other entries and the name of the annotation. -/
theorem fitting_entries (entries : List Mark) {arguments : List Mark} {head : Word}
    (named : head.kind = .annotationName) (same : head.line = line)
    (before : ∀ m ∈ entries, ArgumentList.IsEntry m)
    (isEntry : ∀ m ∈ arguments, ArgumentList.IsEntry m) :
    Fitting (head :: entries.map (·.onLine line)) (arguments.map (·.onLine line)) behind := by
  induction arguments generalizing entries with
  | nil => trivial
  | cons m arguments ih =>
    obtain ⟨own, isEntry⟩ := List.forall_mem_cons.mp isEntry
    constructor
    · refine ⟨?_, ?_, ?_, ?_, ?_⟩
      · cases own <;> simp [Mark.onLine]
      · cases own with
        | argument d => cases d <;> simp [Mark.onLine, ArgumentList.argumentContext]
        | misplaced => simp [Mark.onLine]
      · cases own <;> simp [Mark.onLine]
      · cases own <;> simp [Mark.onLine]
      intro _
      refine ⟨head, _, List.suffix_rfl, named, same, ?_⟩
      intro a ha
      obtain ⟨m, hm, rfl⟩ := List.mem_map.mp ha
      exact (before m hm).isArgument
    · have more := ih (entries ++ [m])
        (List.forall_mem_append.mpr ⟨before, by simpa using own⟩) isEntry
      simpa using more

theorem fitting_lead {marks : List Mark} (h : IsLead marks) :
    Fitting [] (marks.map (·.onLine line)) [] := by
  cases h with
  | sign chars isSign =>
    refine ⟨Word.fits_of_free ?_, trivial⟩
    simp only [List.mem_cons, List.not_mem_nil, or_false] at isSign
    rcases isSign with rfl | rfl | rfl | rfl | rfl | rfl <;>
      simp [Mark.Free, Mark.onLine, Mark.IsArgument]
  | error chars expected =>
    refine ⟨Word.fits_of_free ?_, trivial⟩
    simp only [List.mem_cons, List.not_mem_nil, or_false] at expected
    rcases expected with rfl | rfl | rfl <;> simp [Mark.Free, Mark.onLine, Mark.IsArgument]
  | tag name entries =>
    refine ⟨Word.fits_of_free ?_, fitting_entries [] rfl rfl (by simp) entries⟩
    simp [Mark.Free, Mark.onLine, Mark.IsArgument]

theorem fitting_openLiteral (d : Delimiter) (chars : List Char) :
    Fitting front [Mark.onLine line ⟨.error, d.kind, chars⟩] behind := by
  refine ⟨Word.fits_of_free ?_, trivial⟩
  cases d <;> simp [Mark.Free, Mark.onLine, Mark.IsArgument, Delimiter.kind]

theorem fits_literal {side : Item.Side} {m : Mark} (h : IsLiteral side m)
    (behindArrow : side = .right → ∃ op, op.kind = .operator ∧ [op] <:+ front) :
    (m.onLine line).Fits front behind := by
  obtain ⟨operator, value, argument⟩ := h.isLiteral.kinds
  refine ⟨fun h => absurd h operator, ?_, fun h => absurd h value, fun h => absurd h value,
    fun h => absurd h argument⟩
  intro right
  obtain ⟨op, isOperator, own⟩ := behindArrow (h.eq_right right)
  exact ⟨op, isOperator, .inl own⟩

/-- The words of a side fit, on the right if they stand behind an arrow. -/
theorem fitting_side {side : Item.Side} {marks : List Mark} (h : IsSide side marks)
    (behindArrow : side = .right → ∃ op, op.kind = .operator ∧ [op] <:+ front)
    (empty : side = .left → ⟨.value, .lhs, []⟩ ∈ marks →
      ∃ op, op.kind = .operator ∧ [op] <+: behind) :
    Fitting front (marks.map (·.onLine line)) behind := by
  cases h with
  | @value text trim noArrow =>
    refine ⟨⟨by simp [Mark.onLine], ?_, ?_, fun _ => trim, ?_⟩, trivial⟩
    · intro right
      obtain ⟨op, isOperator, own⟩ := behindArrow (Item.Side.eq_right right)
      exact ⟨op, isOperator, .inl own⟩
    · intro _ left
      obtain rfl := Item.Side.eq_left left
      refine ⟨noArrow rfl, ?_⟩
      rintro rfl
      exact empty rfl (by simp [Item.Side.context])
    · simp [Mark.onLine, Mark.IsArgument]
  | literal isLiteral => exact ⟨fits_literal isLiteral behindArrow, trivial⟩
  | @junk m isLiteral chars =>
    refine ⟨fits_literal isLiteral behindArrow, ⟨?_, ?_, ?_, ?_, ?_⟩, trivial⟩
    · simp [Mark.onLine]
    · intro right
      obtain ⟨op, isOperator, tail, own⟩ := behindArrow (Item.Side.eq_right right)
      refine ⟨op, isOperator, .inr ⟨rfl, m.onLine line, ⟨tail, ?_⟩, isLiteral.isLiteral⟩⟩
      simp [← own]
    · simp [Mark.onLine]
    · simp [Mark.onLine]
    · cases side <;> simp [Mark.onLine, Mark.IsArgument, Item.Side.context]

theorem fits_arrow (left : ∃ l, [l] <:+ front ∧ l.line = line ∧ l.EndsLeft)
    (right : ∃ r, [r] <+: behind ∧ r.line = line ∧ r.StartsRight) :
    (arrow.onLine line).Fits front behind := by
  refine ⟨fun _ => ⟨left, right⟩, ?_, ?_, ?_, ?_⟩
  · simp [Mark.onLine, arrow]
  · simp [Mark.onLine, arrow]
  · simp [Mark.onLine, arrow]
  · simp [Mark.onLine, Mark.IsArgument, arrow]

/-- An arrow fits between the sides of an item. -/
theorem fitting_arrow {left right : List Mark} (isLeft : IsSide .left left)
    (starts : ∃ r, [r] <+: right ∧ r.StartsRight)
    (fits : ∀ front op, op.kind = .operator → [op] <:+ front →
      Fitting front (right.map (·.onLine line)) []) :
    Fitting [] ((left ++ arrow :: right).map (·.onLine line)) [] := by
  obtain ⟨l, last, ends⟩ := isLeft.endsLeft
  obtain ⟨r, first, starts⟩ := starts
  rw [List.map_append, List.map_cons]
  refine .append ?_ ⟨?_, fits _ (arrow.onLine line) rfl (List.suffix_append _ [_])⟩
  · refine fitting_side isLeft (by simp) ?_
    intro _ _
    exact ⟨arrow.onLine line, rfl, List.prefix_append [_] _⟩
  · apply fits_arrow
    · exact ⟨l.onLine line, last.map _, rfl, ends⟩
    · rw [List.append_nil]
      exact ⟨r.onLine line, first.map _, rfl, starts⟩

theorem fitting_item {marks : List Mark} (h : IsItem marks) :
    Fitting [] (marks.map (·.onLine line)) [] := by
  cases h with
  | left isLeft nonempty =>
    exact fitting_side isLeft (by simp) fun _ mem => absurd mem nonempty
  | leftOpen d chars => exact fitting_openLiteral d chars
  | rule isLeft isRight =>
    refine fitting_arrow isLeft isRight.startsRight ?_
    intro front op isOperator own
    exact fitting_side isRight (fun _ => ⟨op, isOperator, own⟩) (by simp)
  | ruleOpen isLeft d chars =>
    refine fitting_arrow isLeft ⟨_, List.prefix_rfl, .inr ⟨rfl, ?_⟩⟩ ?_
    · cases d <;> simp [Delimiter.kind]
    · intro front op _ _
      exact fitting_openLiteral d chars

end Part

/-! ## Words of a layout -/

/-- The words that a scan finds fit by themselves. -/
theorem Place.fitting_scan (p : Place) (line : Nat) :
    Fitting [] (Cell.words line p.scan.cells) [] := by
  obtain ⟨marks, indent, found, words, isIndent⟩ := p.scan_words line
  have indented : Fitting [] indent [] := by
    apply Word.fitting_of_free
    intro w hw
    obtain ⟨kind, context⟩ := isIndent w hw
    simp [Mark.Free, Mark.IsArgument, kind, context]
  rw [words]
  refine .beside ?_ indented
  cases found with
  | nothing => trivial
  | lead _ isLead => exact fitting_lead isLead
  | item _ isItem => exact fitting_item isItem

theorem Place.fitting_layout (p : Place) (line : Nat) :
    Fitting [] (Cell.words line p.layout.cells) [] := by
  fun_induction layout p generalizing line with
  | case1 p ended => exact p.fitting_scan line
  | case2 p goesOn ih =>
    rw [Stretch.cells_behind, Cell.words_append]
    exact (p.fitting_scan line).beside (ih _)

/-! ## Arrows of a layout -/

namespace Place

variable {p : Place} {marks : List Mark}

/-- The first line on which an arrow may stand, from a place on a line on. -/
def openLine (p : Place) (line : Nat) : Nat :=
  if Text.atLineEnd p.rest then line + 1 else line

/-- The line on which a scan ends. -/
def lastLine (p : Place) (line : Nat) : Nat := line + (source p.scan.cells).count '\n'

theorem openLine_bounds (p : Place) (line : Nat) :
    line ≤ p.openLine line ∧ p.openLine line ≤ line + 1 := by
  unfold openLine
  split <;> omega

theorem openLine_of_inside (inside : Text.atLineEnd p.rest = false) (line : Nat) :
    p.openLine line = line := by
  simp [openLine, inside]

theorem lt_lastLine (feed : '\n' ∈ source p.scan.cells) (line : Nat) : line < p.lastLine line := by
  have := List.count_pos_iff.mpr feed
  unfold lastLine
  omega

/-- What is open behind a scan was open in front of it. -/
theorem openLine_scan (goesOn : p.scan.ended = false) (line : Nat) :
    p.openLine line ≤ p.scan.place.openLine (p.lastLine line) := by
  obtain ⟨marks, -, found, -⟩ := p.scan_words line
  have first := p.openLine_bounds line
  have next := p.scan.place.openLine_bounds (p.lastLine line)
  cases found with
  | nothing moves =>
    have feed : '\n' ∈ source p.scan.cells := by simpa [goesOn] using moves
    have := lt_lastLine feed line
    omega
  | lead inside | item inside =>
    have := openLine_of_inside inside line
    have : line ≤ p.lastLine line := Nat.le_add_right ..
    omega

/-- An arrow stands on the line of the scan, and ends it. -/
theorem Finds.arrow (found : p.Finds p.scan marks) {m : Mark} (hm : m ∈ marks)
    (isOperator : m.kind = .operator) (line : Nat) :
    p.openLine line = line ∧ line < p.scan.place.openLine (p.lastLine line) := by
  have next := p.scan.place.openLine_bounds (p.lastLine line)
  cases found with
  | nothing => cases hm
  | lead _ isLead => exact absurd isOperator (isLead.kinds m hm).2
  | item inside isItem ends =>
    refine ⟨openLine_of_inside inside line, ?_⟩
    rcases ends with lineEnd | feed
    · rw [openLine, if_pos lineEnd]
      unfold lastLine
      omega
    · have := lt_lastLine feed line
      omega

theorem Finds.notBoth {s : Stretch} (found : p.Finds s marks) : marks.Pairwise Mark.NotBoth := by
  cases found with
  | nothing => exact .nil
  | lead _ isLead => exact pairwise_notBoth fun m hm => (isLead.kinds m hm).2
  | item _ isItem => exact isItem.kinds.2

/-- The arrows of a scan stand on a line that was open and is not open any more,
and no two of them on one line. -/
theorem arrows_scan (p : Place) (line : Nat) :
    (∀ w ∈ Cell.words line p.scan.cells, w.kind = .operator →
        p.openLine line ≤ w.line ∧ w.line < p.scan.place.openLine (p.lastLine line)) ∧
      (Cell.words line p.scan.cells).Pairwise Word.Apart := by
  obtain ⟨marks, indent, found, words, isIndent⟩ := p.scan_words line
  have noArrow : ∀ w ∈ indent, w.kind ≠ .operator := by
    intro w hw
    simp [(isIndent w hw).1]
  rw [words]
  constructor
  · intro w hw isOperator
    rcases List.mem_append.mp hw with hw | hw
    · obtain ⟨m, hm, rfl⟩ := List.mem_map.mp hw
      obtain ⟨here, past⟩ := found.arrow hm isOperator line
      exact ⟨Nat.le_of_eq here, past⟩
    · exact absurd isOperator (noArrow w hw)
  · refine List.pairwise_append.mpr ⟨List.pairwise_map.mpr ?_, ?_, ?_⟩
    · refine found.notBoth.imp ?_
      intro a b notBoth isOperator isOperator'
      exact absurd isOperator' (notBoth isOperator)
    · apply List.pairwise_of_forall_mem_list
      intro a ha _ _ isOperator
      exact absurd isOperator (noArrow a ha)
    · intro a _ b hb _ isOperator
      exact absurd isOperator (noArrow b hb)

theorem arrows_layout (p : Place) (line : Nat) :
    (∀ w ∈ Cell.words line p.layout.cells, w.kind = .operator → p.openLine line ≤ w.line) ∧
      (Cell.words line p.layout.cells).Pairwise Word.Apart := by
  fun_induction layout p generalizing line with
  | case1 p ended =>
    obtain ⟨arrows, apart⟩ := p.arrows_scan line
    exact ⟨fun w hw isOperator => (arrows w hw isOperator).1, apart⟩
  | case2 p goesOn ih =>
    obtain ⟨arrows, apart⟩ := p.arrows_scan line
    obtain ⟨later, laterApart⟩ := ih (p.lastLine line)
    have next : p.openLine line ≤ p.scan.place.openLine (p.lastLine line) :=
      openLine_scan (by simpa using goesOn) line
    rw [Stretch.cells_behind, Cell.words_append]
    constructor
    · intro w hw isOperator
      rcases List.mem_append.mp hw with hw | hw
      · exact (arrows w hw isOperator).1
      · exact Nat.le_trans next (later w hw isOperator)
    · refine List.pairwise_append.mpr ⟨apart, laterApart, ?_⟩
      intro a ha b hb isOperator isOperator' same
      have := (arrows a ha isOperator).2
      have := later b hb isOperator'
      omega

end Place

/-- The end of the file leaves the words in front of it in shape. -/
theorem Shaped.of_fitting {words : List Word} {last : Word} (fitting : Fitting [] words [])
    (apart : words.Pairwise Word.Apart)
    (ends : last.kind = .endOfFile ∧ last.context = .none) : Shaped (words ++ [last]) where
  apart := by
    refine List.pairwise_append.mpr ⟨apart, List.pairwise_singleton _ _, ?_⟩
    intro a _ b hb _ isOperator
    obtain rfl := List.mem_singleton.mp hb
    rw [ends.1] at isOperator
    cases isOperator
  fits := by
    have lastFits : Fitting [] [last] [] := by
      apply Word.fitting_of_free
      simp [Mark.Free, Mark.IsArgument, ends]
    intro front w behind split
    simpa using (fitting.beside lastFits).fits front w behind split

/-- The tokens of every text have the shape that a parser of rules expects. -/
theorem tokens_shaped (text : List Char) :
    Shaped ((Lexer.ofText text {}).tokens.map (Token.word text)) := by
  have words : (Cell.tokens {} 0 (Text.layout text).cells).map (Token.word text) =
      Cell.words 1 (Text.layout text).cells :=
    Cell.map_word_tokens [] (Text.source_layout text).symm
  have arrows := Place.arrows_layout { rest := text } 1
  rw [Lexer.tokens_ofText, Stretch.tokens, List.map_append, List.map_singleton, words]
  exact .of_fitting (Place.fitting_layout _ 1) arrows.2 ⟨rfl, rfl⟩

end RuleLexer
