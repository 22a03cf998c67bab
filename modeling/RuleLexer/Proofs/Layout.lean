import RuleLexer.Proofs.Lines
import RuleLexer.Proofs.Parts
import RuleLexer.Proofs.Place

/-!
# Layout

How a whole text is laid out in cells.

* `Place.Scanned`: a scan stays within its line, or takes the line break with
  one cell and begins the next line; `scan_scanned`: every scan does;
* `Place.layout`: scans up to the end of the text;
* `source_layout`: cells leave nothing of the text out;
* `source_layout_eq`: they cover it up to its first NUL;
* `forms_layout`: each cell has one of the forms of pieces.
-/

namespace RuleLexer

/-! ## What a scan covers -/

open Piece (Form)

namespace Stretch

@[simp]
theorem cells_behind (cells : List Cell) (s : Stretch) :
    (s.behind cells).cells = cells ++ s.cells := rfl

@[simp]
theorem place_behind (cells : List Cell) (s : Stretch) : (s.behind cells).place = s.place := rfl

@[simp]
theorem ended_behind (cells : List Cell) (s : Stretch) : (s.behind cells).ended = s.ended := rfl

theorem behind_behind (a b : List Cell) (s : Stretch) :
    (s.behind b).behind a = s.behind (a ++ b) := by
  simp [behind]

/-- The start of a line covers its indentation, if the line begins with blanks. -/
theorem source_lineStart (nesting : Nesting) (text : List Char) :
    Cell.source (lineStart nesting text).cells ++ (lineStart nesting text).place.rest = text := by
  unfold lineStart
  cases LineMode.ofText text <;> simp [List.takeWhile_append_dropWhile]

theorem lineStart_blanks (nesting : Nesting) (text : List Char) :
    ∀ c ∈ Cell.source (lineStart nesting text).cells, isBlank c = true := by
  have blanks : ∀ c ∈ text.takeWhile isBlank, isBlank c = true := by
    intro c hc
    exact Text.isBlank_of_mem_takeWhile hc
  unfold lineStart
  cases LineMode.ofText text
  case header | item => simp
  case blank | subsection => simpa using blanks

theorem forms_lineStart (nesting : Nesting) (text : List Char) :
    ∀ c ∈ (lineStart nesting text).cells, c.piece.Form true := by
  unfold lineStart
  cases LineMode.ofText text
  case header | item => simp
  case blank => simpa using Form.takeWhile_blank true text
  case subsection =>
    have blank : ∀ c ∈ text.takeWhile isBlank, isBlank c = true := by
      intro c hc
      exact Text.isBlank_of_mem_takeWhile hc
    have form : (nesting.indentPiece (text.takeWhile isBlank)).Form true := by
      unfold Nesting.indentPiece
      split
      · refine .indent ?_ blank
        split <;> simp
      · exact .plain rfl (by simp)
    simpa using form

/-- The start of a line lies at the depth of the line. -/
theorem depth_lineStart (nesting : Nesting) (text : List Char) :
    ∀ c ∈ (lineStart nesting text).cells,
      c.depth = (lineStart nesting text).place.nesting.depth := by
  unfold lineStart
  cases LineMode.ofText text <;> simp

theorem one_le_depth_lineStart {nesting : Nesting} (h : 1 ≤ nesting.depth) (text : List Char) :
    1 ≤ (lineStart nesting text).place.nesting.depth := by
  unfold lineStart
  cases LineMode.ofText text with
  | header | item => exact Nat.le_refl 1
  | blank => exact h
  | subsection => exact Nesting.one_le_depth_enter h _

theorem ended_lineStart (nesting : Nesting) (text : List Char) :
    (lineStart nesting text).ended = false := by
  unfold lineStart
  cases LineMode.ofText text <;> rfl

end Stretch

/-- How a scan from a place can turn out. -/
inductive Place.Scanned (p : Place) : Stretch → Prop
  /-- It stays within the line. -/
  | within {s : Stretch} (tail : List Char) (line : Text.line p.rest = Cell.source s.cells ++ tail)
      (rest : s.place.rest = tail ++ Text.behindLine p.rest)
      (nesting : s.place.nesting = p.nesting)
      (depth : ∀ c ∈ s.cells, c.depth = p.nesting.depth)
      (forms : ∀ c ∈ s.cells, c.piece.Form true)
      (advances : s.ended = false → Cell.source s.cells ≠ [])
      (stops : s.ended = true → tail = [] ∧ Text.lineBreak (Text.behindLine p.rest) = []) :
      p.Scanned s
  /-- It takes the line break, with what is left of the line. -/
  | across {cells : List Cell} {piece : Piece} (tail : List Char)
      (line : Text.line p.rest = Cell.source cells ++ tail)
      (chars : piece.chars = tail ++ Text.lineBreak (Text.behindLine p.rest))
      (found : Text.lineBreak (Text.behindLine p.rest) ≠ [])
      (depth : ∀ c ∈ cells, c.depth = p.nesting.depth)
      (forms : ∀ c ∈ cells, c.piece.Form true)
      (taken : piece = .valued .newLine .none ['\n'] piece.chars ∧ tail = [] ∨
        ∃ context, context ≠ .annotationName ∧ Literal.IsOpen tail ∧
          piece = .valued .error context (tail ++ ['\n']) piece.chars) :
      p.Scanned (.behind cells (.lineBreak p.nesting piece
        ((Text.behindLine p.rest).drop (Text.lineBreak (Text.behindLine p.rest)).length)))

/-- Where a part of the line is taken, blanks in front of it included. -/
theorem Place.ofPart_scanned {p : Place} {blanks : List Char} {part : LinePart}
    (line : Text.line p.rest = blanks ++ Text.line (p.rest.dropWhile isBlank))
    (blank : ∀ c ∈ blanks, isBlank c = true)
    (source : part.source <+: Text.line (p.rest.dropWhile isBlank))
    (advances : part.source ≠ []) (forms : ∀ q ∈ part.pieces, q.Form true)
    (isOpen : ∀ context chars, part.openLiteral = some (context, chars) →
      context ≠ .annotationName ∧ Literal.IsOpen chars ∧
        part.source = Text.line (p.rest.dropWhile isBlank)) :
    p.Scanned (.behind [⟨.silent blanks, p.nesting.depth⟩]
      (.ofPart { p with rest := p.rest.dropWhile isBlank } part)) := by
  obtain ⟨tail, source⟩ := source
  have drop := Text.drop_of_line source.symm
  rw [Text.behindLine_dropWhile] at drop
  have formed : ∀ c ∈ (⟨.silent blanks, p.nesting.depth⟩ :: part.pieces.map (⟨·, p.nesting.depth⟩) :
      List Cell), c.piece.Form true := by
    simpa using ⟨Piece.Form.blanks blank, forms⟩
  unfold Stretch.ofPart
  dsimp only
  rw [drop]
  cases hopen : part.openLiteral with
  | none =>
    have source : Piece.source part.pieces ++ tail = Text.line (p.rest.dropWhile isBlank) := by
      simpa [LinePart.source, hopen] using source
    refine .within tail ?_ rfl rfl ?_ ?_ ?_ ?_
    · simp [line, ← source]
    · simp
    · simpa using formed
    · simp_all [LinePart.source]
    · simp
  | some literal =>
    obtain ⟨context, chars⟩ := literal
    obtain ⟨context_ne, isOpen, all⟩ := isOpen context chars hopen
    obtain rfl : tail = [] := by simpa [all] using source
    have source : Piece.source part.pieces ++ chars = Text.line (p.rest.dropWhile isBlank) := by
      simpa [LinePart.source, hopen] using source
    rw [List.nil_append]
    dsimp only
    split
    · rename_i noBreak
      refine .within [] ?_ rfl rfl ?_ ?_ ?_ (by simp)
      · simp [line, ← source]
      · rintro c hc
        simp only [Stretch.cells_behind, List.mem_append, List.mem_map, List.mem_singleton] at hc
        rcases hc with rfl | ⟨_, _, rfl⟩ | rfl <;> rfl
      · simp only [Stretch.cells_behind, List.singleton_append, List.forall_mem_cons,
          List.forall_mem_append]
        exact ⟨.blanks blank, by simpa using forms, .plain rfl context_ne, by simp⟩
      · simp_all [LinePart.source]
    · rename_i found
      rw [Stretch.behind_behind]
      refine .across chars ?_ rfl found (by simp) ?_ (.inr ⟨context, context_ne, isOpen, rfl⟩)
      · simp [line, ← source]
      · simpa using formed

theorem Place.scan_scanned (p : Place) : p.Scanned p.scan := by
  have blank : ∀ c ∈ p.rest.takeWhile isBlank, isBlank c = true := by
    intro c hc
    exact Text.isBlank_of_mem_takeWhile hc
  have line : Text.line p.rest =
      p.rest.takeWhile isBlank ++ Text.line (p.rest.dropWhile isBlank) := by
    rw [← Text.takeWhile_line, ← Text.dropWhile_line, List.takeWhile_append_dropWhile]
  have behind := Text.behindLine_dropWhile p.rest
  unfold Place.scan
  dsimp only
  split
  · rename_i found
    have atEnd := Text.atLineEnd_of_lineBreak found
    rw [Text.behindLine_of_atLineEnd atEnd] at behind
    rw [(Text.line_eq_nil_iff _).mpr atEnd] at line
    rw [behind] at found ⊢
    exact .across [] (by simpa using line) rfl found (by simp)
      (by simpa using .blanks blank) (.inl ⟨rfl, rfl⟩)
  · rename_i noBreak
    simp only [ne_eq, Decidable.not_not] at noBreak
    split
    · rename_i atEnd
      rw [Text.behindLine_of_atLineEnd atEnd] at behind
      rw [(Text.line_eq_nil_iff _).mpr atEnd] at line
      exact .within [] (by simpa using line) (by simp [behind]) rfl (by simp)
        (by simpa using .blanks blank) (by simp) (by simp [← behind, noBreak])
    · rename_i inside
      have nonempty : Text.line (p.rest.dropWhile isBlank) ≠ [] := by
        rwa [ne_eq, Text.line_eq_nil_iff]
      exact ofPart_scanned line blank (p.mode.source_read _) (p.mode.source_read_ne_nil nonempty)
        (p.mode.forms_read _) (fun _ _ h => LineMode.open_read h)

namespace Place

theorem source_scan (p : Place) : Cell.source p.scan.cells ++ p.scan.place.rest = p.rest := by
  have whole := Text.line_append_behindLine p.rest
  have scanned := p.scan_scanned
  generalize p.scan = s at scanned
  cases scanned with
  | within tail line rest => rw [rest, ← List.append_assoc, ← line, whole]
  | across tail line chars =>
    have next := Stretch.source_lineStart p.nesting
      ((Text.behindLine p.rest).drop (Text.lineBreak (Text.behindLine p.rest)).length)
    have broken := Text.lineBreak_append_drop (Text.behindLine p.rest)
    simp only [Stretch.cells_behind, Stretch.place_behind, Stretch.lineBreak, Cell.source_append,
      Cell.source_cons, chars, List.append_assoc, next, broken]
    rw [← List.append_assoc, ← line, whole]

/-- A scan that does not find the end of the text moves forward. -/
theorem source_scan_ne_nil {p : Place} (h : p.scan.ended = false) :
    Cell.source p.scan.cells ≠ [] := by
  have scanned := p.scan_scanned
  generalize p.scan = s at scanned h
  cases scanned with
  | within _ _ _ _ _ _ advances => exact advances h
  | across _ _ chars found => simp [Stretch.lineBreak, chars, found]

theorem rest_scan_lt {p : Place} (h : p.scan.ended = false) :
    p.scan.place.rest.length < p.rest.length := by
  have whole := congrArg List.length p.source_scan
  have := List.length_pos_iff.mpr (source_scan_ne_nil h)
  simp only [List.length_append] at whole
  omega

/-- All of the text in front of a place, up to where it ends. -/
def layout (p : Place) : Stretch :=
  if _ : p.scan.ended = true then p.scan else p.scan.place.layout.behind p.scan.cells
termination_by p.rest.length
decreasing_by
  rename_i goesOn
  exact rest_scan_lt (by simpa using goesOn)

theorem layout_of_ended {p : Place} (h : p.scan.ended = true) : p.layout = p.scan := by
  rw [layout, dif_pos h]

theorem layout_of_goesOn {p : Place} (h : p.scan.ended = false) :
    p.layout = p.scan.place.layout.behind p.scan.cells := by
  rw [layout, dif_neg (by simp [h])]

theorem source_layout (p : Place) :
    Cell.source p.layout.cells ++ p.layout.place.rest = p.rest := by
  fun_induction layout p with
  | case1 p h => exact p.source_scan
  | case2 p h ih =>
    rw [Stretch.cells_behind, Stretch.place_behind, Cell.source_append, List.append_assoc, ih]
    exact p.source_scan

/-- A layout ends where the text ends, or at a NUL. -/
theorem ends_layout (p : Place) :
    p.layout.place.rest = [] ∨ p.layout.place.rest.head? = some endOfText := by
  fun_induction layout p with
  | case1 p ended =>
    have scanned := p.scan_scanned
    generalize p.scan = s at scanned ended
    cases scanned with
    | within tail line rest _ _ _ _ stops =>
      obtain ⟨rfl, noBreak⟩ := stops ended
      rw [rest]
      exact Text.ends_of_lineBreak (Text.atLineEnd_behindLine p.rest) noBreak
    | across =>
      rw [Stretch.ended_behind] at ended
      exact absurd ended (by simp [Stretch.lineBreak, Stretch.ended_lineStart])
  | case2 p goesOn ih => exact ih

/-- What scans keep of places and make of cells, the whole layout does. -/
theorem layout_induction {I : Place → Prop} {P : Cell → Prop}
    (scan : ∀ q, I q → (∀ c ∈ q.scan.cells, P c) ∧ I q.scan.place) {p : Place} (h : I p) :
    (∀ c ∈ p.layout.cells, P c) ∧ I p.layout.place := by
  fun_induction layout p with
  | case1 p ended => exact scan p h
  | case2 p goesOn ih =>
    obtain ⟨cells, place⟩ := scan p h
    obtain ⟨more, last⟩ := ih place
    exact ⟨List.forall_mem_append.mpr ⟨cells, more⟩, last⟩

theorem forall_mem_layout {P : Cell → Prop} (scan : ∀ q : Place, ∀ c ∈ q.scan.cells, P c)
    (p : Place) : ∀ c ∈ p.layout.cells, P c :=
  (layout_induction (I := fun _ => True) (fun q _ => ⟨scan q, trivial⟩) trivial).1

end Place

/-- Every cell of a scan has one of the forms of pieces. -/
theorem Place.forms_scan (p : Place) : ∀ c ∈ p.scan.cells, c.piece.Form true := by
  have scanned := p.scan_scanned
  generalize p.scan = s at scanned
  cases scanned with
  | within _ _ _ _ _ forms => exact forms
  | across tail line chars found depth forms taken =>
    refine List.forall_mem_append.mpr ⟨forms, List.forall_mem_cons.mpr ⟨?_, ?_⟩⟩
    · have isBreak := (Text.lineBreak_cases _).resolve_left found
      rcases taken with ⟨newLine, rfl⟩ | ⟨context, context_ne, isOpen, literal⟩
      · rw [newLine, chars]
        exact .newLine isBreak
      · rw [literal, chars]
        exact .openLiteral isOpen context_ne isBreak
    · exact Stretch.forms_lineStart _ _

theorem Place.forms_layout (p : Place) : ∀ c ∈ p.layout.cells, c.piece.Form true :=
  forall_mem_layout forms_scan p

namespace Place

/-- A scan stops in front of a NUL. -/
theorem endOfText_notMem_scan (p : Place) :
    ∀ c ∈ p.scan.cells, endOfText ∉ c.piece.chars := by
  have noEnd : endOfText ∉ Text.line p.rest := by
    intro mem
    exact (Text.ne_of_mem_line mem).2 rfl
  have scanned := p.scan_scanned
  generalize p.scan = s at scanned
  cases scanned with
  | within tail line =>
    intro c hc mem
    rw [line] at noEnd
    exact noEnd (List.mem_append_left _ (Cell.mem_source hc mem))
  | @across cells piece tail line chars found =>
    intro c hc mem
    rw [line, List.mem_append, not_or] at noEnd
    obtain ⟨inCells, inTail⟩ := noEnd
    rcases List.mem_append.mp hc with hc | hc
    · exact inCells (Cell.mem_source hc mem)
    · rcases List.mem_cons.mp hc with rfl | hc
      · dsimp only at mem
        rw [chars] at mem
        rcases List.mem_append.mp mem with mem | mem
        · exact inTail mem
        · rcases (Text.lineBreak_cases _).resolve_left found with isBreak | isBreak
          · simp [isBreak, endOfText] at mem
          · simp [isBreak, endOfText] at mem
      · cases Stretch.lineStart_blanks _ _ endOfText (Cell.mem_source hc mem)

/-- A layout covers the text up to its first NUL. -/
theorem source_layout_eq (p : Place) :
    Cell.source p.layout.cells = p.rest.takeWhile (· ≠ endOfText) := by
  have noEnd : ∀ x ∈ Cell.source p.layout.cells, decide (x ≠ endOfText) = true := by
    intro x hx
    obtain ⟨c, hc, mem⟩ := Cell.exists_of_mem_source hx
    apply decide_eq_true
    rintro rfl
    exact forall_mem_layout endOfText_notMem_scan p c hc mem
  have stops : p.layout.place.rest.takeWhile (· ≠ endOfText) = [] := by
    rcases p.ends_layout with rest | nul
    · rw [rest]
      rfl
    · cases h : p.layout.place.rest with
      | nil => rfl
      | cons c rest =>
        rw [h] at nul
        obtain rfl : c = endOfText := by simpa using nul
        simp
  have parts : (Cell.source p.layout.cells ++ p.layout.place.rest).takeWhile (· ≠ endOfText) = _ :=
    List.takeWhile_append_of_pos noEnd
  rw [source_layout, stops, List.append_nil] at parts
  exact parts.symm

end Place

end RuleLexer
