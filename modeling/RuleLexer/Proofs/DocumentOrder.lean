import RuleLexer.Proofs.Reading

/-!
# Document order

Tokens come in the order of the text and do not overlap, and where a token
starts or stops the text can be cut.

* `seams_layout`: no line break is cut between two cells;
* `one_le_depth_layout`: cells lie at depth 1 or deeper;
* `tokens_inDocumentOrder`: so much holds of all tokens of a text.
-/

namespace RuleLexer

open Cell (source)

/-- An offset between two characters of a text, and not inside a line break. -/
def Text.IsCut (text : List Char) (offset : Nat) : Prop :=
  ∃ before behind, text = before ++ behind ∧ width before = offset ∧ Seam before behind

namespace Place

variable {p : Place}

theorem seams_scan {before : List Char} (h : Text.Seam before p.rest) {a b : List Cell}
    (split : p.scan.cells = a ++ b) :
    Text.Seam (before ++ source a) (source b ++ p.scan.place.rest) := by
  have scanned := p.scan_scanned
  generalize p.scan = s at scanned split
  cases scanned with
  | within tail line rest =>
    rw [split, Cell.source_append, List.append_assoc] at line
    rw [rest, ← List.append_assoc]
    exact h.append_line line
  | @across cells piece tail line chars found =>
    have isBreak := (Text.lineBreak_cases _).resolve_left found
    generalize hnext : (Text.behindLine p.rest).drop _ = next at split ⊢
    have whole := Stretch.source_lineStart p.nesting next
    have blank := Stretch.lineStart_blanks p.nesting next
    simp only [Stretch.cells_behind, Stretch.lineBreak, Stretch.place_behind] at split ⊢
    rcases List.append_eq_append_iff.mp split with ⟨more, rfl, broken⟩ | ⟨more, rfl, rfl⟩
    · -- behind the piece with the line break, unless nothing of it is in front
      cases more with
      | nil =>
        rw [List.nil_append] at broken
        rw [List.append_nil, ← broken, Cell.source_cons, chars, List.append_assoc, whole,
          List.append_assoc, ← hnext, Text.lineBreak_append_drop]
        exact h.append_line line
      | cons c indent =>
        rw [List.cons_append, List.cons.injEq] at broken
        obtain ⟨rfl, indented⟩ := broken
        rw [indented, Cell.source_append] at blank
        rw [Cell.source_append, Cell.source_cons, chars]
        have blank : ∀ x ∈ source indent, isBlank x = true := by
          intro x hx
          exact blank x (List.mem_append_left _ hx)
        have := Text.Seam.of_lineBreak isBreak blank (before ++ source cells ++ tail)
          (source b ++ (Stretch.lineStart p.nesting next).place.rest)
        simpa using this
    · rw [Cell.source_append, List.append_assoc] at line
      rw [Cell.source_append, Cell.source_cons, chars, List.append_assoc, List.append_assoc,
        List.append_assoc, whole, ← hnext, Text.lineBreak_append_drop, ← List.append_assoc]
      exact h.append_line line

/-- No line break is cut between two cells of a layout. -/
theorem seams_layout {before : List Char} (h : Text.Seam before p.rest) {a b : List Cell}
    (split : p.layout.cells = a ++ b) :
    Text.Seam (before ++ source a) (source b ++ p.layout.place.rest) := by
  fun_induction layout p generalizing before a with
  | case1 p ended => exact seams_scan h split
  | case2 p goesOn ih =>
    simp only [Stretch.cells_behind, Stretch.place_behind] at split ⊢
    rcases List.append_eq_append_iff.mp split with ⟨more, rfl, later⟩ | ⟨more, here, rfl⟩
    · have next := seams_scan h (a := p.scan.cells) (b := []) (by simp)
      rw [Cell.source_nil, List.nil_append] at next
      rw [Cell.source_append, ← List.append_assoc]
      exact ih next later
    · have next := seams_scan h here
      rw [Cell.source_append, List.append_assoc, source_layout]
      exact next

theorem one_le_depth_scan (h : 1 ≤ p.nesting.depth) :
    (∀ c ∈ p.scan.cells, 1 ≤ c.depth) ∧ 1 ≤ p.scan.place.nesting.depth := by
  have scanned := p.scan_scanned
  generalize p.scan = s at scanned
  cases scanned with
  | within tail line rest nesting depth =>
    refine ⟨?_, nesting ▸ h⟩
    intro c hc
    rw [depth c hc]
    exact h
  | across tail line chars found depth =>
    have next := Stretch.one_le_depth_lineStart h
      ((Text.behindLine p.rest).drop (Text.lineBreak (Text.behindLine p.rest)).length)
    refine ⟨List.forall_mem_append.mpr ⟨?_, List.forall_mem_cons.mpr ⟨h, ?_⟩⟩, next⟩
    · intro c hc
      rw [depth c hc]
      exact h
    · intro c hc
      rw [Stretch.depth_lineStart _ _ c hc]
      exact next

theorem one_le_depth_layout (h : 1 ≤ p.nesting.depth) :
    (∀ c ∈ p.layout.cells, 1 ≤ c.depth) ∧ 1 ≤ p.layout.place.nesting.depth :=
  layout_induction (fun _ => one_le_depth_scan) h

end Place

namespace Text

variable {text : List Char}

theorem seams_layout {a b : List Cell} (split : (layout text).cells = a ++ b) :
    Seam (source a) (source b ++ (layout text).place.rest) := by
  have seam : Seam ([] ++ source a) (source b ++ (layout text).place.rest) :=
    Place.seams_layout (.nil text) split
  rwa [List.nil_append] at seam

/-- Between two cells, a text can be cut. -/
theorem isCut_layout {a b : List Cell} (split : (layout text).cells = a ++ b) :
    IsCut text (width (source a)) := by
  refine ⟨source a, source b ++ (layout text).place.rest, ?_, rfl, seams_layout split⟩
  rw [← List.append_assoc, ← Cell.source_append, ← split, source_layout]

theorem one_le_depth_layout (text : List Char) :
    (∀ c ∈ (layout text).cells, 1 ≤ c.depth) ∧ 1 ≤ (layout text).place.nesting.depth :=
  Place.one_le_depth_layout (Nat.le_refl 1)

/-- A token lies between two cuts of the text, at depth 1 or deeper. -/
theorem isCut_of_mem_tokens {options : LexerOptions} {t : Token}
    (h : t ∈ (layout text).tokens options 0) :
    t.span.start ≤ t.span.stop ∧ t.span.stop ≤ width text ∧
      IsCut text t.span.start ∧ IsCut text t.span.stop ∧ 1 ≤ t.depth := by
  have within := width_source_layout_le text
  have depth := one_le_depth_layout text
  rcases List.mem_append.mp h with h | h
  · have bounds := Cell.bounds_of_mem_tokens h
    obtain ⟨a, c, b, split, token⟩ := Cell.mem_tokens_iff.mp h
    obtain ⟨span, same⟩ := Cell.span_of_token? token
    have start : IsCut text (width (source a)) := isCut_layout split
    have stop : IsCut text (width (source (a ++ [c]))) := isCut_layout (b := b) (by simp [split])
    refine ⟨bounds.2.1, by omega, ?_, ?_, ?_⟩
    · simpa [span] using start
    · simpa [span] using stop
    · rw [same]
      exact depth.1 c (by simp [split])
  · obtain rfl := List.mem_singleton.mp h
    have cut : IsCut text (width (source (layout text).cells)) := isCut_layout (b := []) (by simp)
    simp only [Span.empty, Nat.zero_add]
    exact ⟨Nat.le_refl _, within, cut, cut, depth.2⟩

end Text

/-- The tokens of a text come in the order of the text, do not overlap, start
and stop where the text can be cut, and would all be accepted as tokens. The
last one, and no other, is the end-of-file token. -/
theorem tokens_inDocumentOrder (text : List Char) (options : LexerOptions) :
    let tokens := (Lexer.ofText text options).tokens
    (∀ t ∈ tokens, t.span.start ≤ t.span.stop ∧ t.span.stop ≤ Text.width text ∧
      Text.IsCut text t.span.start ∧ Text.IsCut text t.span.stop ∧ 1 ≤ t.depth ∧
      Token.make t.span t.depth t.kind t.context t.value = .ok t) ∧
    tokens.Pairwise (fun a b => a.span.stop ≤ b.span.start) ∧
    ∃ front last, tokens = front ++ [last] ∧ last.kind = .endOfFile ∧
      ∀ t ∈ front, t.kind ≠ .endOfFile := by
  rw [Lexer.tokens_ofText]
  intro tokens
  refine ⟨?_, ?_, ?_⟩
  · intro t ht
    obtain ⟨inOrder, stop, startCut, stopCut, one_le⟩ := Text.isCut_of_mem_tokens ht
    exact ⟨inOrder, stop, startCut, stopCut, one_le,
      Token.make_eq_ok_iff.mpr ⟨inOrder, one_le, rfl⟩⟩
  · apply List.pairwise_append.mpr
    refine ⟨Cell.pairwise_tokens _ _ _, List.pairwise_singleton _ _, ?_⟩
    intro a ha b hb
    obtain rfl := List.mem_singleton.mp hb
    exact (Cell.bounds_of_mem_tokens ha).2.2
  · exact ⟨_, _, rfl, rfl, Cell.kind_ne_endOfFile (Text.forms_layout text)⟩

end RuleLexer
