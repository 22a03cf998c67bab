import RuleLexer.Proofs.Layout

/-!
# Reading a layout

Reading hands out the tokens of the layout of what is left of the text, and
then the end-of-file token.

* `remaining`: the tokens that are still to be handed out; scanning does not
  change them (`remaining_scan`);
* `collect_eq_map`: reading visits exactly them, whatever is noted about them;
* `tokens_ofText`: the tokens of a text are those of its layout.
-/

namespace RuleLexer

open Cell (source)

/-- The tokens of a stretch that reaches the end of the text. -/
def Stretch.tokens (options : LexerOptions) (index : Nat) (s : Stretch) : List Token :=
  Cell.tokens options index s.cells ++
    [{ span := .empty (index + Text.width (source s.cells)), depth := s.place.nesting.depth,
       kind := .endOfFile, value := "" }]

theorem Stretch.tokens_behind (options : LexerOptions) (index : Nat) (cells : List Cell)
    (s : Stretch) : (s.behind cells).tokens options index =
      Cell.tokens options index cells ++ s.tokens options (index + Text.width (source cells)) := by
  simp [Stretch.tokens, Cell.tokens_append, Nat.add_assoc]

/-- Cells yield no end-of-file token. -/
theorem Cell.kind_ne_endOfFile {options : LexerOptions} {index : Nat} {cells : List Cell}
    (forms : ∀ c ∈ cells, c.piece.Form true) :
    ∀ t ∈ tokens options index cells, t.kind ≠ .endOfFile := by
  intro t ht
  obtain ⟨before, c, behind, rfl, token⟩ := mem_tokens_iff.mp ht
  obtain ⟨mark, marked, -, rfl⟩ := token?_eq_some_iff.mp token
  exact (forms c (by simp)).kind_ne_endOfFile marked

namespace Lexer

variable {L : Lexer}

/-- The tokens that are still to be handed out. -/
def remaining (L : Lexer) : List Token :=
  L.queue ++ if L.ended then [L.endToken] else L.place.layout.tokens L.options L.scanner.index

theorem index_follow {s : Stretch} {rest : List Char}
    (h : source s.cells ++ rest = L.scanner.rest) :
    (L.follow s).scanner.index = L.scanner.index + Text.width (source s.cells) := by
  simp [follow, move, (Scanner.pass_prefix h.symm).1]

theorem place_scan (L : Lexer) : L.scan.place = L.place.scan.place := by
  have rest : L.scan.scanner.rest = L.place.scan.place.rest := by
    rw [scan_eq]
    exact rest_move L.place.source_scan.symm
  simp only [place, rest]
  simp [scan_eq, follow, place]

theorem queue_scan (L : Lexer) :
    L.scan.queue = L.queue ++ Cell.tokens L.options L.scanner.index L.place.scan.cells := by
  rw [scan_eq]
  rfl

/-- Scanning finds the tokens that were to come, and no others. -/
theorem remaining_scan (h : L.ended = false) : L.scan.remaining = L.remaining := by
  have index := index_follow (L := L) L.place.source_scan
  have ended : L.scan.ended = L.place.scan.ended := by simp [scan_eq, follow, h]
  have options : L.scan.options = L.options := by rw [scan_eq]; rfl
  have nesting : L.scan.nesting = L.place.scan.place.nesting := by rw [scan_eq]; rfl
  rw [← scan_eq] at index
  unfold remaining
  rw [queue_scan, ended, h, List.append_assoc]
  cases found : L.place.scan.ended with
  | true =>
    rw [Place.layout_of_ended found]
    simp [Stretch.tokens, endToken, index, nesting, depth]
  | false =>
    rw [Place.layout_of_goesOn found, Stretch.tokens_behind]
    simp [options, index, place_scan]

theorem queue_scan_ne_endOfFile (h : ∀ t ∈ L.queue, t.kind ≠ .endOfFile) :
    ∀ t ∈ L.scan.queue, t.kind ≠ .endOfFile := by
  rw [queue_scan]
  exact List.forall_mem_append.mpr ⟨h, Cell.kind_ne_endOfFile L.place.forms_scan⟩

section Collect

variable {α : Type} {note : Lexer → Token → α} {f : Token → α} {P : Lexer → Prop}

theorem settle_induction (scan : ∀ L, P L → L.ended = false → L.queue = [] → P L.scan)
    (h : P L) : P L.settle := by
  fun_induction settle L with
  | case1 L idle ih => exact ih (scan L h idle.1 idle.2)
  | case2 L => exact h

theorem remaining_settle (L : Lexer) : L.settle.remaining = L.remaining := by
  fun_induction settle L with
  | case1 L idle ih => rw [ih, remaining_scan idle.1]
  | case2 L => rfl

theorem readToken_of_empty (h : L.settle.queue = []) :
    L.readToken = (L.settle.endToken, L.settle) := by
  simp [readToken, h]

theorem readToken_of_waiting {t : Token} {queue : List Token} (h : L.settle.queue = t :: queue) :
    L.readToken = (t, { L.settle with queue }) := by
  simp [readToken, h]

/-- Reading visits the tokens that are still to be handed out. What is noted
about a token may depend on the lexer as far as an invariant tells. -/
theorem collect_eq_map (scan : ∀ L, P L → L.ended = false → L.queue = [] → P L.scan)
    (next : ∀ L t queue, P L → L.queue = t :: queue →
      note { L with queue } t = f t ∧ P { L with queue })
    (last : ∀ L, P L → L.ended = true → L.queue = [] → note L L.endToken = f L.endToken)
    (L : Lexer) (h : P L) (noEnd : ∀ t ∈ L.queue, t.kind ≠ .endOfFile) :
    L.collect note = L.remaining.map f := by
  have settled : P L.settle ∧ ∀ t ∈ L.settle.queue, t.kind ≠ .endOfFile :=
    settle_induction (P := fun L => P L ∧ ∀ t ∈ L.queue, t.kind ≠ .endOfFile)
      (fun L h ended idle => ⟨scan L h.1 ended idle, queue_scan_ne_endOfFile h.2⟩) ⟨h, noEnd⟩
  rw [collect_eq, ← remaining_settle L]
  cases hqueue : L.settle.queue with
  | nil =>
    have ended : L.settle.ended = true := by
      rcases L.settle_settled with ended | waits
      · exact ended
      · exact absurd hqueue waits
    rw [readToken_of_empty hqueue, last _ settled.1 ended hqueue]
    simp [remaining, hqueue, ended, endToken]
  | cons t queue =>
    obtain ⟨noted, kept⟩ := next _ t queue settled.1 hqueue
    have queued := settled.2
    rw [hqueue] at queued
    have notLast := queued t (by simp)
    have more : ∀ u ∈ queue, u.kind ≠ .endOfFile := fun u hu => queued u (by simp [hu])
    have advances : Prod.Lex (· < ·) (· < ·)
        (({ L.settle with queue } : Lexer).unscanned, queue.length)
        (L.unscanned, L.queue.length) := by
      have := readToken_advances (L := L) (by rwa [readToken_of_waiting hqueue])
      rwa [readToken_of_waiting hqueue] at this
    rw [readToken_of_waiting hqueue]
    dsimp only
    rw [if_neg notLast, collect_eq_map scan next last _ kept more, noted]
    simp [remaining, hqueue, place, endToken, depth]
termination_by (L.unscanned, L.queue.length)
decreasing_by exact advances

end Collect

theorem tokens_eq_remaining (noEnd : ∀ t ∈ L.queue, t.kind ≠ .endOfFile) :
    L.tokens = L.remaining := by
  rw [tokens, collect_eq_map (f := id) (P := fun _ => True) (by simp) (by simp) (by simp) _ trivial
    noEnd, List.map_id]

end Lexer

namespace Text

/-- The layout of a text, from its start. -/
def layout (text : List Char) : Stretch := Place.layout { rest := text }

theorem source_layout (text : List Char) :
    source (layout text).cells ++ (layout text).place.rest = text :=
  Place.source_layout _

theorem source_layout_eq (text : List Char) :
    source (layout text).cells = text.takeWhile (· ≠ endOfText) :=
  Place.source_layout_eq _

theorem forms_layout (text : List Char) : ∀ c ∈ (layout text).cells, c.piece.Form true :=
  Place.forms_layout _

/-- Where a cell lies in the text. -/
theorem whole_layout {text : List Char} {a b : List Cell} {c : Cell}
    (split : (layout text).cells = a ++ c :: b) :
    text = source a ++ c.piece.chars ++ (source b ++ (layout text).place.rest) := by
  have whole := source_layout text
  rw [split, Cell.source_append, Cell.source_cons] at whole
  simpa using whole.symm

theorem width_source_layout_le (text : List Char) :
    width (source (layout text).cells) ≤ width text := by
  have whole := congrArg width (source_layout text)
  rw [width_append] at whole
  omega

end Text

theorem Lexer.tokens_ofText (text : List Char) (options : LexerOptions) :
    (ofText text options).tokens = (Text.layout text).tokens options 0 := by
  rw [tokens_eq_remaining (by simp [ofText])]
  rfl

end RuleLexer
