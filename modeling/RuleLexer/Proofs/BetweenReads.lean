import RuleLexer.Proofs.DocumentOrder
import RuleLexer.Proofs.Ending
import RuleLexer.Proofs.ScannerRuns

/-!
# Between two reads

What a lexer looks like whenever a token was handed out, and before the first.

* `Place.Coherent`: line mode, nesting and text agree, which a scan keeps
  (`Place.Coherent.scan`);
* `Lexer.Consistent`: so do cursor, queue and the tokens that were handed out.
  Scans keep that as long as the queue is empty (`Consistent.scan`), and so
  does reading (`Consistent.readToken`);
* `afterReads_consistent`: so much holds after any number of reads.
-/

namespace RuleLexer

open Cell (source)

/-! ## Places -/

/-- The line mode at a place agrees with what else is known there. -/
structure Place.Coherent (p : Place) : Prop where
  /-- Lines that are not indented lie at the top. -/
  top : p.mode = .header ∨ p.mode = .item → p.nesting.depth = 1
  /-- Nothing is left of a blank line. -/
  blank : p.mode = .blank → Text.atLineEnd p.rest = true

theorem LineMode.atLineEnd_of_ofText {text : List Char} (blank : ofText text = .blank) :
    Text.atLineEnd (text.dropWhile isBlank) = true := by
  unfold ofText at blank
  split at blank
  · assumption
  · split at blank
    · rfl
    · repeat' split at blank
      all_goals cases blank

/-- Only on header lines does something lead over to an item. -/
theorem LineMode.itemFollows_read {mode : LineMode} {line : List Char}
    (follows : (mode.read line).itemFollows = true) : mode = .header := by
  cases mode with
  | header => rfl
  | subsection | item | blank => simp [read, Item.itemFollows_read] at follows

namespace Stretch

theorem coherent_lineStart (nesting : Nesting) (text : List Char) :
    (lineStart nesting text).place.Coherent := by
  unfold lineStart
  cases mode : LineMode.ofText text with
  | header => exact ⟨fun _ => rfl, by simp⟩
  | item => exact ⟨fun _ => rfl, by simp⟩
  | subsection => exact ⟨by simp, by simp⟩
  | blank => exact ⟨by simp, fun _ => LineMode.atLineEnd_of_ofText mode⟩

theorem coherent_ofPart {p : Place} (h : p.Coherent) (inside : p.mode ≠ .blank) (line : List Char) :
    (ofPart p (p.mode.read line)).place.Coherent := by
  have behind (rest : List Char) : Place.Coherent
      { p with mode := if (p.mode.read line).itemFollows then .item else p.mode, rest } := by
    split
    · rename_i follows
      exact ⟨fun _ => h.top (.inl (LineMode.itemFollows_read follows)), by simp⟩
    · exact ⟨h.top, fun blank => absurd blank inside⟩
  unfold ofPart
  dsimp only
  rw [place_behind]
  split
  · exact behind _
  · split
    · exact behind _
    · exact coherent_lineStart _ _

end Stretch

theorem Place.Coherent.scan {p : Place} (h : p.Coherent) : p.scan.place.Coherent := by
  have behindBlanks : Coherent { p with rest := p.rest.dropWhile isBlank } := by
    refine ⟨h.top, fun blank => ?_⟩
    have ends := h.blank blank
    rwa [Text.dropWhile_of_atLineEnd ends]
  unfold Place.scan
  dsimp only
  rw [Stretch.place_behind]
  split
  · exact Stretch.coherent_lineStart _ _
  · split
    · exact behindBlanks
    · rename_i inside
      exact Stretch.coherent_ofPart behindBlanks (fun blank => inside (behindBlanks.blank blank)) _

/-! ## The scanner of a lexer -/

theorem Scanner.ahead_commit (n : Nat) (s : Scanner) : (s.commit n).ahead = 0 := by
  unfold commit
  split <;> rfl

/-- A scan commits to what it saw and looks no further ahead. -/
theorem Lexer.scanner_scan {L : Lexer} (lookahead : L.scanner.ahead = 0) :
    L.scan.scanner = L.scanner.stepTo (Text.width (source L.place.scan.cells)) := by
  rw [scan_eq]
  exact Scanner.pass_eq_stepTo lookahead L.place.source_scan.symm

/-! ## Scanning -/

namespace Lexer

variable {text : List Char} {delivered : Nat} {L : Lexer}

/-- What holds of a lexer between two reads, given where the latest token stops
that was handed out. -/
structure Consistent (text : List Char) (delivered : Nat) (L : Lexer) : Prop where
  /-- The scanner was only asked for what any scanner can be asked for. -/
  scanner : ∃ operations, Scanner.Run (.ofText text) operations L.scanner
  /-- Nothing is looked at ahead of the cursor. A lexer takes pieces without moving
  the lookahead, so it stays at the cursor from the start. -/
  lookahead : L.scanner.ahead = 0
  /-- The cursor is between two characters, not inside a line break and not
  beyond the first NUL. -/
  cursor : ∃ passed, text = passed ++ L.scanner.rest ∧ L.scanner.index = Text.width passed ∧
    Text.Seam passed L.scanner.rest ∧ endOfText ∉ passed
  place : L.place.Coherent
  /-- The queue is in document order. -/
  ordered : L.queue.Pairwise fun a b => a.span.stop ≤ b.span.start
  /-- Its tokens lie behind those that were handed out, and the cursor behind them. -/
  within : ∀ t ∈ L.queue,
    delivered ≤ t.span.start ∧ t.span.start ≤ t.span.stop ∧ t.span.stop ≤ L.scanner.index
  delivered : delivered ≤ L.scanner.index

theorem Consistent.ofText (text : List Char) (options : LexerOptions) :
    (ofText text options).Consistent text 0 where
  scanner := ⟨[], .nil _⟩
  lookahead := rfl
  cursor := ⟨[], rfl, rfl, .nil text, List.not_mem_nil⟩
  place := ⟨fun _ => rfl, by simp [Lexer.ofText, Lexer.place]⟩
  ordered := .nil
  within := by simp [Lexer.ofText]
  delivered := Nat.le_refl 0

/-- A scan that is started with an empty queue. -/
theorem Consistent.scan (h : Consistent text delivered L) (idle : L.queue = []) :
    Consistent text delivered L.scan := by
  obtain ⟨passed, whole, index, seam, noEnd⟩ := h.cursor
  have cells : source L.place.scan.cells ++ L.place.scan.place.rest = L.scanner.rest :=
    L.place.source_scan
  have rest : L.scan.scanner.rest = L.place.scan.place.rest :=
    congrArg Place.rest L.place_scan
  have moved : L.scan.scanner.index = L.scanner.index + Text.width (source L.place.scan.cells) := by
    rw [scan_eq]
    exact index_follow cells
  have queue : L.scan.queue = Cell.tokens L.options L.scanner.index L.place.scan.cells := by
    rw [queue_scan, idle, List.nil_append]
  constructor
  case scanner =>
    obtain ⟨operations, run⟩ := h.scanner
    rw [scanner_scan h.lookahead]
    refine ⟨_, run.stepTo ?_⟩
    rw [← cells, Text.cut_width_append]
    rfl
  case lookahead =>
    rw [scanner_scan h.lookahead]
    exact Scanner.ahead_commit _ _
  case cursor =>
    refine ⟨passed ++ source L.place.scan.cells, ?_, ?_, ?_, ?_⟩
    · rw [rest, List.append_assoc, cells, whole]
    · rw [moved, index, Text.width_append]
    · have all : L.place.scan.cells = L.place.scan.cells ++ [] := by simp
      have next := Place.seams_scan (p := L.place) seam all
      rwa [Cell.source_nil, List.nil_append, ← rest] at next
    · intro mem
      rcases List.mem_append.mp mem with mem | mem
      · exact noEnd mem
      · obtain ⟨c, hc, mem⟩ := Cell.exists_of_mem_source mem
        exact L.place.endOfText_notMem_scan c hc mem
  case place =>
    rw [place_scan]
    exact h.place.scan
  case ordered =>
    rw [queue]
    exact Cell.pairwise_tokens _ _ _
  case within =>
    intro t ht
    rw [queue] at ht
    obtain ⟨start, inOrder, stop⟩ := Cell.bounds_of_mem_tokens ht
    exact ⟨Nat.le_trans h.delivered start, inOrder, moved ▸ stop⟩
  case delivered =>
    rw [moved]
    exact Nat.le_trans h.delivered (Nat.le_add_right _ _)

theorem Consistent.settle (h : Consistent text delivered L) : Consistent text delivered L.settle :=
  settle_induction (fun _ h _ idle => h.scan idle) h

/-- The token that is read lies behind those that were handed out before. -/
theorem Consistent.readToken (h : Consistent text delivered L) :
    delivered ≤ L.readToken.1.span.stop ∧
      Consistent text L.readToken.1.span.stop L.readToken.2 := by
  have settled := h.settle
  cases queue : L.settle.queue with
  | nil =>
    rw [readToken_of_empty queue]
    exact ⟨settled.delivered,
      { settled with within := by simp [queue], delivered := Nat.le_refl _ }⟩
  | cons t more =>
    rw [readToken_of_waiting queue]
    have ordered := settled.ordered
    have within := settled.within
    rw [queue] at ordered within
    obtain ⟨behind, ordered⟩ := List.pairwise_cons.mp ordered
    obtain ⟨⟨start, inOrder, stop⟩, within⟩ := List.forall_mem_cons.mp within
    refine ⟨Nat.le_trans start inOrder, { settled with ordered, within := ?_, delivered := stop }⟩
    intro u hu
    exact ⟨behind u hu, (within u hu).2⟩

/-- Any number of tokens may be read. -/
theorem Consistent.afterReads (h : Consistent text delivered L) (n : Nat) :
    ∃ latest, delivered ≤ latest ∧ Consistent text latest (L.afterReads n) ∧
      ∀ m < n, (L.afterReads m).readToken.1.span.stop ≤ latest := by
  induction n generalizing L delivered with
  | zero => exact ⟨delivered, Nat.le_refl _, h, by simp⟩
  | succ n ih =>
    obtain ⟨start, next⟩ := h.readToken
    obtain ⟨latest, le, reached, earlier⟩ := ih next
    refine ⟨latest, Nat.le_trans start le, reached, ?_⟩
    intro m lt
    cases m with
    | zero => exact le
    | succ m => exact earlier m (by omega)

end Lexer

/-- Whatever the text and however many tokens were read, the lexer is consistent,
with all tokens that were handed out in front of those that wait. And for the
next token it scans only while none waits. -/
theorem afterReads_consistent (text : List Char) (options : LexerOptions) (n : Nat) :
    let L := Lexer.ofText text options
    (∃ delivered, (L.afterReads n).Consistent text delivered ∧
      ∀ m < n, (L.afterReads m).readToken.1.span.stop ≤ delivered) ∧
    ∃ scans, (∀ i < scans, ((L.afterReads n).afterScans i).queue = []) ∧
      (L.afterReads n).readToken =
        match ((L.afterReads n).afterScans scans).queue with
        | [] => (((L.afterReads n).afterScans scans).endToken, (L.afterReads n).afterScans scans)
        | token :: queue => (token, { (L.afterReads n).afterScans scans with queue }) := by
  intro L
  obtain ⟨delivered, -, consistent, earlier⟩ := (Lexer.Consistent.ofText text options).afterReads n
  obtain ⟨scans, -, idle, -, read⟩ := (L.afterReads n).readToken_returns
  exact ⟨⟨delivered, consistent, earlier⟩, scans, fun i lt => (idle i lt).2, read⟩

end RuleLexer
