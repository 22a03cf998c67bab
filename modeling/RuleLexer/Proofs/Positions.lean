import Mathlib.Data.List.Induction
import RuleLexer.Proofs.Reading
import RuleLexer.TokenStream

/-!
# Positions of tokens

The lexer answers with the true positions of the tokens that it hands out,
however far it has scanned by then.

* `Scanner.Passed`: what the scanner knows behind a first part of the text;
* `positionAt_width`: every offset in that part has its true position;
* `locatedTokens_ofText`: so have all tokens of a text.
-/

namespace RuleLexer

namespace Text

/-- Where lines start in a text behind its line feeds, given where the text starts. -/
def startsFrom (index : Nat) : List Char → List Nat
  | [] => []
  | c :: rest =>
    let next := index + c.utf8Size
    if c = '\n' then next :: startsFrom next rest else startsFrom next rest

/-- Where lines start in a text, the latest first. -/
def lineStarts (text : List Char) : List Nat := (startsFrom 0 text).reverse ++ [0]

/-- The position of an offset in a text. -/
def positionOf (text : List Char) (offset : Nat) : Position :=
  Position.after ((slice? text 0 offset).getD [])

theorem startsFrom_append (index : Nat) (a b : List Char) :
    startsFrom index (a ++ b) = startsFrom index a ++ startsFrom (index + width a) b := by
  induction a generalizing index with
  | nil => simp [startsFrom]
  | cons c a ih =>
    simp only [List.cons_append, startsFrom, ih, width_cons, Nat.add_assoc]
    split <;> rfl

theorem lt_of_mem_startsFrom {index n : Nat} {text : List Char} (h : n ∈ startsFrom index text) :
    index < n := by
  induction text generalizing index with
  | nil => cases h
  | cons c rest ih =>
    have := c.utf8Size_pos
    simp only [startsFrom] at h
    split at h
    · rcases List.mem_cons.mp h with rfl | h
      · omega
      · have := ih h
        omega
    · have := ih h
      omega

theorem lineStarts_append (a b : List Char) :
    lineStarts (a ++ b) = (startsFrom (width a) b).reverse ++ lineStarts a := by
  simp [lineStarts, startsFrom_append]

/-- The latest line of a text, and what its column counts. -/
theorem exists_latestLine (text : List Char) :
    ∃ front latest more, text = front ++ latest ∧ lineStarts text = width front :: more ∧
      (Position.after text).line = more.length + 1 ∧
      (Position.after text).column = latest.length := by
  induction text using List.reverseRecOn with
  | nil => exact ⟨[], [], [], rfl, rfl, rfl, rfl⟩
  | append_singleton text c ih =>
    obtain ⟨front, latest, more, split, starts, line, column⟩ := ih
    rw [lineStarts_append, starts]
    by_cases feed : c = '\n'
    · subst feed
      refine ⟨text ++ ['\n'], [], width front :: more, by simp, by simp [startsFrom], ?_, ?_⟩
      · rw [Position.after_append_lineFeed]
        simp [Position.nextLine, line]
      · rw [Position.after_append_lineFeed]
        rfl
    · refine ⟨front, latest ++ [c], more, by simp [split], by simp [startsFrom, feed], ?_, ?_⟩
      · rw [Position.after_append_char feed]
        exact line
      · rw [Position.after_append_char feed]
        simp [Position.nextColumn, column]

theorem positionOf_width (a b : List Char) : positionOf (a ++ b) (width a) = Position.after a := by
  rw [positionOf, slice?_zero_width, Option.getD_some]

end Text

namespace Scanner

variable {s : Scanner} {passed : List Char}

@[simp]
theorem text_step (s : Scanner) : s.step.text = s.text := by
  unfold step
  repeat' split
  all_goals rfl

@[simp]
theorem text_pass (n : Nat) (s : Scanner) : (s.pass n).text = s.text := by
  induction n generalizing s with
  | zero => rfl
  | succ n ih => rw [pass, ih, text_step]

/-- The scanner has passed a first part of its text. -/
structure Passed (passed : List Char) (s : Scanner) : Prop where
  text : s.text = passed ++ s.rest
  index : s.index = Text.width passed
  lineStarts : s.lineStarts = Text.lineStarts passed

theorem Passed.ofText (text : List Char) : Passed [] (.ofText text) := ⟨rfl, rfl, rfl⟩

theorem Passed.step (h : Passed passed s) : Passed (passed ++ s.rest.take 1) s.step := by
  obtain ⟨text, index, starts⟩ := h
  unfold Scanner.step
  cases hrest : s.rest with
  | nil => exact ⟨by simpa [hrest] using text, by simpa using index, by simpa using starts⟩
  | cons c rest =>
    have behind : Text.lineStarts (passed ++ [c]) =
        if c = '\n' then (s.index + c.utf8Size) :: s.lineStarts else s.lineStarts := by
      rw [Text.lineStarts_append, starts, index]
      simp only [Text.startsFrom]
      split <;> simp
    have text' : s.text = passed ++ [c] ++ rest := by simp [text, hrest]
    have index' : s.index + c.utf8Size = Text.width (passed ++ [c]) := by simp [index]
    simp only [List.take_succ_cons, List.take_zero]
    split
    · rename_i feed
      rw [if_pos feed] at behind
      exact ⟨text', index', behind.symm⟩
    · rename_i noFeed
      rw [if_neg noFeed] at behind
      split <;> exact ⟨text', index', behind.symm⟩

theorem Passed.pass (h : Passed passed s) (n : Nat) :
    Passed (passed ++ s.rest.take n) (s.pass n) := by
  induction n generalizing s passed with
  | zero => simpa [Scanner.pass] using h
  | succ n ih =>
    have next := ih h.step
    rw [rest_step, List.append_assoc] at next
    cases hrest : s.rest with
    | nil => simpa [hrest, Scanner.pass] using next
    | cons c rest => simpa [hrest, Scanner.pass] using next

/-- Every offset that the scanner has passed has its true position. -/
theorem Passed.positionAt_width {a b : List Char} (h : Passed (a ++ b) s) :
    s.positionAt (Text.width a) = Position.after a := by
  obtain ⟨front, latest, more, rfl, starts, line, column⟩ := Text.exists_latestLine a
  have later : ∀ n ∈ (Text.startsFrom (Text.width (front ++ latest)) b).reverse,
      decide (Text.width (front ++ latest) < n) = true := by
    intro n hn
    simpa using Text.lt_of_mem_startsFrom (List.mem_reverse.mp hn)
  have known : s.lineStarts.dropWhile (fun n => decide (Text.width (front ++ latest) < n)) =
      Text.width front :: more := by
    rw [h.lineStarts, Text.lineStarts_append, starts, List.dropWhile_append_of_pos later,
      List.dropWhile_cons_of_neg (by simp)]
  have within : min (Text.width (front ++ latest)) (Text.width s.text) =
      Text.width (front ++ latest) := by
    rw [h.text, Text.width_append (front ++ latest ++ b), Text.width_append (front ++ latest)]
    omega
  have shown : s.slice ⟨Text.width front, Text.width (front ++ latest)⟩ = latest := by
    have between := Text.slice?_width_append front latest (b ++ s.rest)
    rw [slice, h.text, Text.width_append, List.append_assoc, between, Option.getD_some]
  unfold positionAt
  simp only [within, known, List.length_cons, List.headD_cons, shown]
  rw [← line, ← column]

end Scanner

/-- A token with its true positions in a text. -/
def Token.locatedIn (text : List Char) (t : Token) : LocatedToken where
  token := t
  startPosition := Text.positionOf text t.span.start
  stopPosition := Text.positionOf text t.span.stop

namespace Lexer

/-- A token lies in a text, from character to character. -/
def Within (passed : List Char) (t : Token) : Prop :=
  (∃ a b, passed = a ++ b ∧ t.span.start = Text.width a) ∧
    ∃ a b, passed = a ++ b ∧ t.span.stop = Text.width a

/-- The lexer has passed all tokens that wait in its queue. -/
def Behind (text : List Char) (L : Lexer) : Prop :=
  L.scanner.text = text ∧ ∃ passed, L.scanner.Passed passed ∧ ∀ t ∈ L.queue, Within passed t

variable {text : List Char} {L : Lexer}

theorem Within.append {passed : List Char} {t : Token} (h : Within passed t) (more : List Char) :
    Within (passed ++ more) t := by
  obtain ⟨⟨a, b, rfl, start⟩, c, d, split, stop⟩ := h
  exact ⟨⟨a, b ++ more, by simp, start⟩, c, d ++ more, by simp [← List.append_assoc, ← split], stop⟩

theorem locate_of_within {passed : List Char} (h : L.scanner.Passed passed) {t : Token}
    (within : Within passed t) : L.locate t = t.locatedIn L.scanner.text := by
  obtain ⟨⟨a, b, rfl, start⟩, c, d, split, stop⟩ := within
  have first : L.scanner.positionAt (Text.width a) = Position.after a := h.positionAt_width
  have first' := Text.positionOf_width a (b ++ L.scanner.rest)
  rw [split] at h
  have last : L.scanner.positionAt (Text.width c) = Position.after c := h.positionAt_width
  have last' := Text.positionOf_width c (d ++ L.scanner.rest)
  unfold locate Token.locatedIn
  rw [start, stop, first, last, h.text, List.append_assoc, last', ← List.append_assoc, ← split,
    List.append_assoc, first']

/-- A scan passes the cells that it cuts. -/
theorem passed_scan {passed : List Char} (h : L.scanner.Passed passed) :
    L.scan.scanner.text = L.scanner.text ∧
      L.scan.scanner.Passed (passed ++ Cell.source L.place.scan.cells) := by
  have source := L.place.source_scan
  have moved := h.pass (Cell.source L.place.scan.cells).length
  have front : L.scanner.rest.take (Cell.source L.place.scan.cells).length =
      Cell.source L.place.scan.cells := by
    rw [show L.scanner.rest = L.place.rest from rfl, ← source, List.take_left]
  rw [front] at moved
  rw [scan_eq]
  exact ⟨Scanner.text_pass _ _, moved⟩

theorem Behind.scan (h : Behind text L) : Behind text L.scan := by
  obtain ⟨rfl, passed, position, queue⟩ := h
  obtain ⟨same, moved⟩ := passed_scan position
  refine ⟨same, passed ++ Cell.source L.place.scan.cells, moved, ?_⟩
  rw [queue_scan]
  intro t ht
  rcases List.mem_append.mp ht with ht | ht
  · exact (queue t ht).append _
  · obtain ⟨a, c, b, split, token⟩ := Cell.mem_tokens_iff.mp ht
    have span := (Cell.span_of_token? token).1
    rw [position.index] at span
    refine ⟨⟨passed ++ Cell.source a, Cell.source (c :: b), ?_, ?_⟩,
      passed ++ Cell.source (a ++ [c]), Cell.source b, ?_, ?_⟩
    · simp [split]
    · simp [span]
    · simp [split]
    · simp [span, Nat.add_assoc]

/-- Each token is located truly when it is handed out. -/
theorem locatedTokens_ofText (text : List Char) (options : LexerOptions) :
    (ofText text options).locatedTokens =
      (ofText text options).tokens.map (Token.locatedIn text) := by
  rw [tokens_eq_remaining (by simp [ofText]), locatedTokens]
  refine collect_eq_map (P := Behind text) ?_ ?_ ?_ _ ?_ (by simp [ofText])
  · intro L h _ _
    exact h.scan
  · rintro L t queue ⟨rfl, passed, position, queued⟩ waiting
    rw [waiting] at queued
    refine ⟨locate_of_within position (queued t (by simp)), rfl, passed, position, ?_⟩
    intro u hu
    exact queued u (by simp [hu])
  · rintro L ⟨rfl, passed, position, -⟩ _ _
    refine locate_of_within position ⟨⟨passed, [], by simp, ?_⟩, passed, [], by simp, ?_⟩
    · exact position.index
    · exact position.index
  · exact ⟨rfl, [], .ofText text, by simp [ofText]⟩

end Lexer

end RuleLexer
