import RuleLexer.Proofs.ScannerRuns

/-!
# Reading ahead

A number of characters can be read in three ways: with the cursor, with the
lookahead, or at offsets that the reader counts up by himself. All of them show
the same characters, over line breaks and beyond the end of the text.

* `Text.shownBy`, `Text.passedBy`: the characters that so many reads show, and the
  text that they pass;
* `consume_eq`, `advanceAhead_of_cut`, `readAhead_of_cut`: one read in each way;
* `reading_consume`, `reading_advanceAhead`, `readingAt_of_cut`: so many of them;
* `readings_agree`: committing to what was read ahead leads where the cursor
  comes by itself, and until then nothing is committed.
-/

namespace RuleLexer

namespace Text

/-- The text of the first character as it is read. -/
def frontText : List Char → List Char
  | [] => []
  | '\r' :: '\n' :: _ => ['\r', '\n']
  | c :: _ => [c]

/-- The text behind the first character as it is read. -/
def behindFront (text : List Char) : List Char := text.drop (frontText text).length

theorem frontText_append_behindFront (text : List Char) :
    frontText text ++ behindFront text = text := by
  unfold behindFront frontText
  split <;> rfl

theorem front_width (text : List Char) : (front text).2 = width (frontText text) := by
  unfold front
  split
  · rfl
  · rfl
  · rename_i c rest noPair
    have single : frontText (c :: rest) = [c] := by
      unfold frontText
      split <;> simp_all
    rw [single]
    rfl

theorem cut_front (text : List Char) :
    cut (front text).2 text = some (frontText text, behindFront text) := by
  have seen := cut_width_append (frontText text) (behindFront text)
  rwa [frontText_append_behindFront, ← front_width] at seen

/-- Where a line break of two characters is read at its second one, and the end of
the text as a character, one character more leads behind what was read. -/
theorem cut_fold_front (text : List Char) :
    cut ((front text).2 - (front text).1.utf8Size + (front text).1.utf8Size) text =
      some (frontText text, behindFront text) := by
  cases text with
  | nil => rfl
  | cons c rest =>
    have fits : (front (c :: rest)).1.utf8Size ≤ (front (c :: rest)).2 := by
      unfold front
      split
      · contradiction
      · decide
      · exact Nat.le_refl _
    rw [Nat.sub_add_cancel fits]
    exact cut_front _

/-- The characters that a number of reads show. -/
def shownBy : Nat → List Char → List Char
  | 0, _ => []
  | k + 1, text => (front text).1 :: shownBy k (behindFront text)

/-- The text that a number of reads pass. -/
def passedBy : Nat → List Char → List Char
  | 0, _ => []
  | k + 1, text => frontText text ++ passedBy k (behindFront text)

theorem passedBy_prefix (k : Nat) (text : List Char) : passedBy k text <+: text := by
  induction k generalizing text with
  | zero => exact List.nil_prefix
  | succ k ih =>
    have more := (List.prefix_append_right_inj (frontText text)).mpr (ih (behindFront text))
    rwa [frontText_append_behindFront] at more

end Text

open Text (cut front frontText behindFront shownBy passedBy)

namespace Scanner

/-! ## Ways of reading -/

/-- A number of reads, as the characters that they show and the scanner behind them. -/
def reading (read : Scanner → Char × Scanner) : Nat → Scanner → List Char × Scanner
  | 0, s => ([], s)
  | k + 1, s =>
    let (c, s) := read s
    let (more, s) := reading read k s
    (c :: more, s)

/-- A number of peeks ahead, each one character further than the one before.
Also tells the offset behind them. -/
def peeking : Nat → Nat → Scanner → Except Fault (List Char × Nat × Scanner)
  | 0, offset, s => .ok ([], offset, s)
  | k + 1, offset, s => do
    let (c, ahead, s) ← s.peekAhead offset
    let (more, offset, s) ← peeking k (ahead + c.utf8Size) s
    return (c :: more, offset, s)

/-- A number of reads ahead, the first of which is at the cursor. -/
def readingAhead : Nat → Scanner → Except Fault (List Char × Nat × Scanner)
  | 0, s => .ok ([], 0, s)
  | k + 1, s => do
    let (c, s) ← s.readAhead 0
    let (more, offset, s) ← peeking k (s.ahead + c.utf8Size) s
    return (c :: more, offset, s)

variable {s : Scanner} {before behind : List Char}

/-! ## One read -/

theorem step_withAhead (n : Nat) (s : Scanner) :
    ({ s with ahead := n } : Scanner).step = { s.step with ahead := n } := by
  unfold step
  dsimp only
  repeat' split
  all_goals rfl

theorem pass_withAhead (k n : Nat) (s : Scanner) :
    ({ s with ahead := n } : Scanner).pass k = { s.pass k with ahead := n } := by
  induction k generalizing s with
  | zero => rfl
  | succ k ih => rw [pass, pass, step_withAhead, ih]

theorem resetAhead_of_idle (idle : s.ahead = 0) : s.resetAhead = s := by
  rw [resetAhead, ← idle]

/-- Committing leads over the text in front of the offset, wherever the lookahead is. -/
theorem commit_withAhead {n : Nat} (here : cut n s.rest = some (before, behind)) (ahead : Nat) :
    ({ s with ahead } : Scanner).commit n = (s.pass before.length).resetAhead := by
  rw [commit_of_cut (s := { s with ahead }) here, pass_withAhead]
  rfl

theorem consume_eq (s : Scanner) :
    s.consume = ((front s.rest).1, (s.pass (frontText s.rest).length).resetAhead) :=
  congrArg (Prod.mk _) (commit_withAhead (Text.cut_front s.rest) s.ahead)

theorem advanceAhead_of_cut (here : cut s.ahead s.rest = some (before, behind)) :
    s.advanceAhead =
      ((front behind).1, { s with ahead := s.ahead + Text.width (frontText behind) }) := by
  simp [advanceAhead, frontAhead, here, Text.front_width]

theorem readAhead_of_cut {offset : Nat} (here : cut offset s.rest = some (before, behind)) :
    s.readAhead offset = .ok ((front behind).1,
      { s with ahead := offset + ((front behind).2 - (front behind).1.utf8Size) }) := by
  simp [readAhead, here]

/-- The offset that a reader goes on with leads behind what he read. -/
theorem cut_next {offset : Nat} (here : cut offset s.rest = some (before, behind)) :
    cut (offset + ((front behind).2 - (front behind).1.utf8Size) + (front behind).1.utf8Size)
      s.rest = some (before ++ frontText behind, behindFront behind) := by
  rw [Nat.add_assoc, Text.cut_add here, Text.cut_fold_front]
  rfl

/-! ## A number of reads -/

theorem reading_consume (idle : s.ahead = 0) (k : Nat) :
    s.reading consume k =
      (shownBy k s.rest, (s.pass (passedBy k s.rest).length).resetAhead) := by
  induction k generalizing s with
  | zero => exact congrArg (Prod.mk []) (resetAhead_of_idle idle).symm
  | succ k ih =>
    have rest : (s.pass (frontText s.rest).length).resetAhead.rest = behindFront s.rest :=
      rest_pass _ _
    have passes : (s.pass (frontText s.rest).length).resetAhead.pass
        (passedBy k (behindFront s.rest)).length =
          (s.pass (passedBy (k + 1) s.rest).length).resetAhead := by
      rw [resetAhead, pass_withAhead, ← pass_add, ← List.length_append]
      rfl
    rw [reading, consume_eq]
    dsimp only
    rw [ih rfl, rest, passes]
    rfl

theorem reading_advanceAhead (here : cut s.ahead s.rest = some (before, behind)) (k : Nat) :
    s.reading advanceAhead k =
      (shownBy k behind, { s with ahead := s.ahead + Text.width (passedBy k behind) }) := by
  induction k generalizing s before behind with
  | zero => rfl
  | succ k ih =>
    have next : cut (s.ahead + Text.width (frontText behind)) s.rest =
        some (before ++ frontText behind, behindFront behind) := by
      rw [← Text.front_width, Text.cut_add here, Text.cut_front]
      rfl
    rw [reading, advanceAhead_of_cut here]
    dsimp only
    rw [ih next]
    simp [shownBy, passedBy, Nat.add_assoc]

/-- Peeking goes on where the reader is, and moves nothing but the lookahead. -/
theorem peeking_of_cut {offset : Nat} (ne : offset ≠ 0)
    (here : cut offset s.rest = some (before, behind)) (k : Nat) :
    ∃ last ahead rest, s.peeking k offset = .ok (shownBy k behind, last, { s with ahead }) ∧
      cut last s.rest = some (before ++ passedBy k behind, rest) := by
  induction k generalizing s offset before behind with
  | zero => exact ⟨offset, s.ahead, behind, rfl, by simpa [passedBy] using here⟩
  | succ k ih =>
    have next := cut_next here
    have read := readAhead_of_cut here
    generalize offset + ((front behind).2 - (front behind).1.utf8Size) = ahead at next read
    have further : ahead + (front behind).1.utf8Size ≠ 0 := by
      have := (front behind).1.utf8Size_pos
      omega
    obtain ⟨last, final, rest, more, there⟩ := ih (s := { s with ahead }) further next
    refine ⟨last, final, rest, ?_, by simpa [passedBy] using there⟩
    rw [peeking, peekAhead_eq ne, read]
    simp only [Except.map, bind, Except.bind, more]
    rfl

theorem readingAhead_eq (s : Scanner) (k : Nat) :
    ∃ last ahead rest, s.readingAhead k = .ok (shownBy k s.rest, last, { s with ahead }) ∧
      cut last s.rest = some (passedBy k s.rest, rest) := by
  cases k with
  | zero => exact ⟨0, s.ahead, s.rest, rfl, Text.cut_zero _⟩
  | succ k =>
    have here := Text.cut_zero s.rest
    have next := cut_next here
    have read := readAhead_of_cut here
    generalize 0 + ((front s.rest).2 - (front s.rest).1.utf8Size) = ahead at next read
    have further : ahead + (front s.rest).1.utf8Size ≠ 0 := by
      have := (front s.rest).1.utf8Size_pos
      omega
    obtain ⟨last, final, rest, more, there⟩ :=
      peeking_of_cut (s := { s with ahead }) further next k
    refine ⟨last, final, rest, ?_, there⟩
    rw [readingAhead, read]
    simp only [bind, Except.bind, more]
    rfl

end Scanner

/-- A number of characters can be read with the cursor, with the lookahead, or by
reading ahead at the offset that is counted up from character to character. All
three show the same characters, and the lookahead and the offset can be committed
to, which leads to the scanner that the cursor alone leads to. Until then, nothing
but the lookahead has moved, and forgetting it gives the scanner as it was. -/
theorem readings_agree {s : Scanner} (idle : s.ahead = 0) (k : Nat) :
    let consumed := s.reading Scanner.consume k
    let advanced := s.reading Scanner.advanceAhead k
    ∃ offset walked, s.readingAhead k = .ok (consumed.1, offset, walked) ∧
      advanced.1 = consumed.1 ∧
      (Text.cut offset walked.rest).isSome ∧
      advanced.2.moveAhead = consumed.2 ∧ walked.stepTo offset = consumed.2 ∧
      consumed.2.ahead = 0 ∧
      ∀ t, t = advanced.2 ∨ t = walked →
        t.index = s.index ∧ t.position = s.position ∧ (∀ n, t.positionAt n = s.positionAt n) ∧
          t.resetAhead = s := by
  intro consumed advanced
  have still := Scanner.resetAhead_of_idle idle
  obtain ⟨tail, whole⟩ := Text.passedBy_prefix k s.rest
  have seen : cut (s.ahead + Text.width (passedBy k s.rest)) s.rest =
      some (passedBy k s.rest, tail) := by
    rw [idle, Nat.zero_add]
    nth_rewrite 2 [← whole]
    exact Text.cut_width_append _ _
  obtain ⟨offset, ahead, rest, byOffset, there⟩ := s.readingAhead_eq k
  have byCursor : consumed = _ := Scanner.reading_consume idle k
  have byLookahead : advanced = _ :=
    Scanner.reading_advanceAhead (by rw [idle, Text.cut_zero]) k
  rw [byCursor, byLookahead]
  refine ⟨offset, _, byOffset, rfl, Option.isSome_of_eq_some there, Scanner.commit_withAhead seen _,
    Scanner.commit_withAhead there _, rfl, ?_⟩
  rintro t (rfl | rfl)
  · exact ⟨rfl, rfl, fun _ => rfl, still⟩
  · exact ⟨rfl, rfl, fun _ => rfl, still⟩

/-- Over a line break of two characters, and beyond the end of the text. -/
theorem readings_agree_beyondEnd :
    let s := (Scanner.ofText ['a', '\r', '\n', 'ä']).consume.2
    s.ahead = 0 ∧ ∃ offset walked,
      s.readingAhead 4 = .ok (['\n', 'ä', endOfText, endOfText], offset, walked) ∧
      (s.reading Scanner.advanceAhead 4).1 = ['\n', 'ä', endOfText, endOfText] ∧
      (s.reading Scanner.advanceAhead 4).2.moveAhead = (s.reading Scanner.consume 4).2 ∧
      walked.stepTo offset = (s.reading Scanner.consume 4).2 ∧ walked.resetAhead = s := by
  intro s
  have idle : s.ahead = 0 := by decide
  have shown : (s.reading Scanner.consume 4).1 = ['\n', 'ä', endOfText, endOfText] := by decide
  obtain ⟨offset, walked, byOffset, byLookahead, -, moved, stepped, -, before⟩ :=
    readings_agree idle 4
  rw [shown] at byOffset byLookahead
  exact ⟨idle, offset, walked, byOffset, byLookahead, moved, stepped,
    (before walked (.inr rfl)).2.2.2⟩

end RuleLexer
