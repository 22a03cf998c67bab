import RuleLexer.Proofs.Positions

/-!
# Runs of a scanner

Whatever a scanner is asked for and in whatever order, what it has committed to
follows from the text and the place of its cursor.

* `Operation`, `Run`: what can be asked of a scanner, and runs of it whose cursor
  stays between two characters;
* `At`: what the scanner knows behind a first part of its text; every operation
  leads from one such state to another (`At.after`), and so does a run (`Run.at`);
* `At.resetAhead_eq`: two such states with one index differ in the lookahead only;
* `run_committed`: so the history of a scanner does not matter;
* `run_positionAt_index`: what the scanner answers about its own cursor.
-/

namespace RuleLexer

namespace Text

/-- A cut can be made in two parts. -/
theorem cut_add {m n : Nat} {text before behind : List Char}
    (first : cut m text = some (before, behind)) :
    cut (m + n) text = (cut n behind).map fun (more, rest) => (before ++ more, rest) := by
  induction text generalizing m before behind with
  | nil =>
    rw [cut_nil] at first
    cases first
    simp
  | cons c rest ih =>
    by_cases none : m = 0
    · subst none
      rw [cut_zero] at first
      cases first
      simp
    · rw [cut_cons none] at first
      split at first
      · rename_i fits
        obtain ⟨⟨before', behind'⟩, found, parts⟩ := Option.map_eq_some_iff.mp first
        cases parts
        rw [cut_cons (by omega), if_pos (by omega), Nat.sub_add_comm fits, ih found,
          Option.map_map]
        rfl
      · cases first

theorem isSome_cut_add {m n : Nat} {text before behind : List Char}
    (first : cut m text = some (before, behind)) (second : (cut n behind).isSome) :
    (cut (m + n) text).isSome := by
  rwa [cut_add first, Option.isSome_map]

/-- Behind the first character as it is read, a text can be cut. -/
theorem isSome_cut_front (text : List Char) : (cut (front text).2 text).isSome := by
  unfold front
  split
  · rfl
  · rename_i rest
    exact Option.isSome_of_eq_some (cut_width_append ['\r', '\n'] rest)
  · rename_i c rest _
    exact Option.isSome_of_eq_some (cut_width_append [c] rest)

/-- In a line break of two characters, a text can be cut in front of the second, which
is read like both of them. -/
theorem cut_folded (text : List Char) : ∃ before behind,
    cut ((front text).2 - (front text).1.utf8Size) text = some (before, behind) ∧
      (front behind).1 = (front text).1 := by
  by_cases pair : ∃ rest, text = '\r' :: '\n' :: rest
  · obtain ⟨rest, rfl⟩ := pair
    exact ⟨['\r'], '\n' :: rest, cut_width_append ['\r'] ('\n' :: rest), rfl⟩
  · have own : (front text).2 ≤ (front text).1.utf8Size := by
      unfold front
      split
      · exact Nat.zero_le _
      · exact absurd ⟨_, rfl⟩ pair
      · exact Nat.le_refl _
    refine ⟨[], text, ?_, rfl⟩
    rw [Nat.sub_eq_zero_of_le own, cut_zero]

theorem isSome_cut_folded (text : List Char) :
    (cut ((front text).2 - (front text).1.utf8Size) text).isSome := by
  obtain ⟨_, _, found, _⟩ := cut_folded text
  exact Option.isSome_of_eq_some found

/-- A text is cut in one way at an offset. -/
theorem append_inj_width {a b c d : List Char} (text : a ++ b = c ++ d)
    (width : Text.width a = Text.width c) : a = c ∧ b = d := by
  have cut := cut_width_append a b
  rw [text, width, cut_width_append] at cut
  cases cut
  exact ⟨rfl, rfl⟩

/-- Lines start behind line feeds. -/
theorem mem_startsFrom_iff {index n : Nat} {text : List Char} :
    n ∈ startsFrom index text ↔
      ∃ before behind, text = before ++ '\n' :: behind ∧ n = index + width before + 1 := by
  have feed : '\n'.utf8Size = 1 := rfl
  induction text generalizing index with
  | nil => simp [startsFrom]
  | cons c rest ih =>
    have later : n ∈ startsFrom (index + c.utf8Size) rest ↔ ∃ before behind,
        rest = before ++ '\n' :: behind ∧ n = index + width (c :: before) + 1 := by
      simp only [ih, width_cons, Nat.add_assoc]
    simp only [startsFrom]
    constructor
    · intro mem
      split at mem
      · rename_i isFeed
        subst isFeed
        rcases List.mem_cons.mp mem with rfl | mem
        · exact ⟨[], rest, rfl, by simp [feed]⟩
        · obtain ⟨before, behind, rfl, start⟩ := later.mp mem
          exact ⟨'\n' :: before, behind, rfl, start⟩
      · obtain ⟨before, behind, rfl, start⟩ := later.mp mem
        exact ⟨c :: before, behind, rfl, start⟩
    · rintro ⟨before, behind, split, start⟩
      cases before with
      | nil =>
        obtain ⟨rfl, rfl⟩ := List.cons.inj split
        rw [if_pos rfl]
        simp [start, feed]
      | cons d before =>
        obtain ⟨rfl, tail⟩ := List.cons.inj split
        have mem := later.mpr ⟨before, behind, tail, start⟩
        split
        · exact List.mem_cons_of_mem _ mem
        · exact mem

theorem pairwise_startsFrom (index : Nat) (text : List Char) :
    (startsFrom index text).Pairwise (· < ·) := by
  induction text generalizing index with
  | nil => exact .nil
  | cons c rest ih =>
    simp only [startsFrom]
    split
    · exact List.pairwise_cons.mpr ⟨fun _ mem => lt_of_mem_startsFrom mem, ih _⟩
    · exact ih _

theorem mem_lineStarts_iff {n : Nat} {text : List Char} :
    n ∈ lineStarts text ↔
      n = 0 ∨ ∃ before behind, text = before ++ '\n' :: behind ∧ n = width before + 1 := by
  simp [lineStarts, mem_startsFrom_iff, or_comm]

theorem pairwise_lineStarts (text : List Char) : (lineStarts text).reverse.Pairwise (· < ·) := by
  have start : (lineStarts text).reverse = 0 :: startsFrom 0 text := by simp [lineStarts]
  rw [start]
  exact List.pairwise_cons.mpr ⟨fun _ mem => lt_of_mem_startsFrom mem, pairwise_startsFrom 0 text⟩

end Text

namespace Position

/-- The position between two parts of a text. A carriage return takes no column
as long as its line feed follows. -/
def between (before behind : List Char) : Position :=
  if before.getLast? = some '\r' ∧ behind.head? = some '\n' then after before.dropLast
  else after before

theorem between_of_seam {before behind : List Char} (seam : Text.Seam before behind) :
    between before behind = after before :=
  if_neg seam

/-- In a line break of two characters, the carriage return is left out. -/
theorem nextColumn_between {before behind : List Char} (inside : ¬ Text.Seam before behind) :
    (between before behind).nextColumn = after before := by
  have inside := Decidable.not_not.mp inside
  obtain ⟨front, rfl⟩ := List.getLast?_eq_some_iff.mp inside.1
  rw [between, if_pos inside, List.dropLast_concat, after_append_char (by decide)]

theorem nextLine_between (before behind : List Char) :
    (between before behind).nextLine = (after before).nextLine := by
  by_cases seam : Text.Seam before behind
  · rw [between_of_seam seam]
  · rw [← nextColumn_between seam]
    rfl

end Position

namespace Scanner

/-! ## Operations -/

/-- What can be asked of a scanner. -/
inductive Operation where
  | peek (offset : Int)
  | readChar
  | consume
  | readAhead (offset : Nat)
  | peekAhead (offset : Nat)
  | lookahead
  | advanceAhead
  | moveAhead
  | resetAhead
  | stepTo (offset : Nat)
  deriving DecidableEq

/-- The scanner after an operation. An operation that is refused leaves it as it was. -/
def after (s : Scanner) : Operation → Scanner
  | .peek _ | .readChar | .lookahead => s
  | .consume => s.consume.2
  | .readAhead offset =>
    match s.readAhead offset with
    | .ok (_, t) => t
    | .error _ => s
  | .peekAhead offset =>
    match s.peekAhead offset with
    | .ok (_, _, t) => t
    | .error _ => s
  | .advanceAhead => s.advanceAhead.2
  | .moveAhead => s.moveAhead
  | .resetAhead => s.resetAhead
  | .stepTo offset => s.stepTo offset

/-- A run of operations. A step to a given offset leads between two characters,
or to the end of the text. -/
inductive Run : Scanner → List Operation → Scanner → Prop
  | nil (s : Scanner) : Run s [] s
  | cons {s t : Scanner} {operation : Operation} {operations : List Operation}
      (fits : ∀ offset, operation = .stepTo offset → (Text.cut offset s.rest).isSome)
      (more : Run (s.after operation) operations t) : Run s (operation :: operations) t

variable {s t : Scanner} {text passed : List Char} {operations : List Operation}

/-- A run that goes on with a step to a given offset. -/
theorem Run.stepTo {n : Nat} (run : Run s operations t) (fits : (Text.cut n t.rest).isSome) :
    Run s (operations ++ [.stepTo n]) (t.stepTo n) := by
  induction run with
  | nil s =>
    refine .cons ?_ (.nil _)
    rintro _ ⟨⟩
    exact fits
  | cons first _ ih => exact .cons first (ih fits)

/-! ## Where a scanner stands -/

/-- The scanner stands behind a first part of a whole text, and its lookahead
stands between two characters or beyond the end. -/
structure At (whole passed : List Char) (s : Scanner) : Prop extends Passed passed s where
  same : s.text = whole
  position : s.position = Position.between passed s.rest
  ahead : (Text.cut s.ahead s.rest).isSome

theorem At.ofText (text : List Char) : At text [] (.ofText text) :=
  ⟨.ofText text, rfl, rfl, by rw [Scanner.ofText, Text.cut_zero]; rfl⟩

theorem position_step (known : s.position = .between passed s.rest) :
    s.step.position = .between (passed ++ s.rest.take 1) s.step.rest := by
  unfold Scanner.step
  cases hrest : s.rest with
  | nil => simpa [hrest] using known
  | cons c rest =>
    rw [hrest] at known
    simp only [List.take_succ_cons, List.take_zero]
    split
    · rename_i feed
      subst feed
      have seam : Text.Seam (passed ++ ['\n']) rest :=
        .of_last List.getLast?_concat (by decide) rest
      dsimp only
      rw [known, Position.nextLine_between, Position.between_of_seam seam,
        Position.after_append_lineFeed]
    · rename_i noFeed
      have here : Text.Seam passed (c :: rest) := by simp [Text.Seam, noFeed]
      rw [known, Position.between_of_seam here]
      split
      · -- the column is taken when the line feed turns out not to follow, or never
        rename_i pair
        have inside : (passed ++ [c]).getLast? = some '\r' ∧ rest.head? = some '\n' := by
          simpa using pair
        rw [Position.between, if_pos inside, List.dropLast_concat]
      · rename_i noPair
        have seam : Text.Seam (passed ++ [c]) rest := by simpa [Text.Seam] using noPair
        rw [Position.between_of_seam seam, Position.after_append_char noFeed]

theorem position_pass (known : s.position = .between passed s.rest) (n : Nat) :
    (s.pass n).position = .between (passed ++ s.rest.take n) (s.pass n).rest := by
  induction n generalizing s passed with
  | zero => simpa [Scanner.pass] using known
  | succ n ih =>
    have next := ih (position_step known)
    rw [List.append_assoc, rest_step] at next
    cases hrest : s.rest with
    | nil => simpa [hrest, Scanner.pass] using next
    | cons c rest => simpa [hrest, Scanner.pass] using next

theorem At.commit (h : At text passed s) (n : Nat) :
    ∃ more, At text (passed ++ more) (s.commit n) := by
  unfold Scanner.commit
  split
  · rename_i front _ _
    have moved := h.toPassed.pass front.length
    have position := position_pass h.position front.length
    refine ⟨s.rest.take front.length, ⟨moved.text, moved.index, moved.lineStarts⟩,
      (text_pass _ s).trans h.same, position, ?_⟩
    rw [Text.cut_zero]
    rfl
  · refine ⟨[], ?_⟩
    rw [List.append_nil]
    exact { h with ahead := by rw [Text.cut_zero]; rfl }

/-- Only the lookahead is moved. -/
theorem At.withAhead (h : At text passed s) {n : Nat} (fits : (Text.cut n s.rest).isSome) :
    At text passed { s with ahead := n } :=
  { h with ahead := fits }

theorem At.readAhead (h : At text passed s) {offset : Nat} {c : Char}
    (read : s.readAhead offset = .ok (c, t)) : At text passed t := by
  unfold Scanner.readAhead at read
  split at read
  · cases read
  · rename_i before behind found
    cases read
    exact h.withAhead (Text.isSome_cut_add found (Text.isSome_cut_folded behind))

/-- A peek ahead is a read ahead of an offset that is not zero. -/
theorem peekAhead_eq {offset : Nat} (ne : offset ≠ 0) :
    s.peekAhead offset = (s.readAhead offset).map fun (c, t) => (c, t.ahead, t) := by
  rw [peekAhead, if_neg ne]
  cases s.readAhead offset <;> rfl

/-- A peek ahead that succeeds is a read ahead, and its caller goes on at the lookahead. -/
theorem peekAhead_eq_ok_iff {offset next : Nat} {c : Char} :
    s.peekAhead offset = .ok (c, next, t) ↔
      offset ≠ 0 ∧ s.readAhead offset = .ok (c, t) ∧ next = t.ahead := by
  by_cases start : offset = 0
  · simp [peekAhead, start]
  · rw [peekAhead_eq start]
    cases s.readAhead offset <;> simp [Except.map, start]
    grind

theorem At.advanceAhead (h : At text passed s) : At text passed s.advanceAhead.2 := by
  obtain ⟨⟨before, behind⟩, found⟩ := Option.isSome_iff_exists.mp h.ahead
  have front : s.frontAhead = Text.front behind := by simp [frontAhead, found]
  rw [Scanner.advanceAhead, front]
  exact h.withAhead (Text.isSome_cut_add found (Text.isSome_cut_front behind))

/-- Whatever a scanner is asked for, it stands behind a first part of its text. -/
theorem At.after (h : At text passed s) (operation : Operation) :
    ∃ more, At text (passed ++ more) (s.after operation) := by
  have stays {u : Scanner} (h : At text passed u) : ∃ more, At text (passed ++ more) u :=
    ⟨[], by rwa [List.append_nil]⟩
  cases operation with
  | peek | readChar | lookahead => exact stays h
  | consume => exact h.commit _
  | moveAhead => exact h.commit _
  | stepTo offset => exact h.commit _
  | advanceAhead => exact stays h.advanceAhead
  | resetAhead => exact stays (h.withAhead (by rw [Text.cut_zero]; rfl))
  | readAhead offset =>
    simp only [Scanner.after]
    split
    · rename_i read
      exact stays (h.readAhead read)
    · exact stays h
  | peekAhead offset =>
    simp only [Scanner.after]
    split
    · rename_i read
      exact stays (h.readAhead (peekAhead_eq_ok_iff.mp read).2.1)
    · exact stays h

theorem Run.at (run : Run s operations t) (h : At text passed s) :
    ∃ more, At text (passed ++ more) t := by
  induction run generalizing passed with
  | nil => exact ⟨[], by rwa [List.append_nil]⟩
  | cons _ _ ih =>
    obtain ⟨first, next⟩ := h.after _
    obtain ⟨more, last⟩ := ih next
    exact ⟨first ++ more, by rwa [← List.append_assoc]⟩

/-- What a scanner has committed to follows from its text and its index. -/
theorem At.resetAhead_eq (h : At text passed s) {front : List Char} (other : At text front t)
    (index : t.index = s.index) : t.resetAhead = s.resetAhead := by
  have whole : front ++ t.rest = passed ++ s.rest := by
    rw [← other.text, ← h.text, other.same, h.same]
  have width : Text.width front = Text.width passed := by rw [← other.index, index, h.index]
  obtain ⟨rfl, rest⟩ := Text.append_inj_width whole width
  have text : t.text = s.text := other.same.trans h.same.symm
  have lineStarts : t.lineStarts = s.lineStarts := other.lineStarts.trans h.lineStarts.symm
  have position : t.position = s.position := by rw [other.position, h.position, rest]
  simp only [Scanner.resetAhead, text, rest, index, position, lineStarts]

/-- What a scanner answers about its own cursor. -/
theorem At.positionAt_index (h : At text passed s) :
    s.positionAt s.index = Position.after passed := by
  have known : Passed (passed ++ []) s := by
    rw [List.append_nil]
    exact h.toPassed
  rw [h.index]
  exact known.positionAt_width

end Scanner

/-- What a scanner has committed to follows from its text and the place of its
cursor, however it came there. The cursor only moves forward and stays between
two characters of the text, and so does the lookahead. The lines that are known
are those that start in front of the cursor, and the position is the true one,
where a carriage return takes no column as long as its line feed follows. -/
theorem run_committed (text : List Char) {operations : List Scanner.Operation} {s : Scanner}
    (run : Scanner.Run (.ofText text) operations s) :
    (∀ more t, Scanner.Run s more t → s.index ≤ t.index) ∧
    s.index ≤ Text.width text ∧
    (Text.cut s.ahead s.rest).isSome ∧
    (∃ before, text = before ++ s.rest ∧ s.index = Text.width before ∧
      s.lineStarts.reverse.Pairwise (· < ·) ∧
      (∀ n, n ∈ s.lineStarts ↔
        n = 0 ∨ ∃ line behind, before = line ++ '\n' :: behind ∧ n = Text.width line + 1) ∧
      s.position = Position.between before s.rest) ∧
    ∀ others t, Scanner.Run (.ofText text) others t → t.index = s.index →
      t.resetAhead = s.resetAhead ∧ t.position = s.position ∧
        ∀ n, t.positionAt n = s.positionAt n := by
  obtain ⟨before, here⟩ := run.at (.ofText text)
  rw [List.nil_append] at here
  have whole : text = before ++ s.rest := here.same.symm.trans here.text
  refine ⟨?_, ?_, here.ahead, ⟨before, whole, here.index, ?_, ?_, here.position⟩, ?_⟩
  · intro more t later
    obtain ⟨passed, there⟩ := later.at here
    rw [here.index, there.index, Text.width_append]
    exact Nat.le_add_right _ _
  · rw [here.index, whole, Text.width_append]
    exact Nat.le_add_right _ _
  · rw [here.lineStarts]
    exact Text.pairwise_lineStarts before
  · intro n
    rw [here.lineStarts]
    exact Text.mem_lineStarts_iff
  · intro others t other index
    obtain ⟨front, there⟩ := other.at (.ofText text)
    have same : t.resetAhead = s.resetAhead := here.resetAhead_eq there index
    have position : t.resetAhead.position = s.resetAhead.position := by rw [same]
    have positions (n : Nat) : t.resetAhead.positionAt n = s.resetAhead.positionAt n := by rw [same]
    exact ⟨same, position, positions⟩

/-- Two ways behind a line break: by a stop inside it, and by its characters as they are read. -/
theorem run_committed_insidePair :
    let text := ['a', '\r', '\n', 'b']
    let s := ((Scanner.ofText text).after (.stepTo 2)).after (.stepTo 1)
    let t := ((Scanner.ofText text).after .consume).after .consume
    Scanner.Run (.ofText text) [.stepTo 2, .stepTo 1] s ∧
      Scanner.Run (.ofText text) [.consume, .consume] t ∧ t.index = s.index ∧
      t.resetAhead = s.resetAhead ∧ t.position = s.position ∧
        ∀ n, t.positionAt n = s.positionAt n := by
  intro text s t
  have stepped : Scanner.Run (.ofText text) [.stepTo 2, .stepTo 1] s :=
    ((Scanner.Run.nil _).stepTo rfl).stepTo rfl
  have consumed : Scanner.Run (.ofText text) [.consume, .consume] t := by
    refine .cons ?_ (.cons ?_ (.nil _))
    · rintro _ ⟨⟩
    · rintro _ ⟨⟩
  have index : t.index = s.index := by decide
  exact ⟨stepped, consumed, index, (run_committed text stepped).2.2.2.2 _ t consumed index⟩

/-- A scanner gives the position of its own cursor when it is asked for the
position of that offset, but not inside a line break of two characters. There,
the answer counts the carriage return, and the position does not. -/
theorem run_positionAt_index (text : List Char) {operations : List Scanner.Operation} {s : Scanner}
    (run : Scanner.Run (.ofText text) operations s) :
    ∃ before, text = before ++ s.rest ∧ s.index = Text.width before ∧
      (s.position = s.positionAt s.index ↔ Text.Seam before s.rest) ∧
      (¬ Text.Seam before s.rest → s.position.nextColumn = s.positionAt s.index) := by
  obtain ⟨before, here⟩ := run.at (.ofText text)
  rw [List.nil_append] at here
  have inside : ¬ Text.Seam before s.rest → s.position.nextColumn = s.positionAt s.index := by
    intro inside
    rw [here.position, here.positionAt_index, Position.nextColumn_between inside]
  refine ⟨before, here.same.symm.trans here.text, here.index, ?_, inside⟩
  constructor
  · intro same
    by_contra notSeam
    have columns := congrArg Position.column ((inside notSeam).trans same.symm)
    simp [Position.nextColumn] at columns
  · intro seam
    rw [here.position, here.positionAt_index, Position.between_of_seam seam]

/-- The stop between a carriage return and its line feed. -/
theorem run_positionAt_index_insidePair :
    let text := ['\r', '\n']
    let s := (Scanner.ofText text).after (.stepTo 1)
    Scanner.Run (.ofText text) [.stepTo 1] s ∧
      ∃ before, text = before ++ s.rest ∧ s.index = Text.width before ∧
        (s.position = s.positionAt s.index ↔ Text.Seam before s.rest) ∧
        (¬ Text.Seam before s.rest → s.position.nextColumn = s.positionAt s.index) := by
  intro text s
  have stepped : Scanner.Run (.ofText text) [.stepTo 1] s := (Scanner.Run.nil _).stepTo rfl
  exact ⟨stepped, run_positionAt_index text stepped⟩

/-- The two answers are not the same at every cursor that can be reached: behind
a carriage return in front of its line feed, one is column 0 and the other column 1. -/
theorem exists_position_ne_positionAt :
    ∃ (text : List Char) (operations : List Scanner.Operation) (s : Scanner),
      Scanner.Run (.ofText text) operations s ∧
      s.position = ⟨1, 0⟩ ∧ s.positionAt s.index = ⟨1, 1⟩ := by
  refine ⟨['\r', '\n'], [.stepTo 1], _, (Scanner.Run.nil _).stepTo rfl, ?_, ?_⟩
  · decide
  · decide

end RuleLexer
