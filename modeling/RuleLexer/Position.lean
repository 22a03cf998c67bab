/-!
# Positions

Where a reader of a rule file finds a character: lines count from 1 and columns from 0.

* `Position.after`: the position behind a given text, read off the text as a whole;
* `Position.after_append_lineFeed`: a line feed starts the next line;
* `Position.after_append_char`: any other character takes one column.
-/

namespace RuleLexer

structure Position where
  line : Nat := 1
  column : Nat := 0
  deriving DecidableEq

namespace Position

/-- The start of the next line. -/
def nextLine (p : Position) : Position := ⟨p.line + 1, 0⟩

/-- The next column of the same line. -/
def nextColumn (p : Position) : Position := ⟨p.line, p.column + 1⟩

/-- Lines count first, columns decide within a line. -/
instance : Ord Position := ⟨fun p q => (compare p.line q.line).then (compare p.column q.column)⟩

instance : ToString Position := ⟨fun p => s!"line: {p.line}, column: {p.column}"⟩

/-- The position behind a text: one line more than it has line feeds, and as
many columns as there are characters behind the last of them. -/
def after (passed : List Char) : Position where
  line := 1 + passed.count '\n'
  column := (passed.reverse.takeWhile (· ≠ '\n')).length

theorem after_append_lineFeed (passed : List Char) :
    after (passed ++ ['\n']) = (after passed).nextLine := by
  simp [after, nextLine, Nat.add_assoc]

theorem after_append_char {c : Char} (h : c ≠ '\n') (passed : List Char) :
    after (passed ++ [c]) = (after passed).nextColumn := by
  simp [after, nextColumn, h]

end Position

end RuleLexer
