import RuleLexer.Character
import RuleLexer.Piece

/-!
# Nesting

Indented lines nest. A line that is indented further than the indented line
before it lies one level deeper, a line that is indented less lies one level
higher, and the first level is the top. Indentation is made of spaces or of
tabs, and the first line that is indented with one of them decides which.

* `one_le_depth_enter`: the depth stays at least 1;
* `Text.isMixed`: indentation with both spaces and tabs;
* `accepts_iff`: indentation is accepted unless it mixes blanks, or another
  blank is in use.
-/

namespace RuleLexer

/-- Indentation in which both blanks occur. -/
def Text.isMixed (indent : List Char) : Bool := indent.contains ' ' && indent.contains '\t'

structure Nesting where
  /-- How far the latest indented line is indented. -/
  column : Nat := 0
  depth : Nat := 1
  /-- The blank that lines are indented with, once there is one. -/
  blank : Option Char := none
  deriving DecidableEq

namespace Nesting

/-- The one character that all of the indentation is made of. -/
def uniform? : List Char → Option Char
  | [] => none
  | c :: rest => if rest.all (· = c) then some c else none

/-- Goes on to an indented line. -/
def enter (indent : List Char) (n : Nesting) : Nesting where
  column := indent.length
  depth :=
    if n.column < indent.length then n.depth + 1
    else if indent.length < n.column then max 1 (n.depth - 1)
    else n.depth
  blank := n.blank.or (uniform? indent)

/-- Whether indentation agrees with the lines before. -/
def accepts (n : Nesting) (indent : List Char) : Bool :=
  match uniform? indent with
  | none => false
  | some c => n.blank.getD c = c

/-- What the indentation of a line is, given the nesting before the line. -/
def indentPiece (n : Nesting) (indent : List Char) : Piece :=
  if n.accepts indent then
    .raw .indent (if indent.head? = some '\t' then .tab else .space) indent
  else .raw .error .indent indent

@[simp]
theorem chars_indentPiece (n : Nesting) (indent : List Char) :
    (n.indentPiece indent).chars = indent := by
  unfold indentPiece
  split <;> rfl

theorem one_le_depth_enter {n : Nesting} (h : 1 ≤ n.depth) (indent : List Char) :
    1 ≤ (n.enter indent).depth := by
  simp only [enter]
  split
  · omega
  · split <;> omega

variable {indent : List Char}

theorem uniform?_eq (blank : ∀ c ∈ indent, isBlank c = true) :
    uniform? indent = if Text.isMixed indent then none else indent.head? := by
  cases indent with
  | nil => rfl
  | cons c rest =>
    have blank : ∀ x ∈ c :: rest, x = ' ' ∨ x = '\t' := by simpa [isBlank] using blank
    obtain ⟨own, more⟩ := List.forall_mem_cons.mp blank
    have repeats : rest.all (· = c) = !Text.isMixed (c :: rest) := by
      rw [Bool.eq_iff_iff]
      simp only [Text.isMixed, List.all_eq_true, decide_eq_true_eq, Bool.not_eq_true',
        Bool.and_eq_false_iff, List.contains_eq_mem, decide_eq_false_iff_not]
      grind
    rw [uniform?, repeats]
    cases Text.isMixed (c :: rest) <;> rfl

/-- Indentation is accepted unless it mixes blanks or another blank is in use. -/
theorem accepts_iff {n : Nesting} (indented : indent ≠ [])
    (blank : ∀ c ∈ indent, isBlank c = true) :
    n.accepts indent = true ↔
      ¬ (Text.isMixed indent ∨ ∃ c ∈ n.blank, indent.head? ≠ some c) := by
  obtain ⟨c, rest, rfl⟩ := List.exists_cons_of_ne_nil indented
  rw [accepts, uniform?_eq blank]
  cases Text.isMixed (c :: rest) with
  | true => simp
  | false => cases n.blank <;> simp [eq_comm]

end Nesting

end RuleLexer
