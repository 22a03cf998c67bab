import RuleLexer.Character
import RuleLexer.Literal
import RuleLexer.Piece

/-!
# Headings

A heading is a bracketed name at the head of a section. A name in which a
bracket had to be doubled is a label instead.

* `source_read`: what was read is a first part of the text.
-/

namespace RuleLexer.Heading

/-- What a closed heading is: a section if no bracket in it is doubled, a label
if all of its characters suit a label, an error otherwise. -/
def piece (l : Literal) : Piece :=
  if l.escaped = false then l.piece .sectionName .none
  else if l.body.all isLabelChar then l.piece .label .none
  else .raw .error .label l.chars

/-- Reads a heading, from behind its bracket. Behind it only an item may follow. -/
def read (behind : List Char) : LinePart :=
  match Literal.read .bracket behind with
  | .closed l _ => { pieces := [piece l], itemFollows := true }
  | .unclosed chars => { pieces := [], openLiteral := some (.sectionName, chars) }

@[simp]
theorem chars_piece (l : Literal) : (piece l).chars = l.chars := by
  unfold piece
  split
  · rfl
  · split <;> rfl

theorem source_read (behind : List Char) : (read behind).source <+: '[' :: behind := by
  unfold read
  split
  · rename_i l rest found
    have whole := Literal.chars_append_of_read found
    exact ⟨rest, by simpa [LinePart.source, Delimiter.opener] using whole⟩
  · rename_i chars unclosed
    obtain ⟨-, rfl⟩ := Literal.read_eq_unclosed_iff.mp unclosed
    exact ⟨[], by simp [LinePart.source, Delimiter.opener]⟩

theorem source_read_ne_nil (behind : List Char) : (read behind).source ≠ [] := by
  unfold read
  split
  · simp [LinePart.source, Literal.chars, Literal.written]
  · rename_i chars unclosed
    obtain ⟨-, rfl⟩ := Literal.read_eq_unclosed_iff.mp unclosed
    simp [LinePart.source]

end RuleLexer.Heading
