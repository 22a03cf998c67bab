import RuleLexer.Character

/-!
# Lines

A line ends at a line feed, at a NUL, or where the text ends. A carriage return
directly in front of a line feed belongs to the line break and is read together
with it as one line feed. Anywhere else it is an ordinary character.

* `front`: the first character as it is read, with its width in bytes;
* `line`: the rest of the line, without what ends it;
* `line_append_behindLine`: nothing is lost between the two;
* `atLineEnd_behindLine`: what follows the line is at a line end.
-/

namespace RuleLexer.Text

/-- The character at the head of a text and the bytes it takes. Carriage return
and line feed are read as one line feed, and the end of the text as a NUL of no bytes. -/
def front : List Char → Char × Nat
  | [] => (endOfText, 0)
  | '\r' :: '\n' :: _ => ('\n', 2)
  | c :: _ => (c, c.utf8Size)

/-- Whether no more of the line is left. -/
def atLineEnd : List Char → Bool
  | [] => true
  | c :: rest => c = '\n' || c = endOfText || (c = '\r' && rest.head? = some '\n')

/-- What is left of the line. -/
def line : List Char → List Char
  | [] => []
  | c :: rest => if atLineEnd (c :: rest) then [] else c :: line rest

/-- What is left of the text behind the line. -/
def behindLine : List Char → List Char
  | [] => []
  | c :: rest => if atLineEnd (c :: rest) then c :: rest else behindLine rest

/-- The line break at the head of a text, if there is one. -/
def lineBreak : List Char → List Char
  | '\n' :: _ => ['\n']
  | '\r' :: '\n' :: _ => ['\r', '\n']
  | _ => []

theorem line_append_behindLine (text : List Char) : line text ++ behindLine text = text := by
  induction text with
  | nil => rfl
  | cons c rest ih =>
    simp only [line, behindLine]
    split <;> simp [ih]

theorem atLineEnd_behindLine (text : List Char) : atLineEnd (behindLine text) = true := by
  induction text with
  | nil => rfl
  | cons c rest ih =>
    simp only [behindLine]
    split
    · assumption
    · exact ih

theorem line_eq_nil_iff (text : List Char) : line text = [] ↔ atLineEnd text = true := by
  cases text with
  | nil => simp [line, atLineEnd]
  | cons c rest =>
    simp only [line]
    split <;> simp_all

theorem lineBreak_append_drop (text : List Char) :
    lineBreak text ++ text.drop (lineBreak text).length = text := by
  unfold lineBreak
  split <;> rfl

end RuleLexer.Text
