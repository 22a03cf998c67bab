import RuleLexer.Annotation
import RuleLexer.Heading
import RuleLexer.Item
import RuleLexer.Text.Line

/-!
# Line modes

How a line starts decides what may stand on it. Annotations, headings and
punctuation are recognised on header lines only; all other text is an item.

* `ofText`: the mode of the line that a text starts with;
* `source_read`: what was read is a first part of the line;
* `source_read_ne_nil`: and some of the line was read.
-/

namespace RuleLexer

inductive LineMode where
  /-- The line starts with an at sign or a bracket, or it is the first line. -/
  | header
  /-- The line is indented. -/
  | subsection
  | item
  /-- The line holds nothing but blanks. -/
  | blank
  deriving DecidableEq

namespace LineMode

def all : List LineMode := [header, subsection, item, blank]

def name : LineMode → String
  | header => "Header"
  | subsection => "Subsection"
  | item => "Item"
  | blank => "Blank"

/-- The mode of a name, which must be spelled exactly. -/
def ofName? (name : String) : Option LineMode := all.find? (·.name = name)

instance : ToString LineMode := ⟨name⟩

/-- The mode of the line that a text starts with. -/
def ofText (text : List Char) : LineMode :=
  if Text.atLineEnd (text.dropWhile isBlank) then blank
  else match text with
    | [] => blank
    | c :: _ =>
      if isBlank c then subsection
      else if c = '@' || c = '[' then header
      else item

/-- The kind of a punctuation character. -/
def punctuation? (c : Char) : Option TokenKind :=
  if c = '(' then some .openParens
  else if c = ')' then some .closeParens
  else if c = ',' then some .comma
  else none

/-- Reads what stands at the head of the rest of a header line. -/
def readHeader : List Char → LinePart
  | [] => { pieces := [] }
  | c :: rest =>
    if c = '@' then Annotation.read rest
    else if c = '[' then Heading.read rest
    else match punctuation? c with
      | some kind => { pieces := [.raw kind .none [c]] }
      | none => Item.read (c :: rest)

/-- Reads what stands at the head of the rest of a line. -/
def read : LineMode → List Char → LinePart
  | header, line => readHeader line
  | subsection, line | item, line | blank, line => Item.read line

theorem ofName?_name (mode : LineMode) : ofName? mode.name = some mode := by
  cases mode <;> decide

theorem source_read (mode : LineMode) (line : List Char) : (mode.read line).source <+: line := by
  have ofItem (line : List Char) : (Item.read line).source <+: line :=
    ⟨[], by simp [Item.source_read]⟩
  cases mode with
  | header =>
    cases line with
    | nil => exact ⟨[], rfl⟩
    | cons c rest =>
      simp only [read, readHeader]
      split
      · rename_i h; subst h; exact Annotation.source_read rest
      · split
        · rename_i h; subst h; exact Heading.source_read rest
        · split
          · exact ⟨rest, rfl⟩
          · exact ofItem _
  | subsection | item | blank => exact ofItem line

theorem source_read_ne_nil (mode : LineMode) {line : List Char} (h : line ≠ []) :
    (mode.read line).source ≠ [] := by
  have ofItem : (Item.read line).source ≠ [] := by rwa [Item.source_read]
  cases mode with
  | header =>
    cases line with
    | nil => exact absurd rfl h
    | cons c rest =>
      simp only [read, readHeader]
      split
      · exact Annotation.source_read_ne_nil rest
      · split
        · exact Heading.source_read_ne_nil rest
        · split
          · simp [LinePart.source]
          · exact ofItem
  | subsection | item | blank => exact ofItem

end LineMode

end RuleLexer
