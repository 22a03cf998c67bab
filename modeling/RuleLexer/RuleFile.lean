import RuleLexer.Item
import RuleLexer.Text.Bytes
import RuleLexer.Token

/-!
# Rule files

A rule file as it is meant: a list of lines, each of them an annotation, a
section or an item. Names and texts carry the proof that they can be written,
so that every list of lines is a rule file.

* `Line.written`, `written`: how lines are written down;
* `Line.tokens`, `tokens`: the tokens that say what was meant.
-/

namespace RuleLexer.RuleFile

/-! ## What lines are made of -/

/-- A text that fits on one line. -/
def OnLine (text : List Char) : Prop := ∀ c ∈ text, c ≠ '\n' ∧ c ≠ endOfText

instance (text : List Char) : Decidable (OnLine text) := List.decidableBAll _ text

/-- What stands between the delimiters of a literal. -/
structure Body where
  chars : List Char
  onLine : OnLine chars
  deriving DecidableEq

/-- The name of an annotation. -/
structure Name where
  chars : List Char
  ne_nil : chars ≠ []
  alphabetic : ∀ c ∈ chars, isAlphabetic c = true
  deriving DecidableEq

/-- The name of a section. -/
structure Title where
  chars : List Char
  onLine : OnLine chars
  noBracket : ']' ∉ chars
  deriving DecidableEq

/-- The name of a label. -/
structure Label where
  chars : List Char
  suits : ∀ c ∈ chars, isLabelChar c = true
  deriving DecidableEq

/-- Text on a side of an item that stands there without delimiters. -/
structure PlainText where
  chars : List Char
  ne_nil : chars ≠ []
  onLine : OnLine chars
  noArrow : ¬ ['-', '>'] <:+: chars
  first : ∀ c ∈ chars.head?, c ∉ [' ', '\t', '"', '/', '[', '@', '(', ')', ',']
  last : ∀ c ∈ chars.getLast?, c ∉ [' ', '\t', '\r']
  deriving DecidableEq

inductive Argument where
  | sectionName (body : Body)
  | string (body : Body)
  deriving DecidableEq

/-- What stands on a side of an item. Labels stand on the right only. -/
inductive Operand : Item.Side → Type where
  | text {side : Item.Side} (plain : PlainText) : Operand side
  | string {side : Item.Side} (body : Body) : Operand side
  | regex {side : Item.Side} (body : Body) : Operand side
  | label (name : Label) : Operand .right
  deriving DecidableEq

inductive Line where
  /-- An annotation, which may have a list of arguments. -/
  | tag (name : Name) (arguments : Option (List Argument))
  | heading (title : Title)
  | item (left : Operand .left) (right : Option (Operand .right))
  deriving DecidableEq

/-! ## How it is written -/

def Name.written (name : Name) : List Char := '@' :: name.chars

def Title.written (title : Title) : List Char := Literal.written .bracket title.chars

def Argument.written : Argument → List Char
  | sectionName body => Literal.written .bracket body.chars
  | string body => Literal.written .quote body.chars

def Operand.written {side : Item.Side} : Operand side → List Char
  | text plain => plain.chars
  | string body => Literal.written .quote body.chars
  | regex body => Literal.written .slash body.chars
  | label name => Literal.written .bracket name.chars

/-- Arguments as they stand between their parentheses. -/
def writtenArguments (arguments : List Argument) : List Char :=
  [',', ' '].intercalate (arguments.map Argument.written)

def Line.written : Line → List Char
  | tag name none => name.written
  | tag name (some arguments) => name.written ++ '(' :: writtenArguments arguments ++ [')']
  | heading title => title.written
  | item left none => left.written
  | item left (some right) => left.written ++ [' ', '-', '>', ' '] ++ right.written

/-- The lines of a file, with a line feed between any two of them. -/
def written (lines : List Line) : List Char := ['\n'].intercalate (lines.map Line.written)

/-! ## What it says -/

def Name.mark (name : Name) : Mark := { kind := .annotationName, value := name.chars }

def Title.mark (title : Title) : Mark := { kind := .sectionName, value := title.chars }

def Argument.mark : Argument → Mark
  | sectionName body =>
    { kind := .annotationArgument, context := .sectionName, value := body.chars }
  | string body => { kind := .annotationArgument, context := .string, value := body.chars }

def Operand.mark {side : Item.Side} : Operand side → Mark
  | text plain => { kind := .value, context := side.context, value := plain.chars }
  | string body => { kind := .string, context := side.context, value := body.chars }
  | regex body => { kind := .regex, context := side.context, value := body.chars }
  | label name => { kind := .label, context := .rhs, value := name.chars }

/-- The token of what is written at an offset. No line is indented. -/
def token (start : Nat) (written : List Char) (mark : Mark) : Token where
  span := ⟨start, start + Text.width written⟩
  depth := 1
  kind := mark.kind
  context := mark.context
  value := String.ofList mark.value

/-- The tokens of arguments, the first of which is written at an offset. -/
def argumentTokens (start : Nat) : List Argument → List Token
  | [] => []
  | a :: more =>
    token start a.written a.mark :: argumentTokens (start + Text.width a.written + 2) more

/-- The tokens of a line that is written at an offset. -/
def Line.tokens (start : Nat) : Line → List Token
  | tag name arguments =>
    token start name.written name.mark ::
      argumentTokens (start + Text.width name.written + 1) (arguments.getD [])
  | heading title => [token start title.written title.mark]
  | item left none => [token start left.written left.mark]
  | item left (some right) =>
    let behind := start + Text.width left.written
    [token start left.written left.mark,
      token (behind + 1) ['-', '>'] { kind := .operator, value := ['-', '>'] },
      token (behind + 4) right.written right.mark]

/-- The tokens of lines, the first of which is written at an offset. -/
def lineTokens (start : Nat) : List Line → List Token
  | [] => []
  | l :: more => l.tokens start ++ lineTokens (start + Text.width l.written + 1) more

/-- The tokens of a file, with the end of the file. -/
def tokens (lines : List Line) : List Token :=
  lineTokens 0 lines ++
    [{ span := .empty (Text.width (written lines)), depth := 1, kind := .endOfFile, value := "" }]

end RuleLexer.RuleFile
