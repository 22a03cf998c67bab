import RuleLexer.Fault

/-!
# Token kinds

Every token has a kind and a context, and both are taken from one list of
kinds. Each kind has a name and a code that stay fixed.

* `TokenKind.ofName?_name`, `TokenKind.ofCode_code`: either one determines the kind;
* `TokenKind.code_ascending`: the codes ascend in the order of the list.
-/

namespace RuleLexer

inductive TokenKind where
  /-- The context of a token that needs none. -/
  | none
  /-- A section header, or an argument that names a section. -/
  | sectionName
  | subsection
  | item
  | annotationName
  | annotationArgument
  /-- Plain text of an item. -/
  | value
  /-- A bracketed literal. -/
  | label
  | identifier
  /-- The arrow between the sides of an item. -/
  | operator
  /-- The left side of an item. -/
  | lhs
  /-- The right side of an item. -/
  | rhs
  /-- A quoted literal. -/
  | string
  /-- A literal between slashes. -/
  | regex
  | endOfFile
  | newLine
  | indent
  | tab
  | space
  /-- Malformed text; the context tells what was expected. -/
  | error
  | atSign
  | openParens
  | closeParens
  | comma
  deriving DecidableEq

namespace TokenKind

/-- All kinds, by ascending code. -/
def all : List TokenKind :=
  [none, sectionName, subsection, item, annotationName, annotationArgument, value, label,
   identifier, operator, lhs, rhs, string, regex, endOfFile, newLine, indent, tab, space, error,
   atSign, openParens, closeParens, comma]

def code : TokenKind → Nat
  | none => 0
  | sectionName => 100
  | subsection => 101
  | item => 102
  | annotationName => 200
  | annotationArgument => 202
  | value => 301
  | label => 302
  | identifier => 303
  | operator => 400
  | lhs => 401
  | rhs => 402
  | string => 501
  | regex => 503
  | endOfFile => 601
  | newLine => 602
  | indent => 603
  | tab => 604
  | space => 605
  | error => 700
  | atSign => 900
  | openParens => 901
  | closeParens => 902
  | comma => 903

def name : TokenKind → String
  | none => "None"
  | sectionName => "Section"
  | subsection => "Subsection"
  | item => "Item"
  | annotationName => "Annotation"
  | annotationArgument => "AnnotationArgument"
  | value => "Value"
  | label => "Label"
  | identifier => "Identifier"
  | operator => "Operator"
  | lhs => "Lhs"
  | rhs => "Rhs"
  | string => "String"
  | regex => "Regex"
  | endOfFile => "EndOfFile"
  | newLine => "NewLine"
  | indent => "Indent"
  | tab => "Tab"
  | space => "Space"
  | error => "Error"
  | atSign => "AtSign"
  | openParens => "OpenParens"
  | closeParens => "CloseParens"
  | comma => "Comma"

/-- The kind of a name, which must be spelled exactly. -/
def ofName? (name : String) : Option TokenKind := all.find? (·.name = name)

def ofCode (code : Nat) : Except Fault TokenKind :=
  match all.find? (·.code = code) with
  | some kind => .ok kind
  | _ => .error (.undefinedTokenKind code)

/-- The place of a kind in `all`. -/
def index (kind : TokenKind) : Nat := all.idxOf kind

/-- Layout, which a token stream may leave out, and the end of the file. -/
def isTrivia : TokenKind → Bool
  | endOfFile | newLine | indent | tab | space => true
  | _ => false

/-- Kinds compare as their codes do. -/
instance : Ord TokenKind := ⟨fun a b => compare a.code b.code⟩

instance : ToString TokenKind := ⟨name⟩

theorem mem_all (kind : TokenKind) : kind ∈ all := by
  cases kind <;> decide

theorem ofName?_name (kind : TokenKind) : ofName? kind.name = some kind := by
  cases kind <;> decide

theorem ofCode_code (kind : TokenKind) : ofCode kind.code = .ok kind := by
  cases kind <;> rfl

theorem code_ascending : all.Pairwise fun a b => a.code < b.code := by decide

end TokenKind

end RuleLexer
