import RuleLexer.Token.Kind

/-!
# Pieces

Lexing cuts a line into pieces without gaps. A marked piece becomes a token,
any other piece is passed over in silence.

* `source`: the text that pieces were cut from;
* `LinePart.source`: the same for a part of a line that may end in an open literal.
-/

namespace RuleLexer

/-- What a token will say about its piece of text. -/
structure Mark where
  kind : TokenKind
  context : TokenKind := .none
  value : List Char
  deriving DecidableEq

structure Piece where
  chars : List Char
  mark : Option Mark := none
  deriving DecidableEq

namespace Piece

/-- A piece that yields no token. -/
def silent (chars : List Char) : Piece := { chars }

/-- A piece whose value differs from its text. -/
def valued (kind context : TokenKind) (value chars : List Char) : Piece :=
  { chars, mark := some { kind, context, value } }

/-- A piece whose value is its text. -/
def raw (kind context : TokenKind) (chars : List Char) : Piece :=
  valued kind context chars chars

/-- The text of pieces in a row. -/
def source (pieces : List Piece) : List Char := pieces.flatMap (·.chars)

@[simp]
theorem source_nil : source [] = [] := rfl

@[simp]
theorem source_cons (p : Piece) (pieces : List Piece) :
    source (p :: pieces) = p.chars ++ source pieces := by
  simp [source]

@[simp]
theorem source_append (a b : List Piece) : source (a ++ b) = source a ++ source b := by
  simp [source]

@[simp]
theorem chars_silent (chars : List Char) : (silent chars).chars = chars := rfl

@[simp]
theorem chars_valued (kind context : TokenKind) (value chars : List Char) :
    (valued kind context value chars).chars = chars := rfl

@[simp]
theorem chars_raw (kind context : TokenKind) (chars : List Char) :
    (raw kind context chars).chars = chars := rfl

end Piece

/-- What was made of a part of a line. -/
structure LinePart where
  pieces : List Piece
  /-- A literal that the end of the line left open, with its text and the
  context of the error that it becomes. -/
  openLiteral : Option (TokenKind × List Char) := none
  /-- Whether the rest of the line can only be an item. -/
  itemFollows : Bool := false
  deriving DecidableEq

/-- The text of a part of a line. -/
def LinePart.source (part : LinePart) : List Char :=
  Piece.source part.pieces ++ (part.openLiteral.map Prod.snd).getD []

end RuleLexer
