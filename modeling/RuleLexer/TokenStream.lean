import RuleLexer.Lexer

/-!
# Token streams

A token stream hands out each token once, the end-of-file token included, and
then ends. Tokens can be handed out together with their positions.

* `toList_eq`: the list of a stream is its next token and the list behind it.
-/

namespace RuleLexer

/-- A token with the positions where it starts and ends. -/
structure LocatedToken where
  token : Token
  startPosition : Position
  stopPosition : Position
  deriving DecidableEq

structure TokenStream where
  lexer : Lexer
  finished : Bool := false
  deriving DecidableEq

/-- The positions of a token that the lexer has handed out. -/
def Lexer.locate (L : Lexer) (token : Token) : LocatedToken where
  token
  startPosition := L.scanner.positionAt token.span.start
  stopPosition := L.scanner.positionAt token.span.stop

/-- All tokens up to the end of the file, each located as it is handed out. -/
def Lexer.locatedTokens (L : Lexer) : List LocatedToken := L.collect locate

namespace TokenStream

/-- The next token, if there is one. -/
def next (s : TokenStream) : Option Token × TokenStream :=
  if s.finished then (none, s)
  else
    let (token, lexer) := s.lexer.readToken
    (some token, { lexer, finished := token.kind = .endOfFile })

/-- The next token with its positions. -/
def nextLocated (s : TokenStream) : Option LocatedToken × TokenStream :=
  let (token?, s) := s.next
  (token?.map s.lexer.locate, s)

/-- The position of an offset, as far as the lines are known. -/
def positionAt (offset : Nat) (s : TokenStream) : Position := s.lexer.scanner.positionAt offset

/-- The tokens that are left. -/
def toList (s : TokenStream) : List Token := if s.finished then [] else s.lexer.tokens

theorem toList_eq (s : TokenStream) :
    s.toList = match s.next with
      | (none, _) => []
      | (some token, s) => token :: s.toList := by
  unfold next
  by_cases h : s.finished = true
  · simp [toList, h]
  · simp only [h, Bool.false_eq_true, ↓reduceIte, toList, Lexer.tokens]
    rw [Lexer.collect_eq]
    simp

end TokenStream

end RuleLexer
