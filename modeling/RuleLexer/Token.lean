import RuleLexer.Span
import RuleLexer.Token.Kind

/-!
# Tokens

A token is a stretch of the text with a kind, a context, the depth of the line
it stands on, and its value, which is the text without delimiters and escapes.

* `Token.make_eq_ok_iff`: a token is accepted exactly if its span is not
  inverted and its depth is at least 1.
-/

namespace RuleLexer

structure Token where
  span : Span
  depth : Nat
  kind : TokenKind
  context : TokenKind := .none
  value : String
  deriving DecidableEq

namespace Token

/-- Checks the span, then the depth. -/
def make (span : Span) (depth : Nat) (kind context : TokenKind) (value : String) :
    Except Fault Token :=
  if span.stop < span.start then .error (.invalidRange span.start span.stop)
  else if depth = 0 then .error (.invalidDepth depth)
  else .ok { span, depth, kind, context, value }

def isError (t : Token) : Bool := t.kind = .error

/-- Trivia shows as nothing, any other token as its value. -/
instance : ToString Token := ⟨fun t => if t.kind.isTrivia then "" else t.value⟩

theorem make_eq_ok_iff {span : Span} {depth : Nat} {kind context : TokenKind} {value : String}
    {t : Token} : make span depth kind context value = .ok t ↔
      span.start ≤ span.stop ∧ 1 ≤ depth ∧ t = { span, depth, kind, context, value } := by
  unfold make
  split
  · simp; omega
  · split
    · simp; omega
    · simp only [Except.ok.injEq, eq_comm]
      constructor
      · rintro rfl; exact ⟨by omega, by omega, rfl⟩
      · exact fun h => h.2.2

end Token

end RuleLexer
