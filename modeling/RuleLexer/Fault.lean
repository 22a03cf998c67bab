/-!
# Faults

A fault is a request that cannot be answered, such as a read before the start
of the text. Malformed rule text is never a fault: it becomes error tokens.
-/

namespace RuleLexer

inductive Fault where
  /-- An offset from `index` leads before the start of the text, or may not be zero. -/
  | offsetOutOfRange (offset : Int) (index : Nat)
  /-- An index lies inside a character of several bytes. -/
  | notCharBoundary (index : Nat)
  /-- A token would end before it starts. -/
  | invalidRange (start stop : Nat)
  /-- A token would lie above the top level, which is depth 1. -/
  | invalidDepth (depth : Nat)
  /-- No token kind has this code. -/
  | undefinedTokenKind (code : Nat)
  deriving DecidableEq

/-- What is reported about a fault. -/
def Fault.message : Fault → String
  | offsetOutOfRange offset index => s!"Offset {offset} is out of range at index {index}"
  | notCharBoundary index => s!"Index {index} is not on a char boundary"
  | invalidRange start stop => s!"Invalid token range {start}..{stop}"
  | invalidDepth depth => s!"Invalid token depth {depth}, depth must be at least 1"
  | undefinedTokenKind code => s!"Undefined token kind {code}"

end RuleLexer
