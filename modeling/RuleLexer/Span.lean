/-!
# Spans

A span is a range of byte offsets in the text, with its end excluded.
-/

namespace RuleLexer

structure Span where
  start : Nat
  stop : Nat
  deriving DecidableEq

namespace Span

/-- The empty span at an offset. -/
def empty (offset : Nat) : Span := ⟨offset, offset⟩

/-- Number of bytes. An inverted span has none. -/
def length (s : Span) : Nat := s.stop - s.start

def isEmpty (s : Span) : Bool := s.stop ≤ s.start

instance : ToString Span := ⟨fun s => s!"{s.start}..{s.stop}"⟩

theorem isEmpty_iff (s : Span) : s.isEmpty = true ↔ s.length = 0 := by
  simp [isEmpty, length, Nat.sub_eq_zero_iff_le]

end Span

end RuleLexer
