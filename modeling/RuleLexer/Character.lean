import RuleLexer.Unicode.Alphabetic
import RuleLexer.Unicode.Numeric

/-!
# Characters of a rule file

The classes of characters that the lexer tells apart.

* `isAlphabetic_iff`, `isNumeric_iff`: the two classes are exactly their ranges;
* `isAlphabetic_of_isAlpha`: ASCII letters are alphabetic;
* `isLabelChar_iff`: a label holds letters, numbers, spaces and `]`.
-/

namespace RuleLexer

/-- Stands for the end of the text. The same character inside a text ends it too. -/
def endOfText : Char := '\x00'

/-- Space or tab. -/
def isBlank (c : Char) : Bool := c = ' ' || c = '\t'

/-- The characters of an annotation's name. -/
def isAlphabetic (c : Char) : Bool := Unicode.inRanges c.toNat Unicode.alphabeticRanges

/-- Digits and other numbers of any script. -/
def isNumeric (c : Char) : Bool := Unicode.inRanges c.toNat Unicode.numericRanges

/-- The characters of a label's name. -/
def isLabelChar (c : Char) : Bool := isAlphabetic c || isNumeric c || c = ' ' || c = ']'

theorem isAlphabetic_iff {c : Char} :
    isAlphabetic c = true ↔ ∃ r ∈ Unicode.alphabeticRanges, r.1 ≤ c.toNat ∧ c.toNat ≤ r.2 :=
  Unicode.inRanges_iff Unicode.alphabeticRanges_ascending

theorem isNumeric_iff {c : Char} :
    isNumeric c = true ↔ ∃ r ∈ Unicode.numericRanges, r.1 ≤ c.toNat ∧ c.toNat ≤ r.2 :=
  Unicode.inRanges_iff Unicode.numericRanges_ascending

theorem isAlphabetic_of_isAlpha {c : Char} (h : c.isAlpha = true) : isAlphabetic c = true := by
  have bounds : (65 ≤ c.toNat ∧ c.toNat ≤ 90) ∨ (97 ≤ c.toNat ∧ c.toNat ≤ 122) := by
    have upper : c.isUpper = decide ('A'.val ≤ c.val ∧ c.val ≤ 'Z'.val) := rfl
    have lower : c.isLower = (decide ('a'.val ≤ c.val) && decide (c.val ≤ 'z'.val)) := rfl
    have cases : (c.isUpper || c.isLower) = true := h
    simpa [upper, lower, UInt32.le_iff_toNat_le] using cases
  rw [isAlphabetic_iff]
  rcases bounds with bounds | bounds
  · exact ⟨(0x41, 0x5A), .head _, bounds⟩
  · exact ⟨(0x61, 0x7A), .tail _ (.head _), bounds⟩

theorem isLabelChar_iff {c : Char} :
    isLabelChar c = true ↔ isAlphabetic c = true ∨ isNumeric c = true ∨ c = ' ' ∨ c = ']' := by
  simp [isLabelChar, or_assoc]

end RuleLexer
