import RuleLexer.Fault
import RuleLexer.Position
import RuleLexer.Span
import RuleLexer.Text.Bytes
import RuleLexer.Text.Line

/-!
# Scanners

A scanner walks through a text. Its cursor only moves forward; in front of the
cursor it can look ahead and then either commit to what it saw or forget it.
Both places are byte offsets. A line break of two characters is read as one
line feed, by whichever operation reads it.

* `rest_pass`, `pass_add`: passing characters drops them from the text in front
  of the cursor, and can be done in parts;
* `commit_of_cut`: committing passes the characters up to the target;
* `pass_eq_stepTo`: passing characters is stepping over their bytes, while the
  lookahead is at the cursor.
-/

namespace RuleLexer

structure Scanner where
  /-- The whole text. -/
  text : List Char
  /-- The text in front of the cursor. -/
  rest : List Char
  /-- The offset of the cursor. -/
  index : Nat := 0
  /-- How far ahead of the cursor the lookahead is. -/
  ahead : Nat := 0
  /-- The position of the cursor. -/
  position : Position := {}
  /-- Where the lines that the cursor has reached start, the latest first. -/
  lineStarts : List Nat := [0]
  deriving DecidableEq

/-- How a slice of the text ends. -/
inductive SliceEnding where
  /-- With an ordinary character, or there is nothing in it. -/
  | inside
  /-- With a carriage return. -/
  | cr
  /-- With a line feed alone. -/
  | lf
  /-- With a carriage return and a line feed. -/
  | crLf
  /-- At the end of the text. -/
  | textEnd
  deriving DecidableEq

namespace Scanner

def ofText (text : List Char) : Scanner := { text, rest := text }

/-- The offset that the lookahead has reached. -/
def aheadIndex (s : Scanner) : Nat := s.index + s.ahead

def atEnd (s : Scanner) : Bool := s.rest.isEmpty

def aheadAtEnd (s : Scanner) : Bool := Text.width s.rest ≤ s.ahead

/-! ## Moving the cursor -/

/-- Moves the cursor over one character. The position waits on a carriage
return for the line feed behind it. -/
def step (s : Scanner) : Scanner :=
  match s.rest with
  | [] => s
  | c :: rest =>
    let index := s.index + c.utf8Size
    if c = '\n' then
      { s with rest, index, position := s.position.nextLine, lineStarts := index :: s.lineStarts }
    else if c = '\r' ∧ rest.head? = some '\n' then { s with rest, index }
    else { s with rest, index, position := s.position.nextColumn }

/-- Moves the cursor over a number of characters. -/
def pass : Nat → Scanner → Scanner
  | 0, s => s
  | n + 1, s => pass n s.step

/-- Moves the cursor forward by a number of bytes, at most to the end of the
text, and forgets the lookahead. -/
def commit (n : Nat) (s : Scanner) : Scanner :=
  match Text.cut n s.rest with
  | some (passed, _) => { s.pass passed.length with ahead := 0 }
  | none => { s with ahead := 0 }

/-! ## Reading at the cursor -/

/-- The character at the cursor. -/
def readChar (s : Scanner) : Char := (Text.front s.rest).1

/-- Reads the character at the cursor and moves behind it. -/
def consume (s : Scanner) : Char × Scanner :=
  let (c, width) := Text.front s.rest
  (c, s.commit width)

/-- The character at an offset from the cursor, which may be negative. -/
def peek (offset : Int) (s : Scanner) : Except Fault Char :=
  match (s.index : Int) + offset with
  | .negSucc _ => .error (.offsetOutOfRange offset s.index)
  | .ofNat index =>
    match Text.cut index s.text with
    | none => .error (.notCharBoundary index)
    | some (_, behind) => .ok (Text.front behind).1

/-! ## Looking ahead -/

/-- Reads the character at an offset ahead of the cursor and puts the lookahead
on it. On a line break of two characters the lookahead is put on the second of
them, so that one byte more leads behind it in either case. -/
def readAhead (offset : Nat) (s : Scanner) : Except Fault (Char × Scanner) :=
  match Text.cut offset s.rest with
  | none => .error (.notCharBoundary (s.index + offset))
  | some (_, behind) =>
    let (c, width) := Text.front behind
    .ok (c, { s with ahead := offset + (width - c.utf8Size) })

/-- Like `readAhead`, for an offset that is not the cursor itself. Also tells
where the lookahead is now. -/
def peekAhead (offset : Nat) (s : Scanner) : Except Fault (Char × Nat × Scanner) :=
  if offset = 0 then .error (.offsetOutOfRange 0 s.index)
  else do
    let (c, s) ← s.readAhead offset
    return (c, s.ahead, s)

/-- What the text shows at the lookahead. -/
def frontAhead (s : Scanner) : Char × Nat :=
  match Text.cut s.ahead s.rest with
  | none => (endOfText, 0)
  | some (_, behind) => Text.front behind

/-- The character at the lookahead. -/
def lookahead (s : Scanner) : Char := s.frontAhead.1

/-- Reads the character at the lookahead and moves the lookahead behind it. -/
def advanceAhead (s : Scanner) : Char × Scanner :=
  let (c, width) := s.frontAhead
  (c, { s with ahead := s.ahead + width })

/-- Moves the cursor to the lookahead. -/
def moveAhead (s : Scanner) : Scanner := s.commit s.ahead

/-- Moves the cursor forward by a number of bytes. -/
def stepTo (offset : Nat) (s : Scanner) : Scanner := s.commit offset

/-- Forgets the lookahead. -/
def resetAhead (s : Scanner) : Scanner := { s with ahead := 0 }

/-! ## Parts of the text and positions -/

/-- The text of a span, empty if the span does not fit the text. -/
def slice (span : Span) (s : Scanner) : List Char :=
  (Text.slice? s.text span.start span.stop).getD []

def sliceEnding (span : Span) (s : Scanner) : SliceEnding :=
  match (s.slice span).reverse with
  | '\n' :: '\r' :: _ => .crLf
  | '\n' :: _ => .lf
  | '\r' :: _ => .cr
  | _ => if Text.width s.text ≤ span.stop then .textEnd else .inside

/-- The position of an offset, as far as the lines are known. On the last known
line every further character counts as a column. -/
def positionAt (offset : Nat) (s : Scanner) : Position :=
  let offset := min offset (Text.width s.text)
  let starts := s.lineStarts.dropWhile (offset < ·)
  { line := starts.length, column := (s.slice ⟨starts.headD 0, offset⟩).length }

/-! ## Laws -/

theorem rest_step (s : Scanner) : s.step.rest = s.rest.tail := by
  unfold step
  split
  · simp_all
  · rename_i h
    simp only [h, List.tail_cons]
    split
    · rfl
    · split <;> rfl

@[simp]
theorem rest_pass (n : Nat) (s : Scanner) : (s.pass n).rest = s.rest.drop n := by
  induction n generalizing s with
  | zero => rfl
  | succ n ih => rw [pass, ih, rest_step, List.drop_tail]

theorem pass_add (m n : Nat) (s : Scanner) : s.pass (m + n) = (s.pass m).pass n := by
  induction m generalizing s with
  | zero => simp [pass]
  | succ m ih => rw [Nat.succ_add, pass, pass, ih]

theorem commit_of_cut {n : Nat} {s : Scanner} {passed rest : List Char}
    (h : Text.cut n s.rest = some (passed, rest)) :
    s.commit n = { s.pass passed.length with ahead := 0 } := by
  simp [commit, h]

theorem ahead_step (s : Scanner) : s.step.ahead = s.ahead := by
  unfold step
  repeat' split
  all_goals rfl

theorem ahead_pass (n : Nat) (s : Scanner) : (s.pass n).ahead = s.ahead := by
  induction n generalizing s with
  | zero => rfl
  | succ n ih => rw [pass, ih, ahead_step]

theorem pass_eq_stepTo {s : Scanner} {passed rest : List Char} (lookahead : s.ahead = 0)
    (front : s.rest = passed ++ rest) : s.pass passed.length = s.stepTo (Text.width passed) := by
  have seen := Text.cut_width_append passed rest
  rw [← front] at seen
  have still : (s.pass passed.length).ahead = 0 := (ahead_pass _ _).trans lookahead
  rw [stepTo, commit_of_cut seen, ← still]

end Scanner

end RuleLexer
