import RuleLexer.LineMode
import RuleLexer.Nesting
import RuleLexer.Scanner
import RuleLexer.Token

/-!
# Lexer

The lexer hands out the tokens of a text one by one. It scans ahead only as
far as it must to have a token, which may give several tokens at once; those
wait in a queue. Behind the last token it hands out an end-of-file token,
however often it is asked.

* `rest_take`: a token moves the scanner over its piece of text;
* `scan_advances`: a scan finds the end of the text or moves forward;
* `settle_settled`: after settling, a token waits or the end was found;
* `readToken_advances`: reading ends, since each token brings the end nearer.
-/

namespace RuleLexer

structure LexerOptions where
  /-- Whether line breaks and indentation are tokens too. -/
  emitTrivia : Bool := false
  deriving DecidableEq

structure Lexer where
  scanner : Scanner
  options : LexerOptions := {}
  mode : LineMode := .header
  nesting : Nesting := {}
  /-- The tokens that were found and not yet handed out. -/
  queue : List Token := []
  /-- Whether the end of the text was found. -/
  ended : Bool := false
  deriving DecidableEq

namespace Lexer

def ofText (text : List Char) (options : LexerOptions) : Lexer :=
  { scanner := .ofText text, options }

/-- The nesting depth of the current line. -/
def depth (L : Lexer) : Nat := L.nesting.depth

/-! ## Scanning -/

/-- Moves over a piece of text. A marked piece is queued as a token, unless it
is trivia and trivia is not wanted.

The scanner passes the characters of the piece, which leaves its lookahead where
it is: pieces are cut from the text in front of the cursor, and nothing is looked
at ahead of it. While the lookahead is at the cursor, this is a step over the
bytes of the piece (`Scanner.pass_eq_stepTo`). -/
def take (L : Lexer) (p : Piece) : Lexer :=
  let scanner := L.scanner.pass p.chars.length
  match p.mark with
  | none => { L with scanner }
  | some mark =>
    if L.options.emitTrivia || !mark.kind.isTrivia then
      let token : Token :=
        { span := ⟨L.scanner.index, scanner.index⟩, depth := L.depth, kind := mark.kind,
          context := mark.context, value := String.ofList mark.value }
      { L with scanner, queue := L.queue ++ [token] }
    else { L with scanner }

/-- Begins a line at the cursor. Its indentation is taken, and it belongs to
the nesting of the line already. A line that is neither indented nor blank
starts again at the top level. -/
def beginLine (L : Lexer) : Lexer :=
  let indent := L.scanner.rest.takeWhile isBlank
  match LineMode.ofText L.scanner.rest with
  | .header => { L with mode := .header, nesting := {} }
  | .item => { L with mode := .item, nesting := {} }
  | .blank => { L with mode := .blank }.take (.silent indent)
  | .subsection =>
    { L with mode := .subsection, nesting := L.nesting.enter indent }.take
      (L.nesting.indentPiece indent)

/-- Takes a literal that the end of the line leaves open. It takes the line
break too, which counts as one line feed, and the next line begins. -/
def takeOpenLiteral (L : Lexer) (context : TokenKind) (chars : List Char) : Lexer :=
  let lineBreak := Text.lineBreak (L.scanner.rest.drop chars.length)
  if lineBreak = [] then L.take (.raw .error context chars)
  else (L.take (.valued .error context (chars ++ ['\n']) (chars ++ lineBreak))).beginLine

/-- Takes a part of the line. -/
def takePart (L : Lexer) (part : LinePart) : Lexer :=
  let mode := if part.itemFollows then .item else L.mode
  let L := part.pieces.foldl take { L with mode }
  match part.openLiteral with
  | none => L
  | some (context, chars) => L.takeOpenLiteral context chars

/-- Scans on from the cursor. Blanks are passed over, and what stands behind
them is a line break, the end of the text, or a part of the line. -/
def scan (L : Lexer) : Lexer :=
  let L := L.take (.silent (L.scanner.rest.takeWhile isBlank))
  let lineBreak := Text.lineBreak L.scanner.rest
  if lineBreak ≠ [] then (L.take (.valued .newLine .none ['\n'] lineBreak)).beginLine
  else if Text.atLineEnd L.scanner.rest then { L with ended := true }
  else L.takePart (L.mode.read (Text.line L.scanner.rest))

/-! ## Progress -/

@[simp]
theorem rest_take (L : Lexer) (p : Piece) :
    (L.take p).scanner.rest = L.scanner.rest.drop p.chars.length := by
  unfold take
  dsimp only
  split
  · simp
  · split <;> simp

@[simp]
theorem rest_takes (L : Lexer) (pieces : List Piece) :
    (pieces.foldl take L).scanner.rest = L.scanner.rest.drop (Piece.source pieces).length := by
  induction pieces generalizing L with
  | nil => rfl
  | cons p pieces ih => simp [ih, List.drop_drop]

theorem length_rest_beginLine (L : Lexer) :
    L.beginLine.scanner.rest.length ≤ L.scanner.rest.length := by
  unfold beginLine
  dsimp only
  split <;> simp

theorem length_rest_takeOpenLiteral (L : Lexer) (context : TokenKind) (chars : List Char) :
    (L.takeOpenLiteral context chars).scanner.rest.length ≤
      L.scanner.rest.length - chars.length := by
  unfold takeOpenLiteral
  dsimp only
  split
  · simp
  · refine Nat.le_trans (length_rest_beginLine _) ?_
    simp only [rest_take, Piece.chars_valued, List.length_drop, List.length_append]
    omega

theorem length_rest_takePart (L : Lexer) (part : LinePart) :
    (L.takePart part).scanner.rest.length ≤ L.scanner.rest.length - part.source.length := by
  unfold takePart
  dsimp only
  split
  · rename_i h
    simp [LinePart.source, h]
  · rename_i context chars h
    refine Nat.le_trans (length_rest_takeOpenLiteral _ _ _) ?_
    simp only [rest_takes, List.length_drop, LinePart.source, h, Option.map_some,
      Option.getD_some, List.length_append]
    omega

/-- A scan finds the end of the text or moves forward. -/
theorem scan_advances (L : Lexer) :
    L.scan.ended = true ∨ L.scan.scanner.rest.length < L.scanner.rest.length := by
  unfold scan
  dsimp only
  generalize hM : L.take (.silent (L.scanner.rest.takeWhile isBlank)) = M
  have hM : M.scanner.rest.length ≤ L.scanner.rest.length := by simp [← hM]
  split
  · rename_i h
    right
    refine Nat.lt_of_le_of_lt (length_rest_beginLine _) ?_
    have whole := congrArg List.length (Text.lineBreak_append_drop M.scanner.rest)
    have := List.length_pos_iff.mpr h
    simp only [List.length_append, List.length_drop, rest_take, Piece.chars_valued] at whole ⊢
    omega
  · split
    · exact .inl rfl
    · rename_i h
      right
      refine Nat.lt_of_le_of_lt (length_rest_takePart _ _) ?_
      have line : Text.line M.scanner.rest ≠ [] := by rwa [ne_eq, Text.line_eq_nil_iff]
      have := List.length_pos_iff.mpr (M.mode.source_read_ne_nil line)
      have := (M.mode.source_read (Text.line M.scanner.rest)).length_le
      have := congrArg List.length (Text.line_append_behindLine M.scanner.rest)
      simp only [List.length_append] at this
      omega

/-! ## Reading tokens -/

/-- How far the end of the text is, as a bound on the number of scans. -/
def unscanned (L : Lexer) : Nat := if L.ended then 0 else L.scanner.rest.length + 1

theorem unscanned_scan {L : Lexer} (h : L.ended = false) : L.scan.unscanned < L.unscanned := by
  unfold unscanned
  rcases scan_advances L with ended | advances
  · simp [ended, h]
  · split <;> simp [h]; omega

/-- Scans until a token waits or the end of the text was found. -/
def settle (L : Lexer) : Lexer :=
  if _ : L.ended = false ∧ L.queue = [] then L.scan.settle else L
termination_by L.unscanned
decreasing_by exact unscanned_scan (And.left ‹_›)

/-- The token at the end of the text. -/
def endToken (L : Lexer) : Token :=
  { span := .empty L.scanner.index, depth := L.depth, kind := .endOfFile, value := "" }

/-- The next token. -/
def readToken (L : Lexer) : Token × Lexer :=
  let L := L.settle
  match L.queue with
  | [] => (L.endToken, L)
  | token :: queue => (token, { L with queue })

theorem settle_settled (L : Lexer) : L.settle.ended = true ∨ L.settle.queue ≠ [] := by
  fun_induction settle L with
  | case1 L h ih => exact ih
  | case2 L h =>
    by_cases ended : L.ended = true
    · exact .inl ended
    · exact .inr fun queue => h ⟨by simpa using ended, queue⟩

theorem settle_of_waiting {L : Lexer} (h : L.ended = true ∨ L.queue ≠ []) : L.settle = L := by
  rw [settle, dif_neg]
  rintro ⟨ended, queue⟩
  simp_all

theorem unscanned_settle_le (L : Lexer) : L.settle.unscanned ≤ L.unscanned := by
  fun_induction settle L with
  | case1 L h ih => exact Nat.le_of_lt (Nat.lt_of_le_of_lt ih (unscanned_scan h.1))
  | case2 L h => exact Nat.le_refl _

/-- A token that is not the end of the file brings the end nearer. -/
theorem readToken_advances {L : Lexer} (h : L.readToken.1.kind ≠ .endOfFile) :
    Prod.Lex (· < ·) (· < ·) (L.readToken.2.unscanned, L.readToken.2.queue.length)
      (L.unscanned, L.queue.length) := by
  unfold readToken at h ⊢
  dsimp only at h ⊢
  split at h
  · exact absurd rfl h
  · rename_i token queue hqueue
    by_cases waiting : L.ended = true ∨ L.queue ≠ []
    · rw [settle_of_waiting waiting] at hqueue ⊢
      exact .right _ (by simp [hqueue])
    · have idle : L.ended = false ∧ L.queue = [] := by simpa using waiting
      refine .left _ _ (Nat.lt_of_le_of_lt ?_ (unscanned_scan idle.1))
      rw [settle, dif_pos idle]
      exact unscanned_settle_le _

/-- Reads all tokens up to the end of the file, and notes something about each
of them as it is handed out. -/
def collect {α : Type} (note : Lexer → Token → α) (L : Lexer) : List α :=
  match _ : L.readToken with
  | (token, L') =>
    if token.kind = .endOfFile then [note L' token] else note L' token :: L'.collect note
termination_by (L.unscanned, L.queue.length)
decreasing_by
  rename_i read more
  have := readToken_advances (L := L) (by rwa [read])
  rwa [read] at this

theorem collect_eq {α : Type} (note : Lexer → Token → α) (L : Lexer) :
    L.collect note =
      note L.readToken.2 L.readToken.1 ::
        if L.readToken.1.kind = .endOfFile then [] else L.readToken.2.collect note := by
  rw [collect]
  split
  rename_i token L' h
  rw [h]
  split <;> rfl

/-- All tokens up to the end of the file. -/
def tokens (L : Lexer) : List Token := L.collect fun _ token => token

end Lexer

/-- The tokens of a text, without trivia. -/
def tokenize (text : String) : List Token := (Lexer.ofText text.toList {}).tokens

end RuleLexer
