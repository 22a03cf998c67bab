import RuleLexer.Proofs.Coverage
import RuleLexer.Proofs.Ending

/-!
# Trivia

Line breaks and indentation become tokens only if they are asked for. Nothing
else depends on that: neither the other tokens nor where lexing ends.

* `Piece.Form.isTrivia_eq`: line breaks and accepted indentation are all the
  trivia that cells hold;
* `Lexer.final`: the lexer as it will be when all of the text was read; reading
  on does not change that (`final_readToken`), and leads there (`afterReads_eq_final`);
* `tokens_trivia`: both runs over a text, with trivia and without.
-/

namespace RuleLexer

/-- Line breaks and accepted indentation. -/
def TokenKind.isLayout (kind : TokenKind) : Bool := kind = .newLine || kind = .indent

/-- Of the marks that lexing sets, those of layout are the trivia. -/
theorem Piece.Form.isTrivia_eq {inList : Bool} {p : Piece} (h : p.Form inList) {mark : Mark}
    (marked : p.mark = some mark) : mark.kind.isTrivia = mark.kind.isLayout := by
  have plain {kind : TokenKind} (other : kind.isTrivia = false) :
      kind.isTrivia = kind.isLayout := by
    rw [other]
    cases kind <;> first | rfl | cases other
  cases h with
  | blanks | listMark => cases marked
  | indent | newLine | annotationHead | badHead | openLiteral =>
    cases marked
    rfl
  | plain isPlain =>
    cases marked
    exact plain (isTrivia_of_isPlain isPlain)
  | literal yields =>
    cases marked
    exact plain (Delimiter.isTrivia_of_yields yields)

/-- Without its layout tokens, what cells yield is what they yield without trivia. -/
theorem Cell.filter_tokens {cells : List Cell} (forms : ∀ c ∈ cells, c.piece.Form true)
    (index : Nat) :
    (tokens ⟨true⟩ index cells).filter (!·.kind.isLayout) = tokens ⟨false⟩ index cells := by
  induction cells generalizing index with
  | nil => rfl
  | cons c cells ih =>
    obtain ⟨form, forms⟩ := List.forall_mem_cons.mp forms
    rw [tokens, tokens, List.filter_append, ih forms]
    congr 1
    unfold token?
    cases marked : c.piece.mark with
    | none => rfl
    | some mark =>
      have same := form.isTrivia_eq marked
      cases layout : mark.kind.isLayout with
      | true => simp [same, layout]
      | false => simp [same, layout]

namespace Lexer

variable {L : Lexer}

/-- The lexer as it will be when the text was scanned to its end, and all of its
tokens were handed out. -/
def final (L : Lexer) : Lexer :=
  { (if L.ended then L else L.follow L.place.layout) with queue := [] }

theorem final_of_ended (h : L.ended = true) : L.final = { L with queue := [] } := by
  rw [final, if_pos h]

theorem final_of_open (h : L.ended = false) :
    L.final = { L.follow L.place.layout with queue := [] } := by
  rw [final, if_neg (by simp [h])]

/-- Handing out tokens does not change where lexing ends. -/
theorem final_queue (L : Lexer) (queue : List Token) :
    ({ L with queue } : Lexer).final = L.final := by
  by_cases ended : L.ended = true
  · rw [final_of_ended ended, final_of_ended (L := { L with queue }) ended]
  · rw [Bool.not_eq_true] at ended
    rw [final_of_open ended, final_of_open (L := { L with queue }) ended]
    rfl

/-- A stretch behind a stretch. -/
theorem follow_follow {s t : Stretch} (h : Cell.source s.cells <+: L.scanner.rest)
    (goesOn : s.ended = false) : (L.follow s).follow t = L.follow (t.behind s.cells) := by
  rw [← follow_behind h]
  simp [follow, move, goesOn]

/-- Scanning does not change where lexing ends. -/
theorem final_scan (h : L.ended = false) : L.scan.final = L.final := by
  have inFront : Cell.source L.place.scan.cells <+: L.scanner.rest := ⟨_, L.place.source_scan⟩
  have ended : L.scan.ended = L.place.scan.ended := by simp [scan_eq, follow, h]
  rw [final_of_open h]
  cases found : L.place.scan.ended with
  | true => rw [final_of_ended (ended.trans found), Place.layout_of_ended found, scan_eq]
  | false =>
    rw [final_of_open (ended.trans found), place_scan, Place.layout_of_goesOn found,
      ← follow_follow inFront found, ← scan_eq]

theorem final_settle (L : Lexer) : L.settle.final = L.final := by
  fun_induction settle L with
  | case1 L idle ih => rw [ih, final_scan idle.1]
  | case2 L => rfl

theorem final_readToken (L : Lexer) : L.readToken.2.final = L.final := by
  rw [← final_settle L]
  cases queue : L.settle.queue with
  | nil => rw [readToken_of_empty queue]
  | cons t more =>
    rw [readToken_of_waiting queue]
    exact final_queue L.settle more

/-- Behind the end-of-file token, all of the text was read. -/
theorem readToken_of_last_eq_final (noEnd : ∀ t ∈ L.queue, t.kind ≠ .endOfFile)
    (last : L.readToken.1.kind = .endOfFile) : L.readToken.2 = L.final := by
  have queued := queue_settle_ne_endOfFile noEnd
  cases queue : L.settle.queue with
  | nil =>
    have ended : L.settle.ended = true := L.settle_settled.resolve_right (by simp [queue])
    rw [readToken_of_empty queue, ← final_settle L, final_of_ended ended, ← queue]
  | cons t more =>
    rw [readToken_of_waiting queue] at last
    exact absurd last (queued t (by simp [queue]))

/-- Reading all tokens leads to the end. -/
theorem afterReads_eq_final {n : Nat} (noEnd : ∀ t ∈ L.queue, t.kind ≠ .endOfFile)
    (le : L.tokens.length ≤ n) : L.afterReads n = L.final := by
  induction n generalizing L with
  | zero => exact absurd le (Nat.not_le_of_lt L.length_tokens_pos)
  | succ n ih =>
    rw [afterReads]
    by_cases last : L.readToken.1.kind = .endOfFile
    · have again := readToken_of_last noEnd last
      rw [afterReads_of_fixed (congrArg Prod.snd again) n]
      exact readToken_of_last_eq_final noEnd last
    · rw [tokens_of_more last] at le
      rw [ih (queue_readToken_ne_endOfFile noEnd) (by simpa using le)]
      exact final_readToken L

end Lexer

/-- Asking for trivia adds line breaks and indentation to the tokens of a text, and
changes nothing else. When all tokens were read, either lexer is in the same mode
and at the same depth, and its scanner at the same place. -/
theorem tokens_trivia (text : List Char) :
    (Lexer.ofText text ⟨true⟩).tokens.filter (fun t => t.kind ≠ .newLine ∧ t.kind ≠ .indent) =
        (Lexer.ofText text ⟨false⟩).tokens ∧
      ∀ m ≥ (Lexer.ofText text ⟨true⟩).tokens.length,
        ∀ n ≥ (Lexer.ofText text ⟨false⟩).tokens.length,
          (Lexer.ofText text ⟨true⟩).afterReads m =
            { (Lexer.ofText text ⟨false⟩).afterReads n with options := ⟨true⟩ } := by
  constructor
  · have kept : (fun t : Token => decide (t.kind ≠ .newLine ∧ t.kind ≠ .indent)) =
        (!·.kind.isLayout) := by
      funext t
      simp [TokenKind.isLayout]
    rw [kept, Lexer.tokens_ofText, Lexer.tokens_ofText, Stretch.tokens, List.filter_append,
      Cell.filter_tokens (Text.forms_layout text)]
    rfl
  · intro m hm n hn
    rw [Lexer.afterReads_eq_final (by simp [Lexer.ofText]) hm,
      Lexer.afterReads_eq_final (by simp [Lexer.ofText]) hn]
    rfl

end RuleLexer
