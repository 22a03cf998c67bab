import RuleLexer.Proofs.ReadingAhead

/-!
# Checked reads

A read at a given offset is refused if no character can start there, and for no
other reason. A read that is refused leaves everything as it was, and one that is
not shows the same character whichever way it is asked for.

* `Text.Inside`: an index inside a character, where a text cannot be cut
  (`cut_eq_none_iff`);
* `peek_eq_error_iff`, `readAhead_eq_error_iff`, `peekAhead_eq_error_iff`: which
  reads are refused, and why;
* `Scanner.Sees`: what a read ahead that succeeds shows, and what it leaves
  (`sees_readAhead`);
* `run_checkedReads`: so much holds of every scanner that can be reached.
-/

namespace RuleLexer

namespace Text

/-- An index inside a character of several bytes. -/
def Inside (text : List Char) (index : Nat) : Prop :=
  ∃ before c behind, text = before ++ c :: behind ∧
    width before < index ∧ index < width before + c.utf8Size

theorem inside_cons {c : Char} {rest : List Char} {n : Nat} (first : c.utf8Size ≤ n) :
    Inside (c :: rest) n ↔ Inside rest (n - c.utf8Size) := by
  constructor
  · rintro ⟨before, d, behind, split, start, stop⟩
    cases before with
    | nil =>
      cases split
      rw [width_nil] at stop
      omega
    | cons e before =>
      cases split
      rw [width_cons] at start stop
      exact ⟨before, d, behind, rfl, by omega, by omega⟩
  · rintro ⟨before, d, behind, rfl, start, stop⟩
    exact ⟨c :: before, d, behind, rfl, by rw [width_cons]; omega, by rw [width_cons]; omega⟩

/-- A text can be cut anywhere but inside a character. -/
theorem cut_eq_none_iff {n : Nat} {text : List Char} : cut n text = none ↔ Inside text n := by
  induction text generalizing n with
  | nil => simp [Inside]
  | cons c rest ih =>
    by_cases start : n = 0
    · subst start
      simp [Inside]
    · rw [cut_cons start]
      split
      · rename_i first
        rw [Option.map_eq_none_iff, ih, inside_cons first]
      · rename_i within
        refine ⟨fun _ => ⟨[], c, rest, rfl, ?_, ?_⟩, fun _ => rfl⟩
        · rw [width_nil]
          omega
        · rw [width_nil]
          omega

end Text

open Text (cut front Inside)

namespace Scanner

variable {s t : Scanner} {text passed : List Char}

/-- The offset that a caller goes on with after a peek ahead. A peek that is refused
tells him no new one. -/
def offsetAfter (s : Scanner) (offset : Nat) : Nat :=
  match s.peekAhead offset with
  | .ok (_, next, _) => next
  | .error _ => offset

/-- A read ahead shows a character: the one that a peek at its offset shows, and that
the lookahead shows from now on. Nothing else about the scanner has changed. -/
structure Sees (s : Scanner) (offset : Nat) (c : Char) (t : Scanner) : Prop where
  peek : s.peek offset = .ok c
  lookahead : t.lookahead = c
  still : t = { s with ahead := t.ahead }

/-! ## Peeks -/

theorem peek_of_neg {offset : Int} (neg : s.index + offset < 0) :
    s.peek offset = .error (.offsetOutOfRange offset s.index) := by
  obtain ⟨n, index⟩ := Int.eq_negSucc_of_lt_zero neg
  unfold peek
  rw [index]

theorem peek_of_index {offset : Int} {n : Nat} (index : s.index + offset = n) :
    s.peek offset = match cut n s.text with
      | none => .error (.notCharBoundary n)
      | some (_, behind) => .ok (front behind).1 := by
  unfold peek
  generalize (s.index : Int) + offset = i at index ⊢
  subst index
  rfl

theorem peek_eq_error_iff {offset : Int} {fault : Fault} : s.peek offset = .error fault ↔
    s.index + offset < 0 ∧ fault = .offsetOutOfRange offset s.index ∨
      ∃ n : Nat, s.index + offset = n ∧ Inside s.text n ∧ fault = .notCharBoundary n := by
  by_cases neg : s.index + offset < 0
  · have noIndex : ∀ n : Nat, ¬ s.index + offset = n := by omega
    simp [peek_of_neg neg, neg, noIndex, eq_comm]
  · obtain ⟨n, index⟩ := Int.eq_ofNat_of_zero_le (Int.not_lt.mp neg)
    have only : ∀ m : Nat, s.index + offset = m ↔ m = n := by omega
    simp only [peek_of_index index, neg, false_and, false_or, only, exists_eq_left,
      ← Text.cut_eq_none_iff]
    cases cut n s.text <;> simp [eq_comm]

/-! ## Reads ahead -/

/-- What lies in front of the cursor, found from the start of the text. -/
theorem At.cut_index (h : At text passed s) (n : Nat) :
    cut (s.index + n) text = (cut n s.rest).map fun (more, rest) => (passed ++ more, rest) := by
  have here := Text.cut_width_append passed s.rest
  rw [← h.text, h.same, ← h.index] at here
  exact Text.cut_add here

theorem At.inside_index (h : At text passed s) (n : Nat) :
    Inside text (s.index + n) ↔ Inside s.rest n := by
  rw [← Text.cut_eq_none_iff, ← Text.cut_eq_none_iff, h.cut_index, Option.map_eq_none_iff]

theorem At.readAhead_eq_error_iff (h : At text passed s) {offset : Nat} {fault : Fault} :
    s.readAhead offset = .error fault ↔
      Inside text (s.index + offset) ∧ fault = .notCharBoundary (s.index + offset) := by
  rw [h.inside_index, ← Text.cut_eq_none_iff, Scanner.readAhead]
  cases cut offset s.rest <;> simp [eq_comm]

theorem peekAhead_eq_error_iff {offset : Nat} {fault : Fault} :
    s.peekAhead offset = .error fault ↔
      offset = 0 ∧ fault = .offsetOutOfRange 0 s.index ∨
        offset ≠ 0 ∧ s.readAhead offset = .error fault := by
  by_cases start : offset = 0
  · simp [peekAhead, start, eq_comm]
  · rw [peekAhead_eq start]
    cases s.readAhead offset <;> simp [Except.map, start]

theorem At.sees_readAhead (h : At text passed s) {offset : Nat} {c : Char}
    (read : s.readAhead offset = .ok (c, t)) : s.Sees offset c t := by
  cases here : cut offset s.rest with
  | none => simp [Scanner.readAhead, here] at read
  | some parts =>
    obtain ⟨before, behind⟩ := parts
    rw [readAhead_of_cut here] at read
    cases read
    constructor
    case peek =>
      rw [peek_of_index (n := s.index + offset) (by simp), h.same, h.cut_index, here]
      rfl
    case lookahead =>
      obtain ⟨more, rest, folded, same⟩ := Text.cut_folded behind
      rw [lookahead, frontAhead]
      dsimp only
      rw [Text.cut_add here, folded]
      exact same
    case still => rfl

end Scanner

/-- A peek is refused if it leads before the start of the text, or else inside a
character. A read ahead is refused inside a character only, and a peek ahead also at
the cursor itself. Refused reads leave the scanner as it was, its lookahead included,
and the caller's offset too. Those that succeed show what a peek shows there. -/
theorem run_checkedReads (text : List Char) {operations : List Scanner.Operation} {s : Scanner}
    (run : Scanner.Run (.ofText text) operations s) :
    (∀ (offset : Int) fault, s.peek offset = .error fault ↔
      s.index + offset < 0 ∧ fault = .offsetOutOfRange offset s.index ∨
        ∃ n : Nat, s.index + offset = n ∧ Inside text n ∧ fault = .notCharBoundary n) ∧
    (∀ offset fault, s.readAhead offset = .error fault ↔
      Inside text (s.index + offset) ∧ fault = .notCharBoundary (s.index + offset)) ∧
    (∀ offset fault, s.peekAhead offset = .error fault ↔
      offset = 0 ∧ fault = .offsetOutOfRange 0 s.index ∨
        offset ≠ 0 ∧ s.readAhead offset = .error fault) ∧
    (∀ offset, s.after (.peek offset) = s) ∧
    (∀ offset fault, s.readAhead offset = .error fault → s.after (.readAhead offset) = s) ∧
    (∀ offset fault, s.peekAhead offset = .error fault →
      s.after (.peekAhead offset) = s ∧ s.offsetAfter offset = offset) ∧
    (∀ offset c t, s.readAhead offset = .ok (c, t) →
      s.Sees offset c t ∧ s.after (.readAhead offset) = t) ∧
    ∀ offset c next t, s.peekAhead offset = .ok (c, next, t) →
      s.Sees offset c t ∧ s.after (.peekAhead offset) = t ∧ s.offsetAfter offset = t.ahead := by
  obtain ⟨passed, here⟩ := run.at (.ofText text)
  refine ⟨?_, ?_, ?_, ?_, ?_, ?_, ?_, ?_⟩
  · intro offset fault
    rw [← here.same]
    exact Scanner.peek_eq_error_iff
  · intro offset fault
    exact here.readAhead_eq_error_iff
  · intro offset fault
    exact Scanner.peekAhead_eq_error_iff
  · intro offset
    rfl
  · intro offset fault refused
    simp [Scanner.after, refused]
  · intro offset fault refused
    simp [Scanner.after, Scanner.offsetAfter, refused]
  · intro offset c t read
    exact ⟨here.sees_readAhead read, by simp [Scanner.after, read]⟩
  · intro offset c next t read
    obtain ⟨-, ahead, rfl⟩ := Scanner.peekAhead_eq_ok_iff.mp read
    exact ⟨here.sees_readAhead ahead, by simp [Scanner.after, read],
      by simp [Scanner.offsetAfter, read]⟩

/-- Around a character of two bytes and a line break of two characters, with the
lookahead behind the first. -/
theorem run_checkedReads_lookahead :
    let text := ['ä', '\r', '\n']
    let s := (Scanner.ofText text).after .advanceAhead
    Scanner.Run (.ofText text) [.advanceAhead] s ∧ s.ahead = 2 ∧
      s.peek (-1) = .error (.offsetOutOfRange (-1) 0) ∧
      s.peekAhead 1 = .error (.notCharBoundary 1) ∧
      s.after (.peekAhead 1) = s ∧ s.offsetAfter 1 = 1 ∧
      ∃ t, s.peekAhead 2 = .ok ('\n', 3, t) ∧ s.Sees 2 '\n' t := by
  intro text s
  have run : Scanner.Run (.ofText text) [.advanceAhead] s := by
    refine .cons ?_ (.nil _)
    rintro _ ⟨⟩
  obtain ⟨peek, readAhead, peekAhead, -, -, refused, -, shows⟩ := run_checkedReads text run
  have inside : Inside text 1 := ⟨[], 'ä', ['\r', '\n'], rfl, by decide, by decide⟩
  have noRead : s.peekAhead 1 = .error (.notCharBoundary 1) :=
    (peekAhead 1 _).mpr (.inr ⟨by decide, (readAhead 1 _).mpr ⟨inside, rfl⟩⟩)
  have read : s.peekAhead 2 = .ok ('\n', 3, { s with ahead := 3 }) := rfl
  exact ⟨run, by decide, (peek (-1) _).mpr (.inl ⟨by decide, rfl⟩), noRead,
    (refused 1 _ noRead).1, (refused 1 _ noRead).2, _, read, (shows 2 _ _ _ read).1⟩

end RuleLexer
