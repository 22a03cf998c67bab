import RuleLexer.Proofs.TokenCount

/-!
# The end of a text

Reading tokens comes to an end. Each scan moves forward, so a token is found
after finitely many scans, and behind the end-of-file token nothing changes any more.

* `Lexer.index_lt_scan`: a scan moves the cursor, unless it finds the end;
* `Lexer.settle_eq_afterScans`: the scans that a token takes;
* `Lexer.tokens_eq_reads`: the tokens of a text are those that are read one by one;
* `Lexer.readToken_afterReads`: from the end-of-file token on, reading changes nothing;
* `reading_ends`: so much holds of every text.
-/

namespace RuleLexer

open Cell (source)

namespace Lexer

variable {L : Lexer}

/-- The lexer after a number of scans. -/
def afterScans : Nat → Lexer → Lexer
  | 0, L => L
  | n + 1, L => afterScans n L.scan

/-- The lexer after a number of tokens was read. -/
def afterReads : Nat → Lexer → Lexer
  | 0, L => L
  | n + 1, L => afterReads n L.readToken.2

/-- No token is found yet, and not the end of the text either. -/
def Idle (L : Lexer) : Prop := L.ended = false ∧ L.queue = []

/-- A scan moves the cursor, unless it finds the end of the text. -/
theorem index_lt_scan (h : L.scan.ended = false) : L.scanner.index < L.scan.scanner.index := by
  have goesOn : L.place.scan.ended = false := by
    rw [scan_eq] at h
    exact (Bool.or_eq_false_iff.mp h).2
  have moves : Text.width (source L.place.scan.cells) ≠ 0 := by
    rw [ne_eq, Text.width_eq_zero]
    exact Place.source_scan_ne_nil goesOn
  have index := index_follow (L := L) L.place.source_scan
  rw [← scan_eq] at index
  omega

/-- The scans that it takes until a token waits or the end was found. -/
theorem settle_eq_afterScans (L : Lexer) :
    ∃ n ≤ L.unscanned, (∀ i < n, (L.afterScans i).Idle) ∧ L.settle = L.afterScans n := by
  fun_induction settle L with
  | case1 L idle ih =>
    obtain ⟨n, le, before, settled⟩ := ih
    have := unscanned_scan idle.1
    refine ⟨n + 1, by omega, ?_, settled⟩
    intro i lt
    cases i with
    | zero => exact idle
    | succ i => exact before i (by omega)
  | case2 L => exact ⟨0, Nat.zero_le _, by simp, rfl⟩

theorem unscanned_le (L : Lexer) : L.unscanned ≤ L.scanner.rest.length + 1 := by
  unfold unscanned
  split <;> omega

/-- Every token is found after finitely many scans. -/
theorem readToken_returns (L : Lexer) :
    ∃ n ≤ L.scanner.rest.length + 1, (∀ i < n, (L.afterScans i).Idle) ∧
      ¬ (L.afterScans n).Idle ∧
      L.readToken = match (L.afterScans n).queue with
        | [] => ((L.afterScans n).endToken, L.afterScans n)
        | token :: queue => (token, { L.afterScans n with queue }) := by
  obtain ⟨n, le, before, settled⟩ := L.settle_eq_afterScans
  refine ⟨n, Nat.le_trans le L.unscanned_le, before, ?_, ?_⟩
  · rintro ⟨ended, queue⟩
    rw [← settled] at ended queue
    rcases L.settle_settled with found | waits
    · rw [ended] at found
      cases found
    · exact waits queue
  · rw [← settled]
    rfl

/-! ## Reading one by one -/

theorem length_tokens_pos (L : Lexer) : 0 < L.tokens.length := by
  rw [tokens, collect_eq]
  exact Nat.succ_pos _

theorem tokens_of_last (h : L.readToken.1.kind = .endOfFile) : L.tokens = [L.readToken.1] := by
  rw [tokens, collect_eq, if_pos h]

theorem tokens_of_more (h : L.readToken.1.kind ≠ .endOfFile) :
    L.tokens = L.readToken.1 :: L.readToken.2.tokens := by
  rw [tokens, collect_eq, if_neg h]
  rfl

/-- The tokens of a text are those that are read one by one. -/
theorem tokens_eq_reads (L : Lexer) :
    L.tokens = (List.range L.tokens.length).map fun n => (L.afterReads n).readToken.1 := by
  generalize length : L.tokens.length = count
  induction count generalizing L with
  | zero => exact absurd length (Nat.ne_of_gt L.length_tokens_pos)
  | succ count ih =>
    by_cases last : L.readToken.1.kind = .endOfFile
    · rw [tokens_of_last last] at length ⊢
      obtain rfl : count = 0 := by simpa using length.symm
      rfl
    · rw [tokens_of_more last] at length ⊢
      have more := ih (L := L.readToken.2) (by simpa using length)
      rw [List.range_succ_eq_map, List.map_cons, List.map_map]
      exact congrArg _ more

theorem queue_settle_ne_endOfFile (noEnd : ∀ t ∈ L.queue, t.kind ≠ .endOfFile) :
    ∀ t ∈ L.settle.queue, t.kind ≠ .endOfFile :=
  settle_induction (P := fun L => ∀ t ∈ L.queue, t.kind ≠ .endOfFile)
    (fun _ h _ _ => queue_scan_ne_endOfFile h) noEnd

theorem queue_readToken_ne_endOfFile (noEnd : ∀ t ∈ L.queue, t.kind ≠ .endOfFile) :
    ∀ t ∈ L.readToken.2.queue, t.kind ≠ .endOfFile := by
  have settled := queue_settle_ne_endOfFile noEnd
  cases queue : L.settle.queue with
  | nil =>
    rw [readToken_of_empty queue]
    exact settled
  | cons t more =>
    rw [queue] at settled
    rw [readToken_of_waiting queue]
    exact (List.forall_mem_cons.mp settled).2

/-- The end-of-file token is read again and again. -/
theorem readToken_of_last (noEnd : ∀ t ∈ L.queue, t.kind ≠ .endOfFile)
    (last : L.readToken.1.kind = .endOfFile) : L.readToken.2.readToken = L.readToken := by
  have settled := queue_settle_ne_endOfFile noEnd
  cases queue : L.settle.queue with
  | nil =>
    have ended : L.settle.ended = true := L.settle_settled.resolve_right (by simp [queue])
    have same : L.settle.settle = L.settle := settle_of_waiting (.inl ended)
    have again : L.settle.readToken = (L.settle.settle.endToken, L.settle.settle) :=
      readToken_of_empty (by rw [same, queue])
    rw [readToken_of_empty queue, again, same]
  | cons t more =>
    rw [readToken_of_waiting queue] at last
    exact absurd last (settled t (by simp [queue]))

theorem afterReads_of_fixed (fixed : L.readToken.2 = L) (n : Nat) : L.afterReads n = L := by
  induction n with
  | zero => rfl
  | succ n ih => rw [afterReads, fixed, ih]

/-- Behind the end-of-file token, reading gives it again and changes nothing. -/
theorem readToken_afterReads {n : Nat} (noEnd : ∀ t ∈ L.queue, t.kind ≠ .endOfFile)
    (le : L.tokens.length ≤ n) : ∃ last, L.tokens.getLast? = some last ∧
      (L.afterReads n).readToken = (last, L.afterReads n) := by
  induction n generalizing L with
  | zero => exact absurd le (Nat.not_le_of_lt L.length_tokens_pos)
  | succ n ih =>
    rw [afterReads]
    by_cases last : L.readToken.1.kind = .endOfFile
    · have again := readToken_of_last noEnd last
      refine ⟨L.readToken.1, by rw [tokens_of_last last]; rfl, ?_⟩
      rw [afterReads_of_fixed (congrArg Prod.snd again) n, again]
    · rw [tokens_of_more last] at le ⊢
      have fits : L.readToken.2.tokens.length ≤ n := by simpa using le
      obtain ⟨t, isLast, reads⟩ := ih (queue_readToken_ne_endOfFile noEnd) fits
      refine ⟨t, ?_, reads⟩
      rw [List.getLast?_cons, isLast]
      rfl

end Lexer

/-- Reading a text ends. Each scan moves the cursor unless it finds the end, so
every token is found after finitely many scans. A text has at most three tokens
for every two bytes, and the end-of-file token. That one lies at the first NUL or
else at the end, and from there on reading gives it again and changes nothing. -/
theorem reading_ends (text : List Char) (options : LexerOptions) :
    (∀ L : Lexer, L.scan.ended = false → L.scanner.index < L.scan.scanner.index) ∧
    (∀ L : Lexer, ∃ n ≤ L.scanner.rest.length + 1, (∀ i < n, (L.afterScans i).Idle) ∧
      ¬ (L.afterScans n).Idle ∧
      L.readToken = match (L.afterScans n).queue with
        | [] => ((L.afterScans n).endToken, L.afterScans n)
        | token :: queue => (token, { L.afterScans n with queue })) ∧
    let L := Lexer.ofText text options
    L.tokens.length ≤ Text.width text + Text.width text / 2 + 1 ∧
    L.tokens = (List.range L.tokens.length).map (fun n => (L.afterReads n).readToken.1) ∧
    ∃ front last, L.tokens = front ++ [last] ∧ (∀ t ∈ front, t.kind ≠ .endOfFile) ∧
      last.kind = .endOfFile ∧
      last.span = .empty (Text.width (text.takeWhile (· ≠ endOfText))) ∧
      ∀ n ≥ L.tokens.length, (L.afterReads n).readToken = (last, L.afterReads n) := by
  refine ⟨fun _ => Lexer.index_lt_scan, Lexer.readToken_returns,
    Text.length_tokens_le text options, Lexer.tokens_eq_reads _, ?_⟩
  refine ⟨_, _, Lexer.tokens_ofText text options, Cell.kind_ne_endOfFile (Text.forms_layout text),
    rfl, ?_, ?_⟩
  · simp only [Nat.zero_add, Text.source_layout_eq]
  · intro n le
    obtain ⟨last, isLast, reads⟩ := Lexer.readToken_afterReads (by simp [Lexer.ofText]) le
    rw [Lexer.tokens_ofText, Stretch.tokens, List.getLast?_concat] at isLast
    rw [reads, ← Option.some.inj isLast]

end RuleLexer
