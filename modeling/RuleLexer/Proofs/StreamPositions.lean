import RuleLexer.Proofs.Positions

/-!
# Positions handed out by a stream

A stream tells where a token starts and stops when it hands the token out, and it
can be asked again at any time after. The answer is the true position, however
far the text was scanned by then.

* `Text.PositionAt`: the position of an offset, read off the text alone;
* `Lexer.Knows`: the lexer has passed a token, and answers truly (`Knows.position`);
  reading on does not change that (`Knows.readToken`);
* `nextLocated_afterNexts`: a stream hands out the located tokens one by one;
* `stream_positions`: so every token of a text has its true positions, then and later.
-/

namespace RuleLexer

open Cell (source)

/-- The position of an offset between two characters of a text: the lines start
behind the line feeds in front of it, and its column counts the characters of its line. -/
def Text.PositionAt (text : List Char) (offset : Nat) (p : Position) : Prop :=
  ∃ before behind, text = before ++ behind ∧ width before = offset ∧ p = Position.after before

namespace Lexer

variable {text passed : List Char} {L : Lexer} {t : Token}

/-- The lexer has passed a token of the text. -/
def Knows (text : List Char) (t : Token) (L : Lexer) : Prop :=
  L.scanner.text = text ∧ ∃ passed, L.scanner.Passed passed ∧ Within passed t

/-- What the lexer knows, it answers truly. -/
theorem Knows.position (h : L.Knows text t) :
    Text.PositionAt text t.span.start (L.scanner.positionAt t.span.start) ∧
      Text.PositionAt text t.span.stop (L.scanner.positionAt t.span.stop) := by
  obtain ⟨rfl, passed, position, ⟨a, b, rfl, start⟩, c, d, split, stop⟩ := h
  have whole := position.text
  constructor
  · refine ⟨a, b ++ L.scanner.rest, by rw [whole, List.append_assoc], start.symm, ?_⟩
    rw [start]
    exact position.positionAt_width
  · rw [split] at position whole
    refine ⟨c, d ++ L.scanner.rest, by rw [whole, List.append_assoc], stop.symm, ?_⟩
    rw [stop]
    exact position.positionAt_width

theorem Knows.scan (h : L.Knows text t) : L.scan.Knows text t := by
  obtain ⟨same, passed, position, within⟩ := h
  obtain ⟨kept, moved⟩ := passed_scan position
  exact ⟨kept.trans same, _, moved, within.append _⟩

/-- Reading on does not forget a token. -/
theorem Knows.readToken (h : L.Knows text t) : L.readToken.2.Knows text t := by
  have settled : L.settle.Knows text t := settle_induction (fun _ h _ _ => h.scan) h
  cases queue : L.settle.queue with
  | nil =>
    rw [readToken_of_empty queue]
    exact settled
  | cons u more =>
    rw [readToken_of_waiting queue]
    exact settled

/-- The token that is handed out was passed before. -/
theorem Behind.readToken (h : Behind text L) :
    Behind text L.readToken.2 ∧ L.readToken.2.Knows text L.readToken.1 := by
  have settled : Behind text L.settle := settle_induction (fun _ h _ _ => h.scan) h
  obtain ⟨same, passed, position, waiting⟩ := settled
  cases queue : L.settle.queue with
  | nil =>
    rw [readToken_of_empty queue]
    refine ⟨⟨same, passed, position, waiting⟩, same, passed, position, ?_⟩
    exact ⟨⟨passed, [], by simp, position.index⟩, passed, [], by simp, position.index⟩
  | cons u more =>
    rw [queue] at waiting
    obtain ⟨first, later⟩ := List.forall_mem_cons.mp waiting
    rw [readToken_of_waiting queue]
    exact ⟨⟨same, passed, position, later⟩, same, passed, position, first⟩

end Lexer

namespace TokenStream

variable {text : List Char} {s : TokenStream} {t : Token}

/-- The stream after a number of tokens was asked for. -/
def afterNexts : Nat → TokenStream → TokenStream
  | 0, s => s
  | n + 1, s => afterNexts n s.next.2

/-- The located tokens that are left. -/
def located (s : TokenStream) : List LocatedToken :=
  if s.finished then [] else s.lexer.locatedTokens

theorem next_of_finished (h : s.finished = true) : s.next = (none, s) := by
  rw [next, if_pos h]

theorem next_of_open (h : s.finished = false) :
    s.next = (some s.lexer.readToken.1,
      { lexer := s.lexer.readToken.2
        finished := s.lexer.readToken.1.kind = .endOfFile }) := by
  rw [next, if_neg (by simp [h])]

/-- A stream hands out the first of its located tokens, and the others are left. -/
theorem located_eq (s : TokenStream) :
    s.located[0]? = s.nextLocated.1 ∧ s.located.tail = s.next.2.located := by
  cases finished : s.finished with
  | true => simp [located, nextLocated, next_of_finished, finished]
  | false =>
    rw [nextLocated, next_of_open finished, located, if_neg (by simp [finished]),
      Lexer.locatedTokens, Lexer.collect_eq]
    constructor
    · rfl
    · simp [located, Lexer.locatedTokens]

/-- A stream hands out its located tokens one by one, and then nothing more. -/
theorem nextLocated_afterNexts (n : Nat) (s : TokenStream) :
    (s.afterNexts n).nextLocated.1 = s.located[n]? := by
  induction n generalizing s with
  | zero => exact s.located_eq.1.symm
  | succ n ih => rw [afterNexts, ih, ← s.located_eq.2, List.getElem?_tail]

theorem afterNexts_add (m n : Nat) (s : TokenStream) :
    s.afterNexts (m + n) = (s.afterNexts m).afterNexts n := by
  induction m generalizing s with
  | zero => rw [Nat.zero_add, afterNexts]
  | succ m ih => rw [Nat.succ_add, afterNexts, ih, afterNexts]

/-! ## What a stream knows -/

theorem knows_next (h : s.lexer.Knows text t) : s.next.2.lexer.Knows text t := by
  cases finished : s.finished with
  | true => rwa [next_of_finished finished]
  | false =>
    rw [next_of_open finished]
    exact h.readToken

theorem knows_afterNexts (h : s.lexer.Knows text t) (n : Nat) :
    (s.afterNexts n).lexer.Knows text t := by
  induction n generalizing s with
  | zero => exact h
  | succ n ih => exact ih (knows_next h)

theorem behind_next (h : s.lexer.Behind text) : s.next.2.lexer.Behind text := by
  cases finished : s.finished with
  | true => rwa [next_of_finished finished]
  | false =>
    rw [next_of_open finished]
    exact h.readToken.1

theorem behind_afterNexts (h : s.lexer.Behind text) (n : Nat) :
    (s.afterNexts n).lexer.Behind text := by
  induction n generalizing s with
  | zero => exact h
  | succ n ih => exact ih (behind_next h)

/-- A stream knows the token that it hands out. -/
theorem knows_of_next (h : s.lexer.Behind text) (found : s.next.1 = some t) :
    s.next.2.lexer.Knows text t := by
  cases finished : s.finished with
  | true =>
    rw [next_of_finished finished] at found
    cases found
  | false =>
    rw [next_of_open finished] at found ⊢
    cases found
    exact h.readToken.2

/-- A located token is the next token, with what the stream answers behind it. -/
theorem nextLocated_eq_some {u : LocatedToken} (found : s.nextLocated.1 = some u) :
    s.next.1 = some u.token ∧ u = s.next.2.lexer.locate u.token := by
  obtain ⟨t, next, rfl⟩ := Option.map_eq_some_iff.mp found
  exact ⟨next, rfl⟩

end TokenStream

/-- Every token that a stream hands out comes with its true positions, and the
stream gives the same answer whenever it is asked for them again. -/
theorem stream_positions (text : List Char) (options : LexerOptions) :
    let s : TokenStream := { lexer := .ofText text options }
    s.lexer.locatedTokens.map (·.token) = s.lexer.tokens ∧
    (∀ n, (s.afterNexts n).nextLocated.1 = s.lexer.locatedTokens[n]?) ∧
    (∀ u ∈ s.lexer.locatedTokens, Text.PositionAt text u.token.span.start u.startPosition ∧
      Text.PositionAt text u.token.span.stop u.stopPosition) ∧
    ∀ n t, (s.afterNexts n).next.1 = some t → ∀ m > n,
      Text.PositionAt text t.span.start ((s.afterNexts m).positionAt t.span.start) ∧
      Text.PositionAt text t.span.stop ((s.afterNexts m).positionAt t.span.stop) := by
  intro s
  have start : s.lexer.Behind text := ⟨rfl, [], .ofText text, by simp [s, Lexer.ofText]⟩
  have later : ∀ n t, (s.afterNexts n).next.1 = some t → ∀ m > n,
      (s.afterNexts m).lexer.Knows text t := by
    intro n t found m lt
    have known := TokenStream.knows_of_next (TokenStream.behind_afterNexts start n) found
    obtain ⟨k, rfl⟩ := Nat.exists_eq_add_of_lt lt
    rw [Nat.add_assoc, TokenStream.afterNexts_add, Nat.add_comm k 1, TokenStream.afterNexts_add]
    exact TokenStream.knows_afterNexts known k
  have one_by_one : ∀ n, (s.afterNexts n).nextLocated.1 = s.lexer.locatedTokens[n]? := by
    intro n
    exact TokenStream.nextLocated_afterNexts n s
  refine ⟨?_, one_by_one, ?_, ?_⟩
  · rw [Lexer.locatedTokens_ofText, List.map_map]
    exact List.map_id _
  · intro u hu
    obtain ⟨n, found⟩ := List.mem_iff_getElem?.mp hu
    rw [← one_by_one] at found
    obtain ⟨next, located⟩ := TokenStream.nextLocated_eq_some found
    have known := TokenStream.knows_of_next (TokenStream.behind_afterNexts start n) next
    rw [located]
    exact known.position
  · intro n t found m lt
    exact (later n t found m lt).position

end RuleLexer
