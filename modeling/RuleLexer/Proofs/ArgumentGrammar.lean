import RuleLexer.Proofs.HeaderLine
import RuleLexer.Proofs.WrittenLines

/-!
# The grammar of argument lists

An argument list has no error exactly if it follows its grammar, and then its
tokens are its arguments.

* `ArgumentList.Yields`: the grammar, with the tokens of a list;
* `Yields.lexed`, `yields_of_lexed`: judging the lexemes of a list agrees with it;
* `ArgumentList.Unclosed`: lists that the line leaves without an end;
* `argumentList_grammar`: what a scan makes of an argument list.
-/

namespace RuleLexer

open RuleFile (Argument OnLine)

namespace ArgumentList

/-- The grammar of a list from some place on, up to its closing parenthesis,
with the tokens that it has from an offset on. Where an argument is wanted,
there is one or the list ends; where none is, there is a comma or the list ends. -/
inductive Yields (depth : Nat) : Bool → Nat → List Char → List Token → Prop
  | close {wanted : Bool} {start : Nat} (blanks : List Char)
      (blank : ∀ c ∈ blanks, isBlank c = true) : Yields depth wanted start (blanks ++ [')']) []
  | argument {start : Nat} {text : List Char} {tokens : List Token} (blanks : List Char)
      (blank : ∀ c ∈ blanks, isBlank c = true) (a : Argument)
      (more : Yields depth false (start + Text.width (blanks ++ a.written)) text tokens) :
      Yields depth true start (blanks ++ a.written ++ text)
        (a.mark.token depth (start + Text.width blanks) a.written :: tokens)
  | comma {start : Nat} {text : List Char} {tokens : List Token} (blanks : List Char)
      (blank : ∀ c ∈ blanks, isBlank c = true)
      (more : Yields depth true (start + Text.width (blanks ++ [','])) text tokens) :
      Yields depth false start (blanks ++ ',' :: text) tokens

/-- From left to right, the end of the line or a literal that it leaves open
comes before any closing parenthesis outside of literals. -/
inductive Unclosed : List Char → Prop
  | lineEnd : Unclosed []
  | openLiteral {c : Char} {d : Delimiter} {rest : List Char}
      (opens : argumentDelimiter? c = some d) (isOpen : Literal.StaysOpen d.closer rest) :
      Unclosed (c :: rest)
  | literal {c : Char} {d : Delimiter} {rest body behind : List Char}
      (opens : argumentDelimiter? c = some d)
      (closed : rest = Literal.doubled d.closer body ++ d.closer :: behind)
      (apart : behind.head? ≠ some d.closer) (more : Unclosed behind) : Unclosed (c :: rest)
  | other {c : Char} {rest : List Char} (noClose : c ≠ ')')
      (noLiteral : argumentDelimiter? c = none) (more : Unclosed rest) : Unclosed (c :: rest)

variable {depth start : Nat} {wanted : Bool} {line text rest blanks : List Char}
  {tokens : List Token}

/-! ## Lexemes -/

theorem lexemes_blanks (blank : ∀ c ∈ blanks, isBlank c = true) (rest : List Char) :
    lexemes (blanks ++ rest) = (blanks.map .blank ++ (lexemes rest).1, (lexemes rest).2) := by
  induction blanks with
  | nil => rfl
  | cons c blanks ih =>
    obtain ⟨own, more⟩ := List.forall_mem_cons.mp blank
    rw [List.cons_append, lexemes_cons_blank own, ih more]
    rfl

theorem tokens_judge_blanks (depth start : Nat) (wanted : Bool) (blanks : List Char)
    (list : List Lexeme) :
    Piece.tokens depth start (judge wanted (blanks.map .blank ++ list)) =
      Piece.tokens depth (start + Text.width blanks) (judge wanted list) := by
  induction blanks generalizing start with
  | nil => rfl
  | cons c blanks ih => simp [judge, ih, Nat.add_assoc]

/-! ## The grammar is read -/

theorem Yields.head?_ne (h : Yields depth false start text tokens) (rest : List Char) :
    (text ++ rest).head? ≠ some ']' ∧ (text ++ rest).head? ≠ some '"' := by
  have solid {blanks : List Char} (blank : ∀ c ∈ blanks, isBlank c = true) {c : Char}
      (other : c ≠ ']' ∧ c ≠ '"') (more : List Char) :
      (blanks ++ c :: more).head? ≠ some ']' ∧ (blanks ++ c :: more).head? ≠ some '"' := by
    cases blanks with
    | nil => simpa using other
    | cons d blanks =>
      have own := blank d List.mem_cons_self
      constructor
      all_goals
        rintro ⟨⟩
        cases own
  cases h with
  | close blanks blank =>
    rw [List.append_assoc]
    exact solid blank (by decide) _
  | comma blanks blank more =>
    rw [List.append_assoc]
    exact solid blank (by decide) _

/-- A list that follows the grammar is closed, and judging it gives its tokens. -/
theorem Yields.lexed (h : Yields depth wanted start text tokens) (rest : List Char) :
    (lexemes (text ++ rest)).2 = .closed rest ∧
      Piece.tokens depth start (judge wanted (lexemes (text ++ rest)).1) = tokens := by
  induction h with
  | close blanks blank =>
    rw [List.append_assoc, lexemes_blanks blank, List.singleton_append, lexemes_close]
    exact ⟨rfl, tokens_judge_blanks ..⟩
  | argument blanks blank a more ih =>
    rw [List.append_assoc, List.append_assoc, lexemes_blanks blank,
      a.lexemes_written (more.head?_ne rest)]
    refine ⟨ih.1, ?_⟩
    rw [tokens_judge_blanks, RuleFile.judge_lexeme, ← ih.2]
    simp [Piece.tokens, Nat.add_assoc]
  | comma blanks blank more ih =>
    rw [List.append_assoc, List.cons_append, lexemes_blanks blank, lexemes_cons_comma]
    refine ⟨ih.1, ?_⟩
    rw [tokens_judge_blanks, ← ih.2]
    simp [judge, Nat.add_assoc]

/-! ## What is read without an error follows the grammar -/

theorem Yields.blank {c : Char} (h : Yields depth wanted (start + Text.width [c]) text tokens)
    (isBlank : isBlank c = true) : Yields depth wanted start (c :: text) tokens := by
  cases h with
  | close blanks blank => exact .close (c :: blanks) (List.forall_mem_cons.mpr ⟨isBlank, blank⟩)
  | argument blanks blank a more =>
    have width : start + Text.width (c :: blanks) = start + Text.width [c] + Text.width blanks := by
      simp [Nat.add_assoc]
    rw [← width]
    refine .argument (c :: blanks) (List.forall_mem_cons.mpr ⟨isBlank, blank⟩) a ?_
    simpa [Nat.add_assoc] using more
  | comma blanks blank more =>
    refine .comma (c :: blanks) (List.forall_mem_cons.mpr ⟨isBlank, blank⟩) ?_
    simpa [Nat.add_assoc] using more

theorem onLine_of_doubled {close : Char} {body : List Char}
    (onLine : OnLine (Literal.doubled close body)) : OnLine body := by
  induction body with
  | nil => exact List.forall_mem_nil _
  | cons c body ih =>
    rw [Literal.doubled] at onLine
    split at onLine
    · rename_i same
      obtain ⟨own, more⟩ := List.forall_mem_cons.mp (List.forall_mem_cons.mp onLine).2
      exact .cons (same ▸ own) (ih more)
    · obtain ⟨own, more⟩ := List.forall_mem_cons.mp onLine
      exact .cons own (ih more)

/-- A literal that may stand in a list is an argument. -/
theorem exists_argument {c : Char} {l : Literal} (opens : argumentDelimiter? c = some l.delimiter)
    (written : OnLine l.chars) : ∃ a : Argument, a.written = l.chars ∧
      a.mark = ⟨.annotationArgument, argumentContext l.delimiter, l.body⟩ := by
  obtain ⟨d, body⟩ := l
  have inside : OnLine (Literal.doubled d.closer body) := by
    intro x mem
    exact written x (List.mem_append_left _ (List.mem_cons_of_mem _ mem))
  have onLine := onLine_of_doubled inside
  unfold argumentDelimiter? at opens
  split at opens
  · cases opens
    exact ⟨.sectionName ⟨body, onLine⟩, rfl, rfl⟩
  · split at opens
    · cases opens
      exact ⟨.string ⟨body, onLine⟩, rfl, rfl⟩
    · cases opens

/-- A list that is closed and judged without an error follows the grammar. -/
theorem yields_of_lexed (onLine : OnLine line) (closed : (lexemes line).2 = .closed rest)
    (proper : ∀ t ∈ Piece.tokens depth start (judge wanted (lexemes line).1), t.kind ≠ .error) :
    ∃ text, line = text ++ rest ∧ Yields depth wanted start text
      (Piece.tokens depth start (judge wanted (lexemes line).1)) := by
  fun_induction lexemes line generalizing wanted start with
  | case1 => cases closed
  | case2 =>
    cases closed
    exact ⟨[')'], rfl, .close [] (List.forall_mem_nil _)⟩
  | case3 c line _ blank list ending heq ih =>
    rw [heq] at ih
    obtain ⟨text, rfl, more⟩ := ih (List.forall_mem_cons.mp onLine).2 closed proper
    exact ⟨c :: text, rfl, more.blank blank⟩
  | case4 line list ending heq _ _ ih =>
    rw [heq] at ih
    cases wanted with
    | true => exact absurd rfl (proper _ List.mem_cons_self)
    | false =>
      obtain ⟨text, rfl, more⟩ := ih (List.forall_mem_cons.mp onLine).2 closed proper
      exact ⟨',' :: text, rfl, .comma [] (List.forall_mem_nil _) more⟩
  | case5 => exact absurd rfl (proper _ List.mem_cons_self)
  | case6 c line _ _ _ _ d opens l behind read list ending heq ih =>
    rw [heq] at ih
    cases wanted with
    | false => exact absurd rfl (proper _ List.mem_cons_self)
    | true =>
      have whole := Literal.chars_append_of_read read
      rw [opener_of_argumentDelimiter? opens] at whole
      obtain ⟨rfl, -⟩ := Literal.read_eq_closed_iff.mp read
      rw [← whole] at onLine
      obtain ⟨own, behindOnLine⟩ := List.forall_mem_append.mp onLine
      obtain ⟨a, written, mark⟩ := exists_argument opens own
      have judged : Piece.tokens depth start (judge true (.literal l :: list)) =
          a.mark.token depth start a.written ::
            Piece.tokens depth (start + Text.width a.written) (judge false list) := by
        rw [written, mark]
        rfl
      rw [judged] at proper ⊢
      obtain ⟨text, rfl, more⟩ :=
        ih behindOnLine closed fun t mem => proper t (List.mem_cons_of_mem _ mem)
      refine ⟨a.written ++ text, ?_, .argument [] (List.forall_mem_nil _) a more⟩
      rw [written, List.append_assoc, whole]
  | case7 => cases closed
  | case8 => exact absurd rfl (proper _ List.mem_cons_self)

/-! ## Lists without an end -/

theorem unclosed_cons {c : Char} (noClose : c ≠ ')') (noLiteral : argumentDelimiter? c = none)
    (rest : List Char) : Unclosed (c :: rest) ↔ Unclosed rest := by
  constructor
  · intro h
    cases h with
    | openLiteral opens | literal opens =>
      rw [noLiteral] at opens
      cases opens
    | other _ _ more => exact more
  · exact .other noClose noLiteral

theorem unclosed_dropWhile (line : List Char) :
    Unclosed (line.dropWhile isStray) ↔ Unclosed line := by
  induction line with
  | nil => rfl
  | cons c rest ih =>
    by_cases stray : isStray c = true
    · have outside := argumentDelimiter?_of_stray stray
      rw [unclosed_cons outside.1 outside.2, ← ih]
      simp [stray]
    · simp [stray]

/-- Lists without an end are those that no parenthesis closes. -/
theorem unclosed_iff (line : List Char) :
    Unclosed line ↔ ∀ rest, (lexemes line).2 ≠ .closed rest := by
  fun_induction lexemes line with
  | case1 => exact ⟨fun _ _ => by simp, fun _ => .lineEnd⟩
  | case2 rest =>
    refine ⟨?_, fun h => absurd rfl (h rest)⟩
    intro h
    cases h with
    | openLiteral opens | literal opens => cases opens
    | other noClose => exact absurd rfl noClose
  | case3 c rest noClose blank more ending heq ih =>
    rw [heq] at ih
    rw [unclosed_cons noClose (argumentDelimiter?_of_blank blank), ih]
  | case4 rest more ending heq noClose _ ih =>
    rw [heq] at ih
    rw [unclosed_cons noClose rfl, ih]
  | case5 c rest noClose _ _ bracket more ending heq ih =>
    rw [heq] at ih
    rw [unclosed_cons noClose (argumentDelimiter?_of_bracket bracket), ih]
  | case6 c rest _ _ _ _ d opens l behind read more ending heq ih =>
    rw [heq] at ih
    rw [← ih]
    obtain ⟨rfl, body⟩ := Literal.read_eq_closed_iff.mp read
    obtain ⟨closed, apart⟩ := Literal.readBody?_eq_some_iff.mp body
    refine ⟨?_, .literal opens closed apart⟩
    intro h
    cases h with
    | openLiteral opens' isOpen =>
      obtain rfl := Option.some.inj (opens.symm.trans opens')
      exact absurd (isOpen _ _ closed) apart
    | literal opens' closed' apart' more' =>
      obtain rfl := Option.some.inj (opens.symm.trans opens')
      cases body.symm.trans (Literal.readBody?_eq_some_iff.mpr ⟨closed', apart'⟩)
      exact more'
    | other _ noLiteral =>
      cases opens.symm.trans noLiteral
  | case7 c rest _ _ _ _ d opens chars read =>
    have staysOpen := (Literal.read_eq_unclosed_iff.mp read).1
    exact ⟨fun _ _ => by simp, fun _ => .openLiteral opens staysOpen⟩
  | case8 c rest noClose _ _ _ noLiteral more ending heq ih =>
    rw [heq] at ih
    rw [unclosed_cons noClose noLiteral, ← unclosed_dropWhile, ih]

/-! ## Tokens of a list -/

/-- The error that an opening parenthesis is if its list has no end. -/
def unclosedToken (depth start : Nat) : Token :=
  Mark.token ⟨.error, .annotationArgument, ['(']⟩ depth start ['(']

theorem read_of_closed (closed : (lexemes line).2 = .closed rest) :
    read line = { pieces := .silent ['('] :: judge true (lexemes line).1 ++ [.silent [')']] } := by
  simp [read, closed]

theorem pieces_read_of_unclosed (unclosed : ∀ rest, (lexemes line).2 ≠ .closed rest) :
    (read line).pieces = misplaced ['('] :: judge true (lexemes line).1 := by
  unfold read
  cases h : (lexemes line).2 with
  | closed rest => exact absurd h (unclosed rest)
  | lineEnd | openLiteral => simp [h]

theorem tokens_read_of_closed (closed : (lexemes line).2 = .closed rest) (depth start : Nat) :
    Piece.tokens depth start (read line).pieces =
      Piece.tokens depth (start + 1) (judge true (lexemes line).1) := by
  have width : Text.width ['('] = 1 := rfl
  rw [read_of_closed closed, List.cons_append, Piece.tokens_silent, Piece.tokens_append, width]
  exact List.append_nil _

theorem tokens_read_of_unclosed (unclosed : ∀ rest, (lexemes line).2 ≠ .closed rest)
    (depth start : Nat) :
    Piece.tokens depth start (read line).pieces = unclosedToken depth start ::
      Piece.tokens depth (start + 1) (judge true (lexemes line).1) := by
  rw [pieces_read_of_unclosed unclosed]
  rfl

theorem Yields.kinds (h : Yields depth wanted start text tokens) :
    ∀ t ∈ tokens, t.kind ≠ .error := by
  induction h with
  | close => exact List.forall_mem_nil _
  | argument blanks blank a more ih =>
    refine List.forall_mem_cons.mpr ⟨?_, ih⟩
    cases a <;> nofun
  | comma blanks blank more ih => exact ih

theorem isEntry_pieces (line : List Char) : ∀ m ∈ Piece.marks (read line).pieces, IsEntry m :=
  fun m mem => isEntry_read line [] m (List.mem_append_left _ mem)

/-- All errors of a list name the argument. -/
theorem context_of_error {t : Token} (mem : t ∈ Piece.tokens depth start (read line).pieces)
    (isError : t.kind = .error) : t.context = .annotationArgument := by
  obtain ⟨m, mem, kind, context⟩ := Piece.exists_mark mem
  rw [kind] at isError
  rw [context]
  cases isEntry_pieces line m mem with
  | argument => cases isError
  | misplaced => rfl

/-- A list that does not follow the grammar has an error. -/
theorem exists_error (onLine : OnLine line) (depth start : Nat)
    (rejected : ¬ ∃ text tokens, text <+: line ∧ Yields depth true (start + 1) text tokens) :
    ∃ t ∈ Piece.tokens depth start (read line).pieces, t.kind = .error := by
  by_cases unclosed : ∀ rest, (lexemes line).2 ≠ .closed rest
  · rw [tokens_read_of_unclosed unclosed]
    exact ⟨_, List.mem_cons_self, rfl⟩
  · obtain ⟨rest, closed⟩ := Classical.not_forall_not.mp unclosed
    rw [tokens_read_of_closed closed]
    by_cases proper : ∃ t ∈ Piece.tokens depth (start + 1) (judge true (lexemes line).1),
        t.kind = .error
    · exact proper
    · obtain ⟨text, whole, yields⟩ :=
        yields_of_lexed onLine closed fun t mem isError => proper ⟨t, mem, isError⟩
      exact absurd ⟨text, _, ⟨rest, whole.symm⟩, yields⟩ rejected

end ArgumentList

open ArgumentList (Yields Unclosed unclosedToken)
open Annotation (head sign)

namespace Lexer

variable {L : Lexer} {behind : List Char}

theorem visible_read (line : List Char) :
    ∀ m ∈ Piece.marks (ArgumentList.read line).pieces, m.kind.isTrivia = false := by
  intro m mem
  cases ArgumentList.isEntry_pieces line m mem with
  | argument | misplaced => rfl

/-- A list queues its tokens first, and no others if no literal is left open. -/
theorem queue_takePart_list (front : L.scanner.rest = '(' :: behind) :
    ∃ more, (L.takePart (ArgumentList.read (Text.line behind))).queue = L.queue ++
        (Piece.tokens L.depth L.scanner.index (ArgumentList.read (Text.line behind)).pieces ++
          more) ∧
      ((ArgumentList.read (Text.line behind)).openLiteral = none → more = []) := by
  have line : Text.line L.scanner.rest = '(' :: Text.line behind := by
    rw [front]
    rfl
  have visible := visible_read (Text.line behind)
  have stays := ArgumentList.itemFollows_read (Text.line behind)
  generalize hp : ArgumentList.read (Text.line behind) = part at visible stays
  cases isOpen : part.openLiteral with
  | none =>
    obtain ⟨tail, source⟩ := ArgumentList.source_read (Text.line behind)
    have whole := Text.line_append_behindLine L.scanner.rest
    rw [line, ← source, hp, List.append_assoc] at whole
    exact ⟨[], by simpa using (took_takePart part visible isOpen whole.symm).1.queue, fun _ => rfl⟩
  | some literal =>
    obtain ⟨-, -, source⟩ := ArgumentList.open_read (hp ▸ isOpen)
    rw [hp] at source
    obtain ⟨indentation, queue, -⟩ :=
      queue_takePart_line part visible stays (source.trans line.symm)
    rw [queue, LinePart.tokens, List.append_assoc, List.append_assoc]
    exact ⟨_, rfl, by simp⟩

/-- A list that follows the grammar is taken up to its closing parenthesis. -/
theorem took_list (front : L.scanner.rest = '(' :: behind) (text : List Char)
    (tokens : List Token) (isFirst : text <+: Text.line behind)
    (yields : Yields L.depth true (L.scanner.index + 1) text tokens) :
    L.Took ('(' :: text) tokens (L.takePart (ArgumentList.read (Text.line behind))) := by
  obtain ⟨rest, line⟩ := isFirst
  obtain ⟨closed, judged⟩ := yields.lexed rest
  rw [line] at closed judged
  have read := ArgumentList.read_of_closed closed
  have source : (ArgumentList.read (Text.line behind)).source = '(' :: text := by
    have whole := ArgumentList.source_lexemes (Text.line behind)
    rw [closed, ← line, ← ArgumentList.source_judge true, ArgumentList.Ending.chars,
      List.append_cons] at whole
    have inList := List.append_cancel_right whole
    rw [line] at inList
    simp [read, LinePart.source, inList]
  have whole : L.scanner.rest = '(' :: text ++ (rest ++ Text.behindLine behind) := by
    rw [front, List.cons_append, ← List.append_assoc, line, Text.line_append_behindLine]
  rw [← source] at whole ⊢
  rw [← judged, ← ArgumentList.tokens_read_of_closed closed]
  exact (took_takePart _ (visible_read _) (by rw [read]) whole).1

/-- What is made of a list, by the grammar. -/
theorem takePart_list (front : L.scanner.rest = '(' :: behind) :
    let line := Text.line behind
    let M := L.takePart (ArgumentList.read line)
    let follows := ∃ text tokens,
      text <+: line ∧ Yields L.depth true (L.scanner.index + 1) text tokens
    ∃ list, M.queue = L.queue ++ list ∧
      ((∀ t ∈ list, t.kind ≠ .error) ↔ follows) ∧
      (∀ text tokens, text <+: line → Yields L.depth true (L.scanner.index + 1) text tokens →
        list = tokens ∧ L.Took ('(' :: text) tokens M) ∧
      (¬ follows → ∃ t ∈ list, t.kind = .error ∧ t.context = .annotationArgument) ∧
      (list.head? = some (unclosedToken L.depth L.scanner.index) ↔ Unclosed line) := by
  intro line M follows
  have onLine : OnLine line := fun _ => Text.ne_of_mem_line
  obtain ⟨more, queue, alone⟩ := queue_takePart_list front
  have accepted (text : List Char) (tokens : List Token) (isFirst : text <+: line)
      (yields : Yields L.depth true (L.scanner.index + 1) text tokens) :
      Piece.tokens L.depth L.scanner.index (ArgumentList.read line).pieces ++ more = tokens ∧
        L.Took ('(' :: text) tokens M := by
    have took := took_list front text tokens isFirst yields
    exact ⟨List.append_cancel_left (queue.symm.trans took.queue), took⟩
  have rejected (none : ¬ follows) :
      ∃ t ∈ Piece.tokens L.depth L.scanner.index (ArgumentList.read line).pieces ++ more,
        t.kind = .error ∧ t.context = .annotationArgument := by
    obtain ⟨t, mem, isError⟩ := ArgumentList.exists_error onLine _ _ none
    exact ⟨t, List.mem_append_left _ mem, isError, ArgumentList.context_of_error mem isError⟩
  refine ⟨_, queue, ⟨?_, ?_⟩, accepted, rejected, ?_⟩
  · intro proper
    refine Classical.byContradiction fun none => ?_
    obtain ⟨t, mem, isError, -⟩ := rejected none
    exact proper t mem isError
  · rintro ⟨text, tokens, isFirst, yields⟩
    rw [(accepted text tokens isFirst yields).1]
    exact yields.kinds
  · rw [ArgumentList.unclosed_iff]
    constructor
    · intro first rest closed
      rw [ArgumentList.tokens_read_of_closed closed,
        alone (by rw [ArgumentList.read_of_closed closed]), List.append_nil] at first
      -- the tokens of a closed list stand behind its opening parenthesis
      have later := Piece.start_le (List.mem_of_head? first)
      exact absurd later (Nat.not_succ_le_self _)
    · intro unclosed
      rw [ArgumentList.tokens_read_of_unclosed unclosed]
      rfl

end Lexer

/-- Directly behind the name of an annotation, a list has no error exactly if a
first part of the line follows the grammar, and then that part is taken and its
tokens are those of its arguments. Any other list has an error that names the
argument, and if the list is without an end, the first token is an error at its
opening parenthesis. -/
theorem argumentList_grammar (L : Lexer) (header : L.mode = .header) {name behind : List Char}
    (front : L.scanner.rest = '@' :: name ++ '(' :: behind) (named : name ≠ [])
    (alphabetic : ∀ c ∈ name, isAlphabetic c = true) :
    let tag := Mark.token ⟨.annotationName, .none, name⟩ L.depth L.scanner.index ('@' :: name)
    let start := L.scanner.index + Text.width ('@' :: name)
    let line := Text.line behind
    let follows := ∃ text tokens, text <+: line ∧ Yields L.depth true (start + 1) text tokens
    ∃ list, L.scan.queue = L.queue ++ tag :: list ∧
      ((∀ t ∈ list, t.kind ≠ .error) ↔ follows) ∧
      (∀ text tokens, text <+: line → Yields L.depth true (start + 1) text tokens →
        list = tokens ∧ L.Took ('@' :: name ++ '(' :: text) (tag :: tokens) L.scan) ∧
      (¬ follows → ∃ t ∈ list, t.kind = .error ∧ t.context = .annotationArgument) ∧
      (list.head? = some (unclosedToken L.depth start) ↔ Unclosed line) := by
  intro tag start line follows
  have sign : sign name = ⟨.annotationName, .none, name⟩ := if_neg named
  have first := Lexer.took_head front
  rw [sign] at first
  have list : (L.take (head name)).scanner.rest = '(' :: behind :=
    List.append_cancel_left (first.rest.symm.trans front)
  obtain ⟨tokens, queue, more⟩ := Lexer.takePart_list list
  rw [← Lexer.scan_list header front named alphabetic, first.depth, first.index] at more
  rw [← Lexer.scan_list header front named alphabetic, first.queue, List.append_assoc] at queue
  obtain ⟨proper, accepted, rejected, unclosed⟩ := more
  refine ⟨tokens, queue, proper, ?_, rejected, unclosed⟩
  intro text tokens isFirst yields
  obtain ⟨same, took⟩ := accepted text tokens isFirst yields
  exact ⟨same, first.append took⟩

/-- A list with a comma behind its last argument, and a list without an end. -/
theorem argumentList_grammar_lastComma :
    (let L := Lexer.ofText "@a([b]]] ,)c".toList {}
     L.Took "@a([b]]] ,)".toList [⟨⟨0, 2⟩, 1, .annotationName, .none, "a"⟩,
        ⟨⟨3, 8⟩, 1, .annotationArgument, .sectionName, "b]"⟩] L.scan) ∧
    (let L := Lexer.ofText "@a(b".toList {}
     ∃ list, L.scan.queue = ⟨⟨0, 2⟩, 1, .annotationName, .none, "a"⟩ :: list ∧
        list.head? = some ⟨⟨2, 3⟩, 1, .error, .annotationArgument, "("⟩) := by
  have letters : ∀ c ∈ ['a'], isAlphabetic c = true := List.forall_mem_singleton.mpr (by decide)
  constructor
  · have front : (Lexer.ofText "@a([b]]] ,)c".toList {}).scanner.rest =
        '@' :: ['a'] ++ '(' :: "[b]]] ,)c".toList := rfl
    obtain ⟨list, -, -, accepted, -⟩ := argumentList_grammar _ rfl front (by decide) letters
    have yields : Yields 1 true 3 "[b]]] ,)".toList
        [⟨⟨3, 8⟩, 1, .annotationArgument, .sectionName, "b]"⟩] :=
      .argument [] (List.forall_mem_nil _) (.sectionName ⟨['b', ']'], by decide⟩)
        (.comma [' '] (List.forall_mem_singleton.mpr rfl) (.close [] (List.forall_mem_nil _)))
    exact (accepted "[b]]] ,)".toList _ (by decide) yields).2
  · have front : (Lexer.ofText "@a(b".toList {}).scanner.rest =
        '@' :: ['a'] ++ '(' :: "b".toList := rfl
    obtain ⟨list, queue, -, -, -, unclosed⟩ :=
      argumentList_grammar _ rfl front (by decide) letters
    have noEnd : Unclosed (Text.line "b".toList) := .other (by decide) rfl .lineEnd
    exact ⟨list, queue, unclosed.mpr noEnd⟩

end RuleLexer
