import RuleLexer.Proofs.PartScan

/-!
# Runs of closing delimiters

Where a literal closes is decided by the runs of its closing delimiter: by the
first run of odd length, whose last delimiter closes the literal.

* `Literal.IsRun`, `Literal.FirstOdd`: runs that are as long as can be, and the
  first of odd length;
* `Literal.read_of_firstOdd`, `Literal.read_of_allEven`: what is read of a
  literal, given the runs behind its opening delimiter;
* `literal_taken`: what a lexer takes of the literal in front of it.
-/

namespace RuleLexer

namespace Literal

/-- A run of closing delimiters that is as long as can be. -/
structure IsRun (close : Char) (text front : List Char) (n : Nat) (behind : List Char) : Prop where
  whole : text = front ++ List.replicate n close ++ behind
  pos : 0 < n
  before : front.getLast? ≠ some close
  after : behind.head? ≠ some close

/-- No run of closing delimiters has odd length. -/
def AllEven (close : Char) (text : List Char) : Prop :=
  ∀ front n behind, IsRun close text front n behind → n % 2 = 0

/-- The first run of odd length. -/
structure FirstOdd (close : Char) (text front : List Char) (n : Nat) (behind : List Char) : Prop
    extends IsRun close text front n behind where
  odd : n % 2 = 1
  earlier : ∀ front' n' behind', IsRun close text front' n' behind' →
    front'.length < front.length → n' % 2 = 0

/-- The text with every doubled delimiter replaced by one. -/
def undoubled (close : Char) : List Char → List Char
  | [] => []
  | [c] => [c]
  | c :: d :: rest =>
    if c = close ∧ d = close then close :: undoubled close rest
    else c :: undoubled close (d :: rest)

variable {close c : Char} {text rest front behind : List Char} {n : Nat}

/-! ## Doubling -/

theorem undoubled_cons_of_ne (ne : c ≠ close) (rest : List Char) :
    undoubled close (c :: rest) = c :: undoubled close rest := by
  cases rest with
  | nil => rfl
  | cons d rest => simp [undoubled, ne]

theorem undoubled_doubled (close : Char) (body : List Char) :
    undoubled close (doubled close body) = body := by
  induction body with
  | nil => rfl
  | cons c body ih =>
    rw [doubled]
    split
    · rename_i same
      rw [undoubled, if_pos ⟨rfl, rfl⟩, ih, same]
    · rename_i ne
      rw [undoubled_cons_of_ne ne, ih]

theorem doubled_append (close : Char) (a b : List Char) :
    doubled close (a ++ b) = doubled close a ++ doubled close b := by
  induction a with
  | nil => rfl
  | cons c a ih =>
    simp only [List.cons_append, doubled, ih]
    split <;> rfl

theorem doubled_of_notMem {body : List Char} (notMem : close ∉ body) :
    doubled close body = body := by
  induction body with
  | nil => rfl
  | cons c body ih =>
    rw [List.mem_cons, not_or] at notMem
    rw [doubled, if_neg (Ne.symm notMem.1), ih notMem.2]

/-- Some delimiter is doubled exactly if the body has one. -/
theorem pair_infix_doubled_iff {body : List Char} :
    [close, close] <:+: doubled close body ↔ close ∈ body := by
  constructor
  · intro pair
    by_cases mem : close ∈ body
    · exact mem
    · rw [doubled_of_notMem mem] at pair
      exact pair.subset List.mem_cons_self
  · intro mem
    obtain ⟨a, b, rfl⟩ := List.append_of_mem mem
    refine ⟨doubled close a, doubled close b, ?_⟩
    simp [doubled_append, doubled]

/-! ## Runs -/

theorem IsRun.cons (run : IsRun close rest front n behind) (ne : c ≠ close) :
    IsRun close (c :: rest) (c :: front) n behind where
  whole := by rw [run.whole]; rfl
  pos := run.pos
  before := by
    intro last
    rw [List.getLast?_cons] at last
    cases h : front.getLast? with
    | none =>
      rw [h] at last
      exact ne (Option.some.inj last)
    | some d =>
      rw [h] at last
      exact run.before (h.trans last)
  after := run.after

/-- A run behind two closing delimiters, unless it is right behind them. -/
theorem IsRun.behindPair (run : IsRun close rest front n behind) (apart : front ≠ []) :
    IsRun close (close :: close :: rest) (close :: close :: front) n behind where
  whole := by rw [run.whole]; rfl
  pos := run.pos
  before := by
    obtain ⟨d, more, rfl⟩ := List.exists_cons_of_ne_nil apart
    simpa only [List.getLast?_cons_cons] using run.before
  after := run.after

/-- A run right behind two closing delimiters. -/
theorem IsRun.joinPair (run : IsRun close rest [] n behind) :
    IsRun close (close :: close :: rest) [] (n + 2) behind where
  whole := by rw [run.whole]; rfl
  pos := Nat.succ_pos _
  before := nofun
  after := run.after

theorem exists_headRun (close : Char) (rest : List Char) :
    ∃ n behind, IsRun close (close :: rest) [] (n + 1) behind ∧
      rest = List.replicate n close ++ behind := by
  induction rest with
  | nil => exact ⟨0, [], ⟨rfl, Nat.one_pos, nofun, nofun⟩, rfl⟩
  | cons c rest ih =>
    by_cases same : c = close
    · subst same
      obtain ⟨n, behind, run, whole⟩ := ih
      exact ⟨n + 1, behind, ⟨by rw [run.whole]; rfl, Nat.succ_pos _, nofun, run.after⟩,
        by rw [whole]; rfl⟩
    · exact ⟨0, c :: rest, ⟨rfl, Nat.one_pos, nofun, by simpa using same⟩, rfl⟩

theorem AllEven.of_cons (even : AllEven close (c :: rest)) (ne : c ≠ close) :
    AllEven close rest :=
  fun _ _ _ run => even _ _ _ (run.cons ne)

theorem AllEven.of_pair (even : AllEven close (close :: close :: rest)) : AllEven close rest := by
  intro front n behind run
  by_cases here : front = []
  · subst here
    have joined := even _ _ _ run.joinPair
    omega
  · exact even _ _ _ (run.behindPair here)

/-- A run of even length is no single delimiter. -/
theorem exists_pair_of_even
    (even : ∀ n behind, IsRun close (close :: rest) [] n behind → n % 2 = 0) :
    ∃ more, rest = close :: more := by
  obtain ⟨n, behind, run, whole⟩ := exists_headRun close rest
  have isEven := even _ _ run
  cases n with
  | zero => simp at isEven
  | succ n => exact ⟨List.replicate n close ++ behind, by rw [whole]; rfl⟩

theorem FirstOdd.of_cons (first : FirstOdd close (c :: rest) front n behind) (ne : c ≠ close) :
    ∃ more, front = c :: more ∧ FirstOdd close rest more n behind := by
  cases front with
  | nil =>
    have head := congrArg List.head? first.whole
    rw [List.nil_append, List.head?_append, List.head?_replicate,
      if_neg (Nat.ne_of_gt first.pos)] at head
    exact absurd (Option.some.inj head) ne
  | cons d more =>
    obtain ⟨rfl, whole⟩ := List.cons.inj first.whole
    refine ⟨more, rfl, ⟨⟨whole, first.pos, ?_, first.after⟩, first.odd, ?_⟩⟩
    · intro last
      exact first.before (by rw [List.getLast?_cons, last]; rfl)
    · intro front' n' behind' run shorter
      exact first.earlier _ _ _ (run.cons ne) (Nat.succ_lt_succ shorter)

/-- A single delimiter is the first run of odd length. -/
theorem FirstOdd.of_single (first : FirstOdd close (close :: rest) front n behind)
    (single : rest.head? ≠ some close) : front = [] ∧ n = 1 ∧ behind = rest := by
  have run : IsRun close (close :: rest) [] 1 rest := ⟨rfl, Nat.one_pos, nofun, single⟩
  cases front with
  | nil =>
    match n, first.pos with
    | 1, _ => exact ⟨rfl, rfl, (List.cons.inj first.whole).2.symm⟩
    | m + 2, _ =>
      have next : rest = close :: (List.replicate m close ++ behind) :=
        (List.cons.inj first.whole).2
      exact absurd (by rw [next]; rfl) single
  | cons d more =>
    have isEven := first.earlier _ _ _ run (Nat.zero_lt_succ _)
    cases isEven

/-- Behind two closing delimiters, the first run of odd length is what is left of it. -/
theorem FirstOdd.of_pair (first : FirstOdd close (close :: close :: rest) front n behind) :
    ∃ more m, FirstOdd close rest more m behind ∧
      front ++ List.replicate (n - 1) close =
        close :: close :: (more ++ List.replicate (m - 1) close) := by
  have whole := first.whole
  cases front with
  | nil =>
    match n, first.odd with
    | 1, _ =>
      have next : close :: rest = behind := (List.cons.inj whole).2
      exact absurd (by rw [← next]; rfl) first.after
    | m + 3, odd =>
      have left : rest = List.replicate (m + 1) close ++ behind :=
        (List.cons.inj (List.cons.inj whole).2).2
      exact ⟨[], m + 1, ⟨⟨left, Nat.succ_pos m, nofun, first.after⟩, by omega, nofun⟩, rfl⟩
  | cons d front =>
    obtain ⟨hd, whole⟩ := List.cons.inj whole
    cases front with
    | nil =>
      rw [← hd] at first
      exact absurd rfl first.before
    | cons e more =>
      obtain ⟨he, whole⟩ := List.cons.inj whole
      rw [← hd, ← he] at first ⊢
      have apart : more ≠ [] := by
        rintro rfl
        exact first.before rfl
      refine ⟨more, n, ⟨⟨whole, first.pos, ?_, first.after⟩, first.odd, ?_⟩, rfl⟩
      · obtain ⟨x, tail, rfl⟩ := List.exists_cons_of_ne_nil apart
        simpa only [List.getLast?_cons_cons] using first.before
      · intro front' n' behind' run shorter
        by_cases here : front' = []
        · subst here
          have joined := first.earlier _ _ _ run.joinPair (Nat.zero_lt_succ _)
          omega
        · exact first.earlier _ _ _ (run.behindPair here)
            (Nat.succ_lt_succ (Nat.succ_lt_succ shorter))

/-- Among the runs of odd length there is a first one. -/
theorem IsRun.exists_firstOdd {front behind : List Char} {n : Nat}
    (run : IsRun close text front n behind) (odd : n % 2 = 1) :
    ∃ front n behind, FirstOdd close text front n behind := by
  by_cases earlier : ∃ front' n' behind', IsRun close text front' n' behind' ∧ n' % 2 = 1 ∧
      front'.length < front.length
  · obtain ⟨front', n', behind', run', odd', shorter⟩ := earlier
    exact run'.exists_firstOdd odd'
  · refine ⟨front, n, behind, run, odd, ?_⟩
    intro front' n' behind' run' shorter
    rcases Nat.mod_two_eq_zero_or_one n' with even | odd'
    · exact even
    · exact absurd ⟨front', n', behind', run', odd', shorter⟩ earlier
termination_by front.length

/-! ## Reading -/

theorem readBody?_of_firstOdd (first : FirstOdd close text front n behind) :
    ∃ body, doubled close body = front ++ List.replicate (n - 1) close ∧
      readBody? close text = some (body, behind) := by
  fun_induction readBody? close text generalizing front n with
  | case1 =>
    have length := congrArg List.length first.whole
    have pos := first.pos
    simp only [List.length_nil, List.length_append, List.length_replicate] at length
    omega
  | case2 =>
    obtain ⟨rfl, rfl, rfl⟩ := first.of_single (by simp)
    exact ⟨[], rfl, rfl⟩
  | case3 text ih =>
    obtain ⟨more, m, later, inner⟩ := first.of_pair
    obtain ⟨body, written, read⟩ := ih later
    exact ⟨close :: body, by simp [doubled, written, inner], by rw [read]; rfl⟩
  | case4 d text ne =>
    obtain ⟨rfl, rfl, rfl⟩ := first.of_single (by simpa using ne)
    exact ⟨[], rfl, rfl⟩
  | case5 c text ne ih =>
    obtain ⟨more, rfl, later⟩ := first.of_cons ne
    obtain ⟨body, written, read⟩ := ih later
    exact ⟨c :: body, by simp [doubled, ne, written], by rw [read]; rfl⟩

theorem readBody?_of_allEven (even : AllEven close text) : readBody? close text = none := by
  fun_induction readBody? close text with
  | case1 => rfl
  | case2 =>
    obtain ⟨more, next⟩ := exists_pair_of_even (even [])
    cases next
  | case3 text ih => rw [ih even.of_pair]; rfl
  | case4 d text ne =>
    obtain ⟨more, next⟩ := exists_pair_of_even (even [])
    exact absurd (List.cons.inj next).1 ne
  | case5 c text ne ih => rw [ih (even.of_cons ne)]; rfl

/-- A literal ends with the first run of odd length. -/
theorem read_of_firstOdd {d : Delimiter} (first : FirstOdd d.closer text front n behind) :
    ∃ body, doubled d.closer body = front ++ List.replicate (n - 1) d.closer ∧
      read d text = .closed ⟨d, body⟩ behind ∧
      chars ⟨d, body⟩ = d.opener :: front ++ List.replicate n d.closer := by
  obtain ⟨body, inner, found⟩ := readBody?_of_firstOdd first
  refine ⟨body, inner, read_eq_closed_iff.mpr ⟨rfl, found⟩, ?_⟩
  have last : List.replicate n d.closer = List.replicate (n - 1) d.closer ++ [d.closer] := by
    rw [← List.replicate_succ', Nat.sub_add_cancel first.pos]
  rw [chars, written, inner, last]
  simp

theorem read_of_allEven {d : Delimiter} (even : AllEven d.closer text) :
    read d text = .unclosed (d.opener :: text) :=
  read_of_staysOpen (readBody?_eq_none_iff.mp (readBody?_of_allEven even))

theorem escaped_eq_true_iff (l : Literal) : l.escaped = true ↔
    [l.delimiter.closer, l.delimiter.closer] <:+: doubled l.delimiter.closer l.body := by
  rw [escaped, List.contains_iff_mem, pair_infix_doubled_iff]

end Literal

open Literal (IsRun FirstOdd AllEven)

/-- In front of a literal, the first run of odd length in the rest of the line
closes it. The literal ends with that run, and its body is the text in between
with every doubled delimiter replaced by one. If there is no such run, the rest
of the line is taken with its line break, behind which the next line begins. -/
theorem literal_taken (L : Lexer) (d : Delimiter) {behind : List Char}
    (onOpener : L.scanner.rest = d.opener :: behind) :
    let line := Text.line behind
    let lineBreak := Text.lineBreak (Text.behindLine behind)
    (∀ front n rest, IsRun d.closer line front n rest → n % 2 = 1 →
      ∃ front n rest, FirstOdd d.closer line front n rest) ∧
    (∀ front n rest, FirstOdd d.closer line front n rest →
      let between := front ++ List.replicate (n - 1) d.closer
      let literal : Literal := ⟨d, Literal.undoubled d.closer between⟩
      let taken := d.opener :: front ++ List.replicate n d.closer
      Literal.read d line = .closed literal rest ∧
      (literal.escaped = true ↔ [d.closer, d.closer] <:+: between) ∧
      ∀ kind context, kind.isTrivia = false →
        L.Took taken [Mark.token ⟨kind, context, literal.body⟩ L.depth L.scanner.index taken]
          (L.take (literal.piece kind context))) ∧
    (AllEven d.closer line →
      let chars := d.opener :: line
      let taken := chars ++ lineBreak
      Literal.read d line = .unclosed chars ∧
      ∀ context, ∃ M,
        L.Took taken
          [Mark.token ⟨.error, context, Text.foldEnd taken⟩ L.depth L.scanner.index taken] M ∧
        L.takeOpenLiteral context chars = if lineBreak = [] then M else M.beginLine) := by
  obtain ⟨isLine, isBehind⟩ := d.line_opener behind
  have whole := Text.line_append_behindLine (d.opener :: behind)
  rw [isLine, isBehind, ← onOpener] at whole
  refine ⟨fun _ _ _ run odd => run.exists_firstOdd odd, ?_, ?_⟩
  · intro front n rest first
    dsimp only
    obtain ⟨body, inner, found, chars⟩ := Literal.read_of_firstOdd first
    rw [← inner, Literal.undoubled_doubled, ← chars]
    refine ⟨found, Literal.escaped_eq_true_iff ⟨d, body⟩, ?_⟩
    intro kind context visible
    apply Lexer.took_take visible
    rw [← whole, ← Literal.chars_append_of_read found, List.append_assoc]
  · intro even
    refine ⟨Literal.read_of_allEven even, ?_⟩
    intro context
    obtain ⟨M, took, -, opened⟩ := Lexer.took_takeOpenLiteral (d.opener :: behind) context
      (List.suffix_refl _) (by rw [isLine, isBehind, whole])
    rw [isLine, isBehind] at took opened
    exact ⟨M, took, opened⟩

/-- A run of three right behind the opening delimiter, and a literal that takes
a line break of two bytes. -/
theorem literal_taken_slashes :
    (let L := Lexer.ofText "////a/".toList {}
     let literal : Literal := ⟨.slash, ['/']⟩
     L.scanner.rest = '/' :: "///a/".toList ∧
      Literal.read .slash "///a/".toList = .closed literal ['a', '/'] ∧
      L.Took "////".toList [⟨⟨0, 4⟩, 1, .regex, .lhs, "/"⟩] (L.take (literal.piece .regex .lhs))) ∧
    (let L := Lexer.ofText "/a\r\nb".toList {}
     L.scanner.rest = '/' :: "a\r\nb".toList ∧
      Literal.read .slash ['a'] = .unclosed ['/', 'a'] ∧
      ∃ M, L.Took "/a\r\n".toList [⟨⟨0, 4⟩, 1, .error, .regex, "/a\n"⟩] M ∧
        L.takeOpenLiteral .regex "/a".toList = M.beginLine) := by
  constructor
  · have first : FirstOdd '/' (Text.line "///a/".toList) [] 3 ['a', '/'] :=
      ⟨⟨rfl, by decide, nofun, by decide⟩, rfl, nofun⟩
    obtain ⟨read, -, took⟩ :=
      (literal_taken (.ofText "////a/".toList {}) .slash rfl).2.1 _ _ _ first
    exact ⟨rfl, read, took .regex .lhs rfl⟩
  · have even : AllEven '/' (Text.line "a\r\nb".toList) := by
      intro front n behind run
      have mem : '/' ∈ ['a'] := by
        rw [show ['a'] = _ from run.whole]
        simp [Nat.ne_of_gt run.pos]
      exact absurd mem (by decide)
    obtain ⟨read, opened⟩ := (literal_taken (.ofText "/a\r\nb".toList {}) .slash rfl).2.2 even
    exact ⟨rfl, read, opened .regex⟩

end RuleLexer
