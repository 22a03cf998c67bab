import RuleLexer.Piece

/-!
# Literals

A literal stands between delimiters, and its closing delimiter is written twice
wherever the body contains it.

* `doubled`: the written form of a body;
* `readBody?_eq_some_iff`: reading finds a body exactly where its written form
  stands with a closing delimiter behind it that is not itself doubled;
* `readBody?_eq_none_iff`: it finds none exactly where the literal stays open;
* `Literal.read`: what is found at an opening delimiter, as a literal or as the
  text that leaves it open;
* `chars_append_of_read`, `length_of_read`: nothing is lost, and what is left is shorter.
-/

namespace RuleLexer

inductive Delimiter where
  | bracket
  | quote
  | slash
  deriving DecidableEq

namespace Delimiter

def opener : Delimiter → Char
  | bracket => '['
  | quote => '"'
  | slash => '/'

def closer : Delimiter → Char
  | bracket => ']'
  | quote => '"'
  | slash => '/'

/-- The delimiter that a character opens. -/
def ofOpener? (c : Char) : Option Delimiter :=
  if c = '[' then some bracket
  else if c = '"' then some quote
  else if c = '/' then some slash
  else none

/-- The kind of a literal on a side of an item. -/
def kind : Delimiter → TokenKind
  | bracket => .label
  | quote => .string
  | slash => .regex

theorem ofOpener?_eq_some_iff {c : Char} {d : Delimiter} :
    ofOpener? c = some d ↔ c = d.opener := by
  unfold ofOpener?
  constructor
  · intro h
    split at h
    · cases h; assumption
    · split at h
      · cases h; assumption
      · split at h
        · cases h; assumption
        · cases h
  · rintro rfl
    cases d <;> rfl

end Delimiter

/-- A closed literal. -/
structure Literal where
  delimiter : Delimiter
  /-- What stands between its delimiters, with every doubled one as one. -/
  body : List Char
  deriving DecidableEq

namespace Literal

/-- A body as it is written, with every closing delimiter doubled. -/
def doubled (close : Char) : List Char → List Char
  | [] => []
  | c :: body => if c = close then close :: close :: doubled close body else c :: doubled close body

/-- Reads a body up to its closing delimiter, and gives it with what follows
the delimiter. A delimiter directly followed by another one belongs to the body. -/
def readBody? (close : Char) : List Char → Option (List Char × List Char)
  | [] => none
  | c :: rest =>
    if c = close then
      match rest with
      | [] => some ([], [])
      | d :: rest =>
        if d = close then (readBody? close rest).map fun (body, behind) => (close :: body, behind)
        else some ([], d :: rest)
    else (readBody? close rest).map fun (body, behind) => (c :: body, behind)

/-- A literal as it is written. -/
def written (d : Delimiter) (body : List Char) : List Char :=
  d.opener :: doubled d.closer body ++ [d.closer]

/-- The text of a literal, with its delimiters. -/
def chars (l : Literal) : List Char := written l.delimiter l.body

/-- Whether a closing delimiter is doubled in it. -/
def escaped (l : Literal) : Bool := l.body.contains l.delimiter.closer

/-- A literal as a piece, whose value is its body. -/
def piece (kind context : TokenKind) (l : Literal) : Piece := .valued kind context l.body l.chars

/-- What is found at an opening delimiter. -/
inductive Outcome where
  /-- A literal, with the text behind it. -/
  | closed (literal : Literal) (behind : List Char)
  /-- No closing delimiter. All of the text belongs to the open literal. -/
  | unclosed (chars : List Char)
  deriving DecidableEq

/-- Reads a literal, from behind its opening delimiter. -/
def read (d : Delimiter) (text : List Char) : Outcome :=
  match readBody? d.closer text with
  | some (body, behind) => .closed ⟨d, body⟩ behind
  | none => .unclosed (d.opener :: text)

@[simp]
theorem chars_piece (kind context : TokenKind) (l : Literal) :
    (l.piece kind context).chars = l.chars := rfl

theorem readBody?_cons_of_ne {close c : Char} (h : c ≠ close) (rest : List Char) :
    readBody? close (c :: rest) =
      (readBody? close rest).map fun (body, behind) => (c :: body, behind) := by
  rw [readBody?.eq_def]
  simp [h]

theorem readBody?_of_doubled (close : Char) (body : List Char) {rest : List Char}
    (h : rest.head? ≠ some close) :
    readBody? close (doubled close body ++ close :: rest) = some (body, rest) := by
  induction body with
  | nil => cases rest <;> simp_all [doubled, readBody?]
  | cons c body ih =>
    by_cases hc : c = close
    · simp [doubled, readBody?, hc, ih]
    · simp [doubled, readBody?_cons_of_ne, hc, ih]

theorem doubled_of_readBody? {close : Char} {text body rest : List Char}
    (h : readBody? close text = some (body, rest)) :
    text = doubled close body ++ close :: rest ∧ rest.head? ≠ some close := by
  fun_induction readBody? close text generalizing body rest with
  | case1 => cases h
  | case2 => simp_all [doubled]
  | case3 text ih =>
    obtain ⟨⟨body', rest'⟩, hread, heq⟩ := Option.map_eq_some_iff.mp h
    cases heq
    obtain ⟨rfl, hrest⟩ := ih hread
    exact ⟨by simp [doubled], hrest⟩
  | case4 d text hd =>
    cases h
    exact ⟨rfl, by simpa using hd⟩
  | case5 c text hc ih =>
    obtain ⟨⟨body', rest'⟩, hread, heq⟩ := Option.map_eq_some_iff.mp h
    cases heq
    obtain ⟨rfl, hrest⟩ := ih hread
    exact ⟨by simp [doubled, hc], hrest⟩

theorem readBody?_eq_some_iff {close : Char} {text body rest : List Char} :
    readBody? close text = some (body, rest) ↔
      text = doubled close body ++ close :: rest ∧ rest.head? ≠ some close :=
  ⟨doubled_of_readBody?, fun ⟨h, hrest⟩ => h ▸ readBody?_of_doubled close body hrest⟩

/-- A text that closes no literal: a delimiter that could close it is doubled. -/
def StaysOpen (close : Char) (text : List Char) : Prop :=
  ∀ body rest, text = doubled close body ++ close :: rest → rest.head? = some close

theorem readBody?_eq_none_iff {close : Char} {text : List Char} :
    readBody? close text = none ↔ StaysOpen close text := by
  constructor
  · intro none body rest whole
    by_cases apart : rest.head? = some close
    · exact apart
    · cases none.symm.trans (readBody?_eq_some_iff.mpr ⟨whole, apart⟩)
  · intro isOpen
    cases read : readBody? close text with
    | none => rfl
    | some result =>
      obtain ⟨whole, apart⟩ := readBody?_eq_some_iff.mp read
      exact absurd (isOpen _ _ whole) apart

theorem length_of_readBody? {close : Char} {text body rest : List Char}
    (h : readBody? close text = some (body, rest)) : rest.length < text.length := by
  obtain ⟨rfl, _⟩ := doubled_of_readBody? h
  simp only [List.length_append, List.length_cons]
  omega

/-! ## Reading a literal -/

variable {d : Delimiter} {l : Literal} {text behind chars : List Char}

theorem read_eq_closed_iff : read d text = .closed l behind ↔
    l.delimiter = d ∧ readBody? d.closer text = some (l.body, behind) := by
  unfold read
  cases readBody? d.closer text with
  | none => simp
  | some result =>
    obtain ⟨body, rest⟩ := result
    constructor
    · rintro ⟨⟩
      exact ⟨rfl, rfl⟩
    · rintro ⟨rfl, found⟩
      cases found
      rfl

theorem read_eq_unclosed_iff : read d text = .unclosed chars ↔
    StaysOpen d.closer text ∧ chars = d.opener :: text := by
  rw [← readBody?_eq_none_iff]
  unfold read
  cases readBody? d.closer text <;> simp [eq_comm]

theorem read_of_doubled (d : Delimiter) (body : List Char) (apart : behind.head? ≠ some d.closer) :
    read d (doubled d.closer body ++ d.closer :: behind) = .closed ⟨d, body⟩ behind :=
  read_eq_closed_iff.mpr ⟨rfl, readBody?_of_doubled d.closer body apart⟩

theorem read_of_staysOpen (isOpen : StaysOpen d.closer text) :
    read d text = .unclosed (d.opener :: text) :=
  read_eq_unclosed_iff.mpr ⟨isOpen, rfl⟩

theorem apart_of_read (h : read d text = .closed l behind) : behind.head? ≠ some d.closer :=
  (doubled_of_readBody? (read_eq_closed_iff.mp h).2).2

/-- A literal and the text behind it are what was read. -/
theorem chars_append_of_read (h : read d text = .closed l behind) :
    l.chars ++ behind = d.opener :: text := by
  obtain ⟨rfl, found⟩ := read_eq_closed_iff.mp h
  rw [(doubled_of_readBody? found).1]
  simp [chars, written]

theorem length_of_read (h : read d text = .closed l behind) : behind.length < text.length :=
  length_of_readBody? (read_eq_closed_iff.mp h).2

end Literal

end RuleLexer
