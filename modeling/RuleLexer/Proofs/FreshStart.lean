import Mathlib.Data.List.TakeWhile
import RuleLexer.Proofs.Reading

/-!
# Fresh starts

A line feed ends whatever the lines before it left open, and the line behind it
is lexed as if a text began with it.

* `scan_append`: up to the line feed, a scan does not see what follows it;
* `layout_append`: neither does the layout;
* `tokens_layout_of_isFresh`: behind the line feed, the mode makes no difference;
* `tokenize_append_lineFeed`: tokens of the whole are the tokens of both parts.
-/

namespace RuleLexer

open Cell (source)

namespace Text

variable {s b : List Char}

theorem takeWhile_append_lineFeed (s b : List Char) :
    (s ++ '\n' :: b).takeWhile isBlank = s.takeWhile isBlank := by
  induction s with
  | nil => rfl
  | cons c s ih => simp only [List.cons_append, List.takeWhile_cons, ih]

theorem dropWhile_append_lineFeed (s b : List Char) :
    (s ++ '\n' :: b).dropWhile isBlank = s.dropWhile isBlank ++ '\n' :: b := by
  induction s with
  | nil => rfl
  | cons c s ih =>
    simp only [List.cons_append, List.dropWhile_cons, ih]
    split <;> rfl

/-- What follows a text that is not empty does not change whether it starts at a line end. -/
theorem atLineEnd_append_of_ne_nil (seam : Seam s b) (h : s ≠ []) :
    atLineEnd (s ++ b) = atLineEnd s := by
  cases s with
  | nil => exact absurd rfl h
  | cons c s =>
    cases s with
    | nil => rw [List.singleton_append, atLineEnd_cons seam, atLineEnd_cons (by simp [Seam])]
    | cons d s => rfl

theorem atLineEnd_append (seam : Seam s ('\n' :: b)) :
    atLineEnd (s ++ '\n' :: b) = atLineEnd s := by
  by_cases empty : s = []
  · subst empty
    rfl
  · exact atLineEnd_append_of_ne_nil seam empty

theorem line_append (seam : Seam s ('\n' :: b)) : line (s ++ '\n' :: b) = line s := by
  induction s with
  | nil => rfl
  | cons c s ih =>
    have same := atLineEnd_append seam
    rw [List.cons_append] at same
    simp only [List.cons_append, line, same, ih (seam.of_suffix (List.suffix_cons c s))]

/-- Neither does it change the line break that the text starts with. -/
theorem lineBreak_append (seam : Seam s b) (h : s ≠ []) : lineBreak (s ++ b) = lineBreak s := by
  cases s with
  | nil => exact absurd rfl h
  | cons c s =>
    cases s with
    | nil =>
      by_cases feed : c = '\n'
      · subst feed
        rfl
      · rw [List.singleton_append, lineBreak_cons feed seam, lineBreak_cons feed (by simp [Seam])]
    | cons d s =>
      unfold lineBreak
      grind

end Text

theorem LineMode.ofText_append {s b : List Char} (seam : Text.Seam s ('\n' :: b)) :
    ofText (s ++ '\n' :: b) = ofText s := by
  have same : Text.atLineEnd (s.dropWhile isBlank ++ '\n' :: b) =
      Text.atLineEnd (s.dropWhile isBlank) :=
    Text.atLineEnd_append (seam.of_suffix (List.dropWhile_suffix _))
  unfold ofText
  rw [Text.dropWhile_append_lineFeed, same]
  cases s with
  | nil => rfl
  | cons c s => rfl

/-! ## Up to the line feed -/

/-- The place with more text behind it. -/
def Place.append (p : Place) (more : List Char) : Place := { p with rest := p.rest ++ more }

def Stretch.append (s : Stretch) (more : List Char) : Stretch :=
  { s with place := s.place.append more }

/-- The cells of a text to its end, and the cells that they are when a line feed
follows there. -/
inductive Cell.Broken : List Cell → List Cell → Prop
  | newLine (cells : List Cell) {behind : List Cell} (silent : ∀ c ∈ behind, c.piece = .silent [])
      (depth : Nat) :
      Broken (cells ++ behind) (cells ++ [⟨.valued .newLine .none ['\n'] ['\n'], depth⟩])
  | openLiteral (cells : List Cell) {behind : List Cell}
      (silent : ∀ c ∈ behind, c.piece = .silent []) (context : TokenKind) (chars : List Char)
      (depth : Nat) :
      Broken (cells ++ ⟨.raw .error context chars, depth⟩ :: behind)
        (cells ++ [⟨.valued .error context (chars ++ ['\n']) (chars ++ ['\n']), depth⟩])

theorem Cell.Broken.behind {a b : List Cell} (h : Broken a b) (front : List Cell) :
    Broken (front ++ a) (front ++ b) := by
  cases h with
  | newLine cells silent depth =>
    rw [← List.append_assoc, ← List.append_assoc]
    exact .newLine (front ++ cells) silent depth
  | openLiteral cells silent context chars depth =>
    rw [← List.append_assoc, ← List.append_assoc]
    exact .openLiteral (front ++ cells) silent context chars depth

theorem Cell.Broken.append_silent {a b : List Cell} (h : Broken a b) (depth : Nat) :
    Broken (a ++ [⟨.silent [], depth⟩]) b := by
  cases h with
  | newLine cells silent =>
    rw [List.append_assoc]
    apply Broken.newLine
    exact List.forall_mem_append.mpr ⟨silent, by simp⟩
  | openLiteral cells silent =>
    rw [List.append_assoc, List.cons_append]
    apply Broken.openLiteral
    exact List.forall_mem_append.mpr ⟨silent, by simp⟩

namespace Stretch

variable {b : List Char}

theorem lineStart_append {s : List Char} (seam : Text.Seam s ('\n' :: b)) (nesting : Nesting) :
    lineStart nesting (s ++ '\n' :: b) = (lineStart nesting s).append ('\n' :: b) := by
  unfold lineStart
  rw [LineMode.ofText_append seam, Text.takeWhile_append_lineFeed, Text.dropWhile_append_lineFeed]
  cases LineMode.ofText s <;> rfl

theorem lineBreak_append {s : List Char} (seam : Text.Seam s ('\n' :: b)) (nesting : Nesting)
    (p : Piece) :
    lineBreak nesting p (s ++ '\n' :: b) = (lineBreak nesting p s).append ('\n' :: b) := by
  unfold lineBreak
  rw [lineStart_append seam]
  rfl

theorem ended_ofPart (p : Place) (part : LinePart) : (ofPart p part).ended = false := by
  unfold ofPart
  cases part.openLiteral with
  | none => rfl
  | some literal =>
    obtain ⟨context, chars⟩ := literal
    dsimp only
    split
    · rfl
    · exact ended_lineStart _ _

/-- A stretch that reaches the end of the text, and what it is when a line feed
and more text follow there. -/
def Broken (nesting : Nesting) (b : List Char) (s t : Stretch) : Prop :=
  ∃ cells, Cell.Broken s.cells cells ∧ t = (lineStart nesting b).behind cells

theorem Broken.behind {nesting : Nesting} {s t : Stretch} (h : Broken nesting b s t)
    (front : List Cell) : Broken nesting b (s.behind front) (t.behind front) := by
  obtain ⟨cells, broken, rfl⟩ := h
  exact ⟨front ++ cells, broken.behind front, behind_behind front cells _⟩

/-- A part of the line does not see what follows the line feed, but for an open
literal that takes the line feed. -/
theorem ofPart_append {p : Place} {part : LinePart} (seam : Text.Seam p.rest ('\n' :: b))
    (source : part.source <+: p.rest) :
    ofPart (p.append ('\n' :: b)) part = (ofPart p part).append ('\n' :: b) ∨
      Broken p.nesting b (ofPart p part) (ofPart (p.append ('\n' :: b)) part) ∧
        (ofPart p part).place.rest = [] := by
  obtain ⟨tail, whole⟩ := source
  have drop : p.rest.drop part.source.length = tail := by
    rw [← whole, List.drop_left]
  have drop' : (p.append ('\n' :: b)).rest.drop part.source.length = tail ++ '\n' :: b := by
    rw [Place.append, ← whole, List.append_assoc, List.drop_left]
  have seam : Text.Seam tail ('\n' :: b) := seam.of_suffix ⟨part.source, whole⟩
  unfold ofPart
  dsimp only
  rw [drop, drop']
  cases hopen : part.openLiteral with
  | none => exact .inl rfl
  | some literal =>
    obtain ⟨context, chars⟩ := literal
    dsimp only
    by_cases ends : tail = []
    · subst ends
      right
      constructor
      · apply Broken.behind
        exact ⟨_, .openLiteral [] (by simp) context chars _, rfl⟩
      · rfl
    · left
      have same := Text.lineBreak_append seam ends
      have fits := (Text.lineBreak_prefix tail).length_le
      rw [same]
      split
      · rfl
      · rw [List.drop_append_of_le_length fits,
          lineBreak_append (seam.of_suffix (List.drop_suffix _ _))]
        rfl

end Stretch

namespace Place

variable {p : Place} {b : List Char}

/-- Up to the line feed, a scan does not see what follows it. -/
theorem scan_append (seam : Text.Seam p.rest ('\n' :: b)) (noEnd : endOfText ∉ p.rest) :
    p.scan.ended = false ∧ (p.append ('\n' :: b)).scan = p.scan.append ('\n' :: b) ∨
      Stretch.Broken p.nesting b p.scan (p.append ('\n' :: b)).scan ∧
        (p.scan.ended = true ∨ p.scan.place.rest = []) := by
  have blanks : (p.append ('\n' :: b)).rest.takeWhile isBlank = p.rest.takeWhile isBlank :=
    Text.takeWhile_append_lineFeed p.rest b
  have behind : (p.append ('\n' :: b)).rest.dropWhile isBlank =
      p.rest.dropWhile isBlank ++ '\n' :: b := Text.dropWhile_append_lineFeed p.rest b
  have seam : Text.Seam (p.rest.dropWhile isBlank) ('\n' :: b) :=
    seam.of_suffix (List.dropWhile_suffix _)
  have noEnd : endOfText ∉ p.rest.dropWhile isBlank := by
    intro mem
    exact noEnd ((List.dropWhile_suffix _).mem mem)
  have line := Text.line_append_behindLine (p.rest.dropWhile isBlank)
  have part := Stretch.ofPart_append (p := { p with rest := p.rest.dropWhile isBlank }) seam
    ((p.mode.source_read (Text.line (p.rest.dropWhile isBlank))).trans ⟨_, line⟩)
  unfold scan
  dsimp only
  rw [blanks, behind]
  generalize p.rest.dropWhile isBlank = rest at seam noEnd part
  by_cases ends : rest = []
  · subst ends
    right
    constructor
    · apply Stretch.Broken.behind
      exact ⟨_, .newLine [] (by simp) _, rfl⟩
    · exact .inl rfl
  · rw [Text.lineBreak_append seam ends, Text.atLineEnd_append seam, Text.line_append seam]
    split
    · left
      have fits := (Text.lineBreak_prefix rest).length_le
      rw [List.drop_append_of_le_length fits]
      refine ⟨Stretch.ended_lineStart _ _, ?_⟩
      exact congrArg _ (Stretch.lineBreak_append (seam.of_suffix (List.drop_suffix _ _)) _ _)
    · rename_i noBreak
      split
      · rename_i atEnd
        rcases Text.ends_of_lineBreak atEnd (by simpa using noBreak) with none | nul
        · exact absurd none ends
        · exact absurd (List.mem_of_head? nul) noEnd
      · rcases part with same | ⟨broken, rest⟩
        · exact .inl ⟨Stretch.ended_ofPart _ _, congrArg _ same⟩
        · exact .inr ⟨broken.behind _, .inr rest⟩

theorem layout_of_rest_nil (h : p.rest = []) :
    p.layout = { cells := [⟨.silent [], p.nesting.depth⟩], place := p, ended := true } := by
  have scan : p.scan = { cells := [⟨.silent [], p.nesting.depth⟩], place := p, ended := true } := by
    cases p
    subst h
    rfl
  rw [layout_of_ended (by rw [scan]), scan]

/-- A text in front of a line feed is laid out as if it ended there, and what
follows the line feed as the start of a line. -/
theorem layout_append (seam : Text.Seam p.rest ('\n' :: b)) (noEnd : endOfText ∉ p.rest) :
    ∃ nesting cells, Cell.Broken p.layout.cells cells ∧
      (p.append ('\n' :: b)).layout =
        (Stretch.lineStart nesting b).place.layout.behind
          (cells ++ (Stretch.lineStart nesting b).cells) := by
  have broken {q : Place} {cells : List Cell} (h : (q.append ('\n' :: b)).scan =
      (Stretch.lineStart q.nesting b).behind cells) : (q.append ('\n' :: b)).layout =
        (Stretch.lineStart q.nesting b).place.layout.behind
          (cells ++ (Stretch.lineStart q.nesting b).cells) := by
    rw [layout_of_goesOn (by rw [h]; exact Stretch.ended_lineStart _ _), h]
    rfl
  fun_induction layout p with
  | case1 p ended =>
    rcases scan_append seam noEnd with ⟨goesOn, -⟩ | ⟨⟨cells, same, scan⟩, -⟩
    · rw [ended] at goesOn
      cases goesOn
    · exact ⟨p.nesting, cells, same, broken scan⟩
  | case2 p goesOn ih =>
    have suffix : p.scan.place.rest <:+ p.rest := ⟨_, p.source_scan⟩
    rcases scan_append seam noEnd with ⟨-, scan⟩ | ⟨⟨cells, same, scan⟩, stops⟩
    · have noEnd' : endOfText ∉ p.scan.place.rest := by
        intro mem
        exact noEnd (suffix.mem mem)
      obtain ⟨nesting, cells, same, layout⟩ := ih (seam.of_suffix suffix) noEnd'
      refine ⟨nesting, p.scan.cells ++ cells, same.behind _, ?_⟩
      have goesOn' : (p.append ('\n' :: b)).scan.ended = false := by
        rw [scan]
        exact (Bool.not_eq_true _).mp goesOn
      rw [layout_of_goesOn goesOn', scan, List.append_assoc, ← Stretch.behind_behind, ← layout]
      rfl
    · have rest : p.scan.place.rest = [] := stops.resolve_left goesOn
      refine ⟨p.nesting, cells, ?_, broken scan⟩
      rw [Stretch.cells_behind, layout_of_rest_nil rest]
      exact same.append_silent _

end Place

/-! ## Behind the line feed -/

namespace Text

/-- The text begins with a line that is not blank, not indented, and has no
punctuation of lists in front. -/
def IsFresh (text : List Char) : Prop :=
  (front text).1 ∉ [' ', '\t', '\n', endOfText, '(', ')', ',']

theorem IsFresh.exists_cons {text : List Char} (h : IsFresh text) :
    ∃ c rest, text = c :: rest ∧ isBlank c = false ∧ atLineEnd text = false ∧
      LineMode.punctuation? c = none := by
  unfold IsFresh front at h
  split at h
  · simp at h
  · simp at h
  · rename_i c rest noPair
    have seam : Seam [c] rest := seam_singleton.mpr noPair
    simp only [List.mem_cons, List.not_mem_nil, or_false, not_or] at h
    refine ⟨c, rest, rfl, ?_, ?_, ?_⟩
    · simp [isBlank, h]
    · simp [atLineEnd_cons seam, h]
    · simp [LineMode.punctuation?, h]

/-- A fresh line stays fresh when a line feed ends it. -/
theorem IsFresh.append_lineFeed {a b : List Char} (h : IsFresh a)
    (seam : Seam a ('\n' :: b)) : IsFresh (a ++ '\n' :: b) := by
  have same : (front (a ++ '\n' :: b)).1 = (front a).1 := by
    cases a with
    | nil => simp [IsFresh, front] at h
    | cons c a =>
      cases a with
      | nil =>
        have noReturn : c ≠ '\r' := by simpa [Seam] using seam
        simp [front, noReturn]
      | cons d a =>
        unfold front
        grind
  rw [IsFresh, same]
  exact h

end Text

namespace Place

variable {p : Place}

theorem layout_congr {q : Place} (h : p.scan = q.scan) : p.layout = q.layout := by
  cases ended : q.scan.ended with
  | true => rw [layout_of_ended (h ▸ ended), layout_of_ended ended, h]
  | false => rw [layout_of_goesOn (h ▸ ended), layout_of_goesOn ended, h]

/-- At the end of a line, the mode does not matter any more. -/
theorem tokens_layout_of_atLineEnd (h : Text.atLineEnd p.rest = true) (mode : LineMode)
    (options : LexerOptions) (index : Nat) :
    ({ p with mode } : Place).layout.tokens options index = p.layout.tokens options index := by
  have noBlanks : p.rest.dropWhile isBlank = p.rest := by
    cases hrest : p.rest with
    | nil => rfl
    | cons c rest =>
      apply List.dropWhile_cons_of_neg
      intro blank
      rw [hrest, Text.atLineEnd_cons_blank blank] at h
      cases h
  by_cases found : Text.lineBreak p.rest = []
  · have ends (m : LineMode) : ({ p with mode := m } : Place).layout =
        { cells := [⟨.silent (p.rest.takeWhile isBlank), p.nesting.depth⟩]
          place := { p with mode := m }
          ended := true } := by
      have scan : ({ p with mode := m } : Place).scan =
          { cells := [⟨.silent (p.rest.takeWhile isBlank), p.nesting.depth⟩]
            place := { p with mode := m }
            ended := true } := by
        simp [Place.scan, noBlanks, found, h, Stretch.behind]
      rw [layout_of_ended (by rw [scan]), scan]
    rw [ends mode, show p.layout = _ from ends p.mode]
    rfl
  · have scan : ({ p with mode } : Place).scan = p.scan := by
      simp [Place.scan, noBlanks, found]
    rw [layout_congr scan]

/-- What a part makes of the rest of the line does not depend on the mode, and
the mode that it leaves matters at the end of the line only. -/
theorem ofPart_mode {part : LinePart} (source : part.source = Text.line p.rest) (mode : LineMode) :
    ∃ m, Stretch.ofPart { p with mode } part =
        { Stretch.ofPart p part with place := { (Stretch.ofPart p part).place with mode := m } } ∧
      (m = (Stretch.ofPart p part).place.mode ∨
        Text.atLineEnd (Stretch.ofPart p part).place.rest = true) := by
  have atEnd := Text.atLineEnd_behindLine p.rest
  have drop : p.rest.drop part.source.length = Text.behindLine p.rest :=
    Text.drop_of_line (b := []) (by rw [source, List.append_nil])
  unfold Stretch.ofPart
  dsimp only
  rw [drop]
  cases part.openLiteral with
  | none => exact ⟨_, rfl, .inr atEnd⟩
  | some literal =>
    obtain ⟨context, chars⟩ := literal
    dsimp only
    split
    · exact ⟨_, rfl, .inr atEnd⟩
    · exact ⟨_, rfl, .inl rfl⟩

/-- Where neither a blank nor the line end stands, a part of the line is taken at once. -/
theorem scan_of_inside {c : Char} {rest : List Char} (front : p.rest = c :: rest)
    (noBlank : isBlank c = false) (inside : Text.atLineEnd p.rest = false) :
    p.scan = Stretch.behind [⟨.silent [], p.nesting.depth⟩]
      (.ofPart p (p.mode.read (Text.line p.rest))) := by
  have noBreak := Text.lineBreak_eq_nil inside
  unfold Place.scan
  cases p
  subst front
  simp [noBlank, inside, noBreak]

/-- Modes that make the same of the whole line lex alike from there on. -/
theorem tokens_layout_of_read {c : Char} {rest : List Char} (front : p.rest = c :: rest)
    (noBlank : isBlank c = false) (inside : Text.atLineEnd p.rest = false) {mode : LineMode}
    (same : mode.read (Text.line p.rest) = p.mode.read (Text.line p.rest))
    (all : (p.mode.read (Text.line p.rest)).source = Text.line p.rest)
    (options : LexerOptions) (index : Nat) :
    ({ p with mode } : Place).layout.tokens options index = p.layout.tokens options index := by
  have scan := scan_of_inside front noBlank inside
  have scan' := scan_of_inside (p := { p with mode }) front noBlank inside
  obtain ⟨m, parts, last⟩ := ofPart_mode all mode
  have ended := Stretch.ended_ofPart p (p.mode.read (Text.line p.rest))
  dsimp only at scan'
  rw [same, parts] at scan'
  generalize Stretch.ofPart p (p.mode.read (Text.line p.rest)) = s at scan scan' last ended
  have more (index : Nat) : ({ s.place with mode := m } : Place).layout.tokens options index =
      s.place.layout.tokens options index := by
    rcases last with rfl | atEnd
    · rfl
    · exact tokens_layout_of_atLineEnd atEnd m options index
  have goesOn : p.scan.ended = false := by
    rw [scan]
    exact ended
  have goesOn' : ({ p with mode } : Place).scan.ended = false := by
    rw [scan']
    exact ended
  rw [layout_of_goesOn goesOn, layout_of_goesOn goesOn', Stretch.tokens_behind,
    Stretch.tokens_behind, scan, scan']
  exact congrArg _ (more _)

/-- Behind a line feed, a fresh line is lexed as at the start of a text. -/
theorem tokens_layout_of_isFresh {b : List Char} (fresh : Text.IsFresh b) (options : LexerOptions)
    (index : Nat) :
    (layout { mode := LineMode.ofText b, rest := b }).tokens options index =
      (Text.layout b).tokens options index := by
  obtain ⟨c, rest, rfl, noBlank, inside, noPunctuation⟩ := fresh.exists_cons
  by_cases header : c = '@' ∨ c = '['
  · have mode : LineMode.ofText (c :: rest) = .header := by
      rcases header with rfl | rfl <;> simp [LineMode.ofText, noBlank, inside]
    rw [mode]
    rfl
  · simp only [not_or] at header
    have mode : LineMode.ofText (c :: rest) = .item := by
      simp [LineMode.ofText, noBlank, inside, header]
    have line : Text.line (c :: rest) = c :: Text.line rest := by
      simp [Text.line, inside]
    have same : LineMode.item.read (Text.line (c :: rest)) =
        LineMode.header.read (Text.line (c :: rest)) := by
      simp [LineMode.read, LineMode.readHeader, line, header, noPunctuation]
    have all : (LineMode.header.read (Text.line (c :: rest))).source = Text.line (c :: rest) := by
      rw [← same]
      exact Item.source_read _
    rw [mode]
    exact tokens_layout_of_read (p := { rest := c :: rest }) rfl noBlank inside same all options
      index

end Place

/-! ## Tokens of both parts -/

/-- A token of a text when more text stands in front of it. -/
def Token.shift (offset : Nat) (t : Token) : Token :=
  { t with span := ⟨t.span.start + offset, t.span.stop + offset⟩ }

/-- A token that takes the line feed at an offset, cut back to what is in front of it. -/
def Token.cutBack (offset : Nat) (t : Token) : Token :=
  if t.span.stop = offset + 1 then
    { t with span := ⟨t.span.start, offset⟩, value := String.ofList t.value.toList.dropLast }
  else t

theorem Cell.tokens_shift (options : LexerOptions) (offset index : Nat) (cells : List Cell) :
    tokens options (index + offset) cells =
      (tokens options index cells).map (Token.shift offset) := by
  induction cells generalizing index with
  | nil => rfl
  | cons c cells ih =>
    have own : (c.token? options (index + offset)).toList =
        (c.token? options index).toList.map (Token.shift offset) := by
      unfold token?
      cases c.piece.mark with
      | none => rfl
      | some mark =>
        dsimp only
        split
        · simp [Token.shift, Nat.add_right_comm]
        · rfl
    rw [tokens, tokens, List.map_append, own, Nat.add_right_comm, ih]

theorem Stretch.tokens_shift (options : LexerOptions) (offset index : Nat) (s : Stretch) :
    s.tokens options (index + offset) = (s.tokens options index).map (Token.shift offset) := by
  unfold Stretch.tokens
  rw [List.map_append, Cell.tokens_shift]
  simp [Token.shift, Span.empty, Nat.add_right_comm]

theorem Token.cutBack_of_le {t : Token} {offset : Nat} (h : t.span.stop ≤ offset) :
    t.cutBack offset = t := by
  unfold cutBack
  rw [if_neg (by omega)]

/-- How a token in front of the line feed lies. Only an error, as an open
literal is, takes the line feed. -/
def Token.InFront (offset : Nat) (t : Token) : Prop :=
  t.span.start ≤ offset ∧ (t.span.stop ≤ offset ∨
    t.kind = .error ∧ t.span.stop = offset + 1 ∧ ∃ value, t.value = value ++ "\n")

namespace Cell

theorem tokens_silent {cells : List Cell} (silent : ∀ c ∈ cells, c.piece = .silent [])
    (options : LexerOptions) (index : Nat) :
    tokens options index cells = [] ∧ source cells = [] := by
  induction cells generalizing index with
  | nil => exact ⟨rfl, rfl⟩
  | cons c cells ih =>
    obtain ⟨own, silent⟩ := List.forall_mem_cons.mp silent
    obtain ⟨none, empty⟩ := ih silent (index + Text.width c.piece.chars)
    constructor
    · rw [tokens, none]
      simp [token?, own, Piece.silent]
    · rw [source_cons, empty, own]
      rfl

/-- Tokens of cells in front of a line feed. -/
theorem inFront_tokens {cells : List Cell} {index offset : Nat}
    (le : index + Text.width (source cells) ≤ offset) :
    (∀ t ∈ tokens {} index cells, Token.InFront offset t) ∧
      (tokens {} index cells).map (Token.cutBack offset) = tokens {} index cells := by
  have stop : ∀ t ∈ tokens {} index cells, t.span.start ≤ offset ∧ t.span.stop ≤ offset := by
    intro t ht
    have bounds := bounds_of_mem_tokens ht
    omega
  constructor
  · intro t ht
    exact ⟨(stop t ht).1, .inl (stop t ht).2⟩
  · rw [List.map_congr_left (g := id), List.map_id]
    intro t ht
    exact Token.cutBack_of_le (stop t ht).2

/-- The token of an open literal with the line feed, and of the same without it. -/
theorem inFront_openLiteral (context : TokenKind) (chars : List Char) (depth index : Nat) :
    (∀ t ∈ tokens {} index [⟨.valued .error context (chars ++ ['\n']) (chars ++ ['\n']), depth⟩],
      Token.InFront (index + Text.width chars) t) ∧
      (tokens {} index [⟨.valued .error context (chars ++ ['\n']) (chars ++ ['\n']), depth⟩]).map
        (Token.cutBack (index + Text.width chars)) =
          tokens {} index [⟨.raw .error context chars, depth⟩] := by
  have taken : index + Text.width (chars ++ ['\n']) = index + Text.width chars + 1 :=
    congrArg (index + ·) (Text.width_append chars ['\n'])
  have broken : tokens {} index
      [⟨.valued .error context (chars ++ ['\n']) (chars ++ ['\n']), depth⟩] =
        [⟨⟨index, index + Text.width (chars ++ ['\n'])⟩, depth, .error, context,
          String.ofList (chars ++ ['\n'])⟩] := rfl
  have whole : tokens {} index [⟨.raw .error context chars, depth⟩] =
      [⟨⟨index, index + Text.width chars⟩, depth, .error, context, String.ofList chars⟩] := rfl
  rw [broken, whole, taken]
  constructor
  · intro t ht
    obtain rfl := List.mem_singleton.mp ht
    refine ⟨Nat.le_add_right _ _, .inr ⟨rfl, rfl, String.ofList chars, ?_⟩⟩
    exact String.ofList_append
  · simp [Token.cutBack]

theorem Broken.tokens {a b : List Cell} (h : Broken a b) (index : Nat) :
    Text.width (source b) = Text.width (source a) + 1 ∧
      (∀ t ∈ Cell.tokens {} index b, Token.InFront (index + Text.width (source a)) t) ∧
      (Cell.tokens {} index b).map (Token.cutBack (index + Text.width (source a))) =
        Cell.tokens {} index a := by
  cases h with
  | @newLine cells behind silent depth =>
    obtain ⟨none, empty⟩ := tokens_silent silent {} (index + Text.width (source cells))
    have whole : source (cells ++ behind) = source cells := by
      rw [source_append, empty, List.append_nil]
    have newLine : Cell.tokens {} (index + Text.width (source cells))
        [⟨.valued .newLine .none ['\n'] ['\n'], depth⟩] = [] := rfl
    obtain ⟨inFront, same⟩ := inFront_tokens (Nat.le_refl (index + Text.width (source cells)))
    rw [whole, tokens_append, tokens_append, newLine, none, List.append_nil]
    refine ⟨?_, inFront, same⟩
    rw [source_append, Text.width_append]
    rfl
  | @openLiteral cells behind silent context chars depth =>
    obtain ⟨none, empty⟩ := tokens_silent silent {}
      (index + Text.width (source cells) + Text.width chars)
    have whole : source (cells ++ ⟨.raw .error context chars, depth⟩ :: behind) =
        source cells ++ chars := by
      rw [source_append, source_cons, empty, List.append_nil]
      rfl
    have alone : Cell.tokens {} (index + Text.width (source cells))
        (⟨.raw .error context chars, depth⟩ :: behind) =
          Cell.tokens {} (index + Text.width (source cells))
            [⟨.raw .error context chars, depth⟩] := by
      rw [Cell.tokens]
      exact congrArg (_ ++ ·) none
    have le : index + Text.width (source cells) ≤
        index + Text.width (source cells) + Text.width chars := Nat.le_add_right _ _
    obtain ⟨inFront, same⟩ := inFront_tokens le
    obtain ⟨last, cut⟩ :=
      inFront_openLiteral context chars depth (index + Text.width (source cells))
    rw [whole, Text.width_append, ← Nat.add_assoc, tokens_append, tokens_append, alone,
      List.map_append, same, cut]
    refine ⟨?_, ?_, rfl⟩
    · rw [source_append, Text.width_append, source_cons, source_nil, List.append_nil,
        Piece.chars_valued, Text.width_append, Nat.add_assoc]
      rfl
    · intro t ht
      rcases List.mem_append.mp ht with ht | ht
      · exact inFront t ht
      · exact last t ht

end Cell

theorem Stretch.lineStart_of_isFresh {b : List Char} (fresh : Text.IsFresh b) (nesting : Nesting) :
    lineStart nesting b = { cells := [], place := { mode := LineMode.ofText b, rest := b } } := by
  obtain ⟨c, rest, rfl, noBlank, inside, -⟩ := fresh.exists_cons
  by_cases header : c = '@' ∨ c = '['
  · simp [lineStart, LineMode.ofText, noBlank, inside, header]
  · simp [lineStart, LineMode.ofText, noBlank, inside, header]

theorem Text.source_layout_of_notMem {a : List Char} (noEnd : endOfText ∉ a) :
    source (layout a).cells = a := by
  rw [source_layout_eq, List.takeWhile_eq_self_iff]
  intro c hc
  apply decide_eq_true
  rintro rfl
  exact noEnd hc

/-- Tokens that start up to an offset and tokens that start behind it. -/
theorem filter_start {early late : List Token} {offset : Nat}
    (first : ∀ t ∈ early, t.span.start ≤ offset) (second : ∀ t ∈ late, offset < t.span.start) :
    (early ++ late).filter (·.span.start ≤ offset) = early ∧
      (early ++ late).filter (offset + 1 ≤ ·.span.start) = late := by
  constructor
  · have kept : early.filter (·.span.start ≤ offset) = early := by
      apply List.filter_eq_self.mpr
      intro t ht
      exact decide_eq_true (first t ht)
    have dropped : late.filter (·.span.start ≤ offset) = [] := by
      apply List.filter_eq_nil_iff.mpr
      intro t ht le
      exact Nat.not_le_of_lt (second t ht) (of_decide_eq_true le)
    rw [List.filter_append, kept, dropped, List.append_nil]
  · have kept : late.filter (offset + 1 ≤ ·.span.start) = late := by
      apply List.filter_eq_self.mpr
      intro t ht
      exact decide_eq_true (second t ht)
    have dropped : early.filter (offset + 1 ≤ ·.span.start) = [] := by
      apply List.filter_eq_nil_iff.mpr
      intro t ht lt
      exact Nat.not_le_of_lt (of_decide_eq_true lt) (first t ht)
    rw [List.filter_append, kept, dropped, List.nil_append]

theorem filter_tokenize (a : String) : (tokenize a).filter (·.kind ≠ .endOfFile) =
    Cell.tokens {} 0 (Text.layout a.toList).cells := by
  have kinds : ∀ t ∈ Cell.tokens {} 0 (Text.layout a.toList).cells, t.kind ≠ .endOfFile :=
    Cell.kind_ne_endOfFile (Text.forms_layout a.toList)
  rw [tokenize, Lexer.tokens_ofText, Stretch.tokens, List.filter_append,
    List.filter_eq_self.mpr (by simpa using kinds)]
  simp

/-- The tokens in front of a line feed, and the tokens behind it. -/
theorem tokenize_append {a b : String} (noEnd : endOfText ∉ a.toList)
    (seam : Text.Seam a.toList ('\n' :: b.toList)) (fresh : Text.IsFresh b.toList) :
    ∃ cells, Cell.Broken (Text.layout a.toList).cells cells ∧
      tokenize (a ++ "\n" ++ b) = Cell.tokens {} 0 cells ++
        (tokenize b).map (Token.shift (Text.width a.toList + 1)) := by
  obtain ⟨nesting, cells, broken, layout⟩ :=
    Place.layout_append (p := { rest := a.toList }) seam noEnd
  rw [Stretch.lineStart_of_isFresh fresh, List.append_nil] at layout
  refine ⟨cells, broken, ?_⟩
  have covered : source (Place.layout { rest := a.toList }).cells = a.toList :=
    Text.source_layout_of_notMem noEnd
  have wider := (broken.tokens 0).1
  have text : (a ++ "\n" ++ b).toList = a.toList ++ '\n' :: b.toList := by simp
  have whole : Text.layout (a.toList ++ '\n' :: b.toList) = _ := layout
  rw [covered] at wider
  rw [tokenize, tokenize, Lexer.tokens_ofText, Lexer.tokens_ofText, text,
    ← Stretch.tokens_shift, ← Place.tokens_layout_of_isFresh fresh, whole,
    Stretch.tokens_behind, wider, Nat.zero_add]

/-- A line feed is a fresh start. The tokens behind it are those of the text
behind it, and the tokens in front of it are those of the text in front of it,
but that an open literal takes the line feed as well. -/
theorem tokenize_append_lineFeed {a b : String} (noEnd : endOfText ∉ a.toList)
    (noReturn : a.toList.getLast? ≠ some '\r') (fresh : Text.IsFresh b.toList) :
    let width := Text.width a.toList
    let whole := tokenize (a ++ "\n" ++ b)
    let early := whole.filter (·.span.start ≤ width)
    let late := whole.filter (width + 1 ≤ ·.span.start)
    whole = early ++ late ∧
      late = (tokenize b).map (Token.shift (width + 1)) ∧
      early.map (Token.cutBack width) = (tokenize a).filter (·.kind ≠ .endOfFile) ∧
      ∀ t ∈ early, t.span.stop ≤ width ∨
        t.kind = .error ∧ t.span.stop = width + 1 ∧ ∃ value, t.value = value ++ "\n" := by
  have seam : Text.Seam a.toList ('\n' :: b.toList) := by
    intro meets
    exact noReturn meets.1
  obtain ⟨cells, broken, split⟩ := tokenize_append noEnd seam fresh
  obtain ⟨-, inFront, cutBack⟩ := broken.tokens 0
  rw [Text.source_layout_of_notMem noEnd, Nat.zero_add] at inFront cutBack
  intro width whole early late
  have first : ∀ t ∈ Cell.tokens {} 0 cells, t.span.start ≤ width := by
    intro t ht
    exact (inFront t ht).1
  have second : ∀ t ∈ (tokenize b).map (Token.shift (width + 1)), width < t.span.start := by
    intro t ht
    obtain ⟨u, -, rfl⟩ := List.mem_map.mp ht
    exact Nat.le_add_left _ _
  have parts : early = _ ∧ late = _ := split ▸ filter_start first second
  obtain ⟨front, back⟩ := parts
  refine ⟨?_, back, ?_, ?_⟩
  · rw [front, back]
    exact split
  · rw [front, filter_tokenize]
    exact cutBack
  · intro t ht
    rw [front] at ht
    exact (inFront t ht).2

/-- Behind an argument list and a literal that were left open. -/
theorem tokenize_append_lineFeed_open :
    endOfText ∉ "@a(\"x".toList ∧ "@a(\"x".toList.getLast? ≠ some '\r' ∧
      Text.IsFresh "[s]".toList ∧
      (tokenize ("@a(\"x" ++ "\n" ++ "[s]")).filter
          (Text.width "@a(\"x".toList + 1 ≤ ·.span.start) =
        (tokenize "[s]").map (Token.shift (Text.width "@a(\"x".toList + 1)) := by
  have noEnd : endOfText ∉ "@a(\"x".toList := by simp [endOfText]
  have noReturn : "@a(\"x".toList.getLast? ≠ some '\r' := by simp
  have fresh : Text.IsFresh "[s]".toList := by simp [Text.IsFresh, Text.front, endOfText]
  exact ⟨noEnd, noReturn, fresh, (tokenize_append_lineFeed noEnd noReturn fresh).2.1⟩

end RuleLexer
