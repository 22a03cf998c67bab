import RuleLexer.Text.Line

/-!
# Lines within a text

How the line at the head of a text lies in the text:

* `ne_of_mem_line`: a line holds neither a line feed nor a NUL;
* `takeWhile_line`, `dropWhile_line`, `behindLine_dropWhile`: blanks at the head
  of a line are blanks at the head of the text;
* `seam_line`: a line does not end inside a line break, so nothing that is cut
  off within a line does (`Seam.append_line`).
-/

namespace RuleLexer.Text

theorem ne_of_mem_line {text : List Char} {c : Char} (h : c ∈ line text) :
    c ≠ '\n' ∧ c ≠ endOfText := by
  induction text with
  | nil => cases h
  | cons d rest ih =>
    simp only [line] at h
    split at h
    · cases h
    · rename_i inside
      rcases List.mem_cons.mp h with rfl | h
      · simp_all [atLineEnd]
      · exact ih h

theorem lineFeed_notMem_line (text : List Char) : '\n' ∉ line text := by
  intro mem
  exact (ne_of_mem_line mem).1 rfl

theorem atLineEnd_cons_blank {c : Char} (h : isBlank c = true) (rest : List Char) :
    atLineEnd (c :: rest) = false := by
  have : c = ' ' ∨ c = '\t' := by simpa [isBlank] using h
  rcases this with rfl | rfl <;> simp [atLineEnd, endOfText]

theorem behindLine_dropWhile (text : List Char) :
    behindLine (text.dropWhile isBlank) = behindLine text := by
  induction text with
  | nil => rfl
  | cons c rest ih =>
    by_cases h : isBlank c = true
    · simp [behindLine, atLineEnd_cons_blank h, h, ih]
    · simp [h]

theorem behindLine_of_atLineEnd {text : List Char} (h : atLineEnd text = true) :
    behindLine text = text := by
  have whole := line_append_behindLine text
  rwa [(line_eq_nil_iff text).mpr h, List.nil_append] at whole

theorem dropWhile_of_atLineEnd {text : List Char} (ends : atLineEnd text = true) :
    text.dropWhile isBlank = text := by
  cases text with
  | nil => rfl
  | cons c rest =>
    by_cases blank : isBlank c = true
    · rw [atLineEnd_cons_blank blank] at ends
      cases ends
    · simp [blank]

theorem isBlank_of_mem_takeWhile {text : List Char} {c : Char} (h : c ∈ text.takeWhile isBlank) :
    isBlank c = true :=
  List.all_eq_true.mp List.all_takeWhile c h

theorem isBlank_of_head?_dropWhile {text : List Char} {c : Char}
    (h : (text.dropWhile isBlank).head? = some c) : isBlank c = false := by
  have front := List.head?_dropWhile_not isBlank text
  rw [h] at front
  simpa using front

theorem takeWhile_line (text : List Char) :
    (line text).takeWhile isBlank = text.takeWhile isBlank := by
  induction text with
  | nil => rfl
  | cons c rest ih =>
    by_cases h : isBlank c = true
    · simp [line, atLineEnd_cons_blank h, h, ih]
    · simp only [line]
      split <;> simp [h]

theorem dropWhile_line (text : List Char) :
    (line text).dropWhile isBlank = line (text.dropWhile isBlank) := by
  induction text with
  | nil => rfl
  | cons c rest ih =>
    by_cases h : isBlank c = true
    · simp [line, atLineEnd_cons_blank h, h, ih]
    · simp only [line, h, Bool.false_eq_true, not_false_eq_true, List.dropWhile_cons_of_neg]
      split <;> simp [h]

/-- Behind its blanks, a line that goes on begins with no blank. -/
theorem exists_line_dropWhile {text : List Char}
    (inside : atLineEnd (text.dropWhile isBlank) = false) :
    ∃ c rest, line (text.dropWhile isBlank) = c :: rest ∧ isBlank c = false := by
  have whole := line_append_behindLine (text.dropWhile isBlank)
  have nonempty : line (text.dropWhile isBlank) ≠ [] := by simp [line_eq_nil_iff, inside]
  obtain ⟨c, rest, front⟩ := List.exists_cons_of_ne_nil nonempty
  rw [front] at whole
  exact ⟨c, rest, front, isBlank_of_head?_dropWhile (congrArg List.head? whole).symm⟩

/-- What is left of a text behind a first part of its line. -/
theorem drop_of_line {text a b : List Char} (split : line text = a ++ b) :
    text.drop a.length = b ++ behindLine text := by
  have whole := line_append_behindLine text
  rw [split, List.append_assoc] at whole
  have left : (a ++ (b ++ behindLine text)).drop a.length = b ++ behindLine text := List.drop_left
  rwa [whole] at left

/-- The rest of a line is the line of what is left of the text. -/
theorem line_of_split {text a b : List Char} (split : line text = a ++ b) :
    line (b ++ behindLine text) = b := by
  induction a generalizing text with
  | nil =>
    have whole := line_append_behindLine text
    rw [List.nil_append] at split
    rw [← split, whole]
  | cons c a ih =>
    cases text with
    | nil => cases split
    | cons d rest =>
      simp only [line, behindLine] at split ⊢
      split at split
      · cases split
      · rename_i inside
        rw [if_neg inside]
        exact ih (List.cons.inj split).2

/-- Characters that end no line are a first part of the line. -/
theorem line_append_of_solid {a : List Char}
    (solid : ∀ c ∈ a, c ≠ '\n' ∧ c ≠ '\r' ∧ c ≠ endOfText) (b : List Char) :
    line (a ++ b) = a ++ line b ∧ behindLine (a ++ b) = behindLine b := by
  induction a with
  | nil => exact ⟨rfl, rfl⟩
  | cons c a ih =>
    obtain ⟨first, more⟩ := List.forall_mem_cons.mp solid
    obtain ⟨inLine, behind⟩ := ih more
    have inside : atLineEnd (c :: (a ++ b)) = false := by simp [atLineEnd, first]
    simp [line, behindLine, inside, inLine, behind]

/-- The first character as it is read, at the line end and within the line. -/
theorem front_cases (text : List Char) :
    (atLineEnd text = true ∧ ((front text).1 = '\n' ∨ (front text).1 = endOfText)) ∨
      ∃ c rest, text = c :: rest ∧ atLineEnd text = false ∧ (front text).1 = c ∧
        c ≠ '\n' ∧ c ≠ endOfText := by
  unfold front
  split
  · exact .inl ⟨rfl, .inr rfl⟩
  · exact .inl ⟨rfl, .inl rfl⟩
  · rename_i c rest noPair
    by_cases ends : c = '\n' ∨ c = endOfText
    · refine .inl ⟨?_, ends⟩
      rcases ends with rfl | rfl <;> simp [atLineEnd]
    · rw [not_or] at ends
      refine .inr ⟨c, rest, rfl, ?_, rfl, ends⟩
      have inside : c = '\r' → rest.head? ≠ some '\n' := by
        intro isReturn feed
        obtain ⟨tail, rfl⟩ := List.head?_eq_some_iff.mp feed
        exact noPair tail isReturn rfl
      by_cases isReturn : c = '\r'
      · simp [atLineEnd, ends, inside isReturn]
      · simp [atLineEnd, ends, isReturn]

/-! ## Line breaks -/

theorem lineBreak_cases (text : List Char) :
    lineBreak text = [] ∨ lineBreak text = ['\n'] ∨ lineBreak text = ['\r', '\n'] := by
  unfold lineBreak
  split <;> simp

theorem lineFeed_mem_lineBreak {text : List Char} (found : lineBreak text ≠ []) :
    '\n' ∈ lineBreak text := by
  rcases (lineBreak_cases text).resolve_left found with feed | pair
  · simp [feed]
  · simp [pair]

theorem lineBreak_prefix (text : List Char) : lineBreak text <+: text :=
  ⟨_, lineBreak_append_drop text⟩

theorem atLineEnd_of_lineBreak {text : List Char} (h : lineBreak text ≠ []) :
    atLineEnd text = true := by
  unfold lineBreak at h
  split at h <;> simp_all [atLineEnd]

theorem lineBreak_eq_nil {text : List Char} (inside : atLineEnd text = false) :
    lineBreak text = [] := by
  by_cases found : lineBreak text = []
  · exact found
  · rw [atLineEnd_of_lineBreak found] at inside
    cases inside

/-- Where a line ends without a line break, the text ends too. -/
theorem ends_of_lineBreak {text : List Char} (atEnd : atLineEnd text = true)
    (h : lineBreak text = []) : text = [] ∨ text.head? = some endOfText := by
  cases text with
  | nil => exact .inl rfl
  | cons c rest =>
    right
    have cases : (c = '\n' ∨ c = endOfText) ∨ (c = '\r' ∧ rest.head? = some '\n') := by
      simpa [atLineEnd] using atEnd
    rcases cases with (rfl | rfl) | ⟨rfl, feed⟩
    · simp [lineBreak] at h
    · rfl
    · cases rest with
      | nil => simp at feed
      | cons d rest =>
        obtain rfl : d = '\n' := by simpa using feed
        simp [lineBreak] at h

/-! ## Seams -/

/-- Two texts in a row meet in no line break of two characters. -/
def Seam (before behind : List Char) : Prop :=
  ¬ (before.getLast? = some '\r' ∧ behind.head? = some '\n')

theorem Seam.nil (behind : List Char) : Seam [] behind := by simp [Seam]

theorem Seam.of_last {before : List Char} {c : Char} (h : before.getLast? = some c)
    (ne : c ≠ '\r') (behind : List Char) : Seam before behind := by
  simp [Seam, h, ne]

/-- Behind a line break, and behind the indentation of the next line, no line
break is cut. -/
theorem Seam.of_lineBreak {lineBreak indent : List Char}
    (isBreak : lineBreak = ['\n'] ∨ lineBreak = ['\r', '\n'])
    (blank : ∀ c ∈ indent, isBlank c = true) (before behind : List Char) :
    Seam (before ++ lineBreak ++ indent) behind := by
  cases hlast : indent.getLast? with
  | none =>
    obtain rfl := List.getLast?_eq_none_iff.mp hlast
    apply Seam.of_last (c := '\n')
    · rcases isBreak with rfl | rfl <;> simp
    · decide
  | some c =>
    have := blank c (List.mem_of_getLast? hlast)
    apply Seam.of_last (c := c)
    · rw [List.getLast?_append, hlast, Option.some_or]
    · rintro rfl
      cases this

theorem Seam.of_suffix {a b c : List Char} (h : Seam a c) (suffix : b <:+ a) : Seam b c := by
  obtain ⟨more, rfl⟩ := suffix
  rintro ⟨last, feed⟩
  exact h ⟨by rw [List.getLast?_append, last, Option.some_or], feed⟩

theorem Seam.of_first {a b c : List Char} (h : Seam a c) (isFirst : b <+: c) : Seam a b := by
  obtain ⟨more, rfl⟩ := isFirst
  rintro ⟨last, feed⟩
  exact h ⟨last, by rw [List.head?_append, feed, Option.some_or]⟩

theorem seam_singleton {c : Char} {rest : List Char} :
    Seam [c] rest ↔ ∀ tail, c = '\r' → rest = '\n' :: tail → False := by
  cases rest with
  | nil => simp [Seam]
  | cons d rest => simp +contextual [Seam]

theorem atLineEnd_cons {c : Char} {rest : List Char} (seam : Seam [c] rest) :
    atLineEnd (c :: rest) = (c = '\n' || c = endOfText) := by
  have noFeed : c = '\r' → rest.head? ≠ some '\n' := by simpa [Seam] using seam
  simp only [atLineEnd]
  by_cases isReturn : c = '\r'
  · simp [isReturn, noFeed isReturn]
  · simp [isReturn]

theorem lineBreak_cons {c : Char} {rest : List Char} (noFeed : c ≠ '\n') (seam : Seam [c] rest) :
    lineBreak (c :: rest) = [] := by
  obtain ⟨tail, whole⟩ := lineBreak_prefix (c :: rest)
  rcases lineBreak_cases (c :: rest) with none | feed | pair
  · exact none
  · rw [feed] at whole
    exact absurd (List.cons.inj whole).1.symm noFeed
  · rw [pair] at whole
    obtain ⟨isReturn, rest⟩ := List.cons.inj whole
    exact (seam_singleton.mp seam tail isReturn.symm rest.symm).elim

theorem seam_line (text : List Char) : Seam (line text) (behindLine text) := by
  induction text with
  | nil => exact .nil _
  | cons c rest ih =>
    simp only [line, behindLine]
    split
    · exact .nil _
    · rename_i inside
      rintro ⟨last, feed⟩
      cases h : line rest with
      | nil =>
        -- the next character is already at the line end, so it is the line feed itself
        have whole := line_append_behindLine rest
        rw [h, List.nil_append] at whole
        rw [whole] at feed
        simp_all [atLineEnd]
      | cons d more =>
        rw [h] at ih last
        exact ih ⟨by simpa using last, feed⟩

/-- A part of a line cuts no line break off, if none is cut in front of the line. -/
theorem Seam.append_line {before text a b : List Char} (h : Seam before text)
    (split : line text = a ++ b) : Seam (before ++ a) (b ++ behindLine text) := by
  rintro ⟨last, feed⟩
  cases b with
  | cons c b =>
    obtain rfl : c = '\n' := by simpa using feed
    exact (ne_of_mem_line (show '\n' ∈ line text by simp [split])).1 rfl
  | nil =>
    rw [List.append_nil] at split
    subst split
    rw [List.nil_append] at feed
    by_cases empty : line text = []
    · have whole := line_append_behindLine text
      rw [empty, List.nil_append] at whole
      rw [empty, List.append_nil] at last
      exact h ⟨last, whole ▸ feed⟩
    · have own := List.getLast?_eq_some_getLast empty
      rw [List.getLast?_append, own, Option.some_or] at last
      exact seam_line text ⟨own.trans last, feed⟩

end RuleLexer.Text
