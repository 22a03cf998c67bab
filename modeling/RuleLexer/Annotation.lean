import RuleLexer.ArgumentList

/-!
# Annotations

An annotation is an at sign with a name of letters, and it may have an argument
list directly behind the name.

* `source_read`: what was read is a first part of the text;
* `read_cons`: how a name is read with the character behind it.
-/

namespace RuleLexer.Annotation

/-- The at sign with its name. Without a name it stands for itself. -/
def head (name : List Char) : Piece :=
  if name = [] then .raw .atSign .none ['@'] else .valued .annotationName .none name ('@' :: name)

/-- Reads an annotation, from behind its at sign to the end of its name or list.
A name must end at a parenthesis, a blank or the end of the line; any other
character makes it an error that includes the character. -/
def read (behind : List Char) : LinePart :=
  let name := behind.takeWhile isAlphabetic
  match behind.dropWhile isAlphabetic with
  | [] => { pieces := [head name] }
  | c :: rest =>
    if c = '(' && name ≠ [] then
      let list := ArgumentList.read rest
      { list with pieces := head name :: list.pieces }
    else if c = '(' || isBlank c then { pieces := [head name] }
    else { pieces := [.valued .error .annotationName (name ++ [c]) ('@' :: name ++ [c])] }

@[simp]
theorem chars_head (name : List Char) : (head name).chars = '@' :: name := by
  unfold head
  split <;> simp_all

theorem source_read (behind : List Char) : (read behind).source <+: '@' :: behind := by
  have whole : behind.takeWhile isAlphabetic ++ behind.dropWhile isAlphabetic = behind :=
    List.takeWhile_append_dropWhile
  unfold read
  dsimp only
  split
  · rename_i h
    rw [h, List.append_nil] at whole
    exact ⟨[], by simp [LinePart.source, whole]⟩
  · rename_i c rest h
    rw [h] at whole
    generalize behind.takeWhile isAlphabetic = name at whole
    subst whole
    split
    · rename_i hc
      simp only [Bool.and_eq_true, decide_eq_true_eq] at hc
      obtain ⟨tail, htail⟩ := ArgumentList.source_read rest
      refine ⟨tail, ?_⟩
      simp only [LinePart.source] at htail ⊢
      simp [← htail, hc.1]
    · split
      · exact ⟨c :: rest, by simp [LinePart.source]⟩
      · exact ⟨rest, by simp [LinePart.source]⟩

theorem source_read_ne_nil (behind : List Char) : (read behind).source ≠ [] := by
  unfold read
  dsimp only
  split
  · simp [LinePart.source]
  · split
    · simp [LinePart.source]
    · split <;> simp [LinePart.source]

variable {name : List Char}

theorem read_name (alphabetic : ∀ c ∈ name, isAlphabetic c = true) :
    read name = { pieces := [head name] } := by
  have whole : (name ++ []).takeWhile isAlphabetic = name ++ [].takeWhile isAlphabetic :=
    List.takeWhile_append_of_pos alphabetic
  have none : (name ++ []).dropWhile isAlphabetic = [].dropWhile isAlphabetic :=
    List.dropWhile_append_of_pos alphabetic
  rw [List.takeWhile_nil, List.append_nil] at whole
  rw [List.dropWhile_nil, List.append_nil] at none
  rw [read, whole, none]

/-- A name that ends in front of a character. -/
theorem read_cons (alphabetic : ∀ c ∈ name, isAlphabetic c = true) {c : Char}
    (ends : isAlphabetic c = false) (rest : List Char) :
    read (name ++ c :: rest) =
      if c = '(' ∧ name ≠ [] then
        { ArgumentList.read rest with pieces := head name :: (ArgumentList.read rest).pieces }
      else if c = '(' ∨ isBlank c = true then { pieces := [head name] }
      else { pieces := [.valued .error .annotationName (name ++ [c]) ('@' :: name ++ [c])] } := by
  have before : (c :: rest).takeWhile isAlphabetic = [] := by simp [ends]
  have behind : (c :: rest).dropWhile isAlphabetic = c :: rest := by simp [ends]
  rw [read, List.takeWhile_append_of_pos alphabetic, List.dropWhile_append_of_pos alphabetic,
    before, behind, List.append_nil]
  simp

end RuleLexer.Annotation
