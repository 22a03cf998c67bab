/-!
# Byte offsets

A text is a list of characters, but every offset into it counts the bytes of
its UTF-8 form. Here such an offset is turned into a cut between characters.

* `width_append`: widths add up;
* `cut_width_append`: a cut at the width of a first part gives that part;
* `slice?_width_append`: the slice between two cuts is what lies between them.
-/

namespace RuleLexer.Text

/-- Number of bytes of a text. -/
def width : List Char → Nat
  | [] => 0
  | c :: rest => c.utf8Size + width rest

/-- Cuts a text at a byte offset, which must not lie inside a character.
Beyond the end, all of the text lies before the cut. -/
def cut : Nat → List Char → Option (List Char × List Char)
  | 0, text => some ([], text)
  | _ + 1, [] => some ([], [])
  | n + 1, c :: rest =>
    if c.utf8Size ≤ n + 1 then
      (cut (n + 1 - c.utf8Size) rest).map fun (before, behind) => (c :: before, behind)
    else none

/-- The text between two byte offsets, if both are cuts of the text in order. -/
def slice? (text : List Char) (start stop : Nat) : Option (List Char) :=
  if start ≤ stop ∧ stop ≤ width text then do
    let (_, behind) ← cut start text
    let (between, _) ← cut (stop - start) behind
    return between
  else none

@[simp]
theorem width_nil : width [] = 0 := rfl

@[simp]
theorem width_cons (c : Char) (rest : List Char) : width (c :: rest) = c.utf8Size + width rest :=
  rfl

@[simp]
theorem width_append (a b : List Char) : width (a ++ b) = width a + width b := by
  induction a with
  | nil => simp
  | cons c a ih => simp [ih, Nat.add_assoc]

theorem width_eq_zero {text : List Char} : width text = 0 ↔ text = [] := by
  cases text with
  | nil => simp
  | cons c rest => have := c.utf8Size_pos; simp; omega

@[simp]
theorem cut_zero (text : List Char) : cut 0 text = some ([], text) := by
  cases text <;> rfl

@[simp]
theorem cut_nil (n : Nat) : cut n [] = some ([], []) := by
  cases n <;> rfl

theorem cut_cons {n : Nat} {c : Char} {rest : List Char} (h : n ≠ 0) :
    cut n (c :: rest) =
      if c.utf8Size ≤ n then
        (cut (n - c.utf8Size) rest).map fun (before, behind) => (c :: before, behind)
      else none := by
  cases n with
  | zero => exact absurd rfl h
  | succ n => rfl

theorem cut_width_append (a b : List Char) : cut (width a) (a ++ b) = some (a, b) := by
  induction a with
  | nil => simp
  | cons c a ih =>
    have := c.utf8Size_pos
    rw [List.cons_append, cut_cons (by simp; omega)]
    simp [ih]

theorem slice?_width_append (a b c : List Char) :
    slice? (a ++ b ++ c) (width a) (width a + width b) = some b := by
  have inside : width a ≤ width a + width b ∧ width a + width b ≤ width (a ++ b ++ c) := by
    simp
  rw [slice?, if_pos inside, List.append_assoc, cut_width_append]
  simp [cut_width_append]

/-- The slice up to a cut is what lies before it. -/
theorem slice?_zero_width (a b : List Char) : slice? (a ++ b) 0 (width a) = some a := by
  have between := slice?_width_append [] a b
  rwa [width_nil, Nat.zero_add, List.nil_append] at between

end RuleLexer.Text
