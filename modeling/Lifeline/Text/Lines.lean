/-!
# Lines and other divided texts

A text divided at every occurrence of a separator, so that there is always at
least one part, possibly empty. Lines are the parts between line ends. Dividing
and joining are inverse, which is what makes editing by lines safe.
-/

namespace Lifeline.Text

/-- The parts of a text between the occurrences of `mark`. -/
def divide (mark : Char) : List Char → List (List Char)
  | [] => [[]]
  | c :: s =>
    if c = mark then [] :: divide mark s
    else match divide mark s with
      | [] => [[c]]
      | part :: parts => (c :: part) :: parts

/-- Joins texts with a mark between each two. -/
def joinWith (mark : List Char) : List (List Char) → List Char
  | [] => []
  | [part] => part
  | part :: parts => part ++ mark ++ joinWith mark parts

/-- A text has at least one part. -/
theorem divide_ne_nil (mark : Char) (s : List Char) : divide mark s ≠ [] := by
  cases s with
  | nil => simp [divide]
  | cons c s =>
    rw [divide]
    split
    · simp
    · split <;> simp

/-- Joining the parts of a text gives the text back. -/
theorem joinWith_divide (mark : Char) (s : List Char) : joinWith [mark] (divide mark s) = s := by
  induction s with
  | nil => rfl
  | cons c s ih =>
    rw [divide]
    cases hp : divide mark s with
    | nil => exact absurd hp (divide_ne_nil mark s)
    | cons part parts =>
      rw [hp] at ih
      split
      · next hc => simp [joinWith, ih, hc]
      · cases parts with
        | nil => simpa [joinWith] using ih
        | cons part' parts => simpa [joinWith] using ih

/-- A line of text, without its line end. -/
abbrev Line := List Char

/-- The lines of a text. -/
def lines (s : List Char) : List Line := divide '\n' s

/-- Puts lines back into one text, a line end between each two. -/
def unlines (ls : List Line) : List Char := joinWith ['\n'] ls

@[simp] theorem unlines_lines (s : List Char) : unlines (lines s) = s := joinWith_divide '\n' s

/-- The text with the line ends CR LF and CR written as LF. -/
def normalizeLineEnds : List Char → List Char
  | [] => []
  | '\r' :: '\n' :: s => '\n' :: normalizeLineEnds s
  | c :: s => (if c = '\r' then '\n' else c) :: normalizeLineEnds s

end Lifeline.Text
