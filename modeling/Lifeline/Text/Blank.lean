/-!
# Blank characters

The white space of the library: the control characters that separate fields and
lines, and every Unicode space. One set serves trimming, splitting a path from
its method and finding the indentation of a line.
-/

namespace Lifeline.Text

/-- White space by code point: controls 9-13 and 28-31, the spaces, and the line separators. -/
def isBlank (c : Char) : Bool :=
  let n := c.toNat
  (0x09 ≤ n && n ≤ 0x0D) || (0x1C ≤ n && n ≤ 0x20) || n == 0x85 || n == 0xA0 || n == 0x1680 ||
    (0x2000 ≤ n && n ≤ 0x200A) || n == 0x2028 || n == 0x2029 || n == 0x202F || n == 0x205F ||
    n == 0x3000

/-- Every blank that ASCII knows is a blank here. -/
theorem isBlank_of_isWhitespace {c : Char} (h : c.isWhitespace = true) : isBlank c = true := by
  simp only [Char.isWhitespace, Bool.or_eq_true, decide_eq_true_eq] at h
  rcases h with ((rfl | rfl) | rfl) | rfl <;> decide

/-- The text without its leading blanks. -/
def trimStart (s : List Char) : List Char := s.dropWhile isBlank

/-- The text without its trailing blanks. -/
def trimEnd (s : List Char) : List Char := (s.reverse.dropWhile isBlank).reverse

/-- The text without blanks at either end. -/
def trim (s : List Char) : List Char := trimEnd (trimStart s)

/-- The leading run of blanks, which `trimStart` removes. -/
def indentation (s : List Char) : List Char := s.takeWhile isBlank

/-- Indentation and the remaining text make up the line. -/
theorem indentation_append_trimStart (s : List Char) : indentation s ++ trimStart s = s :=
  List.takeWhile_append_dropWhile

end Lifeline.Text
