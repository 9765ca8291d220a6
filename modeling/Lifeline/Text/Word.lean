/-!
# Words

The letters that names are made of, all of them ASCII: a name starts with a
letter or an underscore and goes on with letters, digits and underscores.
-/

namespace Lifeline.Text

/-- A character that may start a word. -/
def isWordStart (c : Char) : Bool := c.isAlpha || c == '_'

/-- A character that may stand in a word. -/
def isWordChar (c : Char) : Bool := c.isAlphanum || c == '_'

theorem isWordChar_of_isWordStart {c : Char} (h : isWordStart c = true) : isWordChar c = true := by
  simp only [isWordStart, isWordChar, Char.isAlphanum, Bool.or_eq_true] at h ⊢
  exact h.imp_left .inl

end Lifeline.Text
