import Lifeline.Failure
import Lifeline.Text.Search

/-!
# Arrows

A message arrow is a line and a head. There are four arrows and four ways of
writing them; reading what was written gives the arrow back.
-/

namespace Lifeline

/-- How the line of an arrow is drawn. -/
inductive LineStyle where
  | solid
  | dashed
  deriving DecidableEq, Repr

/-- How the head of an arrow is drawn. -/
inductive ArrowHead where
  /-- An open head, of two strokes. -/
  | stroked
  | filled
  deriving DecidableEq, Repr

/-- The word for a line style. -/
def LineStyle.word : LineStyle → String
  | .solid => "solid"
  | .dashed => "dashed"

/-- The word for an arrow head. -/
def ArrowHead.word : ArrowHead → String
  | .stroked => "open"
  | .filled => "filled"

/-- All line styles. -/
def LineStyle.all : List LineStyle := [.solid, .dashed]

/-- All arrow heads. -/
def ArrowHead.all : List ArrowHead := [.stroked, .filled]

/-- The line style that a word names. -/
def LineStyle.ofWord (word : String) : Except Failure LineStyle :=
  Vocabulary.lineStyle.lookup all LineStyle.word word

/-- The arrow head that a word names. -/
def ArrowHead.ofWord (word : String) : Except Failure ArrowHead :=
  Vocabulary.arrowHead.lookup all ArrowHead.word word

/-- The arrow of a message. -/
structure Arrow where
  /-- How its line is drawn. -/
  line : LineStyle
  /-- How its head is drawn. -/
  head : ArrowHead
  deriving DecidableEq, Repr

/-- The arrow as it is written. -/
def Arrow.chars : Arrow → List Char
  | ⟨.solid, .stroked⟩ => ['-', '>']
  | ⟨.solid, .filled⟩ => ['-', '>', '>']
  | ⟨.dashed, .stroked⟩ => ['-', '-', '>']
  | ⟨.dashed, .filled⟩ => ['-', '-', '>', '>']

/-- The arrow as it is written, as a string. -/
def Arrow.literal (a : Arrow) : String := String.ofList a.chars

/-- The arrow that a text means: two dashes draw a dashed line, two points fill the head. -/
def Arrow.ofLiteral (literal : String) : Arrow where
  line := if Text.occurs ['-', '-'] literal.toList then .dashed else .solid
  head := if Text.occurs ['>', '>'] literal.toList then .filled else .stroked

theorem Arrow.ofLiteral_literal (a : Arrow) : Arrow.ofLiteral a.literal = a := by
  rcases a with ⟨line, head⟩
  cases line <;> cases head <;> rfl

/-- The arrows, longer texts before the texts they start with. -/
def Arrow.longestFirst : List Arrow :=
  [⟨.dashed, .filled⟩, ⟨.solid, .filled⟩, ⟨.dashed, .stroked⟩, ⟨.solid, .stroked⟩]

/-- The longest arrow at the front of a text, and the text behind it. -/
def Arrow.scan (s : List Char) : Option (Arrow × List Char) :=
  Arrow.longestFirst.findSome? fun a => (Text.after? a.chars s).map (a, ·)

/-- A scanned arrow stands at the front of the text. -/
theorem Arrow.scan_append {s rest : List Char} {a : Arrow} (h : Arrow.scan s = some (a, rest)) :
    a.chars ++ rest = s := by
  obtain ⟨b, _, hb⟩ := List.exists_of_findSome?_eq_some h
  obtain ⟨r, hr, he⟩ := Option.map_eq_some_iff.mp hb
  cases he
  exact (Text.after?_eq_some_iff.mp hr).symm

end Lifeline
