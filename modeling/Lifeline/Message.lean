import Lifeline.Annotations
import Lifeline.Arrow
import Lifeline.Bracket

/-!
# Messages

A message goes from one participant to another. It is written on one line: the
ends with the arrow between them, the text behind a colon, and the annotations
in a fixed order.
-/

namespace Lifeline

open Text

/-- A message of a diagram. -/
structure Message where
  source : String
  target : String
  arrow : Arrow := ⟨.solid, .filled⟩
  text : String := ""
  annotations : Annotations := {}
  deriving DecidableEq, Repr

/-- A tag with a value as it is written, in the preferred brackets where they hold the value
together. -/
def writeTag (name : String) (value : List Char) (preferred : Bracket) : List Char :=
  '@' :: name.toList ++ (preferred.choose value).enclose value

namespace Annotations

/-- The path as it is written, behind its method if it has one. -/
def pathText (r : Annotations) (path : String) : List Char :=
  match r.method with
  | some method =>
    if method.isEmpty then path.toList else method.toList ++ ' ' :: path.toList
  | none => path.toList

/-- A text, unless it is missing or empty. -/
def present? (s : Option String) : Option String := s.filter (!·.isEmpty)

/-- The value that is written for a field, if the field is written at all. -/
def valueText? (r : Annotations) : Field → Option (List Char)
  | .path => (present? r.path).map r.pathText
  | .type => (present? r.requestType).map String.toList
  | .timeout => r.timeout.map String.toList
  | .queue => r.queue.map String.toList
  | .flow =>
    if r.flows.isEmpty then none else some (joinWith [',', ' '] (r.flows.map String.toList))
  | .request => r.request.map fun p => p.text.toList
  | .response => r.response.map fun p => p.text.toList

/-- Payloads are written in curly brackets where possible, all other values in round ones. -/
def preferred : Field → Bracket
  | .request | .response => .curly
  | _ => .round

/-- The annotation that is written for a field. -/
def written (r : Annotations) (f : Field) : List (List Char) :=
  ((r.valueText? f).map fun v => writeTag f.name v (preferred f)).toList

/-- All annotations that are written, in order; the mark of an asynchronous message follows the
request type. -/
def parts (r : Annotations) : List (List Char) :=
  r.written .path ++ r.written .type ++ (if r.isAsync then [['@', 'a', 's', 'y', 'n', 'c']] else [])
    ++ r.written .timeout ++ r.written .queue ++ r.written .flow ++ r.written .request
    ++ r.written .response

end Annotations

namespace Message

/-- The ends, the arrow and the text of a message as they are written. -/
def head (m : Message) : List Char :=
  m.source.toList ++ m.arrow.chars ++ m.target.toList ++ ':' :: ' ' :: m.text.toList

/-- A message as one line of a source. -/
def lineChars (m : Message) : List Char := joinWith [' '] (m.head :: m.annotations.parts)

/-- A message as one line of a source, as a string. -/
def line (m : Message) : String := String.ofList m.lineChars

end Message

end Lifeline
