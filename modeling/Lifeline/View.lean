import Lifeline.Json.Writer
import Lifeline.Parse
import Lifeline.Wire

/-!
# Views of a source

A source is shown as its diagram, as its tokens or as their spans, each as one
JSON text. Beside the text there are the notices that came up on the way.
-/

namespace Lifeline

open Json (Value)

/-- What of a source is shown. -/
inductive View where
  | diagram
  | tokens
  | spans
  deriving DecidableEq, Repr

/-- The view that a word asks for; every unknown word asks for the diagram. -/
def View.ofWord (word : String) : View :=
  if word = "tokens" then .tokens else if word = "spans" then .spans else .diagram

/-- A view of a source as a JSON value. -/
def View.value (v : View) (source : String) : Except Failure Value :=
  match v with
  | .diagram => (parse source).map Diagram.toJson
  | .tokens => (tokenize source).map fun ts => .array (ts.map Token.toJson)
  | .spans => (tokenSpans source).map fun ss => .array (ss.map Span.toJson)

/-- Why a view of a source has no text. -/
inductive View.Fault where
  /-- There is no view of the source. -/
  | source (f : Failure)
  /-- Lines cannot be indented that far, in either direction. -/
  | indent
  deriving DecidableEq, Repr

/-- A view of a source as a text. The indentation is looked at last. -/
def View.render (v : View) (indent : Option Int) (source : String) : Except View.Fault String :=
  match v.value source with
  | .error f => .error (.source f)
  | .ok value =>
    match Json.Layout.ofIndent? indent with
    | some layout => .ok (value.render layout)
    | none => .error .indent

/-- The notices that a view of a source gives: those of its tokens, then those of its
statements. -/
def View.notices (v : View) (source : String) : List Notice :=
  Source.notices source.toList ++
    match v, tokenize source with
    | .diagram, .ok ts => (Script.ofTokens ts).notices
    | _, _ => []

end Lifeline
