import Lifeline.Payload
import Lifeline.RequestPath
import Lifeline.Text.Lines
import Lifeline.Token

/-!
# Annotations of a message

A message carries one record of annotations, whichever annotations were written.
Each written annotation assigns its field, so of several for one field the last
one counts; what has no meaning changes nothing.
-/

namespace Lifeline

open Text

/-- The entries of a list that is separated by commas, without blanks and blank entries. -/
def splitFlows (value : List Char) : List (List Char) :=
  ((divide ',' value).map trim).filter (!·.isEmpty)

/-- What the annotations of a message say. -/
structure Annotations where
  path : Option String := none
  method : Option String := none
  requestType : Option String := none
  isAsync : Bool := false
  timeout : Option String := none
  queue : Option String := none
  flows : List String := []
  request : Option Payload := none
  response : Option Payload := none
  deriving DecidableEq, Repr

namespace Annotations

/-- The fields that an annotation with a value assigns. -/
inductive Field where
  | path
  | type
  | timeout
  | queue
  | flow
  | request
  | response
  deriving DecidableEq, Repr

namespace Field

/-- The name of the annotation that assigns a field. -/
def name : Field → String
  | path => "path"
  | type => "type"
  | timeout => "timeout"
  | queue => "queue"
  | flow => "flow"
  | request => "request"
  | response => "response"

/-- All fields. -/
def all : List Field := [path, type, timeout, queue, flow, request, response]

/-- The field that a name assigns. -/
def ofName? (name : String) : Option Field := all.find? (·.name == name)

@[simp] theorem ofName?_name (f : Field) : ofName? f.name = some f := by
  cases f <;> rfl

end Field

/-- A text that is not empty. -/
def nonempty? (s : List Char) : Option String :=
  if s.isEmpty then none else some (String.ofList s)

/-- Assigns a field from the value of its annotation. -/
def assign (r : Annotations) (f : Field) (value : String) : Annotations :=
  match f with
  | .path =>
    let (method, path) := splitPath value.toList
    { r with method := method.map String.ofList, path := nonempty? path }
  | .type => { r with requestType := nonempty? (upper (trim value.toList)) }
  | .timeout => { r with timeout := some value }
  | .queue => { r with queue := some value }
  | .flow => { r with flows := (splitFlows value.toList).map String.ofList }
  | .request => { r with request := some (.ofText value) }
  | .response => { r with response := some (.ofText value) }

end Annotations

/-- What an annotation does to a record. -/
inductive Effect where
  /-- The message is asynchronous, or it is not. -/
  | setAsync (isAsync : Bool)
  | assign (f : Annotations.Field) (value : String)
  /-- Nothing, for want of a value. -/
  | valueless
  /-- Nothing, for want of a meaning. -/
  | unknown
  deriving DecidableEq, Repr

/-- The effect of an annotation. A value is missed before the name is looked at. -/
def Tag.effect (a : Tag) : Effect :=
  if a.name = "sync" then .setAsync false
  else if a.name = "async" then .setAsync true
  else
    match a.value, Annotations.Field.ofName? a.name with
    | none, _ => .valueless
    | some value, some f => .assign f value
    | some _, none => .unknown

/-- The notice that an annotation without effect gives. -/
def Tag.notices (a : Tag) : List Notice :=
  match a.effect with
  | .valueless => [.valueless a.name]
  | .unknown => [.unknown a.name]
  | _ => []

namespace Annotations

/-- The record after one more annotation. -/
def apply (r : Annotations) (a : Tag) : Annotations :=
  match a.effect with
  | .setAsync isAsync => { r with isAsync }
  | .assign f value => r.assign f value
  | .valueless | .unknown => r

/-- The record that annotations make, in the order given. -/
def ofList (items : List Tag) : Annotations := items.foldl apply {}

/-- A flow of the legend counts as an annotation with the name of the flow and its display name
as the value; other tokens that are no annotations count as none. -/
def ofTokens (tokens : List Token) : Annotations :=
  ofList (tokens.filterMap fun
    | .tag item => some item
    | .flow entry => some ⟨entry.id, some entry.displayName⟩
    | _ => none)

end Annotations

end Lifeline
