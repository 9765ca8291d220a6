/-!
# JSON values

The data that a metadata object may hold and that rendered output is made of.
Members keep their order and may repeat a name; of repeated members the last
one counts.
-/

namespace Lifeline.Json

/-- A JSON value. -/
inductive Value where
  | null
  | bool (b : Bool)
  /-- A number written without fraction and exponent. -/
  | integer (n : Int)
  /-- Any other number, infinities and the undefined number included, as it is written. -/
  | real (literal : String)
  | string (s : String)
  | array (items : List Value)
  | object (members : List (String × Value))

/-- The member that counts under a name: the last one. -/
def member? (name : String) (members : List (String × Value)) : Option Value :=
  (members.reverse.find? (·.1 == name)).map (·.2)

/-- The value is a string, and this is its text. -/
def Value.string? : Value → Option String
  | .string s => some s
  | _ => none

/-- A string, or nothing. -/
def Value.ofString? : Option String → Value
  | some s => .string s
  | none => .null

end Lifeline.Json
