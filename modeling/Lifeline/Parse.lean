import Lifeline.Diagram
import Lifeline.Script
import Lifeline.Source

/-!
# From a source to its diagram

A source is cut into tokens, the tokens are read as statements, and the
statements make a diagram. A fault among the statements leaves no diagram.
-/

namespace Lifeline

namespace Diagram

/-- The failure of a fault in `tokens`: its position counts the tokens up to and with the
keyword. -/
def failureOf (tokens : List Token) (f : MissingName) : Failure :=
  .parse (.missingName f.keyword (tokens.length - f.behind.length))

/-- The diagram of a list of tokens, or the fault that stops it. -/
def ofTokens (tokens : List Token) : Except Failure Diagram :=
  let p := Script.ofTokens tokens
  match p.fault with
  | some f => .error (failureOf tokens f)
  | none => .ok (ofStatements p.statements).inferParticipants

end Diagram

/-- The type of diagram that is read when no other is asked for. -/
def defaultType : String := "sequence"

/-- Reads a source text as a diagram. -/
def parse (source : String) : Except Failure Diagram := do
  Diagram.ofTokens (← tokenize source)

/-- Reads a source text as a diagram of a given type; there is only one type. -/
def parseAs (type source : String) : Except Failure Diagram :=
  if type = defaultType then parse source else .error (.unsupportedDiagram type)

end Lifeline
