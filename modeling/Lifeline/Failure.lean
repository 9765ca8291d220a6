import Lifeline.Text.Integer
import Lifeline.Text.Quoted

/-!
# Failures

Nearly every malformed text still yields a diagram. What remains as a failure is
listed here, each cause with the one wording it is reported in.
-/

namespace Lifeline

/-- A sequence of tokens that has no sensible reading. -/
structure ParseError where
  /-- What was expected. -/
  message : String
  /-- The number of tokens read when the error was found, where it is known. -/
  position : Option Int
  deriving DecidableEq, Repr

namespace ParseError

/-- A participant keyword without a name behind it; `position` counts the keyword. -/
def missingName (keyword : String) (position : Nat) : ParseError where
  message := "Expected participant identifier after '" ++ keyword ++ "'"
  position := some position

/-- The error with its position. -/
def text (e : ParseError) : String :=
  match e.position with
  | some n => "token " ++ toString n ++ ": " ++ e.message
  | none => e.message

end ParseError

/-- The closed sets of words that values are named by. -/
inductive Vocabulary where
  | tokenKind
  | lineStyle
  | arrowHead
  | payloadKind
  deriving DecidableEq, Repr

/-- The name of a set of words in a report. -/
def Vocabulary.name : Vocabulary → String
  | .tokenKind => "TokenKind"
  | .lineStyle => "LineStyle"
  | .arrowHead => "ArrowHead"
  | .payloadKind => "PayloadKind"

/-- Why a request has no result. -/
inductive Failure where
  /-- The tokens cannot be read. -/
  | parse (e : ParseError)
  /-- A metadata object holds an integer that is too long to convert. -/
  | numeralTooLong (digits : Nat)
  /-- A word that names nothing of its set. -/
  | unknownWord (set : Vocabulary) (word : String)
  /-- There is no such type of diagram. -/
  | unsupportedDiagram (type : String)
  deriving DecidableEq, Repr

/-- The wording of a failure. -/
def Failure.message : Failure → String
  | .parse e => e.text
  | .numeralTooLong digits =>
    "Exceeds the limit (" ++ toString Text.maxDigits ++
      " digits) for integer string conversion: value has " ++ toString digits ++
      " digits; use sys.set_int_max_str_digits() to increase the limit"
  | .unknownWord set word => Text.quoted word ++ " is not a valid " ++ set.name
  | .unsupportedDiagram type => "Unsupported diagram type: " ++ type

/-- The member of a set that a word names. -/
def Vocabulary.lookup {α : Type} (set : Vocabulary) (all : List α) (wordOf : α → String)
    (word : String) : Except Failure α :=
  match all.find? (wordOf · == word) with
  | some a => .ok a
  | none => .error (.unknownWord set word)

end Lifeline
