import Lifeline.Failure

/-!
# Payloads

What a request or a response carries is either described in place or referred
to. Which of the two a text is shows at its first characters.
-/

namespace Lifeline

/-- The data that a request or a response carries. -/
inductive Payload where
  /-- A reference to a description elsewhere. -/
  | reference (url : Option String)
  /-- The description itself. -/
  | inline (schema : Option String)
  deriving DecidableEq, Repr

namespace Payload

/-- The kinds of payload. -/
inductive Kind where
  | reference
  | inline
  deriving DecidableEq, Repr

/-- The word for a kind of payload. -/
def Kind.word : Kind → String
  | reference => "reference"
  | inline => "inline"

/-- All kinds of payload. -/
def Kind.all : List Kind := [reference, inline]

/-- The kind of payload that a word names. -/
def Kind.ofWord (word : String) : Except Failure Kind :=
  Vocabulary.payloadKind.lookup Kind.all Kind.word word

/-- The kind of a payload. -/
def kind : Payload → Kind
  | reference _ => .reference
  | inline _ => .inline

/-- What a reference starts with. -/
def referenceMarks : List (List Char) := ["http://".toList, "https://".toList, "#".toList]

/-- The payload that a text means: a reference if it starts like one. -/
def ofText (text : String) : Payload :=
  if referenceMarks.any fun mark => mark.isPrefixOf text.toList then reference (some text)
  else inline (some text)

/-- The text of a payload. -/
def text : Payload → String
  | reference t | inline t => t.getD ""

@[simp] theorem text_ofText (t : String) : (ofText t).text = t := by
  rw [ofText]
  split <;> rfl

end Payload

end Lifeline
