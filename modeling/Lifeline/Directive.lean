import Lifeline.Failure
import Lifeline.Json.Reader
import Lifeline.Notice
import Lifeline.Text.Blank
import Lifeline.Text.Search
import Lifeline.Text.Word

/-!
# Directives

A run that starts with `%%` carries metadata about the diagram, declares a flow
of the legend, or is a plain comment. Whatever is malformed counts as a comment,
so that a directive being typed never stands in the way of the diagram.
-/

namespace Lifeline

open Text

/-- What a diagram says about itself. -/
structure Metadata where
  /-- The system that is described. -/
  system : Option String := none
  /-- The version of the description. -/
  version : Option String := none
  deriving DecidableEq, Repr

/-- The metadata among the members of an object: the strings called `system` and `version`. -/
def Metadata.ofMembers (members : List (String × Json.Value)) : Metadata where
  system := (Json.member? "system" members).bind Json.Value.string?
  version := (Json.member? "version" members).bind Json.Value.string?

/-- A flow of the legend. -/
structure Flow where
  /-- The name by which messages refer to the flow. -/
  id : String
  /-- The name that is shown. -/
  displayName : String
  /-- The color it is drawn in. -/
  color : Option String := none
  deriving DecidableEq, Repr

/-- The meaning of one directive. -/
inductive Directive where
  | metadata (data : Metadata)
  | flow (entry : Flow)
  /-- A comment; `why` tells which other directive it failed to be. -/
  | comment (text : String) (why : Option Degradation)
  deriving DecidableEq, Repr

namespace Directive

/-- What closes a metadata directive. -/
def terminator : List Char := ['\x7d', '%', '%']

/-- The text of a directive as a comment. -/
def commentText (text : List Char) : String := String.ofList (trim (text.drop 2))

/-- The object in the body of a metadata directive: behind `init` and a colon, from its opening
brace to the closing brace that ends the body. -/
def objectText? (body : List Char) : Option (List Char) := do
  let s ← after? ['i', 'n', 'i', 't'] (trimStart body)
  let s ← after? [':'] (trimStart s)
  let object := trim s
  if object.head? = some '\x7b' ∧ object.getLast? = some '\x7d' then some object else none

/-- Reads the object of a metadata directive whose body is `body`. -/
def readObject (body object : List Char) : Except Failure Directive :=
  match Json.read object with
  | .ok (.object members) => .ok (.metadata (.ofMembers members))
  | .error (.numeralTooLong digits) => .error (.numeralTooLong digits)
  | _ => .ok (.comment (String.ofList body) (some .malformedObject))

/-- Reads a text that starts as a metadata directive. -/
def readMetadata (text : List Char) : Except Failure Directive :=
  if text.length < 6 || !terminator.isSuffixOf text then
    .ok (.comment (commentText text) (some .noTerminator))
  else
    let body := (text.drop 3).take (text.length - 6)
    match objectText? body with
    | some object => readObject body object
    | none => .ok (.comment (String.ofList body) (some .noObject))

/-- The text starts as a declaration of a flow: `%%flow` and a space or tab. -/
def isFlow (text : List Char) : Bool :=
  match after? ['%', '%', 'f', 'l', 'o', 'w'] text with
  | some (c :: _) => c == ' ' || c == '\t'
  | _ => false

/-- The text from its first character that is neither space nor tab. -/
def skipGap (s : List Char) : List Char := s.dropWhile fun c => c == ' ' || c == '\t'

/-- The display name of a flow, with the text behind it: quoted text, or else the name of the
flow. A quote that is not closed runs to the end. -/
def displayName (id s : List Char) : List Char × List Char :=
  match s with
  | '"' :: s =>
    match cut ['"'] s with
    | some (name, rest) => (name, skipGap rest)
    | none => (s, [])
  | s => (id, s)

/-- A color written as a call: a function name with its bracket, and arguments that run to the
closing bracket or to the end. -/
def callColor? (function s : List Char) : Option (List Char) :=
  (after? function s).map fun arguments =>
    match cut [')'] arguments with
    | some (inside, _) => function ++ inside ++ [')']
    | none => function ++ arguments

/-- A color written as a word. -/
def wordColor? (s : List Char) : Option (List Char) :=
  let word := s.takeWhile Char.isAlpha
  if word.isEmpty then none else some word

/-- The color at the front of a text: hexadecimal digits behind `#`, a call of `rgb` or `rgba`,
or a word. -/
def color? (s : List Char) : Option (List Char) :=
  match s with
  | '#' :: s => some ('#' :: s.takeWhile fun c => (hexValue? c).isSome)
  | s =>
    (callColor? ['r', 'g', 'b', '('] s).or ((callColor? ['r', 'g', 'b', 'a', '('] s).or
      (wordColor? s))

/-- Reads a text that starts as a declaration of a flow; only its first line counts. -/
def readFlow (text : List Char) : Directive :=
  let s := skipGap ((text.takeWhile (· != '\n')).drop 6)
  let id := s.takeWhile isWordChar
  if id.isEmpty then
    .comment (String.ofList (trim (['f', 'l', 'o', 'w', ' '] ++ trim s))) (some .noFlowId)
  else
    let (name, s) := displayName id (skipGap (s.dropWhile isWordChar))
    .flow ⟨String.ofList id, String.ofList name, (color? s).map String.ofList⟩

/-- Reads the text of one directive, from its `%%` on. -/
def read (text : List Char) : Except Failure Directive :=
  if ['%', '%', '\x7b'].isPrefixOf text then readMetadata text
  else if isFlow text then .ok (readFlow text)
  else .ok (.comment (commentText text) none)

/-- The notice that a directive gives: that it counts as a comment. -/
def notices : Directive → List Notice
  | comment _ (some why) => [.degraded why]
  | _ => []

end Directive

end Lifeline
