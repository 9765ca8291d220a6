import Lifeline.Directive

/-!
# Tokens

The units that statements are read from. A token carries exactly what its kind
needs; its kind alone is what an editor colors by.
-/

namespace Lifeline

/-- One annotation as it is written: a name and perhaps a value. -/
structure Tag where
  name : String
  value : Option String := none
  deriving DecidableEq, Repr

/-- A unit of a source. -/
inductive Token where
  /-- A reserved word. -/
  | keyword (word : String)
  /-- Any other word. -/
  | identifier (name : String)
  /-- Quoted text, without its quotes. -/
  | string (text : String)
  | arrow (literal : String)
  | colon
  /-- The word that introduces a display name. -/
  | as (word : String)
  | tag (item : Tag)
  | comment (text : String)
  | metadata (data : Metadata)
  | flow (entry : Flow)
  | newline
  deriving DecidableEq, Repr

namespace Token

/-- The kinds of token. -/
inductive Kind where
  | keyword
  | identifier
  | string
  | arrow
  | colon
  | as
  | tag
  | comment
  | metadata
  | flow
  | newline
  deriving DecidableEq, Repr

/-- The word for a kind of token. -/
def Kind.word : Kind → String
  | keyword => "KEYWORD"
  | identifier => "IDENTIFIER"
  | string => "STRING"
  | arrow => "ARROW"
  | colon => "COLON"
  | as => "AS"
  | tag => "ANNOTATION"
  | comment => "COMMENT"
  | metadata => "INIT_DIRECTIVE"
  | flow => "FLOW_DIRECTIVE"
  | newline => "NEWLINE"

/-- All kinds of token. -/
def Kind.all : List Kind :=
  [keyword, identifier, string, arrow, colon, as, tag, comment, metadata, flow, newline]

/-- The kind of token that a word names. -/
def Kind.ofWord (word : String) : Except Failure Kind :=
  Vocabulary.tokenKind.lookup Kind.all Kind.word word

/-- The kind of a token. -/
def kind : Token → Kind
  | keyword _ => .keyword
  | identifier _ => .identifier
  | string _ => .string
  | arrow _ => .arrow
  | colon => .colon
  | as _ => .as
  | tag _ => .tag
  | comment _ => .comment
  | metadata _ => .metadata
  | flow _ => .flow
  | newline => .newline

/-- The words with a meaning of their own. -/
def reserved : List String :=
  ["sequenceDiagram", "participant", "actor", "Note", "over", "right", "left", "of", "title",
    "description"]

/-- The token of a word: reserved words are told by their exact letters, `as` by any. -/
def ofWord (word : String) : Token :=
  if reserved.contains word then keyword word
  else if word.toList.map Char.toLower = ['a', 's'] then as word
  else identifier word

/-- The token of a directive. -/
def ofDirective : Directive → Token
  | .metadata data => metadata data
  | .flow entry => flow entry
  | .comment text _ => comment text

/-- The token ends a line. -/
def isNewline : Token → Bool
  | newline => true
  | _ => false

/-- The token annotates a message, and this is what it says. -/
def tag? : Token → Option Tag
  | tag item => some item
  | _ => none

/-- What a token contributes to running text. -/
def text? : Token → Option String
  | identifier name => some name
  | string text => some text
  | _ => none

end Token

end Lifeline
