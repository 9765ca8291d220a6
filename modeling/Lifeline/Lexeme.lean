import Lifeline.Arrow
import Lifeline.Bracket
import Lifeline.Token

/-!
# Lexemes

A lexeme is a piece of source text that makes one token. It keeps every character
of its piece, so `Lexeme.text` gives the piece back, and it keeps whether text
that must be closed is closed: where it is not, it runs to the end of the source.
-/

namespace Lifeline

open Text

/-- The quotes that text may stand in. -/
inductive Quote where
  | double
  | single
  deriving DecidableEq, Repr

/-- The character of a quote. -/
def Quote.char : Quote → Char
  | double => '"'
  | single => '\''

/-- The quote that a character is. -/
def Quote.ofChar? (c : Char) : Option Quote :=
  if c = '"' then some double else if c = '\'' then some single else none

/-- A character is the quote that it is read as. -/
theorem Quote.char_of_ofChar? {c : Char} {q : Quote} (h : ofChar? c = some q) : q.char = c := by
  rw [ofChar?] at h
  split at h
  · cases h
    simp_all [char]
  · split at h <;> cases h
    simp_all [char]

/-- Text up to a closing mark, or up to the end of the source if there is none. -/
structure Enclosed where
  content : List Char
  closed : Bool
  deriving DecidableEq, Repr

/-- The enclosed text with the mark that closes it. -/
def Enclosed.text (mark : Char) (e : Enclosed) : List Char :=
  e.content ++ if e.closed then [mark] else []

/-- Encloses what a search for the closing mark has found in `s`. -/
def Enclosed.ofSplit (s : List Char) : Option (List Char × List Char) → Enclosed × List Char
  | some (content, rest) => (⟨content, true⟩, rest)
  | none => (⟨s, false⟩, [])

/-- Enclosing loses nothing if the search has lost nothing. -/
theorem Enclosed.ofSplit_append {mark : Char} {s : List Char}
    {found : Option (List Char × List Char)}
    (h : ∀ p, found = some p → p.1 ++ mark :: p.2 = s) :
    (ofSplit s found).1.text mark ++ (ofSplit s found).2 = s := by
  cases found with
  | none => simp [ofSplit, text]
  | some p => simpa [ofSplit, text] using h p rfl

/-- A piece of source text that makes one token. -/
inductive Lexeme where
  | newline
  | colon
  | arrow (a : Arrow)
  | word (letters : List Char)
  | quoted (quote : Quote) (inside : Enclosed)
  /-- `@`, a name that may be empty, and perhaps a value in brackets. -/
  | tag (name : List Char) (value : Option (Bracket × Enclosed))
  /-- A directive that runs to the end of its line, without its `%%`. -/
  | lineDirective (rest : List Char)
  /-- A directive in braces, without its brackets; it may run over several lines. -/
  | blockDirective (body : List Char)
  deriving DecidableEq, Repr

namespace Lexeme

/-- The characters of the value of a tag, brackets included. -/
def valueText : Option (Bracket × Enclosed) → List Char
  | none => []
  | some (bracket, inside) => bracket.opener :: inside.text bracket.closer

/-- The characters of a lexeme. -/
def text : Lexeme → List Char
  | newline => ['\n']
  | colon => [':']
  | arrow a => a.chars
  | word letters => letters
  | quoted quote inside => quote.char :: inside.text quote.char
  | tag name value => '@' :: name ++ valueText value
  | lineDirective rest => '%' :: '%' :: rest
  | blockDirective body => '%' :: '%' :: '\x7b' :: body ++ Directive.terminator

/-- The token of a lexeme. -/
def token : Lexeme → Except Failure Token
  | newline => .ok .newline
  | colon => .ok .colon
  | arrow a => .ok (.arrow a.literal)
  | word letters => .ok (.ofWord (String.ofList letters))
  | quoted _ inside => .ok (.string (String.ofList inside.content))
  | tag name value =>
    .ok (.tag ⟨String.ofList name, value.map fun v => String.ofList v.2.content⟩)
  | lineDirective rest => (Directive.read (lineDirective rest).text).map Token.ofDirective
  | blockDirective body => (Directive.read (blockDirective body).text).map Token.ofDirective

/-- The notices that making a token of a lexeme gives. -/
def notices (l : Lexeme) : List Notice :=
  match l with
  | lineDirective _ | blockDirective _ =>
    match Directive.read l.text with
    | .ok d => d.notices
    | .error _ => []
  | _ => []

end Lexeme

end Lifeline
