import Lifeline.Json.Value
import Lifeline.Text.Hex
import Lifeline.Text.Lines

/-!
# Writing JSON

Values as text, on one line or with one item a line. Only quotes, backslashes
and control characters are escaped; every other character stands for itself.
-/

namespace Lifeline.Json

open Text

/-- How the items of arrays and objects are set out. -/
inductive Layout where
  /-- Everything on one line. -/
  | compact
  /-- One item a line, indented by `width` spaces a level. -/
  | indented (width : Nat)
  deriving DecidableEq, Repr

/-- The indentation is a signed word of 64 bits. -/
def isIndent (n : Int) : Bool := decide (Int64.minValue.toInt ≤ n ∧ n ≤ Int64.maxValue.toInt)

/-- No indentation asks for one line; a negative one counts as zero. There is no layout for an
indentation that is no word. -/
def Layout.ofIndent? : Option Int → Option Layout
  | none => some .compact
  | some n => if isIndent n then some (.indented n.toNat) else none

/-- What separates a bracket from the item beside it at nesting `depth`. -/
def Layout.lineBreak (l : Layout) (depth : Nat) : List Char :=
  match l with
  | .compact => []
  | .indented width => '\n' :: List.replicate (width * depth) ' '

/-- What separates two items at nesting `depth`. -/
def Layout.separator (l : Layout) (depth : Nat) : List Char :=
  match l with
  | .compact => [',', ' ']
  | .indented _ => ',' :: l.lineBreak depth

/-- Items between brackets; nothing is put between the brackets of an empty list. -/
def Layout.enclose (l : Layout) (depth : Nat) (opener closer : Char) (items : List (List Char)) :
    List Char :=
  if items.isEmpty then [opener, closer]
  else opener :: l.lineBreak (depth + 1) ++ joinWith (l.separator (depth + 1)) items ++
    l.lineBreak depth ++ [closer]

/-- How one character is written inside a string. -/
def escapeChar (c : Char) : List Char :=
  match c with
  | '"' => ['\\', '"']
  | '\\' => ['\\', '\\']
  | '\n' => ['\\', 'n']
  | '\r' => ['\\', 'r']
  | '\t' => ['\\', 't']
  | '\x08' => ['\\', 'b']
  | '\x0c' => ['\\', 'f']
  | c => if c.toNat < 0x20 then '\\' :: 'u' :: hexDigits 4 c.toNat else [c]

/-- A string with its quotes. -/
def writeString (s : String) : List Char := '"' :: s.toList.flatMap escapeChar ++ ['"']

/-- An integer in decimal. -/
def writeInteger : Int → List Char
  | .ofNat n => Nat.toDigits 10 n
  | .negSucc n => '-' :: Nat.toDigits 10 (n + 1)

mutual

/-- A value as text, its first line already indented to `depth`. -/
def Value.write (l : Layout) (depth : Nat) : Value → List Char
  | .null => ['n', 'u', 'l', 'l']
  | .bool true => ['t', 'r', 'u', 'e']
  | .bool false => ['f', 'a', 'l', 's', 'e']
  | .integer n => writeInteger n
  | .real literal => literal.toList
  | .string s => writeString s
  | .array items => l.enclose depth '[' ']' (writeItems l (depth + 1) items)
  | .object members => l.enclose depth '\x7b' '\x7d' (writeMembers l (depth + 1) members)

/-- The items of an array, each as text. -/
def writeItems (l : Layout) (depth : Nat) : List Value → List (List Char)
  | [] => []
  | v :: vs => v.write l depth :: writeItems l depth vs

/-- The members of an object, each as text. -/
def writeMembers (l : Layout) (depth : Nat) : List (String × Value) → List (List Char)
  | [] => []
  | (name, v) :: ms =>
    (writeString name ++ ':' :: ' ' :: v.write l depth) :: writeMembers l depth ms

end

/-- A value as a text of its own, ended by a line end. -/
def Value.render (l : Layout) (v : Value) : String := String.ofList (v.write l 0 ++ ['\n'])

end Lifeline.Json
