import Lifeline.Json.Value
import Lifeline.Text.Hex
import Lifeline.Text.Integer

/-!
# Reading JSON

A reader from characters to values. It accepts the standard grammar and the
three number words `NaN`, `Infinity` and `-Infinity`. It reads from left to
right and stops at the first fault, so a numeral that is too long to convert is
reported even when the text after it is malformed.
-/

namespace Lifeline.Json

open Text

/-- Why a text is not read as a value. -/
inductive Fault where
  /-- The text does not follow the grammar. -/
  | malformed
  /-- An integer has more digits than are converted. -/
  | numeralTooLong (digits : Nat)
  deriving DecidableEq, Repr

/-- The four characters that may stand between the parts of a value. -/
def isSpace (c : Char) : Bool := c == ' ' || c == '\t' || c == '\n' || c == '\r'

/-- The text from its first character that is no space. -/
def skipSpace (s : List Char) : List Char := s.dropWhile isSpace

/-- The character that a one-letter escape stands for. -/
def escaped? (c : Char) : Option Char :=
  match c with
  | '"' => some '"'
  | '\\' => some '\\'
  | '/' => some '/'
  | 'b' => some '\x08'
  | 'f' => some '\x0c'
  | 'n' => some '\n'
  | 'r' => some '\r'
  | 't' => some '\t'
  | _ => none

/-- The code unit of four hexadecimal digits. -/
def codeUnit? (a b c d : Char) : Option Nat := do
  return ((← hexValue? a) * 16 + (← hexValue? b)) * 256 + (← hexValue? c) * 16 + (← hexValue? d)

/-- The code points of a string, from behind its opening quote to behind its closing quote. -/
def readCodes : List Char → Option (List Nat × List Char)
  | [] => none
  | c :: s =>
    if c = '"' then some ([], s)
    else if c = '\\' then
      match s with
      | 'u' :: a :: b :: c :: d :: s => do
        let n ← codeUnit? a b c d
        let (ns, rest) ← readCodes s
        return (n :: ns, rest)
      | e :: s => do
        let c ← escaped? e
        let (ns, rest) ← readCodes s
        return (c.toNat :: ns, rest)
      | [] => none
    else if c.toNat < 0x20 then none
    else do
      let (ns, rest) ← readCodes s
      return (c.toNat :: ns, rest)

/-- A high surrogate followed by a low one stands for one character; no other surrogate stands
for any, and U+FFFD takes its place. -/
def joinSurrogates : List Nat → List Char
  | [] => []
  | [n] => [if n.isValidChar then Char.ofNat n else '\uFFFD']
  | n :: m :: ns =>
    if 0xD800 ≤ n ∧ n < 0xDC00 ∧ 0xDC00 ≤ m ∧ m < 0xE000 then
      Char.ofNat (0x10000 + (n - 0xD800) * 0x400 + (m - 0xDC00)) :: joinSurrogates ns
    else (if n.isValidChar then Char.ofNat n else '\uFFFD') :: joinSurrogates (m :: ns)

/-- Reads a string from behind its opening quote. -/
def readString (s : List Char) : Except Fault (String × List Char) :=
  match readCodes s with
  | some (ns, rest) => .ok (String.ofList (joinSurrogates ns), rest)
  | none => .error .malformed

/-- The whole part of a number: one zero, or digits that do not start with a zero. -/
def wholePart (s : List Char) : List Char × List Char :=
  match s with
  | '0' :: s => (['0'], s)
  | s => (s.takeWhile Char.isDigit, s.dropWhile Char.isDigit)

/-- A fraction: a point and at least one digit, or nothing. -/
def fraction (s : List Char) : List Char × List Char :=
  match s with
  | '.' :: r =>
    let ds := r.takeWhile Char.isDigit
    if ds.isEmpty then ([], s) else ('.' :: ds, r.dropWhile Char.isDigit)
  | _ => ([], s)

/-- The optional sign of an exponent. -/
def exponentSign (s : List Char) : List Char × List Char :=
  match s with
  | '+' :: r => (['+'], r)
  | '-' :: r => (['-'], r)
  | _ => ([], s)

/-- An exponent with at least one digit, or nothing. -/
def exponent (s : List Char) : List Char × List Char :=
  match s with
  | [] => ([], [])
  | e :: r =>
    let (sign, r) := exponentSign r
    let ds := r.takeWhile Char.isDigit
    if (e = 'e' ∨ e = 'E') ∧ !ds.isEmpty then (e :: sign ++ ds, r.dropWhile Char.isDigit)
    else ([], s)

/-- Reads a number whose optional minus sign is already taken off. -/
def readUnsigned (negative : Bool) (s : List Char) : Except Fault (Value × List Char) :=
  let (digits, s) := wholePart s
  let (frac, s) := fraction s
  let (expo, s) := exponent s
  if digits.isEmpty then .error .malformed
  else if frac.isEmpty && expo.isEmpty then
    if digits.length ≤ maxDigits then
      let n : Int := ofDigits (digits.map fun c => c.toNat - '0'.toNat)
      .ok (.integer (if negative then -n else n), s)
    else .error (.numeralTooLong digits.length)
  else
    .ok (.real (String.ofList ((if negative then ['-'] else []) ++ digits ++ frac ++ expo)), s)

/-- The words that stand for values. -/
def words : List (List Char × Value) :=
  [("null".toList, .null), ("true".toList, .bool true), ("false".toList, .bool false),
    ("NaN".toList, .real "NaN"), ("Infinity".toList, .real "Infinity"),
    ("-Infinity".toList, .real "-Infinity")]

/-- Reads a word or a number. -/
def readAtom (s : List Char) : Except Fault (Value × List Char) :=
  match words.find? fun w => w.1.isPrefixOf s with
  | some (w, v) => .ok (v, s.drop w.length)
  | none =>
    match s with
    | '-' :: s => readUnsigned true s
    | s => readUnsigned false s

mutual

/-- Reads one value. The fuel bounds the nesting of calls; `read` supplies enough of it. -/
def readValue : Nat → List Char → Except Fault (Value × List Char)
  | 0, _ => .error .malformed
  | fuel + 1, s =>
    match s with
    | '"' :: s => do
      let (text, s) ← readString s
      return (.string text, s)
    | '[' :: s =>
      match skipSpace s with
      | ']' :: s => .ok (.array [], s)
      | s => do
        let (items, s) ← readItems fuel s
        return (.array items, s)
    | '\x7b' :: s =>
      match skipSpace s with
      | '\x7d' :: s => .ok (.object [], s)
      | s => do
        let (members, s) ← readMembers fuel s
        return (.object members, s)
    | s => readAtom s

/-- Reads the items of an array, from its first item to behind its closing bracket. -/
def readItems : Nat → List Char → Except Fault (List Value × List Char)
  | 0, _ => .error .malformed
  | fuel + 1, s => do
    let (v, s) ← readValue fuel s
    match skipSpace s with
    | ']' :: s => return ([v], s)
    | ',' :: s =>
      let (vs, s) ← readItems fuel (skipSpace s)
      return (v :: vs, s)
    | _ => .error .malformed

/-- Reads the members of an object, from its first name to behind its closing brace. -/
def readMembers : Nat → List Char → Except Fault (List (String × Value) × List Char)
  | 0, _ => .error .malformed
  | fuel + 1, s =>
    match s with
    | '"' :: s => do
      let (name, s) ← readString s
      match skipSpace s with
      | ':' :: s =>
        let (v, s) ← readValue fuel (skipSpace s)
        match skipSpace s with
        | '\x7d' :: s => return ([(name, v)], s)
        | ',' :: s =>
          let (ms, s) ← readMembers fuel (skipSpace s)
          return ((name, v) :: ms, s)
        | _ => .error .malformed
      | _ => .error .malformed
    | _ => .error .malformed

end

/-- Reads a text that holds exactly one value. Every bracket and every item consumes a character
before the next nested call, so twice the length of the text is enough fuel. -/
def read (s : List Char) : Except Fault Value := do
  let (v, rest) ← readValue (2 * s.length + 2) (skipSpace s)
  if (skipSpace rest).isEmpty then return v else .error .malformed

end Lifeline.Json
