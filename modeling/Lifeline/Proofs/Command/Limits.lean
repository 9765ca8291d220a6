import Lifeline.Proofs.Command.Cases
import Mathlib.Data.List.Chain

/-!
# The limits of a run

Some of what a run may be asked for is given by no machine: brackets that are followed
to any depth, a text of any length, a NUL in an argument. And a string with half of a
surrogate pair is no text, so a rendering that shows it cannot be written. The model
leaves out how such a run ends. Limits that every machine keeps are named here, for
statements about the ends of runs to keep to.
-/

namespace Lifeline

namespace Json

/-- The first of two codes that stand for one character. -/
def isHigh (n : Nat) : Bool := decide (0xD800 ≤ n ∧ n < 0xDC00)

/-- The second of two codes that stand for one character. -/
def isLow (n : Nat) : Bool := decide (0xDC00 ≤ n ∧ n < 0xE000)

/-- No code is half of a pair: a second one stands behind each first one, and nowhere else. -/
def Paired (codes : List Nat) : Prop :=
  (0 :: codes ++ [0]).IsChain fun n m => isHigh n = isLow m

instance (codes : List Nat) : Decidable (Paired codes) :=
  inferInstanceAs (Decidable (List.IsChain _ _))

/-- The codes of what can be read as a string behind the quotes of a text. -/
def strings : List Char → List (List Nat)
  | [] => []
  | c :: s => (if c = '"' then ((readCodes s).map Prod.fst).toList else []) ++ strings s

/-- What of a text stands outside its strings; `inside` if it starts in one. -/
def outside (inside : Bool) : List Char → List Char
  | [] => []
  | '\\' :: _ :: s => outside inside s
  | '"' :: s => outside (!inside) s
  | c :: s => if inside then outside inside s else c :: outside inside s

/-- The most brackets that are open at one place of a text, `depth` of them in front of it. -/
def nesting (depth : Nat) : List Char → Nat
  | [] => depth
  | c :: s =>
    if c = '[' ∨ c = '\x7b' then nesting (depth + 1) s
    else if c = ']' ∨ c = '\x7d' then max depth (nesting (depth - 1) s)
    else nesting depth s

end Json

/-- The objects of the metadata directives of a source. -/
def Source.objects (s : List Char) : List (List Char) :=
  (lexemes s).filterMap fun
    | .blockDirective body => Directive.objectText? body
    | _ => none

namespace Command

/-- How deep brackets may nest in an object that is read. Readers follow them by calls of which
some are made already, and a thousand calls may be too many. -/
def maxNesting : Nat := 500

/-- How many characters there is always room for. -/
def maxLength : Nat := 1000000

/-- What is read and written for a source keeps to the limits. -/
structure Options.Moderate (options : Options) (source : String) : Prop where
  length : source.length ≤ maxLength
  nesting : ∀ object ∈ Source.objects source.toList,
    Json.nesting 0 (Json.outside false object) ≤ maxNesting
  /-- Spans show no string of an object. -/
  paired : options.view ≠ .spans → ∀ object ∈ Source.objects source.toList,
    ∀ codes ∈ Json.strings object, Json.Paired codes
  indent : ∀ n, options.indent = some n → Json.isIndent n = true → n ≤ maxLength
  rendering : ∀ text, options.view.render options.indent source = .ok text →
    text.length ≤ maxLength

/-- A run keeps to the limits. -/
structure KeepsToLimits (d : Directory) (stdin : ByteArray) (arguments : List String) : Prop where
  passed : ∀ argument ∈ arguments, '\x00' ∉ argument.toList
  source : ∀ options source, ReadsSource d stdin arguments options source →
    options.Moderate source

end Command

end Lifeline
