import Lifeline.Text.Blank

/-!
# Decimal integers

Reading an integer as a person types it: blanks around it, an optional sign,
digits of any script, and single underscores between digits. Numerals beyond
`maxDigits` digits are not converted at all.
-/

namespace Lifeline.Text

/-- The longest numeral that is converted to an integer. -/
def maxDigits : Nat := 4300

/-- The zero of every decimal digit block; its nine successors are the digits one to nine. -/
def digitZeros : List Nat :=
  [0x30, 0x660, 0x6F0, 0x7C0, 0x966, 0x9E6, 0xA66, 0xAE6, 0xB66, 0xBE6, 0xC66, 0xCE6, 0xD66, 0xDE6,
   0xE50, 0xED0, 0xF20, 0x1040, 0x1090, 0x17E0, 0x1810, 0x1946, 0x19D0, 0x1A80, 0x1A90, 0x1B50,
   0x1BB0, 0x1C40, 0x1C50, 0xA620, 0xA8D0, 0xA900, 0xA9D0, 0xA9F0, 0xAA50, 0xABF0, 0xFF10, 0x104A0,
   0x10D30, 0x11066, 0x110F0, 0x11136, 0x111D0, 0x112F0, 0x11450, 0x114D0, 0x11650, 0x116C0,
   0x11730, 0x118E0, 0x11950, 0x11C50, 0x11D50, 0x11DA0, 0x16A60, 0x16AC0, 0x16B50, 0x1D7CE,
   0x1D7D8, 0x1D7E2, 0x1D7EC, 0x1D7F6, 0x1E140, 0x1E2F0, 0x1E950, 0x1FBF0]

/-- The value of a decimal digit of any script. -/
def digitValue? (c : Char) : Option Nat :=
  (digitZeros.find? fun z => z ≤ c.toNat && c.toNat ≤ z + 9).map (c.toNat - ·)

/-- The number that a list of digit values spells. -/
def ofDigits (ds : List Nat) : Nat := ds.foldl (fun n d => 10 * n + d) 0

/-- The digits of a numeral; an underscore is allowed only between two digits. -/
def numeralDigits? : List Char → Option (List Nat)
  | [] => none
  | [c] => (digitValue? c).map ([·])
  | c :: '_' :: s => do return (← digitValue? c) :: (← numeralDigits? s)
  | c :: s => do return (← digitValue? c) :: (← numeralDigits? s)

/-- A blank that may surround an integer: the information separators 28-31 may not. -/
def isIntegerBlank (c : Char) : Bool :=
  isBlank c && !(0x1C ≤ c.toNat && c.toNat ≤ 0x1F)

/-- Reads an unsigned numeral of at most `maxDigits` digits. -/
def natural? (s : List Char) : Option Nat := do
  let ds ← numeralDigits? s
  if ds.length ≤ maxDigits then some (ofDigits ds) else none

/-- Reads an integer. -/
def integer? (s : List Char) : Option Int :=
  let s := ((s.dropWhile isIntegerBlank).reverse.dropWhile isIntegerBlank).reverse
  match s with
  | '-' :: s => (natural? s).map fun n => -(n : Int)
  | '+' :: s => (natural? s).map Int.ofNat
  | s => (natural? s).map Int.ofNat

end Lifeline.Text
