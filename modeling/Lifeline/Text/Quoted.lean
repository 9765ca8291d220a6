import Lifeline.Text.Hex
import Lifeline.Text.Printable

/-!
# Quoted names

How a diagnostic shows a file name: in single quotes, or in double quotes when
the name holds a single quote and no double one, with every character that
cannot be shown replaced by an escape.
-/

namespace Lifeline.Text

/-- How one character is written between the quotes `q`. -/
def quotedChar (q c : Char) : List Char :=
  if c = q ∨ c = '\\' then ['\\', c]
  else if c = '\t' then ['\\', 't']
  else if c = '\n' then ['\\', 'n']
  else if c = '\r' then ['\\', 'r']
  else if isPrintable c then [c]
  else if c.toNat ≤ 0xFF then '\\' :: 'x' :: hexDigits 2 c.toNat
  else if c.toNat ≤ 0xFFFF then '\\' :: 'u' :: hexDigits 4 c.toNat
  else '\\' :: 'U' :: hexDigits 8 c.toNat

/-- A name in quotes. -/
def quoted (name : String) : String :=
  let s := name.toList
  let q := if s.contains '\'' && !s.contains '"' then '"' else '\''
  String.ofList (q :: s.flatMap (quotedChar q) ++ [q])

end Lifeline.Text
