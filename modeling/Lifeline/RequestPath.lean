import Lifeline.Text.Blank
import Lifeline.Text.Upper

/-!
# Request paths

A path is written alone or behind the method of its request. A method counts
only when a blank and a path follow it, and is given in upper case whichever
case it is written in.
-/

namespace Lifeline

open Text

/-- The methods of a request. -/
def methods : List (List Char) :=
  ["GET".toList, "POST".toList, "PUT".toList, "DELETE".toList, "PATCH".toList, "HEAD".toList,
    "OPTIONS".toList]

/-- The upper-case letter that a letter counts as in the name of a method: besides the ASCII
letters, the long s counts as S, and i without dot and I with dot count as I. -/
def methodLetter (c : Char) : Char :=
  if c = 'ſ' then 'S' else if c = 'ı' ∨ c = 'İ' then 'I' else c.toUpper

/-- The method that a text starts with, and the text behind it. -/
def splitMethod (s : List Char) : Option (List Char × List Char) :=
  methods.findSome? fun m =>
    if m.isPrefixOf (s.map methodLetter) then some (s.take m.length, s.drop m.length) else none

/-- A path with the method in front of it, if a blank separates the two. The method is given in
upper case. -/
def splitPath (value : List Char) : Option (List Char) × List Char :=
  let s := trim value
  match splitMethod s with
  | some (method, c :: rest) =>
    if isBlank c then (some (upper method), trim rest) else (none, s)
  | _ => (none, s)

end Lifeline
