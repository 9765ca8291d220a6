import Lifeline.Text.Search

/-!
# Brackets

An annotation value stands in round or curly brackets. Only brackets of its own
kind count: the value ends where their depth returns to zero, and a value can be
written in a kind of bracket exactly when it is balanced for that kind.
-/

namespace Lifeline

/-- A kind of bracket. -/
inductive Bracket where
  | round
  | curly
  deriving DecidableEq, Repr

namespace Bracket

/-- The bracket that opens a value. -/
def opener : Bracket → Char
  | round => '('
  | curly => '\x7b'

/-- The bracket that closes a value. -/
def closer : Bracket → Char
  | round => ')'
  | curly => '\x7d'

/-- The other kind of bracket. -/
def other : Bracket → Bracket
  | round => curly
  | curly => round

/-- The kind of bracket that a character opens. -/
def ofOpener? (c : Char) : Option Bracket :=
  if c = '(' then some round else if c = '\x7b' then some curly else none

/-- A character opens the kind of bracket whose opener it is. -/
theorem ofOpener?_eq_some_iff {c : Char} {b : Bracket} : ofOpener? c = some b ↔ c = b.opener := by
  rw [ofOpener?]
  split
  · next h =>
    subst h
    cases b <;> decide
  · next h =>
    split
    · next h' =>
      subst h'
      cases b <;> decide
    · next h' => cases b <;> simp_all [opener]

/-- The value up to the bracket that closes it, and the text behind that bracket; `depth` further
brackets stand open inside the value. -/
def split (b : Bracket) : Nat → List Char → Option (List Char × List Char)
  | _, [] => none
  | depth, c :: s =>
    if c = b.opener then (b.split (depth + 1) s).map (Text.extend c)
    else if c = b.closer then
      match depth with
      | 0 => some ([], s)
      | depth + 1 => (b.split depth s).map (Text.extend c)
    else (b.split depth s).map (Text.extend c)

/-- With `depth` brackets open before it, the text closes all of them and never one more. -/
def closes (b : Bracket) : Nat → List Char → Bool
  | depth, [] => depth == 0
  | depth, c :: s =>
    if c = b.opener then b.closes (depth + 1) s
    else if c = b.closer then
      match depth with
      | 0 => false
      | depth + 1 => b.closes depth s
    else b.closes depth s

/-- Every bracket of this kind in the value has its partner in the value. -/
def balanced (b : Bracket) (value : List Char) : Bool := b.closes 0 value

/-- The kind of bracket to write a value in: the preferred one, unless only the other one holds
the value together. -/
def choose (preferred : Bracket) (value : List Char) : Bracket :=
  if !preferred.balanced value && preferred.other.balanced value then preferred.other
  else preferred

/-- A value in brackets. -/
def enclose (b : Bracket) (value : List Char) : List Char := b.opener :: value ++ [b.closer]

/-- Splitting loses nothing: value, closing bracket and rest are the text. -/
theorem split_append {b : Bracket} {depth : Nat} {s value rest : List Char}
    (h : b.split depth s = some (value, rest)) : value ++ b.closer :: rest = s := by
  induction s generalizing depth value with
  | nil => simp [split] at h
  | cons c s ih =>
    have hstep {d : Nat} (hd : (b.split d s).map (Text.extend c) = some (value, rest)) :
        value ++ b.closer :: rest = c :: s := by
      obtain ⟨⟨v, r⟩, hv, he⟩ := Option.map_eq_some_iff.mp hd
      cases he
      exact congrArg (c :: ·) (ih hv)
    cases depth with
    | zero =>
      rw [split] at h
      split at h
      · exact hstep h
      · split at h
        · next hc =>
          cases h
          simp [hc]
        · exact hstep h
    | succ depth =>
      rw [split] at h
      split at h
      · exact hstep h
      · split at h <;> exact hstep h

end Bracket

end Lifeline
